import BlobUpload.Chunk

/-! # Spans tile what they cover

The spans that cover a length follow one another without gaps, so the slices of a byte string
along them put the string together again. -/

namespace BlobUpload

/-- The bytes of a span. -/
def Bytes.slice (data : Bytes) (s : Span) : Bytes := (data.drop s.start).take s.length

namespace Span

/-- The same span, `n` bytes further on. -/
def shift (n : Nat) (s : Span) : Span := ⟨s.start + n, s.stop + n⟩

theorem length_shift (n : Nat) (s : Span) : (s.shift n).length = s.length := by
  simp only [length, shift]
  omega

/-! ## Counting -/

theorem count_zero (size : Nat) : count 0 size = 0 := by
  have hpos : 1 ≤ max size 1 := Nat.le_max_right _ _
  exact Nat.div_eq_of_lt (by omega)

theorem count_of_pos {length : Nat} (size : Nat) (hpos : 0 < length) :
    count length size = count (length - max size 1) size + 1 := by
  have hstep : 1 ≤ max size 1 := Nat.le_max_right _ _
  simp only [count]
  generalize max size 1 = m at hstep
  rcases Nat.lt_or_ge length m with hshort | hlong
  · rw [Nat.sub_eq_zero_of_le (Nat.le_of_lt hshort), Nat.div_eq_of_lt (a := 0 + (m - 1)) (by omega)]
    exact Nat.div_eq_of_lt_le (by omega) (by omega)
  · rw [show length + (m - 1) = length - m + (m - 1) + m by omega]
    exact Nat.add_div_right _ (by omega)

/-- The spans that begin before the end are the ones that are counted. -/
theorem lt_count_iff (length size i : Nat) : i < count length size ↔ i * max size 1 < length := by
  have hstep : 0 < max size 1 := Nat.lt_of_lt_of_le Nat.one_pos (Nat.le_max_right _ _)
  rw [count, Nat.lt_iff_add_one_le, Nat.le_div_iff_mul_le hstep, Nat.add_mul, Nat.one_mul]
  omega

theorem length_cover (length size : Nat) : (cover length size).length = count length size := by
  rw [cover, List.length_map, List.length_range]

theorem mem_cover {length size : Nat} {s : Span} :
    s ∈ cover length size ↔ ∃ i < count length size, nth length size i = s := by
  simp only [cover, List.mem_map, List.mem_range]

theorem bounds_of_mem {length size : Nat} {s : Span} (hs : s ∈ cover length size) :
    s.start < s.stop ∧ s.stop ≤ length ∧ s.length ≤ max size 1 := by
  have hstep : 1 ≤ max size 1 := Nat.le_max_right _ _
  obtain ⟨i, hi, rfl⟩ := mem_cover.1 hs
  have hinside := (lt_count_iff _ _ _).1 hi
  simp only [nth, Span.length]
  omega

/-- Each span begins behind the one before it. -/
theorem sorted_cover (length size : Nat) :
    (cover length size).Pairwise (·.start < ·.start) := by
  have hstep : 0 < max size 1 := Nat.lt_of_lt_of_le Nat.one_pos (Nat.le_max_right _ _)
  rw [cover, List.pairwise_map]
  exact List.pairwise_lt_range.imp fun hbefore => Nat.mul_lt_mul_of_pos_right hbefore hstep

theorem nodup_starts (length size : Nat) : ((cover length size).map Span.start).Nodup :=
  List.pairwise_map.2 ((sorted_cover length size).imp Nat.ne_of_lt)

theorem cover_zero (size : Nat) : cover 0 size = [] := by
  rw [cover, count_zero]
  rfl

theorem nth_zero (length size : Nat) : nth length size 0 = ⟨0, min (max size 1) length⟩ := by
  simp only [nth, Nat.zero_mul, Nat.zero_add]

theorem nth_succ {length size i : Nat} (h : max size 1 ≤ length) :
    nth length size (i + 1) = (nth (length - max size 1) size i).shift (max size 1) := by
  simp only [nth, shift, Nat.add_mul, Nat.one_mul, Span.mk.injEq, true_and]
  generalize max size 1 = m at h
  generalize i * m = start
  omega

/-- The first span ends after a full step or with the length; the others cover the rest. -/
theorem cover_of_pos {length : Nat} (size : Nat) (hpos : 0 < length) :
    cover length size = ⟨0, min (max size 1) length⟩ ::
      (cover (length - max size 1) size).map (shift (max size 1)) := by
  rw [cover, count_of_pos size hpos, List.range_succ_eq_map, List.map_cons, nth_zero, cover,
    List.map_map, List.map_map]
  congr 1
  apply List.map_congr_left
  intro i hi
  have hinside := (lt_count_iff _ _ _).1 (List.mem_range.1 hi)
  exact nth_succ (by omega)

end Span

/-! ## Slices -/

theorem Bytes.slice_shift (data : Bytes) (n : Nat) (s : Span) :
    data.slice (s.shift n) = Bytes.slice (data.drop n) s := by
  rw [Bytes.slice, Span.length_shift, Bytes.slice, List.drop_drop, Nat.add_comm n]
  rfl

theorem Bytes.slice_zero (data : Bytes) (n : Nat) : data.slice ⟨0, n⟩ = data.take n := rfl

/-- Put one after another, the slices along a cover are the bytes that it covers. -/
theorem Bytes.flatMap_slice_cover (data : Bytes) (length size : Nat) :
    (Span.cover length size).flatMap data.slice = data.take length := by
  induction length using Nat.strongRecOn generalizing data with
  | ind length ih =>
      rcases Nat.eq_zero_or_pos length with rfl | hpos
      · rw [Span.cover_zero, List.flatMap_nil, List.take_zero]
      · have hstep : 1 ≤ max size 1 := Nat.le_max_right _ _
        have hrest := ih (length - max size 1) (by omega) (data.drop (max size 1))
        rw [Span.cover_of_pos size hpos, List.flatMap_cons, List.flatMap_map, Bytes.slice_zero]
        simp only [Bytes.slice_shift, hrest]
        rcases Nat.le_total length (max size 1) with hshort | hlong
        · rw [Nat.min_eq_right hshort, Nat.sub_eq_zero_of_le hshort, List.take_zero,
            List.append_nil]
        · rw [Nat.min_eq_left hlong, ← List.take_add, Nat.add_sub_cancel' hlong]

/-- The span with a number begins after so many steps and is a step long, as far as there are
bytes that the cover reaches. -/
theorem Bytes.slice_nth (data : Bytes) (length size i : Nat) :
    data.slice (Span.nth length size i) =
      ((data.take length).drop (i * max size 1)).take (max size 1) := by
  rw [Bytes.slice, List.drop_take, List.take_take]
  congr 1
  simp only [Span.length, Span.nth]
  generalize i * max size 1 = start
  omega

/-- Covering more than there is makes no difference to the slices. -/
theorem Bytes.slice_nth_take (data : Bytes) (length size i : Nat) :
    Bytes.slice (data.take length) (Span.nth (data.take length).length size i) =
      data.slice (Span.nth length size i) := by
  rw [slice_nth, slice_nth, List.take_length]

theorem Bytes.slice_nth_ne_nil_iff (data : Bytes) (length size i : Nat) :
    data.slice (Span.nth length size i) ≠ [] ↔ i < Span.count (data.take length).length size := by
  have hstep : 1 ≤ max size 1 := Nat.le_max_right _ _
  rw [Span.lt_count_iff, slice_nth, ne_eq, List.take_eq_nil_iff, List.drop_eq_nil_iff]
  omega

end BlobUpload
