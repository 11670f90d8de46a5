import BlobUpload.Proofs.Cutter.PlainChunks
import BlobUpload.Proofs.Window.View
import BlobUpload.Upload.Pool.Basic
import Mathlib.Algebra.Order.Floor.Div

/-! # Spans that are computed and chunks that are read

Several workers share spans that are computed before anything is read, a single worker takes the
chunks as they come. Both cut alike: a cutter that may read so many bytes answers a chunk for every
span that covers them (`toList_of_declared`), and a cutter for one of the spans answers just that
one (`toList_cutterFor`). Nothing but the bytes that a reader holds matters for either. -/

namespace BlobUpload

/-- The spans follow one another without gaps from 0 to `length`, in steps of `size` but for the
last one, which holds the rest. -/
structure Span.Divide (length size : Nat) (spans : List Span) : Prop where
  count : spans.length = length ⌈/⌉ size
  nonempty : ∀ s ∈ spans, s.start < s.stop
  first : ∀ h : 0 < spans.length, spans[0].start = 0
  next : ∀ i (h : i + 1 < spans.length), spans[i + 1].start = spans[i].stop
  last : ∀ i (h : i < spans.length), i + 1 = spans.length → spans[i].stop = length
  full : ∀ i (h : i + 1 < spans.length), spans[i].length = size
  length_le : ∀ s ∈ spans, s.length ≤ size

namespace Span

/-! ## Spans that are computed -/

theorem getElem_cover {length size i : Nat} (h : i < (cover length size).length) :
    (cover length size)[i] = nth length size i := by simp [cover]

theorem cover_divides (length size : Nat) : Divide length (max size 1) (cover length size) := by
  have hstep : 1 ≤ max size 1 := Nat.le_max_right _ _
  have hbefore (i : Nat) : i < (cover length size).length ↔ i * max size 1 < length := by
    rw [length_cover, lt_count_iff]
  have hbehind (i : Nat) : (i + 1) * max size 1 = i * max size 1 + max size 1 := Nat.succ_mul i _
  refine ⟨?count, fun s hmem => (bounds_of_mem hmem).1, ?first, ?next, ?last, ?full,
    fun s hmem => (bounds_of_mem hmem).2.2⟩
  case count =>
    rw [length_cover, count, Nat.ceilDiv_eq_add_pred_div, Nat.add_sub_assoc hstep]
  case first =>
    intro h
    rw [getElem_cover, nth_zero]
  case next =>
    intro i h
    have hinside := (hbefore (i + 1)).1 h
    have := hbehind i
    rw [getElem_cover, getElem_cover]
    simp only [nth]
    omega
  case last =>
    intro i h hlast
    have hinside := (hbefore i).1 h
    have houtside := hbefore (i + 1)
    have := hbehind i
    rw [getElem_cover]
    simp only [nth]
    omega
  case full =>
    intro i h
    have hinside := (hbefore (i + 1)).1 h
    have := hbehind i
    rw [getElem_cover]
    simp only [nth, Span.length]
    omega

end Span

theorem Bytes.length_slice {data : Bytes} {s : Span} (hinside : s.stop ≤ data.length) :
    (data.slice s).length = s.length := by
  rw [slice, List.length_take, List.length_drop, Span.length]
  omega

/-- A chunk with the bytes of a span fills the span. -/
theorem Chunk.span_slice {data : Bytes} {s : Span} (hnonempty : s.start < s.stop)
    (hinside : s.stop ≤ data.length) (isLast : Bool) :
    Chunk.span ⟨s.start, data.slice s, isLast⟩ = s := by
  rw [span, stop, length, Bytes.length_slice hinside, Span.length,
    Nat.add_sub_cancel' (Nat.le_of_lt hnonempty)]

namespace Cutter

/-! ## Chunks that are read -/

/-- Covering in steps of a chunk is covering in steps of the size that was asked for. -/
theorem cover_ofSize (length size : Nat) :
    Span.cover length (ofSize size).chunkSize = Span.cover length size := by
  have hstep : max (max size 1) 1 = max size 1 := Nat.max_eq_left (Nat.le_max_right _ _)
  have hnth : Span.nth length (max size 1) = Span.nth length size := by
    funext i
    simp only [Span.nth, hstep]
  simp only [Span.cover, Span.count, ofSize, hstep, hnth]

/-- A cutter that may read `length` bytes answers a chunk for every span that covers them. -/
theorem toList_of_declared {ρ : Type} [Reader ρ] {r : ρ} {held : Bytes}
    (hholds : Reader.Holds r held) {length : Nat} (henough : length ≤ held.length) (size : Nat) :
    (toList { ofSize size with remaining := some length } r).1 =
      (Span.cover length size).map fun s => .ok ⟨s.start, held.slice s, s.stop = length⟩ := by
  have hwhole : (held.take length).length = length := List.length_take_of_le henough
  rw [toList_of_holds hholds rfl rfl]
  change (pieces _ (held.take length)).map _ = _
  rw [pieces, hwhole]
  change ((Span.cover length (ofSize size).chunkSize).map _).map _ = _
  rw [cover_ofSize, List.map_map]
  apply List.map_congr_left
  intro s hmem
  obtain ⟨i, -, rfl⟩ := Span.mem_cover.1 hmem
  have hsame := held.slice_nth_take length size i
  rw [hwhole] at hsame
  simp [ofSize, hsame]

/-- Bytes that fit one chunk are one piece, and known to be the last if nothing else may be read. -/
theorem pieces_of_fitting {k : Cutter} {data : Bytes} (hne : data ≠ [])
    (hfits : data.length ≤ k.chunkSize) (hknown : k.remaining = some data.length) :
    k.pieces data = [⟨k.offset, data, true⟩] := by
  have hpos := List.length_pos_iff.2 hne
  rw [pieces, Span.cover_of_pos _ hpos, max_chunkSize, Nat.sub_eq_zero_of_le hfits,
    Span.cover_zero, Nat.min_eq_right hfits, List.map_nil, List.map_singleton, Bytes.slice_zero,
    List.take_length]
  simp [hknown]

/-- A cutter for a span answers the bytes of the span as its only chunk. -/
theorem toList_cutterFor {settings : Settings} {c : CommonSource} {data : Bytes} {s : Span}
    (hserves : c.Serves data) (hnonempty : s.start < s.stop)
    (hinside : s.stop ≤ (data.drop c.origin).length) (hfits : c.origin + s.stop < UInt64.size)
    (hshort : s.length ≤ max settings.chunkSize 1) (capacity : Nat) :
    ((Pool.cutterFor settings s).toList
      (WindowReader.mk (c.window s.start s.length capacity) c)).1 =
        [.ok ⟨s.start, Bytes.slice (data.drop c.origin) s, true⟩] := by
  have hlength := Bytes.length_slice hinside
  have hstart : Offset.add c.origin s.start = c.origin + s.start := Offset.add_of_lt (by omega)
  have hregion : (c.window s.start s.length capacity).region.stop < UInt64.size := by
    change Offset.add c.origin s.start + (s.stop - s.start) < _
    omega
  have hholds : Reader.Holds (WindowReader.mk (c.window s.start s.length capacity) c)
      (Bytes.slice (data.drop c.origin) s) := by
    have hshown := WindowReader.holds_of_serves
      (r := ⟨c.window s.start s.length capacity, c⟩) hserves (Window.reflects_window ..)
      (Window.addressable_of_region hregion (Nat.zero_le _) data)
    rwa [Window.view_window, hstart, ← List.drop_drop] at hshown
  have hscope : (Pool.cutterFor settings s).scope (Bytes.slice (data.drop c.origin) s) =
      Bytes.slice (data.drop c.origin) s := List.take_of_length_le (Nat.le_of_eq hlength)
  rw [toList_of_holds hholds rfl rfl, hscope, pieces_of_fitting]
  · rfl
  · apply List.length_pos_iff.1
    rw [hlength, Span.length]
    omega
  · rw [hlength]
    exact hshort
  · exact congrArg some hlength.symm

/-! ## Both cut alike -/

/-- The spans computed for a length divide it. A cutter that may read so many bytes answers a chunk
for each of them, in their order and with their bytes. Over the window of such a span, if it ends
within 64 bits, a cutter for it answers just one chunk, which is known to be the last, fills the
span and holds its bytes. -/
theorem cuts_along_cover (length size : Nat) :
    Span.Divide length (max size 1) (Span.cover length size) ∧
    (∀ {ρ : Type} [Reader ρ] (r : ρ) (held : Bytes), Reader.Holds r held →
      length ≤ held.length →
      ∃ cs : List Chunk,
        (toList { ofSize size with remaining := some length } r).1 = cs.map .ok ∧
        cs.map Chunk.span = Span.cover length size ∧
        ∀ c ∈ cs, c.payload = held.slice c.span) ∧
    ∀ (settings : Settings) (common : CommonSource) (data : Bytes) (capacity : Nat),
      settings.chunkSize = size → common.Serves data →
      length ≤ (data.drop common.origin).length → common.origin + length < UInt64.size →
      ∀ s ∈ Span.cover length size,
        ∃ c, ((Pool.cutterFor settings s).toList
            (WindowReader.mk (common.window s.start s.length capacity) common)).1 = [.ok c] ∧
          c.isLast = true ∧ c.span = s ∧ c.payload = Bytes.slice (data.drop common.origin) s := by
  have hspan {bytes : Bytes} (henough : length ≤ bytes.length) {s : Span}
      (hmem : s ∈ Span.cover length size) (isLast : Bool) :
      Chunk.span ⟨s.start, bytes.slice s, isLast⟩ = s := by
    obtain ⟨hnonempty, hinside, -⟩ := Span.bounds_of_mem hmem
    exact Chunk.span_slice hnonempty (Nat.le_trans hinside henough) isLast
  refine ⟨Span.cover_divides length size, ?_, ?_⟩
  · intro ρ _ r held hholds henough
    refine ⟨(Span.cover length size).map fun s => ⟨s.start, held.slice s, s.stop = length⟩,
      ?_, ?_, ?_⟩
    · rw [toList_of_declared hholds henough, List.map_map]
      rfl
    · rw [List.map_map]
      exact (List.map_congr_left fun s hmem => hspan henough hmem _).trans (List.map_id _)
    · intro c hmem
      obtain ⟨s, hcovered, rfl⟩ := List.mem_map.1 hmem
      rw [hspan henough hcovered]
  · rintro settings common data capacity rfl hserves henough hfits s hmem
    obtain ⟨hnonempty, hinside, hshort⟩ := Span.bounds_of_mem hmem
    have hstop : common.origin + s.stop < UInt64.size :=
      Nat.lt_of_le_of_lt (Nat.add_le_add_left hinside _) hfits
    exact ⟨_, toList_cutterFor hserves hnonempty (Nat.le_trans hinside henough) hstop hshort
      capacity, rfl, hspan henough hmem true, rfl⟩

/-- Five bytes in steps of two, out of a source that stands behind its first byte, hands out one
byte first and is interrupted then. The last span holds the rest. -/
theorem cuts_along_cover_hesitant :
    let source : Source := { Source.hesitant [0, 1, 2, 3, 4, 5, 6] with position := 1 }
    Span.cover 5 2 = [⟨0, 2⟩, ⟨2, 4⟩, ⟨4, 5⟩] ∧
    (∃ cs : List Chunk, (toList { ofSize 2 with remaining := some 5 } source).1 = cs.map .ok ∧
      cs.map Chunk.span = [⟨0, 2⟩, ⟨2, 4⟩, ⟨4, 5⟩] ∧
      ∀ c ∈ cs, c.payload = Bytes.slice [1, 2, 3, 4, 5, 6] c.span) ∧
    ∃ c, ((Pool.cutterFor { blobType := .block, chunkSize := 2 } ⟨4, 5⟩).toList
        (WindowReader.mk (source.shared.window 4 1 3) source.shared)).1 = [.ok c] ∧
      c.isLast = true ∧ c.span = ⟨4, 5⟩ ∧ c.payload = [5] := by
  intro source
  have hwellBehaved : source.WellBehaved :=
    ⟨(Source.wellBehaved_hesitant [0, 1, 2, 3, 4, 5, 6]).delivers, rfl⟩
  have hcover : Span.cover 5 2 = [⟨0, 2⟩, ⟨2, 4⟩, ⟨4, 5⟩] := by decide
  obtain ⟨-, hdeclared, halone⟩ := cuts_along_cover 5 2
  rw [hcover] at hdeclared halone
  exact ⟨hcover,
    hdeclared source [1, 2, 3, 4, 5, 6] (Source.holds_of_delivers hwellBehaved.delivers)
      (by decide),
    halone { blobType := .block, chunkSize := 2 } source.shared [0, 1, 2, 3, 4, 5, 6] 3 rfl
      hwellBehaved.serves_shared (by decide) (by decide) ⟨4, 5⟩ (by decide)⟩

end Cutter

end BlobUpload
