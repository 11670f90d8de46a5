import BlobUpload.Proofs.Source.WellBehaved

/-! # Readers that hold bytes

A reader of any kind holds a byte string if it will hand out exactly these bytes, in pieces of any
size and with interruptions in between, and then nothing. `readUpTo` takes the front of what a
reader holds (`readUpTo_of_holds`). A source whose reads deliver holds what lies ahead of it. -/

namespace BlobUpload

/-- The reader will hand out these bytes: it ends without a failure when none of them is left, and
whatever else a read hands out is the front of them. -/
inductive Reader.Holds {ρ : Type} [Reader ρ] : ρ → Bytes → Prop
  | intro {r : ρ} {held : Bytes}
      (hstop : ∀ n failure, 0 < n → Verdict.of (Reader.read n r).1 = .stop failure →
        failure = none ∧ held = [])
      (hfront : ∀ n bytes, 0 < n → Verdict.of (Reader.read n r).1 = .more bytes → bytes <+: held)
      (hrest : ∀ n bytes, 0 < n → Verdict.of (Reader.read n r).1 = .more bytes →
        Reader.Holds (Reader.read n r).2 (held.drop bytes.length)) : Reader.Holds r held

/-- Reading up to a limit takes the front of what is held. Unless it meets the end, the reader holds
the rest. -/
theorem readUpTo_of_holds {ρ : Type} [Reader ρ] {r : ρ} {held : Bytes} (h : Reader.Holds r held)
    (n : Nat) :
    (readUpTo n r).1 = ⟨held.take n, none⟩ ∧
      (n ≤ held.length → Reader.Holds (readUpTo n r).2 (held.drop n)) := by
  fun_induction readUpTo n r generalizing held with
  | case1 r => exact ⟨by simp, fun _ => by simpa using h⟩
  | case2 n r hwanting failure hverdict =>
      obtain ⟨hstop, -, -⟩ := h
      obtain ⟨rfl, rfl⟩ := hstop n failure (Nat.pos_of_ne_zero hwanting) hverdict
      refine ⟨by simp, fun hinside => ?_⟩
      simp only [List.length_nil] at hinside
      omega
  | case3 n r hwanting bytes hverdict _ fill r' heq ih =>
      have hpos := Nat.pos_of_ne_zero hwanting
      have hle := Reader.length_le_of_more hverdict
      obtain ⟨-, hfront, hrest⟩ := h
      obtain ⟨tail, rfl⟩ := hfront n bytes hpos hverdict
      have hheld := hrest n bytes hpos hverdict
      rw [List.drop_left] at hheld
      obtain ⟨hfill_eq, hheld'⟩ := ih hheld
      simp only [heq] at hfill_eq hheld'
      constructor
      · rw [hfill_eq, List.take_append, List.take_of_length_le hle]
      · intro hinside
        rw [List.drop_append, List.drop_eq_nil_of_le hle, List.nil_append]
        apply hheld'
        rw [List.length_append] at hinside
        omega

namespace Source

/-- A source whose reads deliver holds what lies ahead. -/
theorem holds_of_delivers {s : Source} (hs : s.script.Delivers) : Reader.Holds s s.rest := by
  induction hsize : Reader.stamina s using Nat.strongRecOn generalizing s with
  | ind m ih =>
      subst hsize
      refine .intro ?stop ?front ?rest
      case stop =>
        intro n failure hpos hverdict
        rw [reader_read] at hverdict
        rcases read_of_delivers hs n with ⟨e, hfailed, hinterrupted, -⟩ | ⟨k, hgot, -, hnone, -⟩
        · simp [hfailed, Verdict.of, hinterrupted] at hverdict
        · cases htaken : s.rest.take k with
          | nil =>
              simp only [hgot, htaken, Verdict.of, Verdict.stop.injEq] at hverdict
              have hempty := List.take_eq_nil_iff.1 (hnone htaken)
              exact ⟨hverdict.symm, hempty.resolve_left (by omega)⟩
          | cons b bytes => simp [hgot, htaken, Verdict.of] at hverdict
      case front =>
        intro n bytes _ hverdict
        exact (more_of_read hverdict).1.trans (List.take_prefix n s.rest)
      case rest =>
        intro n bytes _ hverdict
        have hadvanced := (more_of_read hverdict).2
        rw [← hadvanced.rest]
        exact ih _ (Reader.stamina_lt_of_more hverdict) (hadvanced.delivers hs) rfl

/-- Reading a delivering source up to a limit hands out exactly the next bytes. -/
theorem readUpTo_of_delivers {s : Source} (hs : s.script.Delivers) (n : Nat) :
    (readUpTo n s).1 = ⟨s.rest.take n, none⟩ ∧
      Advanced (s.rest.take n).length s (readUpTo n s).2 := by
  obtain ⟨hfill, -⟩ := readUpTo_of_holds (holds_of_delivers hs) n
  obtain ⟨-, hadvanced⟩ := readUpTo_advances n s
  rw [hfill] at hadvanced
  exact ⟨hfill, hadvanced⟩

end Source

end BlobUpload
