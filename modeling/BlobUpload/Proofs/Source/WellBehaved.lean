import BlobUpload.Source.Basic

/-! # Reading a well-behaved source

A well-behaved source hands out bytes as long as there are any, in pieces of any size and with
interruptions in between. `readUpTo` hides the pieces and the interruptions. -/

namespace BlobUpload

/-! ## Reading step by step -/

section

variable {ρ : Type} [Reader ρ] {n : Nat} {r : ρ}

theorem readUpTo_zero (r : ρ) : readUpTo 0 r = (⟨[], none⟩, r) := by rw [readUpTo, if_pos rfl]

theorem readUpTo_of_stop {failure : Option SourceError} (hwanting : n ≠ 0)
    (h : Verdict.of (Reader.read n r).1 = .stop failure) :
    readUpTo n r = (⟨[], failure⟩, (Reader.read n r).2) := by
  rw [readUpTo, if_neg hwanting]
  split <;> simp_all

theorem readUpTo_of_more {bytes : Bytes} (hwanting : n ≠ 0)
    (h : Verdict.of (Reader.read n r).1 = .more bytes) :
    readUpTo n r =
      (⟨bytes ++ (readUpTo (n - bytes.length) (Reader.read n r).2).1.bytes,
        (readUpTo (n - bytes.length) (Reader.read n r).2).1.failure⟩,
        (readUpTo (n - bytes.length) (Reader.read n r).2).2) := by
  rw [readUpTo, if_neg hwanting]
  split <;> simp_all

/-- A reading that fails has not got all it wanted. -/
theorem length_readUpTo_lt {e : SourceError} (h : (readUpTo n r).1.failure = some e) :
    (readUpTo n r).1.bytes.length < n := by
  fun_induction readUpTo n r with
  | case1 r => cases h
  | case2 n r hwanting failure hverdict => exact Nat.pos_of_ne_zero hwanting
  | case3 n r hwanting bytes hverdict _ fill r' heq ih =>
      simp only [heq] at ih
      have hshort := ih h
      rw [List.length_append]
      omega

end

/-- Bytes that may be followed by more are what the read handed out. -/
theorem Verdict.eq_of_more {bytes bytes' : Bytes} (h : Verdict.of (.ok bytes) = .more bytes') :
    bytes = bytes' := by
  cases bytes with
  | nil => cases h
  | cons b rest => exact Verdict.more.inj h

/-! ## Sources whose reads deliver -/

/-- A read that hands out at least one byte if there is one, or is interrupted. -/
def ReadStep.Delivers : ReadStep → Prop
  | .freely => True
  | .upTo limit => 0 < limit
  | .fail e => e.isInterrupted = true

/-- Every read hands out bytes while there are any, or is interrupted. -/
def Script.Delivers (script : Script) : Prop := ∀ i, (script.step i).Delivers

theorem Script.delivers_free : Script.free.Delivers := fun _ => trivial

theorem Script.delivers_ofList {steps : List ReadStep} (h : ∀ step ∈ steps, step.Delivers) :
    (Script.ofList steps).Delivers := by
  intro i
  change ((steps[i]?).getD .freely).Delivers
  cases hfound : steps[i]? with
  | none => trivial
  | some step => exact h step (List.mem_of_getElem? hfound)

/-- The reads of a source deliver and none of its seeks fails. -/
structure Source.WellBehaved (s : Source) : Prop where
  delivers : s.script.Delivers
  seeks : s.seekErrors = []

namespace Source

/-- A source that hands out a single byte first and is interrupted then. -/
def hesitant (data : Bytes) : Source where
  data
  script := .ofList [.upTo 1, .fail ⟨.interrupted, "again"⟩]

theorem wellBehaved_hesitant (data : Bytes) : (hesitant data).WellBehaved := by
  refine ⟨Script.delivers_ofList fun step hmem => ?_, rfl⟩
  rcases List.mem_cons.1 hmem with rfl | hmem
  · exact Nat.one_pos
  · rw [List.mem_singleton.1 hmem]
    rfl

/-- The source `t` is `s` after reads that have handed out `n` bytes. -/
structure Advanced (n : Nat) (s t : Source) : Prop where
  data : t.data = s.data
  position : t.position = s.position + n
  script : t.script = s.script
  seekErrors : t.seekErrors = s.seekErrors
  seeks : t.seeks = s.seeks

theorem Advanced.refl (s : Source) : Advanced 0 s s := ⟨rfl, rfl, rfl, rfl, rfl⟩

theorem Advanced.trans {m n : Nat} {r s t : Source} (h : Advanced m r s) (h' : Advanced n s t) :
    Advanced (m + n) r t where
  data := h'.data.trans h.data
  position := by rw [h'.position, h.position, Nat.add_assoc]
  script := h'.script.trans h.script
  seekErrors := h'.seekErrors.trans h.seekErrors
  seeks := h'.seeks.trans h.seeks

theorem Advanced.rest {n : Nat} {s t : Source} (h : Advanced n s t) : t.rest = s.rest.drop n := by
  rw [Source.rest, h.data, h.position, Source.rest, List.drop_drop]

theorem Advanced.delivers {n : Nat} {s t : Source} (h : Advanced n s t)
    (hs : s.script.Delivers) : t.script.Delivers := h.script.symm ▸ hs

theorem Advanced.wellBehaved {n : Nat} {s t : Source} (h : Advanced n s t)
    (hs : s.WellBehaved) : t.WellBehaved :=
  ⟨h.delivers hs.delivers, h.seekErrors.trans hs.seeks⟩

/-! ## A single read -/

theorem reader_read (n : Nat) (s : Source) : Reader.read n s = s.read n := rfl

/-- One read of a delivering source is an interruption or hands out the next bytes, and none of
them only if none are left or none were asked for. -/
theorem read_of_delivers {s : Source} (hs : s.script.Delivers) (n : Nat) :
    (∃ e, (s.read n).1 = .error e ∧ e.isInterrupted = true ∧ Advanced 0 s (s.read n).2) ∨
    ∃ k, (s.read n).1 = .ok (s.rest.take k) ∧ k ≤ n ∧ (s.rest.take k = [] → s.rest.take n = []) ∧
      Advanced (s.rest.take k).length s (s.read n).2 := by
  have hfair := hs s.reads
  unfold read
  cases hstep : s.script.step s.reads with
  | fail e =>
      rw [hstep] at hfair
      exact .inl ⟨e, rfl, hfair, ⟨rfl, rfl, rfl, rfl, rfl⟩⟩
  | freely => exact .inr ⟨n, rfl, Nat.le_refl n, id, ⟨rfl, rfl, rfl, rfl, rfl⟩⟩
  | upTo limit =>
      rw [hstep] at hfair
      refine .inr ⟨min n limit, rfl, Nat.min_le_left _ _, ?_, ⟨rfl, rfl, rfl, rfl, rfl⟩⟩
      intro hnone
      have hpos : 0 < limit := hfair
      rw [List.take_eq_nil_iff] at hnone ⊢
      rcases hnone with hzero | hempty
      · exact .inl (by omega)
      · exact .inr hempty

/-! ## Reading any source -/

/-- One read of a source fails where it is, or hands out the front of what is left. -/
theorem read_cases (n : Nat) (s : Source) :
    (∃ e, (s.read n).1 = .error e ∧ Advanced 0 s (s.read n).2) ∨
    ∃ k ≤ n, (s.read n).1 = .ok (s.rest.take k) ∧
      Advanced (s.rest.take k).length s (s.read n).2 := by
  unfold read
  cases hstep : s.script.step s.reads with
  | fail e => exact .inl ⟨e, rfl, rfl, rfl, rfl, rfl, rfl⟩
  | freely => exact .inr ⟨n, Nat.le_refl n, rfl, rfl, rfl, rfl, rfl, rfl⟩
  | upTo limit => exact .inr ⟨min n limit, Nat.min_le_left _ _, rfl, rfl, rfl, rfl, rfl, rfl⟩

/-- A read after which more may follow hands out the front of what is left. -/
theorem more_of_read {n : Nat} {s : Source} {bytes : Bytes}
    (h : Verdict.of (s.read n).1 = .more bytes) :
    bytes <+: s.rest.take n ∧ Advanced bytes.length s (s.read n).2 := by
  rcases read_cases n s with ⟨e, hfailed, hsame⟩ | ⟨k, hle, hgot, hadv⟩
  · rw [hfailed, Verdict.of] at h
    split at h
    · cases h
      exact ⟨List.nil_prefix, hsame⟩
    · cases h
  · cases htaken : s.rest.take k with
    | nil => simp [hgot, htaken, Verdict.of] at h
    | cons b rest =>
        simp only [hgot, htaken, Verdict.of, Verdict.more.injEq] at h
        rw [h] at htaken
        exact ⟨htaken ▸ List.take_prefix_take_left hle, htaken ▸ hadv⟩

theorem advanced_of_stop {n : Nat} {s : Source} {failure : Option SourceError}
    (h : Verdict.of (s.read n).1 = .stop failure) : Advanced 0 s (s.read n).2 := by
  rcases read_cases n s with ⟨e, hfailed, hsame⟩ | ⟨k, hle, hgot, hadv⟩
  · exact hsame
  · cases htaken : s.rest.take k with
    | nil =>
        rw [htaken] at hadv
        exact hadv
    | cons b rest => simp [hgot, htaken, Verdict.of] at h

/-- Whatever a source does, reading it up to a limit hands out the front of what is left and
leaves the source behind it. -/
theorem readUpTo_advances (n : Nat) (s : Source) :
    (readUpTo n s).1.bytes <+: s.rest.take n ∧
      Advanced (readUpTo n s).1.bytes.length s (readUpTo n s).2 := by
  fun_induction readUpTo n s with
  | case1 s => exact ⟨List.nil_prefix, Advanced.refl s⟩
  | case2 n s h0 failure hv => exact ⟨List.nil_prefix, advanced_of_stop hv⟩
  | case3 n s h0 bytes hv _ fill t heq ih =>
      obtain ⟨hfront, hadv⟩ := more_of_read hv
      simp only [heq] at ih
      obtain ⟨hfront', hadv'⟩ := ih
      refine ⟨?_, List.length_append ▸ hadv.trans hadv'⟩
      rw [reader_read, hadv.rest] at hfront'
      have hshort : bytes.length ≤ n := Nat.le_trans hfront.length_le (List.length_take_le n s.rest)
      have hown : s.rest.take bytes.length = bytes :=
        (List.prefix_iff_eq_take.1 (hfront.trans (List.take_prefix n s.rest))).symm
      rw [show n = bytes.length + (n - bytes.length) by omega, List.take_add, hown]
      exact (List.prefix_append_right_inj bytes).2 hfront'

/-! ## Seeking -/

/-- The source after a seek to `target`. -/
def sought (target : Nat) (s : Source) : Source :=
  { s with seeks := s.seeks + 1, position := target }

theorem WellBehaved.sought {s : Source} (hs : s.WellBehaved) (target : Nat) :
    (s.sought target).WellBehaved := ⟨hs.delivers, hs.seeks⟩

theorem WellBehaved.withSeeks {s : Source} (hs : s.WellBehaved) (seeks : Nat) :
    ({ s with seeks } : Source).WellBehaved := ⟨hs.delivers, hs.seeks⟩

theorem seek_of_target {s : Source} (hs : s.seekErrors = []) {aim : SeekTo} {target : Nat}
    (h : aim.target s.position s.data.length = .ofNat target) :
    s.seek aim = (.ok target, s.sought target) := by
  have hnever : s.nextSeekError? = none := by rw [nextSeekError?, hs]; rfl
  rw [seek, hnever]
  simp only [h, Source.sought]

theorem seek_of_ok {s t : Source} {aim : SeekTo} {n : Nat} (h : s.seek aim = (.ok n, t)) :
    aim.target s.position s.data.length = .ofNat n ∧ t = s.sought n := by
  rw [seek] at h
  split at h
  · cases h
  · split at h
    · rename_i target heq
      cases h
      exact ⟨heq, rfl⟩
    · cases h

theorem seek_start_of_seeks {s : Source} (hs : s.seekErrors = []) (target : Nat) :
    s.seek (.start target) = (.ok target, s.sought target) := seek_of_target hs rfl

theorem tell_of_seeks {s : Source} (hs : s.seekErrors = []) :
    s.tell = (.ok s.position, s.sought s.position) := seek_of_target hs (Int.add_zero _)

/-- Measuring a source costs three seeks and leaves it where it was. -/
theorem remaining_of_ok {s t : Source} {n : Nat} (h : s.remaining = (.ok n, t)) :
    n = s.rest.length ∧ t = { s with seeks := s.seeks + 3 } := by
  rw [remaining, tell] at h
  split at h
  · cases h
  rename_i start s₁ htold
  rw [lengthFrom] at h
  split at h
  · cases h
  rename_i stop s₂ hmeasured
  split at h
  · cases h
  rename_i back s₃ hreturned
  cases h
  obtain ⟨htarget, rfl⟩ := seek_of_ok htold
  obtain ⟨hlast, rfl⟩ := seek_of_ok hmeasured
  obtain ⟨hthere, rfl⟩ := seek_of_ok hreturned
  have htarget : s.position + 0 = start := Int.ofNat.inj htarget
  have hlast : s.data.length + 0 = stop := Int.ofNat.inj hlast
  have hthere : start = back := Int.ofNat.inj hthere
  rw [← hthere, ← htarget, ← hlast, rest, List.length_drop]
  exact ⟨rfl, rfl⟩

theorem remaining_of_seeks {s : Source} (hs : s.seekErrors = []) :
    s.remaining = (.ok s.rest.length, { s with seeks := s.seeks + 3 }) := by
  have hstop : (s.sought s.position).seek (.fromEnd 0) =
      (.ok s.data.length, (s.sought s.position).sought s.data.length) :=
    seek_of_target (s := s.sought s.position) hs (Int.add_zero _)
  have hback := seek_start_of_seeks (s := (s.sought s.position).sought s.data.length) hs s.position
  rw [remaining, tell_of_seeks hs]
  simp only [lengthFrom, hstop, hback, rest, List.length_drop]
  rfl

end Source

end BlobUpload
