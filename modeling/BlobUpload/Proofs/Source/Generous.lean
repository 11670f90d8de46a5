import BlobUpload.Proofs.Cutter.Equations
import BlobUpload.Proofs.Window.Confinement
import BlobUpload.Proofs.Window.View

/-! # Sources that come back empty only at their end

A generous source may fail, but a read of it comes back empty only where nothing is left. Its
readings that get through are those of a source that is well-behaved (`Source.mended`), so what is
known of well-behaved sources holds of whatever a generous one lets through. -/

namespace BlobUpload

/-! ## Mending -/

/-- The step that goes on where the given one breaks off. -/
def ReadStep.mended : ReadStep → ReadStep
  | .freely => .freely
  | .upTo limit => .upTo (max limit 1)
  | .fail e => if e.isInterrupted then .fail e else .freely

theorem ReadStep.isInterrupted_mended (step : ReadStep) :
    step.mended.isInterrupted = step.isInterrupted := by
  cases step with
  | freely => rfl
  | upTo limit => rfl
  | fail e =>
      cases hinterrupted : e.isInterrupted with
      | true => simp only [mended, hinterrupted, if_true]
      | false =>
          simp only [mended, hinterrupted, Bool.false_eq_true, if_false]
          exact hinterrupted.symm

theorem ReadStep.delivers_mended (step : ReadStep) : step.mended.Delivers := by
  cases step with
  | freely => trivial
  | upTo limit => exact Nat.lt_of_lt_of_le Nat.one_pos (Nat.le_max_right limit 1)
  | fail e =>
      rw [mended]
      split
      · assumption
      · trivial

def Script.mended (script : Script) : Script where
  step i := (script.step i).mended
  patience := script.patience
  settles i := by
    obtain ⟨j, hsoon, hcalm⟩ := script.settles i
    exact ⟨j, hsoon, (ReadStep.isInterrupted_mended _).trans hcalm⟩

namespace Source

/-- Wherever it stands, a read for some bytes comes back empty only if none are left. -/
def Generous (s : Source) : Prop :=
  ∀ t : Source, t.data = s.data → t.script = s.script → ∀ n, 0 < n → (t.read n).1 = .ok [] →
    t.rest = []

/-- The same source, if neither its reads nor its seeks failed and no read came back empty early. -/
def mended (s : Source) : Source := { s with script := s.script.mended, seekErrors := [] }

variable {s t : Source}

theorem Generous.of_same (hgenerous : s.Generous) (hdata : t.data = s.data)
    (hscript : t.script = s.script) : t.Generous :=
  fun r hsame hsame' => hgenerous r (hsame.trans hdata) (hsame'.trans hscript)

theorem Generous.advanced (hgenerous : s.Generous) {n : Nat} (hadv : Advanced n s t) : t.Generous :=
  hgenerous.of_same hadv.data hadv.script

theorem kept_generous : Kept Generous where
  seek _ hgenerous := hgenerous.of_same (data_seek _ _) (script_seek _ _)
  read _ hgenerous := hgenerous.of_same (data_read _ _) (script_read _ _)

theorem generous_of_delivers (hdelivers : s.script.Delivers) : s.Generous := by
  intro t _ hscript n hpos hempty
  rcases read_of_delivers (s := t) (hscript ▸ hdelivers) n with
    ⟨e, hfailed, -⟩ | ⟨k, hgot, -, hlast, -⟩
  · cases hfailed.symm.trans hempty
  · rcases List.take_eq_nil_iff.1 (hlast (Except.ok.inj (hgot.symm.trans hempty))) with
      hzero | hnone
    · exact absurd hzero (Nat.ne_of_gt hpos)
    · exact hnone

theorem wellBehaved_mended (s : Source) : s.mended.WellBehaved :=
  ⟨fun i => (s.script.step i).delivers_mended, rfl⟩

/-- A read that is not failed goes the same on the mended source. -/
theorem read_mended (hgenerous : s.Generous) {n : Nat} (hpos : 0 < n)
    (hunfailed : ∀ e, (s.read n).1 = .error e → e.isInterrupted = true) :
    s.mended.read n = ((s.read n).1, (s.read n).2.mended) := by
  have hempty := hgenerous s rfl rfl n hpos
  have hmend : s.mended.script.step s.mended.reads = (s.script.step s.reads).mended := rfl
  rw [read] at hunfailed hempty
  rw [read, read, hmend]
  cases hstep : s.script.step s.reads with
  | freely => rfl
  | fail e =>
      rw [hstep] at hunfailed
      rw [ReadStep.mended, if_pos (hunfailed e rfl)]
      rfl
  | upTo limit =>
      rw [hstep] at hempty
      rcases Nat.eq_zero_or_pos limit with hzero | hmore
      · have hnone : s.rest = [] := hempty (by
          change Except.ok (s.rest.take (min n limit)) = _
          rw [hzero, Nat.min_zero, List.take_zero])
        change (Except.ok (s.rest.take _), mended { s with
          reads := s.reads + 1, position := s.position + (s.rest.take _).length }) =
          (Except.ok (s.rest.take _), mended { s with
            reads := s.reads + 1, position := s.position + (s.rest.take _).length })
        rw [hnone, List.take_nil, List.take_nil]
      · rw [ReadStep.mended, Nat.max_eq_left hmore]
        rfl

/-- A reading that is not failed goes the same on the mended source. -/
theorem readUpTo_mended (hgenerous : s.Generous) {n : Nat}
    (hunfailed : (readUpTo n s).1.failure = none) :
    readUpTo n s.mended = ((readUpTo n s).1, (readUpTo n s).2.mended) := by
  fun_induction readUpTo n s with
  | case1 s => rw [readUpTo_zero]
  | case2 n s hwanting failure hstop =>
      obtain rfl : failure = none := hunfailed
      have hpos := Nat.pos_of_ne_zero hwanting
      have hsame := read_mended hgenerous hpos fun e hfailed => by
        rw [reader_read, hfailed, Verdict.of] at hstop
        split at hstop
        · assumption
        · cases hstop
      rw [readUpTo_of_stop hwanting (by rw [reader_read, hsame]; exact hstop), reader_read, hsame]
      rfl
  | case3 n s hwanting bytes hmore _ fill t hrest ih =>
      have hpos := Nat.pos_of_ne_zero hwanting
      have hsame := read_mended hgenerous hpos fun e hfailed => by
        rw [reader_read, hfailed, Verdict.of] at hmore
        split at hmore
        · assumption
        · cases hmore
      rw [hrest] at ih
      have htail := ih (hgenerous.advanced (more_of_read hmore).2) hunfailed
      rw [readUpTo_of_more hwanting (by rw [reader_read, hsame]; exact hmore), reader_read, hsame]
      change (Fill.mk (bytes ++ (readUpTo _ (s.read n).2.mended).1.bytes) _, _) = _
      rw [show (s.read n).2.mended = (Reader.read n s).2.mended from rfl, htail]

theorem seek_mended {aim : SeekTo} {n : Nat} (hmoved : s.seek aim = (.ok n, t)) :
    s.mended.seek aim = (.ok n, t.mended) := by
  obtain ⟨htarget, rfl⟩ := seek_of_ok hmoved
  exact seek_of_target (s := s.mended) rfl htarget

end Source

/-! ## Cutting -/

/-- What is cut to the end is cut from the mended source as well. -/
theorem Cutter.toList_mended {k : Cutter} {s : Source} {cs : List Chunk} (hgenerous : s.Generous)
    (hanswers : (k.toList s).1 = cs.map .ok) : (k.toList s.mended).1 = cs.map .ok := by
  induction k, s using reading_induction generalizing cs with
  | finished k s hfinished =>
      rw [toList_of_finished hfinished] at hanswers ⊢
      exact hanswers
  | reading k s hunfinished ih =>
      cases hfailure : (readUpTo k.limit s).1.failure with
      | some e =>
          have hresult : (readUpTo k.limit s).1.result = .error e := by rw [Fill.result, hfailure]
          rw [toList_of_failed hunfinished (by rw [hresult]; rfl)] at hanswers
          cases cs with
          | nil => cases hanswers
          | cons c cs => cases hanswers
      | none =>
          have hsame := Source.readUpTo_mended hgenerous hfailure
          obtain ⟨-, hadv⟩ := Source.readUpTo_advances k.limit s
          have honward := fun ds => @ih ds (hgenerous.advanced hadv)
          rw [afterReading] at honward
          rcases hstep : k.absorb (readUpTo k.limit s).1.result with ⟨cut, k'⟩
          rw [hstep] at honward
          have hmended : k.absorb (readUpTo k.limit s.mended).1.result = (cut, k') := by
            rw [hsame]
            exact hstep
          cases cut with
          | chunk c =>
              rw [toList_of_chunk hunfinished hstep] at hanswers
              cases cs with
              | nil => cases hanswers
              | cons d cs =>
                  obtain ⟨hhead, htail⟩ := List.cons.inj hanswers
                  rw [toList_of_chunk hunfinished hmended, hsame, honward cs htail, hhead]
                  rfl
          | failed e =>
              rw [toList_of_failed hunfinished hstep] at hanswers
              cases cs with
              | nil => cases hanswers
              | cons c cs => cases hanswers
          | more =>
              rw [toList_of_more hunfinished hstep] at hanswers
              rw [toList_of_more hunfinished hmended, hsame]
              exact honward cs hanswers
          | done =>
              rw [toList_of_done hunfinished hstep] at hanswers
              rw [toList_of_done hunfinished hmended]
              exact hanswers

/-! ## Windows -/

/-- The common source, open and mended. -/
def CommonSource.mended (c : CommonSource) : CommonSource :=
  { c with source := c.source.mended, isOpen := true }

theorem CommonSource.serves_mended (c : CommonSource) : c.mended.Serves c.source.data :=
  ⟨rfl, rfl, c.source.wellBehaved_mended⟩

namespace Window

variable {w w' : Window} {c c' : CommonSource}

theorem extend_of_sought {source : Source} {n : Nat} (hisOpen : c.isOpen = true)
    (hmoved : c.source.seek (.start (Offset.add w.regionStart w.bufferStop)) = (.ok n, source))
    (want : Nat) :
    w.extend want c = ((readUpTo (w.refillLimit want) source).1.failure,
      { w with buffer := w.buffer ++ (readUpTo (w.refillLimit want) source).1.bytes },
      { c with source := (readUpTo (w.refillLimit want) source).2 }) := by
  rw [extend, if_pos hisOpen, hmoved]

theorem extend_mended (hgenerous : c.source.Generous) {want : Nat}
    (hextended : w.extend want c = (none, w', c')) :
    w.extend want c.mended = (none, w', c'.mended) := by
  cases hisOpen : c.isOpen with
  | false => simp [extend, hisOpen] at hextended
  | true =>
      rcases hmoved : c.source.seek (.start (Offset.add w.regionStart w.bufferStop)) with
        ⟨e | n, source⟩
      · simp [extend, hisOpen, hmoved] at hextended
      · rw [extend_of_sought hisOpen hmoved] at hextended
        obtain ⟨-, rfl⟩ := Source.seek_of_ok hmoved
        have hunfailed : (readUpTo (w.refillLimit want) (c.source.sought n)).1.failure = none :=
          congrArg Prod.fst hextended
        have hsame := Source.readUpTo_mended
          (hgenerous.of_same (t := c.source.sought n) rfl rfl) hunfailed
        rw [extend_of_sought (c := c.mended) rfl (Source.seek_mended hmoved), hsame, hunfailed]
        obtain ⟨rfl, rfl⟩ := Prod.mk.inj (congrArg Prod.snd hextended)
        rfl

/-- What a window hands out over a generous source it hands out over the mended one. -/
theorem read_mended (hgenerous : c.source.Generous) {n : Nat} {bytes : Bytes}
    (hanswered : w.read n c = (.ok bytes, w', c')) :
    w.read n c.mended = (.ok bytes, w', c'.mended) := by
  rw [read] at hanswered ⊢
  simp only at hanswered ⊢
  split at hanswered
  · rename_i hzero
    cases hanswered
    rw [if_pos hzero]
  rename_i hwanting
  rw [if_neg hwanting]
  split at hanswered
  · rename_i hcovers
    cases hanswered
    rw [if_pos hcovers]
  rename_i hshort
  rw [if_neg hshort]
  rcases hrefilled : w.refill (w.wanted n) c with ⟨failure | _, v, d⟩
  · rw [hrefilled] at hanswered
    cases hanswered
    rw [refill, extend_mended hgenerous hrefilled]
  · rw [hrefilled] at hanswered
    cases hanswered

/-- A window over a generous source hands out all that is asked for and there, unless it fails. -/
theorem read_of_generous {data : Bytes} (hgenerous : c.source.Generous)
    (hsame : c.source.data = data) (hreflects : w.Reflects data) (haddr : w.Addressable data)
    {n : Nat} {bytes : Bytes} (hanswered : (w.read n c).1 = .ok bytes) :
    bytes = ((w.view data).drop w.position).take n := by
  obtain ⟨w', source, hserved, -⟩ := read_of_serves (hsame ▸ c.serves_mended) hreflects haddr n
  rw [read_mended hgenerous (Prod.ext hanswered rfl)] at hserved
  exact Except.ok.inj (congrArg Prod.fst hserved)

theorem generous_read (hgenerous : c.source.Generous) (n : Nat) (w : Window) :
    (w.read n c).2.2.source.Generous := keeps_read Source.kept_generous hgenerous n w

end Window

end BlobUpload
