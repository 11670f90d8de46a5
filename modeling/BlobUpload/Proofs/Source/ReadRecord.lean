import BlobUpload.Proofs.Source.WellBehaved

/-! # Recorded readers

A recorded reader keeps the answers to all its reads. From the record one can tell which bytes were
handed out and which failures were met, for readers of any kind. Recording makes no difference to
what is read (`readUpTo_recorded`). -/

namespace BlobUpload

/-- A reader and the answers to all its reads so far, oldest first. -/
structure Recorded (ρ : Type) where
  reader : ρ
  answers : List (Except SourceError Bytes) := []

namespace Recorded

/-- The bytes that were handed out. -/
def delivered {ρ : Type} (r : Recorded ρ) : Bytes :=
  r.answers.flatMap fun answer => answer.toOption.getD []

/-- The errors that were met, but for interruptions. -/
def failures {ρ : Type} (r : Recorded ρ) : List SourceError :=
  r.answers.filterMap fun
    | .ok _ => none
    | .error e => if e.isInterrupted then none else some e

variable {ρ : Type} [Reader ρ]

def read (n : Nat) (r : Recorded ρ) : Except SourceError Bytes × Recorded ρ :=
  let (answer, reader) := Reader.read n r.reader
  (answer, { reader, answers := r.answers ++ [answer] })

instance : Reader (Recorded ρ) where
  read := read
  stamina r := Reader.stamina r.reader
  length_le := Reader.length_le (ρ := ρ)
  stamina_lt_of_bytes := Reader.stamina_lt_of_bytes (ρ := ρ)
  stamina_lt_of_interrupted := Reader.stamina_lt_of_interrupted (ρ := ρ)

@[simp] theorem answer_read (n : Nat) (r : Recorded ρ) :
    (Reader.read n r).1 = (Reader.read n r.reader).1 := rfl

@[simp] theorem reader_read (n : Nat) (r : Recorded ρ) :
    (Reader.read n r).2.reader = (Reader.read n r.reader).2 := rfl

theorem answers_read (n : Nat) (r : Recorded ρ) :
    (Reader.read n r).2.answers = r.answers ++ [(Reader.read n r.reader).1] := rfl

/-- A read that is not the end records what it handed out. -/
theorem record_of_more {n : Nat} {r : Recorded ρ} {bytes : Bytes}
    (h : Verdict.of (Reader.read n r.reader).1 = .more bytes) :
    (Reader.read n r).2.delivered = r.delivered ++ bytes ∧
      (Reader.read n r).2.failures = r.failures := by
  simp only [delivered, failures, answers_read, List.flatMap_append, List.filterMap_append]
  cases hanswer : (Reader.read n r.reader).1 with
  | ok front =>
      cases front with
      | nil => simp [hanswer, Verdict.of] at h
      | cons b rest =>
          simp only [hanswer, Verdict.of, Verdict.more.injEq] at h
          simp [Except.toOption, h]
  | error e =>
      simp only [hanswer, Verdict.of] at h
      split at h
      · simp_all [Except.toOption]
      · cases h

/-- A read that is the end records the failure, if there is one. -/
theorem record_of_stop {n : Nat} {r : Recorded ρ} {failure : Option SourceError}
    (h : Verdict.of (Reader.read n r.reader).1 = .stop failure) :
    (Reader.read n r).2.delivered = r.delivered ∧
      (Reader.read n r).2.failures = r.failures ++ failure.toList := by
  simp only [delivered, failures, answers_read, List.flatMap_append, List.filterMap_append]
  cases hanswer : (Reader.read n r.reader).1 with
  | ok front =>
      cases front with
      | nil =>
          simp only [hanswer, Verdict.of, Verdict.stop.injEq] at h
          simp [Except.toOption, ← h]
      | cons b rest => simp [hanswer, Verdict.of] at h
  | error e =>
      simp only [hanswer, Verdict.of] at h
      split at h
      · cases h
      · cases h
        simp_all [Except.toOption]

end Recorded

variable {ρ : Type} [Reader ρ]

/-- A recorded reading brings what it brings without the record, and the record grows by that. -/
theorem readUpTo_recorded (n : Nat) (r : Recorded ρ) :
    (readUpTo n r).1 = (readUpTo n r.reader).1 ∧
      (readUpTo n r).2.reader = (readUpTo n r.reader).2 ∧
      (readUpTo n r).2.delivered = r.delivered ++ (readUpTo n r.reader).1.bytes ∧
      (readUpTo n r).2.failures = r.failures ++ (readUpTo n r.reader).1.failure.toList := by
  fun_induction readUpTo n r with
  | case1 r => simp [readUpTo_zero]
  | case2 n r hwanting failure hverdict =>
      rw [Recorded.answer_read] at hverdict
      obtain ⟨hdelivered, hfailures⟩ := Recorded.record_of_stop hverdict
      simp [readUpTo_of_stop hwanting hverdict, hdelivered, hfailures]
  | case3 n r hwanting bytes hverdict _ fill r' heq ih =>
      rw [Recorded.answer_read] at hverdict
      obtain ⟨hdelivered, hfailures⟩ := Recorded.record_of_more hverdict
      simp only [heq, Recorded.reader_read] at ih
      obtain ⟨hsame, hreader, hdelivered', hfailures'⟩ := ih
      rw [readUpTo_of_more hwanting hverdict]
      simp [hsame, hreader, hdelivered', hfailures', hdelivered, hfailures]

end BlobUpload
