import BlobUpload.Proofs.Cutter.Equations
import BlobUpload.Proofs.Source.ReadRecord

/-! # One call of a cutter after another

`Cutter.answer` is what a cutter answers to its call number `n`. The list of all answers holds them
in this order, and once it is used up every further call answers nothing (`answer_eq_getElem?`) and
reads nothing (`after_of_used_up`). What is recorded of the reader makes no difference to the
answers (`toList_recorded`). -/

namespace BlobUpload.Cutter

variable {ρ : Type} [Reader ρ]

/-- The cutter and its reader after so many calls. -/
def after (k : Cutter) (r : ρ) : Nat → Cutter × ρ
  | 0 => (k, r)
  | n + 1 => (k.next r).2.1.after (k.next r).2.2 n

/-- The answer to the call number `n`, counted from zero. -/
def answer (k : Cutter) (r : ρ) (n : Nat) : Option (Except UploadError Chunk) :=
  ((k.after r n).1.next (k.after r n).2).1

theorem answer_zero (k : Cutter) (r : ρ) : k.answer r 0 = (k.next r).1 := rfl

theorem answer_succ (k : Cutter) (r : ρ) (n : Nat) :
    k.answer r (n + 1) = (k.next r).2.1.answer (k.next r).2.2 n := rfl

theorem after_succ (k : Cutter) (r : ρ) (n : Nat) :
    k.after r (n + 1) = ((k.after r n).1.next (k.after r n).2).2 := by
  induction n generalizing k r with
  | zero => rfl
  | succ n ih => exact ih (k.next r).2.1 (k.next r).2.2

theorem finished_of_done {k k' : Cutter} {answer : Except SourceError Bytes}
    (hstep : k.absorb answer = (.done, k')) : k'.finished = true := by
  cases answer with
  | error e => cases hstep
  | ok data =>
      simp only [absorb] at hstep
      split at hstep
      · simp only [encrypt] at hstep
        split at hstep
        · cases hstep
        · split at hstep <;> cases hstep
      · split at hstep
        · cases hstep
          rfl
        · cases hstep

/-- A cutter that answers nothing has ended. -/
theorem finished_of_next_none (k : Cutter) (r : ρ) (h : (k.next r).1 = none) :
    (k.next r).2.1.finished = true := by
  induction k, r using reading_induction with
  | finished k r hfinished => simp [next, hfinished]
  | reading k r hunfinished ih =>
      rw [afterReading] at ih
      cases hstep : k.absorb (readUpTo k.limit r).1.result with
      | mk cut k' =>
          rw [next_of_absorb hunfinished hstep] at h ⊢
          cases cut with
          | chunk c => cases h
          | failed e => cases h
          | more =>
              rw [hstep] at ih
              exact ih h
          | done => exact finished_of_done hstep

/-- The answers in the order of the calls are the list of all answers, and nothing for ever. -/
theorem answer_eq_getElem? (k : Cutter) (r : ρ) (n : Nat) :
    k.answer r n = (k.toList r).1[n]? := by
  induction n generalizing k r with
  | zero =>
      rw [answer_zero]
      cases hnext : k.next r with
      | mk first last =>
          cases first with
          | none => simp [toList_of_next_none hnext]
          | some a => simp [toList_of_next_some hnext]
  | succ n ih =>
      rw [answer_succ, ih]
      have hended := finished_of_next_none k r
      cases hnext : k.next r with
      | mk first last =>
          cases first with
          | none =>
              rw [hnext] at hended
              simp [toList_of_next_none hnext, toList_of_finished (hended rfl)]
          | some a => simp [toList_of_next_some hnext]

theorem after_of_finished {k : Cutter} (hfinished : k.finished = true) (r : ρ) (n : Nat) :
    k.after r n = (k, r) := by
  induction n with
  | zero => rfl
  | succ n ih => rw [after_succ, ih, next, if_pos hfinished]

/-- Once a call has answered nothing, the calls that follow read nothing. -/
theorem after_of_used_up {k : Cutter} {r : ρ} {n : Nat} (hused : (k.toList r).1.length < n) :
    k.after r n = (k.toList r).2 := by
  induction n generalizing k r with
  | zero => cases hused
  | succ n ih =>
      rw [after]
      have hended := finished_of_next_none k r
      cases hnext : k.next r with
      | mk first last =>
          cases first with
          | none =>
              rw [hnext] at hended
              rw [toList_of_next_none hnext, after_of_finished (hended rfl)]
          | some a =>
              rw [toList_of_next_some hnext] at hused ⊢
              exact ih (Nat.lt_of_succ_lt_succ hused)

/-! ## Over a recorded reader -/

/-- Cutting a recorded reader gives the same answer and leaves the same reader. -/
theorem next_recorded (k : Cutter) (r : Recorded ρ) :
    (k.next r).1 = (k.next r.reader).1 ∧ (k.next r).2.1 = (k.next r.reader).2.1 ∧
      (k.next r).2.2.reader = (k.next r.reader).2.2 := by
  induction k, r using reading_induction with
  | finished k r hfinished => simp [next, hfinished]
  | reading k r hunfinished ih =>
      obtain ⟨hsame, hreader, -, -⟩ := readUpTo_recorded k.limit r
      rw [afterReading] at ih
      cases hstep : k.absorb (readUpTo k.limit r).1.result with
      | mk cut k' =>
          have hstep' := hstep
          rw [hsame] at hstep'
          rw [next_of_absorb hunfinished hstep, next_of_absorb hunfinished hstep']
          cases cut with
          | more => simpa only [hstep, hreader] using ih
          | chunk c => exact ⟨rfl, rfl, hreader⟩
          | failed e => exact ⟨rfl, rfl, hreader⟩
          | done => exact ⟨rfl, rfl, hreader⟩

theorem toList_recorded (k : Cutter) (r : Recorded ρ) :
    (k.toList r).1 = (k.toList r.reader).1 ∧ (k.toList r).2.1 = (k.toList r.reader).2.1 := by
  induction hbudget : k.budget r using Nat.strongRecOn generalizing k r with
  | ind n ih =>
      subst hbudget
      obtain ⟨hanswer, hcutter, hreader⟩ := k.next_recorded r
      cases hnext : k.next r with
      | mk first last =>
          obtain ⟨k', r'⟩ := last
          simp only [hnext] at hanswer hcutter hreader
          have hnext' : k.next r.reader = (first, k', r'.reader) :=
            Prod.ext hanswer.symm (Prod.ext hcutter.symm hreader.symm)
          cases first with
          | none =>
              rw [toList_of_next_none hnext, toList_of_next_none hnext']
              exact ⟨rfl, rfl⟩
          | some a =>
              have hfewer := budget_next_lt (k := k) (r := r) (by rw [hnext])
              simp only [hnext] at hfewer
              obtain ⟨htail, hlast⟩ := ih _ hfewer k' r' rfl
              rw [toList_of_next_some hnext, toList_of_next_some hnext', htail, hlast]
              exact ⟨rfl, rfl⟩

end BlobUpload.Cutter
