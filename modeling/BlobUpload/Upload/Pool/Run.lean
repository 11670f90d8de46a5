import BlobUpload.Upload.Pool.Work

/-! # Running a pool -/

namespace BlobUpload.Pool

variable {σ : Type} [Service σ]

def nextLive? (p : Pool σ) : Option Nat := p.workers.findIdx? Worker.isLive

theorem work_step_lt_of_nextLive {p : Pool σ} {i : Nat} (h : p.nextLive? = some i) :
    (p.step i).work < p.work := by
  obtain ⟨hi, hlive, _⟩ := List.findIdx?_eq_some_iff_getElem.1 h
  exact work_step_lt (List.getElem?_eq_getElem hi) hlive

/-- Lets the first worker go on until it has ended, then the next one. -/
def finish (p : Pool σ) : Pool σ :=
  match h : p.nextLive? with
  | none => p
  | some i =>
    have := work_step_lt_of_nextLive h
    finish (p.step i)
termination_by p.work

/-- What happens next in a pool. -/
inductive Action where
  | step (worker : Nat)
  /-- Somebody outside raises the abort flag. -/
  | abort
  deriving DecidableEq, Repr

def act (p : Pool σ) : Action → Pool σ
  | .step i => p.step i
  | .abort => { p with session := { p.session with abort := p.session.abort.raise } }

/-- Follows a schedule and does what is left. -/
def run (schedule : List Action) (p : Pool σ) : Pool σ := (schedule.foldl act p).finish

/-- The tokens of all chunks by ascending offset, or the first failure. -/
def outcome (p : Pool σ) : Except UploadError (List Token) :=
  match p.failure with
  | some e => .error e
  | none => .ok (p.tokens.map Prod.snd)

end BlobUpload.Pool
