import BlobUpload.Error

/-! # Scripted behaviour of a source

A script says, for every read of a source, how many bytes that read may hand out or how it fails.
A script never interrupts for ever: among any `patience + 1` consecutive reads one is not
interrupted.
-/

namespace BlobUpload

/-- What a source does on one read. -/
inductive ReadStep where
  /-- Hands out all that is asked for and there. -/
  | freely
  /-- Hands out at most `limit` bytes. -/
  | upTo (limit : Nat)
  | fail (error : SourceError)
  deriving DecidableEq, Repr

namespace ReadStep

def isInterrupted : ReadStep → Bool
  | fail e => e.isInterrupted
  | _ => false

end ReadStep

/-- The behaviour of a source, by the number of the read. -/
structure Script where
  step : Nat → ReadStep
  patience : Nat
  settles : ∀ i, ∃ j ≤ patience, (step (i + j)).isInterrupted = false

namespace Script

/-- Every read hands out what it can. -/
def free : Script := ⟨fun _ => .freely, 0, fun _ => ⟨0, Nat.le_refl 0, rfl⟩⟩

/-- The listed steps in order, then freely. -/
def ofList (steps : List ReadStep) : Script where
  step i := (steps[i]?).getD .freely
  patience := steps.length
  settles i := by
    refine ⟨steps.length - i, Nat.sub_le _ _, ?_⟩
    rw [List.getElem?_eq_none (by omega)]
    rfl

/-- As many reads as a 64-bit count can number. -/
def horizon : Nat := 1 <<< 64

/-- The listed steps over and over, up to the horizon. A list of interruptions alone is allowed:
a single read meets one of them, and only whoever repeats the read waits for the horizon. -/
def cycle (steps : List ReadStep) : Script where
  step i := if i < horizon then (steps[i % steps.length]?).getD .freely else .freely
  patience := horizon
  settles i := by
    refine ⟨horizon - i, Nat.sub_le _ _, ?_⟩
    rw [if_neg (by omega)]
    rfl

/-- Number of consecutive interrupted reads from the read `i` on, at most `bound`. -/
def lull (s : Script) : (bound i : Nat) → Nat
  | 0, _ => 0
  | bound + 1, i => if (s.step i).isInterrupted then s.lull bound (i + 1) + 1 else 0

theorem lull_le (s : Script) (bound i : Nat) : s.lull bound i ≤ bound := by
  induction bound generalizing i with
  | zero => simp [lull]
  | succ bound ih =>
    have := ih (i + 1)
    simp only [lull]
    split <;> omega

/-- A bound beyond the first read that is not interrupted makes no difference. -/
theorem lull_succ_of_settled (s : Script) {bound i j : Nat} (hj : j ≤ bound)
    (hcalm : (s.step (i + j)).isInterrupted = false) : s.lull (bound + 1) i = s.lull bound i := by
  induction bound generalizing i j with
  | zero =>
    obtain rfl : j = 0 := by omega
    simp_all [lull]
  | succ bound ih =>
    cases j with
    | zero => simp_all [lull]
    | succ j =>
      have hrest := @ih (i + 1) j (by omega) (by rwa [show i + 1 + j = i + (j + 1) by omega])
      rw [lull, hrest]
      rfl

theorem lull_lt_of_interrupted (s : Script) {i : Nat} (h : (s.step i).isInterrupted = true) :
    s.lull s.patience (i + 1) < s.lull s.patience i := by
  obtain ⟨j, hj, hcalm⟩ := s.settles i
  cases j with
  | zero => simp_all
  | succ j =>
    obtain ⟨p, hp⟩ : ∃ p, s.patience = p + 1 := ⟨s.patience - 1, by omega⟩
    have hsettled : (s.step (i + 1 + j)).isInterrupted = false := by
      rwa [show i + 1 + j = i + (j + 1) by omega]
    -- The next lull has settled within `p` reads, so the bound can be lowered to `p`.
    rw [hp, s.lull_succ_of_settled (by omega) hsettled]
    rw [lull, if_pos h]
    omega

end Script

end BlobUpload
