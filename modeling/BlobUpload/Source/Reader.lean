import BlobUpload.Error

/-! # Readers

A reader hands out bytes bit by bit and may fail. `readUpTo` reads until it has as many bytes as
wanted, the reader hands out none, or it fails for good; interrupted reads are repeated.
-/

namespace BlobUpload

/-- Something that can be read. Its stamina shrinks with every read that hands out bytes and with
every interrupted one, so that neither can go on for ever. -/
class Reader (ρ : Type) where
  /-- Reads at most so many bytes. -/
  read : Nat → ρ → Except SourceError Bytes × ρ
  stamina : ρ → Nat
  length_le : ∀ {n r bytes}, (read n r).1 = .ok bytes → bytes.length ≤ n
  stamina_lt_of_bytes : ∀ {n r bytes}, (read n r).1 = .ok bytes → bytes ≠ [] →
    stamina (read n r).2 < stamina r
  stamina_lt_of_interrupted : ∀ {n r e}, (read n r).1 = .error e → e.isInterrupted = true →
    stamina (read n r).2 < stamina r

/-- What one read means for whoever wants more bytes. -/
inductive Verdict where
  /-- These bytes came; more may follow. -/
  | more (bytes : Bytes)
  /-- Nothing more will come, because of an error if there is one. -/
  | stop (failure : Option SourceError)
  deriving DecidableEq

/-- Reading no byte at all is the end, an interruption is passed over. -/
def Verdict.of : Except SourceError Bytes → Verdict
  | .ok [] => stop none
  | .ok bytes => more bytes
  | .error e => if e.isInterrupted then more [] else stop (some e)

/-- The bytes that came, and the failure that ended the reading, if any. -/
structure Fill where
  bytes : Bytes
  failure : Option SourceError
  deriving DecidableEq

/-- The bytes, unless the reading failed. -/
def Fill.result (f : Fill) : Except SourceError Bytes :=
  match f.failure with
  | none => .ok f.bytes
  | some e => .error e

variable {ρ : Type} [Reader ρ]

theorem Reader.stamina_lt_of_more {n : Nat} {r : ρ} {bytes : Bytes}
    (h : Verdict.of (Reader.read n r).1 = .more bytes) :
    Reader.stamina (Reader.read n r).2 < Reader.stamina r := by
  match heq : (Reader.read n r).1 with
  | .ok [] => simp [heq, Verdict.of] at h
  | .ok (b :: rest) => exact Reader.stamina_lt_of_bytes heq (by simp)
  | .error e =>
    simp only [heq, Verdict.of] at h
    split at h
    · exact Reader.stamina_lt_of_interrupted heq (by assumption)
    · cases h

theorem Reader.length_le_of_more {n : Nat} {r : ρ} {bytes : Bytes}
    (h : Verdict.of (Reader.read n r).1 = .more bytes) : bytes.length ≤ n := by
  match heq : (Reader.read n r).1 with
  | .ok [] => simp [heq, Verdict.of] at h
  | .ok (b :: rest) =>
    simp only [heq, Verdict.of, Verdict.more.injEq] at h
    exact h ▸ Reader.length_le heq
  | .error e =>
    simp only [heq, Verdict.of] at h
    split at h
    · cases h; simp
    · cases h

/-- Reads until `limit` bytes came or nothing more will come. -/
def readUpTo (limit : Nat) (r : ρ) : Fill × ρ :=
  if limit = 0 then (⟨[], none⟩, r)
  else
    match h : Verdict.of (Reader.read limit r).1 with
    | .stop failure => (⟨[], failure⟩, (Reader.read limit r).2)
    | .more bytes =>
      have := Reader.stamina_lt_of_more h
      let (rest, r') := readUpTo (limit - bytes.length) (Reader.read limit r).2
      (⟨bytes ++ rest.bytes, rest.failure⟩, r')
termination_by Reader.stamina r

theorem length_readUpTo_le (limit : Nat) (r : ρ) : (readUpTo limit r).1.bytes.length ≤ limit := by
  fun_induction readUpTo limit r with
  | case1 => simp
  | case2 => simp
  | case3 limit r h0 bytes h _ rest r' heq ih =>
    have := Reader.length_le_of_more h
    simp only [heq] at ih
    simp only [List.length_append]
    omega

/-- A reading that got all it wanted has cost the reader stamina. -/
theorem stamina_readUpTo_lt {limit : Nat} {r : ρ} (hpos : 0 < limit)
    (hfull : (readUpTo limit r).1.bytes.length = limit) :
    Reader.stamina (readUpTo limit r).2 < Reader.stamina r := by
  fun_induction readUpTo limit r with
  | case1 => omega
  | case2 => simp at hfull; omega
  | case3 limit r h0 bytes h _ rest r' heq ih =>
    have hlt := Reader.stamina_lt_of_more h
    have hle := Reader.length_le_of_more h
    simp only [heq, List.length_append] at ih hfull ⊢
    by_cases hz : limit - bytes.length = 0
    · rw [readUpTo, if_pos hz] at heq
      cases heq
      exact hlt
    · exact Nat.lt_trans (ih (by omega) (by omega)) hlt

/-- What every single read keeps, a reading keeps. -/
theorem readUpTo_invariant {P : ρ → Prop} (hkeep : ∀ n r, P r → P (Reader.read n r).2)
    (limit : Nat) (r : ρ) (h : P r) : P (readUpTo limit r).2 := by
  fun_induction readUpTo limit r with
  | case1 => exact h
  | case2 => exact hkeep _ _ h
  | case3 limit r h0 bytes hv _ rest r' heq ih => simpa only [heq] using ih (hkeep _ _ h)

/-- Interruptions are passed over, so none of them ends a reading. -/
theorem readUpTo_not_interrupted {limit : Nat} {r : ρ} {e : SourceError}
    (h : (readUpTo limit r).1.failure = some e) : e.isInterrupted = false := by
  fun_induction readUpTo limit r with
  | case1 => cases h
  | case2 limit r h0 failure hv =>
    cases h
    match heq : (Reader.read limit r).1 with
    | .ok [] => simp [heq, Verdict.of] at hv
    | .ok (b :: rest) => simp [heq, Verdict.of] at hv
    | .error e' =>
      simp only [heq, Verdict.of] at hv
      split at hv
      · cases hv
      · rename_i hcalm
        cases hv
        simpa using hcalm
  | case3 limit r h0 bytes hv _ rest r' heq ih => exact ih (by simpa only [heq] using h)

/-- Reads of at most `n` bytes until one hands out nothing or fails: what each of them handed out,
and the failure. An interruption counts as a failure here. -/
def readAll (n : Nat) (r : ρ) : List Bytes × Option SourceError × ρ :=
  match h : (Reader.read n r).1 with
  | .error e => ([], some e, (Reader.read n r).2)
  | .ok [] => ([], none, (Reader.read n r).2)
  | .ok (b :: bytes) =>
    have := Reader.stamina_lt_of_bytes h (List.cons_ne_nil b bytes)
    let (rest, last) := readAll n (Reader.read n r).2
    ((b :: bytes) :: rest, last)
termination_by Reader.stamina r

end BlobUpload
