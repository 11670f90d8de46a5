import BlobUpload.Chunk
import BlobUpload.Source.Reader
import BlobUpload.Text.Record

/-! # Cutting a reader into chunks

A cutter reads until it holds a full chunk or the reader ends, and answers one chunk after another.
With a cipher attached every full chunk is encrypted as it comes; the one that ends the reader,
short or empty, is padded and finalizes the cipher. Once it has ended a cutter reads no more.
-/

namespace BlobUpload

/-- What a cutter makes of the bytes of one reading. -/
inductive Cut where
  | chunk (c : Chunk)
  /-- The end, by an error. -/
  | failed (e : UploadError)
  /-- Too little to fill a cipher block: the next reading decides. -/
  | more
  | done

/-- A cutter between two readings. -/
structure Cutter where
  chunkSize : Nat
  /-- How many bytes may still be read, if that is limited. -/
  remaining : Option Nat := none
  offset : Nat := 0
  cipher : Option CipherStream := none
  finished : Bool := false
  chunkSize_pos : 0 < chunkSize

namespace Cutter

/-- A cutter for chunks of `size` bytes; a size of zero counts as one. -/
def ofSize (size : Nat) : Cutter where
  chunkSize := max size 1
  chunkSize_pos := by omega

/-- How many bytes the next reading asks for. -/
def limit (k : Cutter) : Nat :=
  match k.remaining with
  | some left => min left k.chunkSize
  | none => k.chunkSize

def finish (k : Cutter) : Cutter := { k with finished := true }

/-- Answers a chunk at the current offset. Offsets are taken to fit into 64 bits, as they do unless
the cutter starts near their end. -/
def emit (payload : Bytes) (isLast : Bool) (k : Cutter) : Cut × Cutter :=
  (.chunk ⟨k.offset, payload, isLast⟩,
    { k with offset := k.offset + payload.length, finished := isLast })

/-- Encrypts the bytes of one reading. -/
def encrypt (stream : CipherStream) (data : Bytes) (k : Cutter) : Cut × Cutter :=
  let short := decide (data.length < k.chunkSize)
  -- Only the reading that ends the reader is short, so the stream is finalized once.
  let (answer, stream) := if short then stream.finalize data else stream.update data
  let k := { k with cipher := some stream }
  match answer with
  | .error e => (.failed (.encoding e), k.finish)
  | .ok payload => if payload = [] && !short then (.more, k) else k.emit payload short

/-- Takes in the bytes of one reading, or its failure. -/
def absorb (answer : Except SourceError Bytes) (k : Cutter) : Cut × Cutter :=
  match answer with
  | .error e => (.failed (.source k.offset e), k.finish)
  | .ok data =>
    let k := { k with remaining := k.remaining.map (· - data.length) }
    match k.cipher with
    | some stream => k.encrypt stream data
    | none =>
      if data = [] then (.done, k.finish)
      else k.emit data (data.length < k.chunkSize || k.remaining = some 0)

theorem limit_le (k : Cutter) : k.limit ≤ k.chunkSize := by
  unfold limit
  split <;> omega

/-- Only a full chunk lets a cutter go on. -/
theorem chunkSize_le_of_absorb {answer : Except SourceError Bytes} {k : Cutter}
    (h : (k.absorb answer).2.finished = false) :
    ∃ data, answer = .ok data ∧ k.chunkSize ≤ data.length := by
  match answer with
  | .error e => cases h
  | .ok data =>
    refine ⟨data, rfl, ?_⟩
    simp only [absorb] at h
    split at h
    · simp only [encrypt] at h
      split at h
      · cases h
      · split at h <;> simp_all [emit]
    · split at h
      · cases h
      · simp_all [emit]

theorem chunkSize_le_of_more {answer : Except SourceError Bytes} {k k' : Cutter}
    (h : k.absorb answer = (.more, k')) :
    ∃ data, answer = .ok data ∧ k.chunkSize ≤ data.length := by
  match answer with
  | .error e => cases h
  | .ok data =>
    refine ⟨data, rfl, ?_⟩
    simp only [absorb] at h
    split at h
    · simp only [encrypt] at h
      split at h
      · cases h
      · split at h
        · simp_all
        · cases h
    · split at h <;> cases h

variable {ρ : Type} [Reader ρ]

theorem stamina_lt_of_full {k : Cutter} {r : ρ}
    (h : ∃ data, (readUpTo k.limit r).1.result = .ok data ∧ k.chunkSize ≤ data.length) :
    Reader.stamina (readUpTo k.limit r).2 < Reader.stamina r := by
  obtain ⟨data, hresult, hfull⟩ := h
  have hbytes : (readUpTo k.limit r).1.bytes = data := by
    unfold Fill.result at hresult
    split at hresult
    · cases hresult; rfl
    · cases hresult
  have hle := length_readUpTo_le k.limit r
  have hlim := k.limit_le
  have hpos := k.chunkSize_pos
  exact stamina_readUpTo_lt (by rw [hbytes] at hle; omega) (by rw [hbytes] at hle ⊢; omega)

/-- The next chunk, or the error that ends the sequence, or nothing once it has ended. -/
def next (k : Cutter) (r : ρ) : Option (Except UploadError Chunk) × Cutter × ρ :=
  if k.finished then (none, k, r)
  else
    match h : k.absorb (readUpTo k.limit r).1.result with
    | (.chunk c, k') => (some (.ok c), k', (readUpTo k.limit r).2)
    | (.failed e, k') => (some (.error e), k', (readUpTo k.limit r).2)
    | (.done, k') => (none, k', (readUpTo k.limit r).2)
    | (.more, k') =>
      have := stamina_lt_of_full (chunkSize_le_of_more h)
      next k' (readUpTo k.limit r).2
termination_by Reader.stamina r

/-- A bound on the number of answers still to come. -/
def budget (k : Cutter) (r : ρ) : Nat := if k.finished then 0 else Reader.stamina r + 1

theorem budget_absorb_lt {k : Cutter} {r : ρ} (hunfinished : ¬k.finished = true) :
    (k.absorb (readUpTo k.limit r).1.result).2.budget (readUpTo k.limit r).2 < k.budget r := by
  unfold budget
  rw [if_neg hunfinished]
  split
  · omega
  · rename_i hgoesOn
    have := stamina_lt_of_full (chunkSize_le_of_absorb (by simpa using hgoesOn))
    omega

theorem budget_next_lt {k : Cutter} {r : ρ} {answer : Except UploadError Chunk}
    (h : (k.next r).1 = some answer) : (k.next r).2.1.budget (k.next r).2.2 < k.budget r := by
  fun_induction next k r with
  | case1 => cases h
  | case2 k r hunfinished c k' heq => simpa only [heq] using budget_absorb_lt (r := r) hunfinished
  | case3 k r hunfinished e k' heq => simpa only [heq] using budget_absorb_lt (r := r) hunfinished
  | case4 => cases h
  | case5 k r hunfinished k' heq _ ih =>
    have := budget_absorb_lt (r := r) hunfinished
    rw [heq] at this
    exact Nat.lt_trans (ih h) this

/-- All answers from here on. -/
def toList (k : Cutter) (r : ρ) : List (Except UploadError Chunk) × Cutter × ρ :=
  match h : (k.next r).1 with
  | none => ([], (k.next r).2)
  | some answer =>
    have := budget_next_lt h
    let (rest, last) := toList (k.next r).2.1 (k.next r).2.2
    (answer :: rest, last)
termination_by k.budget r

def describe (k : Cutter) : String :=
  Record.render "ChunkSequencer" [
    ("chunk_size", toString k.chunkSize),
    ("remaining", Record.optional (k.remaining.map toString)),
    ("offset", toString k.offset),
    ("finished", toString k.finished)]

end Cutter

end BlobUpload
