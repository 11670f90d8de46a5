import BlobUpload.Source.Reader
import BlobUpload.Source.Script

/-! # Seekable sources

A source is a byte string with a position. It counts its reads and seeks, and its script says how
each of them goes.
-/

namespace BlobUpload

inductive SeekTo where
  | start (offset : Nat)
  | current (delta : Int)
  | fromEnd (delta : Int)
  deriving DecidableEq, Repr

/-- The position that a seek asks for, out of `length` bytes. -/
def SeekTo.target (position length : Nat) : SeekTo → Int
  | start offset => offset
  | current delta => position + delta
  | fromEnd delta => length + delta

/-- A seekable byte string with scripted behaviour. -/
structure Source where
  data : Bytes
  /-- May lie behind the end of the data. -/
  position : Nat := 0
  script : Script := .free
  /-- The seeks that fail, by their number. -/
  seekErrors : List (Nat × SourceError) := []
  reads : Nat := 0
  /-- Number of seeks so far, failed ones included. -/
  seeks : Nat := 0

namespace Source

/-- The bytes from the position on. -/
def rest (s : Source) : Bytes := s.data.drop s.position

/-- Hands out at most `limit` bytes. -/
def handOut (limit : Nat) (s : Source) : Bytes × Source :=
  let bytes := s.rest.take limit
  (bytes, { s with position := s.position + bytes.length })

/-- Reads at most `n` bytes, as the script says. -/
def read (n : Nat) (s : Source) : Except SourceError Bytes × Source :=
  let counted := { s with reads := s.reads + 1 }
  match s.script.step s.reads with
  | .fail e => (.error e, counted)
  | .freely =>
    let (bytes, s') := counted.handOut n
    (.ok bytes, s')
  | .upTo limit =>
    let (bytes, s') := counted.handOut (min n limit)
    (.ok bytes, s')

/-- The error that the next seek meets, if it fails. -/
def nextSeekError? (s : Source) : Option SourceError := s.seekErrors.lookup s.seeks

/-- Moves the position; a failed seek leaves it where it is. -/
def seek (aim : SeekTo) (s : Source) : Except SourceError Nat × Source :=
  let counted := { s with seeks := s.seeks + 1 }
  match s.nextSeekError? with
  | some e => (.error e, counted)
  | none =>
    match aim.target s.position s.data.length with
    | .ofNat target => (.ok target, { counted with position := target })
    | .negSucc _ => (.error .beforeSource, counted)

/-- Asks for the position, which is a seek as well. -/
def tell (s : Source) : Except SourceError Nat × Source := s.seek (.current 0)

/-- Number of bytes from the offset `start` to the end, after which the position is `start`. -/
def lengthFrom (start : Nat) (s : Source) : Except SourceError Nat × Source :=
  match s.seek (.fromEnd 0) with
  | (.error e, s) => (.error e, s)
  | (.ok stop, s) =>
    match s.seek (.start start) with
    | (.error e, s) => (.error e, s)
    | (.ok _, s) => (.ok (stop - start), s)

/-- Number of bytes from the position to the end; the position stays. -/
def remaining (s : Source) : Except SourceError Nat × Source :=
  match s.tell with
  | (.error e, s) => (.error e, s)
  | (.ok start, s) => s.lengthFrom start

/-- Number of listed seek failures that can still be met. -/
def seekErrorsAhead (s : Source) : Nat :=
  (s.seekErrors.filter fun entry => s.seeks ≤ entry.1).length

theorem seekErrorsAhead_read (n : Nat) (s : Source) :
    (s.read n).2.seekErrorsAhead = s.seekErrorsAhead := by
  unfold read
  split <;> rfl

theorem filter_le_succ (entries : List (Nat × SourceError)) (k : Nat) :
    (entries.filter fun entry => k + 1 ≤ entry.1).length ≤
      (entries.filter fun entry => k ≤ entry.1).length := by
  induction entries with
  | nil => simp
  | cons entry rest ih =>
    simp only [List.filter_cons]
    by_cases hpast : k + 1 ≤ entry.1
    · rw [if_pos (decide_eq_true hpast), if_pos (decide_eq_true (Nat.le_of_succ_le hpast))]
      exact Nat.succ_le_succ ih
    · rw [if_neg (by simpa using hpast)]
      split
      · exact Nat.le_succ_of_le ih
      · exact ih

theorem filter_lt_of_lookup {entries : List (Nat × SourceError)} {k : Nat} {e : SourceError}
    (h : entries.lookup k = some e) :
    (entries.filter fun entry => k + 1 ≤ entry.1).length <
      (entries.filter fun entry => k ≤ entry.1).length := by
  induction entries with
  | nil => cases h
  | cons entry rest ih =>
    obtain ⟨number, error⟩ := entry
    have hle := filter_le_succ rest k
    simp only [List.lookup_cons] at h
    simp only [List.filter_cons]
    split at h
    · rename_i hsame
      obtain rfl : k = number := by simpa using hsame
      rw [if_neg (by simp), if_pos (by simp), List.length_cons]
      omega
    · have hsmaller := ih h
      by_cases hpast : k + 1 ≤ number
      · rw [if_pos (decide_eq_true hpast), if_pos (decide_eq_true (Nat.le_of_succ_le hpast))]
        exact Nat.succ_lt_succ hsmaller
      · rw [if_neg (by simpa using hpast)]
        split
        · exact Nat.lt_succ_of_lt hsmaller
        · exact hsmaller

theorem seekErrorsAhead_seek_le (aim : SeekTo) (s : Source) :
    (s.seek aim).2.seekErrorsAhead ≤ s.seekErrorsAhead := by
  have hle := filter_le_succ s.seekErrors s.seeks
  unfold seek
  split
  · exact hle
  · split <;> exact hle

/-- An interrupted seek is one of the listed ones, and each of these is met at most once. -/
theorem seekErrorsAhead_seek_lt {aim : SeekTo} {s : Source} {e : SourceError}
    (h : (s.seek aim).1 = .error e) (he : e.isInterrupted = true) :
    (s.seek aim).2.seekErrorsAhead < s.seekErrorsAhead := by
  unfold seek at h ⊢
  split at h
  · rename_i hlisted
    exact filter_lt_of_lookup hlisted
  · split at h
    · cases h
    · cases h
      cases he

/-! ## A source as a reader -/

/-- Bytes left, each worth as many reads as one byte can cost, and the interruptions ahead. -/
def stamina (s : Source) : Nat :=
  s.rest.length * (s.script.patience + 1) + s.script.lull s.script.patience s.reads

theorem length_rest_handOut (limit : Nat) (s : Source) :
    (s.handOut limit).2.rest.length + (s.handOut limit).1.length = s.rest.length := by
  simp only [handOut, rest, List.length_drop, List.length_take]
  omega

/-- Whatever a read hands out is the front of what is left, and shrinks it. -/
theorem read_ok {n : Nat} {s : Source} {bytes : Bytes} (h : (s.read n).1 = .ok bytes) :
    bytes.length ≤ n ∧ (s.read n).2.rest.length + bytes.length = s.rest.length ∧
      (s.read n).2.script = s.script := by
  unfold read at h ⊢
  split at h
  · cases h
  · cases h
    refine ⟨?_, length_rest_handOut n { s with reads := s.reads + 1 }, rfl⟩
    simp only [List.length_take]
    omega
  · cases h
    refine ⟨?_, length_rest_handOut (min n _) { s with reads := s.reads + 1 }, rfl⟩
    simp only [List.length_take]
    omega

theorem stamina_read_lt_of_bytes {n : Nat} {s : Source} {bytes : Bytes}
    (h : (s.read n).1 = .ok bytes) (hne : bytes ≠ []) : (s.read n).2.stamina < s.stamina := by
  obtain ⟨_, hshrink, hsame⟩ := read_ok h
  -- One byte less makes room for a whole lull, however long the next one is.
  have hpos := List.length_pos_iff.2 hne
  have hlull := s.script.lull_le s.script.patience (s.read n).2.reads
  have hfewer : ((s.read n).2.rest.length + 1) * (s.script.patience + 1) ≤
      s.rest.length * (s.script.patience + 1) := Nat.mul_le_mul_right _ (by omega)
  rw [Nat.succ_mul] at hfewer
  simp only [stamina, hsame]
  omega

theorem stamina_read_lt_of_interrupted {n : Nat} {s : Source} {e : SourceError}
    (h : (s.read n).1 = .error e) (he : e.isInterrupted = true) :
    (s.read n).2.stamina < s.stamina := by
  unfold read at h ⊢
  split at h
  · rename_i hstep
    cases h
    simp only [stamina, rest]
    have := s.script.lull_lt_of_interrupted (i := s.reads) (by rw [hstep]; exact he)
    omega
  · cases h
  · cases h

instance : Reader Source where
  read := read
  stamina := stamina
  length_le h := (read_ok h).1
  stamina_lt_of_bytes := stamina_read_lt_of_bytes
  stamina_lt_of_interrupted := stamina_read_lt_of_interrupted

end Source

end BlobUpload
