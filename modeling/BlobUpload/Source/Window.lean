import BlobUpload.Chunk
import BlobUpload.Offset
import BlobUpload.Source.Basic
import BlobUpload.Text.Record

/-! # Windows over a common source

A window is a bounded region of a source that other windows read as well. It keeps a buffer of its
own: what lies in the buffer is handed out without the source, and a read that runs past the buffer
costs one seek and one refill. A window never reads beyond its region.
-/

namespace BlobUpload

/-- A source that windows are laid over. Its offset zero is where the source stood at first. Once
it is closed, windows can no longer read from it. -/
structure CommonSource where
  source : Source
  origin : Nat
  isOpen : Bool := true

namespace CommonSource

/-- Takes over a source at its current position. -/
def ofSource (s : Source) : Except SourceError CommonSource × Source :=
  match s.tell with
  | (.error e, s) => (.error e, s)
  | (.ok origin, s) => (.ok { source := s, origin }, s)

/-- Number of bytes from offset zero to the end. -/
def length (c : CommonSource) : Except SourceError Nat × CommonSource :=
  let (answer, source) := c.source.lengthFrom c.origin
  (answer, { c with source })

def close (c : CommonSource) : CommonSource := { c with isOpen := false }

end CommonSource

/-- A window: a region of a common source, a position in it, and bytes read ahead. All offsets but
`regionStart` count from the start of the region. -/
structure Window where
  regionStart : Nat
  length : Nat
  capacity : Nat
  buffer : Bytes := []
  bufferStart : Nat := 0
  position : Nat := 0
  deriving DecidableEq, Repr

/-- The window over `length` bytes of a common source from `offset` on. -/
def CommonSource.window (c : CommonSource) (offset length capacity : Nat) : Window where
  regionStart := Offset.add c.origin offset
  length
  capacity := max capacity 1

namespace Window

def region (w : Window) : Span := ⟨w.regionStart, w.regionStart + w.length⟩

/-- The offset behind the buffered bytes. -/
def bufferStop (w : Window) : Nat := w.bufferStart + w.buffer.length

def buffered (w : Window) : Span := ⟨w.bufferStart, w.bufferStop⟩

/-- Whether the buffer holds `n` bytes from the position on. -/
def covers (w : Window) (n : Nat) : Bool :=
  w.bufferStart ≤ w.position && w.position + n ≤ w.bufferStop

/-- Drops what lies before the position, and everything if the position is outside the buffer. -/
def rebase (w : Window) : Window :=
  let kept :=
    if w.bufferStart ≤ w.position && w.position ≤ w.bufferStop then
      w.buffer.drop (w.position - w.bufferStart)
    else []
  { w with buffer := kept, bufferStart := w.position }

/-- How much to read ahead so that `want` bytes are there: as much as the window may hold, but
nothing beyond its region. -/
def refillLimit (w : Window) (want : Nat) : Nat :=
  min (max w.capacity (want - w.buffer.length)) (w.length - w.bufferStop)

/-- Reads on from the end of the buffer. -/
def extend (want : Nat) (w : Window) (c : CommonSource) :
    Option SourceError × Window × CommonSource :=
  if c.isOpen then
    match c.source.seek (.start (Offset.add w.regionStart w.bufferStop)) with
    | (.error e, source) => (some e, w, { c with source })
    | (.ok _, source) =>
      let (fill, source) := readUpTo (w.refillLimit want) source
      -- What came before a failure is there for the next read.
      (fill.failure, { w with buffer := w.buffer ++ fill.bytes }, { c with source })
  else (some .sourceClosed, w, c)

/-- Makes `want` bytes from the position on available, unless the source ends first. -/
def refill (want : Nat) (w : Window) (c : CommonSource) :
    Option SourceError × Window × CommonSource :=
  w.rebase.extend want c

/-- Hands out at most `want` buffered bytes. -/
def serve (want : Nat) (w : Window) : Bytes × Window :=
  let bytes := (w.buffer.drop (w.position - w.bufferStart)).take want
  (bytes, { w with position := w.position + bytes.length })

/-- Number of bytes from the position to the end of the region, at most `n`. -/
def wanted (n : Nat) (w : Window) : Nat := min n (w.length - w.position)

/-- Reads at most `n` bytes. -/
def read (n : Nat) (w : Window) (c : CommonSource) :
    Except SourceError Bytes × Window × CommonSource :=
  let want := w.wanted n
  if want = 0 then (.ok [], w, c)
  else if w.covers want then
    let (bytes, w) := w.serve want
    (.ok bytes, w, c)
  else
    match w.refill want c with
    | (some e, w, c) => (.error e, w, c)
    | (none, w, c) =>
      let (bytes, w) := w.serve want
      (.ok bytes, w, c)

/-- Moves the position, but not behind the end of the region. Within the buffer this costs nothing;
elsewhere the source is moved along and the buffer given up. -/
def seek (aim : SeekTo) (w : Window) (c : CommonSource) :
    Except SourceError Nat × Window × CommonSource :=
  match aim.target w.position w.length with
  | .negSucc _ => (.error .beforeWindow, w, c)
  | .ofNat target =>
    let target := min target w.length
    if w.bufferStart ≤ target && target < w.bufferStop then
      (.ok target, { w with position := target }, c)
    else if c.isOpen then
      match c.source.seek (.start (Offset.add w.regionStart target)) with
      | (.error e, source) => (.error e, w, { c with source })
      | (.ok _, source) =>
        (.ok target, { w with buffer := [], bufferStart := target, position := target },
          { c with source })
    else (.error .sourceClosed, w, c)

def describe (w : Window) : String :=
  Record.render "SharedSubStream" [
    ("region_start", toString w.regionStart),
    ("region_len", toString w.length),
    ("buffer_start", toString w.bufferStart),
    ("buffered", toString w.buffer.length),
    ("position", toString w.position)]

/-! ## How a read moves a window -/

def left (w : Window) : Nat := w.length - w.position

theorem left_serve {want : Nat} {w : Window} (h : want ≤ w.left) :
    (w.serve want).2.left + (w.serve want).1.length = w.left := by
  simp only [left, serve] at h ⊢
  simp only [List.length_take, List.length_drop]
  omega

theorem left_refill (want : Nat) (w : Window) (c : CommonSource) :
    (w.refill want c).2.1.left = w.left := by
  unfold refill extend
  split
  · split <;> rfl
  · rfl

theorem seekErrorsAhead_extend_le (want : Nat) (w : Window) (c : CommonSource) :
    (w.extend want c).2.2.source.seekErrorsAhead ≤ c.source.seekErrorsAhead := by
  have hle := c.source.seekErrorsAhead_seek_le (.start (Offset.add w.regionStart w.bufferStop))
  unfold extend
  split
  · split
    · rename_i e source heq
      simpa only [heq] using hle
    · rename_i target source heq
      simp only [heq] at hle
      refine readUpTo_invariant
        (P := fun s : Source => s.seekErrorsAhead ≤ c.source.seekErrorsAhead) ?_ _ _ hle
      intro n s hs
      exact (Source.seekErrorsAhead_read n s).symm ▸ hs
  · exact Nat.le_refl _

theorem seekErrorsAhead_extend_lt {want : Nat} {w : Window} {c : CommonSource} {e : SourceError}
    (h : (w.extend want c).1 = some e) (he : e.isInterrupted = true) :
    (w.extend want c).2.2.source.seekErrorsAhead < c.source.seekErrorsAhead := by
  unfold extend at h ⊢
  split at h
  · split at h
    · rename_i e' source heq
      cases h
      have hlt := Source.seekErrorsAhead_seek_lt (by rw [heq]) he
      simp_all
    · rename_i target source heq
      exact absurd he (by simp [readUpTo_not_interrupted h])
  · cases h
    cases he

theorem wanted_le_left (n : Nat) (w : Window) : w.wanted n ≤ w.left := Nat.min_le_right _ _

theorem length_serve_le (want : Nat) (w : Window) : (w.serve want).1.length ≤ want := by
  simp only [serve, List.length_take]
  exact Nat.min_le_left _ _

/-- What a read hands out is no longer left. -/
theorem read_ok {n : Nat} {w : Window} {c : CommonSource} {bytes : Bytes}
    (h : (w.read n c).1 = .ok bytes) :
    bytes.length ≤ n ∧ (w.read n c).2.1.left + bytes.length = w.left := by
  have hwant := w.wanted_le_left n
  have hn : w.wanted n ≤ n := Nat.min_le_left _ _
  unfold read at h ⊢
  simp only at h ⊢
  split at h
  · cases h
    rw [if_pos (by assumption)]
    exact ⟨Nat.zero_le n, rfl⟩
  · rename_i hwanting
    rw [if_neg hwanting]
    split at h
    · rename_i hcovered
      cases h
      rw [if_pos hcovered]
      exact ⟨Nat.le_trans (length_serve_le _ w) hn, left_serve hwant⟩
    · rename_i huncovered
      rw [if_neg huncovered]
      have hsame := left_refill (w.wanted n) w c
      split at h
      · cases h
      · rename_i w' c' heq
        cases h
        rw [heq] at hsame
        simp only at hsame
        exact ⟨Nat.le_trans (length_serve_le _ w') hn, hsame ▸ left_serve (hsame ▸ hwant)⟩

theorem left_read_of_error {n : Nat} {w : Window} {c : CommonSource} {e : SourceError}
    (h : (w.read n c).1 = .error e) : (w.read n c).2.1.left = w.left := by
  have hsame := w.left_refill (w.wanted n) c
  unfold read at h ⊢
  simp only at h ⊢
  split at h
  · cases h
  · split at h
    · cases h
    · split at h
      · simp_all
      · cases h

theorem seekErrorsAhead_read_le (n : Nat) (w : Window) (c : CommonSource) :
    (w.read n c).2.2.source.seekErrorsAhead ≤ c.source.seekErrorsAhead := by
  have hle := w.rebase.seekErrorsAhead_extend_le (w.wanted n) c
  unfold read refill
  simp only
  split
  · exact Nat.le_refl _
  · split
    · exact Nat.le_refl _
    · split <;> simp_all

/-- Only a seek can interrupt a read of a window. -/
theorem seekErrorsAhead_read_lt {n : Nat} {w : Window} {c : CommonSource} {e : SourceError}
    (h : (w.read n c).1 = .error e) (he : e.isInterrupted = true) :
    (w.read n c).2.2.source.seekErrorsAhead < c.source.seekErrorsAhead := by
  unfold read refill at h ⊢
  simp only at h ⊢
  split at h
  · cases h
  · split at h
    · cases h
    · split at h
      · rename_i e' w' c' heq
        cases h
        have hlt := seekErrorsAhead_extend_lt (by rw [heq]) he
        simp_all
      · cases h

/-- More bytes bring the end of the window nearer, and an interruption is one seek failure less. -/
theorem left_of_more {n : Nat} {w : Window} {c : CommonSource} {bytes : Bytes}
    (h : Verdict.of (w.read n c).1 = .more bytes) :
    (w.read n c).2.1.left + bytes.length = w.left ∧
      (bytes = [] →
        (w.read n c).2.2.source.seekErrorsAhead < c.source.seekErrorsAhead) := by
  match heq : (w.read n c).1 with
  | .ok [] => simp [heq, Verdict.of] at h
  | .ok (b :: rest) =>
    simp only [heq, Verdict.of, Verdict.more.injEq] at h
    subst h
    exact ⟨(read_ok heq).2, by simp⟩
  | .error e =>
    simp only [heq, Verdict.of] at h
    split at h
    · rename_i hinterrupted
      cases h
      exact ⟨left_read_of_error heq, fun _ => seekErrorsAhead_read_lt heq hinterrupted⟩
    · cases h

theorem left_of_stop {n : Nat} {w : Window} {c : CommonSource}
    (h : Verdict.of (w.read n c).1 = .stop none) : (w.read n c).2.1.left = w.left := by
  match heq : (w.read n c).1 with
  | .ok [] => exact (read_ok heq).2
  | .ok (b :: rest) => simp [heq, Verdict.of] at h
  | .error e =>
    simp only [heq, Verdict.of] at h
    split at h <;> cases h

end Window

/-- A window together with its source, read as one. -/
structure WindowReader where
  window : Window
  common : CommonSource

namespace WindowReader

def read (n : Nat) (r : WindowReader) : Except SourceError Bytes × WindowReader :=
  let answer := r.window.read n r.common
  (answer.1, { window := answer.2.1, common := answer.2.2 })

/-- The bytes left and the seeks that can still interrupt. -/
def stamina (r : WindowReader) : Nat := r.window.left + r.common.source.seekErrorsAhead

instance : Reader WindowReader where
  read := read
  stamina := stamina
  length_le h := (Window.read_ok h).1
  stamina_lt_of_bytes {n r bytes} h hne := by
    have hshrink := (Window.read_ok h).2
    have hahead := r.window.seekErrorsAhead_read_le n r.common
    have hpos := List.length_pos_iff.2 hne
    simp only [stamina, read]
    omega
  stamina_lt_of_interrupted {n r e} h he := by
    have hsame := Window.left_read_of_error h
    have hahead := Window.seekErrorsAhead_read_lt h he
    simp only [stamina, read]
    omega

end WindowReader

end BlobUpload
