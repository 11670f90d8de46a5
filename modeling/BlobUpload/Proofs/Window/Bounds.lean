import BlobUpload.Proofs.Window.Refinement

/-! # Where the buffer of a window lies

The position of a window lies in its buffer or right behind it, and its buffer lies in its region.
Every call keeps it so, whether it succeeds or fails and whatever the source does. So nothing that a
call computes on the way leaves the region either. Main statement: `reached_in_bounds`. -/

namespace BlobUpload

namespace Window

/-- The position lies in the buffer or right behind it, and the buffer in the region. -/
structure InBounds (w : Window) : Prop where
  start_le : w.bufferStart ≤ w.position
  position_le : w.position ≤ w.bufferStop
  stop_le : w.bufferStop ≤ w.length

/-- The bytes that a read of `n` bytes is to hand out are in the buffer. -/
def Buffers (n : Nat) (w : Window) : Prop := w.wanted n = 0 ∨ w.covers (w.wanted n) = true

instance (n : Nat) (w : Window) : Decidable (w.Buffers n) :=
  inferInstanceAs (Decidable (_ ∨ _))

/-! ## What a read does -/

variable {n : Nat} {w w' : Window} {c c' : CommonSource}

/-- What is in the buffer is handed out without the source. -/
theorem read_of_buffers (h : w.Buffers n) (c : CommonSource) :
    w.read n c = (.ok (w.serve (w.wanted n)).1, (w.serve (w.wanted n)).2, c) := by
  rw [read]
  rcases h with hzero | hcovers
  · rw [if_pos hzero, hzero]
    rfl
  · simp only [hcovers, if_true]
    split
    · rename_i hzero
      rw [hzero]
      rfl
    · rfl

theorem read_of_failed (h : ¬w.Buffers n) {e : SourceError}
    (hfailed : w.refill (w.wanted n) c = (some e, w', c')) : w.read n c = (.error e, w', c') := by
  obtain ⟨hwanting, huncovered⟩ := not_or.1 h
  rw [read, if_neg hwanting, if_neg huncovered, hfailed]

theorem read_of_refilled (h : ¬w.Buffers n)
    (hrefilled : w.refill (w.wanted n) c = (none, w', c')) :
    w.read n c = (.ok (w'.serve (w.wanted n)).1, (w'.serve (w.wanted n)).2, c') := by
  obtain ⟨hwanting, huncovered⟩ := not_or.1 h
  rw [read, if_neg hwanting, if_neg huncovered, hrefilled]

/-! ## Staying in bounds -/

theorem inBounds_window (c : CommonSource) (offset length capacity : Nat) :
    (c.window offset length capacity).InBounds :=
  ⟨Nat.le_refl 0, Nat.le_refl 0, Nat.zero_le length⟩

/-- A refill finds the position in the buffer, and keeps all that lies behind it. -/
theorem InBounds.rebase_eq (h : w.InBounds) :
    w.rebase = { w with
      buffer := w.buffer.drop (w.position - w.bufferStart), bufferStart := w.position } := by
  have hinside : (decide (w.bufferStart ≤ w.position) && decide (w.position ≤ w.bufferStop)) =
      true := by simp [h.start_le, h.position_le]
  rw [rebase, if_pos hinside]

theorem InBounds.consumed_le (h : w.InBounds) :
    w.position - w.bufferStart ≤ w.buffer.length := by
  have := h.position_le
  rw [bufferStop] at this
  omega

theorem InBounds.bufferStop_rebase (h : w.InBounds) : w.rebase.bufferStop = w.bufferStop := by
  have hstart := h.start_le
  have hconsumed := h.consumed_le
  rw [h.rebase_eq]
  simp only [bufferStop, List.length_drop]
  omega

theorem InBounds.rebase (h : w.InBounds) : w.rebase.InBounds :=
  ⟨Nat.le_refl w.position, Nat.le_add_right w.position _, h.bufferStop_rebase.symm ▸ h.stop_le⟩

/-- A refill asks for no byte behind the region. -/
theorem InBounds.refillLimit_le (h : w.InBounds) (want : Nat) :
    w.bufferStop + w.refillLimit want ≤ w.length := by
  have hstop := h.stop_le
  have hlimit : w.refillLimit want ≤ w.length - w.bufferStop := Nat.min_le_right _ _
  omega

/-- A buffer that grows by no more than the rest of the region stays in it. -/
theorem InBounds.append (h : w.InBounds) {bytes : Bytes}
    (hfits : w.bufferStop + bytes.length ≤ w.length) :
    ({ w with buffer := w.buffer ++ bytes } : Window).InBounds := by
  have hgrown : ({ w with buffer := w.buffer ++ bytes } : Window).bufferStop =
      w.bufferStop + bytes.length := by
    simp only [bufferStop, List.length_append]
    omega
  refine ⟨h.start_le, ?_, ?_⟩
  · rw [hgrown]
    exact Nat.le_add_right_of_le h.position_le
  · rw [hgrown]
    exact hfits

theorem InBounds.extend (h : w.InBounds) (want : Nat) (c : CommonSource) :
    (w.extend want c).2.1.InBounds := by
  rw [Window.extend]
  split
  · split
    · exact h
    · rename_i source _
      have hroom := h.refillLimit_le want
      have hshort := length_readUpTo_le (w.refillLimit want) source
      exact h.append (Nat.le_trans (Nat.add_le_add_left hshort _) hroom)
  · exact h

theorem InBounds.refill (h : w.InBounds) (want : Nat) (c : CommonSource) :
    (w.refill want c).2.1.InBounds := h.rebase.extend want c

/-- What is handed out lies in the buffer behind the position. -/
theorem InBounds.serve_le (h : w.InBounds) (want : Nat) :
    w.position - w.bufferStart + (w.serve want).1.length ≤ w.buffer.length := by
  have hconsumed := h.consumed_le
  simp only [serve, List.length_take, List.length_drop]
  omega

theorem InBounds.serve (h : w.InBounds) (want : Nat) : (w.serve want).2.InBounds := by
  have hserved := h.serve_le want
  have hstart := h.start_le
  refine ⟨Nat.le_add_right_of_le hstart, ?_, h.stop_le⟩
  change w.position + (w.serve want).1.length ≤ w.bufferStart + w.buffer.length
  omega

theorem InBounds.read (h : w.InBounds) (n : Nat) (c : CommonSource) :
    (w.read n c).2.1.InBounds := by
  by_cases hbuffers : w.Buffers n
  · rw [read_of_buffers hbuffers]
    exact h.serve _
  · have hrefilled := h.refill (w.wanted n) c
    rcases heq : w.refill (w.wanted n) c with ⟨_ | e, w', c'⟩
    · rw [heq] at hrefilled
      rw [read_of_refilled hbuffers heq]
      exact hrefilled.serve _
    · rw [heq] at hrefilled
      rw [read_of_failed hbuffers heq]
      exact hrefilled

/-- A seek ends in the buffer, or leaves an empty one where it ends. -/
theorem InBounds.seek (h : w.InBounds) (aim : SeekTo) (c : CommonSource) :
    (w.seek aim c).2.1.InBounds := by
  rw [Window.seek]
  cases aim.target w.position w.length with
  | negSucc k => exact h
  | ofNat target =>
      simp only
      split
      · rename_i hinside
        simp only [Bool.and_eq_true, decide_eq_true_eq] at hinside
        exact ⟨hinside.1, Nat.le_of_lt hinside.2, h.stop_le⟩
      split
      · split
        · exact h
        · exact ⟨Nat.le_refl _, Nat.le_refl _, Nat.min_le_right target w.length⟩
      · exact h

theorem InBounds.call (h : w.InBounds) (op : WindowCall) (c : CommonSource) :
    (w.call op c).2.1.InBounds := by
  cases op with
  | read n => exact h.read n c
  | seek aim => exact h.seek aim c

end Window

/-! ## Exact offsets

An exact computation has no result where a sum of offsets does not fit into 64 bits, a difference is
negative, or a slice leaves its bytes. -/

namespace Offset

def add? (a b : Nat) : Option Nat := if a + b < UInt64.size then some (a + b) else none

def sub? (a b : Nat) : Option Nat := if b ≤ a then some (a - b) else none

theorem add?_of_lt {a b : Nat} (h : a + b < UInt64.size) : add? a b = some (a + b) := if_pos h

theorem sub?_of_le {a b : Nat} (h : b ≤ a) : sub? a b = some (a - b) := if_pos h

end Offset

/-- The bytes of a span, all of which are there. -/
def Bytes.slice? (data : Bytes) (s : Span) : Option Bytes :=
  if s.start ≤ s.stop ∧ s.stop ≤ data.length then some (data.slice s) else none

theorem Bytes.slice?_of_le {data : Bytes} {s : Span} (hstart : s.start ≤ s.stop)
    (hstop : s.stop ≤ data.length) : data.slice? s = some (data.slice s) := if_pos ⟨hstart, hstop⟩

namespace Window

def bufferStop? (w : Window) : Option Nat := Offset.add? w.bufferStart w.buffer.length

def covers? (want : Nat) (w : Window) : Option Bool :=
  if w.bufferStart ≤ w.position then do
    let reach ← Offset.add? w.position want
    let stop ← w.bufferStop?
    some (reach ≤ stop)
  else some false

/-- Drops what lies before the position. There is no result if the position is outside the buffer,
so that all of it would have to be dropped. -/
def rebase? (w : Window) : Option Window := do
  let stop ← w.bufferStop?
  if w.bufferStart ≤ w.position ∧ w.position ≤ stop then
    let consumed ← Offset.sub? w.position w.bufferStart
    let buffer ← w.buffer.slice? ⟨consumed, w.buffer.length⟩
    some { w with buffer, bufferStart := w.position }
  else none

def extend? (want : Nat) (w : Window) (c : CommonSource) :
    Option (Option SourceError × Window × CommonSource) := do
  let stop ← w.bufferStop?
  let left ← Offset.sub? w.length stop
  let start ← Offset.add? w.regionStart stop
  if c.isOpen then
    match c.source.seek (.start start) with
    | (.error e, source) => some (some e, w, { c with source })
    | (.ok _, source) =>
      let (fill, source) := readUpTo (min (max w.capacity (want - w.buffer.length)) left) source
      some (fill.failure, { w with buffer := w.buffer ++ fill.bytes }, { c with source })
  else some (some .sourceClosed, w, c)

/-- Hands out at most `want` buffered bytes to somebody who has room for `room` bytes. -/
def serve? (room want : Nat) (w : Window) : Option (Bytes × Window) := do
  let start ← Offset.sub? w.position w.bufferStart
  let buffered ← Offset.sub? w.buffer.length start
  let count := min want buffered
  let bytes ← w.buffer.slice? ⟨start, start + count⟩
  let position ← Offset.add? w.position count
  if count ≤ room then some (bytes, { w with position }) else none

/-- Reads at most `n` bytes by exact computations. -/
def read? (n : Nat) (w : Window) (c : CommonSource) :
    Option (Except SourceError Bytes × Window × CommonSource) := do
  let want := w.wanted n
  if want = 0 then return (.ok [], w, c)
  if ← w.covers? want then
    let (bytes, w) ← w.serve? n want
    return (.ok bytes, w, c)
  match ← (← w.rebase?).extend? want c with
  | (some e, w, c) => return (.error e, w, c)
  | (none, w, c) =>
    let (bytes, w) ← w.serve? n want
    return (.ok bytes, w, c)

/-- Moves the position by exact computations. -/
def seek? (aim : SeekTo) (w : Window) (c : CommonSource) :
    Option (Except SourceError Nat × Window × CommonSource) :=
  match aim.target w.position w.length with
  | .negSucc _ => some (.error .beforeWindow, w, c)
  | .ofNat target => do
    let target := min target w.length
    let stop ← w.bufferStop?
    if w.bufferStart ≤ target && target < stop then
      return (.ok target, { w with position := target }, c)
    let absolute ← Offset.add? w.regionStart target
    if c.isOpen then
      match c.source.seek (.start absolute) with
      | (.error e, source) => return (.error e, w, { c with source })
      | (.ok _, source) =>
        return (.ok target, { w with buffer := [], bufferStart := target, position := target },
          { c with source })
    else return (.error .sourceClosed, w, c)

/-- Makes a call by exact computations. -/
def call? (op : WindowCall) (w : Window) (c : CommonSource) :
    Option (WindowAnswer × Window × CommonSource) :=
  match op with
  | .read n => (w.read? n c).map fun result => (.bytes result.1, result.2)
  | .seek aim => (w.seek? aim c).map fun result => (.position result.1, result.2)

variable {n want : Nat} {w : Window} {c : CommonSource}

/-! ### In bounds everything is exact -/

theorem InBounds.bufferStop?_eq (h : w.InBounds) (hfits : w.region.stop < UInt64.size) :
    w.bufferStop? = some w.bufferStop := by
  have hstop := h.stop_le
  have hfits : w.regionStart + w.length < UInt64.size := hfits
  refine Offset.add?_of_lt (Nat.lt_of_le_of_lt ?_ hfits)
  exact Nat.le_add_left_of_le hstop

theorem InBounds.covers?_eq (h : w.InBounds) (hfits : w.region.stop < UInt64.size)
    (hwanted : want ≤ w.left) : w.covers? want = some (w.covers want) := by
  have hposition : w.position + want < UInt64.size := by
    have hfits : w.regionStart + w.length < UInt64.size := hfits
    have := h.position_le
    have := h.stop_le
    rw [left] at hwanted
    omega
  rw [covers?, if_pos h.start_le, Offset.add?_of_lt hposition, h.bufferStop?_eq hfits]
  simp [covers, h.start_le]

theorem InBounds.rebase?_eq (h : w.InBounds) (hfits : w.region.stop < UInt64.size) :
    w.rebase? = some w.rebase := by
  have hkept : w.buffer.slice ⟨w.position - w.bufferStart, w.buffer.length⟩ =
      w.buffer.drop (w.position - w.bufferStart) := by
    rw [Bytes.slice, Span.length]
    exact List.take_of_length_le (Nat.le_of_eq List.length_drop)
  rw [rebase?, h.bufferStop?_eq hfits]
  simp only [bind, Option.bind]
  rw [if_pos ⟨h.start_le, h.position_le⟩, Offset.sub?_of_le h.start_le]
  simp only [Bytes.slice?_of_le (s := ⟨w.position - w.bufferStart, w.buffer.length⟩)
    h.consumed_le (Nat.le_refl _), hkept, h.rebase_eq]

theorem InBounds.extend?_eq (h : w.InBounds) (hfits : w.region.stop < UInt64.size) (want : Nat)
    (c : CommonSource) : w.extend? want c = some (w.extend want c) := by
  have hstart : w.regionStart + w.bufferStop < UInt64.size :=
    Nat.lt_of_le_of_lt (Nat.add_le_add_left h.stop_le _) hfits
  rw [extend?, Window.extend, h.bufferStop?_eq hfits]
  simp only [bind, Option.bind, Offset.sub?_of_le h.stop_le, Offset.add?_of_lt hstart,
    Offset.add_of_lt hstart]
  split
  · rcases c.source.seek (.start (w.regionStart + w.bufferStop)) with ⟨e | target, source⟩ <;> rfl
  · rfl

/-- What is served is a slice of the buffer. -/
theorem slice_serve (want : Nat) (w : Window) :
    w.buffer.slice ⟨w.position - w.bufferStart,
      w.position - w.bufferStart + (w.serve want).1.length⟩ = (w.serve want).1 := by
  have hfront : (w.serve want).1 <+: w.buffer.drop (w.position - w.bufferStart) :=
    List.take_prefix _ _
  rw [Bytes.slice, Span.length, Nat.add_sub_cancel_left]
  exact (List.prefix_iff_eq_take.1 hfront).symm

theorem InBounds.serve?_eq (h : w.InBounds) (hfits : w.region.stop < UInt64.size)
    (hroom : want ≤ n) : w.serve? n want = some (w.serve want) := by
  have hserved := h.serve_le want
  have hcount : min want (w.buffer.length - (w.position - w.bufferStart)) =
      (w.serve want).1.length := by
    simp only [Window.serve, List.length_take, List.length_drop]
  have hposition : w.position + (w.serve want).1.length < UInt64.size := by
    have hfits : w.regionStart + w.length < UInt64.size := hfits
    have hstart := h.start_le
    have hstop := h.stop_le
    rw [bufferStop] at hstop
    omega
  rw [serve?, Offset.sub?_of_le h.start_le]
  simp only [bind, Option.bind, Offset.sub?_of_le h.consumed_le, hcount]
  rw [Bytes.slice?_of_le (Nat.le_add_right _ _) hserved, Offset.add?_of_lt hposition, slice_serve]
  simp only
  rw [if_pos (Nat.le_trans (length_serve_le want w) hroom)]
  rfl

theorem wanted_le (n : Nat) (w : Window) : w.wanted n ≤ n := Nat.min_le_left _ _

theorem InBounds.read?_eq (h : w.InBounds) (hfits : w.region.stop < UInt64.size) (n : Nat)
    (c : CommonSource) : w.read? n c = some (w.read n c) := by
  have hrefilled := h.refill (w.wanted n) c
  have hsame := region_refill (w.wanted n) w c
  rw [read?, Window.read, h.covers?_eq hfits (w.wanted_le_left n), h.rebase?_eq hfits]
  simp only [bind, Option.bind, h.rebase.extend?_eq hfits, h.serve?_eq hfits (w.wanted_le n)]
  split
  · rfl
  split
  · rfl
  · change (match w.refill (w.wanted n) c with | (some e, w, c) => _ | (none, w, c) => _) = _
    rcases heq : w.refill (w.wanted n) c with ⟨_ | e, w', c'⟩
    · rw [heq] at hrefilled hsame
      simp only [hrefilled.serve?_eq (hsame.symm ▸ hfits) (w.wanted_le n)]
      rfl
    · rfl

theorem InBounds.seek?_eq (h : w.InBounds) (hfits : w.region.stop < UInt64.size) (aim : SeekTo)
    (c : CommonSource) : w.seek? aim c = some (w.seek aim c) := by
  rw [seek?, Window.seek]
  cases aim.target w.position w.length with
  | negSucc k => rfl
  | ofNat target =>
      have habsolute : w.regionStart + min target w.length < UInt64.size :=
        Nat.lt_of_le_of_lt (Nat.add_le_add_left (Nat.min_le_right _ _) _) hfits
      simp only [h.bufferStop?_eq hfits, Offset.add?_of_lt habsolute, Offset.add_of_lt habsolute,
        bind, Option.bind]
      split
      · rfl
      split
      · rcases c.source.seek (.start (w.regionStart + min target w.length)) with
          ⟨e | position, source⟩ <;> rfl
      · rfl

/-- In bounds a call computes exactly what it computes without regard to the width of offsets. -/
theorem InBounds.call?_eq (h : w.InBounds) (hfits : w.region.stop < UInt64.size) (op : WindowCall)
    (c : CommonSource) : w.call? op c = some (w.call op c) := by
  cases op with
  | read n => rw [call?, h.read?_eq hfits, Option.map_some]; rfl
  | seek aim => rw [call?, h.seek?_eq hfits, Option.map_some]; rfl

/-- A call moves the window inside its region, never the region. -/
theorem region_call (op : WindowCall) (w : Window) (c : CommonSource) :
    (w.call op c).2.1.region = w.region := by
  cases op with
  | read n => exact region_read n w c
  | seek aim =>
      simp only [call, seek]
      split
      · rfl
      split
      · rfl
      split
      · split <;> rfl
      · rfl

end Window

/-! ## Windows over one source -/

namespace Windows

variable {ι : Type} [DecidableEq ι]

/-- The windows after somebody has measured their source. -/
def measure (s : Windows ι) : Windows ι := { s with common := s.common.length.2 }

/-- The windows after their source was closed. -/
def close (s : Windows ι) : Windows ι := { s with common := s.common.close }

/-- Windows over the regions of a source, after any calls to them. In between the source may be
measured or closed. -/
inductive Reached (source : Source) (regions : ι → Region) : Windows ι → Prop where
  | opened {s : Windows ι} (h : opened source regions = .ok s) : Reached source regions s
  | called {s : Windows ι} (hbefore : Reached source regions s) (i : ι) (op : WindowCall) :
    Reached source regions (s.call i op).2
  | measured {s : Windows ι} (hbefore : Reached source regions s) :
    Reached source regions s.measure
  | closed {s : Windows ι} (hbefore : Reached source regions s) : Reached source regions s.close

variable {source : Source} {regions : ι → Region} {s : Windows ι}

/-- What holds of a new window, and after a call if it did before, holds of every window. -/
theorem Reached.induction {P : Window → Prop} (h : Reached source regions s) (i : ι)
    (hopened : ∀ s, Windows.opened source regions = .ok s → P (s.window i))
    (hcall : ∀ w op c, P w → P (w.call op c).2.1) : P (s.window i) := by
  induction h with
  | opened h => exact hopened _ h
  | @called s hbefore j op ih =>
      rcases eq_or_ne j i with rfl | hother
      · rw [window_call_self]
        exact hcall _ op s.common ih
      · rw [window_call_of_ne hother]
        exact ih
  | measured _ ih => exact ih
  | closed _ ih => exact ih

theorem Reached.inBounds (h : Reached source regions s) (i : ι) : (s.window i).InBounds := by
  refine h.induction i (fun s hopened => ?_) fun w op c hinBounds => hinBounds.call op c
  rw [window_of_opened hopened]
  exact Window.inBounds_window _ _ _ _

theorem Reached.region_eq (h : Reached source regions s) {i : ι}
    (hregion : ((regions i).cursor source).region.stop < UInt64.size) :
    (s.window i).region = ((regions i).cursor source).region := by
  refine h.induction (P := fun w => w.region = ((regions i).cursor source).region) i
    (fun s hopened => ?_) fun w op c hsame => (Window.region_call op w c).trans hsame
  exact region_of_opened hopened hregion

/-- Whatever calls were made to the windows over a source, whatever the source has done and whether
it is still open, every window is in bounds. So if the region ends within 64 bits, the next call
computes exactly what it would if offsets were of any size: no sum is wrapped, no difference is
negative, no slice leaves its bytes, no buffer is discarded by a refill, and the source is asked for
bytes of the region only. -/
theorem reached_in_bounds (h : Reached source regions s) (i : ι) :
    (s.window i).InBounds ∧
    (((regions i).cursor source).region.stop < UInt64.size → ∀ op,
      (s.window i).call? op s.common = some ((s.window i).call op s.common) ∧
      s.common.source.Visits ((regions i).cursor source).region
        (s.call i op).2.common.source) := by
  have hinBounds := h.inBounds i
  refine ⟨hinBounds, fun hregion op => ?_⟩
  have hsame := h.region_eq hregion
  exact ⟨hinBounds.call?_eq (hsame ▸ hregion) op s.common,
    (Confined.of_region hsame (Nat.le_of_lt hregion)).visits op⟩

/-- Six bytes, of which the first read brings three and the second fails to bring any. -/
def worn : Source where
  data := [1, 2, 3, 4, 5, 6]
  script := .ofList [.upTo 3, .fail ⟨.other "Other", "worn"⟩]

/-- The window after three reads: one that fails half way, one that the buffer serves, and one that
finds the source closed and drops what lies before the position all the same. -/
def wornOut (s : Windows Unit) : Windows Unit :=
  (((s.call () (.read 2)).2.call () (.read 2)).2.close.call () (.read 3)).2

theorem wornOut_in_bounds :
    ∃ s : Windows Unit, Reached worn (fun _ => ⟨0, 6, 4⟩) s ∧
      (s.window ()).buffered = ⟨2, 3⟩ ∧ (s.window ()).InBounds ∧
      (s.window ()).call? (.read 1) s.common = some ((s.window ()).call (.read 1) s.common) := by
  obtain ⟨s, hopened⟩ : ∃ s, opened worn (fun _ : Unit => ⟨0, 6, 4⟩) = .ok s := ⟨_, rfl⟩
  have hreached : Reached worn (fun _ => ⟨0, 6, 4⟩) (wornOut s) :=
    .called (.closed (.called (.called (.opened hopened) () (.read 2)) () (.read 2))) () (.read 3)
  obtain ⟨hinBounds, hexactly⟩ := reached_in_bounds hreached ()
  refine ⟨wornOut s, hreached, ?_, hinBounds, (hexactly (by decide) (.read 1)).1⟩
  cases hopened
  decide +kernel

end Windows

end BlobUpload
