import BlobUpload.Proofs.Window.Confinement
import BlobUpload.Proofs.Window.View
import Mathlib.Logic.Function.Basic

/-! # Windows are cursors

A cursor is what a window ought to be: a region of a byte string and a position in it, with neither
a buffer nor a shared source. Over a well-behaved source every window answers like a cursor of its
own, however the calls to the windows are interleaved. Over any other source a call may fail, and a
read may hand out less, but no more than that.
-/

namespace BlobUpload

/-- A region of a byte string, and a position in it. -/
structure Cursor where
  data : Bytes
  start : Nat
  length : Nat
  position : Nat := 0
  deriving DecidableEq, Repr

/-- A call to a window. -/
inductive WindowCall where
  | read (n : Nat)
  | seek (aim : SeekTo)
  deriving DecidableEq, Repr

/-- What a call to a window answers. -/
inductive WindowAnswer where
  | bytes (answer : Except SourceError Bytes)
  | position (answer : Except SourceError Nat)

namespace Cursor

def region (k : Cursor) : Span := ⟨k.start, k.start + k.length⟩

/-- The bytes that a read of `n` bytes is due. -/
def due (n : Nat) (k : Cursor) : Bytes :=
  (k.data.drop (k.start + k.position)).take (min n (k.length - k.position))

/-- The cursor after `n` bytes. -/
def advance (n : Nat) (k : Cursor) : Cursor := { k with position := k.position + n }

/-- The cursor at `target`, or at the end of its region if that comes first. -/
def moveTo (target : Nat) (k : Cursor) : Cursor := { k with position := min target k.length }

/-- What a call answers, and where it leaves the cursor. -/
def call : WindowCall → Cursor → WindowAnswer × Cursor
  | .read n, k => (.bytes (.ok (k.due n)), k.advance (k.due n).length)
  | .seek aim, k =>
    match aim.target k.position k.length with
    | .negSucc _ => (.position (.error .beforeWindow), k)
    | .ofNat target => (.position (.ok (min target k.length)), k.moveTo target)

/-- Calls one after the other. -/
def run : List WindowCall → Cursor → List WindowAnswer × Cursor
  | [], k => ([], k)
  | call :: calls, k =>
    let rest := (k.call call).2.run calls
    ((k.call call).1 :: rest.1, rest.2)

/-- What a call may answer over a source that may fail or hand out less than there is, and where
it leaves the cursor then. -/
inductive Permits (k : Cursor) : WindowCall → WindowAnswer → Cursor → Prop where
  | read {n : Nat} {bytes : Bytes} (hfront : bytes <+: k.due n) :
      Permits k (.read n) (.bytes (.ok bytes)) (k.advance bytes.length)
  | readFailed {n : Nat} (e : SourceError) : Permits k (.read n) (.bytes (.error e)) k
  | seek {aim : SeekTo} {target : Nat} (h : aim.target k.position k.length = .ofNat target) :
      Permits k (.seek aim) (.position (.ok (min target k.length))) (k.moveTo target)
  | seekFailed {aim : SeekTo} (e : SourceError)
      (h : aim.target k.position k.length < 0 → e = .beforeWindow) :
      Permits k (.seek aim) (.position (.error e)) k

/-- The answers are permitted, one after the other. -/
inductive PermitsAll : Cursor → List WindowCall → List WindowAnswer → Cursor → Prop where
  | nil {k : Cursor} : PermitsAll k [] [] k
  | cons {k k' k'' : Cursor} {call : WindowCall} {calls : List WindowCall}
      {answer : WindowAnswer} {answers : List WindowAnswer} (hfirst : k.Permits call answer k')
      (hrest : PermitsAll k' calls answers k'') :
      PermitsAll k (call :: calls) (answer :: answers) k''

end Cursor

theorem Cursor.Permits.region_eq {k k' : Cursor} {call : WindowCall} {answer : WindowAnswer}
    (h : k.Permits call answer k') : k'.region = k.region := by
  cases h <;> rfl

theorem Cursor.Permits.position_le {k k' : Cursor} {call : WindowCall} {answer : WindowAnswer}
    (h : k.Permits call answer k') (hle : k.position ≤ k.length) : k'.position ≤ k'.length := by
  cases h with
  | read hfront =>
      have hdue := hfront.length_le
      rw [due, List.length_take] at hdue
      simp only [advance]
      omega
  | readFailed e => exact hle
  | seek h => exact Nat.min_le_right _ _
  | seekFailed e h => exact hle

theorem Cursor.PermitsAll.region_eq {k k' : Cursor} {calls : List WindowCall}
    {answers : List WindowAnswer} (h : k.PermitsAll calls answers k') : k'.region = k.region := by
  induction h with
  | nil => rfl
  | cons hfirst hrest ih => rw [ih, hfirst.region_eq]

/-! ## One window -/

namespace Window

/-- What is left of a window without its buffer. -/
def cursor (data : Bytes) (w : Window) : Cursor := ⟨data, w.regionStart, w.length, w.position⟩

theorem due_cursor (data : Bytes) (w : Window) (n : Nat) :
    (w.cursor data).due n = ((w.view data).drop w.position).take n := by
  rw [view, List.drop_take, List.drop_drop, List.take_take]
  rfl

/-- Makes a call, the source at hand. -/
def call : WindowCall → Window → CommonSource → WindowAnswer × Window × CommonSource
  | .read n, w, c => ((.bytes (w.read n c).1), (w.read n c).2)
  | .seek aim, w, c => ((.position (w.seek aim c).1), (w.seek aim c).2)

theorem echo_call {R : Source → Source → Prop} {w : Window} {c : CommonSource} {source : Source}
    (h : Source.Lockstep w.region R) (hregion : w.region.stop ≤ UInt64.size)
    (hrelated : R c.source source) (op : WindowCall) :
    Echo R (w.call op c) (w.call op { c with source }) := by
  cases op with
  | read n =>
      obtain ⟨hanswer, hwindow, hcommon, hrelated'⟩ := echo_read h hregion hrelated n
      exact ⟨congrArg WindowAnswer.bytes hanswer, hwindow, hcommon, hrelated'⟩
  | seek aim =>
      obtain ⟨hanswer, hwindow, hcommon, hrelated'⟩ := echo_seek h hrelated aim
      exact ⟨congrArg WindowAnswer.position hanswer, hwindow, hcommon, hrelated'⟩

variable {data : Bytes} {w : Window} {c : CommonSource}

theorem keeps_call {P : Source → Prop} (hkept : Source.Kept P) (hP : P c.source)
    (op : WindowCall) (w : Window) : P (w.call op c).2.2.source := by
  cases op with
  | read n => exact keeps_read hkept hP n w
  | seek aim => exact keeps_seek hkept hP aim w

theorem isOpen_call (op : WindowCall) (w : Window) (c : CommonSource) :
    (w.call op c).2.2.isOpen = c.isOpen := by
  cases op with
  | read n => exact isOpen_read n w c
  | seek aim => exact isOpen_seek aim w c

/-! ### Over any source -/

/-- Reading on leaves everything but the buffer as it is, and the buffer a part of the region. -/
theorem extend_any (hd : c.source.data = data) (hw : w.Reflects data)
    (hstop : w.regionStart + w.bufferStop < UInt64.size) (want : Nat) :
    ∃ buffer, (w.extend want c).2.1 = { w with buffer } ∧
      ({ w with buffer } : Window).Reflects data := by
  unfold extend
  split
  · split
    · exact ⟨w.buffer, rfl, hw⟩
    · rename_i target source hsought
      obtain ⟨htarget, rfl⟩ := Source.seek_of_ok hsought
      obtain rfl : Offset.add w.regionStart w.bufferStop = target := Int.ofNat.inj htarget
      obtain ⟨hfront, hadv⟩ := Source.readUpTo_advances (w.refillLimit want)
        (c.source.sought (Offset.add w.regionStart w.bufferStop))
      have hrest : (c.source.sought (Offset.add w.regionStart w.bufferStop)).rest =
          data.drop (Offset.add w.regionStart w.bufferStop) := congrArg (List.drop _) hd
      rw [hrest, take_refillLimit data hstop] at hfront
      refine ⟨_, rfl, ?_⟩
      -- The bytes that came follow the buffer in the region.
      obtain ⟨tail, hwhole⟩ := hw
      rw [← hwhole, List.drop_left] at hfront
      change w.buffer ++ _ <+: (w.view data).drop w.bufferStart
      rw [← hwhole]
      exact (List.prefix_append_right_inj w.buffer).2 (hfront.trans (List.take_prefix _ tail))
  · exact ⟨w.buffer, rfl, hw⟩

theorem serve_front (hw : w.Reflects data) (hstart : w.bufferStart = w.position) (want : Nat) :
    (w.serve want).1 <+: ((w.view data).drop w.position).take want := by
  rw [serve, hstart, Nat.sub_self, List.drop_zero, ← hstart]
  obtain ⟨tail, hwhole⟩ := hw
  rw [← hwhole, List.take_append]
  exact List.prefix_append _ _

theorem permits_read (hd : c.source.data = data) (hw : w.Reflects data)
    (haddr : w.Addressable data) (n : Nat) :
    (w.cursor data).Permits (.read n) (.bytes (w.read n c).1) ((w.read n c).2.1.cursor data) ∧
      (w.read n c).2.1.Reflects data := by
  have hdue : (w.cursor data).due n = ((w.view data).drop w.position).take (w.wanted n) :=
    (due_cursor data w n).trans (take_wanted data w n).symm
  unfold read
  simp only
  split
  · exact ⟨.read List.nil_prefix, hw⟩
  split
  · rename_i hcovers
    refine ⟨.read ?_, hw⟩
    rewrite [serve_of_covers hw hcovers, hdue]
    exact List.prefix_rfl
  · have hrebased : w.rebase.Addressable data := haddr
    have hw' := reflects_rebase hw
    obtain ⟨buffer, hwindow, hreflects⟩ :=
      extend_any hd hw' (hrebased.bufferStop_lt hw' rfl) (w.wanted n)
    unfold refill
    cases heq : w.rebase.extend (w.wanted n) c with
    | mk failure rest =>
      obtain ⟨w', c'⟩ := rest
      rw [heq] at hwindow
      obtain rfl : w' = { w.rebase with buffer } := hwindow
      cases failure with
      | some e => exact ⟨.readFailed e, hreflects⟩
      | none =>
          refine ⟨.read ?_, hreflects⟩
          rw [hdue]
          exact serve_front hreflects rfl (w.wanted n)

theorem permits_seek (hw : w.Reflects data) (aim : SeekTo) :
    (w.cursor data).Permits (.seek aim) (.position (w.seek aim c).1)
        ((w.seek aim c).2.1.cursor data) ∧ (w.seek aim c).2.1.Reflects data := by
  unfold seek
  cases hgoal : aim.target w.position w.length with
  | negSucc k => exact ⟨.seekFailed _ fun _ => rfl, hw⟩
  | ofNat target =>
      have hreached : (w.cursor data).Permits (.seek aim) (.position (.ok (min target w.length)))
          ((w.cursor data).moveTo target) := .seek hgoal
      have hmissed (e : SourceError) :
          (w.cursor data).Permits (.seek aim) (.position (.error e)) (w.cursor data) := by
        refine .seekFailed e fun hnegative => ?_
        rw [show aim.target (w.cursor data).position (w.cursor data).length = _ from hgoal]
          at hnegative
        exact absurd hnegative (by simp)
      simp only
      split
      · exact ⟨hreached, hw⟩
      split
      · split
        · exact ⟨hmissed _, hw⟩
        · exact ⟨hreached, List.nil_prefix⟩
      · exact ⟨hmissed _, hw⟩

/-- A call to a window goes as a cursor permits, whatever the source does. -/
theorem permits_call (hd : c.source.data = data) (hw : w.Reflects data)
    (haddr : w.Addressable data) (op : WindowCall) :
    (w.cursor data).Permits op (w.call op c).1 ((w.call op c).2.1.cursor data) ∧
      (w.call op c).2.1.Reflects data := by
  cases op with
  | read n => exact permits_read hd hw haddr n
  | seek aim => exact permits_seek hw aim

/-- A seek to before the region changes nothing. -/
theorem call_of_negative {aim : SeekTo} (h : aim.target w.position w.length < 0) :
    w.call (.seek aim) c = (.position (.error .beforeWindow), w, c) := by
  cases hgoal : aim.target w.position w.length with
  | negSucc k => rw [call, seek, hgoal]
  | ofNat target => exact absurd h (by rw [hgoal]; simp)

/-! ### Over a well-behaved source -/

/-- Whatever window a call goes to, the source serves the other ones on. -/
theorem serves_call (hc : c.Serves data) (op : WindowCall) (w : Window) :
    (w.call op c).2.2.Serves data where
  isOpen := (isOpen_call op w c).trans hc.isOpen
  data := keeps_call (Source.kept_data data) hc.data op w
  wellBehaved := keeps_call Source.kept_wellBehaved hc.wellBehaved op w

theorem seek_of_serves (hc : c.Serves data) (aim : SeekTo) :
    (WindowAnswer.position (w.seek aim c).1) = ((w.cursor data).call (.seek aim)).1 := by
  rw [Cursor.call, seek]
  change (WindowAnswer.position _) = (Prod.fst (match aim.target w.position w.length with
    | .negSucc _ => _ | .ofNat _ => _))
  cases aim.target w.position w.length with
  | negSucc k => rfl
  | ofNat target =>
      simp only
      split
      · rfl
      · rw [if_pos hc.isOpen, Source.seek_start_of_seeks hc.wellBehaved.seeks]
        rfl

/-- A call to a window over a well-behaved source answers as a call to a cursor does. -/
theorem answer_of_serves (hc : c.Serves data) (hw : w.Reflects data) (haddr : w.Addressable data)
    (op : WindowCall) : (w.call op c).1 = ((w.cursor data).call op).1 := by
  cases op with
  | seek aim => exact seek_of_serves hc aim
  | read n =>
      obtain ⟨w', source, hanswer, -⟩ := read_of_serves hc hw haddr n
      rw [call, hanswer, Cursor.call, due_cursor]

end Window

/-- Where a cursor answers as it does by itself, it moves as it does by itself. -/
theorem Cursor.eq_of_permits {k k' : Cursor} {op : WindowCall}
    (h : k.Permits op (k.call op).1 k') : k' = (k.call op).2 := by
  cases op with
  | read n =>
      cases h with
      | read hfront => rfl
  | seek aim =>
      rw [Cursor.call] at h ⊢
      cases hgoal : aim.target k.position k.length with
      | negSucc target =>
          simp only [hgoal] at h
          cases h with
          | seekFailed => rfl
      | ofNat target =>
          simp only [hgoal] at h
          generalize hgiven : WindowAnswer.position (.ok (min target k.length)) = answer at h
          cases h with
          | seek hreached =>
              rw [hgoal] at hreached
              rw [Int.ofNat.inj hreached]
          | seekFailed => cases hgiven

/-! ## Windows over one source -/

/-- A part of a source, counted from where the source stands, and how much of it to read ahead. -/
structure Region where
  offset : Nat
  length : Nat
  capacity : Nat

/-- The cursor over a region of a source, alone on its own copy of the data. -/
def Region.cursor (source : Source) (r : Region) : Cursor where
  data := source.data
  start := source.position + r.offset
  length := r.length

/-- Windows over one common source, told apart by names. -/
structure Windows (ι : Type) where
  common : CommonSource
  window : ι → Window

namespace Windows

variable {ι : Type}

/-- Windows over the regions of a source. -/
def opened (source : Source) (regions : ι → Region) : Except SourceError (Windows ι) :=
  match CommonSource.ofSource source with
  | (.error e, _) => .error e
  | (.ok common, _) => .ok
    { common
      window i := common.window (regions i).offset (regions i).length (regions i).capacity }

/-- The buffer of the window `i` holds bytes of the region, which ends within 64 bits. -/
structure Sound (data : Bytes) (s : Windows ι) (i : ι) : Prop where
  source : s.common.source.data = data
  reflects : (s.window i).Reflects data
  position_le : (s.window i).position ≤ (s.window i).length
  region : (s.window i).region.stop < UInt64.size

variable {data : Bytes} {s : Windows ι} {i : ι}

theorem Sound.addressable (h : s.Sound data i) : (s.window i).Addressable data :=
  Window.addressable_of_region h.region h.position_le data

section

variable {source : Source} {regions : ι → Region}

theorem common_of_opened (h : opened source regions = .ok s) : s.common = source.shared := by
  rw [opened] at h
  rcases hshared : CommonSource.ofSource source with ⟨e | common, source'⟩
  · rw [hshared] at h
    cases h
  · rw [hshared] at h
    cases h
    exact CommonSource.of_ofSource hshared

theorem window_of_opened (h : opened source regions = .ok s) (i : ι) :
    s.window i = s.common.window (regions i).offset (regions i).length (regions i).capacity := by
  rw [opened] at h
  rcases hshared : CommonSource.ofSource source with ⟨e | common, source'⟩
  · rw [hshared] at h
    cases h
  · rw [hshared] at h
    cases h
    rfl

/-- A region that ends within 64 bits is where a new window stands. -/
theorem cursor_of_opened (h : opened source regions = .ok s)
    (hregion : ((regions i).cursor source).region.stop < UInt64.size) :
    (s.window i).cursor source.data = (regions i).cursor source := by
  have hregion : source.position + (regions i).offset + (regions i).length < UInt64.size := hregion
  have hstart : Offset.add s.common.origin (regions i).offset =
      source.position + (regions i).offset := by
    rw [common_of_opened h]
    exact Offset.add_of_lt (Nat.lt_of_le_of_lt (Nat.le_add_right _ _) hregion)
  rw [window_of_opened h, Window.cursor, Region.cursor, ← hstart]
  rfl

theorem region_of_opened (h : opened source regions = .ok s)
    (hregion : ((regions i).cursor source).region.stop < UInt64.size) :
    (s.window i).region = ((regions i).cursor source).region :=
  congrArg Cursor.region (cursor_of_opened h hregion)

theorem Sound.of_opened (h : opened source regions = .ok s)
    (hregion : (s.window i).region.stop < UInt64.size) : s.Sound source.data i where
  source := congrArg (fun c => c.source.data) (common_of_opened h)
  reflects := window_of_opened h i ▸ Window.reflects_window ..
  position_le := window_of_opened h i ▸ Nat.zero_le _
  region := hregion

end

theorem opened_of_wellBehaved {source : Source} (h : source.WellBehaved) (regions : ι → Region) :
    ∃ s, opened source regions = .ok s := by
  rw [opened, CommonSource.ofSource_of_seeks h.seeks]
  exact ⟨_, rfl⟩

/-! ## Calls to the windows -/

variable [DecidableEq ι]

/-- One call to one window. -/
def call (i : ι) (op : WindowCall) (s : Windows ι) : WindowAnswer × Windows ι :=
  let result := (s.window i).call op s.common
  (result.1, { common := result.2.2, window := Function.update s.window i result.2.1 })

/-- Calls to any of the windows, one after the other, and what they answer. -/
def run : List (ι × WindowCall) → Windows ι → List (ι × WindowAnswer) × Windows ι
  | [], s => ([], s)
  | (i, op) :: calls, s =>
    let rest := (s.call i op).2.run calls
    ((i, (s.call i op).1) :: rest.1, rest.2)

/-- Those of the calls or answers that are one window's. -/
def only {α : Type} (i : ι) (entries : List (ι × α)) : List α :=
  entries.filterMap fun entry => if entry.1 = i then some entry.2 else none

theorem only_cons_self {α : Type} (i : ι) (a : α) (entries : List (ι × α)) :
    only i ((i, a) :: entries) = a :: only i entries := by simp [only]

theorem only_cons_of_ne {α : Type} {i j : ι} (h : j ≠ i) (a : α) (entries : List (ι × α)) :
    only i ((j, a) :: entries) = only i entries := by simp [only, h]

/-- The windows, with other data behind them. -/
def withData (data : Bytes) (s : Windows ι) : Windows ι :=
  { s with common := { s.common with source := s.common.source.withData data } }

theorem window_call_self (i : ι) (op : WindowCall) (s : Windows ι) :
    (s.call i op).2.window i = ((s.window i).call op s.common).2.1 := Function.update_self ..

theorem window_call_of_ne {i j : ι} (h : j ≠ i) (op : WindowCall) (s : Windows ι) :
    (s.call j op).2.window i = s.window i := Function.update_of_ne h.symm ..

/-- A window stays sound, whichever window a call goes to. -/
theorem Sound.call (h : s.Sound data i) (j : ι) (op : WindowCall) :
    (s.call j op).2.Sound data i := by
  have hsource : (s.call j op).2.common.source.data = data :=
    Window.keeps_call (Source.kept_data data) h.source op (s.window j)
  rcases eq_or_ne j i with rfl | hne
  · obtain ⟨hpermitted, hreflects⟩ := Window.permits_call h.source h.reflects h.addressable op
    have hregion := congrArg Span.stop hpermitted.region_eq
    have hposition := hpermitted.position_le h.position_le
    refine ⟨hsource, ?_, ?_, ?_⟩ <;> rw [window_call_self]
    · exact hreflects
    · exact hposition
    · exact Nat.lt_of_le_of_lt (Nat.le_of_eq hregion) h.region
  · refine ⟨hsource, ?_, ?_, ?_⟩ <;> rw [window_call_of_ne hne]
    · exact h.reflects
    · exact h.position_le
    · exact h.region

/-- Whatever the source does, a window only does what its cursor permits. -/
theorem permits_run (h : s.Sound data i) (calls : List (ι × WindowCall)) :
    ((s.window i).cursor data).PermitsAll (only i calls) (only i (s.run calls).1)
      (((s.run calls).2.window i).cursor data) := by
  induction calls generalizing s with
  | nil => exact .nil
  | cons entry calls ih =>
      obtain ⟨j, op⟩ := entry
      have hrest := ih (h.call j op)
      rcases eq_or_ne j i with rfl | hother
      · rw [window_call_self] at hrest
        rw [run, only_cons_self, only_cons_self]
        exact .cons (Window.permits_call h.source h.reflects h.addressable op).1 hrest
      · rw [window_call_of_ne hother] at hrest
        rw [run, only_cons_of_ne hother, only_cons_of_ne hother]
        exact hrest

/-- Over a well-behaved source a window does what its cursor does. -/
theorem run_of_serves (hs : s.Sound data i) (hc : s.common.Serves data)
    (calls : List (ι × WindowCall)) :
    (only i (s.run calls).1, ((s.run calls).2.window i).cursor data) =
      ((s.window i).cursor data).run (only i calls) := by
  induction calls generalizing s with
  | nil => rfl
  | cons entry calls ih =>
      obtain ⟨j, op⟩ := entry
      have hrest := ih (hs.call j op) (Window.serves_call hc op (s.window j))
      rcases eq_or_ne j i with rfl | hother
      · have hanswer := Window.answer_of_serves hc hs.reflects hs.addressable op
        have hpermitted := (Window.permits_call hs.source hs.reflects hs.addressable op).1
        rw [hanswer] at hpermitted
        rw [window_call_self, Cursor.eq_of_permits hpermitted, Prod.mk.injEq] at hrest
        rw [run, only_cons_self, only_cons_self, Cursor.run, ← hrest.1, ← hrest.2, ← hanswer]
        rfl
      · rw [window_call_of_ne hother] at hrest
        rw [run, only_cons_of_ne hother, only_cons_of_ne hother]
        exact hrest

/-! ## Keeping to the region -/

/-- A call to the window `i` keeps to the region: it asks the source for bytes of the region only,
no byte outside of it makes a difference, and a seek to before the region changes nothing. -/
structure Confined (region : Span) (s : Windows ι) (i : ι) : Prop where
  visits : ∀ op, s.common.source.Visits region (s.call i op).2.common.source
  blind : ∀ op (data : Bytes), data.slice region = s.common.source.data.slice region →
    (s.withData data).call i op = ((s.call i op).1, (s.call i op).2.withData data)
  refused : ∀ aim : SeekTo, aim.target (s.window i).position (s.window i).length < 0 →
    s.call i (.seek aim) = (.position (.error .beforeWindow), s)

theorem Confined.of_region {s : Windows ι} {i : ι} {region : Span}
    (h : (s.window i).region = region) (hstop : region.stop ≤ UInt64.size) :
    Confined region s i := by
  subst h
  refine ⟨fun op => ?_, fun op data hsame => ?_, fun aim hnegative => ?_⟩
  · have hvisits := Source.lockstep_visits (s.window i).region s.common.source
    have hecho : Echo _ ((s.window i).call op s.common) ((s.window i).call op s.common) :=
      Window.echo_call hvisits hstop ⟨rfl, .here⟩ op
    exact hecho.related.2
  · have hblind := Source.lockstep_withData (s.window i).region data
    have hecho : Echo _ ((s.window i).call op s.common)
        ((s.window i).call op { s.common with source := s.common.source.withData data }) :=
      Window.echo_call hblind hstop ⟨rfl, hsame⟩ op
    have hcommon := hecho.common
    rw [hecho.related.1] at hcommon
    rw [call, call]
    change ((Window.call op (s.window i) { s.common with source := _ }).1, _) = _
    rw [hecho.answer]
    refine Prod.ext rfl ?_
    change Windows.mk (Window.call op (s.window i) { s.common with source := _ }).2.2
      (Function.update s.window i
        (Window.call op (s.window i) { s.common with source := _ }).2.1) = _
    rw [hecho.window, hcommon]
    rfl
  · rw [call, Window.call_of_negative hnegative, Function.update_eq_self]

/-- Windows over one source are cursors, as long as their regions end within 64 bits. Over a
well-behaved source such a window answers every call, and stands afterwards, as a cursor does that
is alone on its own copy of the data. Over any source the answers are ones that this cursor permits.
At no time does a call leave the region. -/
theorem refine_cursors (source : Source) (regions : ι → Region) (calls : List (ι × WindowCall))
    (i : ι) (hregion : ((regions i).cursor source).region.stop < UInt64.size) :
    (source.WellBehaved → ∃ s, opened source regions = .ok s ∧
      (only i (s.run calls).1, ((s.run calls).2.window i).cursor source.data) =
        ((regions i).cursor source).run (only i calls)) ∧
    ∀ s, opened source regions = .ok s →
      ((regions i).cursor source).PermitsAll (only i calls) (only i (s.run calls).1)
        (((s.run calls).2.window i).cursor source.data) ∧
      Confined ((regions i).cursor source).region (s.run calls).2 i := by
  constructor
  · intro hwellBehaved
    obtain ⟨s, hopened⟩ := opened_of_wellBehaved hwellBehaved regions
    have hsound := Sound.of_opened hopened (region_of_opened hopened hregion ▸ hregion)
    have hserves : s.common.Serves source.data :=
      common_of_opened hopened ▸ hwellBehaved.serves_shared
    refine ⟨s, hopened, ?_⟩
    rw [run_of_serves hsound hserves, cursor_of_opened hopened hregion]
  · intro s hopened
    have hsound := Sound.of_opened hopened (region_of_opened hopened hregion ▸ hregion)
    have hpermitted := permits_run hsound calls
    rw [cursor_of_opened hopened hregion] at hpermitted
    exact ⟨hpermitted, .of_region hpermitted.region_eq (Nat.le_of_lt hregion)⟩

/-- Two windows, one of them two bytes into the other, over a source that hands out one byte first
and is interrupted then. -/
theorem refine_cursors_hesitant :
    (Source.hesitant [1, 2, 3, 4, 5, 6]).WellBehaved ∧
    ∃ s : Windows Bool, opened (Source.hesitant [1, 2, 3, 4, 5, 6])
        (fun i => if i then ⟨2, 9, 1⟩ else ⟨0, 4, 2⟩) = .ok s ∧
      only true (s.run [(true, .read 3), (false, .read 9), (true, .seek (.current (-1))),
        (false, .seek (.current (-5))), (true, .read 9)]).1 =
          [.bytes (.ok [3, 4, 5]), .position (.ok 2), .bytes (.ok [5, 6])] ∧
      only false (s.run [(true, .read 3), (false, .read 9), (true, .seek (.current (-1))),
        (false, .seek (.current (-5))), (true, .read 9)]).1 =
          [.bytes (.ok [1, 2, 3, 4]), .position (.error .beforeWindow)] ∧
      Confined ⟨2, 11⟩ (s.run [(true, .read 3), (false, .read 9)]).2 true := by
  have hwellBehaved : (Source.hesitant [1, 2, 3, 4, 5, 6]).WellBehaved :=
    Source.wellBehaved_hesitant [1, 2, 3, 4, 5, 6]
  have hrefined := refine_cursors (Source.hesitant [1, 2, 3, 4, 5, 6])
    (fun i : Bool => if i then ⟨2, 9, 1⟩ else ⟨0, 4, 2⟩)
  obtain ⟨s, hopened, hlater⟩ := (hrefined [(true, .read 3), (false, .read 9),
    (true, .seek (.current (-1))), (false, .seek (.current (-5))), (true, .read 9)] true
    (by decide)).1 hwellBehaved
  obtain ⟨s', hopened', hfirst⟩ := (hrefined [(true, .read 3), (false, .read 9),
    (true, .seek (.current (-1))), (false, .seek (.current (-5))), (true, .read 9)] false
    (by decide)).1 hwellBehaved
  cases hopened.symm.trans hopened'
  exact ⟨hwellBehaved, s, hopened, (Prod.mk.inj hlater).1, (Prod.mk.inj hfirst).1,
    ((hrefined [(true, .read 3), (false, .read 9)] true (by decide)).2 s hopened).2⟩

end Windows

end BlobUpload
