import BlobUpload.Proofs.Window.Bounds

/-! # When a window touches its source

A call that the buffer can answer does without the source. Any other one costs a single seek, to the
end of the buffer or to where the window is to go, and nothing but reads follow. Over a closed
source these calls fail, and only these. Main statement: `touches_of_reached`. -/

namespace BlobUpload

namespace Source

/-- The source after reads of these sizes, whatever they bring. -/
def readEach (sizes : List Nat) (s : Source) : Source := sizes.foldl (fun s n => (s.read n).2) s

theorem seeks_readEach (sizes : List Nat) (s : Source) : (s.readEach sizes).seeks = s.seeks := by
  induction sizes generalizing s with
  | nil => rfl
  | cons n sizes ih =>
      have hsame : (s.read n).2.seeks = s.seeks := by
        rcases read_cases n s with ⟨e, -, hadv⟩ | ⟨k, -, -, hadv⟩ <;> exact hadv.seeks
      exact (ih (s.read n).2).trans hsame

theorem seeks_seek (aim : SeekTo) (s : Source) : (s.seek aim).2.seeks = s.seeks + 1 := by
  unfold seek
  split
  · rfl
  · split <;> rfl

/-- All that reading up to a limit does to a source are reads. -/
theorem readUpTo_eq_readEach (n : Nat) (s : Source) :
    ∃ sizes, (readUpTo n s).2 = s.readEach sizes := by
  fun_induction readUpTo n s with
  | case1 s => exact ⟨[], rfl⟩
  | case2 n s hwanting failure hverdict => exact ⟨[n], rfl⟩
  | case3 n s hwanting bytes hverdict _ fill t heq ih =>
      obtain ⟨sizes, hlater⟩ := ih
      rw [heq] at hlater
      exact ⟨n :: sizes, hlater⟩

theorem data_lengthFrom (start : Nat) (s : Source) : (s.lengthFrom start).2.data = s.data := by
  have hback := s.data_seek (.fromEnd 0)
  unfold lengthFrom
  split
  · rename_i e t hsought
    rw [hsought] at hback
    exact hback
  · rename_i stop t hsought
    rw [hsought] at hback
    have hthere := t.data_seek (.start start)
    split <;> simp_all

end Source

/-- The answer of a call that fails. -/
def WindowCall.failure (e : SourceError) : WindowCall → WindowAnswer
  | .read _ => .bytes (.error e)
  | .seek _ => .position (.error e)

namespace Window

/-- Where a call leads, as an offset of the region: a read to the end of the buffer, a seek to its
target or to the end of the region. There is nothing before the region. -/
def destination? (w : Window) : WindowCall → Option Nat
  | .read _ => some w.bufferStop
  | .seek aim =>
    match aim.target w.position w.length with
    | .negSucc _ => none
    | .ofNat target => some (min target w.length)

/-- The buffer is all that the call needs. -/
def Suffices (w : Window) : WindowCall → Prop
  | .read n => w.Buffers n
  | .seek aim => ∃ target ∈ w.destination? (.seek aim),
      w.bufferStart ≤ target ∧ target < w.bufferStop

instance (w : Window) : (op : WindowCall) → Decidable (w.Suffices op)
  | .read n => inferInstanceAs (Decidable (w.Buffers n))
  | .seek aim => inferInstanceAs (Decidable (∃ target ∈ w.destination? (.seek aim), _))

/-- What a call has to do with the source. -/
structure Touches (data : Bytes) (w : Window) (c : CommonSource) (op : WindowCall) : Prop where
  spared : w.Suffices op → (w.call op c).2.2 = c ∧ ∀ e, (w.call op c).1 ≠ op.failure e
  /-- The call is answered as if the window had the bytes of the source for itself. -/
  served : w.Suffices op → w.region.stop < UInt64.size →
    (w.call op c).1 = ((w.cursor data).call op).1 ∧
    (w.call op c).2.1.cursor data = ((w.cursor data).call op).2
  refused : w.destination? op = none → w.call op c = (op.failure .beforeWindow, w, c)
  sought : ¬w.Suffices op → c.isOpen = true → ∀ target, w.destination? op = some target →
    ∃ sizes, (w.call op c).2.2 = { c with
        source := (c.source.seek (.start (Offset.add w.regionStart target))).2.readEach sizes } ∧
      (w.call op c).2.2.source.seeks = c.source.seeks + 1 ∧
      ∀ aim, op = .seek aim → sizes = []
  failed : ¬w.Suffices op → c.isOpen = false → w.destination? op ≠ none →
    (w.call op c).1 = op.failure .sourceClosed ∧
    (w.call op c).2.1.cursor data = w.cursor data ∧ (w.call op c).2.2 = c

variable {data : Bytes} {n : Nat} {w : Window} {c : CommonSource}

/-! ## Reads -/

theorem extend_of_open (h : c.isOpen = true) (want : Nat) (w : Window) :
    ∃ sizes, (w.extend want c).2.2 = { c with
      source := (c.source.seek (.start (Offset.add w.regionStart w.bufferStop))).2.readEach
        sizes } := by
  rw [extend, if_pos h]
  rcases c.source.seek (.start (Offset.add w.regionStart w.bufferStop)) with ⟨e | target, source⟩
  · exact ⟨[], rfl⟩
  · obtain ⟨sizes, hread⟩ := source.readUpTo_eq_readEach (w.refillLimit want)
    exact ⟨sizes, congrArg (fun source => { c with source }) hread⟩

theorem extend_of_closed (h : c.isOpen = false) (want : Nat) (w : Window) :
    w.extend want c = (some .sourceClosed, w, c) := by
  rw [extend, if_neg (by simp [h])]

/-- A read that the buffer does not serve leaves the source where the refill does. -/
theorem common_read_of_not_buffers (h : ¬w.Buffers n) (c : CommonSource) :
    (w.read n c).2.2 = (w.refill (w.wanted n) c).2.2 := by
  rcases heq : w.refill (w.wanted n) c with ⟨_ | e, w', c'⟩
  · rw [read_of_refilled h heq]
  · rw [read_of_failed h heq]

theorem answer_of_buffers (hw : w.Reflects data) (h : w.Buffers n) :
    (w.serve (w.wanted n)).1 = (w.cursor data).due n := by
  rw [due_cursor, ← take_wanted]
  rcases h with hzero | hcovers
  · rw [hzero]
    rfl
  · exact serve_of_covers hw hcovers

theorem touches_read (hw : w.region.stop < UInt64.size → w.Reflects data)
    (hinBounds : w.InBounds) (n : Nat) (c : CommonSource) : w.Touches data c (.read n) where
  spared henough := by
    rw [call, read_of_buffers henough]
    exact ⟨rfl, fun e => by simp [WindowCall.failure]⟩
  served henough hregion := by
    have hserved := answer_of_buffers (hw hregion) henough
    rw [call, read_of_buffers henough, Cursor.call, ← hserved]
    exact ⟨rfl, rfl⟩
  refused hnowhere := by cases hnowhere
  sought hmissing hisOpen target hthere := by
    obtain rfl : w.bufferStop = target := Option.some.inj hthere
    -- The refill drops bytes at the front only, so the buffer ends where it did.
    have hstop := hinBounds.bufferStop_rebase
    obtain ⟨sizes, hafter⟩ := extend_of_open hisOpen (w.wanted n) w.rebase
    rw [hstop] at hafter
    have hcommon : (w.call (.read n) c).2.2 = _ :=
      (common_read_of_not_buffers hmissing c).trans hafter
    refine ⟨sizes, hcommon, ?_, fun _ hsame => by cases hsame⟩
    rw [hcommon]
    exact (Source.seeks_readEach sizes _).trans (Source.seeks_seek _ _)
  failed hmissing hclosed _ := by
    have hfailing : w.refill (w.wanted n) c = (some .sourceClosed, w.rebase, c) :=
      extend_of_closed hclosed (w.wanted n) w.rebase
    rw [call, read_of_failed hmissing hfailing]
    exact ⟨rfl, rfl, rfl⟩

/-! ## Seeks -/

section

variable {aim : SeekTo} {target : Nat} (hgoal : aim.target w.position w.length = .ofNat target)

include hgoal

theorem destination?_eq : w.destination? (.seek aim) = some (min target w.length) := by
  rw [destination?, hgoal]

theorem suffices_iff : w.Suffices (.seek aim) ↔
    (decide (w.bufferStart ≤ min target w.length) && decide (min target w.length < w.bufferStop)) =
      true := by
  simp [Suffices, destination?_eq hgoal]

theorem seek_of_suffices (h : w.Suffices (.seek aim)) (c : CommonSource) :
    w.seek aim c = (.ok (min target w.length), { w with position := min target w.length }, c) := by
  rw [seek, hgoal]
  exact if_pos ((suffices_iff hgoal).1 h)

theorem common_seek_of_open (h : ¬w.Suffices (.seek aim)) (hisOpen : c.isOpen = true) :
    (w.seek aim c).2.2 = { c with
      source := (c.source.seek (.start (Offset.add w.regionStart (min target w.length)))).2 } := by
  rw [seek, hgoal]
  simp only [if_neg ((suffices_iff hgoal).not.1 h), if_pos hisOpen]
  rcases c.source.seek (.start (Offset.add w.regionStart (min target w.length))) with
    ⟨e | _, source⟩ <;> rfl

theorem seek_of_closed (h : ¬w.Suffices (.seek aim)) (hclosed : c.isOpen = false) :
    w.seek aim c = (.error .sourceClosed, w, c) := by
  rw [seek, hgoal]
  simp only [if_neg ((suffices_iff hgoal).not.1 h), hclosed, Bool.false_eq_true, if_false]

end

/-- A seek to before the region is refused before anything else is looked at. -/
theorem touches_of_negative {aim : SeekTo} {k : Nat}
    (hgoal : aim.target w.position w.length = .negSucc k) (data : Bytes) (c : CommonSource) :
    w.Touches data c (.seek aim) := by
  have hnowhere : w.destination? (.seek aim) = none := by rw [destination?, hgoal]
  have hmissing : ¬w.Suffices (.seek aim) := by
    rintro ⟨target, hthere, -⟩
    cases hnowhere.symm.trans hthere
  refine ⟨fun henough => absurd henough hmissing, fun henough => absurd henough hmissing, ?refused,
    ?sought, fun _ _ hsomewhere => absurd hnowhere hsomewhere⟩
  case refused =>
    intro _
    exact call_of_negative (hgoal ▸ Int.negSucc_lt_zero k)
  case sought =>
    intro _ _ target hthere
    cases hnowhere.symm.trans hthere

theorem touches_seek (data : Bytes) (w : Window) (c : CommonSource) (aim : SeekTo) :
    w.Touches data c (.seek aim) := by
  cases hgoal : aim.target w.position w.length with
  | negSucc k => exact touches_of_negative hgoal data c
  | ofNat target =>
      have hthere := destination?_eq hgoal
      refine ⟨fun henough => ?spared, fun henough _ => ?served, fun hnowhere => ?refused,
        fun hmissing hisOpen => ?sought, fun hmissing hclosed _ => ?failed⟩
      case spared =>
        rw [call, seek_of_suffices hgoal henough]
        exact ⟨rfl, fun e => by simp [WindowCall.failure]⟩
      case served =>
        have hmoved : (w.cursor data).call (.seek aim) = (.position (.ok (min target w.length)),
            (w.cursor data).moveTo target) := by
          rw [Cursor.call]
          rw [show aim.target (w.cursor data).position (w.cursor data).length = _ from hgoal]
          rfl
        rw [call, seek_of_suffices hgoal henough, hmoved]
        exact ⟨rfl, rfl⟩
      case refused => cases hthere.symm.trans hnowhere
      case sought =>
        intro target' hthere'
        obtain rfl := Option.some.inj (hthere.symm.trans hthere')
        have hcommon : (w.call (.seek aim) c).2.2 = _ := common_seek_of_open hgoal hmissing hisOpen
        refine ⟨[], hcommon, ?_, fun _ _ => rfl⟩
        rw [hcommon]
        exact Source.seeks_seek _ _
      case failed =>
        rw [call, seek_of_closed hgoal hmissing hclosed]
        exact ⟨rfl, rfl, rfl⟩

end Window

namespace Windows

variable {ι : Type} [DecidableEq ι] {source : Source} {regions : ι → Region} {s : Windows ι}

theorem region_call (i j : ι) (op : WindowCall) (s : Windows ι) :
    ((s.call j op).2.window i).region = (s.window i).region := by
  rcases eq_or_ne j i with rfl | hne
  · rw [window_call_self, Window.region_call]
  · rw [window_call_of_ne hne]

/-- Whatever happens to windows over a source, the buffer of one whose region ends within 64 bits
holds bytes of the source. -/
theorem Reached.sound (h : Reached source regions s) {i : ι}
    (hregion : (s.window i).region.stop < UInt64.size) : s.Sound source.data i := by
  induction h with
  | opened h => exact .of_opened h hregion
  | @called s _ j op ih => exact (ih (region_call i j op s ▸ hregion)).call j op
  | measured _ ih =>
      obtain ⟨hsame, hreflects, hposition, hregion'⟩ := ih hregion
      exact ⟨(Source.data_lengthFrom _ _).trans hsame, hreflects, hposition, hregion'⟩
  | closed _ ih =>
      obtain ⟨hsame, hreflects, hposition, hregion'⟩ := ih hregion
      exact ⟨hsame, hreflects, hposition, hregion'⟩

/-- Whatever calls were made before, a call to a window needs the source only if the buffer does not
suffice, and then for one seek and for reads after it. So over a closed source a call that the
buffer suffices for succeeds, with the right bytes if the region ends within 64 bits, and any other
one fails where the window stands. -/
theorem touches_of_reached (h : Reached source regions s) (i : ι) (op : WindowCall) :
    (s.window i).Touches source.data s.common op := by
  cases op with
  | read n =>
      exact Window.touches_read (fun hregion => (h.sound hregion).reflects) (h.inBounds i) n
        s.common
  | seek aim => exact Window.touches_seek source.data (s.window i) s.common aim

/-- A read of two bytes has failed half way, with three bytes in the buffer. These are at hand, also
when the source is closed, but nothing behind them is. -/
theorem worn_touches :
    ∃ s : Windows Unit, Reached worn (fun _ => ⟨0, 6, 4⟩) s ∧ (s.window ()).buffered = ⟨0, 3⟩ ∧
      (s.close.call () (.read 3)).1 = .bytes (.ok [1, 2, 3]) ∧
      (s.call () (.read 4)).2.common.source.seeks = s.common.source.seeks + 1 ∧
      (s.close.call () (.seek (.start 3))).1 = .position (.error .sourceClosed) := by
  obtain ⟨s, hopened⟩ : ∃ s, opened worn (fun _ : Unit => ⟨0, 6, 4⟩) = .ok s := ⟨_, rfl⟩
  have hreached : Reached worn (fun _ => ⟨0, 6, 4⟩) (s.call () (.read 2)).2 :=
    .called (.opened hopened) () (.read 2)
  have hserved := touches_of_reached hreached.closed () (.read 3)
  have hsought := touches_of_reached hreached () (.read 4)
  have hfailed := touches_of_reached hreached.closed () (.seek (.start 3))
  refine ⟨_, hreached, ?_, ?_, ?_, ?_⟩ <;> cases hopened
  · decide +kernel
  · refine (hserved.served (by decide +kernel) (by decide +kernel)).1.trans ?_
    exact congrArg (WindowAnswer.bytes ∘ .ok) (by decide +kernel)
  · obtain ⟨sizes, -, hseeks, -⟩ := hsought.sought (by decide +kernel) (by decide +kernel) _ rfl
    exact hseeks
  · exact (hfailed.failed (by decide +kernel) rfl nofun).1

end Windows

end BlobUpload
