import BlobUpload.Proofs.Source.HeldBytes
import BlobUpload.Source.Window

/-! # What a window shows

A window shows the part of the data that its region covers. What it has read ahead is a part of
this, so a read that the buffer serves and a read that goes to the source hand out the same
bytes. -/

namespace BlobUpload

/-- An open source over `data` whose reads deliver and whose seeks do not fail. -/
structure CommonSource.Serves (data : Bytes) (c : CommonSource) : Prop where
  isOpen : c.isOpen = true
  data : c.source.data = data
  wellBehaved : c.source.WellBehaved

/-- A source as its readers share it, from where it stands on. -/
def Source.shared (s : Source) : CommonSource where
  source := s.sought s.position
  origin := s.position

theorem Source.WellBehaved.serves_shared {s : Source} (h : s.WellBehaved) :
    s.shared.Serves s.data := ⟨rfl, rfl, h.sought _⟩

theorem CommonSource.ofSource_of_seeks {s : Source} (hseeks : s.seekErrors = []) :
    ofSource s = (.ok s.shared, s.sought s.position) := by
  rw [ofSource, Source.tell_of_seeks hseeks]
  rfl

/-- A source is taken over where it stands. -/
theorem CommonSource.of_ofSource {s t : Source} {c : CommonSource}
    (h : ofSource s = (.ok c, t)) : c = s.shared := by
  rw [ofSource] at h
  cases htold : s.tell with
  | mk answer t =>
    rw [htold] at h
    cases answer with
    | error e => cases h
    | ok origin =>
        cases h
        obtain ⟨htarget, rfl⟩ := Source.seek_of_ok htold
        obtain rfl : s.position = origin := Int.ofNat.inj htarget
        rfl

namespace Window

/-- The bytes of a window's region, as far as there are any. -/
def view (data : Bytes) (w : Window) : Bytes := (data.drop w.regionStart).take w.length

/-- The buffer holds bytes of the region, from `bufferStart` on. -/
def Reflects (data : Bytes) (w : Window) : Prop := w.buffer <+: (w.view data).drop w.bufferStart

/-- As far as there are bytes of the region, their offsets in the source are 64 bits wide. -/
def Addressable (data : Bytes) (w : Window) : Prop :=
  w.regionStart + max w.position (w.view data).length < UInt64.size

theorem view_window (data : Bytes) (c : CommonSource) (offset length capacity : Nat) :
    (c.window offset length capacity).view data =
      (data.drop (Offset.add c.origin offset)).take length := rfl

theorem reflects_window (data : Bytes) (c : CommonSource) (offset length capacity : Nat) :
    (c.window offset length capacity).Reflects data := List.nil_prefix

/-- A window whose region ends within 64 bits never leaves them. -/
theorem addressable_of_region {w : Window} (hregion : w.region.stop < UInt64.size)
    (hposition : w.position ≤ w.length) (data : Bytes) : w.Addressable data := by
  have hregion : w.regionStart + w.length < UInt64.size := hregion
  have hview : (w.view data).length ≤ w.length := List.length_take_le w.length _
  rw [Addressable]
  omega

/-- Reading on does not leave 64 bits either. -/
theorem Addressable.advance {data : Bytes} {w w' : Window} (haddr : w.Addressable data)
    (hregion : w'.region = w.region) (hview : w'.view data = w.view data) {bytes : Bytes} {n : Nat}
    (hbytes : bytes <+: ((w.view data).drop w.position).take n)
    (hposition : w'.position = w.position + bytes.length) : w'.Addressable data := by
  have hstart : w'.regionStart = w.regionStart := congrArg Span.start hregion
  have hle := hbytes.length_le
  rw [List.length_take, List.length_drop] at hle
  rw [Addressable] at haddr ⊢
  rw [hstart, hview, hposition]
  omega

/-- The buffer of a window that has just been rebased ends within 64 bits. -/
theorem Addressable.bufferStop_lt {data : Bytes} {w : Window} (haddr : w.Addressable data)
    (hw : w.Reflects data) (hstart : w.bufferStart = w.position) :
    w.regionStart + w.bufferStop < UInt64.size := by
  have hle := hw.length_le
  rw [List.length_drop] at hle
  rw [Addressable] at haddr
  rw [bufferStop]
  omega

/-- As much of the view as a read may want is what it asks for. -/
theorem take_wanted (data : Bytes) (w : Window) (n : Nat) :
    ((w.view data).drop w.position).take (w.wanted n) = ((w.view data).drop w.position).take n := by
  rw [wanted, view, List.drop_take, List.take_take, List.take_take, Nat.min_assoc, Nat.min_self]

/-! ## Serving from the buffer -/

theorem serve_of_covers {data : Bytes} {w : Window} (h : w.Reflects data) {want : Nat}
    (hcovers : w.covers want = true) :
    (w.serve want).1 = ((w.view data).drop w.position).take want := by
  simp only [Window.covers, Bool.and_eq_true, decide_eq_true_eq] at hcovers
  simp only [bufferStop] at hcovers
  obtain ⟨tail, hwhole⟩ := h
  have hinside : w.position - w.bufferStart ≤ w.buffer.length := by omega
  have henough : want ≤ (w.buffer.drop (w.position - w.bufferStart)).length := by
    rw [List.length_drop]
    omega
  have hahead : (w.view data).drop w.position =
      w.buffer.drop (w.position - w.bufferStart) ++ tail := by
    rw [← List.drop_append_of_le_length hinside, hwhole, List.drop_drop,
      Nat.add_sub_cancel' hcovers.1]
  rw [hahead, List.take_append_of_le_length henough]
  rfl

/-! ## Refilling -/

theorem reflects_rebase {data : Bytes} {w : Window} (h : w.Reflects data) :
    w.rebase.Reflects data := by
  simp only [Reflects, rebase]
  split
  · rename_i hinside
    simp only [Bool.and_eq_true, decide_eq_true_eq] at hinside
    simp only [bufferStop] at hinside
    obtain ⟨tail, hwhole⟩ := h
    refine ⟨tail, ?_⟩
    rw [← List.drop_append_of_le_length (by omega), hwhole, List.drop_drop,
      Nat.add_sub_cancel' hinside.1]
    rfl
  · exact List.nil_prefix

/-- What a refill asks for is the part of the region that follows the buffer. -/
theorem take_refillLimit (data : Bytes) {w : Window}
    (hstop : w.regionStart + w.bufferStop < UInt64.size) (want : Nat) :
    (data.drop (Offset.add w.regionStart w.bufferStop)).take (w.refillLimit want) =
      (((w.view data).drop w.bufferStart).drop w.buffer.length).take (w.refillLimit want) := by
  have hinside : w.refillLimit want ≤ w.length - w.bufferStop := Nat.min_le_right _ _
  rw [Offset.add_of_lt hstop, List.drop_drop, ← bufferStop, view, List.drop_take, List.drop_drop,
    List.take_take, Nat.min_eq_left hinside]

/-- A refill brings the next bytes of the region behind the buffer. -/
theorem extend_of_serves {data : Bytes} {w : Window} {c : CommonSource} (hc : c.Serves data)
    (hw : w.Reflects data) (hstop : w.regionStart + w.bufferStop < UInt64.size) (want : Nat) :
    ∃ source, w.extend want c = (none,
        { w with
          buffer := ((w.view data).drop w.bufferStart).take
            (w.buffer.length + w.refillLimit want) },
        { c with source }) ∧ ({ c with source } : CommonSource).Serves data := by
  have hmoved := hc.wellBehaved.sought (Offset.add w.regionStart w.bufferStop)
  obtain ⟨hfill, hadv⟩ := Source.readUpTo_of_delivers hmoved.delivers (w.refillLimit want)
  have hbuffer : w.buffer = ((w.view data).drop w.bufferStart).take w.buffer.length :=
    List.prefix_iff_eq_take.1 hw
  refine ⟨(readUpTo (w.refillLimit want)
    (c.source.sought (Offset.add w.regionStart w.bufferStop))).2, ?_, hc.isOpen,
    hadv.data.trans hc.data, hadv.wellBehaved hmoved⟩
  have hrest : (c.source.sought (Offset.add w.regionStart w.bufferStop)).rest =
      data.drop (Offset.add w.regionStart w.bufferStop) := congrArg (List.drop _) hc.data
  rw [extend, if_pos hc.isOpen, Source.seek_start_of_seeks hc.wellBehaved.seeks]
  simp only [hfill, hrest, take_refillLimit data hstop]
  rw [List.take_add, ← hbuffer]

/-- After a refill the buffer begins at the position, with all bytes that were wanted. -/
theorem refill_of_serves {data : Bytes} {w : Window} {c : CommonSource} (hc : c.Serves data)
    (hw : w.Reflects data) (haddr : w.Addressable data) (n : Nat) :
    ∃ source w' stock, w.refill (w.wanted n) c = (none, w', { c with source }) ∧
      ({ c with source } : CommonSource).Serves data ∧ w'.view data = w.view data ∧
      w'.position = w.position ∧ w'.bufferStart = w.position ∧ w.wanted n ≤ stock ∧
      w'.buffer = ((w.view data).drop w.position).take stock := by
  have hrebased : w.rebase.Addressable data := haddr
  have hw' := reflects_rebase hw
  obtain ⟨source, hextended, hc'⟩ :=
    extend_of_serves hc hw' (hrebased.bufferStop_lt hw' rfl) (w.wanted n)
  refine ⟨source, _, _, hextended, hc', rfl, rfl, rfl, ?_, rfl⟩
  have hleft : w.wanted n ≤ w.length - w.position := Nat.min_le_right _ _
  have hstart : w.rebase.bufferStart = w.position := rfl
  have hsame : w.rebase.length = w.length := rfl
  simp only [refillLimit, bufferStop, hstart, hsame]
  omega

/-- A read changes nothing about a common source but the source itself. -/
theorem common_read (n : Nat) (w : Window) (c : CommonSource) :
    ∃ source, (w.read n c).2.2 = { c with source } := by
  have hextended (v : Window) (want : Nat) :
      ∃ source, (v.extend want c).2.2 = { c with source } := by
    unfold extend
    split
    · split <;> exact ⟨_, rfl⟩
    · exact ⟨c.source, rfl⟩
  unfold read
  simp only
  split
  · exact ⟨c.source, rfl⟩
  split
  · exact ⟨c.source, rfl⟩
  · have hrefilled := hextended w.rebase (w.wanted n)
    unfold refill
    split <;> simpa only [*] using hrefilled

theorem region_refill (want : Nat) (w : Window) (c : CommonSource) :
    (w.refill want c).2.1.region = w.region := by
  unfold refill extend
  split
  · split <;> rfl
  · rfl

theorem region_read (n : Nat) (w : Window) (c : CommonSource) :
    (w.read n c).2.1.region = w.region := by
  have hrefilled := region_refill (w.wanted n) w c
  unfold read
  simp only
  split
  · rfl
  split
  · rfl
  · rcases heq : w.refill (w.wanted n) c with ⟨_ | e, w', c'⟩
    · rw [heq] at hrefilled
      exact hrefilled
    · rw [heq] at hrefilled
      exact hrefilled

theorem isOpen_read (n : Nat) (w : Window) (c : CommonSource) :
    (w.read n c).2.2.isOpen = c.isOpen := by
  obtain ⟨source, hcommon⟩ := common_read n w c
  rw [hcommon]

theorem isOpen_seek (aim : SeekTo) (w : Window) (c : CommonSource) :
    (w.seek aim c).2.2.isOpen = c.isOpen := by
  unfold seek
  split
  · rfl
  · simp only
    split
    · rfl
    split
    · split <;> rfl
    · rfl

/-- A read of a window hands out the next bytes that the window shows. -/
theorem read_of_serves {data : Bytes} {w : Window} {c : CommonSource} (hc : c.Serves data)
    (hw : w.Reflects data) (haddr : w.Addressable data) (n : Nat) :
    ∃ w' source, w.read n c =
        (.ok (((w.view data).drop w.position).take n), w', { c with source }) ∧
      ({ c with source } : CommonSource).Serves data ∧ w'.Reflects data ∧
      w'.Addressable data ∧ w'.view data = w.view data ∧
      w'.position = w.position + (((w.view data).drop w.position).take n).length := by
  rw [← take_wanted, read]
  simp only
  split
  · rename_i hzero
    rw [hzero]
    exact ⟨w, c.source, rfl, hc, hw, haddr, rfl, rfl⟩
  split
  · rename_i hcovers
    have hserved := serve_of_covers hw hcovers
    have hmoved : (w.serve (w.wanted n)).2.position =
        w.position + (((w.view data).drop w.position).take (w.wanted n)).length := by
      rw [← hserved]
      rfl
    exact ⟨(w.serve (w.wanted n)).2, c.source, by rw [hserved], hc, hw,
      haddr.advance rfl rfl List.prefix_rfl hmoved, rfl, hmoved⟩
  · obtain ⟨source, w', stock, hrefilled, hc', hview, hposition, hstart, henough, hbuffer⟩ :=
      refill_of_serves hc hw haddr n
    have hserved : (w'.serve (w.wanted n)).1 =
        ((w.view data).drop w.position).take (w.wanted n) := by
      rw [serve, hbuffer, hposition, hstart, Nat.sub_self, List.drop_zero, List.take_take,
        Nat.min_eq_left henough]
    have hregion := region_refill (w.wanted n) w c
    rw [hrefilled] at hregion
    have hmoved : (w'.serve (w.wanted n)).2.position =
        w.position + (((w.view data).drop w.position).take (w.wanted n)).length := by
      rw [← hserved, ← hposition]
      rfl
    refine ⟨(w'.serve (w.wanted n)).2, source, ?_, hc', ?_,
      haddr.advance hregion hview List.prefix_rfl hmoved, hview, hmoved⟩
    · rw [hrefilled]
      simp only [hserved]
    · change w'.buffer <+: (w'.view data).drop w'.bufferStart
      rw [hbuffer, hview, hstart]
      exact List.take_prefix _ _

end Window

/-- A window over a well-behaved source holds the bytes that it shows from its position on. -/
theorem WindowReader.holds_of_serves {data : Bytes} {r : WindowReader}
    (hc : r.common.Serves data) (hw : r.window.Reflects data)
    (haddr : r.window.Addressable data) :
    Reader.Holds r ((r.window.view data).drop r.window.position) := by
  induction hsize : Reader.stamina r using Nat.strongRecOn generalizing r with
  | ind m ih =>
      subst hsize
      have hanswer (n : Nat) : (Reader.read n r).1 =
          .ok (((r.window.view data).drop r.window.position).take n) := by
        obtain ⟨w', source, hread, -⟩ := Window.read_of_serves hc hw haddr n
        exact congrArg Prod.fst hread
      refine .intro ?stop ?front ?rest
      case stop =>
        intro n failure hpos hverdict
        rw [hanswer] at hverdict
        cases htaken : ((r.window.view data).drop r.window.position).take n with
        | nil =>
            simp only [htaken, Verdict.of, Verdict.stop.injEq] at hverdict
            exact ⟨hverdict.symm, (List.take_eq_nil_iff.1 htaken).resolve_left (by omega)⟩
        | cons b bytes => simp [htaken, Verdict.of] at hverdict
      case front =>
        intro n bytes _ hverdict
        rw [hanswer] at hverdict
        rw [← Verdict.eq_of_more hverdict]
        exact List.take_prefix n _
      case rest =>
        intro n bytes _ hverdict
        have hless := Reader.stamina_lt_of_more hverdict
        rw [hanswer] at hverdict
        obtain ⟨w', source, hread, hserves, hreflects, haddressable, hview, hposition⟩ :=
          Window.read_of_serves hc hw haddr n
        have hmoved : (Reader.read n r).2 = ⟨w', { r.common with source }⟩ := by
          change WindowReader.mk (r.window.read n r.common).2.1 (r.window.read n r.common).2.2 = _
          rw [hread]
        rw [hmoved] at hless ⊢
        have hholds := ih _ hless hserves hreflects haddressable rfl
        rwa [hview, hposition, Verdict.eq_of_more hverdict, ← List.drop_drop] at hholds

end BlobUpload
