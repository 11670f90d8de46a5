import BlobUpload.Proofs.Cutter.SpanCover
import BlobUpload.Proofs.Source.WellBehaved
import BlobUpload.Source.Window

/-! # A window keeps to its region

A window touches its source by seeks and by reads that ask for bytes of its region only. So a
relation between sources that such seeks and reads keep, with one answer on both sides, is kept by
every read and every seek of the window. -/

namespace BlobUpload

namespace Source

/-- A relation between sources that seeks, and reads inside the region, keep with one answer on
both sides. -/
structure Lockstep (region : Span) (R : Source → Source → Prop) : Prop where
  seek : ∀ {s t : Source} (target : Nat), R s t →
    (t.seek (.start target)).1 = (s.seek (.start target)).1 ∧
      R (s.seek (.start target)).2 (t.seek (.start target)).2
  read : ∀ {s t : Source} (n : Nat), R s t → region.start ≤ s.position →
    s.position + n ≤ region.stop → (t.read n).1 = (s.read n).1 ∧ R (s.read n).2 (t.read n).2

theorem Lockstep.reading {region : Span} {R : Source → Source → Prop} (h : Lockstep region R)
    {n : Nat} {s t : Source} (hrelated : R s t)
    (hinside : 0 < n → region.start ≤ s.position ∧ s.position + n ≤ region.stop) :
    (readUpTo n t).1 = (readUpTo n s).1 ∧ R (readUpTo n s).2 (readUpTo n t).2 := by
  fun_induction readUpTo n s generalizing t with
  | case1 s =>
      rw [readUpTo_zero]
      exact ⟨rfl, hrelated⟩
  | case2 n s h0 failure hv =>
      obtain ⟨hstart, hstop⟩ := hinside (Nat.pos_of_ne_zero h0)
      obtain ⟨hsame, hrelated'⟩ := h.read n hrelated hstart hstop
      rw [readUpTo_of_stop h0 (by rw [reader_read, hsame]; exact hv)]
      exact ⟨rfl, hrelated'⟩
  | case3 n s h0 bytes hv _ fill u heq ih =>
      obtain ⟨hstart, hstop⟩ := hinside (Nat.pos_of_ne_zero h0)
      obtain ⟨hsame, hrelated'⟩ := h.read n hrelated hstart hstop
      obtain ⟨hfront, hadv⟩ := more_of_read hv
      have hshort : bytes.length ≤ n := Nat.le_trans hfront.length_le (List.length_take_le n s.rest)
      have hposition : (s.read n).2.position = s.position + bytes.length := hadv.position
      have hrest := ih hrelated' (by rw [reader_read, hposition]; omega)
      rw [readUpTo_of_more h0 (by rw [reader_read, hsame]; exact hv)]
      rw [heq] at hrest
      exact ⟨by rw [reader_read, hrest.1], hrest.2⟩

/-! ## What a source is asked for -/

/-- The source `s` is reached from `origin` by seeks and by reads that ask for bytes of the region
only. -/
inductive Visits (region : Span) (origin : Source) : Source → Prop where
  | here : Visits region origin origin
  | seek {s : Source} (target : Nat) (hbefore : Visits region origin s) :
      Visits region origin (s.seek (.start target)).2
  | read {s : Source} (n : Nat) (hbefore : Visits region origin s)
      (hstart : region.start ≤ s.position) (hstop : s.position + n ≤ region.stop) :
      Visits region origin (s.read n).2

theorem lockstep_visits (region : Span) (origin : Source) :
    Lockstep region fun s t => t = s ∧ Visits region origin s where
  seek target h := by
    obtain ⟨rfl, hbefore⟩ := h
    exact ⟨rfl, rfl, hbefore.seek target⟩
  read n h hstart hstop := by
    obtain ⟨rfl, hbefore⟩ := h
    exact ⟨rfl, rfl, hbefore.read n hstart hstop⟩

/-! ## What lies outside a region -/

/-- The source with other data. -/
def withData (data : Bytes) (s : Source) : Source := { s with data }

theorem take_rest_withData {region : Span} {data : Bytes} {s : Source}
    (hsame : data.slice region = s.data.slice region) {n : Nat}
    (hstart : region.start ≤ s.position) (hstop : s.position + n ≤ region.stop) {k : Nat}
    (hk : k ≤ n) : (s.withData data).rest.take k = s.rest.take k := by
  have hpart (bytes : Bytes) : (bytes.drop s.position).take k =
      ((bytes.slice region).drop (s.position - region.start)).take k := by
    have henough : k ≤ region.length - (s.position - region.start) := by
      simp only [Span.length]
      omega
    rw [Bytes.slice, List.drop_take, List.take_take, Nat.min_eq_left henough, List.drop_drop,
      Nat.add_sub_cancel' hstart]
  change (data.drop s.position).take k = _
  rw [hpart, hsame, ← hpart]
  rfl

theorem seek_withData (data : Bytes) (s : Source) (target : Nat) :
    (s.withData data).seek (.start target) =
      ((s.seek (.start target)).1, (s.seek (.start target)).2.withData data) := by
  have hsame : (s.withData data).nextSeekError? = s.nextSeekError? := rfl
  rw [seek, seek, hsame]
  cases s.nextSeekError? with
  | some e => rfl
  | none => rfl

theorem read_withData {region : Span} {data : Bytes} {s : Source}
    (hsame : data.slice region = s.data.slice region) {n : Nat}
    (hstart : region.start ≤ s.position) (hstop : s.position + n ≤ region.stop) :
    (s.withData data).read n = ((s.read n).1, (s.read n).2.withData data) := by
  have hhandOut {k : Nat} (hk : k ≤ n) :
      Source.handOut k { s.withData data with reads := s.reads + 1 } =
        ((Source.handOut k { s with reads := s.reads + 1 }).1,
          (Source.handOut k { s with reads := s.reads + 1 }).2.withData data) := by
    have hbytes := take_rest_withData hsame hstart hstop hk
    change ((s.withData data).rest.take k, { s with
      data, reads := s.reads + 1, position := s.position + ((s.withData data).rest.take k).length })
      = _
    rw [hbytes]
    rfl
  have hstep : (s.withData data).script.step (s.withData data).reads = s.script.step s.reads := rfl
  rw [read, read, hstep]
  cases s.script.step s.reads with
  | fail e => rfl
  | freely =>
      simp only
      rw [show ({ s.withData data with reads := (s.withData data).reads + 1 } : Source) =
        { s.withData data with reads := s.reads + 1 } from rfl, hhandOut (Nat.le_refl n)]
  | upTo limit =>
      simp only
      rw [show ({ s.withData data with reads := (s.withData data).reads + 1 } : Source) =
        { s.withData data with reads := s.reads + 1 } from rfl, hhandOut (Nat.min_le_left n limit)]

theorem data_seek (aim : SeekTo) (s : Source) : (s.seek aim).2.data = s.data := by
  unfold seek
  split
  · rfl
  · split <;> rfl

theorem data_read (n : Nat) (s : Source) : (s.read n).2.data = s.data := by
  rcases read_cases n s with ⟨e, -, hadv⟩ | ⟨k, -, -, hadv⟩ <;> exact hadv.data

theorem script_seek (aim : SeekTo) (s : Source) : (s.seek aim).2.script = s.script := by
  unfold seek
  split
  · rfl
  · split <;> rfl

theorem script_read (n : Nat) (s : Source) : (s.read n).2.script = s.script := by
  rcases read_cases n s with ⟨e, -, hadv⟩ | ⟨k, -, -, hadv⟩ <;> exact hadv.script

/-- A property of a source that seeks and reads keep. -/
structure Kept (P : Source → Prop) : Prop where
  seek : ∀ {s : Source} (target : Nat), P s → P (s.seek (.start target)).2
  read : ∀ {s : Source} (n : Nat), P s → P (s.read n).2

theorem kept_data (data : Bytes) : Kept fun s => s.data = data where
  seek _ hdata := (data_seek _ _).trans hdata
  read _ hdata := (data_read _ _).trans hdata

theorem kept_wellBehaved : Kept WellBehaved where
  seek {s} target h := by
    rw [seek_start_of_seeks h.seeks]
    exact h.sought target
  read n h := by
    rcases read_cases n _ with ⟨e, -, hadv⟩ | ⟨k, -, -, hadv⟩
    · exact hadv.wellBehaved h
    · exact hadv.wellBehaved h

/-- Sources that differ at most outside the region stay so. -/
theorem lockstep_withData (region : Span) (data : Bytes) :
    Lockstep region fun s t =>
      t = s.withData data ∧ data.slice region = s.data.slice region where
  seek {s t} target h := by
    obtain ⟨rfl, hsame⟩ := h
    rw [seek_withData]
    exact ⟨rfl, rfl, by rw [data_seek, hsame]⟩
  read {s t} n h hstart hstop := by
    obtain ⟨rfl, hsame⟩ := h
    rw [read_withData hsame hstart hstop]
    exact ⟨rfl, rfl, by rw [data_read, hsame]⟩

end Source

/-! ## Windows in lockstep -/

/-- Two results of a window: one answer, one window, and related sources. -/
structure Echo {α : Type} (R : Source → Source → Prop) (x y : α × Window × CommonSource) :
    Prop where
  answer : y.1 = x.1
  window : y.2.1 = x.2.1
  common : y.2.2 = { x.2.2 with source := y.2.2.source }
  related : R x.2.2.source y.2.2.source

namespace Window

section

variable {P : Source → Prop} {c : CommonSource}

/-! ### What a window keeps of its source -/

theorem keeps_extend (hkept : Source.Kept P) (hP : P c.source) (want : Nat) (w : Window) :
    P (w.extend want c).2.2.source := by
  have hsought := hkept.seek (Offset.add w.regionStart w.bufferStop) hP
  unfold extend
  split
  · rcases heq : c.source.seek (.start (Offset.add w.regionStart w.bufferStop)) with ⟨e | _, source⟩
    all_goals rw [heq] at hsought
    · exact hsought
    · exact readUpTo_invariant (fun n s => hkept.read n) (w.refillLimit want) source hsought
  · exact hP

theorem keeps_read (hkept : Source.Kept P) (hP : P c.source) (n : Nat) (w : Window) :
    P (w.read n c).2.2.source := by
  have hrefilled := keeps_extend hkept hP (w.wanted n) w.rebase
  unfold read
  simp only
  split
  · exact hP
  split
  · exact hP
  · unfold refill
    rcases heq : w.rebase.extend (w.wanted n) c with ⟨_ | e, w', c'⟩
    all_goals
      rw [heq] at hrefilled
      exact hrefilled

theorem keeps_seek (hkept : Source.Kept P) (hP : P c.source) (aim : SeekTo) (w : Window) :
    P (w.seek aim c).2.2.source := by
  unfold seek
  split
  · exact hP
  · rename_i target _
    simp only
    split
    · exact hP
    split
    · have hsought := hkept.seek (Offset.add w.regionStart (min target w.length)) hP
      rcases heq : c.source.seek (.start (Offset.add w.regionStart (min target w.length))) with
        ⟨e | _, source⟩
      all_goals
        rw [heq] at hsought
        exact hsought
    · exact hP

end

/-! ### In step -/

variable {R : Source → Source → Prop} {w : Window} {c : CommonSource} {source : Source}

theorem echo_extend (h : Source.Lockstep w.region R) (hregion : w.region.stop ≤ UInt64.size)
    (hrelated : R c.source source) (want : Nat) :
    Echo R (w.extend want c) (w.extend want { c with source }) := by
  obtain ⟨s, origin, isOpen⟩ := c
  unfold extend
  cases isOpen with
  | false => exact ⟨rfl, rfl, rfl, hrelated⟩
  | true =>
      obtain ⟨hsame, hrelated'⟩ := h.seek (Offset.add w.regionStart w.bufferStop) hrelated
      simp only [if_true]
      cases hsought : s.seek (.start (Offset.add w.regionStart w.bufferStop)) with
      | mk answer s =>
        cases hsought' : source.seek (.start (Offset.add w.regionStart w.bufferStop)) with
        | mk answer' t =>
          rw [hsought, hsought'] at hsame hrelated'
          obtain rfl : answer' = answer := hsame
          cases answer' with
          | error e => exact ⟨rfl, rfl, rfl, hrelated'⟩
          | ok target =>
              obtain ⟨htarget, rfl⟩ := Source.seek_of_ok hsought
              obtain rfl : Offset.add w.regionStart w.bufferStop = target := Int.ofNat.inj htarget
              have hlimit : w.refillLimit want ≤ w.length - w.bufferStop := Nat.min_le_right _ _
              have hregion : w.regionStart + w.length ≤ UInt64.size := hregion
              obtain ⟨hfill, hrelated''⟩ := h.reading (n := w.refillLimit want) hrelated' (by
                -- A refill that asks for anything begins inside the region.
                intro hpos
                have hstart : Offset.add w.regionStart w.bufferStop =
                    w.regionStart + w.bufferStop := Offset.add_of_lt (by omega)
                change w.regionStart ≤ Offset.add w.regionStart w.bufferStop ∧
                  Offset.add w.regionStart w.bufferStop + _ ≤ w.regionStart + w.length
                omega)
              simp only
              refine ⟨?_, ?_, ?_, hrelated''⟩ <;> simp only [hfill]

theorem echo_read (h : Source.Lockstep w.region R) (hregion : w.region.stop ≤ UInt64.size)
    (hrelated : R c.source source) (n : Nat) :
    Echo R (w.read n c) (w.read n { c with source }) := by
  have hrefilled : Echo R (w.refill (w.wanted n) c) (w.refill (w.wanted n) { c with source }) :=
    echo_extend (w := w.rebase) h hregion hrelated (w.wanted n)
  unfold read
  simp only
  split
  · exact ⟨rfl, rfl, rfl, hrelated⟩
  split
  · exact ⟨rfl, rfl, rfl, hrelated⟩
  · cases heq : w.refill (w.wanted n) c with
    | mk failure rest =>
      cases heq' : w.refill (w.wanted n) { c with source } with
      | mk failure' rest' =>
        rw [heq, heq'] at hrefilled
        obtain ⟨hsame, hwindow, hcommon, hrelated'⟩ := hrefilled
        obtain rfl : failure' = failure := hsame
        obtain ⟨w', c'⟩ := rest
        obtain ⟨w'', c''⟩ := rest'
        obtain rfl : w'' = w' := hwindow
        cases failure' with
        | some e => exact ⟨rfl, rfl, hcommon, hrelated'⟩
        | none => exact ⟨rfl, rfl, hcommon, hrelated'⟩

theorem echo_seek (h : Source.Lockstep w.region R) (hrelated : R c.source source) (aim : SeekTo) :
    Echo R (w.seek aim c) (w.seek aim { c with source }) := by
  obtain ⟨s, origin, isOpen⟩ := c
  unfold seek
  cases aim.target w.position w.length with
  | negSucc k => exact ⟨rfl, rfl, rfl, hrelated⟩
  | ofNat goal =>
      simp only
      split
      · exact ⟨rfl, rfl, rfl, hrelated⟩
      cases isOpen with
      | false => exact ⟨rfl, rfl, rfl, hrelated⟩
      | true =>
          obtain ⟨hsame, hrelated'⟩ := h.seek (Offset.add w.regionStart (min goal w.length))
            hrelated
          simp only [if_true]
          cases hsought : s.seek (.start (Offset.add w.regionStart (min goal w.length))) with
          | mk answer s =>
            cases hsought' :
              source.seek (.start (Offset.add w.regionStart (min goal w.length))) with
            | mk answer' t =>
              rw [hsought, hsought'] at hsame hrelated'
              obtain rfl : answer' = answer := hsame
              cases answer' with
              | error e => exact ⟨rfl, rfl, rfl, hrelated'⟩
              | ok target => exact ⟨rfl, rfl, rfl, hrelated'⟩

end Window

end BlobUpload
