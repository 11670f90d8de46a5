import BlobUpload.Proofs.Pool.Outcomes
import BlobUpload.Proofs.Pool.Progress
import BlobUpload.Proofs.Window.Refinement
import Mathlib.Data.List.Sort

/-! # Pools over any source

A source may hand out no byte although there are some left, and may do so in the middle of a span.
Then the chunk that is cut holds only the front of what the span covers, and nobody compares the
two. What a pool commits is made of such fronts, in the order of the spans. -/

namespace BlobUpload

/-- What a window hands out while more may follow is the front of what it shows. -/
theorem Window.more_of_read {data : Bytes} {w : Window} {c : CommonSource}
    (hd : c.source.data = data) (hw : w.Reflects data) (haddr : w.Addressable data) {n : Nat}
    {bytes : Bytes} (h : Verdict.of (w.read n c).1 = .more bytes) :
    bytes <+: ((w.view data).drop w.position).take n ∧
      (w.read n c).2.1.view data = w.view data ∧
      (w.read n c).2.1.position = w.position + bytes.length := by
  obtain ⟨hpermitted, -⟩ := permits_read hd hw haddr n
  rw [← due_cursor]
  generalize hmoved : (w.read n c).2.1.cursor data = k at hpermitted
  match hanswer : (w.read n c).1 with
  | .error e =>
      rw [hanswer] at h hpermitted
      rw [Verdict.of] at h
      split at h
      · cases h
        cases hpermitted
        obtain ⟨-, hstart, hlength, hposition⟩ := Cursor.mk.inj hmoved
        exact ⟨List.nil_prefix, by rw [view, hstart, hlength, view], hposition⟩
      · cases h
  | .ok [] => simp [hanswer, Verdict.of] at h
  | .ok (b :: rest) =>
      rw [hanswer] at h hpermitted
      cases h
      cases hpermitted with
      | read hfront =>
          obtain ⟨-, hstart, hlength, hposition⟩ := Cursor.mk.inj hmoved
          exact ⟨hfront, by rw [view, hstart, hlength]; rfl, hposition⟩

variable {σ : Type} [Service σ]

namespace Job

/-- The chunk begins with a span and holds the front of its bytes. -/
def Begins (job : Job) (c : Chunk) : Prop :=
  ∃ s ∈ job.spans, c.offset = s.start ∧ c.payload <+: job.share s

/-- What a worker may be about to do: it has read no more of a span than its front. -/
def Faces (job : Job) : Worker → Prop
  | .checking s => s ∈ job.spans
  | .reading k w got => k.finished = true ∨ ∃ s, job.Reads s k w got
  | .sending k _ _ _ | .counting k _ _ _ | .filing k _ _ _ => k.finished = true
  | _ => True

/-- Apart from what is read, a pool goes through the spans of its job. -/
structure Assigned (job : Job) (p : Pool σ) : Prop where
  addressable : job.Addressable
  settings : p.session.settings = job.settings
  data : p.common.source.data = job.data
  origin : p.common.origin = job.origin
  queue : ∀ s ∈ p.queue, s ∈ job.spans

omit [Service σ] in
theorem Assigned.withSession {job : Job} {p : Pool σ} (hassigned : job.Assigned p)
    {session : Session σ} (hsame : session.settings = p.session.settings) :
    job.Assigned { p with session } :=
  { hassigned with settings := hsame.trans hassigned.settings }

end Job

namespace Pool

variable {job : Job} {past : History} {p : Pool σ} {w : Worker}

/-! ## One step -/

/-- After a step the worker still reads the front of a span, and what it may have cut is one. -/
structure Advances (job : Job) (w w' : Worker) (p' : Pool σ) : Prop where
  assigned : job.Assigned p'
  worker : job.Faces w'
  cut : ∀ c, w.event? w' = some (.cut c) → job.Begins c

omit [Service σ] in
/-- Once nothing more comes, what a worker has read of a span becomes a chunk, if it is anything. -/
theorem advances_afterReading {s : Span} {k : Cutter} {window window' : Window} {got : Bytes}
    (hassigned : job.Assigned p) (hreads : job.Reads s k window got) (writer : Writer) :
    Advances job (.reading k window got) (afterReading writer window' (.ok got) k) p := by
  have hle : got.length ≤ s.length :=
    Nat.le_trans hreads.got.length_le (List.length_take_le _ _)
  rw [hreads.cutter]
  rcases afterReading_cutterFor (short_of_mem_cover hreads.mem) hle writer window' with
    ⟨-, hafter⟩ | ⟨-, k', hfinished, hafter⟩
  · rw [hafter]
    exact ⟨hassigned, trivial, fun _ hcut => by cases hcut⟩
  · rw [hafter]
    split
    · refine ⟨hassigned, hfinished, fun c hsame => ?_⟩
      cases hsame
      exact ⟨s, hreads.mem, rfl, hreads.got⟩
    · exact ⟨hassigned, trivial, fun _ hcut => by cases hcut⟩

omit [Service σ] in
theorem advances_stepReading {k : Cutter} {window : Window} {got : Bytes}
    (hassigned : job.Assigned p) (hfaces : job.Faces (.reading k window got)) :
    Advances job (.reading k window got) (stepReading k window got p).1
      (stepReading k window got p).2 := by
  rw [stepReading]
  rcases hfaces with hfinished | ⟨s, hreads⟩
  · rw [if_pos hfinished]
    exact ⟨hassigned, trivial, fun _ hcut => by cases hcut⟩
  have hunfinished : k.finished = false := by rw [hreads.cutter]; rfl
  have hlimit : k.limit = s.length := by
    rw [hreads.cutter, limit_cutterFor (short_of_mem_cover hreads.mem)]
  rw [if_neg (by simp [hunfinished]), hlimit]
  split
  · exact advances_afterReading hassigned hreads _
  rename_i hshort
  have hdata := Window.keeps_read (Source.kept_data job.data) hassigned.data (s.length - got.length)
    window
  obtain ⟨-, hreflects⟩ :=
    Window.permits_read hassigned.data hreads.reflects hreads.addressable (s.length - got.length)
  have hmore {bytes : Bytes}
      (h : Verdict.of (window.read (s.length - got.length) p.common).1 = .more bytes) :=
    Window.more_of_read hassigned.data hreads.reflects hreads.addressable h
  have hregion := Window.region_read (s.length - got.length) window p.common
  obtain ⟨source, hcommon⟩ := window.common_read (s.length - got.length) p.common
  rcases heq : window.read (s.length - got.length) p.common with ⟨answer, window', common'⟩
  rw [heq] at hdata hreflects hcommon hmore hregion
  obtain rfl : common' = { p.common with source } := hcommon
  have hassigned' : job.Assigned { p with common := { p.common with source } } :=
    { hassigned with data := hdata, origin := hassigned.origin }
  simp only
  cases hverdict : Verdict.of answer with
  | stop failure =>
      cases failure with
      | none => exact advances_afterReading hassigned' hreads _
      | some e => exact ⟨hassigned', trivial, fun _ hcut => by cases hcut⟩
  | more bytes =>
      obtain ⟨hfront, hview, hposition⟩ := hmore hverdict
      have haddressable := hreads.addressable.advance hregion hview hfront hposition
      rw [hreads.view, hreads.position] at hfront
      obtain ⟨tail, hwhole⟩ := hreads.got
      rw [← hwhole, List.drop_left] at hfront
      refine ⟨hassigned', .inr ⟨s, hreads.mem, hreads.cutter, hreflects, haddressable,
        hview.trans hreads.view, ?_, ?_⟩, fun _ hcut => by cases hcut⟩
      · rw [hposition, hreads.position, List.length_append]
      · rw [← hwhole]
        exact (List.prefix_append_right_inj got).2 (hfront.trans (List.take_prefix _ tail))

/-- A step of a worker stays with the fronts of spans, whatever the source and the service do. -/
theorem advances_stepWorker (hassigned : job.Assigned p) (hfaces : job.Faces w) :
    Advances job w (stepWorker w p).1 (stepWorker w p).2 := by
  cases w with
  | starting =>
      simp only [stepWorker]
      split <;> exact ⟨hassigned, trivial, fun _ hcut => by cases hcut⟩
  | claiming =>
      cases hqueue : p.queue with
      | nil =>
          simp only [stepWorker, hqueue]
          exact ⟨hassigned, trivial, fun _ hcut => by cases hcut⟩
      | cons s rest =>
          have hmem := hassigned.queue
          rw [hqueue] at hmem
          simp only [stepWorker, hqueue]
          exact ⟨{ hassigned with queue := fun t ht => hmem t (List.mem_cons_of_mem _ ht) },
            hmem s List.mem_cons_self, fun _ hcut => by cases hcut⟩
  | checking s =>
      rcases hlooked : p.session.checkAbort s.start with ⟨answer, session⟩
      have hsame : session.settings = p.session.settings := by
        rw [Session.eq_of_checkAbort hlooked]
      have hassigned' := hassigned.withSession hsame
      simp only [stepWorker, hlooked]
      cases answer with
      | ok _ =>
          obtain ⟨k, window, hopened, hreads⟩ :=
            reads_openSpan hassigned.addressable hassigned'.settings hassigned'.origin hfaces
          simp only
          rw [hopened]
          exact ⟨hassigned', .inr ⟨s, hreads⟩, fun _ hcut => by cases hcut⟩
      | error e => exact ⟨hassigned', trivial, fun _ hcut => by cases hcut⟩
  | reading k window got => exact advances_stepReading hassigned hfaces
  | sending k window c sent =>
      have hfinished : k.finished = true := hfaces
      simp only [stepWorker, stepSending]
      split
      · exact ⟨hassigned.withSession rfl, hfinished, fun _ hcut => by cases hcut⟩
      · exact ⟨hassigned.withSession rfl, trivial, fun _ hcut => by cases hcut⟩
      · split
        · exact ⟨hassigned.withSession rfl, trivial, fun _ hcut => by cases hcut⟩
        · exact ⟨hassigned.withSession rfl, hfinished, fun _ hcut => by cases hcut⟩
  | counting k window c token =>
      exact ⟨hassigned.withSession (settings_advance _ _), hfaces, fun _ hcut => by cases hcut⟩
  | filing k window c token => exact ⟨{ hassigned with }, .inl hfaces, fun _ hcut => by cases hcut⟩
  | stopping e => exact ⟨{ hassigned with }, trivial, fun _ hcut => by cases hcut⟩
  | reporting e => exact ⟨{ hassigned with }, trivial, fun _ hcut => by cases hcut⟩
  | ended => exact ⟨hassigned, trivial, fun _ hcut => by cases hcut⟩

/-! ## A whole run -/

/-- A pool whose workers read the fronts of spans and have cut chunks out of nothing else. -/
structure Fronts (job : Job) (past : History) (p : Pool σ) : Prop where
  assigned : job.Assigned p
  workers : ∀ w ∈ p.workers, job.Faces w
  cuts : ∀ c ∈ past.cuts, job.Begins c

theorem Fronts.replace (hfronts : Fronts job past p) {i : Nat} (hi : p.workers[i]? = some w) :
    Fronts job (record i (w.event? (stepWorker w p).1) past)
      (Pool.replace i (stepWorker w p).1 p (stepWorker w p).2) := by
  obtain ⟨hassigned, hworker, hcut⟩ :=
    advances_stepWorker hfronts.assigned (hfronts.workers w (List.mem_of_getElem? hi))
  refine ⟨{ hassigned with }, fun v hv => ?_, fun c hmem => ?_⟩
  · rcases mem_set hv with rfl | hv
    · exact hworker
    · exact hfronts.workers v hv
  · obtain ⟨j, hmem⟩ := History.mem_cuts.1 hmem
    rcases mem_record.1 hmem with hold | ⟨e, hevent, hsame⟩
    · exact hfronts.cuts c (History.mem_cuts.2 ⟨j, hold⟩)
    · cases hsame
      exact hcut c hevent

theorem Fronts.foldl (hfronts : Fronts job past p) (actions : List Action) :
    Fronts job (past ++ p.history actions) (actions.foldl act p) := by
  refine history_induction (P := Fronts job) (fun hfronts hi => hfronts.replace hi) actions
    (fun _ _ _ hfronts => ?_) hfronts
  exact ⟨hfronts.assigned.withSession rfl, hfronts.workers, hfronts.cuts⟩

omit [Service σ] in
theorem fronts_ofSession (session : Session σ) (common : CommonSource) (length : Nat)
    (start : Blob)
    (haddr : Job.Addressable ⟨session.settings, common.source.data, common.origin, length, start⟩) :
    Fronts ⟨session.settings, common.source.data, common.origin, length, start⟩ []
      (ofSession session common length) where
  assigned := ⟨haddr, rfl, rfl, rfl, fun _ => id⟩
  workers w hw := by
    rw [starting_of_mem_ofSession w hw]
    trivial
  cuts := nofun

end Pool

/-! ## What is committed -/

namespace History

/-- The chunks that were cut, in the order of the spans. -/
def inOrder (spans : List Span) (h : History) : List Chunk :=
  spans.filterMap fun s => h.cuts.find? (·.offset = s.start)

variable {spans : List Span} {h : History}

theorem of_find {s : Span} {c : Chunk} (hfound : h.cuts.find? (·.offset = s.start) = some c) :
    c ∈ h.cuts ∧ c.offset = s.start :=
  ⟨List.mem_of_find?_eq_some hfound, by simpa using List.find?_some hfound⟩

theorem sorted_inOrder (hsorted : spans.Pairwise (·.start < ·.start)) :
    (h.inOrder spans).Pairwise (·.offset < ·.offset) := by
  refine List.pairwise_filterMap.2 (hsorted.imp fun hbefore c hfound d hfound' => ?_)
  rwa [(of_find hfound).2, (of_find hfound').2]

theorem mem_inOrder (honce : (h.cuts.map Chunk.offset).Nodup)
    (hbegun : ∀ c ∈ h.cuts, ∃ s ∈ spans, c.offset = s.start) {c : Chunk} :
    c ∈ h.inOrder spans ↔ c ∈ h.cuts := by
  rw [inOrder, List.mem_filterMap]
  constructor
  · rintro ⟨s, -, hfound⟩
    exact (of_find hfound).1
  · intro hmem
    obtain ⟨s, hs, hoffset⟩ := hbegun c hmem
    refine ⟨s, hs, ?_⟩
    cases hfound : h.cuts.find? (·.offset = s.start) with
    | none => exact absurd (decide_eq_true hoffset) (List.find?_eq_none.1 hfound c hmem)
    | some d =>
        obtain ⟨hmem', hoffset'⟩ := of_find hfound
        obtain ⟨i, hcut⟩ := mem_cuts.1 hmem
        obtain ⟨j, hcut'⟩ := mem_cuts.1 hmem'
        rw [(eq_of_nodup_cuts honce hcut' hcut (hoffset'.trans hoffset.symm)).2]

/-- Chunks that hold the fronts of their spans are put together out of these fronts. -/
theorem flatMap_inOrder {share : Span → Bytes} (hapart : (spans.map Span.start).Nodup)
    (hfronts : ∀ c ∈ h.cuts, ∃ s ∈ spans, c.offset = s.start ∧ c.payload <+: share s) :
    ∃ got : Span → Nat, (h.inOrder spans).flatMap Chunk.payload =
      spans.flatMap fun s => (share s).take (got s) := by
  refine ⟨fun s => ((h.cuts.find? (·.offset = s.start)).map Chunk.length).getD 0, ?_⟩
  rw [inOrder, List.filterMap_eq_flatMap_toList, List.flatMap_assoc]
  apply List.flatMap_congr
  intro s hs
  cases hfound : h.cuts.find? (·.offset = s.start) with
  | none =>
      simp only [hfound]
      exact List.take_zero.symm
  | some c =>
      obtain ⟨hmem, hoffset⟩ := of_find hfound
      obtain ⟨s', hs', hoffset', hfront⟩ := hfronts c hmem
      obtain rfl : s' = s := List.inj_on_of_nodup_map hapart hs' hs (hoffset'.symm.trans hoffset)
      simp only [hfound]
      exact (List.append_nil _).trans (List.prefix_iff_eq_take.1 hfront)

end History

/-- Requests for blocks that meet the lease are all carried out. -/
theorem Blob.after_requests_block {b : Blob} {e : Envelope} (h : b.Admits e.lease)
    (cs : List Chunk) :
    Service.after b (cs.map (Writer.block e).request) = b.stageAll (cs.map Chunk.block) := by
  induction cs generalizing b with
  | nil => rfl
  | cons c cs ih =>
      have hstaged := answer_putBlock h (blockId c.offset) c.payload
      rw [List.map_cons, List.map_cons, stageAll, List.foldl_cons, ← stageAll,
        ← ih (b := b.stage c.block) h]
      exact congrArg (Service.after · (cs.map (Writer.block e).request)) (congrArg Prod.snd hstaged)

namespace Pool

variable {settings : Settings} {e : Envelope} {spans : List Span} {past : History}
  {tokens : List Token}

omit [Service σ] in
theorem Ledger.mem_inOrder {p : Pool σ} (hledger : Ledger settings spans past p) {c : Chunk} :
    c ∈ past.inOrder spans ↔ c ∈ past.cuts := by
  refine History.mem_inOrder hledger.nodup_cuts fun c hmem => ?_
  obtain ⟨i, hcut⟩ := History.mem_cuts.1 hmem
  obtain ⟨s, hclaimed, hoffset, -⟩ := hledger.cuts i c hcut
  refine ⟨s, ?_, hoffset⟩
  rw [← hledger.claims]
  exact List.mem_append_left _ (History.mem_claims.2 ⟨i, hclaimed⟩)

/-- The tokens of a pool that has written blocks are those of its chunks. -/
theorem Books.tokens_eq {start : σ} {p : Pool σ}
    (hbooks : Books settings (.block e) spans start past p)
    (hsorted : spans.Pairwise (·.start < ·.start)) (hcomplete : past.Complete spans tokens) :
    tokens = (past.inOrder spans).map fun c => .block (blockId c.offset) := by
  obtain ⟨filed, rfl, hascending, hoffsets, hsent⟩ := hcomplete.tokens
  have hblock : ∀ entry ∈ filed, ∃ c ∈ past.cuts,
      entry = (c.offset, .block (blockId c.offset)) := by
    rintro ⟨o, token⟩ hmem
    obtain ⟨i, c, rfl, hanswered⟩ := hsent _ hmem
    obtain ⟨reply, rfl⟩ := hbooks.faithful.tokens i c token hanswered
    exact ⟨c, History.mem_cuts.2 ⟨i, hbooks.ledger.sends i c _ hanswered⟩, rfl⟩
  have hsame : filed =
      (past.inOrder spans).map fun c => (c.offset, Token.block (blockId c.offset)) := by
    refine List.Pairwise.eq_of_mem_iff hascending
      (List.pairwise_map.2 (History.sorted_inOrder hsorted)) fun entry => ?_
    constructor
    · intro hmem
      obtain ⟨c, hcut, rfl⟩ := hblock entry hmem
      exact List.mem_map.2 ⟨c, hbooks.ledger.mem_inOrder.2 hcut, rfl⟩
    · intro hmem
      obtain ⟨c, hc, rfl⟩ := List.mem_map.1 hmem
      have hfiled' := hoffsets.mem_iff.2 (List.mem_map_of_mem (hbooks.ledger.mem_inOrder.1 hc))
      obtain ⟨entry, hmem', hoffset⟩ := List.mem_map.1 hfiled'
      obtain ⟨d, -, rfl⟩ := hblock entry hmem'
      rwa [← show d.offset = c.offset from hoffset]
  rw [hsame, List.map_map]
  rfl

/-- Once a pool has written all its chunks, the blob has them staged. -/
theorem Books.staged {start : Blob} {p : Pool Blob}
    (hbooks : Books settings (.block e) spans start past p)
    (hcomplete : past.Complete spans tokens) (hadmits : start.Admits e.lease) :
    ∀ block ∈ (past.inOrder spans).map Chunk.block,
      p.session.service.stagedBlock? block.1 = some block.2 := by
  rw [hbooks.faithful.service, History.requests, Blob.after_requests_block hadmits]
  refine start.stagedBlock?_of_apart (fun c hc d hd hsame => ?_) (fun block hmem => ?_)
    fun c hmem => ?_
  · obtain ⟨i, hcut⟩ := History.mem_cuts.1 (hbooks.ledger.mem_inOrder.1 hc)
    obtain ⟨j, hcut'⟩ := History.mem_cuts.1 (hbooks.ledger.mem_inOrder.1 hd)
    exact (History.eq_of_nodup_cuts hbooks.ledger.nodup_cuts hcut hcut' hsame).2
  · obtain ⟨c, hc, rfl⟩ := List.mem_map.1 hmem
    obtain ⟨i, token?, hsent⟩ := History.mem_sends.1 hc
    refine List.mem_map_of_mem (hbooks.ledger.mem_inOrder.2 (History.mem_cuts.2 ⟨i, ?_⟩))
    exact hbooks.ledger.sends i c token? hsent
  · obtain ⟨i, hcut⟩ := History.mem_cuts.1 (hbooks.ledger.mem_inOrder.1 hmem)
    obtain ⟨token, hsent⟩ := hcomplete.acknowledged i c hcut
    exact List.mem_map_of_mem (History.mem_sends.2 ⟨i, _, hsent⟩)

end Pool

end BlobUpload
