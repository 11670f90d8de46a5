import BlobUpload.Proofs.Pool.Outcomes
import BlobUpload.Proofs.Pool.Progress
import Mathlib.Data.List.Perm.Subperm

/-! # Pools whose requests are all taken

If the source is well-behaved, nobody aborts and the service takes every chunk at the first request,
no worker of a pool fails, whatever the service is. A chunk is ahead in the queue, in the hands of a
worker or cut, and what is cut is sent once. So in the end the requests for all chunks have been
sent, each of them once, in some order. -/

namespace BlobUpload

namespace Worker

/-- The offset of the span that a worker is about to cut a chunk of. -/
def ahead? : Worker → Option Nat
  | .checking s => some s.start
  | .reading k _ _ => if k.finished then none else some k.offset
  | _ => none

end Worker

namespace Job

variable {σ : Type} [Service σ] {job : Job} {writer : Writer} {Ready : σ → Prop}

/-- A service that is ready takes every chunk of the job at the first request, and is ready for the
next one. -/
structure Taken (job : Job) (writer : Writer) (Ready : σ → Prop) : Prop where
  steady : writer.Steady
  fits : ∀ c, job.Cuts c → writer.check c = .ok ()
  answered : ∀ c, job.Cuts c → ∀ s, Ready s →
    ∃ reply s', Service.answer (writer.request c) s = (.ok reply, s') ∧ Ready s'

/-- What a worker may be about to do if nothing goes wrong. -/
def Keeps (job : Job) : Worker → Prop
  | .starting | .claiming | .ended => True
  | .checking s => s ∈ job.spans
  | .reading k w got => k.finished = true ∨ ∃ s, job.Reads s k w got
  | .sending k _ c _ => k.finished = true ∧ job.Cuts c
  | .counting k _ _ _ | .filing k _ _ _ => k.finished = true
  | .stopping _ | .reporting _ => False

/-- Apart from its workers and their history, a pool is as it should be. -/
structure Calm (job : Job) (writer : Writer) (Ready : σ → Prop) (p : Pool σ) : Prop where
  addressable : job.Addressable
  settings : p.session.settings = job.settings
  writer : p.session.writer = writer
  undisturbed : p.session.Undisturbed
  ready : Ready p.session.service
  serves : p.common.Serves job.data
  origin : p.common.origin = job.origin
  running : p.stop = false
  unfailed : p.failure = none
  queue : ∀ s ∈ p.queue, s ∈ job.spans

/-- What a worker of a calm pool can do in one step, and what becomes of the pool. -/
inductive Flows (job : Job) (Ready : σ → Prop) (p : Pool σ) : Worker → Worker → Pool σ → Prop
  | proceed : Flows job Ready p .starting .claiming p
  | drained : p.queue = [] → Flows job Ready p .claiming .ended p
  | claim {s : Span} {queue : List Span} : p.queue = s :: queue →
    Flows job Ready p .claiming (.checking s) { p with queue }
  | enter {s : Span} {k : Cutter} {w : Window} : job.Reads s k w [] →
    Flows job Ready p (.checking s) (.reading k w []) p
  | read {s : Span} {k : Cutter} {w w' : Window} {got got' : Bytes} {source : Source} :
    job.Reads s k w got → job.Reads s k w' got' →
    ({ p.common with source } : CommonSource).Serves job.data →
    Flows job Ready p (.reading k w got) (.reading k w' got')
      { p with common := { p.common with source } }
  | blank {s : Span} {k : Cutter} {w : Window} {got : Bytes} {source : Source} :
    job.Reads s k w got → job.share s = [] →
    ({ p.common with source } : CommonSource).Serves job.data →
    Flows job Ready p (.reading k w got) .starting { p with common := { p.common with source } }
  | cut {s : Span} {k k' : Cutter} {w w' : Window} {got : Bytes} {c : Chunk} {source : Source} :
    job.Reads s k w got → c.offset = s.start → job.Cuts c → k'.finished = true →
    ({ p.common with source } : CommonSource).Serves job.data →
    Flows job Ready p (.reading k w got) (.sending k' w' c 0)
      { p with common := { p.common with source } }
  | close {k : Cutter} {w : Window} {got : Bytes} : k.finished = true →
    Flows job Ready p (.reading k w got) .starting p
  | write {k : Cutter} {w : Window} {c : Chunk} {sent : Nat} {token : Token} {service : σ} :
    Ready service →
    Flows job Ready p (.sending k w c sent) (.counting k w c token)
      { p with session := { p.session with service } }
  | count {k : Cutter} {w : Window} {c : Chunk} {token : Token} :
    Flows job Ready p (.counting k w c token) (.filing k w c token)
      { p with session := p.session.advance c.length }
  | file {k : Cutter} {w : Window} {c : Chunk} {token : Token} : k.finished = true →
    Flows job Ready p (.filing k w c token) (.reading k w [])
      { p with tokens := fileToken c.offset token p.tokens }
  | rest : Flows job Ready p .ended .ended p

variable {p p' : Pool σ} {w w' : Worker}

omit [Service σ] in
theorem Reads.ahead? {s : Span} {k : Cutter} {window : Window} {got : Bytes}
    (hreads : job.Reads s k window got) :
    (Worker.reading k window got).ahead? = some s.start := by
  rw [hreads.cutter]
  rfl

/-! ## One step -/

/-- A worker that has got the share of a span cuts a chunk that fits, unless there is nothing. -/
theorem flows_stepReading (hcalm : job.Calm writer Ready p) (htaken : job.Taken writer Ready)
    {s : Span} {k : Cutter} {window : Window} {got : Bytes} (hreads : job.Reads s k window got) :
    job.Flows Ready p (.reading k window got) (Pool.stepReading k window got p).1
      (Pool.stepReading k window got p).2 := by
  obtain ⟨source, hserves, hafter, hgains⟩ := Pool.gains_stepReading hcalm.serves hreads
  rw [hafter]
  generalize (Pool.stepReading k window got p).1 = w' at hgains
  cases hgains with
  | more hreads' => exact .read hreads hreads' hserves
  | blank hnone => exact .blank hreads hnone hserves
  | whole hne hfinished =>
      have hcuts : job.Cuts ⟨s.start, job.share s, true⟩ := cuts_of_share hreads.mem hne rfl rfl
      rw [hcalm.writer, htaken.fits _ hcuts]
      exact .cut hreads rfl hcuts hfinished hserves

theorem flows_stepSending (hcalm : job.Calm writer Ready p) (htaken : job.Taken writer Ready)
    (k : Cutter) (window : Window) {c : Chunk} (sent : Nat) (hcuts : job.Cuts c) :
    job.Flows Ready p (.sending k window c sent) (Pool.stepSending k window c sent p).1
      (Pool.stepSending k window c sent p).2 := by
  obtain ⟨reply, service, hanswered, hready⟩ := htaken.answered c hcuts p.session.service
    hcalm.ready
  obtain ⟨token, hwritten⟩ : ∃ token, writer.write c p.session.service =
      (.ok token, writer, service) := by
    refine ⟨(writer.accept c reply).1, ?_⟩
    rw [Writer.write, hanswered]
    simp only [htaken.steady c reply]
  rw [Pool.stepSending, hcalm.writer, hwritten, ← hcalm.writer]
  exact .write hready

theorem flows_stepWorker (hcalm : job.Calm writer Ready p) (htaken : job.Taken writer Ready)
    (hkeeps : job.Keeps w) :
    job.Flows Ready p w (Pool.stepWorker w p).1 (Pool.stepWorker w p).2 := by
  cases w with
  | starting =>
      rw [Pool.stepWorker, hcalm.running]
      exact .proceed
  | claiming =>
      rw [Pool.stepWorker]
      split
      · rename_i hnone
        exact .drained hnone
      · rename_i s queue hnext
        exact .claim hnext
  | checking s =>
      obtain ⟨k, window, hopened, hreads⟩ := Pool.reads_openSpan hcalm.addressable
        hcalm.settings hcalm.origin hkeeps
      rw [Pool.stepWorker, Session.checkAbort_of_undisturbed hcalm.undisturbed]
      simp only
      rw [hopened]
      exact .enter hreads
  | reading k window got =>
      rcases hkeeps with hfinished | ⟨s, hreads⟩
      · rw [Pool.stepWorker, Pool.stepReading, if_pos hfinished]
        exact .close hfinished
      · exact flows_stepReading hcalm htaken hreads
  | sending k window c sent => exact flows_stepSending hcalm htaken k window sent hkeeps.2
  | counting k window c token => exact .count
  | filing k window c token => exact .file hkeeps
  | stopping e => exact hkeeps.elim
  | reporting e => exact hkeeps.elim
  | ended => exact .rest

omit [Service σ] in
/-- The pool stays calm, and what its worker does next is in order. -/
theorem Flows.calm (hflows : job.Flows Ready p w w' p') (hcalm : job.Calm writer Ready p)
    (hkeeps : job.Keeps w) : job.Calm writer Ready p' ∧ job.Keeps w' := by
  cases hflows with
  | proceed => exact ⟨hcalm, trivial⟩
  | drained hnone => exact ⟨hcalm, trivial⟩
  | claim hnext =>
      rename_i s queue
      have hmem := hcalm.queue
      rw [hnext] at hmem
      exact ⟨{ hcalm with queue := fun t ht => hmem t (List.mem_cons_of_mem _ ht) },
        hmem s List.mem_cons_self⟩
  | enter hreads => exact ⟨hcalm, .inr ⟨_, hreads⟩⟩
  | read _ hreads hserves =>
      exact ⟨{ hcalm with serves := hserves, origin := hcalm.origin }, .inr ⟨_, hreads⟩⟩
  | blank _ _ hserves => exact ⟨{ hcalm with serves := hserves, origin := hcalm.origin }, trivial⟩
  | cut _ _ hcuts hfinished hserves =>
      exact ⟨{ hcalm with serves := hserves, origin := hcalm.origin }, hfinished, hcuts⟩
  | close => exact ⟨hcalm, trivial⟩
  | write hready =>
      exact ⟨{ hcalm with
        undisturbed := ⟨hcalm.undisturbed.abort, hcalm.undisturbed.watch⟩, ready := hready },
          hkeeps.1⟩
  | count =>
      rename_i k window c token
      obtain ⟨reports, abort, heq⟩ := Session.advance_eq c.length p.session
      have hundisturbed := hcalm.undisturbed.advance c.length
      rw [heq] at hundisturbed ⊢
      exact ⟨{ hcalm with undisturbed := hundisturbed }, hkeeps⟩
  | file hfinished => exact ⟨{ hcalm with }, .inl hfinished⟩
  | rest => exact ⟨hcalm, trivial⟩

omit [Service σ] in
/-- A span that was ahead is ahead afterwards, or its chunk has been cut. -/
theorem Flows.ahead (hflows : job.Flows Ready p w w' p') {c : Chunk} (hc : c ∈ job.chunks)
    (h : (∃ s ∈ p.queue, s.start = c.offset) ∨ w.ahead? = some c.offset) :
    (∃ s ∈ p'.queue, s.start = c.offset) ∨ w'.ahead? = some c.offset ∨
      ∃ d, w.event? w' = some (.cut d) ∧ d.offset = c.offset := by
  cases hflows with
  | claim hnext =>
      rename_i s queue
      rcases h with ⟨t, ht, hstart⟩ | hheld
      · rw [hnext] at ht
        rcases List.mem_cons.1 ht with rfl | ht
        · exact .inr (.inl (congrArg some hstart))
        · exact .inl ⟨t, ht, hstart⟩
      · cases hheld
  | enter hreads => exact h.imp_right fun hheld => .inl (hreads.ahead?.trans hheld)
  | read hreads hreads' =>
      exact h.imp_right fun hheld => .inl (hreads'.ahead?.trans (hreads.ahead?.symm.trans hheld))
  | blank hreads hnone =>
      refine h.imp_right fun hheld => ?_
      exact absurd hnone (share_ne_nil hreads.mem hc
        (Option.some.inj (hreads.ahead?.symm.trans hheld)))
  | cut hreads hoffset =>
      refine h.imp_right fun hheld => .inr ⟨_, rfl, ?_⟩
      exact hoffset.trans (Option.some.inj (hreads.ahead?.symm.trans hheld))
  | close hfinished =>
      refine h.imp_right fun hheld => ?_
      rw [Worker.ahead?, if_pos hfinished] at hheld
      cases hheld
  | file => exact h.imp_right fun hheld => by cases hheld
  | _ => exact h.imp_right .inl

omit [Service σ] in
/-- Nothing is cut but chunks of the job. -/
theorem Flows.cuts (hflows : job.Flows Ready p w w' p') {c : Chunk}
    (hcut : w.event? w' = some (.cut c)) : job.Cuts c := by
  cases hflows with
  | cut _ _ hcuts =>
      cases hcut
      exact hcuts
  | _ => cases hcut

/-! ## A whole run -/

/-- A chunk is cut, or its span is in the queue or in the hands of a worker. -/
def InHand (past : History) (p : Pool σ) (c : Chunk) : Prop :=
  c.offset ∈ past.cuts.map Chunk.offset ∨ (∃ s ∈ p.queue, s.start = c.offset) ∨
    ∃ w ∈ p.workers, w.ahead? = some c.offset

/-- A calm pool that has cut chunks of the job only and has left none out, and has sent each of them
once. -/
structure Smooth (job : Job) (writer : Writer) (Ready : σ → Prop) (past : History) (p : Pool σ) :
    Prop where
  calm : job.Calm writer Ready p
  keeps : ∀ w ∈ p.workers, job.Keeps w
  cuts : ∀ c ∈ past.cuts, job.Cuts c
  covered : ∀ c ∈ job.chunks, InHand past p c
  even : past.sends.length + sumOver Worker.unsent p.workers = past.cuts.length

variable {past : History} {i : Nat}

omit [Service σ] in
/-- What is cut is sent in the next step of its worker. -/
theorem Flows.even (hflows : job.Flows Ready p w w' p') (i : Nat) (past : History) :
    (Pool.record i (w.event? w') past).sends.length + past.cuts.length + w'.unsent =
      (Pool.record i (w.event? w') past).cuts.length + past.sends.length + w.unsent := by
  rw [Pool.record, History.sends_append, History.cuts_append, List.length_append,
    List.length_append]
  cases hflows <;>
    simp only [Worker.event?, Worker.unsent, Option.map_some, Option.map_none,
      Option.toList_some, Option.toList_none, History.sends, History.cuts, List.filterMap_cons,
      List.filterMap_nil, Worker.Event.sent?, Worker.Event.cut?, List.length_cons,
      List.length_nil] <;>
    omega

omit [Service σ] in
/-- A chunk in hand is in hand after a step of any worker. -/
theorem Flows.inHand (hflows : job.Flows Ready p w w' p') (hi : p.workers[i]? = some w) {c : Chunk}
    (hc : c ∈ job.chunks) (h : InHand past p c) :
    InHand (Pool.record i (w.event? w') past) (Pool.replace i w' p p') c := by
  have hkept : c.offset ∈ past.cuts.map Chunk.offset →
      c.offset ∈ (Pool.record i (w.event? w') past).cuts.map Chunk.offset := by
    rw [Pool.record, History.cuts_append, List.map_append]
    exact List.mem_append_left _
  have hnext := fun h => hflows.ahead hc h
  have hfresh : (∃ d, w.event? w' = some (.cut d) ∧ d.offset = c.offset) →
      c.offset ∈ (Pool.record i (w.event? w') past).cuts.map Chunk.offset := by
    rintro ⟨d, hevent, hsame⟩
    refine List.mem_map.2 ⟨d, History.mem_cuts.2 ⟨i, ?_⟩, hsame⟩
    exact Pool.mem_record.2 (.inr ⟨_, hevent, rfl⟩)
  by_cases hdone : c.offset ∈ (Pool.record i (w.event? w') past).cuts.map Chunk.offset
  · exact .inl hdone
  refine .inr ?_
  rcases h with hcut | hqueued | hheld
  · exact absurd (hkept hcut) hdone
  · rcases hnext (.inl hqueued) with hqueued | hself | hcut
    · exact .inl hqueued
    · exact .inr ⟨w', Pool.mem_replace hi, hself⟩
    · exact absurd (hfresh hcut) hdone
  -- The worker that takes the step may be the one that holds it, or another one.
  · by_cases hqueued : ∃ s ∈ p'.queue, s.start = c.offset
    · exact .inl hqueued
    · refine .inr (Pool.exists_mem_set hi hheld fun hself => ?_)
      rcases hnext (.inr hself) with hqueued' | hself | hcut
      · exact absurd hqueued' hqueued
      · exact hself
      · exact absurd (hfresh hcut) hdone

theorem Smooth.replace (hsmooth : job.Smooth writer Ready past p) (htaken : job.Taken writer Ready)
    (hi : p.workers[i]? = some w) :
    job.Smooth writer Ready (Pool.record i (w.event? (Pool.stepWorker w p).1) past)
      (Pool.replace i (Pool.stepWorker w p).1 p (Pool.stepWorker w p).2) := by
  have hmem := List.mem_of_getElem? hi
  have hflows := flows_stepWorker hsmooth.calm htaken (hsmooth.keeps w hmem)
  generalize (Pool.stepWorker w p).1 = w' at hflows
  generalize (Pool.stepWorker w p).2 = p' at hflows
  obtain ⟨hcalm, hkeeps⟩ := hflows.calm hsmooth.calm (hsmooth.keeps w hmem)
  refine ⟨{ hcalm with }, fun v hv => ?_, fun c hc => ?_,
    fun c hc => hflows.inHand hi hc (hsmooth.covered c hc), ?_⟩
  · rcases Pool.mem_set hv with rfl | hv
    · exact hkeeps
    · exact hsmooth.keeps v hv
  · obtain ⟨j, hcut⟩ := History.mem_cuts.1 hc
    rcases Pool.mem_record.1 hcut with hold | ⟨e, hevent, hsame⟩
    · exact hsmooth.cuts c (History.mem_cuts.2 ⟨j, hold⟩)
    · cases hsame
      exact hflows.cuts hevent
  · have hsum := sumOver_set Worker.unsent w' hi
    have hmoved := hflows.even i past
    have hbefore := hsmooth.even
    change _ + sumOver Worker.unsent (p.workers.set i w') = _
    omega

theorem Smooth.foldl (hsmooth : job.Smooth writer Ready past p) (htaken : job.Taken writer Ready)
    {actions : List Pool.Action} (hfree : .abort ∉ actions) :
    job.Smooth writer Ready (past ++ p.history actions) (actions.foldl Pool.act p) :=
  Pool.history_induction (P := job.Smooth writer Ready) (fun hsmooth hi => hsmooth.replace htaken
    hi) actions (fun habort => absurd habort hfree) hsmooth

/-- A pool that ends smoothly ends well, and has sent every chunk of the job exactly once. -/
theorem Smooth.perm (hsmooth : job.Smooth writer Ready past p) {settings : Settings}
    {spans : List Span} {start : σ} (hbooks : Pool.Books settings writer spans start past p)
    (hended : ∀ w ∈ p.workers, w = .ended) :
    p.outcome = .ok (p.tokens.map Prod.snd) ∧
      (past.sends.map Chunk.patch).Perm (job.chunks.map Chunk.patch) := by
  have houtcome : p.outcome = .ok (p.tokens.map Prod.snd) := by
    rw [Pool.outcome, hsmooth.calm.unfailed]
  refine ⟨houtcome, ?_⟩
  have honce := hbooks.ledger.nodup_cuts
  have hsent : past.cuts ⊆ past.sends := by
    intro c hc
    obtain ⟨i, hcut⟩ := History.mem_cuts.1 hc
    obtain ⟨token, hsent⟩ := (hbooks.complete hended houtcome).acknowledged i c hcut
    exact History.mem_sends.2 ⟨i, _, hsent⟩
  have hidle : sumOver Worker.unsent p.workers = 0 := Pool.sumOver_of_ended rfl hended
  have heven := hsmooth.even
  -- No chunk is cut twice and as many have been sent as cut, so none has been sent twice either.
  have hsame : past.cuts.Perm past.sends :=
    (List.Nodup.subperm (List.Nodup.of_map _ honce) hsent).perm_of_length_le (by omega)
  refine (hsame.symm.map _).trans ?_
  have hapart : (past.cuts.map Chunk.patch).Nodup := by
    refine List.Nodup.of_map Prod.fst ?_
    rwa [List.map_map]
  have hapart' : (job.chunks.map Chunk.patch).Nodup := by
    refine List.Nodup.of_map Prod.fst ?_
    rw [List.map_map]
    exact List.pairwise_map.2 (job.sorted_chunks.imp Nat.ne_of_lt)
  have hpatch {c d : Chunk} (hoffset : c.offset = d.offset) (hpayload : c.payload = d.payload) :
      c.patch = d.patch := Prod.ext hoffset hpayload
  refine (List.perm_ext_iff_of_nodup hapart hapart').2 fun x => ⟨fun hx => ?_, fun hx => ?_⟩
  · obtain ⟨c, hc, rfl⟩ := List.mem_map.1 hx
    obtain ⟨d, hd, hoffset, hpayload⟩ := hsmooth.cuts c hc
    exact List.mem_map.2 ⟨d, hd, (hpatch hoffset hpayload).symm⟩
  · obtain ⟨d, hd, rfl⟩ := List.mem_map.1 hx
    have hcut : d.offset ∈ past.cuts.map Chunk.offset := by
      rcases hsmooth.covered d hd with hcut | ⟨s, hs, -⟩ | ⟨w, hw, hheld⟩
      · exact hcut
      · rw [hbooks.orderly.queue_nil hended hsmooth.calm.unfailed] at hs
        cases hs
      · rw [hended w hw] at hheld
        cases hheld
    obtain ⟨c, hc, hsame⟩ := List.mem_map.1 hcut
    obtain ⟨d', hd', hoffset, hpayload⟩ := hsmooth.cuts c hc
    obtain rfl := eq_of_offset_eq hd' hd (hoffset.symm.trans hsame)
    exact List.mem_map.2 ⟨c, hc, hpatch hoffset hpayload⟩

end Job

end BlobUpload
