import BlobUpload.Proofs.Pool.Completion
import BlobUpload.Proofs.Pool.CountedChunks
import BlobUpload.Proofs.Pool.SpanFronts
import BlobUpload.Proofs.Source.Generous

/-! # Pools over a generous source

Reads and requests may fail, and somebody may abort. But a worker that does not fail reads its span
to the end, so every byte of a job is counted, owed by a worker or ahead in the queue, unless a
worker has failed. -/

namespace BlobUpload.Pool

variable {σ : Type} {job : Job} {p p' : Pool σ} {k : Cutter} {window : Window} {got : Bytes}

/-! ## One step -/

/-- What is owed for a span is owed for the chunk that holds all of it. -/
theorem owes_afterReading {s : Span} (hreads : job.Reads s k window got)
    (hwhole : got = job.share s) (writer : Writer) (window' : Window) :
    (afterReading writer window' (.ok got) k).hasFailed = true ∨
      job.owes (afterReading writer window' (.ok got) k) = job.owes (.reading k window got) := by
  have hle : got.length ≤ s.length := Nat.le_trans hreads.got.length_le (List.length_take_le _ _)
  rw [hreads.owes, ← hwhole, hreads.cutter]
  rcases afterReading_cutterFor (short_of_mem_cover hreads.mem) hle writer window' with
    ⟨hnone, hafter⟩ | ⟨-, k', hfinished, hafter⟩
  · rw [hafter, hnone]
    exact .inr rfl
  · rw [hafter]
    split
    · exact .inr rfl
    · exact .inl rfl

theorem eq_of_stop {answer : Except SourceError Bytes} (h : Verdict.of answer = .stop none) :
    answer = .ok [] := by
  match answer with
  | .ok [] => rfl
  | .ok (b :: rest) => cases h
  | .error e =>
      rw [Verdict.of] at h
      split at h <;> cases h

/-- A worker that reads from a generous source stops at the end of its span, or it fails. -/
theorem owes_stepReading (hassigned : job.Assigned p) (hfaces : job.Faces (.reading k window got))
    (hgenerous : p.common.source.Generous) :
    (stepReading k window got p).1.hasFailed = true ∨
      job.owes (stepReading k window got p).1 = job.owes (.reading k window got) := by
  rw [stepReading]
  rcases hfaces with hfinished | ⟨s, hreads⟩
  · rw [if_pos hfinished]
    exact .inr (if_pos hfinished).symm
  have hunfinished : k.finished = false := by rw [hreads.cutter]; rfl
  have hlimit : k.limit = s.length := by
    rw [hreads.cutter, limit_cutterFor (short_of_mem_cover hreads.mem)]
  have hle : (job.share s).length ≤ s.length := List.length_take_le _ _
  rw [if_neg (by simp [hunfinished]), hlimit]
  split
  · rename_i henough
    exact owes_afterReading hreads (hreads.got.eq_of_length_le (Nat.le_trans hle henough)) _ _
  rename_i hshort
  have hall {bytes : Bytes} (hanswered : (window.read (s.length - got.length) p.common).1 =
      .ok bytes) := Window.read_of_generous hgenerous hassigned.data hreads.reflects
    hreads.addressable hanswered
  rcases hread : window.read (s.length - got.length) p.common with ⟨answer, window', common⟩
  rw [hread] at hall
  simp only
  cases hverdict : Verdict.of answer with
  | more bytes => exact .inr rfl
  | stop failure =>
      cases failure with
      | some e => exact .inl rfl
      | none =>
          obtain rfl := eq_of_stop hverdict
          have hnothing := hall rfl
          obtain ⟨tail, hwhole⟩ := hreads.got
          rw [hreads.view, hreads.position, ← hwhole, List.drop_left] at hnothing
          have hnone : tail = [] := by
            rcases List.take_eq_nil_iff.1 hnothing.symm with hzero | hnone
            · omega
            · exact hnone
          exact owes_afterReading hreads (by rw [← hwhole, hnone, List.append_nil]) _ _

theorem generous_stepReading (hgenerous : p.common.source.Generous) :
    (stepReading k window got p).2.common.source.Generous := by
  rw [stepReading]
  split
  · exact hgenerous
  split
  · exact hgenerous
  have hlater := Window.generous_read hgenerous (k.limit - got.length) window
  rcases hread : window.read (k.limit - got.length) p.common with ⟨answer, window', common⟩
  rw [hread] at hlater
  simp only
  split <;> exact hlater

/-- The bytes that are counted, owed by the worker or ahead in the queue. -/
def tally (job : Job) (w : Worker) (p : Pool σ) : Nat :=
  p.session.completed + job.owes w + sumOver (fun s => (job.share s).length) p.queue

variable [Service σ] {w w' : Worker} {event : Option Worker.Event} {i : Nat} {past : History}

theorem generous_stepWorker (hgenerous : p.common.source.Generous) (w : Worker) :
    (stepWorker w p).2.common.source.Generous := by
  have hturn := turn_stepWorker w p
  generalize hmoved : stepWorker w p = after at hturn
  obtain ⟨w', p'⟩ := after
  cases hturn with
  | read => exact hmoved ▸ generous_stepReading hgenerous
  | _ => exact hgenerous

/-- No byte is lost in a step, unless the worker fails or the source keeps some back. -/
theorem Stride.tally (hstride : Stride p w event w' p') (hfaces : job.Faces w)
    (hreading : (∃ k window got, w = .reading k window got) →
      w'.hasFailed = true ∨ job.owes w' = job.owes w) :
    w'.hasFailed = true ∨ p'.tally job w' = p.tally job w := by
  cases hstride with
  | claim hnext =>
      refine .inr ?_
      simp only [tally, Job.owes, hnext, sumOver_cons]
      omega
  | enter hlooked =>
      refine .inr ?_
      rw [Session.eq_of_checkAbort hlooked]
      rfl
  | refuse => exact .inl rfl
  | giveUp => exact .inl rfl
  | fail => exact .inl rfl
  | close => exact (hreading ⟨_, _, _, rfl⟩).imp_right fun hsame => by rw [tally, hsame]; rfl
  | cut => exact (hreading ⟨_, _, _, rfl⟩).imp_right fun hsame => by rw [tally, hsame]; rfl
  | count =>
      refine .inr ?_
      simp only [tally, Job.owes, Session.completed_advance]
      omega
  | file =>
      have hfinished : _ = true := hfaces
      refine .inr ?_
      simp only [tally, Job.owes, hfinished, if_true]
  | _ => exact .inr rfl

/-! ## A whole run -/

/-- Every byte of the job is counted, owed by a worker or in the queue, unless a worker has
failed. -/
structure Thorough (job : Job) (p : Pool σ) : Prop where
  generous : p.common.source.Generous
  ledger : p.Failing ∨ p.session.completed + sumOver job.owes p.workers +
    sumOver (fun s => (job.share s).length) p.queue = job.content.length

theorem Thorough.replace (hthorough : Thorough job p) (hfronts : Fronts job past p)
    (hi : p.workers[i]? = some w)
    (hproper : Proper p.session.settings (Short p.session.settings) w) :
    Thorough job (Pool.replace i (stepWorker w p).1 p (stepWorker w p).2) := by
  have hfaces := hfronts.workers w (List.mem_of_getElem? hi)
  have hstride := stride_stepWorker hproper
  refine ⟨generous_stepWorker hthorough.generous w, ?_⟩
  rcases hthorough.ledger with hfailing | hbefore
  · exact .inl (hstride.turn.failing hi hfailing)
  have hkept : (∃ k window got, w = .reading k window got) →
      (stepWorker w p).1.hasFailed = true ∨ job.owes (stepWorker w p).1 = job.owes w := by
    rintro ⟨k, window, got, rfl⟩
    exact owes_stepReading hfronts.assigned hfaces hthorough.generous
  rcases hstride.tally hfaces hkept with hfailed | hsame
  · exact .inl (failing_replace hi hfailed)
  · have hsum := sumOver_set job.owes (stepWorker w p).1 hi
    refine .inr ?_
    simp only [tally] at hsame
    change (stepWorker w p).2.session.completed +
      sumOver job.owes (p.workers.set i (stepWorker w p).1) + sumOver _ (stepWorker w p).2.queue = _
    omega

theorem Thorough.foldl {settings : Settings} {spans : List Span} (hthorough : Thorough job p)
    (hfronts : Fronts job past p) (hledger : Ledger settings spans past p)
    (hshort : ∀ s ∈ spans, Short settings s) (actions : List Action) :
    Thorough job (actions.foldl act p) := by
  refine (history_induction
    (P := fun past p => Ledger settings spans past p ∧ Fronts job past p ∧ Thorough job p)
    (fun ⟨hledger, hfronts, hthorough⟩ hi => ?_) actions
    (fun _ _ _ ⟨hledger, hfronts, hthorough⟩ => ?_) ⟨hledger, hfronts, hthorough⟩).2.2
  · have hproper := hledger.proper_short hshort _ (List.mem_of_getElem? hi)
    exact ⟨hledger.replace hshort hi (stride_stepWorker hproper), hfronts.replace hi,
      hthorough.replace hfronts hi hproper⟩
  · exact ⟨{ hledger with unchanged := hledger.unchanged },
      ⟨hfronts.assigned.withSession rfl, hfronts.workers, hfronts.cuts⟩,
      { hthorough with }⟩

omit [Service σ] in
theorem thorough_ofSession {session : Session σ} {common : CommonSource}
    (hgenerous : common.source.Generous) (hunsent : session.completed = 0) (length : Nat)
    (start : Blob) :
    Thorough ⟨session.settings, common.source.data, common.origin, length, start⟩
      (ofSession session common length) := by
  refine ⟨hgenerous, .inr ?_⟩
  rw [sumOver_of_starting rfl session common length]
  change session.completed + 0 + _ = _
  rw [hunsent, Nat.zero_add]
  exact Job.sum_length_share _

omit [Service σ] in
/-- A pool that ends well has counted all bytes of its job. -/
theorem Thorough.completed_eq (hthorough : Thorough job p) (horderly : p.Orderly)
    (hended : ∀ w ∈ p.workers, w = .ended) {tokens : List Token} (hdone : p.outcome = .ok tokens) :
    p.session.completed = job.content.length := by
  have hunfailed := unfailed_of_outcome hdone
  rcases hthorough.ledger with hfailing | hall
  · exact absurd hunfailed (failing_of_ended hended hfailing)
  · rwa [sumOver_of_ended rfl hended, horderly.queue_nil hended hunfailed] at hall

/-- In whatever order the workers move, a run over a generous source that ends well has counted all
that it was to send and that was there. -/
theorem completed_run {session : Session σ} {common : CommonSource} {length : Nat}
    {schedule : List Action} {tokens : List Token} (hsteady : session.writer.Steady)
    (hparallelism : 0 < session.settings.parallelism) (hgenerous : common.source.Generous)
    (hfits : common.origin + length < UInt64.size) (hunsent : session.completed = 0)
    (hdone : ((ofSession session common length).run schedule).outcome = .ok tokens) :
    ((ofSession session common length).run schedule).session.completed =
      ((common.source.data.drop common.origin).take length).length := by
  have hshort : ∀ s ∈ Span.cover length session.settings.chunkSize, Short session.settings s :=
    fun s => short_of_mem_cover
  have hstart := books_ofSession session common length hparallelism
  have hbooks := hstart.foldl hsteady hshort ((ofSession session common length).actions schedule)
  have hfronts := fronts_ofSession session common length {} (Job.addressable_of_length hfits)
  have hthorough := (thorough_ofSession hgenerous hunsent length {}).foldl hfronts hstart.ledger
    hshort ((ofSession session common length).actions schedule)
  rw [← run_eq_foldl] at hbooks hthorough
  rw [hthorough.completed_eq hbooks.orderly (fun w => ended_of_mem_run) hdone]
  exact congrArg List.length (Job.content_eq hfits)

end BlobUpload.Pool
