import BlobUpload.Proofs.Pool.Outcomes
import BlobUpload.Proofs.Pool.StopFlag
import BlobUpload.Proofs.Upload.Dispatch

/-! # Uploads by several workers

Whatever the source and the service answer, in whatever order the workers move and whenever somebody
aborts, several workers do everything at most once, and commit only what they have done
completely. -/

namespace BlobUpload.Upload

variable {σ : Type} [Service σ] {u : Upload σ}

omit [Service σ] in
/-- Settings that are accepted for several workers have a writer that writes every chunk alike. -/
theorem steady_of_several (hvalid : u.settings.validate = .ok ())
    (hseveral : u.settings.isParallel = true) : u.settings.writer.Steady := by
  obtain ⟨-, -, -, happend⟩ := Settings.of_validate hvalid
  rw [Settings.writer]
  cases hkind : u.settings.blobType with
  | block => exact Writer.steady_block _
  | page =>
      rw [hseveral]
      exact Writer.steady_page _ _
  | append =>
      have hmany : 1 < u.settings.parallelism := of_decide_eq_true hseveral
      have hone := happend hkind
      omega

/-- A measured source that does not go in one request is sent by several workers. -/
theorem upload_of_several {source source' source'' : Source} {schedule : List Pool.Action}
    {length : Nat} {common : CommonSource} (hidle : u.life.current = .idle)
    (hvalid : u.settings.validate = .ok ()) (hseveral : u.settings.isParallel = true)
    (hmeasured : u.measure source (.seekable schedule) = (.ok (some length), source'))
    (hfits : u.settings.lengthViolation? length = none)
    (hchunked : u.settings.singlePutLength? (some length) = none)
    (hshared : CommonSource.ofSource source' = (.ok common, source'')) :
    u.upload source schedule = settle (((u.enter .splitting).enter .parallel).conclude
      ((Pool.ofSession (u.session (some length)) common length).run schedule).outcome
      ((Pool.ofSession (u.session (some length)) common length).run schedule).common.source
      ((Pool.ofSession (u.session (some length)) common length).run schedule).session) := by
  have hrun : runSeekable schedule source (u.enter .splitting) =
      (u.enter .splitting).runMeasured schedule source' length := by
    have hsame : (u.enter .splitting).settings = u.settings := rfl
    rw [measure] at hmeasured
    rw [runSeekable, hsame]
    cases hknown : u.settings.sourceLength with
    | some n =>
        rw [hknown] at hmeasured
        cases hmeasured
        rfl
    | none =>
        rw [hknown] at hmeasured
        rcases hremaining : source.remaining with ⟨e | n, source''⟩
        · rw [hremaining] at hmeasured
          cases hmeasured
        · rw [hremaining] at hmeasured
          cases hmeasured
          rfl
  have hsame : (u.enter .splitting).settings = u.settings := rfl
  rw [upload, start_of_valid hidle hvalid, hrun, runMeasured, hsame, hfits]
  simp only [hchunked, hseveral, if_true]
  rw [runParallel, hshared]
  rfl

/-- What an upload comes to whose `length` bytes are sent by the workers of `p`. -/
structure ByWorkers (u : Upload σ) (length : Nat) (schedule : List Pool.Action) (p : Pool σ)
    (ending : Ending σ) : Prop where
  once : (p.history (p.actions schedule)).Once u.settings (Span.cover length u.settings.chunkSize)
  /-- The requests for the chunks are all that the workers send. -/
  requests : (p.run schedule).session.service = Service.after u.service
    ((p.history (p.actions schedule)).requests u.settings.writer)
  /-- A pool that ends well has left nothing out. -/
  complete : ∀ tokens, (p.run schedule).outcome = .ok tokens →
    (p.history (p.actions schedule)).Complete (Span.cover length u.settings.chunkSize) tokens
  result : ∀ summary, ending.1 = .ok summary → (p.run schedule).outcome = .ok summary.tokens
  /-- A failure at any time, or an abort that comes in time, makes the pool end badly. -/
  doomed : ∀ front, front <+: p.actions schedule → (front.foldl Pool.act p).Doomed →
    ∃ e, (p.run schedule).outcome = .error e
  /-- After a pool that ends badly nothing is committed: no request follows those of the workers. -/
  failed : ∀ e, (p.run schedule).outcome = .error e → ending.1 = .error e ∧
    ending.2.2.service = (p.run schedule).session.service ∧
    ∀ r ∈ (p.history (p.actions schedule)).requests u.settings.writer, r.method ≠ .putBlockList
  stopped : ∀ front back, p.actions schedule = front ++ back →
    (front.foldl Pool.act p).stop = true → ∀ i w, (front.foldl Pool.act p).workers[i]? = some w →
      Pool.Finishes i w ((front.foldl Pool.act p).history back)

/-- Several workers claim every span, cut every chunk and send it no more often than allowed,
whatever happens. They end well only if all of it is done and acknowledged, and commit nothing if
one of them fails or somebody aborts in time. -/
theorem upload_by_workers {source source' source'' : Source} {schedule : List Pool.Action}
    {length : Nat} {common : CommonSource} (hidle : u.life.current = .idle)
    (hvalid : u.settings.validate = .ok ()) (hseveral : u.settings.isParallel = true)
    (hmeasured : u.measure source (.seekable schedule) = (.ok (some length), source'))
    (hfits : u.settings.lengthViolation? length = none)
    (hchunked : u.settings.singlePutLength? (some length) = none)
    (hshared : CommonSource.ofSource source' = (.ok common, source'')) :
    ByWorkers u length schedule (Pool.ofSession (u.session (some length)) common length)
      (u.upload source schedule) := by
  have hsteady := steady_of_several hvalid hseveral
  have hparallelism : 0 < (u.session (some length)).settings.parallelism := by
    rw [settings_session]
    exact Nat.zero_lt_of_lt (of_decide_eq_true hseveral)
  have hstart := Pool.books_ofSession (u.session (some length)) common length hparallelism
  rw [settings_session, writer_session, service_session] at hstart
  rw [upload_of_several hidle hvalid hseveral hmeasured hfits hchunked hshared]
  generalize Pool.ofSession (u.session (some length)) common length = p at *
  have hshort : ∀ s ∈ Span.cover length u.settings.chunkSize, Pool.Short u.settings s :=
    fun s => Pool.short_of_mem_cover
  have hbooks (actions : List Pool.Action) := hstart.foldl hsteady hshort actions
  simp only [List.nil_append] at hbooks
  have hafter := hbooks (p.actions schedule)
  rw [← Pool.run_eq_foldl] at hafter
  have hended : ∀ w ∈ (p.run schedule).workers, w = .ended := fun w => Pool.ended_of_mem_run
  refine ⟨hafter.ledger.once (List.Nodup.of_map _ (Span.nodup_starts _ _)), hafter.faithful.service,
    fun tokens => hafter.complete hended, fun summary hdone => ?_, fun front hbegins hdoomed => ?_,
    fun e hfailed => ?_, fun front back hsplit hstop i w hi => ?_⟩
  · rw [(settle_eq _).1] at hdone
    cases houtcome : (p.run schedule).outcome with
    | error e => rw [houtcome] at hdone; cases hdone
    | ok tokens =>
        simp only [houtcome, conclude] at hdone
        split at hdone
        · cases hdone
        · cases hdone
          rfl
  · obtain ⟨back, hsplit⟩ := hbegins
    have hruined := hdoomed.foldl (hbooks front).ledger hshort back
    rw [← List.foldl_append, hsplit, ← Pool.run_eq_foldl] at hruined
    cases hfailure : (p.run schedule).failure with
    | none => exact absurd hfailure (Pool.failure_of_doomed hruined hafter.orderly hended)
    | some e => exact ⟨e, by rw [Pool.outcome, hfailure]⟩
  · obtain ⟨hsame, phase, hlater⟩ := settle_eq (((u.enter .splitting).enter .parallel).conclude
      (p.run schedule).outcome (p.run schedule).common.source (p.run schedule).session)
    rw [hsame, hlater, hfailed]
    refine ⟨rfl, rfl, fun r hmem => ?_⟩
    obtain ⟨c, -, rfl⟩ := List.mem_map.1 hmem
    exact Writer.method_request_ne _ c
  · exact (hbooks front).ledger.finishes hshort hstop hi back

/-- Two workers send five bytes to a blob as blocks of two. -/
def abortedUpload : Upload Blob where
  settings := { blobType := .block, chunkSize := 2, parallelism := 2 }
  service := .ofContent [7]

/-- The first worker has claimed a span when somebody aborts, before it has begun with it. -/
theorem abortedUpload_fails :
    ∃ e, (abortedUpload.upload { data := [1, 2, 3, 4, 5] } [.step 0, .step 0, .abort]).1 =
      .error e := by
  have hending : ByWorkers abortedUpload 5 [.step 0, .step 0, .abort]
      (Pool.ofSession (abortedUpload.session (some 5)) _ 5)
      (abortedUpload.upload { data := [1, 2, 3, 4, 5] } [.step 0, .step 0, .abort]) :=
    upload_by_workers rfl rfl rfl rfl rfl rfl rfl
  obtain ⟨e, hfailed⟩ := hending.doomed [.step 0, .step 0, .abort] (List.prefix_append _ _)
    (.inr ⟨rfl, .inr ⟨⟨0, 2⟩, List.mem_cons_self⟩⟩)
  exact ⟨e, (hending.failed e hfailed).1⟩

end BlobUpload.Upload
