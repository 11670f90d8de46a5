import BlobUpload.Proofs.Pool.Completion
import BlobUpload.Proofs.Pool.FiledTokens
import BlobUpload.Proofs.Session.FaultSimulation

/-! # Pools through faults that pass

A pool behind a relay makes the steps that it would make without it, but that a worker whose request
is hit by a fault stays where it is. Faults that pass hit no chunk so often that it is given up. -/

namespace BlobUpload

namespace Pool

/-! ## Another service -/

section

variable {σ τ : Type}

/-- The same pool with another service. -/
def serve (service : τ) (p : Pool σ) : Pool τ :=
  { session := p.session.serve service, common := p.common, queue := p.queue, tokens := p.tokens,
    failure := p.failure, stop := p.stop, workers := p.workers }

/-- The pool without its relay. -/
def unveil (p : Pool (Relay σ)) : Pool σ := p.serve p.session.service.service

theorem unveil_withService (relay : Relay σ) (p : Pool (Relay σ)) :
    ({ p with session := { p.session with service := relay } } : Pool (Relay σ)).unveil =
      { p.unveil with session := { p.unveil.session with service := relay.service } } := rfl

theorem stepReading_serve (service : τ) (k : Cutter) (window : Window) (got : Bytes) (p : Pool σ) :
    stepReading k window got (p.serve service) =
      ((stepReading k window got p).1, (stepReading k window got p).2.serve service) := by
  simp only [stepReading, show (p.serve service).common = p.common from rfl]
  split
  · rfl
  split
  · rfl
  rcases window.read (k.limit - got.length) p.common with ⟨answer, window, common⟩
  cases Verdict.of answer with
  | more bytes => rfl
  | stop failure => cases failure <;> rfl

variable [Service σ] [Service τ]

/-- Only the worker that sends makes use of the service. -/
theorem stepWorker_serve {w : Worker} (hidle : ∀ k window c sent, w ≠ .sending k window c sent)
    (service : τ) (p : Pool σ) :
    stepWorker w (p.serve service) = ((stepWorker w p).1, (stepWorker w p).2.serve service) := by
  cases w with
  | claiming =>
      obtain ⟨session, common, queue, tokens, failure, stop, workers⟩ := p
      cases queue <;> rfl
  | checking span =>
      simp only [stepWorker, show (p.serve service).session = p.session.serve service from rfl,
        Session.serve_checkAbort]
      rcases p.session.checkAbort span.start with ⟨e | _, session⟩ <;> rfl
  | reading k window got => exact stepReading_serve service k window got p
  | sending k window c sent => exact absurd rfl (hidle k window c sent)
  | counting k window c token =>
      simp only [stepWorker, show (p.serve service).session = p.session.serve service from rfl,
        Session.serve_advance]
      rfl
  | _ => rfl

omit [Service τ] in
theorem service_stepWorker {w : Worker} (hidle : ∀ k window c sent, w ≠ .sending k window c sent)
    (p : Pool σ) : (stepWorker w p).2.session.service = p.session.service := by
  have hturn := turn_stepWorker w p
  generalize (stepWorker w p).1 = w' at hturn
  generalize (stepWorker w p).2 = p' at hturn ⊢
  cases hturn with
  | check hlooked => rw [Session.eq_of_checkAbort hlooked]
  | refused => exact absurd rfl (hidle _ _ _ _)
  | written => exact absurd rfl (hidle _ _ _ _)
  | count => exact Session.service_advance _ _
  | _ => rfl

omit [Service τ] in
theorem service_stepSending (k : Cutter) (window : Window) (c : Chunk) (sent : Nat) (p : Pool σ) :
    (stepSending k window c sent p).2.session.service =
      (Service.answer (p.session.writer.request c) p.session.service).2 := by
  have hturn := turn_stepSending k window c sent p
  generalize (stepSending k window c sent p).1 = w' at hturn
  generalize (stepSending k window c sent p).2 = p' at hturn ⊢
  cases hturn with
  | refused hanswered => rw [hanswered]
  | written hanswered => rw [hanswered]

omit [Service τ] in
theorem stepSending_of_written {k : Cutter} {window : Window} {c : Chunk} {sent : Nat} {p : Pool σ}
    {reply : (p.session.writer.request c).Reply} {service : σ}
    (hanswered : Service.answer (p.session.writer.request c) p.session.service =
      (.ok reply, service)) :
    stepSending k window c sent p = (.counting k window c (p.session.writer.accept c reply).1,
      { p with session :=
          { p.session with service, writer := (p.session.writer.accept c reply).2 } }) := by
  rw [stepSending, Writer.write, hanswered]

omit [Service τ] in
/-- A chunk whose request may be sent again stays with its worker as long as there are retries. -/
theorem stepSending_of_retryable {k : Cutter} {window : Window} {c : Chunk} {sent : Nat}
    {p : Pool σ} {e : ServiceError} {service : σ}
    (hanswered : Service.answer (p.session.writer.request c) p.session.service =
      (.error e, service))
    (hagain : e.isRetryable = true) (hmore : sent < p.session.settings.maxRetries) :
    stepSending k window c sent p = (.sending k window c (sent + 1),
      { p with session := { p.session with service } }) := by
  rw [stepSending, Writer.write, hanswered]
  cases e with
  | condition => cases hagain
  | _ => exact if_neg (Nat.not_le.2 hmore)

end

end Pool

namespace Job

variable {job : Job} {start : Relay Blob} {rs : List Request} {p : Pool (Relay Blob)}

/-- The request that stages a chunk. -/
def request (job : Job) (c : Chunk) : Request :=
  .putBlock (blockId c.offset) (job.settings.envelope.body c.payload)

/-- A fault hits the request for a chunk, which may be staged all the same, or the chunk is
staged. -/
theorem answer_request {relay : Relay Blob} (hadmits : relay.service.Admits job.settings.leaseId)
    (c : Chunk) :
    (∃ f, relay.strikes [job.request c] = [(job.request c, f)] ∧
      (Service.answer (job.request c) relay).1 = .error f.error ∧
      ((Service.answer (job.request c) relay).2.service = relay.service ∨
        (Service.answer (job.request c) relay).2.service = relay.service.stage c.block)) ∨
    (Service.answer (job.request c) relay).1 = .ok () ∧
      (Service.answer (job.request c) relay).2.service = relay.service.stage c.block := by
  have hstaged : Service.answer (job.request c) relay.service =
      (.ok (), relay.service.stage c.block) :=
    Blob.answer_putBlock (e := job.settings.envelope) hadmits (blockId c.offset) c.payload
  rcases relay.answer_cases (job.request c) with
    ⟨f, hstruck, hfailed, hpassed⟩ | ⟨-, hsame, hpassed⟩
  · refine .inl ⟨f, hstruck, hfailed, ?_⟩
    rw [hpassed, hstaged]
    split
    · exact .inr rfl
    · exact .inl rfl
  · rw [hstaged] at hsame hpassed
    exact .inr ⟨hsame, hpassed⟩

section

variable {relay : Relay Blob} {k : Cutter} {window : Window} {c : Chunk} {sent : Nat}

theorem progress_dropped (hkept : relay.service = p.session.service.service) :
    job.Progress p.unveil (.sending k window c sent) (.sending k window c (sent + 1))
      (Pool.unveil { p with session := { p.session with service := relay } }) := by
  rw [Pool.unveil_withService relay, hkept]
  exact .dropped

theorem progress_lost (hstaged : relay.service = p.session.service.service.stage c.block) :
    job.Progress p.unveil (.sending k window c sent) (.sending k window c (sent + 1))
      (Pool.unveil { p with session := { p.session with service := relay } }) := by
  rw [Pool.unveil_withService relay, hstaged]
  exact .lost

theorem progress_write (hstaged : relay.service = p.session.service.service.stage c.block) :
    job.Progress p.unveil (.sending k window c sent)
      (.counting k window c (.block (blockId c.offset)))
      (Pool.unveil { p with session := { p.session with service := relay } }) := by
  rw [Pool.unveil_withService relay, hstaged]
  exact .write

end

/-- Without its relay the pool is as it should be, and no chunk has been sent more often than faults
have hit it. -/
structure Weathers (job : Job) (start : Relay Blob) (rs : List Request) (p : Pool (Relay Blob)) :
    Prop where
  unveiled : ∃ blocks, job.Invariant blocks p.unveil
  hits : ∀ k window c sent, .sending k window c sent ∈ p.workers →
    sent ≤ ((start.strikes rs).map Prod.fst).count (job.request c)

theorem Weathers.writer (hweathers : job.Weathers start rs p) :
    p.session.writer = .block job.settings.envelope := by
  obtain ⟨blocks, hinv⟩ := hweathers.unveiled
  exact hinv.sound.writer

theorem Weathers.replace {w w' : Worker} {p' : Pool (Relay Blob)} {i : Nat}
    (hweathers : job.Weathers start rs p) (hi : p.workers[i]? = some w)
    (hprogress : job.Progress p.unveil w w' p'.unveil) (rs' : List Request)
    (hhits : ∀ k window c sent, w' = .sending k window c sent →
      sent ≤ ((start.strikes (rs ++ rs')).map Prod.fst).count (job.request c)) :
    job.Weathers start (rs ++ rs') { p' with workers := p.workers.set i w' } := by
  obtain ⟨blocks, hinv⟩ := hweathers.unveiled
  refine ⟨hinv.replace hi hprogress, fun k window c sent hmem => ?_⟩
  rcases Pool.mem_set hmem with hnew | hold
  · exact hhits k window c sent hnew.symm
  · refine Nat.le_trans (hweathers.hits k window c sent hold) ?_
    rw [Relay.strikes_append, List.map_append, List.count_append]
    exact Nat.le_add_right _ _

/-- A worker that does not send goes on as it would without the relay. -/
theorem Weathers.step_idle {w : Worker} {i : Nat} (hweathers : job.Weathers start rs p)
    (hadmits : job.start.Admits job.settings.leaseId) (hi : p.workers[i]? = some w)
    (hidle : ∀ k window c sent, w ≠ .sending k window c sent) :
    job.Weathers start rs
      { (Pool.stepWorker w p).2 with workers := p.workers.set i (Pool.stepWorker w p).1 } := by
  obtain ⟨blocks, hinv⟩ := hweathers.unveiled
  have hprogress := Pool.progress_stepWorker hinv.sound hadmits
    (hinv.allowed w (List.mem_of_getElem? hi))
  have hsame : Pool.stepWorker w p.unveil =
      ((Pool.stepWorker w p).1, (Pool.stepWorker w p).2.unveil) := by
    rw [Pool.unveil, Pool.unveil, Pool.service_stepWorker hidle, Pool.stepWorker_serve hidle]
  rw [hsame] at hprogress
  have hafter := hweathers.replace hi hprogress [] fun k window c sent hsending => by
    generalize (Pool.stepWorker w p).1 = w' at hprogress hsending
    generalize (Pool.stepWorker w p).2.unveil = p' at hprogress
    subst hsending
    cases hprogress with
    | cut => exact Nat.zero_le _
    | dropped => exact absurd rfl (hidle _ _ _ _)
    | lost => exact absurd rfl (hidle _ _ _ _)
  rwa [List.append_nil] at hafter

/-- A worker that sends has written its chunk, or a fault has hit it, but not too often. -/
theorem Weathers.step_sending {k : Cutter} {window : Window} {c : Chunk} {sent i : Nat}
    (hweathers : job.Weathers start rs p) (hadmits : job.start.Admits job.settings.leaseId)
    (hi : p.workers[i]? = some (.sending k window c sent))
    (hservice : p.session.service = Service.after start rs)
    (hpasses : start.Transient job.settings.maxRetries (rs ++ [job.request c])) :
    job.Weathers start (rs ++ [job.request c])
      { (Pool.stepSending k window c sent p).2 with
        workers := p.workers.set i (Pool.stepSending k window c sent p).1 } := by
  obtain ⟨blocks, hinv⟩ := hweathers.unveiled
  have hhit := hweathers.hits k window c sent (List.mem_of_getElem? hi)
  have hsettings : p.session.settings = job.settings := hinv.sound.settings
  have hlease : p.session.service.service.Admits job.settings.leaseId := by
    rw [show p.session.service.service = _ from hinv.sound.service]
    exact Blob.admits_stageAll hadmits blocks
  obtain ⟨⟨settings', relay, writer, watch, reports, abort, total, completed⟩, common, queue,
    tokens, failure, stop, workers⟩ := p
  obtain rfl : writer = .block job.settings.envelope := hweathers.writer
  obtain rfl : settings' = job.settings := hsettings
  obtain rfl : relay = Service.after start rs := hservice
  rcases answer_request hlease c with ⟨f, hstruck, hfailed, hpassed⟩ | ⟨hdone, hafter⟩
  · have hmet := start.strikes_append rs [job.request c]
    rw [hstruck] at hmet
    have hmem : (job.request c, f) ∈ start.strikes (rs ++ [job.request c]) :=
      hmet ▸ List.mem_append_right _ List.mem_cons_self
    have hoften : ((start.strikes (rs ++ [job.request c])).map Prod.fst).count (job.request c) =
        ((start.strikes rs).map Prod.fst).count (job.request c) + 1 := by
      rw [hmet, List.map_append, List.count_append]
      exact congrArg _ List.count_singleton_self
    have hwithin := hpasses.within (job.request c)
    rw [Pool.stepSending_of_retryable (Prod.ext hfailed rfl) (hpasses.retryable _ hmem)
      (show sent < job.settings.maxRetries by omega)]
    refine hweathers.replace hi ?_ _ fun k window c sent hsame => ?_
    · rcases hpassed with hkept | hstaged
      · exact progress_dropped hkept
      · exact progress_lost hstaged
    · cases hsame
      omega
  · rw [Pool.stepSending_of_written (Prod.ext hdone rfl)]
    exact hweathers.replace hi (progress_write hafter) _ nofun

/-! ## A whole run -/

/-- What a pool has sent since its service was `start`, and what has become of it if all faults have
passed. -/
def Follows (job : Job) (start : Relay Blob) (p : Pool (Relay Blob)) : Prop :=
  ∃ rs, p.session.service = Service.after start rs ∧
    (start.Transient job.settings.maxRetries rs → job.Weathers start rs p)

theorem Follows.step (hfollows : job.Follows start p)
    (hadmits : job.start.Admits job.settings.leaseId) (i : Nat) : job.Follows start (p.step i) := by
  obtain ⟨rs, hservice, hweathers⟩ := hfollows
  rcases Pool.step_cases p i with hstill | ⟨w, hi, hmoved⟩
  · rw [hstill]
    exact ⟨rs, hservice, hweathers⟩
  rw [hmoved]
  by_cases hsends : ∃ k window c sent, w = .sending k window c sent
  · obtain ⟨k, window, c, sent, rfl⟩ := hsends
    refine ⟨rs ++ [p.session.writer.request c], ?_, fun hpasses => ?_⟩
    · rw [Service.after_concat, ← hservice]
      exact Pool.service_stepSending k window c sent p
    · have hbefore := hweathers hpasses.append.1
      have hsame : p.session.writer.request c = job.request c := by rw [hbefore.writer]; rfl
      rw [hsame] at hpasses ⊢
      exact hbefore.step_sending hadmits hi hservice hpasses
  · have hidle : ∀ k window c sent, w ≠ .sending k window c sent :=
      fun k window c sent hsame => hsends ⟨k, window, c, sent, hsame⟩
    refine ⟨rs, ?_, fun hpasses => (hweathers hpasses).step_idle hadmits hi hidle⟩
    rw [← hservice]
    exact Pool.service_stepWorker hidle p

theorem Follows.run (hfollows : job.Follows start p)
    (hadmits : job.start.Admits job.settings.leaseId) {schedule : List Pool.Action}
    (hcalm : .abort ∉ schedule) :
    job.Follows start (p.run schedule) :=
  Pool.run_invariant (P := job.Follows start) (fun _ i hfollows => hfollows.step hadmits i)
    (fun habort => absurd habort hcalm) hfollows

end Job

end BlobUpload
