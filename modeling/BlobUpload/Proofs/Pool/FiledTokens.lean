import BlobUpload.Proofs.Pool.Runs
import BlobUpload.Proofs.Service.Requests

/-! # Pools in which anything may go wrong

Reads fail, requests fail, somebody aborts. Still the workers of a pool stage nothing but blocks,
and unless one of them fails they leave nothing in the queue and file every chunk they have cut,
once it is acknowledged. -/

namespace BlobUpload

namespace Worker

/-- The chunk that a worker has in its hands. -/
def chunk? : Worker → Option Chunk
  | .sending _ _ c _ | .counting _ _ c _ | .filing _ _ c _ => some c
  | _ => none

/-- The chunk in the hands of a worker and its token, once the chunk is written. -/
def written? : Worker → Option (Chunk × Token)
  | .counting _ _ c token | .filing _ _ c token => some (c, token)
  | _ => none

def hasFailed : Worker → Bool
  | .stopping _ | .reporting _ => true
  | _ => false

end Worker

namespace Pool

variable {σ : Type} [Service σ] {p p' : Pool σ} {w w' : Worker}

/-! ## One step -/

/-- What a worker can do in one step, and what becomes of the pool. -/
inductive Turn (p : Pool σ) : Worker → Worker → Pool σ → Prop
  | leave : p.stop = true → Turn p .starting .ended p
  | proceed : Turn p .starting .claiming p
  | drained : p.queue = [] → Turn p .claiming .ended p
  | claim {s : Span} {queue : List Span} : p.queue = s :: queue →
    Turn p .claiming (.checking s) { p with queue }
  | check {s : Span} {answer : Except UploadError Unit} {session : Session σ} {w' : Worker} :
    p.session.checkAbort s.start = (answer, session) → w'.written? = none → w' ≠ .ended →
    Turn p (.checking s) w' { p with session }
  | read {k : Cutter} {window : Window} {got : Bytes} {common : CommonSource} {w' : Worker} :
    w'.written? = none → w' ≠ .ended → Turn p (.reading k window got) w' { p with common }
  | refused {k : Cutter} {window : Window} {c : Chunk} {sent : Nat} {e : ServiceError} {service : σ}
    {w' : Worker} :
    Service.answer (p.session.writer.request c) p.session.service = (.error e, service) →
    (∃ failure, w' = .stopping failure) ∨ w' = .sending k window c (sent + 1) →
    Turn p (.sending k window c sent) w' { p with session := { p.session with service } }
  | written {k : Cutter} {window : Window} {c : Chunk} {sent : Nat} {service : σ}
    {reply : (p.session.writer.request c).Reply} :
    Service.answer (p.session.writer.request c) p.session.service = (.ok reply, service) →
    Turn p (.sending k window c sent) (.counting k window c (p.session.writer.accept c reply).1)
      { p with session :=
          { p.session with service, writer := (p.session.writer.accept c reply).2 } }
  | count {k : Cutter} {window : Window} {c : Chunk} {token : Token} :
    Turn p (.counting k window c token) (.filing k window c token)
      { p with session := p.session.advance c.length }
  | file {k : Cutter} {window : Window} {c : Chunk} {token : Token} :
    Turn p (.filing k window c token) (.reading k window [])
      { p with tokens := fileToken c.offset token p.tokens }
  | stop {e : UploadError} : Turn p (.stopping e) (.reporting e) { p with stop := true }
  | report {e : UploadError} :
    Turn p (.reporting e) .ended { p with failure := p.failure.or (some e) }
  | rest : Turn p .ended .ended p

/-- What a worker does with the bytes it has read writes nothing yet. -/
theorem written?_afterReading (writer : Writer) (window : Window)
    (answer : Except SourceError Bytes) (k : Cutter) :
    (afterReading writer window answer k).written? = none ∧
      afterReading writer window answer k ≠ .ended := by
  unfold afterReading
  split
  · split <;> exact ⟨rfl, nofun⟩
  all_goals exact ⟨rfl, nofun⟩

theorem turn_stepReading (k : Cutter) (window : Window) (got : Bytes) (p : Pool σ) :
    Turn p (.reading k window got) (stepReading k window got p).1
      (stepReading k window got p).2 := by
  unfold stepReading
  split
  · exact .read rfl nofun
  split
  · obtain ⟨hnone, hlive⟩ := written?_afterReading p.session.writer window (.ok got) k
    exact .read hnone hlive
  split
  rename_i answer window' common heq
  split
  · exact .read rfl nofun
  · obtain ⟨hnone, hlive⟩ := written?_afterReading p.session.writer window' (.ok got) k
    exact .read hnone hlive
  · rename_i e hstopped
    obtain ⟨hnone, hlive⟩ := written?_afterReading p.session.writer window' (.error e) k
    exact .read hnone hlive

theorem turn_stepSending (k : Cutter) (window : Window) (c : Chunk) (sent : Nat) (p : Pool σ) :
    Turn p (.sending k window c sent) (stepSending k window c sent p).1
      (stepSending k window c sent p).2 := by
  rw [stepSending, Writer.write]
  rcases hanswered : Service.answer (p.session.writer.request c) p.session.service with
    ⟨e | reply, service⟩
  · cases e with
    | condition message => exact .refused hanswered (.inl ⟨_, rfl⟩)
    | _ =>
        simp only
        split
        · exact .refused hanswered (.inl ⟨_, rfl⟩)
        · exact .refused hanswered (.inr rfl)
  · exact .written hanswered

theorem turn_stepWorker (w : Worker) (p : Pool σ) :
    Turn p w (stepWorker w p).1 (stepWorker w p).2 := by
  cases w with
  | starting =>
      cases hstopped : p.stop with
      | true => simp only [stepWorker, hstopped, if_true]; exact .leave hstopped
      | false => simp only [stepWorker, hstopped, Bool.false_eq_true, if_false]; exact .proceed
  | claiming =>
      cases hqueue : p.queue with
      | nil => simp only [stepWorker, hqueue]; exact .drained hqueue
      | cons s rest => simp only [stepWorker, hqueue]; exact .claim hqueue
  | checking s =>
      rcases hlooked : p.session.checkAbort s.start with ⟨e | _, session⟩ <;>
        simp only [stepWorker, hlooked] <;> exact .check hlooked rfl fun hended => by cases hended
  | reading k window got => exact turn_stepReading k window got p
  | sending k window c sent => exact turn_stepSending k window c sent p
  | counting k window c token => exact .count
  | filing k window c token => exact .file
  | stopping e => exact .stop
  | reporting e => exact .report
  | ended => exact .rest

/-! ## Failures -/

/-- A worker has failed, whether or not its failure is filed yet. -/
def Failing (p : Pool σ) : Prop := p.failure ≠ none ∨ ∃ w ∈ p.workers, w.hasFailed = true

/-- The pool after a step in which a worker becomes `w`. -/
def replace (i : Nat) (w : Worker) (before after : Pool σ) : Pool σ :=
  { after with workers := before.workers.set i w }

variable {i : Nat}

omit [Service σ] in
theorem mem_replace (hi : p.workers[i]? = some w) : w' ∈ (replace i w' p p').workers :=
  List.mem_of_getElem? (List.getElem?_set_self (List.getElem?_eq_some_iff.1 hi).1)

/-- A failure does not go away. -/
theorem Turn.failing (hturn : Turn p w w' p') (hi : p.workers[i]? = some w)
    (hfailing : p.Failing) : (replace i w' p p').Failing := by
  have hfiled : p.failure ≠ none → p'.failure ≠ none := by
    intro h
    cases hturn with
    | report =>
        cases hfailure : p.failure with
        | none => exact absurd hfailure h
        | some e => simp
    | _ => exact h
  have hheld : w.hasFailed = true → w'.hasFailed = true ∨ p'.failure ≠ none := by
    intro h
    cases hturn with
    | stop => exact .inl rfl
    | report => exact .inr (by cases p.failure <;> simp)
    | _ => cases h
  rcases hfailing with h | h
  · exact .inl (hfiled h)
  · by_cases hnone : p'.failure = none
    · refine .inr (exists_mem_set hi h fun hself => ?_)
      exact (hheld hself).resolve_right fun h => h hnone
    · exact .inl hnone

omit [Service σ] in
theorem failing_replace (hi : p.workers[i]? = some w) (hfailed : w'.hasFailed = true) :
    (replace i w' p p').Failing := .inr ⟨w', mem_replace hi, hfailed⟩

theorem Turn.stopped (hturn : Turn p w w' p') (h : p'.stop = true) :
    p.stop = true ∨ w'.hasFailed = true := by
  cases hturn with
  | stop => exact .inr rfl
  | _ => exact .inl h

theorem Turn.queue_nil (hturn : Turn p w w' p') (h : p.queue = []) : p'.queue = [] := by
  cases hturn with
  | claim hnext => cases h.symm.trans hnext
  | _ => exact h

/-- A worker ends when there is nothing left to do, or because of a failure. -/
theorem Turn.ended (hturn : Turn p w w' p') (hended : w' = .ended) :
    w = .ended ∨ p.queue = [] ∨ p.stop = true ∨ w.hasFailed = true := by
  cases hturn with
  | leave hstopped => exact .inr (.inr (.inl hstopped))
  | drained hnone => exact .inr (.inl hnone)
  | check _ _ hlive => exact absurd hended hlive
  | read _ hlive => exact absurd hended hlive
  | refused _ hnext => rcases hnext with ⟨failure, rfl⟩ | rfl <;> cases hended
  | report => exact .inr (.inr (.inr rfl))
  | rest => exact .inl rfl
  | _ => cases hended

/-- Nobody stops or goes home early, unless a worker has failed. -/
structure Orderly (p : Pool σ) : Prop where
  stopped : p.stop = true → p.Failing
  drained : .ended ∈ p.workers → p.queue = [] ∨ p.Failing
  staffed : p.workers = [] → p.queue = []

omit [Service σ] in
theorem orderly_ofSession {session : Session σ} (common : CommonSource) (length : Nat)
    (hparallelism : 0 < session.settings.parallelism) :
    (ofSession session common length).Orderly where
  stopped := nofun
  drained h := by cases starting_of_mem_ofSession _ h
  staffed := queue_ofSession_nil common length hparallelism

theorem Orderly.replace (horderly : p.Orderly) (hi : p.workers[i]? = some w)
    (hturn : Turn p w w' p') : (replace i w' p p').Orderly := by
  have hmem := List.mem_of_getElem? hi
  refine ⟨fun hstopped => ?_, fun hended => ?_, fun hnone => ?_⟩
  · rcases hturn.stopped hstopped with halready | hfailed
    · exact hturn.failing hi (horderly.stopped halready)
    · exact failing_replace hi hfailed
  · have hbefore : p.queue = [] ∨ p.Failing → p'.queue = [] ∨ (Pool.replace i w' p p').Failing :=
      Or.imp hturn.queue_nil (hturn.failing hi)
    rcases mem_set hended with hended | hended
    · rcases hturn.ended hended.symm with rfl | hnone | hstopped | hfailed
      · exact hbefore (horderly.drained hmem)
      · exact hbefore (.inl hnone)
      · exact hbefore (.inr (horderly.stopped hstopped))
      · exact hbefore (.inr (.inr ⟨w, hmem, hfailed⟩))
    · exact hbefore (horderly.drained hended)
  · rw [Pool.replace, List.set_eq_nil_iff] at hnone
    rw [hnone] at hmem
    cases hmem

omit [Service σ] in
/-- When all workers have gone home, a failure has been filed if there was one. -/
theorem failing_of_ended (hended : ∀ w ∈ p.workers, w = .ended) (hfailing : p.Failing) :
    p.failure ≠ none := by
  refine hfailing.resolve_right ?_
  rintro ⟨w, hw, hfailed⟩
  rw [hended w hw] at hfailed
  cases hfailed

omit [Service σ] in
/-- When all workers have gone home without a failure, nothing is left in the queue. -/
theorem Orderly.queue_nil (horderly : p.Orderly) (hended : ∀ w ∈ p.workers, w = .ended)
    (hunfailed : p.failure = none) : p.queue = [] := by
  cases hstaff : p.workers with
  | nil => exact horderly.staffed hstaff
  | cons w rest =>
      have hmem : w ∈ p.workers := hstaff ▸ List.mem_cons_self
      exact (horderly.drained (hended w hmem ▸ hmem)).resolve_right fun hfailing =>
        failing_of_ended hended hfailing hunfailed

/-! ## What a run preserves -/

variable {e : Envelope} {start : σ} {rs rs' : List Request}

/-- A chunk that the worker has written is acknowledged, and the token is that of its block. -/
def Wrote (e : Envelope) (start : σ) (rs : List Request) (w : Worker) : Prop :=
  ∀ c token, w.written? = some (c, token) →
    token = .block (blockId c.offset) ∧ Acknowledged ((Writer.block e).request c) start rs

theorem Wrote.mono (hwrote : Wrote e start rs w) (hmore : rs <+: rs') : Wrote e start rs' w := by
  intro c token hhad
  obtain ⟨hsame, hacknowledged⟩ := hwrote c token hhad
  exact ⟨hsame, hacknowledged.mono hmore⟩

theorem wrote_of_none (hnone : w.written? = none) : Wrote e start rs w := by
  intro c token hhad
  cases hnone.symm.trans hhad

/-- What holds of a pool between any two steps. -/
structure Filing (e : Envelope) (start : σ) (rs : List Request) (p : Pool σ) : Prop where
  staging : p.session.Staging e start rs
  tokens : ∀ entry ∈ p.tokens, ∃ c : Chunk, entry = (c.offset, .block (blockId c.offset)) ∧
    Acknowledged ((Writer.block e).request c) start rs
  written : ∀ w ∈ p.workers, Wrote e start rs w
  stopped : p.stop = true → p.Failing
  drained : .ended ∈ p.workers → p.queue = [] ∨ p.Failing
  staffed : p.workers = [] → p.queue = []

theorem filing_ofSession {session : Session σ} (common : CommonSource) (length : Nat)
    (hstaging : session.Staging e start rs) (hparallelism : 0 < session.settings.parallelism) :
    Filing e start rs (ofSession session common length) where
  staging := hstaging
  tokens := nofun
  written w hw := by
    rw [starting_of_mem_ofSession w hw]
    exact wrote_of_none rfl
  stopped := (orderly_ofSession common length hparallelism).stopped
  drained := (orderly_ofSession common length hparallelism).drained
  staffed := (orderly_ofSession common length hparallelism).staffed

/-- The chunk is filed, still in the hands of a worker, or given up. -/
def Minded (e : Envelope) (start : σ) (rs : List Request) (c : Chunk) (p : Pool σ) : Prop :=
  (c.offset ∈ p.tokens.map Prod.fst ∧ Acknowledged ((Writer.block e).request c) start rs) ∨
    (∃ w ∈ p.workers, w.chunk? = some c) ∨ p.Failing

/-- The requests that a turn adds, and what its worker has written. -/
theorem Turn.staging (hturn : Turn p w w' p') (hstaging : p.session.Staging e start rs)
    (hwrote : Wrote e start rs w) :
    ∃ rs', rs <+: rs' ∧ p'.session.Staging e start rs' ∧ Wrote e start rs' w' := by
  cases hturn with
  | check hlooked hnone =>
      exact ⟨rs, List.prefix_rfl, hstaging.checkAbort hlooked, wrote_of_none hnone⟩
  | read hnone => exact ⟨rs, List.prefix_rfl, hstaging, wrote_of_none hnone⟩
  | @refused _ _ c _ _ service _ hanswered hnext =>
      have hblock : (p.session.writer.request c).method = .putBlock := by rw [hstaging.writer]; rfl
      refine ⟨_, List.prefix_append _ [p.session.writer.request c],
        hstaging.append ?_ hstaging.writer (by simpa using hblock), wrote_of_none ?_⟩
      · rw [Service.after_singleton, hanswered]
      · rcases hnext with ⟨failure, rfl⟩ | rfl
        · rfl
        · rfl
  | @written _ _ c _ service reply hanswered =>
      obtain ⟨⟨settings, before, writer, watch, reports, abort, total, completed⟩, common, queue,
        tokens, failure, stop, workers⟩ := p
      obtain rfl : writer = .block e := hstaging.writer
      refine ⟨_, List.prefix_append _ [(Writer.block e).request c],
        hstaging.append ?_ rfl (by simp [Writer.request, Request.method]), fun d token h => ?_⟩
      · rw [Service.after_singleton, hanswered]
      · cases h
        have hok : (Service.answer ((Writer.block e).request c) (Service.after start rs)).1 =
            .ok reply := by rw [← hstaging.service, hanswered]
        exact ⟨rfl, .concat hok⟩
  | count => exact ⟨rs, List.prefix_rfl, hstaging.advance _, hwrote⟩
  | _ => exact ⟨rs, List.prefix_rfl, hstaging, wrote_of_none rfl⟩

theorem Turn.tokens (hturn : Turn p w w' p') : ∀ entry ∈ p'.tokens, entry ∈ p.tokens ∨
    ∃ c token, w.written? = some (c, token) ∧ entry = (c.offset, token) := by
  intro entry hmem
  cases hturn with
  | file => exact (mem_fileToken hmem).symm.imp_right fun hsame => ⟨_, _, rfl, hsame⟩
  | _ => exact .inl hmem

theorem Turn.filed (hturn : Turn p w w' p') {offset : Nat} (h : offset ∈ p.tokens.map Prod.fst) :
    offset ∈ p'.tokens.map Prod.fst := by
  cases hturn with
  | file => exact mem_fileToken_of_mem _ h
  | _ => exact h

/-- A worker keeps its chunk until it fails or files the token. -/
theorem Turn.chunk (hturn : Turn p w w' p') {c : Chunk} (hheld : w.chunk? = some c) :
    w'.chunk? = some c ∨ w'.hasFailed = true ∨
      (∃ token, w.written? = some (c, token)) ∧ c.offset ∈ p'.tokens.map Prod.fst := by
  cases hturn with
  | refused _ hnext =>
      rcases hnext with ⟨failure, rfl⟩ | rfl
      · exact .inr (.inl rfl)
      · exact .inl hheld
  | written => exact .inl hheld
  | count => exact .inl hheld
  | file =>
      cases hheld
      exact .inr (.inr ⟨⟨_, rfl⟩, offset_mem_fileToken _ _ _⟩)
  | _ => cases hheld

theorem Filing.replace (hinv : Filing e start rs p) (hi : p.workers[i]? = some w)
    (hturn : Turn p w w' p') : ∃ rs', rs <+: rs' ∧ Filing e start rs' (replace i w' p p') ∧
      ∀ c, Minded e start rs c p → Minded e start rs' c (Pool.replace i w' p p') := by
  have hmem := List.mem_of_getElem? hi
  obtain ⟨rs', hmore, hstaging, hwritten⟩ := hturn.staging hinv.staging (hinv.written w hmem)
  obtain ⟨hstopped, hdrained, hstaffed⟩ :=
    Orderly.replace ⟨hinv.stopped, hinv.drained, hinv.staffed⟩ hi hturn
  refine ⟨rs', hmore, ⟨hstaging, ?_, ?_, hstopped, hdrained, hstaffed⟩, ?_⟩
  · intro entry hentry
    rcases hturn.tokens entry hentry with hold | ⟨c, token, hhad, rfl⟩
    · obtain ⟨c, hsame, hacknowledged⟩ := hinv.tokens entry hold
      exact ⟨c, hsame, hacknowledged.mono hmore⟩
    · obtain ⟨rfl, hacknowledged⟩ := hinv.written w hmem c token hhad
      exact ⟨c, rfl, hacknowledged.mono hmore⟩
  · intro v hv
    rcases mem_set hv with rfl | hv
    · exact hwritten
    · exact (hinv.written v hv).mono hmore
  · intro c hminded
    rcases hminded with ⟨hfiled, hacknowledged⟩ | hheld | hfailing
    · exact .inl ⟨hturn.filed hfiled, hacknowledged.mono hmore⟩
    · by_cases hfailed : w'.hasFailed = true
      · exact .inr (.inr (failing_replace hi hfailed))
      by_cases hfiled : (∃ token, w.written? = some (c, token)) ∧ c.offset ∈ p'.tokens.map Prod.fst
      · obtain ⟨⟨token, hhad⟩, hfiled⟩ := hfiled
        exact .inl ⟨hfiled, (hinv.written w hmem c token hhad).2.mono hmore⟩
      · refine .inr (.inl (exists_mem_set hi hheld fun hself => ?_))
        exact (hturn.chunk hself).resolve_right fun h => h.elim hfailed hfiled
    · exact .inr (.inr (hturn.failing hi hfailing))

/-- One more action may add requests, and leaves no chunk behind. -/
theorem Filing.act (hinv : Filing e start rs p) (action : Action) :
    ∃ rs', rs <+: rs' ∧ Filing e start rs' (p.act action) ∧
      ∀ c, Minded e start rs c p → Minded e start rs' c (p.act action) := by
  cases action with
  | step i =>
      rcases step_cases p i with hstill | ⟨w, hi, hmoved⟩
      · rw [Pool.act, hstill]
        exact ⟨rs, List.prefix_rfl, hinv, fun _ => id⟩
      · rw [Pool.act, hmoved]
        exact hinv.replace hi (turn_stepWorker w p)
  | abort =>
      refine ⟨rs, List.prefix_rfl, { hinv with staging := ?_ }, fun _ => id⟩
      exact ⟨hinv.staging.service, hinv.staging.writer, hinv.staging.blocks⟩

/-- Some worker has the chunk in its hands before, between or after these actions. -/
def Cuts (p : Pool σ) (actions : List Action) (c : Chunk) : Prop :=
  ∃ front, front <+: actions ∧ ∃ w ∈ (front.foldl Pool.act p).workers, w.chunk? = some c

theorem Filing.foldl (hinv : Filing e start rs p) (actions : List Action) :
    ∃ rs', rs <+: rs' ∧ Filing e start rs' (actions.foldl Pool.act p) ∧
      ∀ c, Minded e start rs c p ∨ p.Cuts actions c →
        Minded e start rs' c (actions.foldl Pool.act p) := by
  induction actions generalizing p rs with
  | nil =>
      refine ⟨rs, List.prefix_rfl, hinv, fun c h => ?_⟩
      rcases h with hminded | ⟨front, hnone, hheld⟩
      · exact hminded
      · rw [List.prefix_nil.1 hnone] at hheld
        exact .inr (.inl hheld)
  | cons action actions ih =>
      obtain ⟨rs₁, hmore, hafter, hminds⟩ := hinv.act action
      obtain ⟨rs₂, hmore', hfinal, hminds'⟩ := ih hafter
      refine ⟨rs₂, hmore.trans hmore', hfinal, fun c h => ?_⟩
      rcases h with hminded | ⟨front, hbegins, hheld⟩
      · exact hminds' c (.inl (hminds c hminded))
      · rcases List.prefix_cons_iff.1 hbegins with rfl | ⟨rest, rfl, hbegins'⟩
        · exact hminds' c (.inl (hminds c (.inr (.inl hheld))))
        · exact hminds' c (.inr ⟨rest, hbegins', hheld⟩)

/-- A run in which no worker fails has gone through the whole queue, and every chunk that was cut
has been acknowledged and filed. -/
theorem Filing.run (hinv : Filing e start rs p) (schedule : List Action) :
    ∃ rs', Filing e start rs' (p.run schedule) ∧ ((p.run schedule).failure = none →
      (p.run schedule).queue = [] ∧ ∀ c, p.Cuts (p.actions schedule) c →
        c.offset ∈ (p.run schedule).tokens.map Prod.fst ∧
          Acknowledged ((Writer.block e).request c) start rs') := by
  obtain ⟨rs', -, hafter, hminds⟩ := hinv.foldl (p.actions schedule)
  rw [← run_eq_foldl] at hafter hminds
  refine ⟨rs', hafter, fun hunfailed => ?_⟩
  have hended : ∀ w ∈ (p.run schedule).workers, w = .ended := fun w => ended_of_mem_run
  have hcalm : ¬(p.run schedule).Failing := fun hfailing => failing_of_ended hended hfailing
    hunfailed
  refine ⟨Orderly.queue_nil ⟨hafter.stopped, hafter.drained, hafter.staffed⟩ hended hunfailed,
    fun c hcut => ?_⟩
  rcases hminds c (.inr hcut) with hfiled | ⟨w, hw, hheld⟩ | hfailing
  · exact hfiled
  · rw [hended w hw] at hheld
    cases hheld
  · exact absurd hfailing hcalm

end Pool

end BlobUpload
