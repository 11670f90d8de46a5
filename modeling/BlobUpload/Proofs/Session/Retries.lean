import BlobUpload.Proofs.Pool.FaultTolerance
import Mathlib.Order.Bounds.Basic

/-! # A chunk is sent until an answer is final

An oracle lays its answers down in advance and remembers what it was asked. A chunk is sent to it by
the same request again and again, up to the first answer that is final or until no retries are left,
and only a reply changes the writer and the progress. A worker of a pool, which asks the writer
before every attempt, ends up with the same as a session. Main statement: `send_retries`. -/

namespace BlobUpload

/-- A service whose answers are laid down by number. -/
structure Oracle where
  answers : Nat → (r : Request) → Except ServiceError r.Reply
  /-- All requests so far, oldest first. -/
  requests : List Request := []

namespace Oracle

def answer (r : Request) (o : Oracle) : Except ServiceError r.Reply × Oracle :=
  (o.answers o.requests.length r, { o with requests := o.requests ++ [r] })

instance : Service Oracle := ⟨answer⟩

/-- The answer to a request before which `i` more are sent. -/
def coming (o : Oracle) (r : Request) (i : Nat) : Except ServiceError r.Reply :=
  o.answers (o.requests.length + i) r

/-- The oracle after a request that is sent `n` times. -/
def asked (n : Nat) (r : Request) (o : Oracle) : Oracle :=
  { o with requests := o.requests ++ List.replicate n r }

theorem answer_eq (r : Request) (o : Oracle) :
    Service.answer r o = (o.coming r 0, o.asked 1 r) := rfl

theorem coming_asked (n : Nat) (r : Request) (o : Oracle) (i : Nat) :
    (o.asked n r).coming r i = o.coming r (n + i) := by
  rw [coming, coming, asked, List.length_append, List.length_replicate, Nat.add_assoc]

theorem asked_asked (m n : Nat) (r : Request) (o : Oracle) :
    (o.asked m r).asked n r = o.asked (m + n) r := by
  rw [asked, asked, asked, List.append_assoc, List.replicate_append_replicate]

end Oracle

/-- An answer after which a request is not sent again: a reply, or a condition that does not
hold. -/
def IsFinal {α : Type} : Except ServiceError α → Prop
  | .ok _ | .error (.condition _) => True
  | .error _ => False

/-- What an upload makes of the error that the last of so many attempts ends with. -/
def UploadError.ofAttempts (offset attempts : Nat) : ServiceError → UploadError
  | .condition message => .condition offset message
  | cause => .retriesExhausted offset attempts cause

/-- The number of the last attempt: the first one that is final, or the last retry. -/
abbrev IsLast (retries : Nat) (final : Nat → Prop) (last : Nat) : Prop :=
  IsLeast {i | i = retries ∨ final i} last

theorem isLast_zero {retries : Nat} {final : Nat → Prop} (hstop : retries = 0 ∨ final 0) :
    IsLast retries final 0 := by
  refine ⟨?_, fun _ _ => Nat.zero_le _⟩
  rcases hstop with rfl | hfirst
  · exact .inl rfl
  · exact .inr hfirst

theorem isLast_succ {retries last : Nat} {final : Nat → Prop} (hagain : ¬final 0)
    (h : IsLast retries (fun i => final (i + 1)) last) : IsLast (retries + 1) final (last + 1) := by
  obtain ⟨hhead, hleast⟩ := h
  refine ⟨?_, fun i hmem => ?_⟩
  · rcases hhead with rfl | hfirst
    · exact .inl rfl
    · exact .inr hfirst
  · cases i with
    | zero =>
        rcases hmem with hout | hfirst
        · cases hout
        · exact absurd hfirst hagain
    | succ i =>
        refine Nat.succ_le_succ (hleast ?_)
        rcases hmem with hout | hfirst
        · exact .inl (Nat.succ.inj hout)
        · exact .inr hfirst

/-- Each attempt is made by the same request, and the answer to the last one counts. -/
theorem deliver_oracle (offset : Nat) (r : Request) (retries sent : Nat) (o : Oracle) :
    ∃ last, IsLast retries (fun i => IsFinal (o.coming r i)) last ∧
      deliver offset r retries sent o =
        ((o.coming r last).mapError (.ofAttempts offset (sent + last + 1)),
          o.asked (last + 1) r) := by
  induction retries generalizing sent o with
  | zero =>
      refine ⟨0, isLast_zero (.inl rfl), ?_⟩
      rw [deliver, Oracle.answer_eq]
      rcases o.coming r 0 with ⟨_ | _ | _⟩ | reply <;> rfl
  | succ retries ih =>
      rw [deliver, Oracle.answer_eq]
      by_cases hfinal : IsFinal (o.coming r 0)
      · refine ⟨0, isLast_zero (.inr hfinal), ?_⟩
        generalize o.coming r 0 = answer at hfinal ⊢
        cases answer with
        | ok reply => rfl
        | error e =>
            cases e with
            | condition message => rfl
            | _ => exact hfinal.elim
      · obtain ⟨last, hisLast, hdelivered⟩ := ih (sent + 1) (o.asked 1 r)
        simp only [Oracle.coming_asked, Nat.add_comm 1] at hisLast
        rw [Oracle.coming_asked, Oracle.asked_asked, Nat.add_comm 1 last,
          Nat.add_comm 1 (last + 1), Nat.add_right_comm sent 1 last] at hdelivered
        refine ⟨last + 1, isLast_succ hfinal hisLast, ?_⟩
        generalize o.coming r 0 = answer at hfinal
        cases answer with
        | ok reply => exact absurd trivial hfinal
        | error e =>
            cases e with
            | condition message => exact absurd trivial hfinal
            | _ => exact hdelivered

/-! ## A worker that is left alone -/

namespace Pool

variable {σ : Type} [Service σ] {p : Pool σ} {i : Nat} {k : Cutter} {window : Window} {c : Chunk}
  {sent retries : Nat}

/-- The pool after a step that changes one worker and the session. -/
def moved (i : Nat) (w : Worker) (session : Session σ) (p : Pool σ) : Pool σ :=
  replace i w p { p with session }

/-- What a worker does after its chunk was sent. -/
def afterSending (k : Cutter) (window : Window) (c : Chunk) : Except UploadError Token → Worker
  | .ok token => .filing k window c token
  | .error e => .stopping e

omit [Service σ] in
theorem worker_moved {w w' : Worker} (hworker : p.workers[i]? = some w) (session : Session σ) :
    (p.moved i w' session).workers[i]? = some w' :=
  List.getElem?_set_self (List.getElem?_eq_some_iff.1 hworker).1

omit [Service σ] in
theorem moved_moved (w w' : Worker) (session session' : Session σ) :
    (p.moved i w session).moved i w' session' = p.moved i w' session' := by
  simp only [moved, replace, List.set_set]

theorem step_of_sending {w : Worker} {session : Session σ}
    (hworker : p.workers[i]? = some (.sending k window c sent))
    (hmoves : stepSending k window c sent p = (w, { p with session })) :
    p.step i = p.moved i w session := by
  rw [step, hworker]
  simp only [stepWorker, hmoves]
  rfl

theorem step_of_counting {token : Token}
    (hworker : p.workers[i]? = some (.counting k window c token)) :
    p.step i = p.moved i (.filing k window c token) (p.session.advance c.length) := by
  rw [step, hworker]
  rfl

theorem stepSending_of_condition {message : String} {service : σ}
    (hanswered : Service.answer (p.session.writer.request c) p.session.service =
      (.error (.condition message), service)) :
    stepSending k window c sent p = (.stopping (.condition c.offset message),
      { p with session := { p.session with service } }) := by
  rw [stepSending, Writer.write, hanswered]

theorem stepSending_of_exhausted {e : ServiceError} {service : σ}
    (hanswered : Service.answer (p.session.writer.request c) p.session.service =
      (.error e, service))
    (hagain : e.isRetryable = true) (hspent : p.session.settings.maxRetries ≤ sent) :
    stepSending k window c sent p =
      (.stopping (.retriesExhausted c.offset (sent + 1) e),
        { p with session := { p.session with service } }) := by
  rw [stepSending, Writer.write, hanswered]
  cases e with
  | condition => cases hagain
  | _ => exact if_pos hspent

/-- A worker whose steps nobody comes between asks the writer anew for every attempt, and makes the
attempts of one delivery. -/
theorem left_alone (s : Session σ) (service : σ)
    (hworker : p.workers[i]? = some (.sending k window c sent))
    (hleft : sent + retries = s.settings.maxRetries) :
    ∃ steps, (step i)^[steps] { p with session := { s with service } } =
      match deliver c.offset (s.writer.request c) retries sent service with
      | (.ok reply, service) =>
        p.moved i (.filing k window c (s.writer.accept c reply).1)
          ({ s with service, writer := (s.writer.accept c reply).2 }.advance c.length)
      | (.error e, service) => p.moved i (.stopping e) { s with service } := by
  fun_induction deliver c.offset (s.writer.request c) retries sent service generalizing p with
  | case1 retries sent service reply service' hanswered =>
      have hmoves : step i { p with session := { s with service } } =
          p.moved i (.counting k window c (s.writer.accept c reply).1)
            { s with service := service', writer := (s.writer.accept c reply).2 } :=
        step_of_sending (p := { p with session := { s with service } }) hworker
          (stepSending_of_written hanswered)
      refine ⟨2, ?_⟩
      rw [Function.iterate_succ_apply, Function.iterate_one, hmoves,
        step_of_counting (worker_moved hworker _), moved_moved]
      rfl
  | case2 retries sent service message service' hanswered =>
      exact ⟨1, step_of_sending (p := { p with session := { s with service } }) hworker
        (stepSending_of_condition hanswered)⟩
  | case3 sent service cause service' hfinal hanswered =>
      exact ⟨1, step_of_sending (p := { p with session := { s with service } }) hworker
        (stepSending_of_exhausted hanswered (isRetryable_of_ne_condition hfinal) hleft.ge)⟩
  | case4 sent service cause service' hfinal hanswered retries ih =>
      have hmoves : step i { p with session := { s with service } } =
          p.moved i (.sending k window c (sent + 1)) { s with service := service' } :=
        step_of_sending (p := { p with session := { s with service } }) hworker
          (stepSending_of_retryable hanswered (isRetryable_of_ne_condition hfinal)
            (show sent < s.settings.maxRetries by omega))
      obtain ⟨steps, hafter⟩ := ih (worker_moved hworker { s with service := service' }) (by omega)
      refine ⟨steps + 1, ?_⟩
      rw [Function.iterate_succ_apply, hmoves]
      refine Eq.trans hafter ?_
      rcases deliver c.offset (s.writer.request c) retries (sent + 1) service' with ⟨e | reply, t⟩
      · exact moved_moved _ _ _ _
      · exact moved_moved _ _ _ _

/-- A worker that is left alone with a chunk that fits does what the session does. -/
theorem left_alone_send (hworker : p.workers[i]? = some (.sending k window c 0))
    (hfit : p.session.writer.check c = .ok ()) :
    ∃ steps, (step i)^[steps] p =
      p.moved i (afterSending k window c (p.session.send c).1) (p.session.send c).2 := by
  obtain ⟨steps, hafter⟩ := left_alone p.session p.session.service hworker (Nat.zero_add _)
  refine ⟨steps, Eq.trans hafter ?_⟩
  rcases hdelivered : deliver c.offset (p.session.writer.request c) p.session.settings.maxRetries 0
    p.session.service with ⟨e | reply, t⟩
  · rw [Session.send_of_failed hfit hdelivered]
    rfl
  · rw [Session.send_of_delivered hfit hdelivered]
    rfl

end Pool

/-! ## One chunk -/

/-- What comes of a chunk: `last` is the number of the attempt whose answer counts. -/
structure Retried (c : Chunk) (s : Session Oracle) (last : Nat)
    (outcome : Except UploadError Token) (t : Session Oracle) : Prop where
  isLast : IsLast s.settings.maxRetries
    (fun i => IsFinal (s.service.coming (s.writer.request c) i)) last
  requests : t.service.requests =
    s.service.requests ++ List.replicate (last + 1) (s.writer.request c)
  /-- Only a reply changes the writer, and counts the payload once. -/
  written : ∀ reply, s.service.coming (s.writer.request c) last = .ok reply →
    outcome = .ok (s.writer.accept c reply).1 ∧ t.completed = s.completed + c.payload.length ∧
      t = { s with
        service := t.service, writer := (s.writer.accept c reply).2 }.advance c.payload.length
  condition : ∀ message,
    s.service.coming (s.writer.request c) last = .error (.condition message) →
      outcome = .error (.condition c.offset message) ∧ t = { s with service := t.service }
  exhausted : ∀ cause, cause.isRetryable = true →
    s.service.coming (s.writer.request c) last = .error cause →
      outcome = .error (.retriesExhausted c.offset (last + 1) cause) ∧
        t = { s with service := t.service }

/-- A chunk that fits is sent by one and the same request up to the first final answer, or until no
retries are left, and that answer decides what comes of it. A worker of a pool that is left alone
makes the same of it. -/
theorem send_retries {c : Chunk} {s : Session Oracle} (hfit : s.writer.check c = .ok ()) :
    (∃ last, Retried c s last (s.send c).1 (s.send c).2) ∧
      ∀ {p : Pool Oracle} {i : Nat} {k : Cutter} {window : Window}, p.session = s →
        p.workers[i]? = some (.sending k window c 0) → ∃ steps, (Pool.step i)^[steps] p =
          p.moved i (Pool.afterSending k window c (s.send c).1) (s.send c).2 := by
  constructor
  · obtain ⟨last, hisLast, hdelivered⟩ := deliver_oracle c.offset (s.writer.request c)
      s.settings.maxRetries 0 s.service
    rw [Nat.zero_add] at hdelivered
    refine ⟨last, ?_⟩
    cases hanswer : s.service.coming (s.writer.request c) last with
    | error e =>
        rw [hanswer] at hdelivered
        rw [Session.send_of_failed hfit hdelivered]
        refine ⟨hisLast, rfl, fun reply hsame => ?_, fun message hsame => ?_,
          fun cause hagain hsame => ?_⟩
        · cases hanswer.symm.trans hsame
        · cases hanswer.symm.trans hsame
          exact ⟨rfl, rfl⟩
        · cases hanswer.symm.trans hsame
          refine ⟨?_, rfl⟩
          cases e with
          | condition => cases hagain
          | _ => rfl
    | ok reply =>
        rw [hanswer] at hdelivered
        rw [Session.send_of_delivered hfit hdelivered]
        refine ⟨hisLast, ?_, fun reply' hsame => ?_, fun message hsame => ?_,
          fun cause hagain hsame => ?_⟩
        · rw [Session.service_advance]
          rfl
        · cases hanswer.symm.trans hsame
          refine ⟨rfl, Session.completed_advance _ _, ?_⟩
          rw [Session.service_advance]
          rfl
        · cases hanswer.symm.trans hsame
        · cases hanswer.symm.trans hsame
  · rintro p i k window rfl hworker
    exact Pool.left_alone_send hworker hfit

/-- Turns two appends away and takes the others, behind eight bytes. -/
def busyOracle : Oracle where
  answers
    | 0, _ => .error (.service 503 "busy")
    | 1, _ => .error (.transport "closed")
    | _, .appendBlock .. => .ok ⟨8, etagOf 1⟩
    | _, _ => .error (.service 400 "not an append")

/-- Three bytes that go behind eight, and may be sent three times. -/
def busySession : Session Oracle where
  settings := { blobType := .append, maxRetries := 2 }
  service := busyOracle
  writer := .append {} (some 11) (some 8)
  watch := none
  reports := []
  abort := {}
  total := none

/-- A worker holds the three bytes. -/
def busyPool : Pool Oracle where
  session := busySession
  common := { source := { data := [1, 2, 3] }, origin := 0 }
  queue := []
  workers := [.sending (Cutter.ofSize 4) ⟨0, 3, 4, [], 0, 3⟩ ⟨0, [1, 2, 3], true⟩ 0]

theorem send_retries_busy :
    (∃ last t, Retried ⟨0, [1, 2, 3], true⟩ busySession last (.ok (.append 11)) t ∧
      t.service.requests.length = 3 ∧ t.completed = 3) ∧
    ∃ steps, ((Pool.step 0)^[steps] busyPool).workers =
      [.filing (Cutter.ofSize 4) ⟨0, 3, 4, [], 0, 3⟩ ⟨0, [1, 2, 3], true⟩ (.append 11)] := by
  obtain ⟨⟨last, hretried⟩, halone⟩ :=
    send_retries (c := ⟨0, [1, 2, 3], true⟩) (s := busySession) rfl
  obtain ⟨steps, hafter⟩ := halone (p := busyPool) (i := 0) rfl rfl
  refine ⟨⟨last, _, hretried, rfl, rfl⟩, steps, ?_⟩
  rw [hafter]
  rfl

end BlobUpload
