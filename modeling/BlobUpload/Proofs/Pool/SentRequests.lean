import BlobUpload.Proofs.Pool.FiledTokens
import BlobUpload.Proofs.Service.WellFormedness
import BlobUpload.Proofs.Session.ErrorOrigin

/-! # What the workers of a pool send

Whoever moves next, a worker sends only what the writer has accepted, and the tokens that it files
stand for blocks that are staged. So the blob understands all that reaches it, and no worker fails
because of a cipher. -/

namespace BlobUpload

/-- What a worker has in its hands is fit to be sent, or has been written to `b`, and it has not
failed because of a cipher. -/
def Worker.Sound (writer : Writer) (b : Blob) : Worker → Prop
  | .reading k _ _ => k.Fresh
  | .sending k _ c _ => k.Fresh ∧ writer.check c = .ok ()
  | .counting k _ _ token | .filing k _ _ token => k.Fresh ∧ token.Staged b
  | .stopping e | .reporting e => e.isEncoding = false
  | _ => True

namespace Pool

variable {before : List Exchange} {p : Pool (Relay (Relay Blob))} {w : Worker}

/-- What holds between any two steps of a pool. -/
structure Forming (before : List Exchange) (p : Pool (Relay (Relay Blob))) : Prop where
  heard : p.session.service.service.Heard before
  workers : ∀ w ∈ p.workers, w.Sound p.session.writer p.session.service.service.service
  tokens : ∀ entry ∈ p.tokens, entry.2.Staged p.session.service.service.service
  failure : ∀ e, p.failure = some e → e.isEncoding = false

theorem forming_ofSession {session : Session (Relay (Relay Blob))}
    (hheard : session.service.service.Heard before) (common : CommonSource) (length : Nat) :
    Forming before (ofSession session common length) where
  heard := hheard
  workers w hw := by
    rw [starting_of_mem_ofSession w hw]
    trivial
  tokens := nofun
  failure := nofun

/-- A step of a worker that becomes `w'` leaves the pool like this. -/
structure Formed (before : List Exchange) (p : Pool (Relay (Relay Blob))) (w' : Worker)
    (p' : Pool (Relay (Relay Blob))) : Prop where
  onward : Relay.Onward before p.session.service p'.session.service
  check : ∀ c, p'.session.writer.check c = p.session.writer.check c
  sound : w'.Sound p'.session.writer p'.session.service.service.service
  tokens : ∀ entry ∈ p'.tokens, entry ∈ p.tokens ∨
    entry.2.Staged p'.session.service.service.service
  failure : ∀ e, p'.failure = some e → p.failure = some e ∨ e.isEncoding = false

/-- A step that sends nothing and files nothing. -/
theorem formed_of_same {p' : Pool (Relay (Relay Blob))} {w' : Worker}
    (hheard : p.session.service.service.Heard before)
    (hservice : p'.session.service = p.session.service)
    (hwriter : p'.session.writer = p.session.writer) (htokens : p'.tokens = p.tokens)
    (hfailure : p'.failure = p.failure)
    (hsound : w'.Sound p.session.writer p.session.service.service.service) :
    Formed before p w' p' where
  onward := by rw [hservice]; exact hheard.onward
  check c := by rw [hwriter]
  sound := by rwa [hwriter, hservice]
  tokens entry hmem := .inl (htokens ▸ hmem)
  failure e hsame := .inl (hfailure ▸ hsame)

theorem sound_afterReading (writer : Writer) (b : Blob) (window : Window)
    (answer : Except SourceError Bytes) {k : Cutter} (hfresh : k.Fresh)
    (hunfinished : k.finished = false) : (afterReading writer window answer k).Sound writer b := by
  obtain ⟨hfresh', hfails⟩ := Cutter.fresh_absorb hfresh hunfinished answer
  rw [afterReading]
  rcases hstep : k.absorb answer with ⟨cut, k'⟩
  rw [hstep] at hfresh' hfails
  cases cut with
  | chunk c =>
      cases hchecked : writer.check c with
      | ok _ =>
          simp only [hchecked]
          exact ⟨hfresh', hchecked⟩
      | error e =>
          simp only [hchecked]
          exact Writer.isEncoding_of_check hchecked
  | failed e =>
      obtain ⟨cause, rfl⟩ := hfails e rfl
      exact rfl
  | more => exact hfresh'
  | done => exact trivial

theorem formed_stepReading (hheard : p.session.service.service.Heard before) {k : Cutter}
    (hfresh : k.Fresh) (window : Window) (got : Bytes) :
    Formed before p (stepReading k window got p).1 (stepReading k window got p).2 := by
  rw [stepReading]
  by_cases hfinished : k.finished = true
  · rw [if_pos hfinished]
    exact formed_of_same hheard rfl rfl rfl rfl trivial
  rw [if_neg hfinished]
  have hunfinished : k.finished = false := by simpa using hfinished
  have hsound (window : Window) (answer : Except SourceError Bytes) :=
    sound_afterReading p.session.writer p.session.service.service.service window answer hfresh
      hunfinished
  split
  · exact formed_of_same hheard rfl rfl rfl rfl (hsound window (.ok got))
  split
  rename_i answer window' common hread
  cases hverdict : Verdict.of answer with
  | more bytes => exact formed_of_same hheard rfl rfl rfl rfl hfresh
  | stop failure =>
      cases failure with
      | none => exact formed_of_same hheard rfl rfl rfl rfl (hsound window' (.ok got))
      | some e => exact formed_of_same hheard rfl rfl rfl rfl (hsound window' (.error e))

/-- A request for a chunk that the writer accepts. -/
theorem formed_stepSending (hheard : p.session.service.service.Heard before) {k : Cutter}
    {window : Window} {c : Chunk} {sent : Nat}
    (hsound : (Worker.sending k window c sent).Sound p.session.writer
      p.session.service.service.service) :
    Formed before p (stepSending k window c sent p).1 (stepSending k window c sent p).2 := by
  obtain ⟨hfresh, hchecked⟩ := hsound
  have honward := hheard.step (Writer.understands_request hchecked _)
    (p.session.writer.commits_request c)
  have hfailed {w' : Worker} {service : Relay (Relay Blob)} {e : ServiceError}
      (hanswered : Service.answer (p.session.writer.request c) p.session.service =
        (.error e, service))
      (hsound : w'.Sound p.session.writer service.service.service) :
      Formed before p w' { p with session := { p.session with service } } := by
    rw [hanswered] at honward
    exact ⟨honward, fun _ => rfl, hsound, fun entry => .inl, fun e => .inl⟩
  rw [stepSending, Writer.write]
  rcases hanswered : Service.answer (p.session.writer.request c) p.session.service with
    ⟨e | reply, service⟩
  · cases e with
    | condition message => exact hfailed hanswered rfl
    | _ =>
        simp only
        split
        · exact hfailed hanswered rfl
        · exact hfailed hanswered ⟨hfresh, hchecked⟩
  · rw [hanswered] at honward
    exact ⟨honward, p.session.writer.check_accept c reply,
      ⟨hfresh, Writer.staged_accept hheard hanswered⟩, fun entry => .inl, fun e => .inl⟩

theorem formed_stepWorker (hforming : Forming before p)
    (hsound : w.Sound p.session.writer p.session.service.service.service) :
    Formed before p (stepWorker w p).1 (stepWorker w p).2 := by
  obtain ⟨hheard, -, htokens, hfailure⟩ := hforming
  cases w with
  | starting =>
      simp only [stepWorker]
      exact formed_of_same hheard rfl rfl rfl rfl (by split <;> trivial)
  | claiming =>
      simp only [stepWorker]
      split <;> exact formed_of_same hheard rfl rfl rfl rfl trivial
  | checking s =>
      simp only [stepWorker]
      cases hlooked : (p.session.checkAbort s.start).1 with
      | ok _ =>
          exact formed_of_same hheard rfl rfl rfl rfl (Cutter.fresh_of_plain rfl)
      | error e =>
          exact formed_of_same hheard rfl rfl rfl rfl (Session.isEncoding_of_checkAbort hlooked)
  | reading k window got => exact formed_stepReading hheard hsound window got
  | sending k window c sent => exact formed_stepSending hheard hsound
  | counting k window c token =>
      exact formed_of_same hheard (Session.service_advance _ _) (Session.writer_advance _ _) rfl rfl
        hsound
  | filing k window c token =>
      refine ⟨hheard.onward, fun _ => rfl, hsound.1, fun entry hmem => ?_, fun e => .inl⟩
      rcases mem_fileToken hmem with rfl | hold
      · exact .inr hsound.2
      · exact .inl hold
  | stopping e => exact formed_of_same hheard rfl rfl rfl rfl hsound
  | reporting e =>
      refine ⟨hheard.onward, fun _ => rfl, trivial, fun entry => .inl, fun e' hsame => ?_⟩
      rcases Option.or_eq_some_iff.1 hsame with hold | ⟨-, hnew⟩
      · exact .inl hold
      · cases hnew
        exact .inr hsound
  | ended => exact formed_of_same hheard rfl rfl rfl rfl trivial

end Pool

/-- What other workers do takes nothing away from what a worker has in its hands. -/
theorem Worker.Sound.onward {before : List Exchange} {far far' : Relay (Relay Blob)}
    {writer writer' : Writer} {w : Worker} (hsound : w.Sound writer far.service.service)
    (honward : Relay.Onward before far far') (hcheck : ∀ c, writer'.check c = writer.check c) :
    w.Sound writer' far'.service.service := by
  cases w with
  | sending k window c sent => exact ⟨hsound.1, (hcheck c).trans hsound.2⟩
  | counting k window c token => exact ⟨hsound.1, hsound.2.onward honward⟩
  | filing k window c token => exact ⟨hsound.1, hsound.2.onward honward⟩
  | reading => exact hsound
  | stopping => exact hsound
  | reporting => exact hsound
  | _ => trivial

namespace Pool

variable {before : List Exchange} {p : Pool (Relay (Relay Blob))}

theorem Forming.step (hforming : Forming before p) (i : Nat) : Forming before (p.step i) := by
  rcases step_cases p i with hstill | ⟨w, hi, hmoved⟩
  · rwa [hstill]
  · obtain ⟨honward, hcheck, hsound, htokens, hfailure⟩ :=
      formed_stepWorker hforming (hforming.workers w (List.mem_of_getElem? hi))
    rw [hmoved]
    refine ⟨honward.heard, fun v hv => ?_, fun entry hmem => ?_, fun e hsame => ?_⟩
    · rcases mem_set hv with rfl | hv
      · exact hsound
      · exact (hforming.workers v hv).onward honward hcheck
    · rcases htokens entry hmem with hold | hnew
      · exact (hforming.tokens entry hold).onward honward
      · exact hnew
    · exact (hfailure e hsame).elim (hforming.failure e) id

theorem Forming.run (hforming : Forming before p) (schedule : List Action) :
    Forming before (p.run schedule) :=
  run_invariant (fun _ i hforming => hforming.step i)
    (fun _ _ ⟨hheard, hworkers, htokens, hfailure⟩ => ⟨hheard, hworkers, htokens, hfailure⟩)
    hforming

end Pool

end BlobUpload
