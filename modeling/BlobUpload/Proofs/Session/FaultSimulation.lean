import BlobUpload.Proofs.Session.TransientFaults

/-! # A session through faults and the same session without any

Two sessions mirror each other if they differ in their services only, of which one is behind a
relay, and no request can tell the two blobs apart. What is sent in one through faults that pass and
in the other without any leaves them so. -/

namespace BlobUpload

namespace Session

variable {σ τ : Type}

/-- The same session with another service. -/
def serve (service : τ) (s : Session σ) : Session τ :=
  { settings := s.settings, service, writer := s.writer, watch := s.watch, reports := s.reports,
    abort := s.abort, total := s.total, completed := s.completed }

theorem serve_report (service : τ) (s : Session σ) :
    (s.serve service).report = s.report.serve service := by
  obtain ⟨settings, old, writer, watch, reports, abort, total, completed⟩ := s
  cases watch <;> rfl

theorem serve_advance (service : τ) (n : Nat) (s : Session σ) :
    (s.serve service).advance n = (s.advance n).serve service :=
  serve_report service { s with completed := s.completed + n }

theorem serve_checkAbort (service : τ) (offset : Nat) (s : Session σ) :
    (s.serve service).checkAbort offset =
      ((s.checkAbort offset).1, (s.checkAbort offset).2.serve service) := rfl

/-- The second session is the first without its relay, as far as requests can tell. -/
inductive Mirrors (s : Session (Relay Blob)) : Session Blob → Prop
  | intro {b : Blob} : s.service.service.Alike b → Mirrors s (s.serve b)

theorem Mirrors.advance {s : Session (Relay Blob)} {t : Session Blob} (hmirrors : s.Mirrors t)
    (n : Nat) : (s.advance n).Mirrors (t.advance n) := by
  obtain ⟨halike⟩ := hmirrors
  rw [serve_advance]
  refine .intro ?_
  rwa [service_advance]

theorem Mirrors.checkAbort {s s' : Session (Relay Blob)} {t : Session Blob} {offset : Nat}
    {answer : Except UploadError Unit} (hmirrors : s.Mirrors t)
    (hlooked : s.checkAbort offset = (answer, s')) :
    ∃ t', t.checkAbort offset = (answer, t') ∧ s'.Mirrors t' := by
  obtain @⟨b, halike⟩ := hmirrors
  rw [serve_checkAbort, hlooked]
  obtain rfl := eq_of_checkAbort hlooked
  exact ⟨_, rfl, .intro halike⟩

/-- A session comes to `x` through faults. If these pass, whatever mirrors the session comes to the
same by `f`, without any faults. -/
def Through {α : Type} (s : Session (Relay Blob)) (x : Except UploadError α × Session (Relay Blob))
    (f : Session Blob → Except UploadError α × Session Blob) : Prop :=
  ∃ rs, x.2.service = Service.after s.service rs ∧
    (s.service.Transient s.settings.maxRetries rs →
      ∀ t, s.Mirrors t → Matches x.1 (f t).1 ∧ x.2.Mirrors (f t).2)

end Session

theorem Writer.method_request_ne_putBlob (w : Writer) (c : Chunk) :
    (w.request c).method ≠ .putBlob := by
  cases w <;> exact nofun

/-- A chunk that is sent through faults that pass is written, or fails, as it is without them. -/
theorem Session.through_send (c : Chunk) (s : Session (Relay Blob)) :
    s.Through (s.send c) (Session.send c) := by
  cases hcheck : s.writer.check c with
  | error e =>
      refine ⟨[], by rw [send_of_unfit hcheck]; rfl, fun _ t hmirrors => ?_⟩
      obtain @⟨b, halike⟩ := hmirrors
      have hcheck' : (s.serve b).writer.check c = .error e := hcheck
      rw [send_of_unfit hcheck, send_of_unfit hcheck']
      exact ⟨.error (.same e), .intro halike⟩
  | ok _ =>
      obtain ⟨n, hservice, hthrough⟩ := Blob.deliver_through c.offset
        (s.writer.method_request_ne_putBlob c) s.settings.maxRetries s.service
      refine ⟨List.replicate n (s.writer.request c), ?_, fun hpasses t hmirrors => ?_⟩
      · rw [← hservice]
        match hdelivered : BlobUpload.deliver c.offset (s.writer.request c) s.settings.maxRetries 0
            s.service with
        | (.error e, relay) => rw [send_of_failed hcheck hdelivered]
        | (.ok reply, relay) => rw [send_of_delivered hcheck hdelivered, service_advance]
      · obtain @⟨b, halike⟩ := hmirrors
        have hcheck' : (s.serve b).writer.check c = .ok () := hcheck
        match hdelivered : BlobUpload.deliver c.offset (s.writer.request c) s.settings.maxRetries 0
            s.service, hdelivered' : BlobUpload.deliver c.offset (s.writer.request c)
            s.settings.maxRetries 0 b with
        | (result, relay), (result', b') =>
            have hthrough := hthrough hpasses b halike
            rw [hdelivered, hdelivered'] at hthrough
            obtain ⟨hsame, halike'⟩ := hthrough
            cases hsame with
            | error hlike =>
                rw [send_of_failed hcheck hdelivered,
                  send_of_failed (s := s.serve b) hcheck' hdelivered']
                exact ⟨.error hlike, .intro halike'⟩
            | ok reply =>
                rw [send_of_delivered hcheck hdelivered,
                  send_of_delivered (s := s.serve b) hcheck' hdelivered']
                exact ⟨.ok _, Mirrors.advance (.intro halike') c.length⟩

/-- A chunk that nobody keeps from being sent is sent in both sessions. -/
theorem Session.through_next {s s' s'' : Session (Relay Blob)} {c : Chunk}
    {result : Except UploadError Token} (hclear : s.checkAbort c.offset = (.ok (), s'))
    (hsent : s'.send c = (result, s'')) :
    s''.settings = s.settings ∧ ∃ rs, s''.service = Service.after s.service rs ∧
      (s.service.Transient s.settings.maxRetries rs → ∀ t, s.Mirrors t →
        ∃ t' result' t'', t.checkAbort c.offset = (.ok (), t') ∧ t'.send c = (result', t'') ∧
          Matches result result' ∧ s''.Mirrors t'') := by
  obtain ⟨rs, hservice, hthrough⟩ := s'.through_send c
  have hkept := s'.settings_send c
  rw [hsent] at hservice hthrough hkept
  have hmirrored := fun t (hmirrors : s.Mirrors t) => hmirrors.checkAbort hclear
  obtain rfl := eq_of_checkAbort hclear
  refine ⟨hkept, rs, hservice, fun hpasses t hmirrors => ?_⟩
  obtain ⟨t', hclear', hmirrors'⟩ := hmirrored t hmirrors
  obtain ⟨hlike, hmirrors''⟩ := hthrough hpasses t' hmirrors'
  exact ⟨t', _, _, hclear', rfl, hlike, hmirrors''⟩

/-- Chunks that are sent one after another through faults that pass are written as they are without
them. -/
theorem through_sendEach (answers : List (Except UploadError Chunk)) (s : Session (Relay Blob)) :
    s.Through (sendEach answers s) (sendEach answers) := by
  induction answers generalizing s with
  | nil => exact ⟨[], rfl, fun _ t hmirrors => ⟨.ok [], hmirrors⟩⟩
  | cons answer answers ih =>
      cases answer with
      | error e => exact ⟨[], rfl, fun _ t hmirrors => ⟨.error (.same e), hmirrors⟩⟩
      | ok c =>
          rcases hlooked : s.checkAbort c.offset with ⟨e | _, s₁⟩
          · have hmirrored := fun t (hmirrors : s.Mirrors t) => hmirrors.checkAbort hlooked
            obtain rfl := Session.eq_of_checkAbort hlooked
            refine ⟨[], by rw [sendEach, hlooked]; rfl, fun _ t hmirrors => ?_⟩
            obtain ⟨t₁, hlooked', hmirrors₁⟩ := hmirrored t hmirrors
            rw [sendEach, hlooked, sendEach, hlooked']
            exact ⟨.error (.same e), hmirrors₁⟩
          rcases hsent : s₁.send c with ⟨e | token, s₂⟩
          · obtain ⟨-, rs, hservice, hthrough⟩ := Session.through_next hlooked hsent
            refine ⟨rs, by rw [sendEach_of_failed hlooked hsent, hservice],
              fun hpasses t hmirrors => ?_⟩
            obtain ⟨t₁, _, t₂, hlooked', hsent', hlike, hmirrors₂⟩ := hthrough hpasses t hmirrors
            cases hlike with
            | error hlike =>
                rw [sendEach_of_failed hlooked hsent, sendEach_of_failed hlooked' hsent']
                exact ⟨.error hlike, hmirrors₂⟩
          · obtain ⟨hkept, rs, hservice, hthrough⟩ := Session.through_next hlooked hsent
            obtain ⟨rs', hservice', hthrough'⟩ := ih s₂
            refine ⟨rs ++ rs', ?_, fun hpasses t hmirrors => ?_⟩
            · rw [sendEach_of_sent hlooked hsent, Service.after_append, ← hservice]
              exact hservice'
            obtain ⟨hfirst, hothers⟩ := hpasses.append
            rw [← hservice, ← hkept] at hothers
            obtain ⟨t₁, _, t₂, hlooked', hsent', hlike, hmirrors₂⟩ := hthrough hfirst t hmirrors
            cases hlike with
            | ok =>
                obtain ⟨hlike', hmirrors'⟩ := hthrough' hothers t₂ hmirrors₂
                rw [sendEach_of_sent hlooked hsent, sendEach_of_sent hlooked' hsent']
                exact ⟨hlike'.map _, hmirrors'⟩

/-- The tokens are committed through faults that pass as they are without them. -/
theorem Session.through_commit (tokens : List Token) (s : Session (Relay Blob)) :
    s.Through (s.commit tokens) (Session.commit tokens) := by
  rcases commit_cases s.writer tokens with hnothing | hlist
  · refine ⟨[], by rw [hnothing s rfl]; rfl, fun _ t hmirrors => ?_⟩
    obtain @⟨b, halike⟩ := hmirrors
    rw [hnothing s rfl, hnothing (s.serve b) rfl]
    exact ⟨.ok none, .intro halike⟩
  · refine ⟨[.putBlockList (tokens.filterMap Token.blockId?) s.settings.leaseId],
      by rw [hlist s rfl]; rfl, fun hpasses t hmirrors => ?_⟩
    obtain @⟨b, halike⟩ := hmirrors
    have hown := hpasses.answer_list rfl
    obtain ⟨hsame, halike'⟩ := halike.answer
      (.putBlockList (tokens.filterMap Token.blockId?) s.settings.leaseId)
    rw [hown] at hsame halike'
    rw [hlist s rfl, hlist (s.serve b) rfl]
    refine ⟨?_, .intro halike'⟩
    rw [hsame]
    exact .refl _

/-- The whole is put through faults that pass as it is without them. Only the ETag may differ. -/
theorem through_sendWhole (k : Cutter) (source : Source) (s : Session (Relay Blob)) :
    ∃ rs, (sendWhole k source s).2.2.service = Service.after s.service rs ∧
      (s.service.Transient s.settings.maxRetries rs →
        s.service.service.Admits s.settings.leaseId → ∀ t, s.Mirrors t →
        Matches ((sendWhole k source s).1.map fun _ => ())
          ((sendWhole k source t).1.map fun _ => ()) ∧
        (sendWhole k source s).2.2.service.service.content =
          (sendWhole k source t).2.2.service.content ∧
        (sendWhole k source t).2.2 =
          (sendWhole k source s).2.2.serve (sendWhole k source t).2.2.service) := by
  match hgathered : gather k source with
  | (.error e, source') =>
      refine ⟨[], by rw [sendWhole_of_ungathered hgathered]; rfl, fun _ _ t hmirrors => ?_⟩
      obtain @⟨b, halike⟩ := hmirrors
      rw [sendWhole_of_ungathered hgathered, sendWhole_of_ungathered hgathered]
      exact ⟨.error (.same e), halike.content, rfl⟩
  | (.ok payload, source') =>
      match hlooked : s.checkAbort 0 with
      | (.error e, s₁) =>
          have hmirrored := fun t (hmirrors : s.Mirrors t) => hmirrors.checkAbort hlooked
          refine ⟨[], ?_, fun _ _ t hmirrors => ?_⟩
          · rw [sendWhole_of_aborted hgathered hlooked]
            exact (congrArg Session.service (Session.eq_of_checkAbort hlooked) :)
          · obtain ⟨t₁, hlooked', hmirrors₁⟩ := hmirrored t hmirrors
            rw [sendWhole_of_aborted hgathered hlooked, sendWhole_of_aborted hgathered hlooked']
            obtain @⟨b, halike⟩ := hmirrors₁
            exact ⟨.error (.same e), halike.content, rfl⟩
      | (.ok (), s₁) =>
          have hmirrored := fun t (hmirrors : s.Mirrors t) => hmirrors.checkAbort hlooked
          obtain ⟨n, hservice, hthrough⟩ := Blob.deliver_putBlob_through (e := s₁.settings.envelope)
            payload 0 s₁.settings.maxRetries s₁.service
          have hsame := Session.eq_of_checkAbort hlooked
          refine ⟨List.replicate n (.putBlob (s₁.settings.envelope.body payload)), ?_,
            fun hpasses hadmits t hmirrors => ?_⟩
          · rw [show s.service = s₁.service by rw [hsame], ← hservice]
            match hput : deliver 0 (.putBlob (s₁.settings.envelope.body payload))
                s₁.settings.maxRetries 0 s₁.service with
            | (.error e, relay) => rw [sendWhole_of_failed hgathered hlooked hput]
            | (.ok etag, relay) =>
                rw [sendWhole_of_put hgathered hlooked hput, Session.service_advance]
          · obtain ⟨t₁, hlooked', hmirrors₁⟩ := hmirrored t hmirrors
            subst hsame
            obtain ⟨etag, relay, hput, hcontent⟩ := hthrough hpasses hadmits
            obtain @⟨b, halike⟩ := hmirrors₁
            have hadmits' : b.Admits s.settings.envelope.lease := by
              rw [Blob.Admits, ← halike.lease]
              exact hadmits
            have hput' : deliver 0 (.putBlob (s.settings.envelope.body payload))
                s.settings.maxRetries 0 b = (.ok _, b.put payload) :=
              deliver_of_answered (Blob.answer_putBlob hadmits' payload) _ _
            rw [sendWhole_of_put hgathered hlooked hput, sendWhole_of_put hgathered hlooked' hput']
            simp only [Session.service_advance, ← Session.serve_advance]
            exact ⟨.ok (), hcontent, rfl⟩

end BlobUpload
