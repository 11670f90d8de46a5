import BlobUpload.Proofs.Pool.SentRequests
import BlobUpload.Proofs.Upload.Dispatch

/-! # What uploads send is well formed

Whatever the source, the faults and whoever may abort do, and in whatever order several workers
move, an upload sends nothing that a blob calls a bad request, and its cipher never fails. To see
what reaches the blob, a second relay stands right in front of it, one that has no faults and only
keeps a record. -/

namespace BlobUpload.Upload

variable {u : Upload (Relay (Relay Blob))} {before : List Exchange}

/-- Since `before` the blob has understood all that has reached it, and the upload has not failed
because of its cipher. -/
structure Sound (before : List Exchange) (ending : Ending (Relay (Relay Blob))) : Prop where
  heard : ending.2.2.service.service.Heard before
  result : ∀ e, ending.1 = .error e → e.isEncoding = false

theorem Sound.settle {ending : Ending (Relay (Relay Blob))} (hsound : Sound before ending) :
    Sound before (settle ending) :=
  ⟨by rw [service_settle]; exact hsound.heard, by rw [result_settle]; exact hsound.result⟩

/-- A call that gives up before it has sent anything. -/
theorem sound_of_unsent (hheard : u.service.service.Heard before) {e : UploadError}
    (hother : e.isEncoding = false) (source : Source) : Sound before (.error e, source, u) := by
  refine ⟨hheard, fun e' hsame => ?_⟩
  cases hsame
  exact hother

theorem sound_conclude {sent : Except UploadError (List Token)}
    {s : Session (Relay (Relay Blob))} (hheard : s.service.service.Heard before)
    (hstaged : ∀ tokens, sent = .ok tokens →
      ∀ token ∈ tokens, token.Staged s.service.service.service)
    (hfailed : ∀ e, sent = .error e → e.isEncoding = false) (source : Source)
    (u : Upload (Relay (Relay Blob))) : Sound before (u.conclude sent source s) := by
  cases sent with
  | error e =>
      refine ⟨hheard, fun e' hsame => ?_⟩
      cases hsame
      exact hfailed e rfl
  | ok tokens =>
      have hheard' := Session.heard_commit hheard (hstaged tokens rfl)
      match hcommitted : s.commit tokens with
      | (.error e, s') =>
          rw [hcommitted] at hheard'
          rw [conclude_of_uncommitted hcommitted]
          refine ⟨hheard', fun e' hsame => ?_⟩
          cases hsame
          exact Session.isEncoding_of_commit (congrArg Prod.fst hcommitted)
      | (.ok commit, s') =>
          rw [hcommitted] at hheard'
          rw [conclude_of_committed hcommitted]
          exact ⟨hheard', nofun⟩

theorem sound_runSequential (hheard : u.service.service.Heard before) (source : Source)
    (length : Option Nat) : Sound before (u.runSequential source length) := by
  have hstart : ((u.enter .sequential).session
      (u.settings.progressTotal length)).service.service.Heard before := by
    rw [service_session]
    exact hheard
  obtain ⟨honward, hstaged⟩ :=
    Session.onward_sendEach hstart ((u.settings.cutter length).toList source).1
  rw [runSequential_eq]
  refine sound_conclude honward.heard hstaged (fun e hfailed => ?_) _ _
  exact (isEncoding_of_sendEach hfailed).elim
    (Cutter.isEncoding_of_mem_toList (u.settings.fresh_cutter length)) id

theorem sound_runParallel (hheard : u.service.service.Heard before) (schedule : List Pool.Action)
    (source : Source) (length : Nat) : Sound before (u.runParallel schedule source length) := by
  rw [runParallel]
  rcases CommonSource.ofSource source with ⟨e | common, source'⟩
  · exact sound_of_unsent hheard rfl source'
  have hstart : ((u.enter .parallel).session (some length)).service.service.Heard before := by
    rw [service_session]
    exact hheard
  obtain ⟨hheard', -, htokens, hfailure⟩ := (Pool.forming_ofSession hstart common length).run
    schedule
  refine sound_conclude hheard' (fun filed hdone token hmem => ?_) (fun e hfailed => ?_) _ _
  · rw [Pool.outcome] at hdone
    split at hdone
    · cases hdone
    · cases hdone
      obtain ⟨entry, hmem', rfl⟩ := List.mem_map.1 hmem
      exact htokens entry hmem'
  · rw [Pool.outcome] at hfailed
    split at hfailed
    · rename_i e' hfirst
      cases hfailed
      exact hfailure e hfirst
    · cases hfailed

theorem sound_runSinglePut (hheard : u.service.service.Heard before) (source : Source)
    (length : Nat) : Sound before (u.runSinglePut source length) := by
  have hstart : ((u.enter .sequential).session
      (u.settings.progressTotal (some length))).service.service.Heard before := by
    rw [service_session]
    exact hheard
  have hput := heard_sendWhole hstart (u.settings.cutter (some length)) source
  have hfailed (e : UploadError)
      (hunsent : (sendWhole (u.settings.cutter (some length)) source ((u.enter .sequential).session
        (u.settings.progressTotal (some length)))).1 = .error e) : e.isEncoding = false :=
    isEncoding_of_sendWhole (u.settings.fresh_cutter (some length)) hunsent
  simp only [runSinglePut]
  split
  · rename_i e source' s hrun
    rw [show (u.enter .sequential).settings = u.settings from rfl] at hrun
    rw [hrun] at hput hfailed
    refine ⟨hput, fun e' hsame => ?_⟩
    cases hsame
    exact hfailed e rfl
  · rename_i etag source' s hrun
    rw [show (u.enter .sequential).settings = u.settings from rfl] at hrun
    rw [hrun] at hput
    exact ⟨hput, nofun⟩

/-- However an upload is called, the blob understands all that reaches it. -/
theorem sound_call (hheard : u.service.service.Heard before) (source : Source) (c : Call) :
    Sound before (u.call source c) := by
  rcases call_cases source u c with ⟨rule, u', hrefused, hsame⟩ | ⟨ending, hsettled, hway⟩
  · rw [hrefused]
    exact sound_of_unsent (by rw [hsame]; exact hheard) rfl source
  · rw [hsettled]
    refine Sound.settle ?_
    cases hway with
    | unmeasured => exact sound_of_unsent (u := u.enter .splitting) hheard rfl _
    | misfit => exact sound_of_unsent (u := u.enter .splitting) hheard rfl _
    | unseekable => exact sound_of_unsent (u := u.enter .splitting) hheard rfl _
    | whole => exact sound_runSinglePut (u := u.enter .splitting) hheard _ _
    | chunks => exact sound_runSequential (u := u.enter .splitting) hheard _ _
    | workers => exact sound_runParallel (u := u.enter .splitting) hheard _ _ _

/-- No upload sends a malformed request. Whatever its settings and its source are, whatever faults
are in its way, whoever aborts it and in whatever state it finds the blob, the blob answers nothing
that reaches it by another failure than that of a condition: its pages are aligned and as long as
they say, its digests are right and its lists name staged blocks only. Nor does the upload ever fail
because of its cipher. -/
theorem upload_sends_well_formed (hclear : u.service.service.faults = []) (source : Source)
    (c : Call) :
    let ending := u.call source c
    (∃ noted, ending.2.2.service.service.exchanges = u.service.service.exchanges ++ noted ∧
      ∀ x ∈ noted, ∀ status message, x.failure ≠ some (.service status message)) ∧
    ∀ cause, ending.1 ≠ .error (.encoding cause) := by
  obtain ⟨hheard, hresult⟩ := sound_call (Relay.heard_of_clear hclear) source c
  exact ⟨hheard.noted, fun cause hfailed => nomatch hresult _ hfailed⟩

/-- Two workers send pages with their digests. The answer to a request gets lost, and a later one
gets nowhere. -/
def recordedUpload : Upload (Relay (Relay Blob)) where
  settings := { blobType := .page, chunkSize := 512, parallelism := 2, validateContent := true }
  service :=
    { service := { service := .ofContent [7] }
      faults := [{ error := .transport "lost", passedOn := true },
        { error := .transport "dropped", fromRequest := some 2 }] }

theorem recordedUpload_sends_well_formed :
    let u := recordedUpload
    let ending := u.call { data := List.replicate 1536 1 } (.seekable [.step 0, .step 1])
    u.service.service.faults = [] ∧
      (∃ noted, ending.2.2.service.service.exchanges = u.service.service.exchanges ++ noted ∧
        ∀ x ∈ noted, ∀ status message, x.failure ≠ some (.service status message)) ∧
      ∀ cause, ending.1 ≠ .error (.encoding cause) :=
  ⟨rfl, upload_sends_well_formed rfl _ _⟩

end BlobUpload.Upload
