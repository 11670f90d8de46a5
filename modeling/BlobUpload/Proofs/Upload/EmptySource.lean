import BlobUpload.Proofs.Pool.ExhaustedSource
import BlobUpload.Proofs.Upload.Dispatch

/-! # Uploads of nothing

No chunk is cut out of an exhausted source, whatever length was declared for it, and without a chunk
there is nothing to send and nothing to commit. One way does not wait for a chunk: a source that is
declared to be short is sent by one request, and if there is nothing in it the blob is replaced by
nothing. -/

namespace BlobUpload

/-- A cutter that encrypts nothing finds nothing in an exhausted source. -/
theorem Cutter.toList_of_exhausted {k : Cutter} {source : Source} (hplain : k.cipher = none)
    (hunfinished : k.finished = false) (hexhausted : source.Exhausted) :
    (k.toList source).1 = [] := by
  obtain ⟨hfill, -⟩ := hexhausted.readUpTo k.limit
  obtain ⟨k', hdone⟩ := absorb_plain_nil hplain
  rw [toList_of_done hunfinished (by rw [hfill, Fill.result, hdone])]

namespace Upload

variable {σ : Type} [Service σ] {u : Upload σ} {source : Source} {ending : Ending σ}

/-- Nobody raises the abort flag while several workers take turns. -/
def Call.Unaborted : Call → Prop
  | .seekable schedule => .abort ∉ schedule
  | .stream => True

/-- The ending of an upload that has sent nothing. If nobody has aborted it, it has ended well. -/
structure SendsNothing (u : Upload σ) (calm : Prop) (ending : Ending σ) : Prop where
  service : ending.2.2.service = u.service
  result : calm → ending.1 = .ok ⟨[], 0, 0, none⟩

/-- The ending of an upload that has put an empty blob, or has failed to. -/
def PutsNothing (u : Upload σ) (ending : Ending σ) : Prop :=
  (ending.1, ending.2.2.service) =
    let put := deliver 0 (.putBlob (u.settings.envelope.body [])) u.settings.maxRetries 0 u.service
    (put.1.map fun etag => ⟨[], 0, 1, some etag⟩, put.2)

omit [Service σ] in
theorem SendsNothing.settle {calm : Prop} (h : SendsNothing u calm ending) :
    SendsNothing u calm (settle ending) := by
  refine ⟨?_, ?_⟩
  · rw [service_settle, h.service]
  · rw [result_settle]
    exact h.result

theorem PutsNothing.settle (h : PutsNothing u ending) : PutsNothing u (settle ending) := by
  rwa [PutsNothing, result_settle, service_settle]

/-- An upload that has no tokens has nothing to commit. -/
theorem sendsNothing_conclude {s start : Session σ} (hsame : ∃ abort, s = { start with abort })
    (hservice : start.service = u.service) (hcompleted : start.completed = 0) (calm : Prop)
    (source : Source) (v : Upload σ) :
    SendsNothing u calm (v.conclude (.ok []) source s) := by
  obtain ⟨abort, rfl⟩ := hsame
  rw [conclude_of_committed (Session.commit_nil _)]
  exact ⟨hservice, fun _ => by simp only [hcompleted, List.length_nil]⟩

theorem runSequential_of_exhausted (hplain : u.settings.encryption = none)
    (hexhausted : source.Exhausted) (length : Option Nat) (calm : Prop) :
    SendsNothing u calm (u.runSequential source length) := by
  have hcipher : (u.settings.cutter length).cipher = none := by
    rw [Settings.cutter, hplain]
    rfl
  rw [runSequential_eq, Cutter.toList_of_exhausted hcipher rfl hexhausted]
  exact sendsNothing_conclude ⟨_, rfl⟩ (service_session _ _) (completed_session _ _) calm _ _

/-- Several workers that find nothing send nothing, however many spans were declared. -/
theorem runParallel_of_exhausted (hexhausted : source.Exhausted) {length : Nat}
    (hfits : source.position + length < UInt64.size) (schedule : List Pool.Action) :
    SendsNothing u (u.Undisturbed ∧ .abort ∉ schedule) (u.runParallel schedule source length) := by
  have hservice := service_session (some length) (u.enter .parallel)
  have hcompleted := completed_session (some length) (u.enter .parallel)
  have hcalm (h : u.Undisturbed) := (h.enter .parallel).session (some length)
  rw [runParallel, CommonSource.ofSource_of_seeks hexhausted.seeks]
  simp only
  generalize (u.enter .parallel).session (some length) = s at *
  obtain ⟨⟨hsession, htokens, -⟩, -⟩ := Pool.idling_run s hexhausted hfits schedule
  have huntroubled (h : u.Undisturbed) (hfree : .abort ∉ schedule) :=
    (Pool.untroubled_run (hcalm h) hexhausted hfits hfree).failure
  generalize (Pool.ofSession s source.shared length).run schedule = p at *
  cases hfailure : p.failure with
  | none =>
      rw [show p.outcome = .ok [] by rw [Pool.outcome, hfailure, htokens]; rfl]
      exact sendsNothing_conclude (u := u) hsession hservice hcompleted _ _ _
  | some e =>
      rw [show p.outcome = .error e by rw [Pool.outcome, hfailure]]
      obtain ⟨abort, hsame⟩ := hsession
      refine ⟨?_, fun ⟨hundisturbed, hfree⟩ => ?_⟩
      · change p.session.service = _
        rw [hsame]
        exact hservice
      · cases hfailure.symm.trans (huntroubled hundisturbed hfree)

/-- What is declared to be short is put at once, before anybody knows that it is empty. -/
theorem runSinglePut_of_exhausted (hplain : u.settings.encryption = none)
    (hexhausted : source.Exhausted) (hcalm : u.Undisturbed) (n : Nat) :
    PutsNothing u (u.runSinglePut source n) := by
  have hcipher : (u.settings.cutter (some n)).cipher = none := by
    rw [Settings.cutter, hplain]
    rfl
  have hnothing : (gather (u.settings.cutter (some n)) source).1 = .ok [] := by
    rw [gather_eq_joinAll, Cutter.toList_of_exhausted hcipher rfl hexhausted]
    rfl
  have hgathered : gather (u.settings.cutter (some n)) source =
      (.ok [], (gather (u.settings.cutter (some n)) source).2) := Prod.ext hnothing rfl
  have hsettings := settings_session (u.settings.progressTotal (some n)) (u.enter .sequential)
  have hservice := service_session (u.settings.progressTotal (some n)) (u.enter .sequential)
  have hcompleted := completed_session (u.settings.progressTotal (some n)) (u.enter .sequential)
  have hclear := Session.checkAbort_of_undisturbed
    ((hcalm.enter .sequential).session (u.settings.progressTotal (some n))) 0
  simp only [runSinglePut, show (u.enter .sequential).settings = u.settings from rfl]
  generalize (u.enter .sequential).session (u.settings.progressTotal (some n)) = s at *
  have hsettings : s.settings = u.settings := hsettings
  have hservice : s.service = u.service := hservice
  rw [PutsNothing]
  rcases hput : deliver 0 (.putBlob (u.settings.envelope.body [])) u.settings.maxRetries 0
    u.service with ⟨e | etag, after⟩
  · rw [← hsettings, ← hservice] at hput
    rw [sendWhole_of_failed hgathered hclear hput]
    rfl
  · rw [← hsettings, ← hservice] at hput
    rw [sendWhole_of_put hgathered hclear hput]
    simp only [Session.completed_advance, hcompleted]
    exact Prod.ext rfl (Session.service_advance _ _)

omit [Service σ] in
/-- Only a declared length makes an exhausted source short enough for one request. -/
theorem singlePutLength?_of_measured {source' : Source} {c : Call} {length : Option Nat}
    (hexhausted : source.Exhausted) (hmeasured : u.measure source c = (.ok length, source')) :
    u.settings.singlePutLength? length =
      u.settings.singlePutLength? u.settings.sourceLength := by
  cases c with
  | stream =>
      cases hmeasured
      rfl
  | seekable schedule =>
      obtain ⟨seeks, hknown⟩ := u.measure_of_seeks hexhausted.seeks schedule
      rw [hknown, hexhausted.rest] at hmeasured
      cases hmeasured
      cases u.settings.sourceLength with
      | some n => rfl
      | none =>
          unfold Settings.singlePutLength?
          cases u.settings.blobType <;> cases u.settings.singlePutThreshold <;> rfl

/-- What is short enough is put by one request, however it is called. -/
theorem call_of_whole {source' : Source} {c : Call} {length : Option Nat} {n : Nat}
    (hidle : u.life.current = .idle) (hvalid : u.settings.validate = .ok ())
    (hmeasured : u.measure source c = (.ok length, source'))
    (hput : u.settings.singlePutLength? length = some n) :
    u.call source c = settle ((u.enter .splitting).runSinglePut source' n) := by
  cases c with
  | stream =>
      cases hmeasured
      have hrun : runStream source (u.enter .splitting) =
          (u.enter .splitting).runSinglePut source n := by
        simp only [runStream, show (u.enter .splitting).settings = u.settings from rfl, hput]
      rw [call, uploadStream, start_of_valid hidle hvalid, hrun]
  | seekable schedule =>
      obtain ⟨m, rfl, hrun⟩ := call_of_measured hidle hvalid hmeasured
      have hfits : u.settings.lengthViolation? m = none := by
        refine Settings.lengthViolation?_of_ne_page ?_ m
        rw [(Settings.of_singlePutLength? hput).1]
        decide
      rw [hrun, runMeasured]
      simp only [show (u.enter .splitting).settings = u.settings from rfl, hfits, hput]

/-- Nothing is sent of an exhausted source, and the upload ends well unless it is aborted. The one
exception is a block blob whose declared length is short enough for a single request: then an empty
blob is put. Several workers have to find all offsets within 64 bits. -/
theorem upload_of_exhausted (hidle : u.life.current = .idle)
    (hvalid : u.settings.validate = .ok ()) (hkind : u.settings.blobType ≠ .page)
    (hplain : u.settings.encryption = none) (hexhausted : source.Exhausted)
    (haddr : u.settings.Addresses source) (c : Call)
    (haccepted : c = .stream → u.settings.isParallel = false) :
    (u.settings.singlePutLength? u.settings.sourceLength = none →
      SendsNothing u (u.Undisturbed ∧ c.Unaborted) (u.call source c)) ∧
    (∀ n, u.settings.singlePutLength? u.settings.sourceLength = some n → u.Undisturbed →
      PutsNothing u (u.call source c)) := by
  have hagain (seeks : Nat) : ({ source with seeks } : Source).Exhausted :=
    ⟨hexhausted.rest, hexhausted.reads, hexhausted.seeks⟩
  refine ⟨fun hchunked => ?_, fun n hput hcalm => ?_⟩
  · obtain ⟨ending, hsettled, hway⟩ := way_call hidle hvalid source c
    rw [hsettled]
    refine SendsNothing.settle ?_
    cases hway with
    | unmeasured hfailed => exact absurd hexhausted.seeks (seekErrors_of_measure hfailed)
    | misfit hbroken => cases (Settings.lengthViolation?_of_ne_page hkind _).symm.trans hbroken
    | unseekable hseveral => cases (haccepted rfl).symm.trans hseveral
    | whole hmeasured hput =>
        cases hchunked.symm.trans ((singlePutLength?_of_measured hexhausted hmeasured).symm.trans
          hput)
    | chunks hmeasured halone =>
        obtain ⟨seeks, rfl, -⟩ := of_measure hmeasured
        obtain ⟨hservice, hresult⟩ :=
          runSequential_of_exhausted (u := u.enter .splitting) hplain (hagain seeks) _ _
        exact ⟨hservice, hresult⟩
    | @workers _ length _ hmeasured hseveral =>
        have hfits := fits_of_measure (u := u.enter .splitting) haddr hseveral hmeasured
        obtain ⟨seeks, rfl, -⟩ := of_measure hmeasured
        obtain ⟨hservice, hresult⟩ :=
          runParallel_of_exhausted (u := u.enter .splitting) (hagain seeks) hfits _
        exact ⟨hservice, fun ⟨hcalm, hfree⟩ => hresult ⟨hcalm.enter .splitting, hfree⟩⟩
  · obtain ⟨length, seeks, hmeasured⟩ :
        ∃ length seeks, u.measure source c = (.ok length, { source with seeks }) := by
      cases c with
      | stream => exact ⟨_, source.seeks, rfl⟩
      | seekable schedule => exact ⟨_, u.measure_of_seeks hexhausted.seeks schedule⟩
    rw [call_of_whole hidle hvalid hmeasured
      ((singlePutLength?_of_measured hexhausted hmeasured).trans hput)]
    exact PutsNothing.settle (u := u)
      (runSinglePut_of_exhausted (u := u.enter .splitting) hplain (hagain seeks)
        (hcalm.enter .splitting) n)

/-- Workers are told to send three bytes, one at a time, over a blob that holds one. -/
def declaredUpload (parallelism : Nat) (threshold : Option Nat) : Upload Blob where
  settings := {
    blobType := .block, sourceLength := some 3, chunkSize := 1, parallelism,
    singlePutThreshold := threshold }
  service := .ofContent [7]

theorem exhausted_empty : ({ data := [] } : Source).Exhausted := ⟨rfl, nofun, rfl⟩

theorem undisturbed_declaredUpload (parallelism : Nat) (threshold : Option Nat) :
    (declaredUpload parallelism threshold).Undisturbed := ⟨rfl, nofun⟩

/-- Two workers find nothing to send of an empty source, a single one puts nothing. -/
theorem upload_of_exhausted_declaredUpload :
    SendsNothing (declaredUpload 2 none) True ((declaredUpload 2 none).upload { data := [] }) ∧
      PutsNothing (declaredUpload 1 (some 10))
        ((declaredUpload 1 (some 10)).upload { data := [] }) := by
  obtain ⟨hservice, hresult⟩ := (upload_of_exhausted (u := declaredUpload 2 none) rfl rfl nofun rfl
    exhausted_empty (fun _ => by decide) (.seekable []) nofun).1 rfl
  exact ⟨⟨hservice, fun _ => hresult ⟨undisturbed_declaredUpload 2 none, nofun⟩⟩,
    (upload_of_exhausted (u := declaredUpload 1 (some 10)) rfl rfl nofun rfl exhausted_empty
      (fun _ => by decide) (.seekable []) nofun).2 3 rfl (undisturbed_declaredUpload _ _)⟩

/-- A source that is declared to hold three bytes and holds none erases the blob. -/
theorem declaredUpload_erases :
    (declaredUpload 1 (some 10)).settings.validate = .ok () ∧
      ({ data := [] } : Source).Exhausted ∧
      (declaredUpload 1 (some 10)).service.content = [7] ∧
      ((declaredUpload 1 (some 10)).upload { data := [] }).2.2.service.content = [] ∧
      ((declaredUpload 1 (some 10)).upload { data := [] }).2.2.service.calls.putBlob = 1 :=
  ⟨rfl, exhausted_empty, by decide +kernel⟩

end Upload

end BlobUpload
