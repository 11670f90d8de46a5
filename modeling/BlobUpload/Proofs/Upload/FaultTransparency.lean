import BlobUpload.Proofs.Pool.FaultTolerance
import BlobUpload.Proofs.Upload.Blocks

/-! # Uploads through faults that pass

An upload whose requests are hit by faults that pass ends as it would without them: with the same
tokens and the same content, or with the same error. -/

namespace BlobUpload

/-- What an upload has sent, but for the ETag of its commit. -/
def Summary.withoutCommit (summary : Summary) : Summary := { summary with commit := none }

namespace Upload

variable {σ τ : Type}

/-- The same upload with another service. -/
def serve (service : τ) (u : Upload σ) : Upload τ :=
  { settings := u.settings, service, watch := u.watch, reports := u.reports, abort := u.abort,
    life := u.life }

@[simp] theorem settings_serve (service : τ) (u : Upload σ) :
    (u.serve service).settings = u.settings := rfl

theorem serve_session (service : τ) (total : Option Nat) (u : Upload σ) :
    (u.serve service).session total = (u.session total).serve service :=
  Session.serve_report service
    { settings := u.settings, service := u.service, writer := u.settings.writer, watch := u.watch,
      reports := u.reports, abort := u.abort, total := total }

/-- Several workers were asked for and have sent the chunks. -/
def UsedWorkers (u : Upload σ) : Prop :=
  u.settings.isParallel = true ∧ .parallel ∈ u.life.current :: u.life.past

theorem UsedWorkers.enter {u : Upload σ} (hused : u.UsedWorkers) (next : Phase) :
    (u.enter next).UsedWorkers := ⟨hused.1, List.mem_cons_of_mem _ hused.2⟩

/-- Both end well with the same tokens, bytes and chunks, or badly with the same error but for the
answer to the last attempt, and with the same content. A single worker has made the same reports. -/
structure Resembles (ending : Ending (Relay Blob)) (ending' : Ending Blob) : Prop where
  result : Matches (ending.1.map Summary.withoutCommit) (ending'.1.map Summary.withoutCommit)
  content : ending.2.2.service.service.content = ending'.2.2.service.content
  reports : ¬ending.2.2.UsedWorkers → ending.2.2.reports = ending'.2.2.reports

theorem Resembles.settle {ending : Ending (Relay Blob)} {ending' : Ending Blob}
    (h : Resembles ending ending') : Resembles (settle ending) (settle ending') := by
  obtain ⟨hsame, phase, hafter⟩ := settle_eq ending
  obtain ⟨hsame', phase', hafter'⟩ := settle_eq ending'
  refine ⟨by rw [hsame, hsame']; exact h.result, by rw [hafter, hafter']; exact h.content, ?_⟩
  rw [hafter, hafter']
  exact fun halone => h.reports fun hused => halone (hused.enter phase)

/-- An upload ends through faults. If these pass, the second ending resembles it. -/
def Through (u : Upload (Relay Blob)) (ending : Ending (Relay Blob)) (ending' : Ending Blob) :
    Prop :=
  ∃ rs, ending.2.2.service = Service.after u.service rs ∧
    (u.service.Transient u.settings.maxRetries rs → Resembles ending ending')

theorem Through.settle {u : Upload (Relay Blob)} {ending : Ending (Relay Blob)}
    {ending' : Ending Blob} (hthrough : u.Through ending ending') :
    u.Through (settle ending) (Upload.settle ending') := by
  obtain ⟨rs, hservice, hresembles⟩ := hthrough
  obtain ⟨-, phase, hafter⟩ := settle_eq ending
  exact ⟨rs, by rw [hafter]; exact hservice, fun hpasses => (hresembles hpasses).settle⟩

/-- An upload that sends nothing meets no faults. -/
theorem through_failed (u : Upload (Relay Blob)) (e : UploadError) (source source' : Source) :
    u.Through (.error e, source, u) (.error e, source', u.serve u.service.service) :=
  ⟨[], rfl, fun _ => ⟨.error (.same e), rfl, fun _ => rfl⟩⟩

/-- Whatever has been sent, it is committed, or not, as it is without faults. -/
theorem resembles_conclude (sent : Except UploadError (List Token)) (source : Source)
    (s : Session (Relay Blob)) (u : Upload (Relay Blob)) :
    ∃ rs, (u.conclude sent source s).2.2.service = Service.after s.service rs ∧
      (s.service.Transient s.settings.maxRetries rs → ∀ sent' source' t (v : Upload Blob),
        Matches sent sent' → s.Mirrors t →
        Resembles (u.conclude sent source s) (v.conclude sent' source' t)) := by
  cases sent with
  | error e =>
      refine ⟨[], rfl, fun _ sent' source' t v hlike hmirrors => ?_⟩
      obtain @⟨b, halike⟩ := hmirrors
      cases hlike with
      | error hlike => exact ⟨.error hlike, halike.content, fun _ => rfl⟩
  | ok tokens =>
      obtain ⟨rs, hservice, hthrough⟩ := s.through_commit tokens
      match hcommitted : s.commit tokens with
      | (result, s₁) =>
          rw [hcommitted] at hservice hthrough
          refine ⟨rs, ?_, fun hpasses sent' source' t v hlike hmirrors => ?_⟩
          · rw [← hservice]
            cases result with
            | error e => rw [conclude_of_uncommitted hcommitted]; rfl
            | ok commit => rw [conclude_of_committed hcommitted]; rfl
          · cases hlike
            obtain ⟨hlike, hmirrors₁⟩ := hthrough hpasses t hmirrors
            match hcommitted' : t.commit tokens with
            | (result', t₁) =>
                rw [hcommitted'] at hlike hmirrors₁
                obtain @⟨b, halike⟩ := hmirrors₁
                cases hlike with
                | error hlike =>
                    rw [conclude_of_uncommitted hcommitted, conclude_of_uncommitted hcommitted']
                    exact ⟨.error hlike, halike.content, fun _ => rfl⟩
                | ok commit =>
                    rw [conclude_of_committed hcommitted, conclude_of_committed hcommitted']
                    exact ⟨.ok _, halike.content, fun _ => rfl⟩

/-- What a session has sent through faults is committed as what it sends without them. -/
theorem through_conclude {s : Session (Relay Blob)} {t : Session Blob}
    {x : Except UploadError (List Token) × Session (Relay Blob)}
    {f : Session Blob → Except UploadError (List Token) × Session Blob} (hthrough : s.Through x f)
    (hkept : x.2.settings = s.settings) (hmirrors : s.Mirrors t) (source source' : Source)
    (u : Upload (Relay Blob)) (v : Upload Blob) :
    ∃ rs, (u.conclude x.1 source x.2).2.2.service = Service.after s.service rs ∧
      (s.service.Transient s.settings.maxRetries rs →
        Resembles (u.conclude x.1 source x.2) (v.conclude (f t).1 source' (f t).2)) := by
  obtain ⟨rs, hservice, hthrough⟩ := hthrough
  obtain ⟨rs', hservice', hconcluded⟩ := resembles_conclude x.1 source x.2 u
  rw [hservice, ← Service.after_append] at hservice'
  rw [hkept, hservice] at hconcluded
  refine ⟨rs ++ rs', hservice', fun hpasses => ?_⟩
  obtain ⟨hfirst, hlast⟩ := hpasses.append
  obtain ⟨hlike, hmirrors'⟩ := hthrough hfirst t hmirrors
  exact hconcluded hlast _ _ _ _ hlike hmirrors'

/-- An upload and the same without its relay begin with sessions that mirror each other. -/
theorem mirrors_session (total : Option Nat) (u : Upload (Relay Blob)) :
    (u.session total).Mirrors ((u.serve u.service.service).session total) := by
  rw [serve_session]
  refine .intro ?_
  rw [service_session]
  exact .refl _

/-! ## By a single worker -/

theorem through_runSequential (u : Upload (Relay Blob)) (source : Source) (length : Option Nat) :
    u.Through (u.runSequential source length)
      ((u.serve u.service.service).runSequential source length) := by
  rw [runSequential_eq, runSequential_eq]
  obtain ⟨rs, hservice, hresembles⟩ := through_conclude
    (through_sendEach ((u.settings.cutter length).toList source).1
      ((u.enter .sequential).session (u.settings.progressTotal length)))
    (settings_sendEach _ _) (mirrors_session _ _)
    (sendAll (u.settings.cutter length) source
      ((u.enter .sequential).session (u.settings.progressTotal length))).2.1
    (sendAll (u.settings.cutter length) source
      (((u.serve u.service.service).enter .sequential).session
        (u.settings.progressTotal length))).2.1
    (u.enter .sequential) ((u.serve u.service.service).enter .sequential)
  rw [service_session, settings_session] at hresembles
  rw [service_session] at hservice
  exact ⟨rs, hservice, hresembles⟩

theorem runSinglePut_eq [Service σ] {x : Except UploadError String × Source × Session σ}
    (source : Source) (length : Nat) (u : Upload σ)
    (hput : sendWhole (u.settings.cutter (some length)) source
      ((u.enter .sequential).session (u.settings.progressTotal (some length))) = x) :
    (u.runSinglePut source length).1.map Summary.withoutCommit =
        (x.1.map fun _ => ()).map (fun _ => ⟨[], x.2.2.completed, 1, none⟩) ∧
      (u.runSinglePut source length).2.2.service = x.2.2.service ∧
      (u.runSinglePut source length).2.2.reports = x.2.2.reports := by
  have hsame : (u.enter .sequential).settings = u.settings := rfl
  obtain ⟨result, source', s⟩ := x
  rw [runSinglePut]
  cases result with
  | error e =>
      simp only [hsame, hput]
      exact ⟨rfl, rfl, rfl⟩
  | ok etag =>
      simp only [hsame, hput]
      exact ⟨rfl, rfl, rfl⟩

theorem through_runSinglePut (u : Upload (Relay Blob))
    (hadmits : u.service.service.Admits u.settings.leaseId) (source : Source) (length : Nat) :
    u.Through (u.runSinglePut source length)
      ((u.serve u.service.service).runSinglePut source length) := by
  obtain ⟨rs, hservice, hthrough⟩ := through_sendWhole (u.settings.cutter (some length)) source
    ((u.enter .sequential).session (u.settings.progressTotal (some length)))
  have hmirrors : ((u.enter .sequential).session (u.settings.progressTotal (some length))).Mirrors
      (((u.enter .sequential).serve u.service.service).session
        (u.settings.progressTotal (some length))) := mirrors_session _ _
  rw [service_session] at hservice
  rw [service_session, settings_session] at hthrough
  obtain ⟨hresult, hafter, hreports⟩ := runSinglePut_eq source length u rfl
  obtain ⟨hresult', hafter', hreports'⟩ := runSinglePut_eq
    (x := sendWhole (u.settings.cutter (some length)) source
      (((u.enter .sequential).serve u.service.service).session
        (u.settings.progressTotal (some length))))
    source length (u.serve u.service.service) rfl
  refine ⟨rs, hafter.trans hservice, fun hpasses => ?_⟩
  obtain ⟨hlike, hcontent, hsame⟩ := hthrough hpasses hadmits _ hmirrors
  refine ⟨?_, ?_, fun _ => ?_⟩
  · rw [hresult, hresult', congrArg Session.completed hsame]
    exact hlike.map _
  · rw [hafter, hafter']
    exact hcontent
  · rw [hreports, hreports']
    exact (congrArg Session.reports hsame).symm

/-! ## By several workers -/

theorem usedWorkers_conclude {u : Upload (Relay Blob)} (hused : u.UsedWorkers)
    (sent : Except UploadError (List Token)) (source : Source) (s : Session (Relay Blob)) :
    (u.conclude sent source s).2.2.UsedWorkers := by
  cases sent with
  | error e => exact hused
  | ok tokens =>
      match hcommitted : s.commit tokens with
      | (.error e, s') =>
          rw [conclude_of_uncommitted hcommitted]
          exact hused.enter .committing
      | (.ok commit, s') =>
          rw [conclude_of_committed hcommitted]
          exact hused.enter .committing

/-- Endings that commit the same are the same, as far as an upload by several workers can tell. -/
theorem Resembles.of_commits {start : Blob} {content : Bytes} {ids : List String}
    {ending : Ending (Relay Blob)} {ending' ending'' : Ending Blob} (h : Resembles ending ending')
    (hused : ending.2.2.UsedWorkers) (hcommits : Commits start content ids ending')
    (hcommits' : Commits start content ids ending'') : Resembles ending ending'' := by
  refine ⟨?_, h.content.trans ?_, fun hunused => absurd hused hunused⟩
  · have hresult := h.result
    rw [hcommits.result] at hresult
    rw [hcommits'.result]
    exact hresult
  · by_cases hnone : content = []
    · rw [hcommits.untouched hnone, hcommits'.untouched hnone]
    · rw [(hcommits.committed hnone).1, (hcommits'.committed hnone).1]

theorem through_runParallel {u : Upload (Relay Blob)} {source : Source}
    (hkind : u.settings.blobType = .block) (hseveral : u.settings.isParallel = true)
    (hadmits : u.service.service.Admits u.settings.leaseId) (hcalm : u.Undisturbed)
    (hbehaved : source.WellBehaved) {schedule schedule' : List Pool.Action}
    (hfree : .abort ∉ schedule) (hfree' : .abort ∉ schedule')
    (hdata : source.data.length < UInt64.size) (length : Nat) :
    u.Through (u.runParallel schedule source length)
      ((u.serve u.service.service).runParallel schedule' source length) := by
  have hparallelism : 0 < u.settings.parallelism := Nat.zero_lt_of_lt (of_decide_eq_true hseveral)
  have hcalm' : (u.serve u.service.service).Undisturbed := ⟨hcalm.abort, hcalm.watch⟩
  have haddr : ((u.serve u.service.service).job source length).Addressable :=
    Job.addressable_of_data hdata
  have hcommits := commits_runParallel (u := u.serve u.service.service) hkind hparallelism
    hadmits hcalm' hbehaved hfree' haddr
  have hstart : ((u.serve u.service.service).job source length).Follows u.service
      (Pool.ofSession ((u.enter .parallel).session (some length)) source.shared length) := by
    have hbegun := invariant_ofSession (u := (u.serve u.service.service).enter .parallel) hkind
      hparallelism (hcalm'.enter .parallel) hbehaved.serves_shared (some length) haddr
    have hsame : (Pool.ofSession ((u.enter .parallel).session (some length)) source.shared
        length).unveil = Pool.ofSession (((u.serve u.service.service).enter .parallel).session
          (some length)) source.shared length := by
      change Pool.ofSession (((u.enter .parallel).session (some length)).serve
        ((u.enter .parallel).session (some length)).service.service) source.shared length = _
      rw [service_session, ← serve_session]
      rfl
    refine ⟨[], service_session _ _, fun _ => ⟨⟨[], ?_⟩, fun k window c sent hsending => ?_⟩⟩
    · rw [hsame]
      exact hbegun
    · cases Pool.starting_of_mem_ofSession _ hsending
  obtain ⟨rs, hservice, hweathers⟩ := hstart.run hadmits hfree
  have hended : ∀ w ∈ ((Pool.ofSession ((u.enter .parallel).session (some length)) source.shared
      length).run schedule).workers, w = .ended := fun w => Pool.ended_of_mem_run
  rw [runParallel, CommonSource.ofSource_of_seeks hbehaved.seeks]
  simp only
  generalize (Pool.ofSession ((u.enter .parallel).session (some length)) source.shared length).run
    schedule = p at *
  obtain ⟨rs', hservice', hconcluded⟩ := resembles_conclude p.outcome p.common.source p.session
    (u.enter .parallel)
  rw [hservice, ← Service.after_append] at hservice'
  refine ⟨rs ++ rs', hservice', fun hpasses => ?_⟩
  obtain ⟨hfirst, hlast⟩ := hpasses.append
  obtain ⟨⟨blocks, hinv⟩, -⟩ := hweathers hfirst
  obtain ⟨houtcome, hstaged⟩ := hasStaged_of_ended hinv hended
  have hsettings : p.session.settings = u.settings := hinv.sound.settings
  rw [hsettings, hservice] at hconcluded
  have hresembles := hconcluded hlast p.outcome p.common.source p.unveil.session
    ((u.serve u.service.service).enter .parallel) (.refl _) (.intro (.refl _))
  refine hresembles.of_commits ?_ ?_ hcommits
  · exact usedWorkers_conclude (u := u.enter .parallel) ⟨hseveral, List.mem_cons_self⟩ _ _ _
  · rw [show p.outcome = _ from houtcome]
    exact commits_job hstaged (by rw [hinv.sound.settings]; exact hadmits) _

/-! ## From end to end -/

section

variable {u : Upload (Relay Blob)} {source : Source} {schedule schedule' : List Pool.Action}

theorem through_runMeasured (hkind : u.settings.isParallel = true → u.settings.blobType = .block)
    (hadmits : u.service.service.Admits u.settings.leaseId) (hcalm : u.Undisturbed)
    (hbehaved : source.WellBehaved) (hfree : .abort ∉ schedule) (hfree' : .abort ∉ schedule')
    (hdata : u.settings.isParallel = true → source.data.length < UInt64.size) (length : Nat) :
    u.Through (u.runMeasured schedule source length)
      ((u.serve u.service.service).runMeasured schedule' source length) := by
  simp only [runMeasured, settings_serve]
  split
  · exact through_failed u _ source source
  split
  · exact through_runSinglePut u hadmits source _
  by_cases hseveral : u.settings.isParallel = true
  · simp only [hseveral, if_true]
    exact through_runParallel (hkind hseveral) hseveral hadmits hcalm hbehaved hfree hfree'
      (hdata hseveral) length
  · simp only [hseveral]
    exact through_runSequential u source (some length)

theorem through_runSeekable (hkind : u.settings.isParallel = true → u.settings.blobType = .block)
    (hadmits : u.service.service.Admits u.settings.leaseId) (hcalm : u.Undisturbed)
    (hbehaved : source.WellBehaved) (hfree : .abort ∉ schedule) (hfree' : .abort ∉ schedule')
    (hdata : u.settings.isParallel = true → source.data.length < UInt64.size) :
    u.Through (runSeekable schedule source u)
      (runSeekable schedule' source (u.serve u.service.service)) := by
  simp only [runSeekable, settings_serve]
  split
  · exact through_runMeasured hkind hadmits hcalm hbehaved hfree hfree' hdata _
  · rcases hremaining : source.remaining with ⟨e | length, source'⟩
    · exact through_failed u _ source' source'
    · obtain ⟨-, rfl⟩ := Source.remaining_of_ok hremaining
      exact through_runMeasured hkind hadmits hcalm (hbehaved.withSeeks (source.seeks + 3)) hfree
        hfree' hdata length

theorem through_runStream (hadmits : u.service.service.Admits u.settings.leaseId)
    (source : Source) :
    u.Through (runStream source u) (runStream source (u.serve u.service.service)) := by
  simp only [runStream, settings_serve]
  split
  · exact through_runSinglePut u hadmits source _
  by_cases hseveral : u.settings.isParallel = true
  · simp only [hseveral, if_true]
    exact through_failed u _ source source
  · simp only [hseveral]
    exact through_runSequential u source _

/-- What holds of the run of an upload that may start holds of any upload. -/
theorem through_start {run : Source → Upload (Relay Blob) → Ending (Relay Blob)}
    {run' : Source → Upload Blob → Ending Blob}
    (hthrough : u.Through (run source (u.enter .splitting))
      (run' source ((u.serve u.service.service).enter .splitting))) :
    u.Through (u.start run source) ((u.serve u.service.service).start run' source) := by
  by_cases hidle : u.life.current = .idle
  · cases hvalid : u.settings.validate with
    | ok _ =>
        rw [start_of_valid hidle hvalid, start_of_valid (u := u.serve u.service.service) hidle
          hvalid]
        exact hthrough.settle
    | error e =>
        rw [start_of_invalid hidle hvalid,
          start_of_invalid (u := u.serve u.service.service) hidle hvalid]
        exact through_failed ((u.enter .splitting).enter .failed) e source source
  · have hidle' : (u.serve u.service.service).life.current ≠ .idle := hidle
    rw [start, if_pos hidle, start, if_pos hidle']
    exact through_failed u _ source source

end

/-- The same call, but that workers may take turns in another order. Nobody aborts either. -/
inductive Call.Peers : Call → Call → Prop
  | seekable {schedule schedule' : List Pool.Action} : .abort ∉ schedule → .abort ∉ schedule' →
    Peers (.seekable schedule) (.seekable schedule')
  | stream : Peers .stream .stream

theorem through_call {u : Upload (Relay Blob)} {source : Source} {c c' : Call}
    (hkind : u.settings.isParallel = true → u.settings.blobType = .block)
    (hadmits : u.service.service.Admits u.settings.leaseId) (hcalm : u.Undisturbed)
    (hbehaved : source.WellBehaved)
    (hdata : u.settings.isParallel = true → source.data.length < UInt64.size)
    (hpeers : c.Peers c') :
    u.Through (u.call source c) ((u.serve u.service.service).call source c') := by
  cases hpeers with
  | seekable hfree hfree' =>
      exact through_start (through_runSeekable (u := u.enter .splitting) hkind hadmits
        (hcalm.enter .splitting) hbehaved hfree hfree' hdata)
  | stream => exact through_start (through_runStream (u := u.enter .splitting) hadmits source)

/-- Faults that pass are invisible. However they hit the requests for the chunks, as long as none
hits a request more often than it may be sent again, an upload ends as it would without them: with
the same tokens and the same content, or with the same error. Only blocks, and the whole content of
a block blob, may be carried out although the answer is lost. If several workers share the source,
its length is a number of 64 bits. -/
theorem upload_through_transient_faults {u : Upload (Relay Blob)} {source : Source} {c c' : Call}
    (hkind : u.settings.isParallel = true → u.settings.blobType = .block)
    (hadmits : u.service.service.Admits u.settings.leaseId) (hcalm : u.Undisturbed)
    (hbehaved : source.WellBehaved)
    (hdata : u.settings.isParallel = true → source.data.length < UInt64.size)
    (hpeers : c.Peers c')
    (htransient : u.service.Transient u.settings.maxRetries
      (u.service.sentSince (u.call source c).2.2.service)) :
    Resembles (u.call source c) ((u.serve u.service.service).call source c') := by
  obtain ⟨rs, hservice, hresembles⟩ := through_call hkind hadmits hcalm hbehaved hdata hpeers
  rw [hservice, Relay.sentSince_after] at htransient
  exact hresembles htransient

/-- An upload by two workers, one of whom loses an answer and the other one a request. -/
def flakyUpload : Upload (Relay Blob) where
  settings := { blobType := .block, chunkSize := 2, parallelism := 2, maxRetries := 1 }
  service :=
    { service := .ofContent [7]
      faults := [{ offset := some 0, error := .transport "reset", passedOn := true },
        { offset := some 2, error := .service 503 "busy" }] }

/-- Two of three chunks are sent twice before the commit, and the workers could as well have taken
turns otherwise. -/
theorem flakyUpload_resembles :
    (flakyUpload.call (.hesitant [1, 2, 3, 4, 5])
        (.seekable [.step 0, .step 1, .step 0])).2.2.service.exchanges.length = 6 ∧
      Resembles
        (flakyUpload.call (.hesitant [1, 2, 3, 4, 5]) (.seekable [.step 0, .step 1, .step 0]))
        ((flakyUpload.serve (.ofContent [7])).call (.hesitant [1, 2, 3, 4, 5]) (.seekable [])) := by
  refine ⟨by decide +kernel, ?_⟩
  have hcalm : flakyUpload.Undisturbed := ⟨rfl, fun _ hnone => by cases hnone⟩
  exact upload_through_transient_faults (u := flakyUpload) (fun _ => rfl) (.inl rfl) hcalm
    (Source.wellBehaved_hesitant [1, 2, 3, 4, 5]) (fun _ => by decide)
    (.seekable (by decide) (by decide)) (by decide +kernel)

end Upload

end BlobUpload
