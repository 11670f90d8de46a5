import BlobUpload.Proofs.Session.LostAnswers
import BlobUpload.Proofs.Upload.Dispatch

/-! # Uploads to page blobs that lose answers

A single worker that sends pages gets them all written through faults that pass, as long as no
answer to a conditional request gets lost. All requests but the first one are conditional, and so is
the first one if the worker is told an ETag. Once such an answer is lost, the request that repeats
it is turned down, and the upload ends with the pages of that request. -/

namespace BlobUpload

namespace Upload

variable {u : Upload (Relay Blob)} {source : Source}

/-- A worker that is told the ETag of the blob, or none, may begin to chain. -/
theorem chained_session (hkind : u.settings.blobType = .page)
    (hsingle : u.settings.isParallel = false)
    (hadmits : u.service.service.Admits u.settings.leaseId)
    (hcurrent : ∀ etag, u.settings.ifMatch = some etag → etag = u.service.service.etag)
    (total : Option Nat) : (u.session total).Chained u.settings.envelope u.settings.ifMatch := by
  refine ⟨?_, by rwa [service_session], by rwa [service_session]⟩
  rw [writer_session, Settings.writer_of_page hkind, hsingle]
  rfl

theorem runSequential_through {length : Option Nat} (hkind : u.settings.blobType = .page)
    (hvalid : u.settings.validate = .ok ()) (hsingle : u.settings.isParallel = false)
    (hadmits : u.service.service.Admits u.settings.leaseId)
    (hcurrent : ∀ etag, u.settings.ifMatch = some etag → etag = u.service.service.etag)
    (hcalm : u.Undisturbed) (hdelivers : source.script.Delivers)
    (hwhole : ((u.settings.cutter length).scope source.rest).length % pageSize = 0) :
    let ending := u.runSequential source length
    ∃ rs, ending.2.2.service = Service.after u.service rs ∧
      (u.service.Bearable u.settings.maxRetries rs →
        Survives ((u.service.strikes rs).find? Fault.losesCondition) u.service.service.content
          ((u.settings.cutter length).scope source.rest) ending.1
          ending.2.2.service.service.content) := by
  obtain ⟨hchunkSize, -⟩ := Settings.of_validate hvalid
  obtain ⟨hsize, hplain, -⟩ := Settings.of_validate_page hvalid hkind
  have hcutterSize : (u.settings.cutter length).chunkSize = u.settings.chunkSize :=
    Nat.max_eq_left hchunkSize
  have hpaged : ∀ c ∈ (u.settings.cutter length).pieces
      ((u.settings.cutter length).scope source.rest), c.Paged := fun c =>
    Cutter.paged_of_mem_pieces rfl (by rwa [hcutterSize]) hwhole
  have hconsecutive := (u.settings.cutter length).consecutive_pieces
    ((u.settings.cutter length).scope source.rest)
  have hchained := chained_session (u := u.enter .sequential) hkind hsingle hadmits hcurrent
    (u.settings.progressTotal length)
  have hcalm' := (hcalm.enter .sequential).session (u.settings.progressTotal length)
  obtain ⟨rs, hafter, huncommittable, hsurvives⟩ :=
    hchained.sendEach hcalm' hconsecutive hpaged (rfl : ([] : Bytes).length = 0) rfl
  rw [Cutter.flatMap_payload_pieces, service_session, settings_session] at hsurvives
  rw [service_session] at hafter
  obtain ⟨source', hrun⟩ := runSequential_of_plain hdelivers hplain length
  rw [hrun]
  obtain ⟨summarize, -, hresult, hservice⟩ := conclude_of_uncommittable
    (fun tokens hsent => by rw [huncommittable tokens hsent]; exact nofun) source'
    (u.enter .sequential)
  refine ⟨rs, hservice.trans hafter, fun hbearable => ?_⟩
  simp only [hresult, hservice]
  exact (hsurvives hbearable).map summarize

/-- The pages of an upload by a single worker whose blob nobody else writes are all written, through
faults of whatever kind that pass, unless an answer to a request that states an ETag gets lost. The
first request whose answer gets lost that way is the last one to write anything: sent again, it is
turned down. -/
theorem upload_pages_through (hidle : u.life.current = .idle) (hkind : u.settings.blobType = .page)
    (hvalid : u.settings.validate = .ok ()) (hsingle : u.settings.isParallel = false)
    (hadmits : u.service.service.Admits u.settings.leaseId)
    (hcurrent : ∀ etag, u.settings.ifMatch = some etag → etag = u.service.service.etag)
    (hcalm : u.Undisturbed) (hbehaved : source.WellBehaved)
    (hwhole : (u.settings.excerpt source).length % pageSize = 0) (c : Call) :
    let ending := u.call source c
    let hits := u.service.strikes (u.service.sentSince ending.2.2.service)
    u.service.Bearable u.settings.maxRetries (u.service.sentSince ending.2.2.service) →
      Survives (hits.find? Fault.losesCondition) u.service.service.content
        (u.settings.excerpt source) ending.1 ending.2.2.service.service.content := by
  obtain ⟨-, -, hknown⟩ := Settings.of_validate_page hvalid hkind
  have hchunked (length : Option Nat) : u.settings.singlePutLength? length = none :=
    Option.eq_none_iff_forall_ne_some.2 fun m hput =>
      nomatch hkind.symm.trans (Settings.of_singlePutLength? hput).1
  obtain ⟨length, seeks, hmeasured, hfits⟩ : ∃ length seeks,
      u.measure source c = (.ok length, { source with seeks }) ∧ u.misfit? c length = none := by
    cases c with
    | stream => exact ⟨_, source.seeks, rfl, rfl⟩
    | seekable schedule =>
        obtain ⟨seeks, hmeasured⟩ := measure_of_seeks (u := u) hbehaved.seeks schedule
        refine ⟨_, seeks, hmeasured, Settings.lengthViolation?_of_pages ?_⟩
        -- What is checked is the length that is asked for, even where the source ends before it.
        cases hlength : u.settings.sourceLength with
        | some m => exact hknown m hlength
        | none => rwa [Settings.excerpt, hlength] at hwhole
  obtain ⟨_, -, hscope⟩ := of_measure hmeasured
  have hexcerpt : ((u.enter .splitting).settings.cutter length).scope
      ({ source with seeks } : Source).rest = u.settings.excerpt source := hscope
  have hbehaved' := hbehaved.withSeeks seeks
  obtain ⟨rs, hafter, hsurvives⟩ := runSequential_through (u := u.enter .splitting) hkind hvalid
    hsingle hadmits hcurrent (hcalm.enter .splitting) hbehaved'.delivers (by rwa [hexcerpt])
  have hsent : u.service.sentSince
      ((u.enter .splitting).runSequential { source with seeks } length).2.2.service = rs := by
    rw [hafter]
    exact Relay.sentSince_after u.service rs
  rw [call_of_chunked hidle hvalid hsingle hmeasured (hchunked length), hfits]
  simp only [service_settle, result_settle, hsent]
  rwa [hexcerpt] at hsurvives

/-- A page of bytes. -/
def onePage : Source := { data := List.replicate pageSize 7 }

theorem wellBehaved_onePage : onePage.WellBehaved := ⟨Script.delivers_free, rfl⟩

/-- The first page is sent to a new blob, whose first answer gets lost. -/
def lossyPage (ifMatch : Option String) : Upload (Relay Blob) where
  settings := { blobType := .page, chunkSize := pageSize, ifMatch }
  service := { service := {}, faults := [{ error := .transport "lost", passedOn := true }] }

theorem validate_lossyPage (ifMatch : Option String) :
    (lossyPage ifMatch).settings.validate = .ok () :=
  Settings.validate_of_page rfl (by decide : 0 < pageSize) (Nat.mod_self pageSize) Nat.one_pos
    (by decide : 0 < defaultWindowCapacity) rfl nofun

theorem call_lossyPage (ifMatch : Option String)
    (hkind : ((lossyPage ifMatch).streamed onePage).2.writer.blobType ≠ .block) :
    ∃ summarize, ((lossyPage ifMatch).call onePage .stream).1 =
        ((lossyPage ifMatch).streamed onePage).1.map summarize ∧
      ((lossyPage ifMatch).call onePage .stream).2.2.service =
        ((lossyPage ifMatch).streamed onePage).2.service :=
  call_stream_of_uncommittable rfl (validate_lossyPage ifMatch) rfl rfl
    wellBehaved_onePage.delivers rfl hkind

/-- Told the ETag of the blob, a worker that loses the answer to its first request is turned
down. -/
theorem lossyPage_stale :
    let u := lossyPage (some (etagOf 0))
    let ending := u.call onePage .stream
    u.settings.validate = .ok () ∧ u.settings.isParallel = false ∧
      u.settings.ifMatch = some u.service.service.etag ∧ u.Undisturbed ∧ onePage.WellBehaved ∧
      (u.settings.excerpt onePage).length % pageSize = 0 ∧
      u.service.Bearable u.settings.maxRetries (u.service.sentSince ending.2.2.service) ∧
      ending.1 = .error (.condition 0 (Rejection.staleETag (etagOf 0)).message) := by
  have hfailed : ((lossyPage (some (etagOf 0))).streamed onePage).1 =
      .error (.condition 0 (Rejection.staleETag (etagOf 0)).message) := by decide +kernel
  obtain ⟨summarize, hresult, hservice⟩ :=
    call_lossyPage (some (etagOf 0)) (by decide +kernel)
  simp only [hresult, hservice, hfailed]
  exact ⟨validate_lossyPage _, rfl, rfl, ⟨rfl, nofun⟩, wellBehaved_onePage, by decide +kernel,
    by decide +kernel, rfl⟩

/-- Told no ETag, it sends the page again and is done. -/
theorem upload_pages_through_lossyPage :
    Survives none [] onePage.data ((lossyPage none).call onePage .stream).1
        ((lossyPage none).call onePage .stream).2.2.service.service.content ∧
      ∃ hit, Survives (some hit) [] onePage.data
        ((lossyPage (some (etagOf 0))).call onePage .stream).1
        ((lossyPage (some (etagOf 0))).call onePage .stream).2.2.service.service.content := by
  have hends (ifMatch : Option String) (hcurrent : ∀ etag, ifMatch = some etag → etag = etagOf 0) :=
    upload_pages_through (u := lossyPage ifMatch) rfl rfl
      (validate_lossyPage ifMatch) rfl (.inr rfl) hcurrent ⟨rfl, nofun⟩ wellBehaved_onePage
      (Nat.mod_self pageSize ▸ congrArg (· % pageSize) List.length_replicate) .stream
  refine ⟨?_, ?_⟩
  · obtain ⟨-, -, hservice⟩ := call_lossyPage none (by decide +kernel)
    have hsurvives := hends none nofun
    simp only [hservice] at hsurvives ⊢
    have hkept : ((lossyPage none).service.strikes ((lossyPage none).service.sentSince
        ((lossyPage none).streamed onePage).2.service)).find? Fault.losesCondition = none := by
      decide +kernel
    rw [hkept] at hsurvives
    exact hsurvives (by decide +kernel)
  · obtain ⟨-, -, hservice⟩ := call_lossyPage (some (etagOf 0)) (by decide +kernel)
    have hsurvives := hends (some (etagOf 0)) fun _ hsame => (Option.some.inj hsame).symm
    simp only [hservice] at hsurvives ⊢
    obtain ⟨hit, hlost⟩ : ∃ hit, ((lossyPage (some (etagOf 0))).service.strikes
        ((lossyPage (some (etagOf 0))).service.sentSince ((lossyPage
          (some (etagOf 0))).streamed onePage).2.service)).find? Fault.losesCondition = some hit :=
      Option.isSome_iff_exists.1 (by decide +kernel)
    rw [hlost] at hsurvives
    exact ⟨hit, hsurvives (by decide +kernel)⟩

end Upload

end BlobUpload
