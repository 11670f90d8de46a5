import BlobUpload.Proofs.Session.ErrorOrigin
import BlobUpload.Proofs.Upload.EmptySource
import BlobUpload.Proofs.Upload.StreamEquivalence

/-! # The whole at once or block by block

A source that is short enough is gathered and put by one request; otherwise its chunks are staged
and committed. Over a service that refuses nothing both ways lead to the same content under the same
ETag, or fail with the same error of the source before anything is visible. -/

namespace BlobUpload

/-! ## Answers that break off -/

/-- A cutter's answers are chunks, up to an error if there is one. -/
theorem chunks_or_error (answers : List (Except UploadError Chunk)) :
    (∃ cs : List Chunk, answers = cs.map .ok) ∨
      ∃ (cs : List Chunk) (e : UploadError) (rest : List (Except UploadError Chunk)),
        answers = cs.map .ok ++ .error e :: rest := by
  induction answers with
  | nil => exact .inl ⟨[], rfl⟩
  | cons answer answers ih =>
      cases answer with
      | error e => exact .inr ⟨[], e, answers, rfl⟩
      | ok c =>
          rcases ih with ⟨cs, rfl⟩ | ⟨cs, e, rest, rfl⟩
          · exact .inl ⟨c :: cs, rfl⟩
          · exact .inr ⟨c :: cs, e, rest, rfl⟩

theorem joinAll_of_error (cs : List Chunk) (e : UploadError)
    (rest : List (Except UploadError Chunk)) :
    joinAll (cs.map .ok ++ .error e :: rest) = .error e := by
  induction cs with
  | nil => rfl
  | cons c cs ih =>
      rw [List.map_cons, List.cons_append, joinAll, ih]

/-- What breaks off behind chunks that are sent is sent up to there. -/
theorem sendEach_of_error {σ : Type} [Service σ] {cs : List Chunk} {s t : Session σ}
    {tokens : List Token} (hsent : sendEach (cs.map .ok) s = (.ok tokens, t)) (e : UploadError)
    (rest : List (Except UploadError Chunk)) :
    sendEach (cs.map .ok ++ .error e :: rest) s = (.error e, t) := by
  induction cs generalizing s tokens with
  | nil =>
      cases hsent
      rfl
  | cons c cs ih =>
      rw [List.map_cons] at hsent
      rcases hclear : s.checkAbort c.offset with ⟨e' | _, s₁⟩
      · rw [sendEach, hclear] at hsent
        cases hsent
      rcases hwritten : s₁.send c with ⟨e' | token, s₂⟩
      · rw [sendEach_of_failed hclear hwritten] at hsent
        cases hsent
      rw [sendEach_of_sent hclear hwritten] at hsent
      rcases htail : sendEach (cs.map .ok) s₂ with ⟨e' | tokens', s₃⟩
      · rw [htail] at hsent
        cases hsent
      · rw [htail] at hsent
        cases hsent
        rw [List.map_cons, List.cons_append, sendEach_of_sent hclear hwritten, ih htail]
        rfl

namespace Upload

/-! ## Block by block -/

section

variable {u : Upload Blob} {source : Source} {length : Option Nat} {cs : List Chunk}

/-- The session that a single worker begins, and what it has staged in the end. -/
theorem stages_sequential (hkind : u.settings.blobType = .block)
    (hadmits : u.service.Admits u.settings.leaseId) (hcalm : u.Undisturbed) (total : Option Nat)
    (cs : List Chunk) :
    ∃ t, sendEach (cs.map .ok) ((u.enter .sequential).session total) =
        (.ok (cs.map fun c => .block (blockId c.offset)), t) ∧
      t.service = u.service.stageAll (cs.map Chunk.block) ∧
      t.writer = .block u.settings.envelope ∧ t.settings = u.settings ∧
      t.completed = (cs.flatMap Chunk.payload).length := by
  have hcalm' := (hcalm.enter .sequential).session total
  have hwriter : ((u.enter .sequential).session total).writer = .block u.settings.envelope :=
    (writer_session _ _).trans (Settings.writer_of_block hkind)
  have hadmits' :
      ((u.enter .sequential).session total).service.Admits u.settings.envelope.lease := by
    rw [service_session]
    exact hadmits
  obtain ⟨t, hrun, hservice, hwriter', hsettings, -, hcompleted⟩ :=
    sendEach_block hwriter hadmits' hcalm' cs
  rw [service_session] at hservice
  rw [settings_session] at hsettings
  rw [completed_session, Nat.zero_add] at hcompleted
  exact ⟨t, hrun, hservice, hwriter'.trans hwriter, hsettings, hcompleted⟩

/-- Chunks that are staged one after another are published under the next ETag. -/
theorem runSequential_publishes (hkind : u.settings.blobType = .block)
    (hadmits : u.service.Admits u.settings.leaseId) (hcalm : u.Undisturbed)
    (hanswers : ((u.settings.cutter length).toList source).1 = cs.map .ok) (hne : cs ≠ []) :
    (u.runSequential source length).1 = .ok
        { tokens := cs.map fun c => .block (blockId c.offset)
          bytesSent := (cs.flatMap Chunk.payload).length
          chunkCount := cs.length
          commit := some (etagOf (u.service.revision + 1)) } ∧
      (u.runSequential source length).2.2.service.content = cs.flatMap Chunk.payload ∧
      (u.runSequential source length).2.2.service.etag = etagOf (u.service.revision + 1) := by
  have hconsecutive := Cutter.consecutive_toList (u.settings.cutter length) source
  rw [hanswers, Chunk.ofAnswers_map_ok] at hconsecutive
  obtain ⟨t, hrun, hservice, hwriter, hsettings, hcompleted⟩ :=
    stages_sequential hkind hadmits hcalm (u.settings.progressTotal length) cs
  have hrevision : t.service.revision = u.service.revision := by
    rw [hservice]
    exact (u.service.stageAll_frame _).2.2.1
  have hadmits' : t.service.Admits t.settings.leaseId := by
    rw [hservice, hsettings]
    exact Blob.admits_stageAll hadmits _
  have hstaged :
      ∀ block ∈ cs.map Chunk.block, t.service.stagedBlock? block.1 = some block.2 := by
    rw [hservice]
    exact u.service.stagedBlock?_of_consecutive hconsecutive (fun _ => id)
      fun c hc => List.mem_map.2 ⟨c, hc, rfl⟩
  rw [runSequential_eq, hanswers, hrun,
    conclude_of_committed (Session.commit_block hwriter hadmits' hne hstaged), hcompleted,
    hrevision,
    List.length_map]
  refine ⟨rfl, rfl, ?_⟩
  exact congrArg (fun n => etagOf (n + 1)) hrevision

/-- A source that breaks off leaves staged blocks behind, of which nothing is visible. -/
theorem runSequential_of_error {e : UploadError} {rest : List (Except UploadError Chunk)}
    (hkind : u.settings.blobType = .block) (hadmits : u.service.Admits u.settings.leaseId)
    (hcalm : u.Undisturbed)
    (hanswers : ((u.settings.cutter length).toList source).1 = cs.map .ok ++ .error e :: rest) :
    (u.runSequential source length).1 = .error e ∧
      (u.runSequential source length).2.2.service.visible = u.service.visible := by
  obtain ⟨t, hrun, hservice, -⟩ :=
    stages_sequential hkind hadmits hcalm (u.settings.progressTotal length) cs
  rw [runSequential_eq, hanswers, sendEach_of_error hrun]
  refine ⟨rfl, ?_⟩
  change t.service.visible = _
  obtain ⟨hcontent, hcommitted, hrevision, -⟩ := u.service.stageAll_frame (cs.map Chunk.block)
  rw [hservice, Blob.visible, Blob.visible, Blob.etag, Blob.etag, hcontent, hcommitted, hrevision]

end

/-! ## The whole at once -/

section

variable {u : Upload (Relay Blob)} {source : Source} {n : Nat}

theorem runSinglePut_of_chunks {cs : List Chunk} (hclear : u.service.faults = [])
    (hadmits : u.service.service.Admits u.settings.leaseId) (hcalm : u.Undisturbed)
    (hanswers : ((u.settings.cutter (some n)).toList source).1 = cs.map .ok) :
    (u.runSinglePut source n).1 = .ok
        { tokens := []
          bytesSent := (cs.flatMap Chunk.payload).length
          chunkCount := 1
          commit := some (etagOf (u.service.service.revision + 1)) } ∧
      (u.runSinglePut source n).2.2.service =
        u.service.record (.putBlob (u.settings.envelope.body (cs.flatMap Chunk.payload))) none
          (u.service.service.put (cs.flatMap Chunk.payload)) [] := by
  have hcalm' := (hcalm.enter .sequential).session (u.settings.progressTotal (some n))
  have hgathered : gather (u.settings.cutter (some n)) source =
      (.ok (cs.flatMap Chunk.payload), (gather (u.settings.cutter (some n)) source).2) :=
    Prod.ext (by rw [gather_eq_joinAll, hanswers, joinAll_map_ok]) rfl
  have hanswered : Service.answer
      (.putBlob (u.settings.envelope.body (cs.flatMap Chunk.payload))) u.service =
        (.ok (etagOf (u.service.service.revision + 1)),
          u.service.record (.putBlob (u.settings.envelope.body (cs.flatMap Chunk.payload))) none
            (u.service.service.put (cs.flatMap Chunk.payload)) []) := by
    rw [Relay.answer_of_clear hclear, Blob.answer_putBlob hadmits]
    rfl
  obtain ⟨reports, abort, hsession⟩ :=
    session_eq (u.settings.progressTotal (some n)) (u.enter .sequential)
  have hput := sendWhole_of_put hgathered (Session.checkAbort_of_undisturbed hcalm' 0)
    (by rw [hsession]; exact deliver_of_answered hanswered _ _)
  have hsettings : (u.enter .sequential).settings = u.settings := rfl
  simp only [runSinglePut, hsettings, hput]
  refine ⟨?_, Session.service_advance _ _⟩
  rw [Session.completed_advance]
  simp only [completed_session, Nat.zero_add]

/-- Nothing is sent of a source that breaks off. -/
theorem runSinglePut_of_error {cs : List Chunk} {e : UploadError}
    {rest : List (Except UploadError Chunk)}
    (hanswers : ((u.settings.cutter (some n)).toList source).1 = cs.map .ok ++ .error e :: rest) :
    (u.runSinglePut source n).1 = .error e ∧
      (u.runSinglePut source n).2.2.service = u.service := by
  have hgathered : gather (u.settings.cutter (some n)) source =
      (.error e, (gather (u.settings.cutter (some n)) source).2) :=
    Prod.ext (by rw [gather_eq_joinAll, hanswers, joinAll_of_error]) rfl
  have hsettings : (u.enter .sequential).settings = u.settings := rfl
  simp only [runSinglePut, hsettings, sendWhole_of_ungathered hgathered, true_and]
  exact service_session _ _

/-! ## Both -/

/-- The same upload, that puts by one request what is shorter than the threshold. -/
def puttingBelow (threshold : Option Nat) (u : Upload (Relay Blob)) : Upload (Relay Blob) :=
  { u with settings := { u.settings with singlePutThreshold := threshold } }

/-- How the upload of the whole compares to the one block by block, when the cutter gives these
answers. -/
inductive PutsLikeBlocks (settings : Settings) (start : Relay Blob)
    (answers : List (Except UploadError Chunk)) (whole blocks : Ending (Relay Blob)) : Prop where
  /-- Both have written the payload under the same ETag, the first one by a single request. -/
  | written {payload : Bytes} {tokens : List Token} {count : Nat} {etag : String} :
    joinAll answers = .ok payload →
    whole.1 = .ok ⟨[], payload.length, 1, some etag⟩ →
    blocks.1 = .ok ⟨tokens, payload.length, count, some etag⟩ →
    whole.2.2.service.exchanges =
      start.exchanges ++ [⟨.putBlob (settings.envelope.body payload), none⟩] →
    whole.2.2.service.service.content = payload →
    blocks.2.2.service.service.content = payload →
    whole.2.2.service.service.etag = etag → blocks.2.2.service.service.etag = etag →
    PutsLikeBlocks settings start answers whole blocks
  /-- The source has failed both, the first one before any request and the second one before
  anything was visible. -/
  | failed {offset : Nat} {cause : SourceError} :
    joinAll answers = .error (.source offset cause) →
    whole.1 = .error (.source offset cause) → blocks.1 = .error (.source offset cause) →
    whole.2.2.service = start →
    blocks.2.2.service.service.visible = start.service.visible →
    PutsLikeBlocks settings start answers whole blocks
  /-- The settings are refused. -/
  | refused {e : UploadError} :
    settings.validate = .error e → whole.1 = .error e → blocks.1 = .error e →
    whole.2.2.service = start → blocks.2.2.service = start →
    PutsLikeBlocks settings start answers whole blocks

theorem PutsLikeBlocks.settle {settings : Settings} {start : Relay Blob}
    {answers : List (Except UploadError Chunk)} {whole blocks : Ending (Relay Blob)}
    (h : PutsLikeBlocks settings start answers whole blocks) :
    PutsLikeBlocks settings start answers (settle whole) (settle blocks) := by
  cases h with
  | written hjoined hresult hresult' hsent hcontent hcontent' hetag hetag' =>
      refine .written hjoined ((result_settle _).trans hresult) ((result_settle _).trans hresult')
        ?_ ?_ ?_ ?_ ?_ <;> rwa [service_settle]
  | failed hbroken hresult hresult' hunsent hvisible =>
      refine .failed hbroken ((result_settle _).trans hresult) ((result_settle _).trans hresult')
        ?_ ?_ <;> rwa [service_settle]
  | refused hinvalid hresult hresult' hunsent hunsent' =>
      refine .refused hinvalid ((result_settle _).trans hresult) ((result_settle _).trans hresult')
        ?_ ?_ <;> rwa [service_settle]

/-- Behind a relay without faults a single worker does what it does without a relay. -/
theorem agree_runSequential_of_clear (hclear : u.service.faults = []) (hcalm : u.Undisturbed)
    (source : Source) (length : Option Nat) :
    Agree (fun relay b => relay.faults = [] ∧ relay.service = b) (u.runSequential source length)
      ((u.serve u.service.service).runSequential source length) := by
  refine agree_runSequential Relay.similar_clear ⟨hclear, rfl⟩ (fun watch hwatched => ?_) rfl
  intro reports reports' _
  rw [hcalm.watch watch hwatched, hcalm.watch watch hwatched]

theorem putsLikeBlocks_runs {answers : List (Except UploadError Chunk)} (t t' : Option Nat)
    (hkind : u.settings.blobType = .block) (hadmits : u.service.service.Admits u.settings.leaseId)
    (hclear : u.service.faults = []) (hcalm : u.Undisturbed)
    (hcut : ((u.settings.cutter (some n)).toList source).1 = answers) (hne : answers ≠ []) :
    PutsLikeBlocks u.settings u.service answers ((u.puttingBelow t).runSinglePut source n)
      ((u.puttingBelow t').runSequential source (some n)) := by
  let v := u.puttingBelow t'
  have hcalm' : (u.puttingBelow t).Undisturbed := ⟨hcalm.abort, hcalm.watch⟩
  have hcalmv : (v.serve v.service.service).Undisturbed := ⟨hcalm.abort, hcalm.watch⟩
  obtain ⟨hresult', -, hservice'⟩ := agree_runSequential_of_clear (u := v) hclear
    ⟨hcalm.abort, hcalm.watch⟩ source (some n)
  rcases chunks_or_error answers with ⟨cs, rfl⟩ | ⟨cs, e, rest, rfl⟩
  · obtain ⟨hresult, hservice⟩ :=
      runSinglePut_of_chunks (u := u.puttingBelow t) hclear hadmits hcalm' hcut
    obtain ⟨hpublished, hcontent, hetag⟩ :=
      runSequential_publishes (u := v.serve v.service.service) hkind hadmits hcalmv hcut
        fun hnone => hne (by rw [hnone]; rfl)
    refine .written (joinAll_map_ok cs) hresult (hresult'.trans hpublished) ?_ ?_ ?_ ?_ ?_
    · rw [hservice]
      rfl
    · rw [hservice]
      rfl
    · rw [hservice']
      exact hcontent
    · rw [hservice]
      rfl
    · rw [hservice']
      exact hetag
  · have hmem : .error e ∈ ((u.settings.cutter (some n)).toList source).1 := by
      rw [hcut]
      exact List.mem_append_right _ List.mem_cons_self
    obtain ⟨offset, cause, rfl⟩ :=
      Cutter.source_of_mem_toList (u.settings.fresh_cutter (some n)) hmem
    obtain ⟨hresult, hservice⟩ := runSinglePut_of_error (u := u.puttingBelow t) hcut
    obtain ⟨hbroken, hvisible⟩ :=
      runSequential_of_error (u := v.serve v.service.service) hkind hadmits hcalmv hcut
    refine .failed (joinAll_of_error cs _ rest) hresult (hresult'.trans hbroken) hservice ?_
    rw [hservice']
    exact hvisible

/-- An upload that is short enough to be put by one request ends like the one that stages its
chunks and commits them: both well, with the same content under the same ETag, or both by the same
failure of the source, with nothing changed that is visible. -/
theorem put_agrees_with_blocks {source' : Source} {c : Call} {length threshold : Nat}
    (hidle : u.life.current = .idle) (hkind : u.settings.blobType = .block)
    (halone : u.settings.parallelism = 1)
    (hmeasured : u.measure source c = (.ok (some length), source')) (hpos : 0 < length)
    (hshort : length < threshold) (hadmits : u.service.service.Admits u.settings.leaseId)
    (hclear : u.service.faults = []) (hcalm : u.Undisturbed)
    (hne : ((u.settings.cutter (some length)).toList source').1 ≠ []) :
    PutsLikeBlocks u.settings u.service ((u.settings.cutter (some length)).toList source').1
      ((u.puttingBelow (some threshold)).call source c)
      ((u.puttingBelow none).call source c) := by
  have hidle' (t : Option Nat) : (u.puttingBelow t).life.current = .idle := hidle
  have hmeasured' (t : Option Nat) : (u.puttingBelow t).measure source c =
      (.ok (some length), source') := by
    cases c with
    | seekable schedule => exact hmeasured
    | stream => exact hmeasured
  cases hvalid : u.settings.validate with
  | error e =>
      have hvalid' (t : Option Nat) : (u.puttingBelow t).settings.validate = .error e := hvalid
      rw [call_of_invalid (hidle' _) (hvalid' _), call_of_invalid (hidle' _) (hvalid' _)]
      exact .refused hvalid rfl rfl rfl rfl
  | ok _ =>
      have hvalid' (t : Option Nat) : (u.puttingBelow t).settings.validate = .ok () := hvalid
      have hfits : (u.puttingBelow (some threshold)).settings.singlePutLength? (some length) =
          some length := by
        simp only [puttingBelow, Settings.singlePutLength?, hkind, hpos, hshort, decide_true,
          Bool.and_self, if_true]
      have hchunked : (u.puttingBelow none).settings.singlePutLength? (some length) = none :=
        Settings.singlePutLength?_of_none rfl _
      have hblock : u.settings.blobType ≠ .page := by rw [hkind]; exact nofun
      have hfit : (u.puttingBelow none).misfit? c (some length) = none := by
        cases c with
        | seekable schedule => exact Settings.lengthViolation?_of_ne_page hblock length
        | stream => rfl
      rw [call_of_whole (hidle' _) (hvalid' _) (hmeasured' _) hfits,
        call_of_chunked (hidle' none) (hvalid' none) (Settings.isParallel_of_alone halone)
          (hmeasured' none) hchunked, hfit]
      have hruns := putsLikeBlocks_runs (u := u.enter .splitting) (some threshold) none hkind
        hadmits hclear (hcalm.enter .splitting) rfl hne
      exact hruns.settle

end

/-- Five bytes are asked for, over a leased blob that holds one. -/
def leasedUpload : Upload (Relay Blob) where
  settings := { blobType := .block, chunkSize := 2, leaseId := some "lease" }
  service := { service := { Blob.ofContent [7] with lease := some "lease" } }

theorem undisturbed_leasedUpload : leasedUpload.Undisturbed := ⟨rfl, nofun⟩

/-- The first source stalls behind three bytes, which then are all that is written; the second one
fails behind its first chunk. -/
theorem leasedUpload_puts_like_blocks :
    let stalling : Source :=
      { data := [1, 2, 3, 4, 5], script := .ofList [.upTo 1, .upTo 1, .upTo 1, .upTo 0] }
    let failing : Source :=
      { data := [1, 2, 3, 4, 5], script := .ofList [.upTo 2, .fail ⟨.other "Other", "gone"⟩] }
    let answers (source : Source) := ((leasedUpload.settings.cutter (some 5)).toList source).1
    joinAll (answers { stalling with seeks := 3 }) = .ok [1, 2, 3] ∧
      PutsLikeBlocks leasedUpload.settings leasedUpload.service
        (answers { stalling with seeks := 3 })
        ((leasedUpload.puttingBelow (some 6)).call stalling (.seekable []))
        ((leasedUpload.puttingBelow none).call stalling (.seekable [])) ∧
      PutsLikeBlocks leasedUpload.settings leasedUpload.service
        (answers { failing with seeks := 3 })
        ((leasedUpload.puttingBelow (some 6)).call failing (.seekable []))
        ((leasedUpload.puttingBelow none).call failing (.seekable [])) := by
  intro stalling failing answers
  have hmeasured : leasedUpload.measure stalling (.seekable []) =
      (.ok (some 5), { stalling with seeks := 3 }) := rfl
  have hmeasured' : leasedUpload.measure failing (.seekable []) =
      (.ok (some 5), { failing with seeks := 3 }) := rfl
  refine ⟨by decide +kernel, ?_, ?_⟩
  · exact put_agrees_with_blocks rfl rfl rfl hmeasured (by decide) (by decide) (.inr rfl) rfl
      undisturbed_leasedUpload (by decide +kernel)
  · exact put_agrees_with_blocks rfl rfl rfl hmeasured' (by decide) (by decide) (.inr rfl) rfl
      undisturbed_leasedUpload (by decide +kernel)

end Upload

end BlobUpload
