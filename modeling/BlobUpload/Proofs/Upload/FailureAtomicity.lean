import BlobUpload.Proofs.Pool.FiledTokens
import BlobUpload.Proofs.Upload.Dispatch

/-! # Uploads to block blobs that may fail

Whatever goes wrong, an upload to a block blob sends blocks and at most one list of blocks after
them, or nothing but the whole content. The list is only sent when all chunks have been cut and
acknowledged, so a failed upload leaves what readers see of the blob as it was. -/

namespace BlobUpload.Upload

variable {σ : Type} [Service σ]

/-- All that a call asks for has been cut into chunks, and all the chunks have a property. -/
inductive CutsAll (P : Chunk → Prop) (source : Source) (u : Upload σ) : Call → Prop
  | chunks {c : Call} {cs : List Chunk} : u.settings.isParallel = false →
    u.CutsInto source c cs → (∀ chunk ∈ cs, P chunk) → CutsAll P source u c
  | workers {schedule : List Pool.Action} {length : Nat} {source' source'' : Source}
    {common : CommonSource} {p : Pool σ} : u.settings.isParallel = true →
    u.measure source (.seekable schedule) = (.ok (some length), source') →
    CommonSource.ofSource source' = (.ok common, source'') →
    p = Pool.ofSession (u.session (some length)) common length → (p.run schedule).queue = [] →
    (∀ chunk, p.Cuts (p.actions schedule) chunk → P chunk) → CutsAll P source u (.seekable schedule)

/-- What has been sent when an upload to a block blob ends. -/
inductive Sends (source : Source) (u : Upload σ) (c : Call) (ending : Ending σ) : Prop
  | blocks {rs : List Request} : ending.2.2.service = Service.after u.service rs →
    (∀ r ∈ rs, r.method = .putBlock) → Sends source u c ending
  | list {rs : List Request} {ids : List String} {lease : Option String} :
    ending.2.2.service = Service.after u.service (rs ++ [.putBlockList ids lease]) →
    (∀ r ∈ rs, r.method = .putBlock) →
    CutsAll (fun chunk => blockId chunk.offset ∈ ids ∧
      Acknowledged (.putBlock (blockId chunk.offset) (u.settings.envelope.body chunk.payload))
        u.service rs) source u c →
    (∀ e, ending.1 = .error e →
      ∃ e', (Service.answer (.putBlockList ids lease) (Service.after u.service rs)).1 = .error e') →
    Sends source u c ending
  | whole {n : Nat} {r : Request} :
    ending.2.2.service = Service.after u.service (List.replicate n r) → r.method = .putBlob →
    (∀ e, ending.1 = .error e → ¬Acknowledged r u.service (List.replicate n r)) →
    Sends source u c ending

variable {u : Upload σ} {source : Source} {c : Call}

theorem CutsAll.imp {P Q : Chunk → Prop} (hcut : CutsAll P source u c)
    (h : ∀ chunk, P chunk → Q chunk) : CutsAll Q source u c := by
  cases hcut with
  | chunks halone hinto hall =>
      exact .chunks halone hinto fun chunk hmem => h chunk (hall chunk hmem)
  | workers hseveral hmeasured hshared hpool hqueue hall =>
      exact .workers hseveral hmeasured hshared hpool hqueue fun chunk hcut =>
        h chunk (hall chunk hcut)

theorem blockId_mem_filterMap {tokens : List Token} {id : String} (h : .block id ∈ tokens) :
    id ∈ tokens.filterMap Token.blockId? := List.mem_filterMap.2 ⟨_, h, rfl⟩

/-- Once all chunks have been cut and acknowledged, or the sending has failed, an upload commits or
gives up. -/
theorem sends_conclude {rs : List Request} {sent : Except UploadError (List Token)}
    {source' : Source} {s : Session σ} {phase : Phase}
    (hstaging : s.Staging u.settings.envelope u.service rs)
    (hall : ∀ tokens, sent = .ok tokens → CutsAll (fun chunk =>
      .block (blockId chunk.offset) ∈ tokens ∧
        Acknowledged ((Writer.block u.settings.envelope).request chunk) u.service rs) source u c) :
    Sends source u c ((u.enter phase).conclude sent source' s) := by
  cases sent with
  | error e => exact .blocks hstaging.service hstaging.blocks
  | ok tokens =>
      by_cases hnone : tokens = []
      · subst hnone
        rw [conclude_of_committed s.commit_nil]
        exact .blocks hstaging.service hstaging.blocks
      · have hblock : ¬(s.writer.blobType ≠ .block || tokens = []) = true := by
          simp [hnone, hstaging.writer, Writer.blobType]
        have hcut := (hall tokens rfl).imp fun chunk => And.imp_left blockId_mem_filterMap
        have hsent := Service.after_concat u.service rs
          (.putBlockList (tokens.filterMap Token.blockId?) s.settings.leaseId)
        rw [← hstaging.service] at hsent
        rw [conclude]
        rcases hanswered : Service.answer
          (.putBlockList (tokens.filterMap Token.blockId?) s.settings.leaseId) s.service with
          ⟨e | etag, service⟩
        · have hcommit : s.commit tokens = (.error (.commit e), { s with service }) := by
            rw [Session.commit, if_neg hblock, hanswered]
          rw [hanswered] at hsent
          simp only [hcommit]
          refine .list hsent.symm hstaging.blocks hcut fun _ _ => ⟨e, ?_⟩
          rw [← hstaging.service, hanswered]
        · have hcommit : s.commit tokens = (.ok (some etag), { s with service }) := by
            rw [Session.commit, if_neg hblock, hanswered]
          rw [hanswered] at hsent
          simp only [hcommit]
          exact .list hsent.symm hstaging.blocks hcut fun _ hfailed => by cases hfailed

theorem Sends.settle {ending : Ending σ} (h : Sends source u c ending) :
    Sends source u c (settle ending) := by
  cases h with
  | blocks hservice hblocks => exact .blocks ((service_settle ending).trans hservice) hblocks
  | list hservice hblocks hcut hrefused =>
      exact .list ((service_settle ending).trans hservice) hblocks hcut
        (by simpa only [result_settle] using hrefused)
  | whole hservice hput hrefused =>
      exact .whole ((service_settle ending).trans hservice) hput
        (by simpa only [result_settle] using hrefused)

/-- A phase makes no difference to what is cut and sent. -/
theorem CutsAll.of_enter {P : Chunk → Prop} {phase : Phase}
    (hcut : CutsAll P source (u.enter phase) c) : CutsAll P source u c := by
  cases hcut with
  | chunks halone hinto hall => exact .chunks halone hinto hall
  | workers hseveral hmeasured hshared hpool hqueue hall =>
      exact .workers hseveral hmeasured hshared hpool hqueue hall

theorem Sends.of_enter {ending : Ending σ} {phase : Phase}
    (h : Sends source (u.enter phase) c ending) : Sends source u c ending := by
  cases h with
  | blocks hservice hblocks => exact .blocks hservice hblocks
  | list hservice hblocks hcut hrefused => exact .list hservice hblocks hcut.of_enter hrefused
  | whole hservice hput hrefused => exact .whole hservice hput hrefused

theorem staging_session (hkind : u.settings.blobType = .block) (total : Option Nat) :
    (u.session total).Staging u.settings.envelope u.service [] := by
  exact ⟨service_session total u, (writer_session total u).trans (Settings.writer_of_block hkind),
    nofun⟩

theorem sends_runSequential (hkind : u.settings.blobType = .block) {length : Option Nat}
    {source' : Source} (hmeasured : u.measure source c = (.ok length, source'))
    (halone : u.settings.isParallel = false) :
    Sends source u c (u.runSequential source' length) := by
  have hstart := staging_session (u := u.enter .sequential) hkind (u.settings.progressTotal length)
  obtain ⟨rs, -, hstaging, hall⟩ :=
    hstart.sendEach ((u.settings.cutter length).toList source').1
  rw [runSequential_eq]
  refine sends_conclude hstaging fun tokens hdone => ?_
  obtain ⟨cs, hanswers, rfl, hacknowledged⟩ := hall tokens hdone
  exact .chunks halone ⟨length, source', hmeasured, hanswers⟩ fun chunk hmem =>
    ⟨List.mem_map.2 ⟨chunk, hmem, rfl⟩, hacknowledged chunk hmem⟩

theorem sends_runParallel (hkind : u.settings.blobType = .block) {schedule : List Pool.Action}
    {length : Nat} {source' : Source}
    (hmeasured : u.measure source (.seekable schedule) = (.ok (some length), source'))
    (hseveral : u.settings.isParallel = true) :
    Sends source u (.seekable schedule) (u.runParallel schedule source' length) := by
  rw [runParallel]
  rcases hshared : CommonSource.ofSource source' with ⟨e | common, source''⟩
  · exact .blocks (show _ = Service.after u.service [] from rfl) fun _ hmem => by cases hmem
  have hparallelism : 0 < u.settings.parallelism :=
    Nat.zero_lt_of_lt (of_decide_eq_true hseveral)
  have hinv := Pool.filing_ofSession common length
    (staging_session (u := u.enter .parallel) hkind (some length))
    (by rw [settings_session]; exact hparallelism)
  obtain ⟨rs, hafter, hcomplete⟩ := hinv.run schedule
  refine sends_conclude hafter.staging fun tokens hdone => ?_
  rw [Pool.outcome] at hdone
  split at hdone
  · cases hdone
  rename_i hunfailed
  obtain ⟨hqueue, hfiled⟩ := hcomplete hunfailed
  cases hdone
  apply CutsAll.workers hseveral hmeasured hshared rfl hqueue
  intro chunk hcut
  obtain ⟨hoffset, hacknowledged⟩ := hfiled chunk hcut
  obtain ⟨entry, hmem, hsame⟩ := List.mem_map.1 hoffset
  obtain ⟨d, rfl, -⟩ := hafter.tokens entry hmem
  have hsame : d.offset = chunk.offset := hsame
  exact ⟨List.mem_map.2 ⟨_, hmem, by rw [hsame]⟩, hacknowledged⟩

theorem sends_runSinglePut (source' : Source) (n : Nat) :
    Sends source u c (u.runSinglePut source' n) := by
  obtain ⟨times, r, hput, hsent, hrefused⟩ :=
    sendWhole_requests ((u.enter .sequential).settings.cutter (some n)) source'
      ((u.enter .sequential).session ((u.enter .sequential).settings.progressTotal (some n)))
  have hbefore : ((u.enter .sequential).session
      ((u.enter .sequential).settings.progressTotal (some n))).service = u.service :=
    service_session _ _
  rw [hbefore] at hsent hrefused
  simp only [runSinglePut]
  split
  · rename_i e source'' s hrun
    rw [hrun] at hsent hrefused
    exact .whole hsent hput fun _ _ => hrefused e rfl
  · rename_i etag source'' s hrun
    rw [hrun] at hsent
    exact .whole hsent hput nofun

/-- Whatever happens, this is what a call sends. -/
theorem sends_call (hkind : u.settings.blobType = .block) (source : Source) (c : Call) :
    Sends source u c (u.call source c) := by
  rcases call_cases source u c with ⟨rule, u', hrefused, hsame⟩ | ⟨ending, hsettled, hway⟩
  · rw [hrefused]
    exact .blocks (show _ = Service.after u.service [] from hsame) nofun
  · rw [hsettled]
    have hsends : Sends source (u.enter .splitting) c ending := by
      cases hway with
      | unmeasured => exact .blocks (show _ = Service.after u.service [] from rfl) nofun
      | misfit => exact .blocks (show _ = Service.after u.service [] from rfl) nofun
      | unseekable => exact .blocks (show _ = Service.after u.service [] from rfl) nofun
      | whole => exact sends_runSinglePut _ _
      | chunks hmeasured halone =>
          exact sends_runSequential (u := u.enter .splitting) hkind hmeasured halone
      | workers hmeasured hseveral =>
          exact sends_runParallel (u := u.enter .splitting) hkind hmeasured hseveral
    exact hsends.of_enter.settle

/-! ## All or nothing -/

theorem visible_of_sends {u : Upload (Relay Blob)} {ending : Ending (Relay Blob)} {e : UploadError}
    (hsends : Sends source u c ending) (hfailed : ending.1 = .error e) {sent : List Exchange}
    (hrecorded : ending.2.2.service.exchanges = u.service.exchanges ++ sent)
    (hkept : u.service.LosesNoCommit (sent.map Exchange.request)) :
    ending.2.2.service.service.visible = u.service.service.visible := by
  have hsame : ∀ {rs}, ending.2.2.service = Service.after u.service rs →
      u.service.LosesNoCommit rs := by
    intro rs hservice
    obtain ⟨sent', hrecorded', hrequests, -⟩ := Relay.exchanges_after u.service rs
    rw [← hservice, hrecorded] at hrecorded'
    rwa [← hrequests, ← List.append_cancel_left hrecorded']
  cases hsends with
  | blocks hservice hblocks =>
      rw [hservice]
      exact Relay.visible_after (hsame hservice) fun r hr => .inl (hblocks r hr)
  | list hservice hblocks hcut hrefused =>
      obtain ⟨hkeptBlocks, hkeptList⟩ := (Relay.losesNoCommit_append ..).1 (hsame hservice)
      rw [hservice, Service.after_concat]
      exact (Relay.visible_answer (.inr ⟨hkeptList.1 rfl, hrefused e hfailed⟩)).trans
        (Relay.visible_after hkeptBlocks fun r hr => .inl (hblocks r hr))
  | whole hservice hput hrefused =>
      rw [hservice]
      refine Relay.visible_after (hsame hservice) fun r hr => .inr ?_
      rw [List.eq_of_mem_replicate hr]
      exact ⟨by simp [Request.commits, hput], hrefused e hfailed⟩

/-- What a relay records of an upload: no list of blocks, or one as the last request. -/
theorem exchanges_of_sends {u : Upload (Relay Blob)} {ending : Ending (Relay Blob)}
    (hsends : Sends source u c ending) :
    ∃ sent, ending.2.2.service.exchanges = u.service.exchanges ++ sent ∧
      ((∀ x ∈ sent, x.request.method ≠ .putBlockList) ∨
        ∃ front ids lease failure, sent = front ++ [⟨.putBlockList ids lease, failure⟩] ∧
          (∀ x ∈ front, x.request.method = .putBlock) ∧
          CutsAll (fun chunk => blockId chunk.offset ∈ ids ∧
            ⟨.putBlock (blockId chunk.offset) (u.settings.envelope.body chunk.payload), none⟩ ∈
              front) source u c) := by
  cases hsends with
  | @blocks rs hservice hblocks =>
      obtain ⟨sent, hrecorded, rfl, -⟩ := Relay.exchanges_after u.service rs
      refine ⟨sent, by rw [hservice, hrecorded], .inl fun x hx hlist => ?_⟩
      exact nomatch (hblocks _ (List.mem_map_of_mem hx)).symm.trans hlist
  | @whole n r hservice hput =>
      obtain ⟨sent, hrecorded, hrequests, -⟩ :=
        Relay.exchanges_after u.service (List.replicate n r)
      refine ⟨sent, by rw [hservice, hrecorded], .inl fun x hx hlist => ?_⟩
      have hmem : x.request ∈ List.replicate n r := hrequests ▸ List.mem_map_of_mem hx
      rw [List.eq_of_mem_replicate hmem, hput] at hlist
      cases hlist
  | @list rs ids lease hservice hblocks hcut =>
      obtain ⟨front, hrecorded, rfl, hacknowledged⟩ := Relay.exchanges_after u.service rs
      have hsent := Relay.exchanges_answer (Service.after u.service (front.map Exchange.request))
        (.putBlockList ids lease)
      rw [← Service.after_concat, ← hservice, hrecorded, List.append_assoc] at hsent
      exact ⟨_, hsent, .inr ⟨front, ids, lease, _, rfl,
        fun x hx => hblocks _ (List.mem_map_of_mem hx),
        hcut.imp fun chunk => And.imp_right (hacknowledged _)⟩⟩

/-- What occurs besides `xs` in a list with one element more is that element. -/
theorem concat_eq_append_cons {α : Type} {xs front back : List α} {x z : α}
    (h : xs ++ [z] = front ++ x :: back) (hfresh : x ∉ xs) : front = xs ∧ x = z ∧ back = [] := by
  rcases List.eq_nil_or_concat back with rfl | ⟨rest, y, rfl⟩
  · obtain ⟨rfl, hsame⟩ := List.append_inj' h rfl
    exact ⟨rfl, (List.cons.inj hsame).1.symm, rfl⟩
  · refine absurd ?_ hfresh
    rw [List.concat_eq_append, ← List.cons_append, ← List.append_assoc] at h
    rw [(List.append_inj' h rfl).1]
    exact List.mem_append_right _ List.mem_cons_self

/-- An upload to a block blob is all or nothing. If it fails, readers see the blob as it was, unless
a commit was carried out and its answer lost. It commits blocks at most once, as the last thing it
does, when everything has been cut into chunks and every chunk is acknowledged and on the list. -/
theorem upload_block_all_or_nothing {u : Upload (Relay Blob)} (hkind : u.settings.blobType = .block)
    (source : Source) (c : Call) :
    ∃ sent, (u.call source c).2.2.service.exchanges = u.service.exchanges ++ sent ∧
      (u.service.LosesNoCommit (sent.map Exchange.request) →
        ∀ e, (u.call source c).1 = .error e →
          (u.call source c).2.2.service.service.visible = u.service.service.visible) ∧
      ∀ front ids lease failure back,
        sent = front ++ ⟨.putBlockList ids lease, failure⟩ :: back →
        back = [] ∧ (∀ x ∈ front, x.request.method = .putBlock) ∧
          CutsAll (fun chunk => blockId chunk.offset ∈ ids ∧
            ⟨.putBlock (blockId chunk.offset) (u.settings.envelope.body chunk.payload), none⟩ ∈
              front) source u c := by
  have hsends := sends_call hkind source c
  obtain ⟨sent, hrecorded, hshape⟩ := exchanges_of_sends hsends
  refine ⟨sent, hrecorded, fun hkept e hfailed => visible_of_sends hsends hfailed hrecorded hkept,
    fun front ids lease failure back hsplit => ?_⟩
  rcases hshape with hothers | ⟨blocks, ids', lease', failure', rfl, honly, hcut⟩
  · have hmem : ⟨.putBlockList ids lease, failure⟩ ∈ sent :=
      hsplit ▸ List.mem_append_right _ List.mem_cons_self
    exact absurd rfl (hothers _ hmem)
  · have hfresh : ⟨.putBlockList ids lease, failure⟩ ∉ blocks := fun hmem => nomatch honly _ hmem
    obtain ⟨rfl, hsame, rfl⟩ := concat_eq_append_cons hsplit hfresh
    cases hsame
    exact ⟨rfl, honly, hcut⟩

/-- An upload in chunks of two bytes that gives up as soon as an answer is lost. -/
def impatientUpload : Upload (Relay Blob) where
  settings := { blobType := .block, chunkSize := 2, maxRetries := 0 }
  service :=
    { service := .ofContent [7]
      faults := [{ method := some .putBlock, error := .transport "lost", passedOn := true }] }

theorem call_impatientUpload :
    (impatientUpload.call { data := [1, 2, 3] } .stream).1 =
      .error (.retriesExhausted 0 1 (.transport "lost")) := by
  have hdelivers : ({ data := [1, 2, 3] } : Source).script.Delivers := Script.delivers_free
  obtain ⟨source', hrun⟩ :=
    runSequential_of_plain (u := impatientUpload.enter .splitting) hdelivers rfl none
  rw [call_stream_of_alone rfl rfl rfl rfl,
    show impatientUpload.settings.sourceLength = none from rfl, hrun]
  rfl

/-- The first block is staged although its answer is lost, but nobody sees it. -/
theorem impatientUpload_shows_nothing :
    (impatientUpload.call { data := [1, 2, 3] } .stream).2.2.service.service.visible =
      ([7], etagOf 1, []) := by
  obtain ⟨sent, -, hunchanged, -⟩ :=
    upload_block_all_or_nothing (u := impatientUpload) rfl { data := [1, 2, 3] } .stream
  refine hunchanged (Relay.losesNoCommit_of_loseOnly ?_ _) _ call_impatientUpload
  intro f hf _ n r hhits
  obtain rfl := List.mem_singleton.1 hf
  simp only [Fault.hits, Option.all_some, Bool.and_eq_true, decide_eq_true_eq] at hhits
  simp [Request.commits, ← hhits.1.1.2]

end BlobUpload.Upload
