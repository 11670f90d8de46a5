import BlobUpload.Proofs.Pool.SpanFronts
import BlobUpload.Proofs.Upload.FailureAtomicity

/-! # What a successful upload leaves out

A read that hands out no byte ends the reading even if there are bytes left. A single worker stops
there, so what it commits is the front of the source. Of several workers only the one that meets
such a read stops, and only with its span: the spans behind it are committed all the same. -/

namespace BlobUpload

/-- A source whose first read hands out nothing. -/
def Source.dozing (data : Bytes) : Source where
  data
  script := .ofList [.upTo 0]

namespace Upload

/-- Blocks are only committed by an upload that has sent some and claims the right lease. -/
theorem of_conclude_committed {sent : Except UploadError (List Token)} {source source' : Source}
    {s : Session Blob} {u u' : Upload Blob} {summary : Summary}
    (hdone : u.conclude sent source s = (.ok summary, source', u'))
    (hcommitted : summary.commit ≠ none) :
    ∃ tokens, sent = .ok tokens ∧ tokens ≠ [] ∧ s.service.Admits s.settings.leaseId ∧
      u'.service = (s.commit tokens).2.service := by
  cases sent with
  | error e => cases hdone
  | ok tokens =>
      refine ⟨tokens, rfl, ?_⟩
      simp only [conclude, Session.commit] at hdone ⊢
      split
      · rename_i hnone
        rw [if_pos hnone] at hdone
        cases hdone
        exact absurd rfl hcommitted
      · rename_i hsome
        rw [if_neg hsome] at hdone
        have hne : tokens ≠ [] := fun hnone => hsome (by simp [hnone])
        rcases hanswered : Service.answer
          (.putBlockList (tokens.filterMap Token.blockId?) s.settings.leaseId) s.service with
          ⟨e | etag, service⟩
        · rw [hanswered] at hdone
          cases hdone
        · rw [hanswered] at hdone
          cases hdone
          exact ⟨hne, Blob.admits_of_answer_putBlockList hanswered, rfl⟩

theorem content_commit {s : Session Blob} {e : Envelope} (hwriter : s.writer = .block e)
    (hadmits : s.service.Admits s.settings.leaseId) {cs : List Chunk} (hne : cs ≠ [])
    (hstaged : ∀ block ∈ cs.map Chunk.block, s.service.stagedBlock? block.1 = some block.2) :
    (s.commit (cs.map fun c => .block (blockId c.offset))).2.service.content =
      cs.flatMap Chunk.payload := by
  rw [Session.commit_block hwriter hadmits hne hstaged]
  rfl

/-- A lease that is claimed rightly when all blocks are staged was so from the beginning. -/
theorem admits_of_staging {e : Envelope} {start : Blob} {rs : List Request} {s : Session Blob}
    (hstaging : s.Staging e start rs) {lease : Option String} (hadmits : s.service.Admits lease) :
    start.Admits lease := by
  rwa [Blob.Admits, hstaging.service, Blob.lease_after hstaging.blocks] at hadmits

variable {u u' : Upload Blob} {source source' : Source} {summary : Summary}

/-- What a single worker commits is the front of the source. -/
theorem runSequential_front {length : Option Nat} (hkind : u.settings.blobType = .block)
    (hplain : u.settings.encryption = none)
    (hdone : u.runSequential source length = (.ok summary, source', u'))
    (hcommitted : summary.commit ≠ none) : u'.service.content <+: source.rest := by
  rw [runSequential_eq] at hdone
  obtain ⟨tokens, hsent, hne, hadmits, hservice⟩ := of_conclude_committed hdone hcommitted
  have hstart := staging_session (u := u.enter .sequential) hkind (u.settings.progressTotal length)
  have hsettings := settings_sendEach ((u.settings.cutter length).toList source).1
    ((u.enter .sequential).session (u.settings.progressTotal length))
  obtain ⟨rs, -, hstaging, -⟩ := hstart.sendEach ((u.settings.cutter length).toList source).1
  rw [hsettings, settings_session] at hadmits
  have hadmits' : ((u.enter .sequential).session (u.settings.progressTotal length)).service.Admits
      u.settings.leaseId := by
    rw [service_session]
    exact admits_of_staging hstaging hadmits
  obtain ⟨cs, hanswers, rfl, hstaged, hwriter⟩ :=
    sendEach_block_of_ok hstart.writer hadmits' (Prod.ext hsent rfl)
  have hconsecutive := Cutter.consecutive_toList (u.settings.cutter length) source
  have hcipher : (u.settings.cutter length).cipher = none := by
    rw [Settings.cutter, hplain]
    rfl
  have hfront := Cutter.toList_front hcipher source
  rw [hanswers, Chunk.ofAnswers_map_ok] at hconsecutive hfront
  rw [hservice, content_commit hwriter (by rwa [hsettings, settings_session])
    (fun hnone => hne (by rw [hnone]; rfl))]
  · exact hfront
  · rw [hstaged]
    exact Blob.stagedBlock?_of_consecutive _ hconsecutive (fun _ => id) fun c hc =>
      List.mem_map_of_mem hc

/-- Several workers commit the fronts of their spans, one after another. -/
theorem runParallel_fronts {schedule : List Pool.Action} {length : Nat}
    (hkind : u.settings.blobType = .block) (hseveral : u.settings.isParallel = true)
    (hfits : source.position + length < UInt64.size)
    (hdone : u.runParallel schedule source length = (.ok summary, source', u'))
    (hcommitted : summary.commit ≠ none) :
    ∃ got : Span → Nat, u'.service.content =
      (Span.cover length u.settings.chunkSize).flatMap fun s =>
        (source.rest.slice s).take (got s) := by
  rw [runParallel] at hdone
  rcases hshared : CommonSource.ofSource source with ⟨e | common, source''⟩
  · rw [hshared] at hdone
    cases hdone
  rw [hshared] at hdone
  simp only at hdone
  obtain ⟨tokens, houtcome, hne, hadmits, hservice⟩ := of_conclude_committed hdone hcommitted
  have hparallelism : 0 < u.settings.parallelism := Nat.zero_lt_of_lt (of_decide_eq_true hseveral)
  obtain rfl := CommonSource.of_ofSource hshared
  have hstart := Pool.books_ofSession ((u.enter .parallel).session (some length)) source.shared
    length (by rw [settings_session]; exact hparallelism)
  have hfronts := Pool.fronts_ofSession ((u.enter .parallel).session (some length)) source.shared
    length u.service (Job.addressable_of_length hfits)
  rw [settings_session, writer_session, service_session] at hstart
  rw [settings_session] at hfronts
  generalize Pool.ofSession ((u.enter .parallel).session (some length)) source.shared length =
    p at *
  have hshort : ∀ s ∈ Span.cover length u.settings.chunkSize, Pool.Short u.settings s :=
    fun s => Pool.short_of_mem_cover
  have hwriter : u.settings.writer = .block u.settings.envelope := Settings.writer_of_block hkind
  have hstart : Pool.Books u.settings (.block u.settings.envelope) _ u.service [] p :=
    hwriter ▸ hstart
  have hbooks := hstart.foldl (Writer.steady_block _) hshort (p.actions schedule)
  have hcuts := (hfronts.foldl (p.actions schedule)).cuts
  rw [← Pool.run_eq_foldl] at hbooks
  generalize ([] : History) ++ p.history (p.actions schedule) = past at hbooks hcuts
  have hcomplete := hbooks.complete (fun w => Pool.ended_of_mem_run) houtcome
  obtain rfl := hbooks.tokens_eq (Span.sorted_cover _ _) hcomplete
  have hadmits' : u.service.Admits u.settings.leaseId := by
    have hlease : (Service.after u.service
        (History.requests (.block u.settings.envelope) past)).lease = u.service.lease := by
      refine Blob.lease_after fun r hmem => ?_
      obtain ⟨c, -, rfl⟩ := List.mem_map.1 hmem
      rfl
    rwa [Blob.Admits, hbooks.ledger.unchanged, hbooks.faithful.service, hlease] at hadmits
  have hstaged := hbooks.staged hcomplete hadmits'
  obtain ⟨got, hjoined⟩ := History.flatMap_inOrder (Span.nodup_starts _ _) hcuts
  refine ⟨got, ?_⟩
  rw [hservice, content_commit hbooks.faithful.unchanged hadmits
    (fun hnone => hne (by rw [hnone]; rfl)) hstaged, hjoined]
  exact List.flatMap_congr fun s hs => congrArg (List.take (got s)) (Job.share_eq hfits hs)

/-- What a successful upload commits. A single worker commits the front of the source. Several
workers commit the front of every span, so that bytes are left out at the end of each of them. They
have to find all offsets within 64 bits. -/
theorem upload_block_of_ok {schedule : List Pool.Action} (hkind : u.settings.blobType = .block)
    (hplain : u.settings.encryption = none) (hwhole : u.settings.singlePutThreshold = none)
    (haddr : u.settings.Addresses source)
    (hdone : u.upload source schedule = (.ok summary, source', u'))
    (hcommitted : summary.commit ≠ none) :
    (u.settings.isParallel = false → u'.service.content <+: source.rest) ∧
    (u.settings.isParallel = true → ∃ got : Span → Nat, u'.service.content =
      (Span.cover (u.settings.sourceLength.getD source.rest.length)
        u.settings.chunkSize).flatMap fun s => (source.rest.slice s).take (got s)) := by
  obtain ⟨hidle, hvalid⟩ := of_start_ok hdone
  obtain ⟨⟨result, source₁, v⟩, hsettled, hway⟩ := way_call hidle hvalid source (.seekable schedule)
  obtain ⟨hsame, phase, hlater⟩ := settle_eq (result, source₁, v)
  rw [show u.upload source schedule = _ from hsettled] at hdone
  rw [hdone] at hsame hlater
  obtain rfl : .ok summary = result := hsame
  obtain rfl : u' = v.enter phase := hlater
  change (_ → v.service.content <+: _) ∧ (_ → ∃ got : Span → Nat, v.service.content = _)
  generalize hending : (Except.ok summary, source₁, v) = e at hway
  cases hway with
  | unmeasured => cases hending
  | misfit => cases hending
  | whole _ hput => exact nomatch (Settings.singlePutLength?_of_none hwhole _).symm.trans hput
  | chunks hmeasured halone =>
      have halone : u.settings.isParallel = false := halone
      obtain ⟨seeks, rfl, -⟩ := of_measure hmeasured
      rw [halone]
      refine ⟨fun _ => ?_, nofun⟩
      have hfront := runSequential_front (u := u.enter .splitting) hkind hplain hending.symm
        hcommitted
      exact hfront
  | workers hmeasured hseveral =>
      have hseveral : u.settings.isParallel = true := hseveral
      have hlength := length_of_measure hmeasured
      obtain ⟨seeks, rfl, -⟩ := of_measure hmeasured
      rw [hseveral]
      refine ⟨nofun, fun _ => ?_⟩
      have hfronts := runParallel_fronts (u := u.enter .splitting) hkind hseveral
        (hlength ▸ haddr hseveral) hending.symm hcommitted
      rw [hlength] at hfronts
      exact hfronts

/-- Two workers send two bytes a block. -/
def gappyUpload : Upload Blob where
  settings := { blobType := .block, chunkSize := 2, parallelism := 2, windowCapacity := 2 }
  service := {}

theorem gappyUpload_commits :
    ((gappyUpload.upload (.dozing [1, 2, 3, 4])).1.toOption.bind Summary.commit).isSome := by
  decide +kernel

/-- What two workers commit of a source whose first read hands out nothing. -/
theorem gappyUpload_fronts : ∃ got : Span → Nat,
    (gappyUpload.upload (.dozing [1, 2, 3, 4])).2.2.service.content =
      (Span.cover 4 2).flatMap fun s => (Bytes.slice [1, 2, 3, 4] s).take (got s) := by
  have hcommits := gappyUpload_commits
  match hending : gappyUpload.upload (.dozing [1, 2, 3, 4]) with
  | (.error e, source', u') =>
      rw [hending] at hcommits
      cases hcommits
  | (.ok summary, source', u') =>
      rw [hending] at hcommits
      have hcommitted : summary.commit ≠ none := Option.isSome_iff_ne_none.1 hcommits
      exact (upload_block_of_ok (u := gappyUpload) rfl rfl rfl (fun _ => by decide) hending
        hcommitted).2 rfl

/-- The worker that meets the empty read is done with its span, and the other span is committed
without it. -/
theorem gappyUpload_skips :
    (∀ i e, (Source.dozing [1, 2, 3, 4]).script.step i ≠ .fail e) ∧
      ((gappyUpload.upload (.dozing [1, 2, 3, 4])).1.toOption.bind Summary.commit).isSome ∧
      (gappyUpload.upload (.dozing [1, 2, 3, 4])).2.2.service.content = [3, 4] ∧
      ¬ (gappyUpload.upload (.dozing [1, 2, 3, 4])).2.2.service.content <+:
        (Source.dozing [1, 2, 3, 4]).rest := by
  refine ⟨fun i e => ?_, by decide +kernel⟩
  cases i with
  | zero => exact nofun
  | succ i => exact nofun

end Upload

end BlobUpload
