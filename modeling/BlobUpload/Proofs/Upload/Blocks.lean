import BlobUpload.Proofs.Pool.Completion
import BlobUpload.Proofs.Upload.Dispatch

/-! # Uploads to block blobs

Chunk by chunk or by several workers, an upload to a block blob stages consecutive chunks, each
under the id of its offset, and then commits them in their order. -/

namespace BlobUpload

/-- The session has staged these chunks in a blob that was `start` before, and nothing else. -/
structure Session.HasStaged (start : Blob) (cs : List Chunk) (s : Session Blob) : Prop where
  writer : s.writer = .block s.settings.envelope
  service : ∃ blocks, s.service = start.stageAll blocks ∧
    (∀ block ∈ blocks, block ∈ cs.map Chunk.block) ∧ ∀ c ∈ cs, c.block ∈ blocks
  completed : s.completed = (cs.flatMap Chunk.payload).length

namespace Upload

/-- The ending of an upload that has made `content` of blocks with these ids, or has not touched
the blob because there was nothing to send. -/
structure Commits (start : Blob) (content : Bytes) (ids : List String) (ending : Ending Blob) :
    Prop where
  result : ending.1 = .ok
    { tokens := ids.map .block
      bytesSent := content.length
      chunkCount := ids.length
      commit := if content = [] then none else some ending.2.2.service.etag }
  untouched : content = [] → ending.2.2.service = start
  committed : content ≠ [] → ending.2.2.service.content = content ∧
    ending.2.2.service.committed = ids ∧ ending.2.2.service.staged = []

theorem Commits.settle {start : Blob} {content : Bytes} {ids : List String}
    {ending : Ending Blob} (h : Commits start content ids ending) :
    Commits start content ids (settle ending) ∧ (settle ending).2.2.life.current = .done := by
  obtain ⟨result, source, u⟩ := ending
  cases result with
  | error e => cases h.result
  | ok summary => exact ⟨⟨h.result, h.untouched, h.committed⟩, rfl⟩

theorem conclude_of_hasStaged {start : Blob} {cs : List Chunk} {s : Session Blob}
    (hstaged : s.HasStaged start cs)
    (hapart : ∀ c ∈ cs, ∀ d ∈ cs, c.offset = d.offset → c = d)
    (hempty : cs.flatMap Chunk.payload = [] ↔ cs = []) (hadmits : start.Admits s.settings.leaseId)
    (source : Source) (u : Upload Blob) :
    Commits start (cs.flatMap Chunk.payload) (cs.map fun c => blockId c.offset)
      (u.conclude (.ok (cs.map fun c => .block (blockId c.offset))) source s) := by
  obtain ⟨blocks, hservice, honly, hall⟩ := hstaged.service
  by_cases hnone : cs = []
  · subst hnone
    have hnothing : blocks = [] := List.eq_nil_iff_forall_not_mem.2 fun b hb => by
      cases honly b hb
    subst hnothing
    simp only [conclude, List.map_nil, Session.commit_nil]
    exact ⟨by rw [hstaged.completed]; rfl, fun _ => hservice, fun h => absurd rfl h⟩
  · have hfound : ∀ block ∈ cs.map Chunk.block, s.service.stagedBlock? block.1 = some block.2 := by
      rw [hservice]
      exact start.stagedBlock?_of_apart hapart honly hall
    have hlease : s.service.Admits s.settings.leaseId := by
      rw [hservice]
      exact Blob.admits_stageAll hadmits blocks
    have hcommit := Session.commit_block hstaged.writer hlease hnone hfound
    have hsome := mt hempty.1 hnone
    simp only [conclude, hcommit]
    refine ⟨?_, fun h => absurd h hsome, fun _ => ⟨rfl, rfl, rfl⟩⟩
    simp only [List.map_map, List.length_map, hstaged.completed, if_neg hsome]
    rfl

/-! ## Chunk by chunk -/

/-- Whatever chunks the cutter makes, if it makes nothing else they are committed. -/
theorem runSequential_of_chunks {u : Upload Blob} {source : Source} {length : Option Nat}
    (hkind : u.settings.blobType = .block) (hadmits : u.service.Admits u.settings.leaseId)
    (hcalm : u.Undisturbed) {cs : List Chunk}
    (hanswers : ((u.settings.cutter length).toList source).1 = cs.map .ok) :
    Commits u.service (cs.flatMap Chunk.payload) (cs.map fun c => blockId c.offset)
      (u.runSequential source length) := by
  have hconsecutive := Cutter.consecutive_toList (u.settings.cutter length) source
  rw [hanswers, Chunk.ofAnswers_map_ok] at hconsecutive
  have hcalm' := (hcalm.enter .sequential).session (u.settings.progressTotal length)
  obtain ⟨reports, abort, hsession⟩ :=
    session_eq (u.settings.progressTotal length) (u.enter .sequential)
  rw [runSequential_eq, hanswers]
  rw [hsession] at hcalm' ⊢
  obtain ⟨t, hrun, hservice, hwriter, hsettings, -, hcompleted⟩ :=
    sendEach_block (Settings.writer_of_block hkind) hadmits hcalm' cs
  rw [hrun]
  refine conclude_of_hasStaged ⟨?_, ⟨_, hservice, fun _ => id, ?_⟩, ?_⟩
    hconsecutive.eq_of_offset_eq hconsecutive.flatMap_payload_eq_nil_iff ?_ _ _
  · rw [hwriter, hsettings]
    exact Settings.writer_of_block hkind
  · exact fun c hc => List.mem_map.2 ⟨c, hc, rfl⟩
  · rw [hcompleted]
    exact Nat.zero_add _
  · rw [hsettings]
    exact hadmits

theorem invariant_ofSession {u : Upload Blob} (hkind : u.settings.blobType = .block)
    (hparallelism : 0 < u.settings.parallelism) (hcalm : u.Undisturbed) {common : CommonSource}
    {data : Bytes} (hserves : common.Serves data) (total : Option Nat) {length : Nat}
    (haddr : Job.Addressable ⟨u.settings, data, common.origin, length, u.service⟩) :
    Job.Invariant ⟨u.settings, data, common.origin, length, u.service⟩ []
      (Pool.ofSession (u.session total) common length) := by
  have hcalm' := hcalm.session total
  obtain ⟨reports, abort, hsession⟩ := session_eq total u
  rw [hsession] at hcalm' ⊢
  refine
    { sound :=
        { addressable := haddr
          settings := rfl
          writer := Settings.writer_of_block hkind
          calm := hcalm'
          service := rfl
          staged := fun b hb => by cases hb
          serves := hserves
          origin := rfl
          running := rfl
          unfailed := rfl
          queue := fun s => id
          tokens := fun entry hmem => by cases hmem }
      allowed := ?_
      drained := ?_
      sorted := List.Pairwise.nil
      covered := fun c hc => .inl (.inr (Job.span_of_mem_chunks hc))
      ledger := ?_
      staffed := ?_ }
  · intro w hw
    rw [Pool.starting_of_mem_ofSession w hw]
    trivial
  · intro hw
    cases Pool.starting_of_mem_ofSession _ hw
  · have hidle : ∀ n, sumOver (Job.owes
        ⟨u.settings, data, common.origin, length, u.service⟩) (List.replicate n .starting) = 0 :=
      fun n => sumOver_eq_zero fun w hw => by rw [List.eq_of_mem_replicate hw]; rfl
    simp only [Pool.ofSession, hidle, Nat.zero_add]
    exact Job.sum_length_share ⟨u.settings, data, common.origin, length, u.service⟩
  · exact Pool.queue_ofSession_nil common length hparallelism

/-- When its workers have ended, a pool in which nothing has gone wrong has staged all chunks. -/
theorem hasStaged_of_ended {job : Job} {blocks : List (String × Bytes)} {p : Pool Blob}
    (hinv : job.Invariant blocks p) (hended : ∀ w ∈ p.workers, w = .ended) :
    p.outcome = .ok (job.chunks.map fun c => .block (blockId c.offset)) ∧
      p.session.HasStaged job.start job.chunks := by
  have htokens := hinv.tokens_eq hended
  refine ⟨?_, ?_, ⟨blocks, hinv.sound.service, hinv.sound.staged, hinv.staged htokens⟩, ?_⟩
  · rw [Pool.outcome, hinv.sound.unfailed, htokens, List.map_map]
    rfl
  · rw [hinv.sound.writer, hinv.sound.settings]
  · rw [Job.flatMap_payload_chunks]
    exact hinv.completed_eq hended

/-- What several workers have to do with a source. -/
def job (u : Upload Blob) (source : Source) (length : Nat) : Job :=
  ⟨u.settings, source.data, source.position, length, u.service⟩

/-- What a pool has staged for its job is committed in the order of the spans. -/
theorem commits_job {u : Upload Blob} {source source' : Source} {length : Nat} {s : Session Blob}
    (hstaged : s.HasStaged u.service (u.job source length).chunks)
    (hadmits : u.service.Admits s.settings.leaseId) (v : Upload Blob) :
    Commits u.service (u.job source length).content
      ((u.job source length).chunks.map fun c => blockId c.offset)
      (v.conclude (.ok ((u.job source length).chunks.map fun c => .block (blockId c.offset)))
        source' s) := by
  rw [← Job.flatMap_payload_chunks]
  exact conclude_of_hasStaged hstaged (fun c hc d hd => Job.eq_of_offset_eq hc hd)
    Job.content_eq_nil_iff hadmits source' v

/-- However the workers take turns, their chunks are committed in the order of the spans. -/
theorem commits_runParallel {u : Upload Blob} {source : Source}
    (hkind : u.settings.blobType = .block) (hparallelism : 0 < u.settings.parallelism)
    (hadmits : u.service.Admits u.settings.leaseId) (hcalm : u.Undisturbed)
    (hbehaved : source.WellBehaved) {schedule : List Pool.Action} (hfree : .abort ∉ schedule)
    {length : Nat} (haddr : (u.job source length).Addressable) :
    Commits u.service (u.job source length).content
      ((u.job source length).chunks.map fun c => blockId c.offset)
      (u.runParallel schedule source length) := by
  have hstart := invariant_ofSession (u := u.enter .parallel) hkind hparallelism
    (hcalm.enter .parallel) hbehaved.serves_shared (some length) haddr
  obtain ⟨blocks, hinv⟩ := hstart.run hadmits hfree
  rw [runParallel, CommonSource.ofSource_of_seeks hbehaved.seeks]
  simp only
  have hended : ∀ w ∈ ((Pool.ofSession ((u.enter .parallel).session (some length)) source.shared
      length).run schedule).workers, w = .ended := fun w => Pool.ended_of_mem_run
  generalize (Pool.ofSession ((u.enter .parallel).session (some length)) source.shared length).run
    schedule = p at *
  have hinv : (u.job source length).Invariant blocks p := hinv
  obtain ⟨houtcome, hstaged⟩ := hasStaged_of_ended hinv hended
  rw [houtcome]
  exact commits_job hstaged (by rw [hinv.sound.settings]; exact hadmits) _

end Upload

end BlobUpload
