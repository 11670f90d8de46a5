import BlobUpload.Proofs.Pool.Progress
import Mathlib.Data.List.Sort

/-! # What a pool has done when it is over

Every chunk of a job is ahead in the queue, in the hands of a worker or filed, and the bytes that
are counted and those that are still owed are all bytes. At the end nothing is ahead or in
anybody's hands. -/

namespace BlobUpload

/-- The offset of the span or the chunk that a worker has in its hands. -/
def Worker.offset? : Worker → Option Nat
  | .checking s => some s.start
  | .reading k _ _ => if k.finished then none else some k.offset
  | .sending _ _ c _ | .counting _ _ c _ | .filing _ _ c _ => some c.offset
  | _ => none

namespace Job

variable {job : Job} {blocks : List (String × Bytes)} {p p' : Pool Blob} {w w' : Worker}

/-- How many bytes a worker has still to count. -/
def owes (job : Job) : Worker → Nat
  | .checking s => (job.share s).length
  | .reading k _ _ =>
    if k.finished then 0 else
      (k.scope (job.data.drop (Offset.add job.origin k.offset))).length
  | .sending _ _ c _ | .counting _ _ c _ => c.length
  | _ => 0

theorem Reads.owes {s : Span} {k : Cutter} {window : Window} {got : Bytes}
    (hreads : job.Reads s k window got) :
    job.owes (.reading k window got) = (job.share s).length := by
  rw [hreads.cutter]
  rfl

theorem Reads.offset? {s : Span} {k : Cutter} {window : Window} {got : Bytes}
    (hreads : job.Reads s k window got) :
    (Worker.reading k window got).offset? = some s.start := by
  rw [hreads.cutter]
  rfl

theorem Allows.mono {blocks' : List (String × Bytes)} (h : ∀ b ∈ blocks, b ∈ blocks')
    (hallowed : job.Allows blocks w) : job.Allows blocks' w := by
  cases w with
  | counting k w c token => exact ⟨hallowed.1, hallowed.2.1, h _ hallowed.2.2.1, hallowed.2.2.2⟩
  | filing k w c token => exact ⟨hallowed.1, hallowed.2.1, h _ hallowed.2.2.1, hallowed.2.2.2⟩
  | _ => exact hallowed

/-! ## One step -/

theorem mem_chunks_block {c : Chunk} (h : job.Cuts c) : c.block ∈ job.chunks.map Chunk.block := by
  obtain ⟨d, hd, hoffset, hpayload⟩ := h
  exact List.mem_map.2 ⟨d, hd, by rw [Chunk.block, Chunk.block, hoffset, hpayload]⟩

/-- One more block of the job may always be staged. -/
theorem Sound.stage (hsound : job.Sound blocks p) {c : Chunk} (hcuts : job.Cuts c) :
    job.Sound (blocks ++ [c.block])
      { p with session := { p.session with service := p.session.service.stage c.block } } := by
  refine { hsound with
    calm := ⟨hsound.calm.abort, hsound.calm.watch⟩
    service := by rw [Blob.stageAll_concat, ← hsound.service]
    staged := fun b hb => ?_
    tokens := fun entry hmem => ?_ }
  · rcases List.mem_append.1 hb with hold | hnew
    · exact hsound.staged b hold
    · exact List.mem_singleton.1 hnew ▸ mem_chunks_block hcuts
  · obtain ⟨d, hd, hblock, heq⟩ := hsound.tokens entry hmem
    exact ⟨d, hd, List.mem_append_left _ hblock, heq⟩

/-- Progress keeps a pool sound, and what its worker does next is allowed. -/
theorem Progress.sound (hprogress : job.Progress p w w' p') (hsound : job.Sound blocks p)
    (hallowed : job.Allows blocks w) :
    ∃ blocks', (∀ b ∈ blocks, b ∈ blocks') ∧ job.Sound blocks' p' ∧ job.Allows blocks' w' := by
  cases hprogress with
  | proceed => exact ⟨blocks, fun _ => id, hsound, trivial⟩
  | drained hnone => exact ⟨blocks, fun _ => id, hsound, trivial⟩
  | claim hnext =>
      rename_i s queue
      have hmem := hsound.queue
      rw [hnext] at hmem
      exact ⟨blocks, fun _ => id,
        { hsound with queue := fun t ht => hmem t (List.mem_cons_of_mem _ ht) },
        hmem s List.mem_cons_self⟩
  | enter hreads => exact ⟨blocks, fun _ => id, hsound, .inr ⟨_, hreads⟩⟩
  | read _ hreads hserves =>
      exact ⟨blocks, fun _ => id, { hsound with serves := hserves, origin := hsound.origin },
        .inr ⟨_, hreads⟩⟩
  | blank _ _ hserves =>
      exact ⟨blocks, fun _ => id, { hsound with serves := hserves, origin := hsound.origin },
        trivial⟩
  | cut hreads hoffset hpayload hne hfinished hserves =>
      exact ⟨blocks, fun _ => id, { hsound with serves := hserves, origin := hsound.origin },
        hfinished, cuts_of_share hreads.mem hne hoffset hpayload⟩
  | close => exact ⟨blocks, fun _ => id, hsound, trivial⟩
  | write =>
      exact ⟨_, fun b => List.mem_append_left _, hsound.stage hallowed.2, hallowed.1, hallowed.2,
        List.mem_append_right _ (List.mem_singleton.2 rfl), rfl⟩
  | dropped => exact ⟨blocks, fun _ => id, hsound, hallowed⟩
  | lost => exact ⟨_, fun b => List.mem_append_left _, hsound.stage hallowed.2, hallowed⟩
  | count =>
      rename_i k window c token
      obtain ⟨reports, abort, heq⟩ := Session.advance_eq c.length p.session
      have hcalm := hsound.calm.advance c.length
      rw [heq] at hcalm ⊢
      exact ⟨blocks, fun _ => id, { hsound with calm := hcalm }, hallowed⟩
  | file hfinished =>
      rename_i k window c token
      obtain ⟨-, ⟨d, hd, hoffset, hpayload⟩, hstaged, rfl⟩ := hallowed
      refine ⟨blocks, fun _ => id, { hsound with tokens := ?_ }, .inl hfinished⟩
      intro entry hmem
      rcases mem_fileToken hmem with rfl | hmem
      · refine ⟨d, hd, ?_, by rw [hoffset]⟩
        rwa [Chunk.block, ← hoffset, ← hpayload]
      · exact hsound.tokens entry hmem
  | rest => exact ⟨blocks, fun _ => id, hsound, trivial⟩

/-- What a worker no longer owes has been counted. -/
theorem Progress.ledger (hprogress : job.Progress p w w' p') :
    p'.session.completed + job.owes w' + sumOver (fun s => (job.share s).length) p'.queue =
      p.session.completed + job.owes w + sumOver (fun s => (job.share s).length) p.queue := by
  cases hprogress with
  | claim hnext =>
      simp only [owes, hnext, sumOver_cons]
      omega
  | enter hreads => rw [hreads.owes, owes]
  | read hreads hreads' => rw [hreads.owes, hreads'.owes]
  | blank hreads hnone =>
      rw [hreads.owes, hnone]
      rfl
  | cut hreads _ hpayload => rw [hreads.owes, owes, Chunk.length, hpayload]
  | close hfinished => simp only [owes, hfinished, if_true]
  | count =>
      rename_i k window c token
      obtain ⟨reports, abort, heq⟩ := Session.advance_eq c.length p.session
      simp only [heq, owes]
      omega
  | file hfinished => simp only [owes, hfinished, if_true]
  | _ => rfl

/-- The chunk is filed or ahead in the queue. -/
def Settled (c : Chunk) (p : Pool Blob) : Prop :=
  c.offset ∈ p.tokens.map Prod.fst ∨ ∃ s ∈ p.queue, s.start = c.offset

/-- A chunk that was ahead, in the hands of the worker or filed is one of these afterwards. -/
theorem Progress.covered (hprogress : job.Progress p w w' p') {c : Chunk} (hc : c ∈ job.chunks)
    (h : Settled c p ∨ w.offset? = some c.offset) : Settled c p' ∨ w'.offset? = some c.offset := by
  cases hprogress with
  | claim hnext =>
      rename_i s queue
      rcases h with (hfiled | ⟨t, ht, hstart⟩) | hheld
      · exact .inl (.inl hfiled)
      · rw [hnext] at ht
        rcases List.mem_cons.1 ht with rfl | ht
        · exact .inr (congrArg some hstart)
        · exact .inl (.inr ⟨t, ht, hstart⟩)
      · cases hheld
  | enter hreads => rwa [hreads.offset?]
  | read hreads hreads' => rwa [hreads'.offset?, ← hreads.offset?]
  | blank hreads hnone =>
      apply h.imp_right
      intro hheld
      rw [hreads.offset?, Option.some.injEq] at hheld
      exact absurd hnone (share_ne_nil hreads.mem hc hheld)
  | cut hreads hoffset =>
      apply h.imp_right
      intro hheld
      rwa [hreads.offset?, ← hoffset] at hheld
  | close hfinished =>
      apply h.imp_right
      intro hheld
      rw [Worker.offset?, if_pos hfinished] at hheld
      cases hheld
  | file hfinished =>
      rename_i k window d token
      rcases h with (hfiled | hahead) | hheld
      · exact .inl (.inl (mem_fileToken_of_mem _ hfiled))
      · exact .inl (.inr hahead)
      · exact .inl (.inl (Option.some.inj hheld ▸ offset_mem_fileToken _ _ _))
  | _ => exact h

theorem Progress.sorted (hprogress : job.Progress p w w' p')
    (h : p.tokens.Pairwise (·.1 < ·.1)) : p'.tokens.Pairwise (·.1 < ·.1) := by
  cases hprogress with
  | file => exact sorted_fileToken h
  | _ => exact h

/-- A worker only ends when the queue is empty. -/
theorem Progress.queue_nil_of_ended (hprogress : job.Progress p w w' p')
    (h : w = .ended → p.queue = []) : w' = .ended → p'.queue = [] := by
  intro hended
  cases hprogress with
  | drained hnone => exact hnone
  | rest => exact h rfl
  | _ => cases hended

theorem Progress.queue_nil (hprogress : job.Progress p w w' p') (h : p.queue = []) :
    p'.queue = [] := by
  cases hprogress with
  | claim hnext => rw [h] at hnext; cases hnext
  | _ => exact h

/-! ## A whole run -/

/-- What holds of a pool between any two steps. -/
structure Invariant (job : Job) (blocks : List (String × Bytes)) (p : Pool Blob) : Prop where
  sound : job.Sound blocks p
  allowed : ∀ w ∈ p.workers, job.Allows blocks w
  drained : .ended ∈ p.workers → p.queue = []
  sorted : p.tokens.Pairwise (·.1 < ·.1)
  covered : ∀ c ∈ job.chunks, Settled c p ∨ ∃ w ∈ p.workers, w.offset? = some c.offset
  ledger : p.session.completed + sumOver job.owes p.workers +
    sumOver (fun s => (job.share s).length) p.queue = job.content.length
  staffed : p.workers = [] → p.queue = []

theorem Invariant.replace (hinv : job.Invariant blocks p) {i : Nat} (hi : p.workers[i]? = some w)
    (hprogress : job.Progress p w w' p') :
    ∃ blocks', job.Invariant blocks' { p' with workers := p.workers.set i w' } := by
  have hmem := List.mem_of_getElem? hi
  obtain ⟨blocks', hmore, hsound, hallowed⟩ := hprogress.sound hinv.sound (hinv.allowed w hmem)
  refine ⟨blocks', { hsound with }, ?_, ?_, hprogress.sorted hinv.sorted, ?_, ?_, ?_⟩
  · intro v hv
    rcases Pool.mem_set hv with rfl | hv
    · exact hallowed
    · exact (hinv.allowed v hv).mono hmore
  · intro hv
    rcases Pool.mem_set hv with hended | hv
    · exact hprogress.queue_nil_of_ended (fun h => hinv.drained (h ▸ hmem)) hended.symm
    · exact hprogress.queue_nil (hinv.drained hv)
  · intro c hc
    have hnext := fun h => hprogress.covered hc h
    rcases hinv.covered c hc with hsettled | hheld
    · rcases hnext (.inl hsettled) with hsettled | hself
      · exact .inl hsettled
      · exact .inr ⟨w', List.mem_of_getElem? (List.getElem?_set_self
          (List.getElem?_eq_some_iff.1 hi).1), hself⟩
    · by_cases hsettled : Settled c p'
      · exact .inl hsettled
      · refine .inr (Pool.exists_mem_set hi hheld fun hself => ?_)
        exact (hnext (.inr hself)).resolve_left hsettled
  · have hsum := sumOver_set job.owes w' hi
    have hmoved := hprogress.ledger
    have hbefore := hinv.ledger
    simp only
    omega
  · intro hnone
    rw [List.set_eq_nil_iff] at hnone
    rw [hnone] at hmem
    cases hmem

theorem Invariant.step (hinv : job.Invariant blocks p)
    (hadmits : job.start.Admits job.settings.leaseId) (i : Nat) :
    ∃ blocks', job.Invariant blocks' (p.step i) := by
  rcases Pool.step_cases p i with hstill | ⟨w, hi, hmoved⟩
  · exact ⟨blocks, by rw [hstill]; exact hinv⟩
  · rw [hmoved]
    exact hinv.replace hi
      (Pool.progress_stepWorker hinv.sound hadmits (hinv.allowed w (List.mem_of_getElem? hi)))

/-- Workers only end when there is nothing left to claim. -/
theorem Invariant.queue_nil (hinv : job.Invariant blocks p) (hended : ∀ w ∈ p.workers, w = .ended) :
    p.queue = [] := by
  cases hstaff : p.workers with
  | nil => exact hinv.staffed hstaff
  | cons w rest =>
      have hmem : w ∈ p.workers := hstaff ▸ List.mem_cons_self
      exact hinv.drained (hended w hmem ▸ hmem)

/-- Without aborts the invariant holds when a run is over. -/
theorem Invariant.run (hinv : job.Invariant blocks p)
    (hadmits : job.start.Admits job.settings.leaseId) {schedule : List Pool.Action}
    (hcalm : .abort ∉ schedule) : ∃ blocks', job.Invariant blocks' (p.run schedule) :=
  Pool.run_invariant (P := fun p => ∃ blocks, job.Invariant blocks p)
    (fun _ i ⟨_, hinv⟩ => hinv.step hadmits i) (fun habort => absurd habort hcalm) ⟨blocks, hinv⟩

/-- With nothing ahead and nothing in anybody's hands, the tokens of all chunks are filed. -/
theorem Invariant.tokens_eq (hinv : job.Invariant blocks p) (hended : ∀ w ∈ p.workers, w = .ended) :
    p.tokens = job.chunks.map fun c => (c.offset, .block (blockId c.offset)) := by
  have hfiled : ∀ c ∈ job.chunks, c.offset ∈ p.tokens.map Prod.fst := by
    intro c hc
    rcases hinv.covered c hc with (hfiled | ⟨s, hs, -⟩) | ⟨w, hw, hheld⟩
    · exact hfiled
    · rw [hinv.queue_nil hended] at hs
      cases hs
    · rw [hended w hw] at hheld
      cases hheld
  refine List.Pairwise.eq_of_mem_iff hinv.sorted (List.pairwise_map.2 job.sorted_chunks) ?_
  intro entry
  constructor
  · intro hmem
    obtain ⟨c, hc, -, rfl⟩ := hinv.sound.tokens entry hmem
    exact List.mem_map.2 ⟨c, hc, rfl⟩
  · intro hmem
    obtain ⟨c, hc, rfl⟩ := List.mem_map.1 hmem
    obtain ⟨entry, he, hoffset⟩ := List.mem_map.1 (hfiled c hc)
    obtain ⟨d, -, -, rfl⟩ := hinv.sound.tokens entry he
    rwa [← show d.offset = c.offset from hoffset]

theorem Invariant.staged (hinv : job.Invariant blocks p)
    (htokens : p.tokens = job.chunks.map fun c => (c.offset, .block (blockId c.offset))) :
    ∀ c ∈ job.chunks, c.block ∈ blocks := by
  intro c hc
  have hmem : (c.offset, Token.block (blockId c.offset)) ∈ p.tokens :=
    htokens ▸ List.mem_map.2 ⟨c, hc, rfl⟩
  obtain ⟨d, hd, hstaged, hsame⟩ := hinv.sound.tokens _ hmem
  rwa [eq_of_offset_eq hc hd (congrArg Prod.fst hsame)]

/-- When all workers have ended, all bytes have been counted. -/
theorem Invariant.completed_eq (hinv : job.Invariant blocks p)
    (hended : ∀ w ∈ p.workers, w = .ended) : p.session.completed = job.content.length := by
  have hpaid : sumOver job.owes p.workers = 0 := Pool.sumOver_of_ended rfl hended
  have hledger := hinv.ledger
  rwa [hpaid, hinv.queue_nil hended, sumOver_nil] at hledger

end Job

end BlobUpload
