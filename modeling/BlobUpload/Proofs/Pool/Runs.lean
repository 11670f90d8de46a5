import BlobUpload.Proofs.Cutter.Equations
import BlobUpload.Upload.Pool.Run

/-! # Runs of a pool

What holds of a pool and is preserved by every step and every abort holds when the run is over, and
then all workers have ended. -/

namespace BlobUpload

/-! ## Filed tokens -/

theorem mem_fileToken {offset : Nat} {token : Token} {tokens : List (Nat × Token)}
    {entry : Nat × Token} (h : entry ∈ fileToken offset token tokens) :
    entry = (offset, token) ∨ entry ∈ tokens := by
  induction tokens with
  | nil => exact .inl (List.mem_singleton.1 h)
  | cons first rest ih =>
      obtain ⟨o, t⟩ := first
      rw [fileToken] at h
      split at h
      · exact List.mem_cons.1 h
      split at h
      · exact (List.mem_cons.1 h).imp_right (List.mem_cons_of_mem _)
      · rcases List.mem_cons.1 h with hhead | htail
        · exact .inr (hhead ▸ List.mem_cons_self)
        · exact (ih htail).imp_right (List.mem_cons_of_mem _)

theorem offset_mem_fileToken (offset : Nat) (token : Token) (tokens : List (Nat × Token)) :
    offset ∈ (fileToken offset token tokens).map Prod.fst := by
  induction tokens with
  | nil => exact List.mem_cons_self
  | cons first rest ih =>
      rw [fileToken]
      split
      · exact List.mem_cons_self
      split
      · exact List.mem_cons_self
      · exact List.mem_cons_of_mem _ ih

theorem mem_fileToken_of_mem {o offset : Nat} (token : Token) {tokens : List (Nat × Token)}
    (h : o ∈ tokens.map Prod.fst) : o ∈ (fileToken offset token tokens).map Prod.fst := by
  induction tokens with
  | nil => cases h
  | cons first rest ih =>
      rw [fileToken]
      split
      · exact List.mem_cons_of_mem _ h
      split
      · rename_i hsame
        rcases List.mem_cons.1 h with hhead | htail
        · exact hhead.trans hsame.symm ▸ List.mem_cons_self
        · exact List.mem_cons_of_mem _ htail
      · rcases List.mem_cons.1 h with hhead | htail
        · exact hhead ▸ List.mem_cons_self
        · exact List.mem_cons_of_mem _ (ih htail)

theorem sorted_fileToken {offset : Nat} {token : Token} {tokens : List (Nat × Token)}
    (h : tokens.Pairwise (·.1 < ·.1)) : (fileToken offset token tokens).Pairwise (·.1 < ·.1) := by
  induction tokens with
  | nil => exact List.pairwise_singleton _ _
  | cons first rest ih =>
      obtain ⟨habove, hsorted⟩ := List.pairwise_cons.1 h
      rw [fileToken]
      split
      · rename_i hbefore
        refine List.pairwise_cons.2 ⟨fun entry hmem => ?_, h⟩
        rcases List.mem_cons.1 hmem with rfl | hmem
        · exact hbefore
        · exact Nat.lt_trans hbefore (habove entry hmem)
      split
      · rename_i hsame
        exact List.pairwise_cons.2 ⟨fun entry hmem => hsame ▸ habove entry hmem, hsorted⟩
      · rename_i hnotBefore hnotSame
        refine List.pairwise_cons.2 ⟨fun entry hmem => ?_, ih hsorted⟩
        rcases mem_fileToken hmem with rfl | hmem
        · exact Nat.lt_of_le_of_ne (Nat.le_of_not_lt hnotBefore) (Ne.symm hnotSame)
        · exact habove entry hmem

namespace Pool

/-! ## Steps -/

variable {σ : Type} [Service σ]

/-- A step of a pool is a step of one of its workers, or none at all. -/
theorem step_cases (p : Pool σ) (i : Nat) :
    p.step i = p ∨ ∃ w, p.workers[i]? = some w ∧
      p.step i = { (stepWorker w p).2 with workers := p.workers.set i (stepWorker w p).1 } := by
  cases h : p.workers[i]? with
  | none => exact .inl (by rw [step, h])
  | some w => exact .inr ⟨w, rfl, by rw [step, h, ← workers_stepWorker w p]⟩

/-- The steps that are left to do. -/
def completion (p : Pool σ) : List Action :=
  match h : p.nextLive? with
  | none => []
  | some i =>
    have := work_step_lt_of_nextLive h
    .step i :: completion (p.step i)
termination_by p.work

theorem finish_eq_foldl (p : Pool σ) : p.finish = p.completion.foldl act p := by
  fun_induction finish p with
  | case1 p hnone =>
      rw [completion]
      split
      · rfl
      · rename_i i hnext
        cases hnone.symm.trans hnext
  | case2 p i hnext _ ih =>
      rw [completion]
      split
      · rename_i hnone
        cases hnone.symm.trans hnext
      · rename_i j hnext'
        obtain rfl : i = j := Option.some.inj (hnext.symm.trans hnext')
        exact ih

/-- All that happens in a run: the schedule and what it leaves to do. -/
def actions (schedule : List Action) (p : Pool σ) : List Action :=
  schedule ++ (schedule.foldl act p).completion

theorem run_eq_foldl (schedule : List Action) (p : Pool σ) :
    p.run schedule = (p.actions schedule).foldl act p := by
  rw [run, finish_eq_foldl, actions, List.foldl_append]

theorem finish_invariant {P : Pool σ → Prop} (hstep : ∀ p i, P p → P (p.step i)) {p : Pool σ}
    (h : P p) : P p.finish := by
  fun_induction finish p with
  | case1 p hnone => exact h
  | case2 p i hnext _ ih => exact ih (hstep p i h)

theorem foldl_invariant {P : Pool σ → Prop} (hstep : ∀ p i, P p → P (p.step i))
    (schedule : List Action) (habort : .abort ∈ schedule → ∀ p, P p → P (p.act .abort))
    {p : Pool σ} (h : P p) : P (schedule.foldl act p) := by
  induction schedule generalizing p with
  | nil => exact h
  | cons action schedule ih =>
      refine ih (fun hmem => habort (List.mem_cons_of_mem _ hmem)) ?_
      cases action with
      | step i => exact hstep p i h
      | abort => exact habort List.mem_cons_self p h

/-- What steps preserve holds at the end of a run. Aborts only count if there are any. -/
theorem run_invariant {P : Pool σ → Prop} (hstep : ∀ p i, P p → P (p.step i))
    {schedule : List Action} (habort : .abort ∈ schedule → ∀ p, P p → P (p.act .abort))
    {p : Pool σ} (h : P p) : P (p.run schedule) :=
  finish_invariant hstep (foldl_invariant hstep schedule habort h)

theorem nextLive?_finish (p : Pool σ) : p.finish.nextLive? = none := by
  fun_induction finish p with
  | case1 p hnone => exact hnone
  | case2 p i hnext _ ih => exact ih

/-- After a run all workers have ended. -/
theorem ended_of_mem_run {p : Pool σ} {schedule : List Action} {w : Worker}
    (h : w ∈ (p.run schedule).workers) : w = .ended := by
  have hdead := List.findIdx?_eq_none_iff.1 (nextLive?_finish (schedule.foldl act p)) w h
  cases w with
  | ended => rfl
  | _ => cases hdead

omit [Service σ] in
theorem sumOver_of_ended {f : Worker → Nat} (hidle : f .ended = 0) {p : Pool σ}
    (hended : ∀ w ∈ p.workers, w = .ended) : sumOver f p.workers = 0 :=
  sumOver_eq_zero fun w hw => by rw [hended w hw, hidle]

/-! ## How a pool begins -/

omit [Service σ] in
theorem starting_of_mem_ofSession {session : Session σ} {common : CommonSource} {length : Nat} :
    ∀ w ∈ (ofSession session common length).workers, w = .starting :=
  fun _ => List.eq_of_mem_replicate

omit [Service σ] in
theorem sumOver_of_starting {f : Worker → Nat} (hidle : f .starting = 0) (session : Session σ)
    (common : CommonSource) (length : Nat) :
    sumOver f (ofSession session common length).workers = 0 :=
  sumOver_eq_zero fun w hw => by rw [starting_of_mem_ofSession w hw, hidle]

omit [Service σ] in
/-- A pool is only left without workers if there is nothing to do. -/
theorem queue_ofSession_nil {session : Session σ} (common : CommonSource) (length : Nat)
    (hparallelism : 0 < session.settings.parallelism)
    (hnobody : (ofSession session common length).workers = []) :
    (ofSession session common length).queue = [] := by
  have hcount := congrArg List.length hnobody
  rw [ofSession, List.length_replicate, List.length_nil] at hcount
  refine List.eq_nil_of_length_eq_zero (l := Span.cover length session.settings.chunkSize) ?_
  omega

/-! ## From a span to a chunk -/

/-- The spans whose chunks are no longer than asked for. -/
def Short (settings : Settings) (s : Span) : Prop := s.length ≤ max settings.chunkSize 1

theorem short_of_mem_cover {settings : Settings} {length : Nat} {s : Span}
    (h : s ∈ Span.cover length settings.chunkSize) : Short settings s := (Span.bounds_of_mem h).2.2

theorem limit_cutterFor {settings : Settings} {s : Span} (hshort : Short settings s) :
    (cutterFor settings s).limit = s.length := Nat.min_eq_left hshort

/-- The bytes that a worker has read in a span become one chunk, unless there are none. -/
theorem absorb_cutterFor {settings : Settings} {s : Span} (hshort : Short settings s) {got : Bytes}
    (hle : got.length ≤ s.length) :
    (got = [] ∧ ∃ k', (cutterFor settings s).absorb (.ok got) = (.done, k')) ∨
    ∃ k', (cutterFor settings s).absorb (.ok got) = (.chunk ⟨s.start, got, true⟩, k') ∧
      k'.finished = true ∧ got ≠ [] := by
  by_cases hnone : got = []
  · subst hnone
    exact .inl ⟨rfl, Cutter.absorb_plain_nil rfl⟩
  · have hlast : (decide (got.length < (cutterFor settings s).chunkSize) ||
        decide ((cutterFor settings s).remaining.map (· - got.length) = some 0)) = true := by
      change (decide (got.length < max settings.chunkSize 1) ||
        decide (some (s.length - got.length) = some 0)) = true
      rw [Bool.or_eq_true, decide_eq_true_eq, decide_eq_true_eq, Option.some.injEq]
      rw [Short] at hshort
      omega
    obtain ⟨k', hchunk, hfinished⟩ : ∃ k', (cutterFor settings s).absorb (.ok got) =
        (.chunk ⟨s.start, got, true⟩, k') ∧ k'.finished = true :=
      ⟨_, by rw [Cutter.absorb_plain rfl hnone, hlast]; rfl, rfl⟩
    exact .inr ⟨k', hchunk, hfinished, hnone⟩

/-- What a worker does with the bytes that it has read in a span. -/
theorem afterReading_cutterFor {settings : Settings} {s : Span} (hshort : Short settings s)
    {got : Bytes} (hle : got.length ≤ s.length) (writer : Writer) (window : Window) :
    (got = [] ∧
      afterReading writer window (.ok got) (cutterFor settings s) = .starting) ∨
    got ≠ [] ∧ ∃ k', k'.finished = true ∧
      afterReading writer window (.ok got) (cutterFor settings s) =
        match writer.check ⟨s.start, got, true⟩ with
        | .ok () => .sending k' window ⟨s.start, got, true⟩ 0
        | .error e => .stopping e := by
  rw [afterReading]
  rcases absorb_cutterFor hshort hle with ⟨hnone, k', hdone⟩ | ⟨k', hchunk, hfinished, hne⟩
  · rw [hdone]
    exact .inl ⟨hnone, rfl⟩
  · rw [hchunk]
    exact .inr ⟨hne, k', hfinished, rfl⟩

/-! ## Replacing one worker -/

theorem mem_set {xs : List Worker} {i : Nat} {x w : Worker} (h : w ∈ xs.set i x) :
    w = x ∨ w ∈ xs := (List.mem_or_eq_of_mem_set h).symm

/-- A property that some worker has is still there, unless the worker that is replaced loses it. -/
theorem exists_mem_set {P : Worker → Prop} {xs : List Worker} {i : Nat} {x y : Worker}
    (hi : xs[i]? = some x) (h : ∃ w ∈ xs, P w) (hkeep : P x → P y) : ∃ w ∈ xs.set i y, P w := by
  obtain ⟨w, hw, hpw⟩ := h
  obtain ⟨j, hj⟩ := List.mem_iff_getElem?.1 hw
  have hget : (xs.set i y)[i]? = some y := by
    rw [List.getElem?_set_self (List.getElem?_eq_some_iff.1 hi).1]
  by_cases hsame : j = i
  · subst hsame
    obtain rfl : w = x := Option.some.inj (hj.symm.trans hi)
    exact ⟨y, List.mem_of_getElem? hget, hkeep hpw⟩
  · exact ⟨w, List.mem_of_getElem? ((List.getElem?_set_ne (Ne.symm hsame)).trans hj), hpw⟩

end Pool

end BlobUpload
