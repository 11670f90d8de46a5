import BlobUpload.Upload.Pool.Basic

/-! # Every step of a pool leaves less to do

`Pool.work` bounds the steps that are left. A byte that is read moves from the window to the bytes
got, an interrupted read uses up a seek failure, a request uses up a retry. Main statement:
`work_step_lt`.
-/

namespace BlobUpload

/-- The sum of `f` over a list. -/
def sumOver {α : Type} (f : α → Nat) (xs : List α) : Nat := xs.foldr (fun x n => f x + n) 0

section

variable {α : Type} (f : α → Nat) {xs : List α}

theorem sumOver_nil : sumOver f [] = 0 := rfl

theorem sumOver_cons (x : α) (xs : List α) : sumOver f (x :: xs) = f x + sumOver f xs := rfl

theorem sumOver_append (xs ys : List α) : sumOver f (xs ++ ys) = sumOver f xs + sumOver f ys := by
  induction xs with
  | nil => exact (Nat.zero_add _).symm
  | cons x xs ih => rw [List.cons_append, sumOver_cons, ih, sumOver_cons, Nat.add_assoc]

theorem sumOver_perm {ys : List α} (hperm : xs.Perm ys) : sumOver f xs = sumOver f ys := by
  induction hperm with
  | nil => rfl
  | cons x _ ih => rw [sumOver_cons, sumOver_cons, ih]
  | swap x y xs => simp only [sumOver_cons, Nat.add_left_comm]
  | trans _ _ ih ih' => rw [ih, ih']

theorem sumOver_set {i : Nat} {x : α} (y : α) (h : xs[i]? = some x) :
    sumOver f (xs.set i y) + f x = sumOver f xs + f y := by
  induction xs generalizing i with
  | nil => cases h
  | cons z xs ih =>
    cases i with
    | zero =>
      cases h
      simp only [List.set_cons_zero, sumOver_cons]
      omega
    | succ i =>
      have := ih h
      simp only [List.set_cons_succ, sumOver_cons]
      omega

theorem sumOver_eq_zero {f : α → Nat} (h : ∀ x ∈ xs, f x = 0) : sumOver f xs = 0 := by
  induction xs with
  | nil => rfl
  | cons x xs ih =>
    rw [sumOver_cons, h x List.mem_cons_self, ih fun y hy => h y (List.mem_cons_of_mem _ hy)]

theorem length_flatMap {β : Type} (g : α → List β) (xs : List α) :
    (xs.flatMap g).length = sumOver (fun x => (g x).length) xs := by
  induction xs with
  | nil => rfl
  | cons x xs ih => rw [List.flatMap_cons, List.length_append, ih, sumOver_cons]

end

/-- What one byte to be read can cost in steps, once it is read. -/
def byteCost (retries : Nat) : Nat := retries + 8

/-- A bound on the steps of a worker that still has a window to read. -/
def cuttingWork (retries : Nat) (k : Cutter) (w : Window) : Nat :=
  w.left * (byteCost retries + 1) + if k.finished then 0 else byteCost retries

/-- A bound on the steps that a claimed span costs. -/
def spanWork (retries : Nat) (span : Span) : Nat :=
  6 + span.length * (byteCost retries + 1) + byteCost retries

/-- A bound on the steps that a worker still makes without claiming another span. -/
def Worker.work (retries : Nat) : Worker → Nat
  | .ended => 0
  | .reporting _ => 1
  | .stopping _ => 2
  | .claiming => 3
  | .starting => 4
  | .checking span => spanWork retries span
  | .reading k w got => 5 + cuttingWork retries k w + got.length * byteCost retries
  | .sending k w _ sent => 5 + cuttingWork retries k w + (retries + 1 - sent) + 3
  | .counting k w _ _ => 5 + cuttingWork retries k w + 2
  | .filing k w _ _ => 5 + cuttingWork retries k w + 1

def Worker.isLive : Worker → Bool
  | .ended => false
  | _ => true

namespace Pool

variable {σ : Type}

def retries (p : Pool σ) : Nat := p.session.settings.maxRetries

/-- A bound on the steps that the claimed spans, the queue and the failing seeks still cost, where
`w` is the only worker that counts. -/
def workWith (w : Worker) (p : Pool σ) : Nat :=
  w.work p.retries + sumOver (spanWork p.retries) p.queue + p.common.source.seekErrorsAhead

/-- A bound on the steps that a pool still makes. -/
def work (p : Pool σ) : Nat :=
  sumOver (Worker.work p.retries) p.workers + sumOver (spanWork p.retries) p.queue +
    p.common.source.seekErrorsAhead

theorem work_afterReading_ok (retries : Nat) (writer : Writer) (w : Window) (got : Bytes)
    (k : Cutter) (hunfinished : k.finished = false) :
    (afterReading writer w (.ok got) k).work retries <
      5 + cuttingWork retries k w + got.length * byteCost retries := by
  -- A cutter that goes on has got a full chunk, whose bytes pay for what comes next.
  have hfull : (k.absorb (.ok got)).2.finished = false →
      byteCost retries ≤ got.length * byteCost retries := by
    intro h
    obtain ⟨data, heq, hle⟩ := Cutter.chunkSize_le_of_absorb h
    cases heq
    have hpos := k.chunkSize_pos
    exact Nat.le_mul_of_pos_left _ (by omega)
  have hbefore : cuttingWork retries k w = w.left * (byteCost retries + 1) + byteCost retries := by
    simp [cuttingWork, hunfinished]
  unfold afterReading
  split
  · rename_i c k' heq
    rw [heq] at hfull
    split
    · simp only [Worker.work, hbefore]
      cases hk : k'.finished with
      | true =>
        simp only [cuttingWork, hk, if_true, byteCost]
        omega
      | false =>
        have := hfull hk
        simp only [cuttingWork, hk, byteCost] at this ⊢
        simp only [Bool.false_eq_true, if_false]
        omega
    · simp only [Worker.work]
      omega
  · simp only [Worker.work]
    omega
  · rename_i k' heq
    rw [heq] at hfull
    simp only [Worker.work, hbefore]
    cases hk : k'.finished with
    | true =>
      simp only [cuttingWork, hk, if_true, byteCost, List.length_nil]
      omega
    | false =>
      have := hfull hk
      simp only [cuttingWork, hk, byteCost, List.length_nil] at this ⊢
      simp only [Bool.false_eq_true, if_false]
      omega
  · simp only [Worker.work]
    omega

@[simp] theorem work_afterReading_error (retries : Nat) (writer : Writer) (w : Window)
    (e : SourceError) (k : Cutter) : (afterReading writer w (.error e) k).work retries = 2 := rfl

@[simp] theorem settings_checkAbort (offset : Nat) (s : Session σ) :
    (s.checkAbort offset).2.settings = s.settings := rfl

@[simp] theorem settings_advance (n : Nat) (s : Session σ) :
    (s.advance n).settings = s.settings := by
  unfold Session.advance Session.report
  split <;> rfl

theorem work_reading (retries : Nat) (k : Cutter) (w : Window) (got : Bytes) :
    (Worker.reading k w got).work retries =
      5 + cuttingWork retries k w + got.length * byteCost retries := rfl

theorem workWith_stepReading_lt (k : Cutter) (w : Window) (got : Bytes) (p : Pool σ) :
    (stepReading k w got p).2.workWith (stepReading k w got p).1 <
      p.workWith (.reading k w got) := by
  unfold stepReading
  split
  · simp only [workWith, Worker.work]
    omega
  · rename_i h
    have hunfinished : k.finished = false := by simpa using h
    split
    · have := work_afterReading_ok p.retries p.session.writer w got k hunfinished
      simp only [workWith, work_reading]
      omega
    · split
      rename_i answer w' common heq
      have hahead := w.seekErrorsAhead_read_le (k.limit - got.length) p.common
      have hsame : ({ p with common } : Pool σ).retries = p.retries := rfl
      rw [heq] at hahead
      simp only at hahead
      split
      · rename_i bytes hmore
        have hshrink := Window.left_of_more (n := k.limit - got.length) (w := w) (c := p.common)
          (by rw [heq]; exact hmore)
        rw [heq] at hshrink
        simp only at hshrink
        simp only [workWith, work_reading, hsame, cuttingWork, hunfinished, ← hshrink.1,
          List.length_append, Nat.add_mul, Nat.mul_add, Nat.mul_one]
        by_cases hb : bytes = []
        · have := hshrink.2 hb
          simp only [hb, List.length_nil]
          omega
        · have := List.length_pos_iff.2 hb
          omega
      · rename_i hstop
        have hstill := Window.left_of_stop (n := k.limit - got.length) (w := w) (c := p.common)
          (by rw [heq]; exact hstop)
        rw [heq] at hstill
        have := work_afterReading_ok p.retries p.session.writer w' got k hunfinished
        simp only [workWith, work_reading, hsame, cuttingWork] at this hstill ⊢
        rw [hstill] at this
        omega
      · simp only [workWith, work_reading, hsame, work_afterReading_error]
        omega

theorem retries_stepReading (k : Cutter) (w : Window) (got : Bytes) (p : Pool σ) :
    (stepReading k w got p).2.retries = p.retries := by
  unfold stepReading
  split
  · rfl
  · split
    · rfl
    · split
      split <;> rfl

theorem workers_stepReading (k : Cutter) (w : Window) (got : Bytes) (p : Pool σ) :
    (stepReading k w got p).2.workers = p.workers := by
  unfold stepReading
  split
  · rfl
  · split
    · rfl
    · split
      split <;> rfl

variable [Service σ]

theorem workWith_stepSending_lt (k : Cutter) (w : Window) (c : Chunk) (sent : Nat) (p : Pool σ) :
    (stepSending k w c sent p).2.workWith (stepSending k w c sent p).1 <
      p.workWith (.sending k w c sent) := by
  unfold stepSending
  split
  simp only
  split
  · simp only [workWith, Worker.work, retries]
    omega
  · simp only [workWith, Worker.work, retries]
    omega
  · split <;> simp only [workWith, Worker.work, retries] <;> omega

theorem workWith_stepWorker_lt (w : Worker) (p : Pool σ) (hlive : w.isLive = true) :
    (stepWorker w p).2.workWith (stepWorker w p).1 < p.workWith w := by
  cases w with
  | starting =>
    simp only [stepWorker, workWith]
    split <;> simp only [Worker.work] <;> omega
  | claiming =>
    simp only [stepWorker]
    split
    · simp only [workWith, Worker.work]
      omega
    · rename_i span queue heq
      simp only [workWith, Worker.work, retries, heq, sumOver_cons]
      omega
  | checking span =>
    simp only [stepWorker]
    split
    · simp only [workWith, openSpan, work_reading, retries, settings_checkAbort, cuttingWork,
        Window.left, CommonSource.window, spanWork, List.length_nil, Nat.sub_zero,
        show ∀ m, (Worker.checking span).work m = spanWork m span from fun _ => rfl]
      split <;> omega
    · simp only [workWith, Worker.work, retries, settings_checkAbort, spanWork]
      omega
  | reading k window got => exact workWith_stepReading_lt k window got p
  | sending k window c sent => exact workWith_stepSending_lt k window c sent p
  | counting k window c token =>
    simp only [stepWorker, workWith, Worker.work, retries, settings_advance]
    omega
  | filing k window c token =>
    simp only [stepWorker, workWith, Worker.work, retries, List.length_nil]
    omega
  | stopping e =>
    simp only [stepWorker, workWith, Worker.work, retries]
    omega
  | reporting e =>
    simp only [stepWorker, workWith, Worker.work, retries]
    omega
  | ended => cases hlive

theorem retries_stepWorker (w : Worker) (p : Pool σ) : (stepWorker w p).2.retries = p.retries := by
  cases w with
  | claiming => simp only [stepWorker]; split <;> rfl
  | checking span => simp only [stepWorker]; split <;> rfl
  | reading k window got => exact retries_stepReading k window got p
  | sending k window c sent =>
    simp only [stepWorker, stepSending]
    split
    · rfl
    · rfl
    · split <;> rfl
  | counting k window c token => simp only [stepWorker, retries, settings_advance]
  | _ => rfl

/-- A step changes the state of no other worker. -/
theorem workers_stepWorker (w : Worker) (p : Pool σ) : (stepWorker w p).2.workers = p.workers := by
  cases w with
  | claiming => simp only [stepWorker]; split <;> rfl
  | checking span => simp only [stepWorker]; split <;> rfl
  | reading k window got => exact workers_stepReading k window got p
  | sending k window c sent =>
    simp only [stepWorker, stepSending]
    split
    · rfl
    · rfl
    · split <;> rfl
  | _ => rfl

theorem work_step_lt {p : Pool σ} {i : Nat} {w : Worker} (hi : p.workers[i]? = some w)
    (hlive : w.isLive = true) : (p.step i).work < p.work := by
  have hlt := workWith_stepWorker_lt w p hlive
  have hsame := retries_stepWorker w p
  have hsum := sumOver_set (Worker.work p.retries) (stepWorker w p).1 hi
  unfold step
  rw [hi]
  simp only [workWith, work, hsame, workers_stepWorker] at hlt ⊢
  have hsame' : ({ (stepWorker w p).2 with
      workers := p.workers.set i (stepWorker w p).1 } : Pool σ).retries = p.retries := hsame
  simp only [hsame']
  omega

end Pool

end BlobUpload
