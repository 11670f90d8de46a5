import BlobUpload.Proofs.Pool.FiledTokens
import BlobUpload.Proofs.Window.View

/-! # Pools over an exhausted source

A source may be declared longer than it is. Where nothing is left of it, the workers of a pool go
through all spans, read nothing and cut nothing, so the service is not asked for anything. This is
so as long as the spans end within 64 bits: behind these they would come to the front of the data
again. -/

namespace BlobUpload

/-! ## Reading where nothing is left -/

namespace Source

/-- Nothing is left from the position on, no read fails for good, and no seek fails. -/
structure Exhausted (s : Source) : Prop where
  rest : s.rest = []
  reads : ∀ i e, s.script.step i = .fail e → e.isInterrupted = true
  seeks : s.seekErrors = []

variable {s t : Source}

theorem Exhausted.of_advanced (h : s.Exhausted) (hadv : Advanced 0 s t) : t.Exhausted :=
  ⟨by rw [hadv.rest, h.rest]; rfl, hadv.script ▸ h.reads, hadv.seekErrors.trans h.seeks⟩

theorem Exhausted.sought (h : s.Exhausted) {target : Nat} (hbehind : s.data.length ≤ target) :
    (s.sought target).Exhausted :=
  ⟨List.drop_eq_nil_of_le hbehind, h.reads, h.seeks⟩

theorem Exhausted.behind (h : s.Exhausted) : s.data.length ≤ s.position :=
  List.drop_eq_nil_iff.1 h.rest

/-- Reads that are interrupted at worst end without a failure. -/
theorem failure_readUpTo (hreads : ∀ i e, s.script.step i = .fail e → e.isInterrupted = true)
    (n : Nat) : (readUpTo n s).1.failure = none := by
  fun_induction readUpTo n s with
  | case1 s => rfl
  | case2 n s hwanting failure hstop =>
      rw [reader_read] at hstop
      cases hanswer : (s.read n).1 with
      | ok bytes =>
          rw [hanswer] at hstop
          cases bytes with
          | nil =>
              cases hstop
              rfl
          | cons b rest => cases hstop
      | error e =>
          have hinterrupted : e.isInterrupted = true := by
            rw [read] at hanswer
            split at hanswer
            · rename_i hstep
              cases hanswer
              exact hreads _ _ hstep
            · cases hanswer
            · cases hanswer
          rw [hanswer, Verdict.of, if_pos hinterrupted] at hstop
          cases hstop
  | case3 n s hwanting bytes hmore _ fill t heq ih =>
      obtain ⟨-, hadv⟩ := more_of_read (reader_read n s ▸ hmore)
      rw [heq] at ih
      exact ih (hadv.script.symm ▸ hreads)

/-- Reading where nothing is left hands out nothing. -/
theorem Exhausted.readUpTo (h : s.Exhausted) (n : Nat) :
    (readUpTo n s).1 = ⟨[], none⟩ ∧ Advanced 0 s (readUpTo n s).2 := by
  obtain ⟨hfront, hadv⟩ := readUpTo_advances n s
  have hfailure := failure_readUpTo h.reads n
  rw [h.rest, List.take_nil, List.prefix_nil] at hfront
  rw [hfront] at hadv
  exact ⟨by rw [← hfront, ← hfailure], hadv⟩

end Source

/-- A window that has come behind the end of the data has nothing to show. -/
theorem Window.read_of_exhausted {w : Window} {c : CommonSource} (hisOpen : c.isOpen = true)
    (hexhausted : c.source.Exhausted) (hempty : w.buffer = [])
    (hbehind : c.source.data.length ≤ Offset.add w.regionStart w.position) (n : Nat) :
    ∃ w' source, w.read n c = (.ok [], w', { c with source }) ∧ source.Exhausted ∧
      source.data = c.source.data := by
  rw [read]
  simp only
  split
  · exact ⟨w, c.source, rfl, hexhausted, rfl⟩
  rename_i hwanting
  have huncovered : ¬w.covers (w.wanted n) = true := by
    simp only [covers, bufferStop, hempty, List.length_nil, Bool.and_eq_true, decide_eq_true_eq]
    omega
  rw [if_neg huncovered]
  have hdropped : w.rebase.buffer = [] := by
    simp only [rebase, hempty, List.drop_nil, ite_self]
  have hstop : w.rebase.bufferStop = w.position := by
    rw [bufferStop, hdropped]
    rfl
  have hmoved := hexhausted.sought hbehind
  obtain ⟨hfill, hadv⟩ := hmoved.readUpTo (w.rebase.refillLimit (w.wanted n))
  rw [refill, extend, if_pos hisOpen, hstop, show w.rebase.regionStart = w.regionStart from rfl,
    Source.seek_start_of_seeks hexhausted.seeks]
  simp only [hfill, hdropped, List.append_nil, serve, List.drop_nil, List.take_nil]
  exact ⟨_, _, rfl, hmoved.of_advanced hadv, hadv.data⟩

namespace Pool

variable {σ : Type} [Service σ] {data : Bytes} {origin : Nat} {start : Session σ} {p p' : Pool σ}
  {w w' : Worker}

/-! ## One step -/

/-- A span of a source from `origin` on lies behind the end of the data. -/
def Behind (data : Bytes) (origin : Nat) (s : Span) : Prop :=
  data.length ≤ Offset.add origin s.start

/-- A worker has read nothing, and its span lies behind the end of the data. -/
def Idle (data : Bytes) (origin : Nat) : Worker → Prop
  | .checking s => Behind data origin s
  | .reading k window got => k.cipher = none ∧ got = [] ∧ window.buffer = [] ∧
    data.length ≤ Offset.add window.regionStart window.position
  | .sending .. | .counting .. | .filing .. => False
  | _ => True

/-- Nothing is left of the source, no token is filed, and the session is as it was at the start but
for the abort flag. -/
structure Vacant (data : Bytes) (origin : Nat) (start : Session σ) (p : Pool σ) : Prop where
  session : ∃ abort, p.session = { start with abort }
  tokens : p.tokens = []
  queue : ∀ s ∈ p.queue, Behind data origin s
  origin : p.common.origin = origin
  isOpen : p.common.isOpen = true
  data : p.common.source.data = data
  exhausted : p.common.source.Exhausted

/-- What an idle worker can do in one step, and what becomes of the pool. -/
inductive Idles (data : Bytes) (origin : Nat) (p : Pool σ) : Worker → Worker → Pool σ → Prop
  | leave : Idles data origin p .starting .ended p
  | proceed : Idles data origin p .starting .claiming p
  | drained : Idles data origin p .claiming .ended p
  | claim {s : Span} {queue : List Span} : p.queue = s :: queue →
    Idles data origin p .claiming (.checking s) { p with queue }
  | enter {s : Span} {session : Session σ} {k : Cutter} {window : Window} :
    p.session.checkAbort s.start = (.ok (), session) → Idle data origin (.reading k window []) →
    Idles data origin p (.checking s) (.reading k window []) { p with session }
  | refuse {s : Span} {session : Session σ} {e : UploadError} :
    p.session.checkAbort s.start = (.error e, session) →
    Idles data origin p (.checking s) (.stopping e) { p with session }
  | blank {k : Cutter} {window : Window} {source : Source} : source.Exhausted →
    source.data = p.common.source.data →
    Idles data origin p (.reading k window []) .starting
      { p with common := { p.common with source } }
  | stop {e : UploadError} : Idles data origin p (.stopping e) (.reporting e)
    { p with stop := true }
  | report {e : UploadError} :
    Idles data origin p (.reporting e) .ended { p with failure := p.failure.or (some e) }
  | rest : Idles data origin p .ended .ended p

/-- A worker that has read nothing cuts nothing. -/
theorem afterReading_nil {k : Cutter} (hplain : k.cipher = none) (writer : Writer)
    (window : Window) : afterReading writer window (.ok []) k = .starting := by
  obtain ⟨k', hdone⟩ := Cutter.absorb_plain_nil hplain
  rw [afterReading, hdone]

omit [Service σ] in
theorem idles_stepReading {k : Cutter} {window : Window} {got : Bytes}
    (hvacant : p.Vacant data origin start) (hidle : Idle data origin (.reading k window got)) :
    Idles data origin p (.reading k window got) (stepReading k window got p).1
      (stepReading k window got p).2 := by
  obtain ⟨hplain, rfl, hempty, hbehind⟩ := hidle
  rw [stepReading]
  split
  · exact .blank hvacant.exhausted rfl
  split
  · rw [afterReading_nil hplain]
    exact .blank hvacant.exhausted rfl
  obtain ⟨window', source, hread, hexhausted, hsame⟩ := Window.read_of_exhausted hvacant.isOpen
    hvacant.exhausted hempty (by rwa [hvacant.data]) (k.limit - List.length [])
  rw [hread]
  simp only [Verdict.of, afterReading_nil hplain]
  exact .blank hexhausted hsame

theorem idles_stepWorker (hvacant : p.Vacant data origin start) (hidle : Idle data origin w) :
    Idles data origin p w (stepWorker w p).1 (stepWorker w p).2 := by
  cases w with
  | starting =>
      rw [stepWorker]
      split
      · exact .leave
      · exact .proceed
  | claiming =>
      rw [stepWorker]
      split
      · exact .drained
      · rename_i hnext
        exact .claim hnext
  | checking s =>
      rw [stepWorker]
      rcases hlooked : p.session.checkAbort s.start with ⟨e | _, session⟩
      · exact .refuse hlooked
      · obtain rfl := Session.eq_of_checkAbort hlooked
        refine .enter hlooked ⟨rfl, rfl, rfl, ?_⟩
        change _ ≤ Offset.add (Offset.add p.common.origin s.start) 0
        rw [hvacant.origin, Offset.add_of_lt (Offset.add_lt origin s.start)]
        exact hidle
  | reading k window got => exact idles_stepReading hvacant hidle
  | sending => exact hidle.elim
  | counting => exact hidle.elim
  | filing => exact hidle.elim
  | stopping e => exact .stop
  | reporting e => exact .report
  | ended => exact .rest

omit [Service σ] in
theorem Idles.idle (hidles : Idles data origin p w w' p') (hvacant : p.Vacant data origin start) :
    Idle data origin w' := by
  cases hidles with
  | claim hnext => exact hvacant.queue _ (hnext ▸ List.mem_cons_self)
  | enter _ hidle => exact hidle
  | _ => trivial

omit [Service σ] in
theorem Vacant.withAbort (hvacant : p.Vacant data origin start) (abort : Abort) :
    Vacant data origin start { p with session := { p.session with abort } } := by
  obtain ⟨before, hsame⟩ := hvacant.session
  exact { hvacant with session := ⟨abort, by rw [hsame]⟩ }

omit [Service σ] in
theorem Idles.vacant (hidles : Idles data origin p w w' p') (hvacant : p.Vacant data origin start) :
    p'.Vacant data origin start := by
  cases hidles with
  | claim hnext =>
      exact { hvacant with
        queue := fun s hs => hvacant.queue s (hnext ▸ List.mem_cons_of_mem _ hs) }
  | enter hlooked =>
      obtain rfl := Session.eq_of_checkAbort hlooked
      exact hvacant.withAbort _
  | refuse hlooked =>
      obtain rfl := Session.eq_of_checkAbort hlooked
      exact hvacant.withAbort _
  | blank hexhausted hsame =>
      exact { hvacant with
        exhausted := hexhausted
        data := hsame.trans hvacant.data
        origin := hvacant.origin }
  | _ => exact { hvacant with }

omit [Service σ] in
/-- An idle worker fails only if somebody aborts the upload. -/
theorem Idles.unfailed (hidles : Idles data origin p w w' p') (hcalm : p.session.Undisturbed)
    (hunfailed : p.failure = none) (hwell : w.hasFailed = false) :
    p'.session.Undisturbed ∧ p'.failure = none ∧ w'.hasFailed = false := by
  cases hidles with
  | enter hlooked =>
      rw [Session.checkAbort_of_undisturbed hcalm] at hlooked
      cases hlooked
      exact ⟨hcalm, hunfailed, rfl⟩
  | refuse hlooked =>
      rw [Session.checkAbort_of_undisturbed hcalm] at hlooked
      cases hlooked
  | stop => cases hwell
  | report => cases hwell
  | _ => exact ⟨hcalm, hunfailed, rfl⟩

/-! ## A whole run -/

/-- A vacant pool whose workers are all idle. -/
structure Idling (data : Bytes) (origin : Nat) (start : Session σ) (p : Pool σ) : Prop where
  vacant : p.Vacant data origin start
  idle : ∀ w ∈ p.workers, Idle data origin w

/-- An idling pool in which nobody has failed or aborts. -/
structure Untroubled (data : Bytes) (origin : Nat) (start : Session σ) (p : Pool σ) : Prop where
  idling : p.Idling data origin start
  undisturbed : p.session.Undisturbed
  failure : p.failure = none
  well : ∀ w ∈ p.workers, w.hasFailed = false

theorem Idling.step (hidling : p.Idling data origin start) (i : Nat) :
    (p.step i).Idling data origin start := by
  rcases p.step_cases i with hsame | ⟨w, hi, hmoved⟩
  · rwa [hsame]
  have hidles := idles_stepWorker hidling.vacant (hidling.idle w (List.mem_of_getElem? hi))
  rw [hmoved]
  refine ⟨{ hidles.vacant hidling.vacant with }, fun v hv => ?_⟩
  rcases mem_set hv with rfl | hv
  · exact hidles.idle hidling.vacant
  · exact hidling.idle v hv

theorem Untroubled.step (huntroubled : p.Untroubled data origin start) (i : Nat) :
    (p.step i).Untroubled data origin start := by
  obtain ⟨hidling, hundisturbed, hfailure, hwell⟩ := huntroubled
  have hstill := hidling.step i
  rcases p.step_cases i with hsame | ⟨w, hi, hmoved⟩
  · rw [hsame]
    exact ⟨hidling, hundisturbed, hfailure, hwell⟩
  have hmem := List.mem_of_getElem? hi
  obtain ⟨hundisturbed', hfailure', hwell'⟩ :=
    (idles_stepWorker hidling.vacant (hidling.idle w hmem)).unfailed hundisturbed hfailure
    (hwell w hmem)
  rw [hmoved] at hstill ⊢
  refine ⟨hstill, hundisturbed', hfailure', fun v hv => ?_⟩
  rcases mem_set hv with rfl | hv
  · exact hwell'
  · exact hwell v hv

omit [Service σ] in
theorem idling_ofSession (session : Session σ) {source : Source} (hexhausted : source.Exhausted)
    {length : Nat} (hfits : source.position + length < UInt64.size) :
    (ofSession session source.shared length).Idling source.data source.position session := by
  refine ⟨⟨⟨_, rfl⟩, rfl, fun s hs => ?_, rfl, rfl, rfl, hexhausted.sought hexhausted.behind⟩,
    fun w hw => ?_⟩
  · obtain ⟨hpos, hstop, -⟩ := Span.bounds_of_mem hs
    rw [Behind, Offset.add_of_lt (by omega)]
    exact Nat.le_add_right_of_le hexhausted.behind
  · rw [starting_of_mem_ofSession w hw]
    trivial

/-- Whatever length is declared, a pool over an exhausted source asks the service for nothing. -/
theorem idling_run (session : Session σ) {source : Source} (hexhausted : source.Exhausted)
    {length : Nat} (hfits : source.position + length < UInt64.size) (schedule : List Action) :
    ((ofSession session source.shared length).run schedule).Idling source.data source.position
      session :=
  run_invariant (P := fun p => p.Idling source.data source.position session)
    (fun _ i h => h.step i) (fun _ _ h => ⟨h.vacant.withAbort _, h.idle⟩)
    (idling_ofSession session hexhausted hfits)

/-- Unless somebody aborts it, it ends well. -/
theorem untroubled_run {session : Session σ} (hcalm : session.Undisturbed) {source : Source}
    (hexhausted : source.Exhausted) {length : Nat}
    (hfits : source.position + length < UInt64.size) {schedule : List Action}
    (hfree : .abort ∉ schedule) :
    ((ofSession session source.shared length).run schedule).Untroubled source.data source.position
      session := by
  refine run_invariant (P := fun p => p.Untroubled source.data source.position session)
    (fun _ i h => h.step i) (fun habort => absurd habort hfree)
    ⟨idling_ofSession session hexhausted hfits, hcalm, rfl, fun w hw => ?_⟩
  rw [starting_of_mem_ofSession w hw]
  rfl

end Pool

end BlobUpload
