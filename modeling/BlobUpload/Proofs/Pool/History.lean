import BlobUpload.Proofs.Pool.FiledTokens

/-! # The history of a pool

The history of a run lists who claims which span, which chunk is cut and what is sent for it.
`Stride` says for every step of a worker what it adds to the history and what becomes of the pool,
whatever the source, the service and whoever may abort do. -/

namespace BlobUpload

namespace Worker

/-- What is remembered of a step. -/
inductive Event where
  /-- A span is taken from the queue. -/
  | claimed (span : Span)
  /-- The bytes of a span have become a chunk. -/
  | cut (chunk : Chunk)
  /-- A request for the chunk has been answered, by a token unless it failed. -/
  | sent (chunk : Chunk) (token? : Option Token)

/-- What is remembered of a step from one state of a worker to the next. -/
def event? : Worker → Worker → Option Event
  | .claiming, .checking s => some (.claimed s)
  | .reading .., .sending _ _ c _ => some (.cut c)
  | .sending _ _ c _, .counting _ _ _ token => some (.sent c (some token))
  | .sending _ _ c _, _ => some (.sent c none)
  | _, _ => none

/-- How many chunks a worker has cut and not sent yet. -/
def unsent : Worker → Nat
  | .sending .. => 1
  | _ => 0

def Event.claimed? : Event → Option Span
  | .claimed s => some s
  | _ => none

def Event.cut? : Event → Option Chunk
  | .cut c => some c
  | _ => none

def Event.sent? : Event → Option Chunk
  | .sent c _ => some c
  | _ => none

end Worker

/-- Who did what, in order. -/
abbrev History := List (Nat × Worker.Event)

namespace History

/-- The spans that were claimed. -/
def claims (h : History) : List Span := h.filterMap fun entry => entry.2.claimed?

/-- The chunks that were cut. -/
def cuts (h : History) : List Chunk := h.filterMap fun entry => entry.2.cut?

/-- The chunks for which requests were sent, each as often as that happened. -/
def sends (h : History) : List Chunk := h.filterMap fun entry => entry.2.sent?

/-- The requests that were sent. -/
def requests (writer : Writer) (h : History) : List Request := h.sends.map writer.request

theorem claims_append (h h' : History) : claims (h ++ h') = claims h ++ claims h' :=
  List.filterMap_append

theorem cuts_append (h h' : History) : cuts (h ++ h') = cuts h ++ cuts h' := List.filterMap_append

theorem sends_append (h h' : History) : sends (h ++ h') = sends h ++ sends h' :=
  List.filterMap_append

theorem mem_claims {h : History} {s : Span} : s ∈ h.claims ↔ ∃ i, (i, .claimed s) ∈ h := by
  rw [claims, List.mem_filterMap]
  constructor
  · rintro ⟨⟨i, event⟩, hmem, hsame⟩
    cases event with
    | claimed t => exact ⟨i, Option.some.inj hsame ▸ hmem⟩
    | _ => cases hsame
  · rintro ⟨i, hmem⟩
    exact ⟨_, hmem, rfl⟩

theorem mem_cuts {h : History} {c : Chunk} : c ∈ h.cuts ↔ ∃ i, (i, .cut c) ∈ h := by
  rw [cuts, List.mem_filterMap]
  constructor
  · rintro ⟨⟨i, event⟩, hmem, hsame⟩
    cases event with
    | cut d => exact ⟨i, Option.some.inj hsame ▸ hmem⟩
    | _ => cases hsame
  · rintro ⟨i, hmem⟩
    exact ⟨_, hmem, rfl⟩

theorem mem_sends {h : History} {c : Chunk} :
    c ∈ h.sends ↔ ∃ i token?, (i, .sent c token?) ∈ h := by
  rw [sends, List.mem_filterMap]
  constructor
  · rintro ⟨⟨i, event⟩, hmem, hsame⟩
    cases event with
    | sent d token? => exact ⟨i, token?, Option.some.inj hsame ▸ hmem⟩
    | _ => cases hsame
  · rintro ⟨i, token?, hmem⟩
    exact ⟨_, hmem, rfl⟩

end History

namespace Pool

variable {σ : Type} [Service σ]

/-- What is remembered of an action. -/
def events (p : Pool σ) : Action → History
  | .abort => []
  | .step i =>
    match p.workers[i]? with
    | none => []
    | some w => ((w.event? (stepWorker w p).1).map (i, ·)).toList

/-- What is remembered of all actions, one after another. -/
def history (p : Pool σ) : List Action → History
  | [] => []
  | action :: actions => p.events action ++ (p.act action).history actions

/-! ## What a worker may be about to do -/

/-- A worker holds at most one span, of which `P` holds, and reads no further than that span goes.
After the chunk of a span it is done with it. -/
def Proper (settings : Settings) (P : Span → Prop) : Worker → Prop
  | .checking s => P s
  | .reading k _ got =>
    k.finished = true ∨ ∃ s, P s ∧ k = cutterFor settings s ∧ got.length ≤ s.length
  | .sending k _ _ sent => k.finished = true ∧ sent ≤ settings.maxRetries
  | .counting k _ _ _ | .filing k _ _ _ => k.finished = true
  | _ => True

omit [Service σ] in
theorem Proper.imp {settings : Settings} {P Q : Span → Prop} {w : Worker}
    (hproper : Proper settings P w) (himp : ∀ s, P s → Q s) : Proper settings Q w := by
  cases w with
  | checking s => exact himp s hproper
  | reading k window got =>
      exact hproper.imp_right fun ⟨s, hholds, hcutter, hle⟩ => ⟨s, himp s hholds, hcutter, hle⟩
  | _ => exact hproper

/-! ## One step -/

/-- What a worker can do in one step, what is remembered of it, and what becomes of the pool. -/
inductive Stride (p : Pool σ) : Worker → Option Worker.Event → Worker → Pool σ → Prop
  | leave : p.stop = true → Stride p .starting none .ended p
  | proceed : p.stop = false → Stride p .starting none .claiming p
  | drained : p.queue = [] → Stride p .claiming none .ended p
  | claim {s : Span} {queue : List Span} : p.queue = s :: queue →
    Stride p .claiming (some (.claimed s)) (.checking s) { p with queue }
  | enter {s : Span} {session : Session σ} {window : Window} :
    p.session.checkAbort s.start = (.ok (), session) →
    Stride p (.checking s) none (.reading (cutterFor p.session.settings s) window [])
      { p with session }
  | refuse {s : Span} {session : Session σ} {e : UploadError} :
    p.session.checkAbort s.start = (.error e, session) →
    Stride p (.checking s) none (.stopping e) { p with session }
  | read {k : Cutter} {window window' : Window} {got got' : Bytes} {common : CommonSource} :
    got'.length ≤ k.limit →
    Stride p (.reading k window got) none (.reading k window' got') { p with common }
  | close {k : Cutter} {window : Window} {got : Bytes} {common : CommonSource} :
    Stride p (.reading k window got) none .starting { p with common }
  | cut {k k' : Cutter} {window window' : Window} {got : Bytes} {c : Chunk}
    {common : CommonSource} : k.finished = false → k'.finished = true → c.offset = k.offset →
    c.payload = got → p.session.writer.check c = .ok () →
    Stride p (.reading k window got) (some (.cut c)) (.sending k' window' c 0) { p with common }
  | fail {k : Cutter} {window : Window} {got : Bytes} {e : UploadError} {common : CommonSource} :
    Stride p (.reading k window got) none (.stopping e) { p with common }
  | retry {k : Cutter} {window : Window} {c : Chunk} {sent : Nat} {e : ServiceError} {service : σ} :
    Service.answer (p.session.writer.request c) p.session.service = (.error e, service) →
    sent < p.session.settings.maxRetries →
    Stride p (.sending k window c sent) (some (.sent c none)) (.sending k window c (sent + 1))
      { p with session := { p.session with service } }
  | giveUp {k : Cutter} {window : Window} {c : Chunk} {sent : Nat} {e : ServiceError}
    {failure : UploadError} {service : σ} :
    Service.answer (p.session.writer.request c) p.session.service = (.error e, service) →
    Stride p (.sending k window c sent) (some (.sent c none)) (.stopping failure)
      { p with session := { p.session with service } }
  | written {k : Cutter} {window : Window} {c : Chunk} {sent : Nat} {service : σ}
    {reply : (p.session.writer.request c).Reply} :
    Service.answer (p.session.writer.request c) p.session.service = (.ok reply, service) →
    Stride p (.sending k window c sent)
      (some (.sent c (some (p.session.writer.accept c reply).1)))
      (.counting k window c (p.session.writer.accept c reply).1)
      { p with session :=
          { p.session with service, writer := (p.session.writer.accept c reply).2 } }
  | count {k : Cutter} {window : Window} {c : Chunk} {token : Token} :
    Stride p (.counting k window c token) none (.filing k window c token)
      { p with session := p.session.advance c.length }
  | file {k : Cutter} {window : Window} {c : Chunk} {token : Token} :
    Stride p (.filing k window c token) none (.reading k window [])
      { p with tokens := fileToken c.offset token p.tokens }
  | stop {e : UploadError} : Stride p (.stopping e) none (.reporting e) { p with stop := true }
  | report {e : UploadError} :
    Stride p (.reporting e) none .ended { p with failure := p.failure.or (some e) }
  | rest : Stride p .ended none .ended p

theorem stride_afterReading {p : Pool σ} {s : Span} (hshort : Short p.session.settings s)
    {got : Bytes} (hle : got.length ≤ s.length) (window window' : Window) (common : CommonSource) :
    Stride p (.reading (cutterFor p.session.settings s) window got)
      ((Worker.reading (cutterFor p.session.settings s) window got).event?
        (afterReading p.session.writer window' (.ok got) (cutterFor p.session.settings s)))
      (afterReading p.session.writer window' (.ok got) (cutterFor p.session.settings s))
      { p with common } := by
  rcases afterReading_cutterFor hshort hle p.session.writer window' with
    ⟨-, hafter⟩ | ⟨-, k', hfinished, hafter⟩
  · rw [hafter]
    exact .close
  · rw [hafter]
    cases hchecked : p.session.writer.check ⟨s.start, got, true⟩ with
    | ok _ => exact .cut rfl hfinished rfl rfl hchecked
    | error e => exact .fail

/-- What a window hands out is no more than was asked for. -/
theorem length_le_of_more {n : Nat} {w : Window} {c : CommonSource} {bytes : Bytes}
    (h : Verdict.of (w.read n c).1 = .more bytes) : bytes.length ≤ n :=
  Reader.length_le_of_more (r := WindowReader.mk w c) h

theorem stride_stepReading {p : Pool σ} {k : Cutter} {window : Window} {got : Bytes}
    (hproper : Proper p.session.settings (Short p.session.settings) (.reading k window got)) :
    Stride p (.reading k window got)
      ((Worker.reading k window got).event? (stepReading k window got p).1)
      (stepReading k window got p).1 (stepReading k window got p).2 := by
  rw [stepReading]
  rcases hproper with hfinished | ⟨s, hshort, rfl, hle⟩
  · rw [if_pos hfinished]
    exact .close
  rw [if_neg (by simp [cutterFor, Cutter.ofSize])]
  have hlimit := limit_cutterFor hshort
  split
  · exact stride_afterReading hshort hle window window p.common
  split
  rename_i answer window' common hread
  rw [hlimit] at hread
  cases hverdict : Verdict.of answer with
  | more bytes =>
      have hmore := length_le_of_more (n := s.length - got.length) (w := window) (c := p.common)
        (by rw [hread]; exact hverdict)
      refine .read ?_
      rw [hlimit, List.length_append]
      omega
  | stop failure =>
      cases failure with
      | none => exact stride_afterReading hshort hle window window' common
      | some e => exact .fail

theorem stride_stepSending (k : Cutter) (window : Window) (c : Chunk) (sent : Nat) (p : Pool σ) :
    Stride p (.sending k window c sent)
      ((Worker.sending k window c sent).event? (stepSending k window c sent p).1)
      (stepSending k window c sent p).1 (stepSending k window c sent p).2 := by
  rw [stepSending, Writer.write]
  rcases hanswered : Service.answer (p.session.writer.request c) p.session.service with
    ⟨e | reply, service⟩
  · cases e with
    | condition message => exact .giveUp hanswered
    | _ =>
        simp only
        split
        · exact .giveUp hanswered
        · exact .retry hanswered (by omega)
  · exact .written hanswered

theorem stride_stepWorker {w : Worker} {p : Pool σ}
    (hproper : Proper p.session.settings (Short p.session.settings) w) :
    Stride p w (w.event? (stepWorker w p).1) (stepWorker w p).1 (stepWorker w p).2 := by
  cases w with
  | starting =>
      cases hstopped : p.stop with
      | true =>
          simp only [stepWorker, hstopped, if_true]
          exact .leave hstopped
      | false =>
          simp only [stepWorker, hstopped, Bool.false_eq_true, if_false]
          exact .proceed hstopped
  | claiming =>
      cases hqueue : p.queue with
      | nil => simp only [stepWorker, hqueue]; exact .drained hqueue
      | cons s rest => simp only [stepWorker, hqueue]; exact .claim hqueue
  | checking s =>
      rcases hlooked : p.session.checkAbort s.start with ⟨e | _, session⟩
      · simp only [stepWorker, hlooked]
        exact .refuse hlooked
      · obtain rfl := Session.eq_of_checkAbort hlooked
        simp only [stepWorker, hlooked]
        exact .enter hlooked
  | reading k window got => exact stride_stepReading hproper
  | sending k window c sent => exact stride_stepSending k window c sent p
  | counting k window c token => exact .count
  | filing k window c token => exact .file
  | stopping e => exact .stop
  | reporting e => exact .report
  | ended => exact .rest

/-- After a step a worker still holds at most one span, perhaps one that it has just claimed. -/
theorem Stride.proper {p p' : Pool σ} {w w' : Worker} {event : Option Worker.Event}
    {P : Span → Prop} (hstride : Stride p w event w' p') (hproper : Proper p.session.settings P w)
    (hshort : ∀ s, P s → Short p.session.settings s)
    (hclaimed : ∀ s, event = some (.claimed s) → P s) : Proper p.session.settings P w' := by
  cases hstride with
  | claim => exact hclaimed _ rfl
  | enter => exact .inr ⟨_, hproper, rfl, Nat.zero_le _⟩
  | read hle =>
      refine hproper.imp_right fun ⟨s, hholds, hcutter, _⟩ => ⟨s, hholds, hcutter, ?_⟩
      rwa [hcutter, limit_cutterFor (hshort s hholds)] at hle
  | cut _ hfinished => exact ⟨hfinished, Nat.zero_le _⟩
  | retry _ hmore => exact ⟨hproper.1, hmore⟩
  | written => exact hproper.1
  | count => exact hproper
  | file => exact .inl hproper
  | _ => trivial

/-! ## A whole history -/

section

variable {p p' : Pool σ} {w w' : Worker} {event : Option Worker.Event} {i : Nat} {past : History}

/-- The history after a step of the worker `i`. -/
def record (i : Nat) (event : Option Worker.Event) (past : History) : History :=
  past ++ (event.map (i, ·)).toList

theorem mem_record {entry : Nat × Worker.Event} :
    entry ∈ record i event past ↔ entry ∈ past ∨ ∃ e, event = some e ∧ entry = (i, e) := by
  cases event with
  | none => simp [record]
  | some e => simp [record]

theorem mem_record_of_mem {entry : Nat × Worker.Event} (h : entry ∈ past) :
    entry ∈ record i event past := List.mem_append_left _ h

omit [Service σ] in
/-- After a step of the worker `i` every worker but this one is as before. -/
theorem getElem?_replace {j : Nat} {v : Worker} (h : (replace i w' p p').workers[j]? = some v) :
    j = i ∧ v = w' ∨ p.workers[j]? = some v := by
  rw [replace, List.getElem?_set] at h
  split at h
  · rename_i hsame
    split at h
    · exact .inl ⟨hsame.symm, (Option.some.inj h).symm⟩
    · cases h
  · exact .inr h

theorem Stride.turn (hstride : Stride p w event w' p') : Turn p w w' p' := by
  cases hstride with
  | leave hstopped => exact .leave hstopped
  | proceed => exact .proceed
  | drained hnone => exact .drained hnone
  | claim hnext => exact .claim hnext
  | enter hlooked => exact .check hlooked rfl nofun
  | refuse hlooked => exact .check hlooked rfl nofun
  | read => exact .read rfl nofun
  | close => exact .read rfl nofun
  | cut => exact .read rfl nofun
  | fail => exact .read rfl nofun
  | retry hanswered => exact .refused hanswered (.inr rfl)
  | giveUp hanswered => exact .refused hanswered (.inl ⟨_, rfl⟩)
  | written hanswered => exact .written hanswered
  | count => exact .count
  | file => exact .file
  | stop => exact .stop
  | report => exact .report
  | rest => exact .rest

end

/-- What every step keeps, together with the history, holds after all actions. Aborts only count
if there are any. -/
theorem history_induction {P : History → Pool σ → Prop}
    (hstep : ∀ {past p i w}, P past p → p.workers[i]? = some w →
      P (record i (w.event? (stepWorker w p).1) past)
        (replace i (stepWorker w p).1 p (stepWorker w p).2))
    (actions : List Action)
    (habort : .abort ∈ actions → ∀ {past p}, P past p → P past (p.act .abort))
    {past : History} {p : Pool σ} (h : P past p) :
    P (past ++ p.history actions) (actions.foldl act p) := by
  induction actions generalizing past p with
  | nil => rwa [history, List.append_nil]
  | cons action actions ih =>
      rw [history, ← List.append_assoc, List.foldl_cons]
      refine ih (fun hmem => habort (List.mem_cons_of_mem _ hmem)) ?_
      cases action with
      | abort =>
          rw [events, List.append_nil]
          exact habort List.mem_cons_self h
      | step i =>
          cases hi : p.workers[i]? with
          | none =>
              have hstill : p.act (.step i) = p := by rw [Pool.act, Pool.step, hi]
              rw [events, hi, hstill, List.append_nil]
              exact h
          | some w =>
              have hmoved : p.act (.step i) =
                  replace i (stepWorker w p).1 p (stepWorker w p).2 := by
                rw [Pool.act, Pool.step, hi, replace, ← workers_stepWorker w p]
              rw [events, hi, hmoved]
              exact hstep h hi

/-- What every stride keeps, together with the history, holds after all actions. -/
theorem history_invariant {P : History → Pool σ → Prop}
    (hproper : ∀ {past p}, P past p → ∀ w ∈ p.workers,
      Proper p.session.settings (Short p.session.settings) w)
    (hstride : ∀ {past p i w event w' p'}, P past p → p.workers[i]? = some w →
      Stride p w event w' p' → P (record i event past) (replace i w' p p'))
    (habort : ∀ {past p}, P past p → P past (p.act .abort))
    (actions : List Action) {past : History} {p : Pool σ} (h : P past p) :
    P (past ++ p.history actions) (actions.foldl act p) :=
  history_induction
    (fun h hi => hstride h hi (stride_stepWorker (hproper h _ (List.mem_of_getElem? hi)))) actions
    (fun _ => habort) h

end Pool

end BlobUpload
