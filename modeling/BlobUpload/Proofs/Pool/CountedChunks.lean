import BlobUpload.Proofs.Pool.Outcomes
import BlobUpload.Proofs.Session.Counts

/-! # What the workers of a pool count

A worker counts its chunk one step after it is acknowledged, and others may move in between. So in
any order of steps the chunks that are counted, and those in the hands of workers that are about to
count them, are the chunks that are acknowledged (`Pool.Accounts`). -/

namespace BlobUpload

namespace Worker

/-- How often a worker is still to count a chunk. -/
def due (c : Chunk) : Worker → Nat
  | .counting _ _ d _ => if d = c then 1 else 0
  | _ => 0

/-- The chunk that has been acknowledged in a step. -/
def Event.acknowledged? : Event → Option Chunk
  | .sent c (some _) => some c
  | _ => none

end Worker

/-- The chunks that were acknowledged. -/
def History.acknowledged (h : History) : List Chunk :=
  h.filterMap fun entry => entry.2.acknowledged?

namespace Pool

section

variable {σ : Type} [Service σ] {opened : Session (Relay σ)} {p p' : Pool (Relay σ)}
  {w w' : Worker} {event : Option Worker.Event} {i : Nat} {past : History} {counted : List Chunk}
  {settings : Settings} {spans : List Span} {watch : Watch}

/-! ## One step -/

/-- The chunk that a step has acknowledged, if any. -/
def acknowledgedIn (event : Option Worker.Event) : List Chunk :=
  (event.bind Worker.Event.acknowledged?).toList

/-- The chunk that a step has cut, if any. -/
def cutIn (event : Option Worker.Event) : List Chunk := (event.bind Worker.Event.cut?).toList

theorem acknowledged_record (i : Nat) (event : Option Worker.Event) (past : History) :
    (record i event past).acknowledged = past.acknowledged ++ acknowledgedIn event := by
  rw [record, History.acknowledged, List.filterMap_append]
  rcases event with _ | (_ | _ | ⟨c, _ | token⟩) <;> rfl

theorem cuts_record (i : Nat) (event : Option Worker.Event) (past : History) :
    (record i event past).cuts = past.cuts ++ cutIn event := by
  rw [record, History.cuts_append]
  rcases event with _ | (_ | _ | _) <;> rfl

/-- A step counts what its worker was about to count, and leaves it to count what is
acknowledged. -/
theorem Stride.counts (hstride : Stride p w event w' p') (hwatched : p.session.watch = some watch) :
    ∃ cs, p.session.Counts (acknowledgedIn event) cs p'.session ∧
      ∀ c, cs.count c + w'.due c = w.due c + (acknowledgedIn event).count c := by
  cases hstride with
  | enter hlooked => exact ⟨[], Session.counts_checkAbort hlooked, fun _ => rfl⟩
  | refuse hlooked => exact ⟨[], Session.counts_checkAbort hlooked, fun _ => rfl⟩
  | retry hanswered =>
      exact ⟨[], Session.counts_withService (Relay.acknowledged_of_error hanswered), fun _ => rfl⟩
  | giveUp hanswered =>
      exact ⟨[], Session.counts_withService (Relay.acknowledged_of_error hanswered), fun _ => rfl⟩
  | @written k window c sent service reply hanswered =>
      refine ⟨[], ⟨?_, (List.append_nil _).symm, rfl, rfl, rfl⟩, fun d => ?_⟩
      · change service.acknowledged = _
        rw [Relay.acknowledged_of_ok hanswered, Writer.payload?_request]
        rfl
      · simp [acknowledgedIn, Worker.Event.acknowledged?, Worker.due, List.count_cons]
  | @count k window c token =>
      refine ⟨[c], ?_, fun d => ?_⟩
      · rw [Session.advance_of_watched hwatched]
        exact ⟨(List.append_nil _).symm, rfl, rfl, rfl, rfl⟩
      · simp [acknowledgedIn, Worker.due, List.count_cons]
  | _ => exact ⟨[], .refl _, fun _ => rfl⟩

/-- A chunk that is cut stays with its worker until it is acknowledged, or the worker fails. -/
theorem Stride.unsent (hstride : Stride p w event w' p') :
    w'.hasFailed = true ∨
      (acknowledgedIn event).length + w'.unsent = w.unsent + (cutIn event).length := by
  cases hstride with
  | refuse => exact .inl rfl
  | fail => exact .inl rfl
  | giveUp => exact .inl rfl
  | _ => exact .inr rfl

/-! ## A whole run -/

/-- A pool whose session was `opened` first: each chunk that has been acknowledged is counted, or is
about to be by one worker, and a chunk that was cut is acknowledged or in the hands of one worker,
unless one has failed. -/
structure Accounts (opened : Session (Relay σ)) (past : History) (counted : List Chunk)
    (p : Pool (Relay σ)) : Prop where
  counts : opened.Counts past.acknowledged counted p.session
  due : ∀ c, counted.count c + sumOver (Worker.due c) p.workers = past.acknowledged.count c
  unsent : p.Failing ∨
    past.acknowledged.length + sumOver Worker.unsent p.workers = past.cuts.length

theorem Accounts.replace (haccounts : Accounts opened past counted p)
    (hwatched : opened.watch = some watch) (hi : p.workers[i]? = some w)
    (hstride : Stride p w event w' p') :
    ∃ counted, Accounts opened (record i event past) counted (replace i w' p p') := by
  obtain ⟨cs, hcounts, hdue⟩ := hstride.counts (haccounts.counts.watch.trans hwatched)
  refine ⟨counted ++ cs, ?_, fun c => ?_, ?_⟩
  · rw [acknowledged_record]
    exact haccounts.counts.trans hcounts
  · have hsum := sumOver_set (Worker.due c) w' hi
    have hbefore := haccounts.due c
    have hmoved := hdue c
    rw [acknowledged_record, List.count_append, List.count_append]
    change _ + sumOver (Worker.due c) (p.workers.set i w') = _
    omega
  · rcases haccounts.unsent with hfailing | hbefore
    · exact .inl (hstride.turn.failing hi hfailing)
    rcases hstride.unsent with hfailed | hmoved
    · exact .inl (failing_replace hi hfailed)
    · have hsum := sumOver_set Worker.unsent w' hi
      refine .inr ?_
      rw [acknowledged_record, cuts_record, List.length_append, List.length_append]
      change _ + sumOver Worker.unsent (p.workers.set i w') = _
      omega

theorem Accounts.foldl (haccounts : Accounts opened past counted p)
    (hwatched : opened.watch = some watch) (hledger : Ledger settings spans past p)
    (hshort : ∀ s ∈ spans, Short settings s) (actions : List Action) :
    ∃ counted, Accounts opened (past ++ p.history actions) counted (actions.foldl act p) := by
  refine (history_invariant
    (P := fun past p => Ledger settings spans past p ∧ ∃ counted, Accounts opened past counted p)
    (fun hinv => hinv.1.proper_short hshort) (fun ⟨hledger, _, haccounts⟩ hi hstride => ?_)
    (fun ⟨hledger, counted, haccounts⟩ => ?_) actions ⟨hledger, counted, haccounts⟩).2
  · exact ⟨hledger.replace hshort hi hstride, haccounts.replace hwatched hi hstride⟩
  · refine ⟨{ hledger with unchanged := hledger.unchanged }, counted, ⟨?_, haccounts.due,
      haccounts.unsent⟩⟩
    exact ⟨haccounts.counts.acknowledged, haccounts.counts.reports, haccounts.counts.completed,
      haccounts.counts.watch, haccounts.counts.total⟩

omit [Service σ] in
theorem accounts_ofSession (session : Session (Relay σ)) (common : CommonSource) (length : Nat) :
    Accounts session [] [] (ofSession session common length) where
  counts := .refl session
  due _ := (Nat.zero_add _).trans (sumOver_of_starting rfl session common length)
  unsent := .inr ((Nat.zero_add _).trans (sumOver_of_starting rfl session common length))

omit [Service σ] in
/-- When all workers have gone home, all that was acknowledged is counted. -/
theorem Accounts.perm (haccounts : Accounts opened past counted p)
    (hended : ∀ w ∈ p.workers, w = .ended) : counted.Perm past.acknowledged := by
  refine List.perm_iff_count.2 fun c => ?_
  have hdue := haccounts.due c
  rwa [sumOver_of_ended rfl hended] at hdue

omit [Service σ] in
/-- A pool that ends well has counted one chunk for each of its tokens. -/
theorem Accounts.length_eq (haccounts : Accounts opened past counted p)
    (hended : ∀ w ∈ p.workers, w = .ended) {tokens : List Token} (hdone : p.outcome = .ok tokens)
    (hcomplete : past.Complete spans tokens) : counted.length = tokens.length := by
  have hcut : past.acknowledged.length = past.cuts.length := by
    rcases haccounts.unsent with hfailing | hall
    · exact absurd (unfailed_of_outcome hdone) (failing_of_ended hended hfailing)
    · rwa [sumOver_of_ended rfl hended] at hall
  obtain ⟨filed, rfl, -, hoffsets, -⟩ := hcomplete.tokens
  have hcount := hoffsets.length_eq
  rw [List.length_map, List.length_map] at hcount
  rw [(haccounts.perm hended).length_eq, hcut, List.length_map, hcount]

/-- In whatever order the workers move, a run counts what is acknowledged. If it ends well, that is
one chunk for each token. -/
theorem counts_run {session : Session (Relay σ)} (hwatched : session.watch = some watch)
    (hsteady : session.writer.Steady) (hparallelism : 0 < session.settings.parallelism)
    (common : CommonSource) (length : Nat) (schedule : List Action) :
    ∃ as cs, session.Counts as cs ((ofSession session common length).run schedule).session ∧
      cs.Perm as ∧
      ∀ tokens, ((ofSession session common length).run schedule).outcome = .ok tokens →
        cs.length = tokens.length := by
  have hshort : ∀ s ∈ Span.cover length session.settings.chunkSize, Short session.settings s :=
    fun s => short_of_mem_cover
  have hstart := books_ofSession session common length hparallelism
  have hbooks := hstart.foldl hsteady hshort ((ofSession session common length).actions schedule)
  obtain ⟨cs, haccounts⟩ := (accounts_ofSession session common length).foldl hwatched hstart.ledger
    hshort ((ofSession session common length).actions schedule)
  rw [← run_eq_foldl] at hbooks haccounts
  have hended : ∀ w ∈ ((ofSession session common length).run schedule).workers, w = .ended :=
    fun w => ended_of_mem_run
  exact ⟨_, cs, haccounts.counts, haccounts.perm hended, fun tokens hdone =>
    haccounts.length_eq hended hdone (hbooks.complete hended hdone)⟩

end

end Pool

end BlobUpload
