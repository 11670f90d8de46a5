import BlobUpload.Proofs.Pool.History
import Mathlib.Data.List.Nodup

/-! # The books of a pool

Every span in the queue, in the hands of a worker or behind it is accounted for: for each offset
the queue holds the means to cut one chunk and to send it as often as allowed, and no step spends
more than it takes over (`Tariff`). So no span is claimed or cut twice, and no chunk is sent too
often, in whatever order the workers move. -/

namespace BlobUpload

/-- What cutting the chunk at an offset, and each request for it, is charged. -/
structure Tariff where
  offset : Nat
  cut : Nat
  request : Nat
  retries : Nat

namespace Tariff

/-- One chunk, sent as often as allowed. -/
def total (t : Tariff) : Nat := t.cut + t.request * (t.retries + 1)

def spent (t : Tariff) (h : History) : Nat :=
  t.cut * h.cuts.countP (·.offset = t.offset) + t.request * h.sends.countP (·.offset = t.offset)

/-- What is set aside for a span that begins at `offset`. -/
def reserve (t : Tariff) (offset : Nat) : Nat := if offset = t.offset then t.total else 0

/-- What a worker has left to spend. -/
def credit (t : Tariff) : Worker → Nat
  | .checking s => t.reserve s.start
  | .reading k _ _ => if k.finished then 0 else t.reserve k.offset
  | .sending _ _ c sent => if c.offset = t.offset then t.request * (t.retries + 1 - sent) else 0
  | _ => 0

variable {t : Tariff}

theorem spent_append (t : Tariff) (h h' : History) :
    t.spent (h ++ h') = t.spent h + t.spent h' := by
  simp only [spent, History.cuts_append, History.sends_append, List.countP_append, Nat.mul_add]
  omega

theorem spent_none (t : Tariff) : t.spent [] = 0 := rfl

theorem spent_claimed (t : Tariff) (i : Nat) (s : Span) : t.spent [(i, .claimed s)] = 0 := rfl

theorem spent_cut (t : Tariff) (i : Nat) (c : Chunk) :
    t.spent [(i, .cut c)] = if c.offset = t.offset then t.cut else 0 := by
  by_cases hsame : c.offset = t.offset <;>
    simp [spent, History.cuts, History.sends, Worker.Event.cut?, Worker.Event.sent?, hsame]

theorem spent_sent (t : Tariff) (i : Nat) (c : Chunk) (token? : Option Token) :
    t.spent [(i, .sent c token?)] = if c.offset = t.offset then t.request else 0 := by
  by_cases hsame : c.offset = t.offset <;>
    simp [spent, History.cuts, History.sends, Worker.Event.cut?, Worker.Event.sent?, hsame]

/-- Spans that begin at different offsets share no reserve. -/
theorem sum_reserve_le {spans : List Span} (hapart : (spans.map Span.start).Nodup) :
    sumOver (fun s => t.reserve s.start) spans ≤ t.total := by
  induction spans with
  | nil => exact Nat.zero_le _
  | cons s spans ih =>
      obtain ⟨hfresh, hapart⟩ := List.nodup_cons.1 hapart
      have hrest := ih hapart
      rw [sumOver_cons, reserve]
      split
      · rename_i hsame
        have hnone : sumOver (fun s => t.reserve s.start) spans = 0 := by
          refine sumOver_eq_zero fun s' hs' => if_neg fun hthere => hfresh ?_
          exact List.mem_map.2 ⟨s', hs', hthere.trans hsame.symm⟩
        omega
      · omega

end Tariff

namespace Pool

variable {σ : Type} [Service σ] {p p' : Pool σ} {w w' : Worker} {event : Option Worker.Event}
  {i : Nat} {past : History}

/-! ## Spans, chunks and requests -/

/-- What the worker `i` has in its hands is in the history. -/
def Known (i : Nat) (past : History) : Worker → Prop
  | .sending _ _ c _ => (i, .cut c) ∈ past
  | .counting _ _ c token | .filing _ _ c token => (i, .sent c (some token)) ∈ past
  | _ => True

theorem Known.record (hknown : Known i past w) (j : Nat) (event : Option Worker.Event) :
    Known i (record j event past) w := by
  cases w with
  | sending => exact mem_record_of_mem hknown
  | counting => exact mem_record_of_mem hknown
  | filing => exact mem_record_of_mem hknown
  | _ => trivial

/-- The history of a pool that began with `spans` in its queue accounts for all of them. -/
structure Ledger (settings : Settings) (spans : List Span) (past : History) (p : Pool σ) :
    Prop where
  unchanged : p.session.settings = settings
  /-- The spans are claimed in their order. -/
  claims : past.claims ++ p.queue = spans
  proper : ∀ i w, p.workers[i]? = some w → Proper settings (fun s => (i, .claimed s) ∈ past) w
  known : ∀ i w, p.workers[i]? = some w → Known i past w
  /-- A chunk is cut by the worker that has claimed its span. -/
  cuts : ∀ i c, (i, .cut c) ∈ past →
    ∃ s, (i, .claimed s) ∈ past ∧ c.offset = s.start ∧ c.length ≤ s.length
  /-- A chunk is sent by the worker that has cut it. -/
  sends : ∀ i c token?, (i, .sent c token?) ∈ past → (i, .cut c) ∈ past
  balance : ∀ t : Tariff, t.retries = settings.maxRetries →
    t.spent past + sumOver t.credit p.workers + sumOver (fun s => t.reserve s.start) p.queue ≤
      t.total

theorem Stride.settings (hstride : Stride p w event w' p') :
    p'.session.settings = p.session.settings := by
  cases hstride with
  | enter hlooked => rw [Session.eq_of_checkAbort hlooked]
  | refuse hlooked => rw [Session.eq_of_checkAbort hlooked]
  | count => exact settings_advance _ _
  | _ => rfl

/-- What is no longer in the queue has been claimed. -/
theorem Stride.claims (hstride : Stride p w event w' p') (i : Nat) (past : History) :
    (record i event past).claims ++ p'.queue = past.claims ++ p.queue := by
  rw [record, History.claims_append, List.append_assoc]
  cases hstride with
  | claim hnext =>
      rw [hnext]
      rfl
  | enter hlooked => rfl
  | refuse hlooked => rfl
  | _ => rfl

theorem Stride.known (hstride : Stride p w event w' p') (hknown : Known i past w) :
    Known i (record i event past) w' := by
  cases hstride with
  | cut => exact mem_record.2 (.inr ⟨_, rfl, rfl⟩)
  | retry => exact mem_record_of_mem hknown
  | written => exact mem_record.2 (.inr ⟨_, rfl, rfl⟩)
  | count => exact mem_record_of_mem hknown
  | _ => trivial

/-- A chunk is cut out of the one span that the worker has claimed. -/
theorem Stride.cut_eq {c : Chunk} (hstride : Stride p w (some (.cut c)) w' p') {settings : Settings}
    {P : Span → Prop} (hproper : Proper settings P w) :
    ∃ s, P s ∧ c.offset = s.start ∧ c.length ≤ s.length := by
  cases hstride with
  | cut hunfinished _ hoffset hpayload =>
      rcases hproper with hfinished | ⟨s, hholds, rfl, hle⟩
      · cases hunfinished.symm.trans hfinished
      · exact ⟨s, hholds, hoffset, by rwa [Chunk.length, hpayload]⟩

theorem Stride.sent_eq {c : Chunk} {token? : Option Token}
    (hstride : Stride p w (some (.sent c token?)) w' p') (hknown : Known i past w) :
    (i, .cut c) ∈ past := by
  cases hstride with
  | retry => exact hknown
  | giveUp => exact hknown
  | written => exact hknown

/-- A step spends no more than it takes over. -/
theorem Stride.balance (hstride : Stride p w event w' p') {P : Span → Prop}
    (hproper : Proper p.session.settings P w) {t : Tariff}
    (hsame : t.retries = p.session.settings.maxRetries) :
    t.spent (event.map (i, ·)).toList + t.credit w' +
        sumOver (fun s => t.reserve s.start) p'.queue ≤
      t.credit w + sumOver (fun s => t.reserve s.start) p.queue := by
  cases hstride with
  | claim hnext =>
      simp only [hnext, Option.map_some, Option.toList_some, Tariff.spent_claimed, Tariff.credit,
        sumOver_cons]
      omega
  | cut hunfinished hfinished hoffset =>
      simp only [Option.map_some, Option.toList_some, Tariff.spent_cut, Tariff.credit, hunfinished,
        hoffset, Bool.false_eq_true, if_false, Tariff.reserve, Tariff.total, Nat.sub_zero]
      split <;> omega
  | @retry k window c sent e service hanswered hmore =>
      simp only [Option.map_some, Option.toList_some, Tariff.spent_sent, Tariff.credit, hsame]
      split
      · have hstep : p.session.settings.maxRetries + 1 - sent =
            p.session.settings.maxRetries + 1 - (sent + 1) + 1 := by omega
        rw [hstep, Nat.mul_succ]
        omega
      · omega
  | @giveUp k window c sent =>
      have hlast : t.request ≤ t.request * (p.session.settings.maxRetries + 1 - sent) :=
        Nat.le_mul_of_pos_right _ (by have := hproper.2; omega)
      simp only [Option.map_some, Option.toList_some, Tariff.spent_sent, Tariff.credit, hsame]
      split <;> omega
  | @written k window c sent =>
      have hlast : t.request ≤ t.request * (p.session.settings.maxRetries + 1 - sent) :=
        Nat.le_mul_of_pos_right _ (by have := hproper.2; omega)
      simp only [Option.map_some, Option.toList_some, Tariff.spent_sent, Tariff.credit, hsame]
      split <;> omega
  | file =>
      have hfinished := hproper
      simp only [Proper] at hfinished
      simp only [Tariff.credit, hfinished, if_true]
      exact Nat.le_refl _
  | @enter s session window =>
      have hopened : t.credit (.reading (cutterFor p.session.settings s) window []) =
        t.reserve s.start := rfl
      simp only [Option.map_none, Option.toList_none, Tariff.spent_none, hopened]
      simp only [Tariff.credit]
      omega
  | _ =>
      simp only [Option.map_none, Option.toList_none, Tariff.spent_none, Tariff.credit]
      omega

variable {settings : Settings} {spans : List Span}

theorem Ledger.replace (hledger : Ledger settings spans past p)
    (hshort : ∀ s ∈ spans, Short settings s) (hi : p.workers[i]? = some w)
    (hstride : Stride p w event w' p') :
    Ledger settings spans (record i event past) (replace i w' p p') := by
  obtain ⟨rfl, hclaims, hproper, hknown, hcuts, hsends, hbalance⟩ := hledger
  have hclaimed : ∀ j s, (j, .claimed s) ∈ record i event past → Short p.session.settings s := by
    intro j s hmem
    refine hshort s ?_
    rw [← hclaims, ← hstride.claims i past]
    exact List.mem_append_left _ (History.mem_claims.2 ⟨j, hmem⟩)
  have hkept : ∀ j s, (j, .claimed s) ∈ past → (j, .claimed s) ∈ record i event past :=
    fun j s => mem_record_of_mem
  refine ⟨hstride.settings, (hstride.claims i past).trans hclaims, ?_, ?_, ?_, ?_, ?_⟩
  · intro j v hv
    rcases getElem?_replace hv with ⟨hsame, rfl⟩ | hold
    · rw [hsame]
      refine hstride.proper ((hproper i w hi).imp (hkept i)) (hclaimed i) ?_
      rintro s rfl
      exact mem_record.2 (.inr ⟨_, rfl, rfl⟩)
    · exact (hproper j v hold).imp (hkept j)
  · intro j v hv
    rcases getElem?_replace hv with ⟨hsame, rfl⟩ | hold
    · rw [hsame]
      exact hstride.known (hknown i w hi)
    · exact (hknown j v hold).record i event
  · intro j c hmem
    rcases mem_record.1 hmem with hold | ⟨e, rfl, hsame⟩
    · obtain ⟨s, hbefore, hrest⟩ := hcuts j c hold
      exact ⟨s, hkept j s hbefore, hrest⟩
    · cases hsame
      obtain ⟨s, hbefore, hrest⟩ := hstride.cut_eq (hproper i w hi)
      exact ⟨s, hkept i s hbefore, hrest⟩
  · intro j c token? hmem
    rcases mem_record.1 hmem with hold | ⟨e, rfl, hsame⟩
    · exact mem_record_of_mem (hsends j c token? hold)
    · cases hsame
      exact mem_record_of_mem (hstride.sent_eq (hknown i w hi))
  · intro t hsame
    have hbefore := hbalance t hsame
    have hturn := hstride.balance (i := i) (hproper i w hi) hsame
    have hsum := sumOver_set t.credit w' hi
    change t.spent (past ++ _) + sumOver t.credit (p.workers.set i w') + _ ≤ t.total
    rw [Tariff.spent_append]
    change _ + sumOver _ p'.queue ≤ t.total
    omega

/-! ## What the books show -/

omit [Service σ] in
theorem Ledger.proper_short (hledger : Ledger settings spans past p)
    (hshort : ∀ s ∈ spans, Short settings s) :
    ∀ w ∈ p.workers, Proper p.session.settings (Short p.session.settings) w := by
  intro w hmem
  obtain ⟨i, hi⟩ := List.mem_iff_getElem?.1 hmem
  rw [hledger.unchanged]
  refine (hledger.proper i w hi).imp fun s hclaimed => hshort s ?_
  rw [← hledger.claims]
  exact List.mem_append_left _ (History.mem_claims.2 ⟨i, hclaimed⟩)

omit [Service σ] in
theorem ledger_ofSession (session : Session σ) (common : CommonSource) (length : Nat) :
    Ledger session.settings (Span.cover length session.settings.chunkSize) []
      (ofSession session common length) where
  unchanged := rfl
  claims := rfl
  proper i w hi := by
    rw [starting_of_mem_ofSession w (List.mem_of_getElem? hi)]
    trivial
  known i w hi := by
    rw [starting_of_mem_ofSession w (List.mem_of_getElem? hi)]
    trivial
  cuts := nofun
  sends := nofun
  balance t _ := by
    rw [sumOver_of_starting rfl session common length, Tariff.spent_none, Nat.zero_add]
    exact Tariff.sum_reserve_le (Span.nodup_starts length session.settings.chunkSize)

omit [Service σ] in
theorem Ledger.spent_le (hledger : Ledger settings spans past p) {t : Tariff}
    (hsame : t.retries = settings.maxRetries) : t.spent past ≤ t.total := by
  have hbalance := hledger.balance t hsame
  omega

omit [Service σ] in
/-- No two chunks are cut at the same offset. -/
theorem Ledger.nodup_cuts (hledger : Ledger settings spans past p) :
    (past.cuts.map Chunk.offset).Nodup := by
  rw [List.nodup_iff_count_le_one]
  intro o
  have honce := hledger.spent_le (t := ⟨o, 1, 0, settings.maxRetries⟩) rfl
  simp only [Tariff.spent, Tariff.total, Nat.one_mul, Nat.zero_mul, Nat.add_zero] at honce
  rw [List.count, List.countP_map]
  exact honce

omit [Service σ] in
/-- No chunk is sent more often than its retries allow. -/
theorem Ledger.sends_le (hledger : Ledger settings spans past p) (o : Nat) :
    past.sends.countP (·.offset = o) ≤ settings.maxRetries + 1 := by
  have hoften := hledger.spent_le (t := ⟨o, 0, 1, settings.maxRetries⟩) rfl
  simp only [Tariff.spent, Tariff.total, Nat.one_mul, Nat.zero_mul, Nat.zero_add] at hoften
  exact hoften

end Pool

end BlobUpload
