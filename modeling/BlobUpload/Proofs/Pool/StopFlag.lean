import BlobUpload.Proofs.Pool.Ledger

/-! # After the stop flag is set

A worker that has failed sets the stop flag. Any other worker then finishes the span that it has in
its hands, or one that it was about to claim, and looks at the flag before it claims another. -/

namespace BlobUpload

namespace History

/-- The spans that the worker `i` has claimed. -/
def claimsBy (i : Nat) (h : History) : List Span :=
  h.filterMap fun entry => if entry.1 = i then entry.2.claimed? else none

theorem claimsBy_append (i : Nat) (h h' : History) :
    claimsBy i (h ++ h') = claimsBy i h ++ claimsBy i h' := List.filterMap_append

end History

namespace Pool

variable {σ : Type} [Service σ] {p p' : Pool σ} {w w' : Worker} {event : Option Worker.Event}
  {i : Nat} {past : History} {settings : Settings} {spans : List Span}

/-! ## Winding down -/

/-- The worker `i` will claim no more spans, and all that it sends begins at `o`. -/
structure Winding (settings : Settings) (i o : Nat) (p : Pool σ) : Prop where
  stop : p.stop = true
  proper : ∀ w, p.workers[i]? = some w →
    Proper settings (fun s => s.start = o ∧ Short settings s) w
  unclaiming : ∀ w, p.workers[i]? = some w → w ≠ .claiming
  chunk : ∀ w c, p.workers[i]? = some w → w.chunk? = some c → c.offset = o

theorem Stride.stopped (hstride : Stride p w event w' p') (hstop : p.stop = true) :
    p'.stop = true := by
  cases hstride with
  | stop => rfl
  | _ => exact hstop

theorem Stride.unclaiming (hstride : Stride p w event w' p') (hstop : p.stop = true) :
    w' ≠ .claiming := by
  cases hstride with
  | proceed hrunning => cases hstop.symm.trans hrunning
  | _ => exact nofun

/-- The chunk in the hands of a worker is the one that it had before, or one that it has cut. -/
theorem Stride.chunk {c : Chunk} (hstride : Stride p w event w' p') (hheld : w'.chunk? = some c) :
    w.chunk? = some c ∨ event = some (.cut c) := by
  cases hstride with
  | cut =>
      cases hheld
      exact .inr rfl
  | retry => exact .inl hheld
  | written => exact .inl hheld
  | count => exact .inl hheld
  | _ => cases hheld

theorem Stride.sent_chunk {c : Chunk} {token? : Option Token}
    (hstride : Stride p w (some (.sent c token?)) w' p') : w.chunk? = some c := by
  cases hstride <;> rfl

theorem Stride.claimed_claiming {s : Span} (hstride : Stride p w (some (.claimed s)) w' p') :
    w = .claiming ∧ w' = .checking s := by
  cases hstride
  exact ⟨rfl, rfl⟩

variable {o j : Nat}

theorem Winding.replace (hwinding : Winding p.session.settings i o p) (hj : p.workers[j]? = some w)
    (hstride : Stride p w event w' p') :
    Winding p.session.settings i o (replace j w' p p') := by
  refine ⟨hstride.stopped hwinding.stop, fun v hv => ?_, fun v hv => ?_, fun v c hv hheld => ?_⟩
  · rcases getElem?_replace hv with ⟨rfl, rfl⟩ | hold
    · refine hstride.proper (hwinding.proper w hj) (fun s hholds => hholds.2) ?_
      rintro s rfl
      exact absurd hstride.claimed_claiming.1 (hwinding.unclaiming w hj)
    · exact hwinding.proper v hold
  · rcases getElem?_replace hv with ⟨-, rfl⟩ | hold
    · exact hstride.unclaiming hwinding.stop
    · exact hwinding.unclaiming v hold
  · rcases getElem?_replace hv with ⟨rfl, rfl⟩ | hold
    · rcases hstride.chunk hheld with hbefore | rfl
      · exact hwinding.chunk w c hj hbefore
      · obtain ⟨s, ⟨hstart, -⟩, hoffset, -⟩ := hstride.cut_eq (hwinding.proper w hj)
        exact hoffset.trans hstart
    · exact hwinding.chunk v c hold hheld

/-- What the worker `i`, in the state `w` when the stop flag is set, still does: it claims at most
one more span, and that only if it was about to, and all that it sends is one chunk, the one in its
hands if there is one. -/
structure Finishes (i : Nat) (w : Worker) (h : History) : Prop where
  claims : (h.claimsBy i).length ≤ 1
  unclaimed : w ≠ .claiming → h.claimsBy i = []
  sends : ∃ o, (∀ c token?, (i, .sent c token?) ∈ h → c.offset = o) ∧
    ∀ c, w.chunk? = some c → c.offset = o

/-! ## A whole history -/

theorem claimsBy_record (i j : Nat) (event : Option Worker.Event) (past : History) :
    (record j event past).claimsBy i =
      past.claimsBy i ++ if j = i then (event.bind Worker.Event.claimed?).toList else [] := by
  rw [record, History.claimsBy_append]
  congr 1
  cases event with
  | none => simp [History.claimsBy]
  | some e =>
      by_cases hsame : j = i
      · cases hclaimed : e.claimed? <;> simp [History.claimsBy, hsame, hclaimed]
      · simp [History.claimsBy, hsame]

/-- Since the stop flag was set the worker `i` has claimed at most `n` spans and sent what begins
at `o`, and so it goes on. -/
structure Wound (settings : Settings) (spans : List Span) (i o n : Nat) (fresh : History)
    (p : Pool σ) : Prop where
  ledger : ∃ past, Ledger settings spans past p
  winding : Winding settings i o p
  claims : (fresh.claimsBy i).length ≤ n
  sends : ∀ c token?, (i, .sent c token?) ∈ fresh → c.offset = o

variable {n : Nat} {fresh : History}

theorem Wound.replace (hwound : Wound settings spans i o n fresh p)
    (hshort : ∀ s ∈ spans, Short settings s) (hj : p.workers[j]? = some w)
    (hstride : Stride p w event w' p') :
    Wound settings spans i o n (record j event fresh) (replace j w' p p') := by
  obtain ⟨⟨past, hledger⟩, hwinding, hclaims, hsends⟩ := hwound
  refine ⟨⟨_, hledger.replace hshort hj hstride⟩, ?_, ?_, fun c token? hmem => ?_⟩
  · obtain rfl := hledger.unchanged
    exact hwinding.replace hj hstride
  · rw [claimsBy_record]
    split
    · rename_i hsame
      subst hsame
      have hnone : event.bind Worker.Event.claimed? = none := by
        match event with
        | none | some (.cut _) | some (.sent _ _) => rfl
        | some (.claimed s) =>
            exact absurd hstride.claimed_claiming.1 (hwinding.unclaiming w hj)
      rwa [hnone, Option.toList_none, List.append_nil]
    · rwa [List.append_nil]
  · rcases mem_record.1 hmem with hold | ⟨e, rfl, hsame⟩
    · exact hsends c token? hold
    · cases hsame
      exact hwinding.chunk w c hj hstride.sent_chunk

theorem Wound.foldl (hwound : Wound settings spans i o n fresh p)
    (hshort : ∀ s ∈ spans, Short settings s) (actions : List Action) :
    Wound settings spans i o n (fresh ++ p.history actions) (actions.foldl act p) := by
  refine history_invariant (P := Wound settings spans i o n) (fun hwound => ?_)
    (fun hwound hj hstride => hwound.replace hshort hj hstride) (fun hwound => ?_) actions hwound
  · obtain ⟨past, hledger⟩ := hwound.ledger
    exact hledger.proper_short hshort
  · obtain ⟨⟨past, hledger⟩, ⟨hstop, hproper, hunclaiming, hchunk⟩, hclaims, hsends⟩ := hwound
    exact ⟨⟨past, { hledger with unchanged := hledger.unchanged }⟩,
      ⟨hstop, hproper, hunclaiming, hchunk⟩, hclaims, hsends⟩

omit [Service σ] in
/-- A worker that is not about to claim a span winds down when the stop flag is set. -/
theorem winding_of_ne_claiming (hledger : Ledger settings spans past p)
    (hshort : ∀ s ∈ spans, Short settings s) (hstop : p.stop = true) (hi : p.workers[i]? = some w)
    (hunclaiming : w ≠ .claiming) :
    ∃ o, Winding settings i o p ∧ ∀ c, w.chunk? = some c → c.offset = o := by
  have hclaimed : ∀ s, (i, .claimed s) ∈ past → Short settings s := by
    intro s hmem
    refine hshort s ?_
    rw [← hledger.claims]
    exact List.mem_append_left _ (History.mem_claims.2 ⟨i, hmem⟩)
  obtain ⟨o, hproper, hchunk⟩ : ∃ o, Proper settings (fun s => s.start = o ∧ Short settings s) w ∧
      ∀ c, w.chunk? = some c → c.offset = o := by
    have hproper := hledger.proper i w hi
    cases w with
    | checking s => exact ⟨s.start, ⟨rfl, hclaimed s hproper⟩, nofun⟩
    | reading k window got =>
        rcases hproper with hfinished | ⟨s, hmem, hcutter, hle⟩
        · exact ⟨0, .inl hfinished, nofun⟩
        · exact ⟨s.start, .inr ⟨s, ⟨rfl, hclaimed s hmem⟩, hcutter, hle⟩, nofun⟩
    | sending k window c sent => exact ⟨c.offset, hproper, fun d hheld => by cases hheld; rfl⟩
    | counting k window c token => exact ⟨c.offset, hproper, fun d hheld => by cases hheld; rfl⟩
    | filing k window c token => exact ⟨c.offset, hproper, fun d hheld => by cases hheld; rfl⟩
    | _ => exact ⟨0, trivial, nofun⟩
  have honly : ∀ v, p.workers[i]? = some v → v = w := fun v hv =>
    Option.some.inj (hv.symm.trans hi)
  exact ⟨o, ⟨hstop, fun v hv => honly v hv ▸ hproper, fun v hv => honly v hv ▸ hunclaiming,
    fun v c hv hheld => hchunk c (honly v hv ▸ hheld)⟩, hchunk⟩

/-- The stop flag is set, and the worker `i` is about to claim a span and has done nothing since. -/
structure Pending (settings : Settings) (spans : List Span) (i : Nat) (fresh : History)
    (p : Pool σ) : Prop where
  ledger : ∃ past, Ledger settings spans past p
  stop : p.stop = true
  worker : p.workers[i]? = some .claiming
  still : ∀ e, (i, e) ∉ fresh

omit [Service σ] in
theorem Pending.claimsBy (hpending : Pending settings spans i fresh p) :
    fresh.claimsBy i = [] := by
  rw [History.claimsBy, List.filterMap_eq_nil_iff]
  rintro ⟨j, e⟩ hmem
  refine if_neg ?_
  rintro rfl
  exact hpending.still e hmem

/-- The next step of the worker that is about to claim a span is its last claim. -/
theorem Pending.replace (hpending : Pending settings spans i fresh p)
    (hshort : ∀ s ∈ spans, Short settings s) (hj : p.workers[j]? = some w)
    (hstride : Stride p w event w' p') :
    Pending settings spans i (record j event fresh) (replace j w' p p') ∨
      ∃ o, Wound settings spans i o 1 (record j event fresh) (replace j w' p p') := by
  obtain ⟨past, hledger⟩ := hpending.ledger
  have hafter := hledger.replace hshort hj hstride
  by_cases hsame : j = i
  · subst hsame
    obtain rfl : w = .claiming := Option.some.inj (hj.symm.trans hpending.worker)
    have hget : (Pool.replace j w' p p').workers[j]? = some w' :=
      List.getElem?_set_self (List.getElem?_eq_some_iff.1 hj).1
    obtain ⟨o, hwinding, -⟩ := winding_of_ne_claiming hafter hshort (hstride.stopped hpending.stop)
      hget (hstride.unclaiming hpending.stop)
    refine .inr ⟨o, ⟨_, hafter⟩, hwinding, ?_, fun c token? hmem => ?_⟩
    · rw [claimsBy_record, hpending.claimsBy, if_pos rfl, List.nil_append]
      cases event.bind Worker.Event.claimed? <;> simp
    · rcases mem_record.1 hmem with hold | ⟨e, rfl, hsame⟩
      · exact absurd hold (hpending.still _)
      · cases hsame
        cases hstride
  · refine .inl ⟨⟨_, hafter⟩, hstride.stopped hpending.stop, ?_, fun e hmem => ?_⟩
    · exact (List.getElem?_set_ne hsame).trans hpending.worker
    · rcases mem_record.1 hmem with hold | ⟨e', -, heq⟩
      · exact hpending.still e hold
      · exact hsame (Prod.mk.inj heq).1.symm

/-- Once the stop flag is set a worker finishes what it has in its hands, and is done. -/
theorem Ledger.finishes (hledger : Ledger settings spans past p)
    (hshort : ∀ s ∈ spans, Short settings s) (hstop : p.stop = true) (hi : p.workers[i]? = some w)
    (actions : List Action) : Finishes i w (p.history actions) := by
  by_cases hclaiming : w = .claiming
  · subst hclaiming
    have hbegun := history_invariant
      (P := fun fresh p => Pending settings spans i fresh p ∨
        ∃ o, Wound settings spans i o 1 fresh p)
      (fun hinv => ?_) (fun hinv hj hstride => ?_) (fun hinv => ?_) actions
      (.inl (⟨⟨past, hledger⟩, hstop, hi, nofun⟩ : Pending settings spans i [] p))
    · rw [List.nil_append] at hbegun
      rcases hbegun with hpending | ⟨o, hwound⟩
      · refine ⟨by rw [hpending.claimsBy]; exact Nat.zero_le 1, fun h => absurd rfl h, 0,
          fun c token? hmem => absurd hmem (hpending.still _), nofun⟩
      · exact ⟨hwound.claims, fun h => absurd rfl h, o, hwound.sends, nofun⟩
    · obtain ⟨past, hledger⟩ := hinv.elim Pending.ledger fun ⟨o, hwound⟩ => hwound.ledger
      exact hledger.proper_short hshort
    · rcases hinv with hpending | ⟨o, hwound⟩
      · exact hpending.replace hshort hj hstride
      · exact .inr ⟨o, hwound.replace hshort hj hstride⟩
    · rcases hinv with ⟨⟨past, hledger⟩, hstop, hworker, hstill⟩ |
        ⟨o, ⟨past, hledger⟩, ⟨hstop, hproper, hunclaiming, hchunk⟩, hclaims, hsends⟩
      · exact .inl ⟨⟨past, { hledger with unchanged := hledger.unchanged }⟩, hstop, hworker, hstill⟩
      · exact .inr ⟨o, ⟨past, { hledger with unchanged := hledger.unchanged }⟩,
          ⟨hstop, hproper, hunclaiming, hchunk⟩, hclaims, hsends⟩
  · obtain ⟨o, hwinding, hchunk⟩ := winding_of_ne_claiming hledger hshort hstop hi hclaiming
    have hwound : Wound settings spans i o 0 [] p :=
      ⟨⟨past, hledger⟩, hwinding, Nat.le_refl 0, nofun⟩
    have hafter := hwound.foldl hshort actions
    rw [List.nil_append] at hafter
    have hnone := List.eq_nil_of_length_eq_zero (Nat.le_zero.1 hafter.claims)
    exact ⟨by rw [hnone]; exact Nat.zero_le 1, fun _ => hnone, o, hafter.sends, hchunk⟩

end Pool

end BlobUpload
