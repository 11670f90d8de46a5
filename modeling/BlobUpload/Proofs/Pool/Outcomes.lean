import BlobUpload.Proofs.Pool.Ledger
import Mathlib.Data.List.Pairwise

/-! # What comes of a run

A pool ends well only if every span was claimed and every chunk that was cut is acknowledged and
filed. A worker that fails, or an abort while there are spans that nobody has begun, makes it end
badly. -/

namespace BlobUpload

/-- Every chunk is written as if it were the first. -/
def Writer.Steady (writer : Writer) : Prop :=
  ∀ c (reply : (writer.request c).Reply), (writer.accept c reply).2 = writer

theorem Writer.steady_block (e : Envelope) : (Writer.block e).Steady := fun _ _ => rfl

theorem Writer.steady_page (e : Envelope) (ifMatch : Option String) :
    (Writer.page e false ifMatch).Steady := fun _ _ => rfl

/-- The request for a chunk commits no blocks. -/
theorem Writer.method_request_ne (writer : Writer) (c : Chunk) :
    (writer.request c).method ≠ .putBlockList := by
  cases writer <;> exact nofun

namespace History

/-- The two steps do not cut chunks at the same offset. -/
def Apart (x y : Nat × Worker.Event) : Prop :=
  ∀ a, x.2.cut?.map Chunk.offset = some a → ∀ b, y.2.cut?.map Chunk.offset = some b → a ≠ b

instance : Std.Symm Apart := ⟨fun _ _ hapart b hb a ha hsame => hapart a ha b hb hsame.symm⟩

/-- A chunk is cut in one step only if no two are cut at the same offset. -/
theorem eq_of_nodup_cuts {h : History} (honce : (h.cuts.map Chunk.offset).Nodup) {i j : Nat}
    {c d : Chunk} (hc : (i, .cut c) ∈ h) (hd : (j, .cut d) ∈ h) (hsame : c.offset = d.offset) :
    i = j ∧ c = d := by
  rw [cuts, List.map_filterMap, List.Nodup, List.pairwise_filterMap] at honce
  have hapart : h.Pairwise Apart := honce
  by_contra hdifferent
  exact hapart.forall hc hd (fun heq => hdifferent (by cases heq; exact ⟨rfl, rfl⟩)) c.offset rfl
    d.offset rfl hsame

/-- No span is claimed twice, no chunk cut twice, and none sent more often than its retries allow.
A worker cuts chunks only out of the spans that it has claimed, and sends only what it has cut. -/
structure Once (settings : Settings) (spans : List Span) (h : History) : Prop where
  claims : h.claims <+: spans
  claimed_once : h.claims.Nodup
  cuts : ∀ i c, (i, .cut c) ∈ h →
    ∃ s, (i, .claimed s) ∈ h ∧ c.offset = s.start ∧ c.length ≤ s.length
  cut_once : (h.cuts.map Chunk.offset).Nodup
  sends : ∀ i c token?, (i, .sent c token?) ∈ h → (i, .cut c) ∈ h
  retries : ∀ o, h.sends.countP (·.offset = o) ≤ settings.maxRetries + 1

/-- All spans have been claimed and all chunks acknowledged, and the tokens are those of the chunks,
one for each, by ascending offset. -/
structure Complete (spans : List Span) (tokens : List Token) (h : History) : Prop where
  claims : h.claims = spans
  acknowledged : ∀ i c, (i, .cut c) ∈ h → ∃ token, (i, .sent c (some token)) ∈ h
  tokens : ∃ filed : List (Nat × Token), tokens = filed.map Prod.snd ∧
    filed.Pairwise (·.1 < ·.1) ∧ (filed.map Prod.fst).Perm (h.cuts.map Chunk.offset) ∧
    ∀ entry ∈ filed, ∃ i c, c.offset = entry.1 ∧ (i, .sent c (some entry.2)) ∈ h

end History

namespace Pool

variable {σ : Type} [Service σ] {p p' : Pool σ} {w w' : Worker} {event : Option Worker.Event}
  {i : Nat} {past : History} {settings : Settings} {writer : Writer} {spans : List Span} {start : σ}

/-! ## Requests -/

/-- The service has been sent the requests in the history, and nothing else. The tokens are what the
writer has made of the replies. -/
structure Faithful (writer : Writer) (start : σ) (past : History) (p : Pool σ) : Prop where
  unchanged : p.session.writer = writer
  service : p.session.service = Service.after start (past.requests writer)
  tokens : ∀ i c token, (i, .sent c (some token)) ∈ past →
    ∃ reply : (writer.request c).Reply, token = (writer.accept c reply).1

theorem requests_record_sent (i : Nat) (c : Chunk) (token? : Option Token) (past : History) :
    (record i (some (.sent c token?)) past).requests writer =
      past.requests writer ++ [writer.request c] := by
  rw [History.requests, record, History.sends_append, List.map_append]
  rfl

theorem requests_record (i : Nat) (past : History)
    (hunsent : ∀ c token?, event ≠ some (.sent c token?)) :
    (record i event past).requests writer = past.requests writer := by
  rw [History.requests, record, History.sends_append, List.map_append]
  rcases event with _ | (_ | _ | ⟨c, token?⟩)
  · exact List.append_nil _
  · exact List.append_nil _
  · exact List.append_nil _
  · exact absurd rfl (hunsent c token?)

theorem Faithful.replace (hfaithful : Faithful writer start past p) (hsteady : writer.Steady)
    (i : Nat) (hstride : Stride p w event w' p') :
    Faithful writer start (record i event past) (replace i w' p p') := by
  obtain ⟨rfl, hservice, htokens⟩ := hfaithful
  have hkept (hunwritten : ∀ c token, event ≠ some (.sent c (some token))) :
      ∀ j c token, (j, .sent c (some token)) ∈ record i event past →
        ∃ reply : (p.session.writer.request c).Reply,
          token = (p.session.writer.accept c reply).1 := by
    intro j c token hmem
    rcases mem_record.1 hmem with hold | ⟨e, rfl, hsame⟩
    · exact htokens j c token hold
    · cases hsame
      exact absurd rfl (hunwritten c token)
  have hother (hunsent : ∀ c token?, event ≠ some (.sent c token?))
      (hsameWriter : p'.session.writer = p.session.writer)
      (hsameService : p'.session.service = p.session.service) :
      Faithful p.session.writer start (record i event past) (Pool.replace i w' p p') :=
    ⟨hsameWriter, by rw [requests_record i past hunsent, ← hservice]; exact hsameService,
      hkept fun c token => hunsent c (some token)⟩
  have hmore {c : Chunk} : Service.after start ((past.requests p.session.writer) ++
      [p.session.writer.request c]) =
        (Service.answer (p.session.writer.request c) p.session.service).2 := by
    rw [Service.after_concat, ← hservice]
  cases hstride with
  | retry hanswered =>
      exact ⟨rfl, by rw [requests_record_sent, hmore, hanswered]; rfl, hkept nofun⟩
  | giveUp hanswered =>
      exact ⟨rfl, by rw [requests_record_sent, hmore, hanswered]; rfl, hkept nofun⟩
  | written hanswered =>
      refine ⟨hsteady _ _, by rw [requests_record_sent, hmore, hanswered]; rfl,
        fun j c token hmem => ?_⟩
      rcases mem_record.1 hmem with hold | ⟨e, hevent, hsame⟩
      · exact htokens j c token hold
      · cases hevent
        cases hsame
        exact ⟨_, rfl⟩
  | enter hlooked =>
      obtain rfl := Session.eq_of_checkAbort hlooked
      exact hother nofun rfl rfl
  | refuse hlooked =>
      obtain rfl := Session.eq_of_checkAbort hlooked
      exact hother nofun rfl rfl
  | count => exact hother nofun (Session.writer_advance _ _) (Session.service_advance _ _)
  | _ => exact hother nofun rfl rfl

/-! ## Tokens -/

/-- The tokens are answers to requests for their chunks, and no chunk that was cut is forgotten. -/
structure Filed (past : History) (p : Pool σ) : Prop where
  tokens : ∀ entry ∈ p.tokens, ∃ i c, c.offset = entry.1 ∧ (i, .sent c (some entry.2)) ∈ past
  sorted : p.tokens.Pairwise (·.1 < ·.1)
  minded : ∀ c ∈ past.cuts, c.offset ∈ p.tokens.map Prod.fst ∨
    (∃ w ∈ p.workers, w.chunk? = some c) ∨ p.Failing

theorem Turn.sorted (hturn : Turn p w w' p') (h : p.tokens.Pairwise (·.1 < ·.1)) :
    p'.tokens.Pairwise (·.1 < ·.1) := by
  cases hturn with
  | file => exact sorted_fileToken h
  | _ => exact h

theorem Stride.chunk_eq {c : Chunk} (hstride : Stride p w (some (.cut c)) w' p') :
    w'.chunk? = some c := by
  cases hstride
  rfl

theorem Filed.replace (hfiled : Filed past p) (hknown : Known i past w)
    (hi : p.workers[i]? = some w) (hstride : Stride p w event w' p') :
    Filed (record i event past) (replace i w' p p') := by
  have hturn := hstride.turn
  refine ⟨fun entry hmem => ?_, hturn.sorted hfiled.sorted, fun c hmem => ?_⟩
  · rcases hturn.tokens entry hmem with hold | ⟨c, token, hhad, rfl⟩
    · obtain ⟨j, c, hoffset, hsent⟩ := hfiled.tokens entry hold
      exact ⟨j, c, hoffset, mem_record_of_mem hsent⟩
    · refine ⟨i, c, rfl, mem_record_of_mem ?_⟩
      cases w with
      | counting => cases hhad; exact hknown
      | filing => cases hhad; exact hknown
      | _ => cases hhad
  · obtain ⟨j, hcut⟩ := History.mem_cuts.1 hmem
    rcases mem_record.1 hcut with hold | ⟨e, rfl, hsame⟩
    · rcases hfiled.minded c (History.mem_cuts.2 ⟨j, hold⟩) with hdone | hheld | hfailing
      · exact .inl (hturn.filed hdone)
      · by_cases hfailed : w'.hasFailed = true
        · exact .inr (.inr (failing_replace hi hfailed))
        by_cases hdone : c.offset ∈ p'.tokens.map Prod.fst
        · exact .inl hdone
        · refine .inr (.inl (exists_mem_set hi hheld fun hself => ?_))
          exact (hturn.chunk hself).resolve_right fun h => h.elim hfailed fun h => hdone h.2
      · exact .inr (.inr (hturn.failing hi hfailing))
    · cases hsame
      exact .inr (.inl ⟨w', mem_replace hi, hstride.chunk_eq⟩)

/-! ## All books together -/

/-- What holds between any two steps of a pool. -/
structure Books (settings : Settings) (writer : Writer) (spans : List Span) (start : σ)
    (past : History) (p : Pool σ) : Prop where
  ledger : Ledger settings spans past p
  faithful : Faithful writer start past p
  filed : Filed past p
  orderly : p.Orderly

theorem Books.foldl (hbooks : Books settings writer spans start past p) (hsteady : writer.Steady)
    (hshort : ∀ s ∈ spans, Short settings s) (actions : List Action) :
    Books settings writer spans start (past ++ p.history actions) (actions.foldl act p) := by
  refine history_invariant (P := Books settings writer spans start)
    (fun hbooks => hbooks.ledger.proper_short hshort) (fun hbooks hi hstride => ?_)
    (fun hbooks => ?_) actions hbooks
  · exact ⟨hbooks.ledger.replace hshort hi hstride, hbooks.faithful.replace hsteady _ hstride,
      hbooks.filed.replace (hbooks.ledger.known _ _ hi) hi hstride,
      hbooks.orderly.replace hi hstride.turn⟩
  · obtain ⟨hledger, hfaithful, hfiled, horderly⟩ := hbooks
    exact ⟨{ hledger with unchanged := hledger.unchanged },
      ⟨hfaithful.unchanged, hfaithful.service, hfaithful.tokens⟩,
      ⟨hfiled.tokens, hfiled.sorted, hfiled.minded⟩,
      ⟨horderly.stopped, horderly.drained, horderly.staffed⟩⟩

theorem books_ofSession (session : Session σ) (common : CommonSource) (length : Nat)
    (hparallelism : 0 < session.settings.parallelism) :
    Books session.settings session.writer (Span.cover length session.settings.chunkSize)
      session.service [] (ofSession session common length) where
  ledger := ledger_ofSession session common length
  faithful := ⟨rfl, rfl, nofun⟩
  filed := ⟨nofun, List.Pairwise.nil, nofun⟩
  orderly := orderly_ofSession common length hparallelism

omit [Service σ] in
theorem Ledger.once (hledger : Ledger settings spans past p) (hapart : spans.Nodup) :
    past.Once settings spans where
  claims := ⟨p.queue, hledger.claims⟩
  claimed_once := hapart.sublist (List.IsPrefix.sublist ⟨p.queue, hledger.claims⟩)
  cuts := hledger.cuts
  cut_once := hledger.nodup_cuts
  sends := hledger.sends
  retries := hledger.sends_le

omit [Service σ] in
theorem unfailed_of_outcome {tokens : List Token} (hdone : p.outcome = .ok tokens) :
    p.failure = none := by
  rw [outcome] at hdone
  split at hdone
  · cases hdone
  · assumption

/-- A pool that ends well has done everything once. -/
theorem Books.complete (hbooks : Books settings writer spans start past p)
    (hended : ∀ w ∈ p.workers, w = .ended) {tokens : List Token} (hdone : p.outcome = .ok tokens) :
    past.Complete spans tokens := by
  have hunfailed := unfailed_of_outcome hdone
  have hfiled : ∀ c ∈ past.cuts, c.offset ∈ p.tokens.map Prod.fst := by
    intro c hmem
    rcases hbooks.filed.minded c hmem with hfiled | ⟨w, hw, hheld⟩ | hfailing
    · exact hfiled
    · rw [hended w hw] at hheld
      cases hheld
    · exact absurd hunfailed (failing_of_ended hended hfailing)
  have hcut {i : Nat} {c : Chunk} {token : Token} (hsent : (i, .sent c (some token)) ∈ past) :
      (i, .cut c) ∈ past := hbooks.ledger.sends i c _ hsent
  refine ⟨?_, fun i c hmem => ?_, p.tokens, ?_, hbooks.filed.sorted, ?_, hbooks.filed.tokens⟩
  · have hqueue := hbooks.orderly.queue_nil hended hunfailed
    rw [← hbooks.ledger.claims, hqueue, List.append_nil]
  · obtain ⟨entry, hmem', hoffset⟩ := List.mem_map.1 (hfiled c (History.mem_cuts.2 ⟨i, hmem⟩))
    obtain ⟨j, d, hsame, hsent⟩ := hbooks.filed.tokens entry hmem'
    obtain ⟨rfl, rfl⟩ :=
      History.eq_of_nodup_cuts hbooks.ledger.nodup_cuts hmem (hcut hsent)
        (hoffset.symm.trans hsame.symm)
    exact ⟨_, hsent⟩
  · rw [outcome, hunfailed] at hdone
    exact (Except.ok.inj hdone).symm
  · have hapart : (p.tokens.map Prod.fst).Nodup :=
      List.pairwise_map.2 (hbooks.filed.sorted.imp Nat.ne_of_lt)
    refine (List.perm_ext_iff_of_nodup hapart hbooks.ledger.nodup_cuts).2 fun o => ⟨fun hmem => ?_,
      fun hmem => ?_⟩
    · obtain ⟨entry, hmem', rfl⟩ := List.mem_map.1 hmem
      obtain ⟨i, c, hoffset, hsent⟩ := hbooks.filed.tokens entry hmem'
      exact List.mem_map.2 ⟨c, History.mem_cuts.2 ⟨i, hcut hsent⟩, hoffset⟩
    · obtain ⟨c, hmem', rfl⟩ := List.mem_map.1 hmem
      exact hfiled c hmem'

/-! ## Failures and aborts -/

omit [Service σ] in
theorem raised_advance {session : Session σ} (hraised : session.abort.raised = true) (n : Nat) :
    (session.advance n).abort.raised = true := by
  unfold Session.advance Session.report
  split
  · exact hraised
  · simp only
    split
    · rfl
    · exact hraised

/-- A worker has failed, or the upload is aborted while there are spans that nobody has begun. -/
def Doomed (p : Pool σ) : Prop :=
  p.Failing ∨ p.session.abort.raised = true ∧ (p.queue ≠ [] ∨ ∃ s, .checking s ∈ p.workers)

theorem Stride.raised (hstride : Stride p w event w' p')
    (hraised : p.session.abort.raised = true) : p'.session.abort.raised = true := by
  cases hstride with
  | enter hlooked =>
      obtain ⟨hrefused, -⟩ := Session.checkAbort_of_raised hraised _
      rw [hlooked] at hrefused
      cases hrefused
  | @refuse s session e hlooked =>
      have hstill := (Session.checkAbort_of_raised hraised s.start).2
      rwa [hlooked] at hstill
  | count => exact raised_advance hraised _
  | _ => exact hraised

/-- What is taken from the queue is still to be begun. -/
theorem Stride.queue_ne_nil (hstride : Stride p w event w' p') (hsome : p.queue ≠ []) :
    p'.queue ≠ [] ∨ ∃ s, w' = .checking s := by
  cases hstride with
  | claim hnext => exact .inr ⟨_, rfl⟩
  | _ => exact .inl hsome

/-- A span is not begun once the upload is aborted. -/
theorem Stride.checking {s : Span} (hstride : Stride p (.checking s) event w' p')
    (hraised : p.session.abort.raised = true) : w'.hasFailed = true := by
  cases hstride with
  | enter hlooked =>
      obtain ⟨hrefused, -⟩ := Session.checkAbort_of_raised hraised _
      rw [hlooked] at hrefused
      cases hrefused
  | refuse => rfl

theorem Doomed.replace (hdoomed : p.Doomed) (hi : p.workers[i]? = some w)
    (hstride : Stride p w event w' p') : (replace i w' p p').Doomed := by
  have hself : w' ∈ (Pool.replace i w' p p').workers := mem_replace hi
  rcases hdoomed with hfailing | ⟨hraised, hwaiting | ⟨s, hmem⟩⟩
  · exact .inl (hstride.turn.failing hi hfailing)
  · refine .inr ⟨hstride.raised hraised, (hstride.queue_ne_nil hwaiting).imp_right ?_⟩
    rintro ⟨s, rfl⟩
    exact ⟨s, hself⟩
  · by_cases hfailed : w'.hasFailed = true
    · exact .inl (failing_replace hi hfailed)
    · obtain ⟨v, hv, rfl⟩ := exists_mem_set (y := w') (P := (· = .checking s)) hi ⟨_, hmem, rfl⟩
        fun hsame => absurd (Stride.checking (hsame ▸ hstride) hraised) hfailed
      exact .inr ⟨hstride.raised hraised, .inr ⟨s, hv⟩⟩

theorem Doomed.foldl (hdoomed : p.Doomed) (hledger : Ledger settings spans past p)
    (hshort : ∀ s ∈ spans, Short settings s) (actions : List Action) :
    (actions.foldl act p).Doomed := by
  refine (history_invariant (P := fun past p => Ledger settings spans past p ∧ p.Doomed)
    (fun hinv => hinv.1.proper_short hshort) (fun hinv hi hstride => ?_) (fun hinv => ?_) actions
    (And.intro hledger hdoomed)).2
  · exact ⟨hinv.1.replace hshort hi hstride, hinv.2.replace hi hstride⟩
  · refine ⟨{ hinv.1 with unchanged := hinv.1.unchanged }, ?_⟩
    exact hinv.2.imp id fun ⟨_, hwaiting⟩ => ⟨rfl, hwaiting⟩

omit [Service σ] in
/-- A pool that is doomed ends badly. -/
theorem failure_of_doomed (hdoomed : p.Doomed) (horderly : p.Orderly)
    (hended : ∀ w ∈ p.workers, w = .ended) : p.failure ≠ none := by
  rcases hdoomed with hfailing | ⟨-, hwaiting | ⟨s, hmem⟩⟩
  · exact failing_of_ended hended hfailing
  · exact fun hunfailed => hwaiting (horderly.queue_nil hended hunfailed)
  · cases hended _ hmem

end Pool

end BlobUpload
