import BlobUpload.Proofs.Service.PageWrites
import BlobUpload.Proofs.Service.Revisions
import BlobUpload.Proofs.Session.TransientFaults

/-! # Page writes whose answers get lost

A page write that is carried out moves the blob on to its next ETag. If only the answer gets lost,
the same request is sent again: if it states no ETag it writes the same pages once more, which does
no harm. But if it states one, that ETag is no longer the one of the blob, so it is turned down for
good. -/

namespace BlobUpload

/-- Writing the same patch twice is writing it once. -/
theorem Bytes.overlay_twice (base patch : Bytes) (start : Nat) :
    (base.overlay start patch).overlay start patch = base.overlay start patch := by
  apply List.ext_getElem?
  intro i
  simp only [getElem?_overlay, length_overlay]
  by_cases hinside : start ≤ i ∧ i < start + patch.length
  · rw [if_pos hinside, if_pos hinside]
  · rw [if_neg hinside]
    by_cases hshort : i < base.length
    · rw [if_pos (Nat.lt_of_lt_of_le hshort (Nat.le_max_left _ _)), if_pos hshort]
    · split_ifs <;> rfl

/-- The request states an ETag and is carried out without an answer. -/
def Fault.losesCondition (hit : Request × Fault) : Bool :=
  hit.2.passedOn && hit.1.ifMatch?.isSome

/-- Among requests that are sent one after another, none is hit by an error that is final, nor more
often than it is sent again. -/
structure Relay.Bearable {σ : Type} [Service σ] (retries : Nat) (relay : Relay σ)
    (rs : List Request) : Prop where
  retryable : ∀ hit ∈ relay.strikes rs, hit.2.error.isRetryable = true
  within : ∀ r, ((relay.strikes rs).map Prod.fst).count r ≤ retries

section

variable {σ : Type} [Service σ] {relay : Relay σ} {retries : Nat} {rs rs' : List Request}

/-- Only the requests that are hit have to be counted. -/
theorem Relay.bearable_iff : relay.Bearable retries rs ↔
    (∀ hit ∈ relay.strikes rs, hit.2.error.isRetryable = true) ∧
      ∀ r ∈ (relay.strikes rs).map Prod.fst,
        ((relay.strikes rs).map Prod.fst).count r ≤ retries := by
  refine ⟨fun h => ⟨h.retryable, fun r _ => h.within r⟩, fun ⟨hretryable, hwithin⟩ =>
    ⟨hretryable, fun r => ?_⟩⟩
  by_cases hmem : r ∈ (relay.strikes rs).map Prod.fst
  · exact hwithin r hmem
  · rw [List.count_eq_zero_of_not_mem hmem]
    exact Nat.zero_le _

instance : Decidable (relay.Bearable retries rs) := decidable_of_iff _ Relay.bearable_iff.symm

theorem Relay.Bearable.append (h : relay.Bearable retries (rs ++ rs')) :
    relay.Bearable retries rs ∧ (Service.after relay rs).Bearable retries rs' := by
  obtain ⟨hretryable, hwithin⟩ := h
  simp only [strikes_append, List.mem_append, List.map_append, List.count_append] at *
  exact ⟨⟨fun hit hmem => hretryable hit (.inl hmem), fun r =>
      Nat.le_trans (Nat.le_add_right _ _) (hwithin r)⟩,
    ⟨fun hit hmem => hretryable hit (.inr hmem), fun r =>
      Nat.le_trans (Nat.le_add_left _ _) (hwithin r)⟩⟩

/-- All hits among copies of one request are hits of that request. -/
theorem Relay.eq_of_mem_strikes_replicate {r : Request} {n : Nat} {hit : Request × Fault}
    (h : hit ∈ relay.strikes (List.replicate n r)) : hit.1 = r :=
  List.eq_of_mem_replicate (mem_of_mem_strikes h)

theorem Relay.strikes_replicate_succ {r : Request} {f : Fault} {n : Nat}
    (hhit : relay.strikes [r] = [(r, f)]) :
    relay.strikes (List.replicate (n + 1) r) =
      (r, f) :: (Service.answer r relay).2.strikes (List.replicate n r) := by
  rw [List.replicate_succ, ← List.singleton_append, strikes_append, hhit, Service.after_singleton]
  rfl

theorem Relay.Bearable.length_strikes_le {r : Request} {n : Nat}
    (h : relay.Bearable retries (List.replicate n r)) :
    (relay.strikes (List.replicate n r)).length ≤ retries := by
  have hsame : ∀ q ∈ (relay.strikes (List.replicate n r)).map Prod.fst, r = q := by
    intro q hmem
    obtain ⟨hit, hstruck, rfl⟩ := List.mem_map.1 hmem
    exact (eq_of_mem_strikes_replicate hstruck).symm
  have hcount := List.count_eq_length.2 hsame
  rw [List.length_map] at hcount
  exact hcount ▸ h.within r

end

/-! ## One attempt -/

namespace Blob

/-- The blob `x` is `b` after its pages have been written, perhaps more than once. -/
structure Painted (b : Blob) (patch : Nat × Bytes) (x : Blob) : Prop where
  content : x.content = b.content.overlay patch.1 patch.2
  revision : b.revision < x.revision
  lease : x.lease = b.lease

/-- The blob `x` is `b` between the attempts to write the pages: as it was, or with the pages
written although the answer got lost. -/
def Awaits (b : Blob) (patch : Nat × Bytes) (lost : Bool) (x : Blob) : Prop :=
  if lost then b.Painted patch x else x.Alike b

/-- What an attempt to write pages comes to once no fault stands in its way, the blob being `x`
afterwards: the pages are written, unless they are written already and the attempt states the ETag
from before. -/
def verdict {ε : Type} (x : Blob) (refusal : String → ε) (ifMatch : Option String) (lost : Bool) :
    Except ε String :=
  match ifMatch, lost with
  | some etag, true => .error (refusal (Rejection.staleETag etag).message)
  | _, _ => .ok x.etag

variable {b x : Blob} {e : Envelope} {c : Chunk} {ifMatch : Option String} {lost : Bool}

theorem Painted.paint (h : b.Painted c.patch x) : b.Painted c.patch (x.paint c.patch) where
  content := by
    change x.content.overlay c.patch.1 c.patch.2 = _
    rw [h.content, Bytes.overlay_twice]
  revision := Nat.lt_succ_of_lt h.revision
  lease := h.lease

theorem Alike.paint (h : x.Alike b) (c : Chunk) : b.Painted c.patch (x.paint c.patch) where
  content := by
    change x.content.overlay c.patch.1 c.patch.2 = _
    rw [h.content]
  revision := Nat.lt_succ_of_le (Nat.le_of_eq h.revision.symm)
  lease := h.lease

section

variable {ε : Type} {refusal : String → ε}

theorem verdict_of_ok {reply : String}
    (h : Except.ok reply = x.verdict ServiceError.condition ifMatch lost) :
    Except.ok reply = x.verdict refusal ifMatch lost := by
  cases ifMatch with
  | none => exact congrArg Except.ok (Except.ok.inj h)
  | some etag =>
      cases lost with
      | false => exact congrArg Except.ok (Except.ok.inj h)
      | true => cases h

/-- A refusal is about the condition, and what it says does not depend on who reports it. -/
theorem verdict_of_error {cause : ServiceError} (refusal : String → ε)
    (h : Except.error cause = x.verdict ServiceError.condition ifMatch lost) :
    ∃ message, cause = .condition message ∧
      Except.error (refusal message) = x.verdict refusal ifMatch lost := by
  cases ifMatch with
  | none => cases h
  | some etag =>
      cases lost with
      | false => cases h
      | true => exact ⟨_, Except.error.inj h, rfl⟩

end

/-- After an attempt the pages have been written, now or before. -/
theorem Awaits.answer (h : b.Awaits c.patch lost x) (hadmits : b.Admits e.lease) (hpaged : c.Paged)
    (hcurrent : ∀ etag, ifMatch = some etag → etag = b.etag) :
    let after := Service.answer ((Writer.page e true ifMatch).request c) x
    b.Painted c.patch after.2 ∧ after.1 = after.2.verdict .condition ifMatch lost := by
  cases lost with
  | false =>
      have halike : x.Alike b := h
      have hadmits' : x.Admits e.lease := by rwa [Admits, halike.lease]
      have hwritten := answer_updatePage hadmits' hpaged fun etag htold =>
        (hcurrent etag htold).trans halike.etag_eq.symm
      rw [show Service.answer ((Writer.page e true ifMatch).request c) x = _ from hwritten]
      exact ⟨halike.paint c, by cases ifMatch <;> rfl⟩
  | true =>
      have hpainted : b.Painted c.patch x := h
      have hadmits' : x.Admits e.lease := by rwa [Admits, hpainted.lease]
      cases ifMatch with
      | none =>
          have hunconditional : ∀ etag, none = some etag → etag = x.etag :=
            fun _ htold => by cases htold
          have hwritten := answer_updatePage hadmits' hpaged hunconditional
          rw [show Service.answer ((Writer.page e true none).request c) x = _ from hwritten]
          exact ⟨hpainted.paint, rfl⟩
      | some etag =>
          have hstale : etag ≠ x.etag := fun hsame => by
            have hmoved := etagOf_injective ((hcurrent etag rfl).symm.trans hsame)
            exact absurd hmoved (Nat.ne_of_lt hpainted.revision)
          have hrefused := answer_updatePage_of_stale hadmits' hpaged hstale
          rw [show Service.answer ((Writer.page e true (some etag)).request c) x = _ from hrefused]
          exact ⟨⟨hpainted.content, hpainted.revision, hpainted.lease⟩, rfl⟩

/-- What an attempt through faults comes to: nothing is decided, and the pages have been written if
the answer got lost, or the blob itself has answered. -/
theorem Awaits.attempt {relay : Relay Blob} (h : b.Awaits c.patch lost relay.service)
    (hadmits : b.Admits e.lease) (hpaged : c.Paged)
    (hcurrent : ∀ etag, ifMatch = some etag → etag = b.etag) :
    let r := (Writer.page e true ifMatch).request c
    (∃ f, relay.strikes [r] = [(r, f)] ∧ (Service.answer r relay).1 = .error f.error ∧
      b.Awaits c.patch (lost || f.passedOn) (Service.answer r relay).2.service) ∨
    relay.strikes [r] = [] ∧ b.Painted c.patch (Service.answer r relay).2.service ∧
      (Service.answer r relay).1 =
        (Service.answer r relay).2.service.verdict .condition ifMatch lost := by
  obtain ⟨hpainted, hdecides⟩ := h.answer hadmits hpaged hcurrent
  rcases relay.answer_cases ((Writer.page e true ifMatch).request c) with
    ⟨f, hhit, hfailed, hservice⟩ | ⟨hclear, hsame, hservice⟩
  · refine .inl ⟨f, hhit, hfailed, ?_⟩
    rw [hservice]
    cases f.passedOn with
    | false => rwa [Bool.or_false]
    | true =>
        rw [Bool.or_true]
        exact hpainted
  · refine .inr ⟨hclear, ?_⟩
    rw [hservice, hsame]
    exact ⟨hpainted, hdecides⟩

/-! ## All attempts -/

/-- A page write is sent through faults that pass until the blob itself answers it. By then the
pages have been written, and all that counts is whether an answer has got lost before. -/
theorem deliver_page (offset : Nat) (hpaged : c.Paged) (e : Envelope) (ifMatch : Option String)
    (retries sent : Nat) (relay : Relay Blob) :
    ∃ n, (deliver offset ((Writer.page e true ifMatch).request c) retries sent relay).2 =
        Service.after relay (List.replicate n ((Writer.page e true ifMatch).request c)) ∧
      ∀ (b : Blob) lost, b.Awaits c.patch lost relay.service → b.Admits e.lease →
        (∀ etag, ifMatch = some etag → etag = b.etag) →
        let hits := relay.strikes (List.replicate n ((Writer.page e true ifMatch).request c))
        let sent := deliver offset ((Writer.page e true ifMatch).request c) retries sent relay
        sent.1.isOk = true ∨
          (∀ hit ∈ hits, hit.2.error.isRetryable = true) ∧ hits.length ≤ retries →
        b.Painted c.patch sent.2.service ∧
          sent.1 = sent.2.service.verdict (.condition offset) ifMatch
            (lost || hits.any fun hit => hit.2.passedOn) := by
  have honce : ∀ {s t : Relay Blob} {answer},
      Service.answer ((Writer.page e true ifMatch).request c) s = (answer, t) →
      t = Service.after s (List.replicate 1 ((Writer.page e true ifMatch).request c)) := by
    intro s t answer hanswered
    rw [List.replicate_one, Service.after_singleton, hanswered]
  fun_induction deliver offset ((Writer.page e true ifMatch).request c) retries sent relay with
  | case1 retries sent relay reply relay' hanswered =>
      refine ⟨1, honce hanswered, fun b lost hawaits hadmits hcurrent _ => ?_⟩
      rcases hawaits.attempt hadmits hpaged hcurrent with
        ⟨f, -, hfailed, -⟩ | ⟨hclear, hpainted, hdecides⟩
      · rw [hanswered] at hfailed
        cases hfailed
      · rw [hanswered] at hpainted hdecides
        rw [List.replicate_one, hclear, List.any_nil, Bool.or_false]
        exact ⟨hpainted, verdict_of_ok hdecides⟩
  | case2 retries sent relay message relay' hanswered =>
      refine ⟨1, honce hanswered, fun b lost hawaits hadmits hcurrent hfair => ?_⟩
      rcases hawaits.attempt hadmits hpaged hcurrent with
        ⟨f, hhit, hfailed, -⟩ | ⟨hclear, hpainted, hdecides⟩
      · obtain ⟨hretryable, -⟩ := hfair.resolve_left Bool.false_ne_true
        rw [hanswered] at hfailed
        have hagain := hretryable _ (hhit ▸ List.mem_cons_self)
        rw [← Except.error.inj hfailed] at hagain
        cases hagain
      · rw [hanswered] at hpainted hdecides
        rw [List.replicate_one, hclear, List.any_nil, Bool.or_false]
        obtain ⟨_, hsame, htold⟩ := verdict_of_error (UploadError.condition offset) hdecides
        cases hsame
        exact ⟨hpainted, htold⟩
  | case3 sent relay cause relay' hagain hanswered =>
      refine ⟨1, honce hanswered, fun b lost hawaits hadmits hcurrent hfair => ?_⟩
      obtain ⟨-, hfew⟩ := hfair.resolve_left Bool.false_ne_true
      rcases hawaits.attempt hadmits hpaged hcurrent with
        ⟨f, hhit, -⟩ | ⟨hclear, hpainted, hdecides⟩
      · rw [List.replicate_one, hhit] at hfew
        exact absurd hfew (Nat.not_succ_le_zero 0)
      · rw [hanswered] at hdecides
        obtain ⟨message, hsame, -⟩ := verdict_of_error (UploadError.condition offset) hdecides
        exact absurd hsame (hagain message)
  | case4 sent relay cause relay' hagain hanswered retries ih =>
      obtain ⟨n, hservice, htold⟩ := ih
      have hrest : relay' = (Service.answer ((Writer.page e true ifMatch).request c) relay).2 :=
        (congrArg Prod.snd hanswered).symm
      refine ⟨n + 1, ?_, fun b lost hawaits hadmits hcurrent hfair => ?_⟩
      · rw [hservice, hrest]
        rfl
      · rcases hawaits.attempt hadmits hpaged hcurrent with
          ⟨f, hhit, -, hawaits'⟩ | ⟨hclear, hpainted, hdecides⟩
        · rw [Relay.strikes_replicate_succ hhit, ← hrest] at hfair ⊢
          rw [← hrest] at hawaits'
          rw [List.any_cons, ← Bool.or_assoc]
          exact htold b _ hawaits' hadmits hcurrent (hfair.imp_right fun hstill =>
            ⟨fun hit hmem => hstill.1 hit (List.mem_cons_of_mem _ hmem),
              Nat.le_of_succ_le_succ hstill.2⟩)
        · rw [hanswered] at hdecides
          obtain ⟨message, hsame, -⟩ :=
            verdict_of_error (UploadError.condition offset) hdecides
          exact absurd hsame (hagain message)

/-- Unless an answer to a conditional request has got lost, the write has been acknowledged. -/
theorem verdict_of_hits {hits : List (Request × Fault)} {r : Request}
    (hsame : ∀ hit ∈ hits, hit.1 = r) (htold : r.ifMatch? = ifMatch) (offset : Nat) (x : Blob) :
    let result := x.verdict (UploadError.condition offset) ifMatch
      (hits.any fun hit => hit.2.passedOn)
    (hits.find? Fault.losesCondition = none → result = .ok x.etag) ∧
      ∀ hit, hits.find? Fault.losesCondition = some hit → hit.1 = r ∧ ∃ etag, ifMatch = some etag ∧
        result = .error (.condition offset (Rejection.staleETag etag).message) := by
  have hloses : ∀ hit ∈ hits, Fault.losesCondition hit = (hit.2.passedOn && ifMatch.isSome) := by
    intro hit hmem
    rw [Fault.losesCondition, hsame hit hmem, htold]
  refine ⟨fun hnone => ?_, fun hit hfound => ?_⟩
  · cases ifMatch with
    | none => rfl
    | some etag =>
        have hkept : (hits.any fun hit => hit.2.passedOn) = false := by
          rw [List.any_eq_false]
          intro hit hmem
          have hclear := List.find?_eq_none.1 hnone hit hmem
          rwa [hloses hit hmem, Option.isSome_some, Bool.and_true] at hclear
        rw [hkept]
        rfl
  · have hmem := List.mem_of_find?_eq_some hfound
    have hlost := List.find?_some hfound
    rw [hloses hit hmem, Bool.and_eq_true] at hlost
    obtain ⟨etag, rfl⟩ := Option.isSome_iff_exists.1 hlost.2
    have hsome : (hits.any fun hit => hit.2.passedOn) = true := List.any_eq_true.2
      ⟨hit, hmem, hlost.1⟩
    rw [hsome]
    exact ⟨hsame hit hmem, etag, rfl, rfl⟩

end Blob

/-! ## A session -/

/-- The session writes pages, each under the ETag that the blob has, or the next one under none, and
under a lease that meets the one of the blob. -/
structure Session.Chained (e : Envelope) (ifMatch : Option String) (s : Session (Relay Blob)) :
    Prop where
  writer : s.writer = .page e true ifMatch
  admits : s.service.service.Admits e.lease
  current : ∀ etag, ifMatch = some etag → etag = s.service.service.etag

/-- What writing these bytes over the front of the content comes to, if `lost?` is the first
conditional request that is carried out without an answer: the pages of that request are the last
ones that are written. -/
structure Survives {α : Type} (lost? : Option (Request × Fault)) (content data : Bytes)
    (result : Except UploadError α) (after : Bytes) : Prop where
  written : lost? = none →
    (∃ a, result = .ok a) ∧ after = data ++ content.drop data.length
  stopped : ∀ hit, lost? = some hit → ∃ first last body etag,
    hit.1 = .updatePage first last body (some etag) ∧ last < data.length ∧
    result = .error (.condition first (Rejection.staleETag etag).message) ∧
    after = data.take (last + 1) ++ content.drop (last + 1)

theorem Survives.map {α β : Type} {lost? : Option (Request × Fault)} {content data after : Bytes}
    {result : Except UploadError α} (h : Survives lost? content data result after) (f : α → β) :
    Survives lost? content data (result.map f) after := by
  refine ⟨fun hnone => ?_, fun hit hfound => ?_⟩
  · obtain ⟨⟨a, rfl⟩, hsame⟩ := h.written hnone
    exact ⟨⟨f a, rfl⟩, hsame⟩
  · obtain ⟨first, last, body, etag, hrequest, hinside, rfl, hsame⟩ := h.stopped hit hfound
    exact ⟨first, last, body, etag, hrequest, hinside, rfl, hsame⟩

/-- A chunk that is painted behind the front of the content is the next part of it. -/
theorem Blob.Painted.content_behind {b x : Blob} {c : Chunk} {front content : Bytes}
    (hpainted : b.Painted c.patch x) (hbehind : front.length = c.offset)
    (hbefore : b.content = front ++ content.drop front.length) :
    x.content = front ++ c.payload ++ content.drop (front ++ c.payload).length := by
  rw [hpainted.content, hbefore]
  change (front ++ content.drop front.length).overlay c.offset c.payload = _
  rw [← hbehind, Bytes.overlay_behind, List.drop_drop, List.length_append, List.append_assoc]

/-- If the request for the pages behind the front is carried out without an answer, these are the
last pages that are written. -/
theorem Survives.of_lost {α : Type} {hit : Request × Fault} {e : Envelope} {etag : String}
    {c : Chunk} {front tail content after : Bytes} {result : Except UploadError α}
    (hrequest : hit.1 = (Writer.page e true (some etag)).request c)
    (hbehind : front.length = c.offset) (hsome : c.payload ≠ [])
    (hfailed : result = .error (.condition c.offset (Rejection.staleETag etag).message))
    (hafter : after = front ++ c.payload ++ content.drop (front ++ c.payload).length) :
    Survives (some hit) content (front ++ c.payload ++ tail) result after := by
  refine ⟨fun hnone => (by cases hnone), fun found hfound => ?_⟩
  obtain rfl := Option.some.inj hfound
  have hstop : c.stop - 1 + 1 = (front ++ c.payload).length := by
    have hpos : 0 < c.payload.length := List.length_pos_iff.2 hsome
    rw [List.length_append, hbehind]
    exact Nat.sub_add_cancel (Nat.le_trans hpos (Nat.le_add_left _ _))
  refine ⟨c.offset, c.stop - 1, e.body c.payload, etag, hrequest, ?_, hfailed, ?_⟩
  · rw [List.length_append, ← hstop]
    omega
  · rw [hafter, hstop, List.take_left]

namespace Session

variable {s : Session (Relay Blob)} {e : Envelope} {ifMatch : Option String} {c : Chunk}

theorem Undisturbed.send {σ : Type} [Service σ] {s t : Session σ} {token : Token}
    (hcalm : s.Undisturbed) (hsent : s.send c = (.ok token, t)) : t.Undisturbed := by
  obtain ⟨reply, service, -, -, -, rfl⟩ := send_ok hsent
  have hcalm' : Undisturbed { s with service, writer := (s.writer.accept c reply).2 } :=
    ⟨hcalm.abort, hcalm.watch⟩
  exact hcalm'.advance c.length

/-- What a page comes to that is sent through faults that pass. -/
theorem Chained.send (hchained : s.Chained e ifMatch) (hpaged : c.Paged) :
    let r := (Writer.page e true ifMatch).request c
    ∃ n, (s.send c).2.service = Service.after s.service (List.replicate n r) ∧
      ((s.send c).1.isOk = true ∨
          s.service.Bearable s.settings.maxRetries (List.replicate n r) →
        s.service.service.Painted c.patch (s.send c).2.service.service ∧
        match (s.service.strikes (List.replicate n r)).find? Fault.losesCondition with
        | none => (∃ token, (s.send c).1 = .ok token) ∧ ∃ etag, (s.send c).2.Chained e (some etag)
        | some hit => hit.1 = r ∧ ∃ etag, ifMatch = some etag ∧
          (s.send c).1 = .error (.condition c.offset (Rejection.staleETag etag).message)) := by
  obtain ⟨hwriter, hadmits, hcurrent⟩ := hchained
  obtain ⟨settings, service, w, watch, reports, abort, total, completed⟩ := s
  obtain rfl : w = .page e true ifMatch := hwriter
  have hcheck := Writer.check_page hpaged e true ifMatch
  obtain ⟨n, hafter, hdelivered⟩ :=
    Blob.deliver_page c.offset hpaged e ifMatch settings.maxRetries 0 service
  have hawaits : service.service.Awaits c.patch false service.service := Blob.Alike.refl _
  have hattempted := hdelivered service.service false hawaits hadmits hcurrent
  have hsame : ∀ hit ∈ service.strikes
      (List.replicate n ((Writer.page e true ifMatch).request c)), hit.1 = _ :=
    fun hit => Relay.eq_of_mem_strikes_replicate
  have htold : ((Writer.page e true ifMatch).request c).ifMatch? = ifMatch := rfl
  rcases hout : BlobUpload.deliver c.offset ((Writer.page e true ifMatch).request c)
    settings.maxRetries 0 service with ⟨e' | reply, service'⟩
  · rw [hout] at hafter hattempted
    rw [send_of_failed hcheck hout]
    refine ⟨n, hafter, fun hfair => ?_⟩
    have hbearable := hfair.resolve_left Bool.false_ne_true
    obtain ⟨hpainted, hdecided⟩ := hattempted
      (.inr ⟨hbearable.retryable, hbearable.length_strikes_le⟩)
    rw [Bool.false_or] at hdecided
    refine ⟨hpainted, ?_⟩
    obtain ⟨hkept, hlost⟩ := Blob.verdict_of_hits hsame htold c.offset service'.service
    rw [← hdecided] at hkept hlost
    split
    case h_1 hnone => cases hkept hnone
    case h_2 hit hfound =>
      obtain ⟨hrequest, etag, htold, hfailed⟩ := hlost hit hfound
      exact ⟨hrequest, etag, htold, congrArg Except.error (Except.error.inj hfailed)⟩
  · rw [hout] at hafter hattempted
    rw [send_of_delivered hcheck hout]
    refine ⟨n, by rw [service_advance]; exact hafter, fun _ => ?_⟩
    obtain ⟨hpainted, hdecided⟩ := hattempted (.inl rfl)
    rw [Bool.false_or] at hdecided
    rw [service_advance]
    refine ⟨hpainted, ?_⟩
    obtain ⟨hkept, hlost⟩ := Blob.verdict_of_hits hsame htold c.offset service'.service
    rw [← hdecided] at hkept hlost
    split
    case h_1 hnone =>
      have hcurrent : reply = service'.service.etag := Except.ok.inj (hkept hnone)
      refine ⟨⟨_, rfl⟩, reply, writer_advance _ _, ?_, ?_⟩
      · rw [service_advance]
        change service'.service.Admits e.lease
        rwa [Blob.Admits, hpainted.lease]
      · rintro _ ⟨⟩
        rw [service_advance]
        exact hcurrent
    case h_2 hit hfound =>
      obtain ⟨-, _, -, hfailed⟩ := hlost hit hfound
      cases hfailed

/-- Pages that are sent one after another through faults that pass. -/
theorem Chained.sendEach (hchained : s.Chained e ifMatch) (hcalm : s.Undisturbed) {offset : Nat}
    {cs : List Chunk} (hconsecutive : Chunk.Consecutive offset cs) (hpaged : ∀ c ∈ cs, c.Paged)
    {front content : Bytes} (hbehind : front.length = offset)
    (hbefore : s.service.service.content = front ++ content.drop front.length) :
    let ending := BlobUpload.sendEach (cs.map .ok) s
    ∃ rs, ending.2.service = Service.after s.service rs ∧
      (∀ tokens, ending.1 = .ok tokens → ending.2.writer.blobType = .page) ∧
      (s.service.Bearable s.settings.maxRetries rs →
        Survives ((s.service.strikes rs).find? Fault.losesCondition) content
          (front ++ cs.flatMap Chunk.payload) ending.1 ending.2.service.service.content) := by
  induction cs generalizing s ifMatch offset front with
  | nil =>
      refine ⟨[], rfl, fun _ _ => by rw [List.map_nil, BlobUpload.sendEach, hchained.writer]; rfl,
        fun _ => ⟨fun _ => ⟨⟨[], rfl⟩, ?_⟩, fun hit hfound => by cases hfound⟩⟩
      rw [List.flatMap_nil, List.append_nil]
      exact hbefore
  | cons c cs ih =>
      obtain ⟨hoffset, hsome, hnext⟩ := hconsecutive
      have hclear := checkAbort_of_undisturbed hcalm c.offset
      obtain ⟨n, hservice, hsent⟩ := hchained.send (hpaged c List.mem_cons_self)
      have hfurther : (front ++ c.payload).length = c.stop := by
        rw [List.length_append, hbehind, ← hoffset]
        rfl
      have hbegins : front.length = c.offset := hbehind.trans hoffset.symm
      rcases hwritten : s.send c with ⟨e' | token, t⟩
      · rw [List.map_cons, sendEach_of_failed hclear hwritten]
        rw [hwritten] at hservice hsent
        refine ⟨_, hservice, fun _ hok => (by cases hok), fun hbearable => ?_⟩
        obtain ⟨hpainted, hsettled⟩ := hsent (.inr hbearable)
        split at hsettled
        case h_1 hkept =>
          obtain ⟨⟨token, hok⟩, -⟩ := hsettled
          cases hok
        case h_2 hit hfound =>
          obtain ⟨hrequest, etag, rfl, hfailed⟩ := hsettled
          rw [hfound, List.flatMap_cons, ← List.append_assoc]
          exact .of_lost hrequest hbegins hsome
            (congrArg Except.error (Except.error.inj hfailed))
            (hpainted.content_behind hbegins hbefore)
      · rw [List.map_cons, sendEach_of_sent hclear hwritten]
        rw [hwritten] at hservice hsent
        obtain ⟨hpainted, hsettled⟩ := hsent (.inl rfl)
        split at hsettled
        case h_2 hit hfound =>
          obtain ⟨-, _, -, hfailed⟩ := hsettled
          cases hfailed
        case h_1 hkept =>
          obtain ⟨-, etag, hchained'⟩ := hsettled
          obtain ⟨rs, hafter, hkind, hsurvives⟩ := ih hchained' (hcalm.send hwritten) hnext
            (fun d hd => hpaged d (List.mem_cons_of_mem c hd)) hfurther
            (hpainted.content_behind hbegins hbefore)
          have hsame : t.settings = s.settings := by
            rw [← settings_send c s, hwritten]
          refine ⟨List.replicate n ((Writer.page e true ifMatch).request c) ++ rs, ?_,
            fun tokens hok => ?_, fun hbearable => ?_⟩
          · rw [hafter, hservice, ← Service.after_append]
          · cases hout : (BlobUpload.sendEach (cs.map .ok) t).1 with
            | error e => rw [hout] at hok; cases hok
            | ok rest => exact hkind rest hout
          · have hrest := hsurvives (by rw [hservice, hsame]; exact hbearable.append.2)
            rw [Relay.strikes_append, List.find?_append, hkept, Option.none_or, ← hservice,
              List.flatMap_cons, ← List.append_assoc]
            exact hrest.map _

end Session

end BlobUpload
