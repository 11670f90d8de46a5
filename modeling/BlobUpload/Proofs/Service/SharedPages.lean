import BlobUpload.Proofs.Service.PageWrites
import BlobUpload.Proofs.Service.Revisions
import BlobUpload.Proofs.Service.SharedAppends

/-! # Page writes that are chained on a blob that others write to

Each page write but the first states the ETag that the one before it has answered. If it is
acknowledged, the blob still had that ETag. So nobody has replaced the content in between, whatever
others have requested, and however often the write was sent. -/

namespace BlobUpload

/-- A request of the upload, with what others request right before it. -/
structure Round where
  start : Blob
  others : List Request
  own : Answered

namespace Round

/-- The blob as the request of the upload meets it. -/
def met (x : Round) : Blob := Service.after x.start x.others

/-- The others have changed neither the content nor the ETag. -/
def Untouched (x : Round) : Prop := x.start.Untouched x.others

/-- The request of the upload is a page write that is acknowledged. -/
def Writes (x : Round) : Prop := x.own.request.method = .updatePage ∧ x.own.answer.isOk = true

end Round

/-- The rounds of an upload that sends these requests one after another. -/
def SharedBlob.rounds : SharedBlob → List Request → List Round
  | _, [] => []
  | s, r :: rs =>
    let (answer, t) := Service.answer r s
    ⟨s.relay.service, s.others.headD [], r, answer, t.relay.service⟩ :: t.rounds rs

theorem SharedBlob.rounds_append (s : SharedBlob) (rs rs' : List Request) :
    s.rounds (rs ++ rs') = s.rounds rs ++ (Service.after s rs).rounds rs' := by
  induction rs generalizing s with
  | nil => rfl
  | cons r rs ih => exact congrArg (_ :: ·) (ih _)

/-- A patch over the front and another one right behind it are one patch. -/
theorem Bytes.overlay_overlay (base front patch : Bytes) :
    (base.overlay 0 front).overlay front.length patch = base.overlay 0 (front ++ patch) := by
  have hlaid (patch : Bytes) : base.overlay 0 patch = patch ++ base.drop patch.length := by
    simpa using overlay_behind [] base patch
  rw [hlaid, overlay_behind, hlaid, List.drop_drop, List.length_append, List.append_assoc]

/-! ## One request -/

namespace Blob

/-- The blob `b` has become `b'` in the course of these rounds. If it still has the ETag that it had
before, it is as it was, and nobody has touched it. -/
structure Lasts (b : Blob) (xs : List Round) (b' : Blob) : Prop where
  le : b.revision ≤ b'.revision
  untouched : b'.revision = b.revision → b'.content = b.content ∧ ∀ x ∈ xs, x.Untouched

theorem lasts_met (x : Round) : x.start.Lasts [x] x.met where
  le := revision_le_after _ _
  untouched hsame := by
    have huntouched := untouched_of_revision hsame
    refine ⟨(huntouched _ List.prefix_rfl).1, fun y hmem => ?_⟩
    rw [List.mem_singleton.1 hmem]
    exact huntouched

theorem Lasts.trans {b b' b'' : Blob} {xs ys : List Round} (h : b.Lasts xs b')
    (h' : b'.Lasts ys b'') : b.Lasts (xs ++ ys) b'' where
  le := Nat.le_trans h.le h'.le
  untouched hsame := by
    have hbetween := Nat.le_antisymm (hsame ▸ h'.le) h.le
    obtain ⟨hcontent, hearly⟩ := h.untouched hbetween
    obtain ⟨hcontent', hlate⟩ := h'.untouched (hsame.trans hbetween.symm)
    refine ⟨hcontent'.trans hcontent, fun x hmem => ?_⟩
    rcases List.mem_append.1 hmem with hmem | hmem
    · exact hearly x hmem
    · exact hlate x hmem

end Blob

namespace SharedBlob

variable {s t : SharedBlob} {r : Request}

/-- All faults lose requests, and none of them an answer only. -/
def Drops (s : SharedBlob) : Prop := Fault.LoseOnly (fun _ => False) s.relay.faults

/-- A request is answered by the blob as it meets it, or leaves it as it is. -/
theorem Drops.round (hdrops : s.Drops) {answer : Except ServiceError r.Reply}
    (hanswered : Service.answer r s = (answer, t)) :
    t.Drops ∧ ∃ x : Round, s.rounds [r] = [x] ∧ x.start = s.relay.service ∧
      x.own = ⟨r, answer, t.relay.service⟩ ∧
      ((∃ e, answer = .error e) ∧ t.relay.service = x.met ∨
        Service.answer r x.met = (answer, t.relay.service)) := by
  obtain ⟨relay, hanswered', rfl⟩ := of_answer hanswered
  have hrounds : s.rounds [r] =
      [⟨s.relay.service, s.others.headD [], r, answer, relay.service⟩] := by
    rw [SharedBlob.rounds, hanswered]
    rfl
  have hdrops' : Fault.LoseOnly (fun _ => False) s.interrupted.faults := hdrops
  cases Relay.handles_of_answer hdrops' hanswered' with
  | dropped hrest => exact ⟨hrest, _, hrounds, rfl, rfl, .inl ⟨⟨_, rfl⟩, rfl⟩⟩
  | lost hnever => exact hnever.elim
  | answered hdone hrest => exact ⟨hrest, _, hrounds, rfl, rfl, .inr hdone⟩

/-- A request that is acknowledged in the end has been turned down or lost in all rounds before,
and the last round is the one that it was carried out in. -/
theorem Drops.delivered {reply : r.Reply} {retries : Nat} (hdrops : s.Drops)
    (hdelivered : Delivered r reply retries s t) :
    t.Drops ∧ ∃ rs front x, t = Service.after s rs ∧ s.rounds rs = front ++ [x] ∧
      (∀ y ∈ front, ¬y.Writes) ∧ x.own = ⟨r, .ok reply, t.relay.service⟩ ∧
      Service.answer r x.met = (.ok reply, t.relay.service) ∧
      s.relay.service.Lasts (front ++ [x]) x.met := by
  induction hdelivered with
  | now hanswered =>
      obtain ⟨hdrops', x, hrounds, hstart, hown, ⟨⟨e, hfailed⟩, -⟩ | hdone⟩ := hdrops.round
        hanswered
      · cases hfailed
      · exact ⟨hdrops', [r], [], x, (congrArg Prod.snd hanswered).symm, hrounds,
          List.forall_mem_nil _, hown, hdone, hstart ▸ Blob.lasts_met x⟩
  | @later retries s s' t e hanswered _ ih =>
      obtain ⟨hdrops', y, hrounds, hstart, hown, houtcome⟩ := hdrops.round hanswered
      obtain ⟨hdrops'', rs, front, x, rfl, hrounds', hquiet, hown', hdone, hlasts⟩ := ih hdrops'
      have hrefused : ¬y.Writes := by
        rintro ⟨-, hok⟩
        rw [hown] at hok
        cases hok
      -- A request that fails leaves the blob as it meets it.
      have halike : s'.relay.service.Alike y.met := by
        rcases houtcome with ⟨-, hsame⟩ | hanswered'
        · rw [hsame]
          exact .refl _
        · have halike := Blob.alike_of_error (congrArg Prod.fst hanswered')
          rwa [hanswered'] at halike
      have hidle : y.met.Lasts [] s'.relay.service :=
        ⟨Nat.le_of_eq halike.revision.symm, fun _ => ⟨halike.content, List.forall_mem_nil _⟩⟩
      refine ⟨hdrops'', r :: rs, y :: front, x, ?_, ?_, ?_, hown', hdone, ?_⟩
      · rw [show s' = (Service.answer r s).2 from (congrArg Prod.snd hanswered).symm]
        rfl
      · rw [← List.singleton_append, rounds_append, hrounds, Service.after_singleton, hanswered,
          hrounds']
        rfl
      · rintro z (_ | ⟨_, hmem⟩)
        · exact hrefused
        · exact hquiet z hmem
      · have hbegins := Blob.lasts_met y
        rw [hstart] at hbegins
        exact (hbegins.trans hidle).trans hlasts

end SharedBlob

/-! ## A session on a shared blob -/

namespace Session

variable {s t : Session SharedBlob} {e : Envelope} {c : Chunk} {token : Token}

/-- The blob as the session has left it. -/
def blob (s : Session SharedBlob) : Blob := s.service.relay.service

/-- The session chains its page writes: the next one states the ETag that the blob has had when the
session has last written it. -/
structure Links (e : Envelope) (s : Session SharedBlob) : Prop where
  writer : s.writer = .page e true (some s.blob.etag)
  drops : s.service.Drops

/-- What comes of a page write that is acknowledged. -/
theorem send_shared {ifMatch : Option String} (hwriter : s.writer = .page e true ifMatch)
    (hdrops : s.service.Drops) (hsent : s.send c = (.ok token, t)) :
    t.Links e ∧ ∃ rs front x, t.service = Service.after s.service rs ∧
      s.service.rounds rs = front ++ [x] ∧ (∀ y ∈ front, ¬y.Writes) ∧ x.Writes ∧
      x.own.after = t.blob ∧ t.blob.content = x.met.content.overlay c.offset c.payload ∧
      (∀ etag, ifMatch = some etag → etag = x.met.etag) ∧
      s.blob.Lasts (front ++ [x]) x.met := by
  obtain ⟨settings, service, w, watch, reports, abort, total, completed⟩ := s
  obtain rfl : w = .page e true ifMatch := hwriter
  obtain ⟨reply, service', -, hdelivered, -, rfl⟩ := send_ok hsent
  obtain ⟨hdrops', rs, front, x, hafter, hrounds, hquiet, hown, hdone, hlasts⟩ :=
    SharedBlob.Drops.delivered hdrops hdelivered
  obtain ⟨hcontent, -, hetag, htold⟩ := Blob.of_answer_updatePage hdone
  have hwritten : x.Writes := by
    rw [Round.Writes, hown]
    exact ⟨rfl, rfl⟩
  refine ⟨⟨?_, ?_⟩, rs, front, x, ?_, hrounds, hquiet, hwritten, ?_, ?_, htold, hlasts⟩
  · rw [writer_advance, blob, service_advance]
    exact congrArg (fun etag => Writer.page e true (some etag)) hetag
  · rw [service_advance]
    exact hdrops'
  · rw [service_advance]
    exact hafter
  · rw [hown, blob, service_advance]
  · rw [blob, service_advance]
    exact hcontent

/-- A page write under the ETag of the write before is acknowledged only if nobody has touched the
blob since then. -/
theorem Links.send (hlinks : s.Links e) (hsent : s.send c = (.ok token, t)) :
    t.Links e ∧ ∃ rs front x, t.service = Service.after s.service rs ∧
      s.service.rounds rs = front ++ [x] ∧ (∀ y ∈ front ++ [x], y.Untouched) ∧ x.Writes ∧
      x.own.after = t.blob ∧ t.blob.content = s.blob.content.overlay c.offset c.payload := by
  obtain ⟨hlinks', rs, front, x, hafter, hrounds, -, hwritten, hown, hcontent, htold, hlasts⟩ :=
    send_shared hlinks.writer hlinks.drops hsent
  have hsame : x.met.revision = s.blob.revision := (etagOf_injective (htold _ rfl)).symm
  obtain ⟨hmet, huntouched⟩ := hlasts.untouched hsame
  exact ⟨hlinks', rs, front, x, hafter, hrounds, huntouched, hwritten, hown, hmet ▸ hcontent⟩

/-- Pages that are sent to the end behind one that was written: nobody has touched the blob from
that one on to the last. -/
theorem Links.sendEach (hlinks : s.Links e) {cs : List Chunk} {base written : Bytes}
    (hconsecutive : Chunk.Consecutive written.length cs)
    (hcontent : s.blob.content = base.overlay 0 written) {tokens : List Token}
    (hsent : BlobUpload.sendEach (cs.map .ok) s = (.ok tokens, t)) :
    t.Links e ∧ tokens.length = cs.length ∧
      t.blob.content = base.overlay 0 (written ++ cs.flatMap Chunk.payload) ∧
      ∃ rs, t.service = Service.after s.service rs ∧
        (∀ x ∈ s.service.rounds rs, x.Untouched) ∧
        ∀ x : Round, x.Writes → x.own.after = s.blob →
          ∃ last ∈ (x :: s.service.rounds rs).getLast?, last.Writes ∧ last.own.after = t.blob := by
  induction cs generalizing s written tokens with
  | nil =>
      cases hsent
      refine ⟨hlinks, rfl, ?_, [], rfl, List.forall_mem_nil _,
        fun x hwritten hown => ⟨x, rfl, hwritten, hown⟩⟩
      rw [List.flatMap_nil, List.append_nil]
      exact hcontent
  | cons c cs ih =>
      obtain ⟨hoffset, -, hnext⟩ := hconsecutive
      rw [List.map_cons] at hsent
      obtain ⟨token, s', rest, hfirst, hsent', rfl⟩ := of_sendEach_cons hsent
      have hlinks₁ : (s.checkAbort c.offset).2.Links e := ⟨hlinks.writer, hlinks.drops⟩
      obtain ⟨hlinks', rs, front, x, hafter, hrounds, huntouched, hwrote, hown, hcontent'⟩ :=
        hlinks₁.send hfirst
      have hoverlaid : s'.blob.content = base.overlay 0 (written ++ c.payload) := by
        rw [hcontent', ← Bytes.overlay_overlay, ← hcontent, hoffset]
        rfl
      have hfurther : (written ++ c.payload).length = c.stop := by
        rw [List.length_append, ← hoffset]
        rfl
      obtain ⟨hlinks'', hlength, hcontent'', rs', hafter', huntouched', hlast⟩ :=
        ih hlinks' (hfurther ▸ hnext) hoverlaid hsent'
      have hservice : s'.service = Service.after s.service rs := hafter
      have hboth : s.service.rounds (rs ++ rs') = front ++ x :: s'.service.rounds rs' := by
        rw [SharedBlob.rounds_append, ← hservice, show s.service.rounds rs = _ from hrounds,
          List.append_assoc]
        rfl
      refine ⟨hlinks'', congrArg (· + 1) hlength, ?_, rs ++ rs', ?_, ?_, fun y _ _ => ?_⟩
      · rw [hcontent'', List.flatMap_cons, List.append_assoc]
      · rw [hafter', hservice, Service.after_append]
      · rw [hboth]
        intro y hmem
        rcases List.mem_append.1 hmem with hmem | hmem
        · exact huntouched y (List.mem_append_left _ hmem)
        · rcases List.mem_cons.1 hmem with rfl | hmem
          · exact huntouched y (List.mem_append_right _ List.mem_cons_self)
          · exact huntouched' y hmem
      · obtain ⟨z, hfound, hwrote', hown'⟩ := hlast x hwrote hown
        refine ⟨z, ?_, hwrote', hown'⟩
        rw [hboth, ← List.cons_append, List.getLast?_append, Option.mem_def.1 hfound]
        rfl

end Session

end BlobUpload
