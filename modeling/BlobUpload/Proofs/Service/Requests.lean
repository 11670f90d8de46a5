import BlobUpload.Proofs.Service.Faults
import BlobUpload.Proofs.Session.SendEquations

/-! # One request after another

Whatever an upload does, it changes a service by its requests only, so a service at the end of an
upload is the service of the beginning after some requests (`Service.after`). What readers see of a
blob stays the same as long as no commit is acknowledged, or lost after it was carried out
(`Relay.visible_after`). -/

namespace BlobUpload

variable {σ : Type} [Service σ]

/-- A service after requests that are sent one after another. -/
def Service.after (s : σ) (rs : List Request) : σ :=
  rs.foldl (fun s r => (Service.answer r s).2) s

/-- One of the requests that are sent one after another is `r`, and the service says that it has
been carried out. -/
inductive Acknowledged (r : Request) : σ → List Request → Prop
  | here {s : σ} {rs : List Request} {reply : r.Reply} :
    (Service.answer r s).1 = .ok reply → Acknowledged r s (r :: rs)
  | later {s : σ} {q : Request} {rs : List Request} :
    Acknowledged r (Service.answer q s).2 rs → Acknowledged r s (q :: rs)

namespace Service

theorem after_singleton (s : σ) (r : Request) : after s [r] = (Service.answer r s).2 := rfl

theorem after_append (s : σ) (rs rs' : List Request) :
    after s (rs ++ rs') = after (after s rs) rs' := List.foldl_append

theorem after_concat (s : σ) (rs : List Request) (r : Request) :
    after s (rs ++ [r]) = (Service.answer r (after s rs)).2 := by
  rw [after_append, after_singleton]

end Service

namespace Acknowledged

variable {s : σ} {r : Request} {rs : List Request}

theorem append_right (h : Acknowledged r s rs) (rs' : List Request) :
    Acknowledged r s (rs ++ rs') := by
  induction h with
  | here hok => exact .here hok
  | later _ ih => exact .later ih

theorem append_left {rs' : List Request} (h : Acknowledged r (Service.after s rs) rs') :
    Acknowledged r s (rs ++ rs') := by
  induction rs generalizing s with
  | nil => exact h
  | cons q rs ih => exact .later (ih h)

theorem mono {rs' : List Request} (h : Acknowledged r s rs) (hmore : rs <+: rs') :
    Acknowledged r s rs' := by
  obtain ⟨rest, rfl⟩ := hmore
  exact h.append_right rest

theorem concat {reply : r.Reply} (hok : (Service.answer r (Service.after s rs)).1 = .ok reply) :
    Acknowledged r s (rs ++ [r]) := append_left (.here hok)

end Acknowledged

/-! ## Requests of an upload -/

/-- A request that is refused once more leaves it to the rest whether it is acknowledged. -/
theorem acknowledged_cons_of_error {r : Request} {s t : σ} {e : ServiceError} {rs : List Request}
    (hrefused : Service.answer r s = (.error e, t)) :
    Acknowledged r s (r :: rs) ↔ Acknowledged r t rs := by
  constructor
  · intro h
    cases h with
    | here hok => rw [hrefused] at hok; cases hok
    | later hrest => rwa [hrefused] at hrest
  · intro hrest
    refine .later ?_
    rwa [hrefused]

/-- A request is sent again as long as it fails, and is acknowledged if it does not. -/
theorem deliver_requests (offset : Nat) (r : Request) (retries sent : Nat) (s : σ) :
    ∃ n, (deliver offset r retries sent s).2 = Service.after s (List.replicate n r) ∧
      ((∃ reply, (deliver offset r retries sent s).1 = .ok reply) ↔
        Acknowledged r s (List.replicate n r)) := by
  have honce : ∀ {s t : σ} {answer : Except ServiceError r.Reply},
      Service.answer r s = (answer, t) → Service.after s (List.replicate 1 r) = t := by
    intro s t answer hanswered
    rw [List.replicate_one, Service.after_singleton, hanswered]
  have hrefused : ∀ {s t : σ} {e : ServiceError},
      Service.answer r s = (.error e, t) → ¬Acknowledged r s (List.replicate 1 r) := by
    intro s t e hanswered h
    cases (acknowledged_cons_of_error hanswered).1 h
  fun_induction deliver offset r retries sent s with
  | case1 retries sent s reply t hanswered =>
      refine ⟨1, (honce hanswered).symm, fun _ => .here (by rw [hanswered]), fun _ => ⟨reply, rfl⟩⟩
  | case2 retries sent s message t hanswered =>
      refine ⟨1, (honce hanswered).symm, ?_, fun h => absurd h (hrefused hanswered)⟩
      rintro ⟨reply, ⟨⟩⟩
  | case3 sent s cause t _ hanswered =>
      refine ⟨1, (honce hanswered).symm, ?_, fun h => absurd h (hrefused hanswered)⟩
      rintro ⟨reply, ⟨⟩⟩
  | case4 sent s cause t _ hanswered retries ih =>
      obtain ⟨n, hservice, hacknowledged⟩ := ih
      refine ⟨n + 1, ?_, ?_⟩
      · rw [List.replicate_succ, Service.after, List.foldl_cons, hanswered]
        exact hservice
      · rw [List.replicate_succ, acknowledged_cons_of_error hanswered]
        exact hacknowledged

/-- Sending the whole sends one request, perhaps more than once, and fails only if it is never
acknowledged. -/
theorem sendWhole_requests (k : Cutter) (source : Source) (s : Session σ) :
    ∃ n r, r.method = .putBlob ∧
      (sendWhole k source s).2.2.service = Service.after s.service (List.replicate n r) ∧
      ∀ e, (sendWhole k source s).1 = .error e →
        ¬Acknowledged r s.service (List.replicate n r) := by
  rw [sendWhole]
  rcases gather k source with ⟨e | payload, source'⟩
  · exact ⟨0, .putBlob ⟨[], none, none⟩, rfl, rfl, fun _ _ hsent => by cases hsent⟩
  rcases hlooked : s.checkAbort 0 with ⟨e | _, t⟩
  · obtain rfl := Session.eq_of_checkAbort hlooked
    exact ⟨0, .putBlob ⟨[], none, none⟩, rfl, rfl, fun _ _ hsent => by cases hsent⟩
  obtain rfl := Session.eq_of_checkAbort hlooked
  obtain ⟨n, hsent, hacknowledged⟩ := deliver_requests 0
    (.putBlob (s.settings.envelope.body payload)) s.settings.maxRetries 0 s.service
  refine ⟨n, .putBlob (s.settings.envelope.body payload), rfl, ?_⟩
  simp only [Session.deliver]
  rcases hdelivered : BlobUpload.deliver 0 (.putBlob (s.settings.envelope.body payload))
    s.settings.maxRetries 0 s.service with ⟨e | etag, service⟩
  · rw [hdelivered] at hsent hacknowledged
    refine ⟨hsent, fun _ _ h => ?_⟩
    obtain ⟨reply, hsame⟩ := hacknowledged.2 h
    cases hsame
  · rw [hdelivered] at hsent
    simp only [Session.service_advance]
    exact ⟨hsent, fun _ hfailed => by cases hfailed⟩

/-- The session has sent these requests to a service that was `start` before, and all of them stage
blocks. -/
structure Session.Staging (e : Envelope) (start : σ) (rs : List Request) (s : Session σ) :
    Prop where
  service : s.service = Service.after start rs
  writer : s.writer = .block e
  blocks : ∀ r ∈ rs, r.method = .putBlock

namespace Session

variable {e : Envelope} {start : σ} {rs : List Request} {s : Session σ}

theorem Staging.append (hstaging : Staging e start rs s) {rs' : List Request} {t : Session σ}
    (hservice : t.service = Service.after s.service rs') (hwriter : t.writer = .block e)
    (hblocks : ∀ r ∈ rs', r.method = .putBlock) : Staging e start (rs ++ rs') t := by
  refine ⟨by rw [hservice, hstaging.service, Service.after_append], hwriter, fun r hr => ?_⟩
  rcases List.mem_append.1 hr with hold | hnew
  · exact hstaging.blocks r hold
  · exact hblocks r hnew

theorem Staging.checkAbort (hstaging : Staging e start rs s) {offset : Nat}
    {answer : Except UploadError Unit} {t : Session σ}
    (hlooked : s.checkAbort offset = (answer, t)) : Staging e start rs t := by
  obtain rfl := Session.eq_of_checkAbort hlooked
  exact ⟨hstaging.service, hstaging.writer, hstaging.blocks⟩

theorem Staging.advance (hstaging : Staging e start rs s) (n : Nat) :
    Staging e start rs (s.advance n) :=
  ⟨by rw [service_advance, hstaging.service], by rw [writer_advance, hstaging.writer],
    hstaging.blocks⟩

/-- Sending a chunk sends its block, perhaps more than once, and ends well only if that is
acknowledged. -/
theorem send_requests (hwriter : s.writer = .block e) (c : Chunk) :
    ∃ n, (s.send c).2.service =
        Service.after s.service (List.replicate n ((Writer.block e).request c)) ∧
      (s.send c).2.writer = .block e ∧
      ∀ token, (s.send c).1 = .ok token → token = .block (blockId c.offset) ∧
        Acknowledged ((Writer.block e).request c) s.service
          (List.replicate n ((Writer.block e).request c)) := by
  obtain ⟨n, hsent, hacknowledged⟩ :=
    deliver_requests c.offset ((Writer.block e).request c) s.settings.maxRetries 0 s.service
  refine ⟨n, ?_⟩
  obtain ⟨settings, service, w, watch, reports, abort, total, completed⟩ := s
  obtain rfl : w = .block e := hwriter
  rw [Session.send]
  simp only [Writer.check, Writer.violation?, Session.deliver]
  simp only at hsent hacknowledged
  rcases hdelivered : BlobUpload.deliver c.offset ((Writer.block e).request c) settings.maxRetries 0
    service with ⟨failure | reply, t⟩
  · rw [hdelivered] at hsent
    exact ⟨hsent, rfl, fun _ hwritten => by cases hwritten⟩
  · rw [hdelivered] at hsent hacknowledged
    refine ⟨(service_advance _ _).trans hsent, writer_advance _ _, fun token hsame => ?_⟩
    cases hsame
    exact ⟨rfl, hacknowledged.1 ⟨reply, rfl⟩⟩

/-- Sending a chunk stages its block, perhaps more than once. -/
theorem Staging.send (hstaging : Staging e start rs s) (c : Chunk) :
    ∃ rs', rs <+: rs' ∧ Staging e start rs' (s.send c).2 ∧
      ∀ token, (s.send c).1 = .ok token → token = .block (blockId c.offset) ∧
        Acknowledged ((Writer.block e).request c) start rs' := by
  obtain ⟨n, hsent, hwriter, hacknowledged⟩ := send_requests hstaging.writer c
  have hblocks : ∀ r ∈ List.replicate n ((Writer.block e).request c), r.method = .putBlock := by
    intro r hr
    rw [List.eq_of_mem_replicate hr]
    rfl
  refine ⟨_, List.prefix_append _ _, hstaging.append hsent hwriter hblocks,
    fun token hwritten => ?_⟩
  obtain ⟨hsame, hok⟩ := hacknowledged token hwritten
  exact ⟨hsame, .append_left (hstaging.service ▸ hok)⟩

/-- Sending chunk by chunk stages blocks only. If it ends well, there was nothing but chunks to send
and all of them are acknowledged. -/
theorem Staging.sendEach (hstaging : Staging e start rs s)
    (answers : List (Except UploadError Chunk)) :
    ∃ rs', rs <+: rs' ∧ Staging e start rs' (sendEach answers s).2 ∧
      ∀ tokens, (BlobUpload.sendEach answers s).1 = .ok tokens →
        ∃ cs : List Chunk, answers = cs.map .ok ∧
          tokens = cs.map (fun c => .block (blockId c.offset)) ∧
          ∀ c ∈ cs, Acknowledged ((Writer.block e).request c) start rs' := by
  fun_induction BlobUpload.sendEach answers s generalizing rs with
  | case1 s =>
      refine ⟨rs, List.prefix_rfl, hstaging, fun tokens hdone => ?_⟩
      cases hdone
      exact ⟨[], rfl, rfl, fun _ hmem => by cases hmem⟩
  | case2 failure answers s => exact ⟨rs, List.prefix_rfl, hstaging, fun _ hdone => by cases hdone⟩
  | case3 c answers s failure s₁ hrefused =>
      exact ⟨rs, List.prefix_rfl, hstaging.checkAbort hrefused, fun _ hdone => by cases hdone⟩
  | case4 c answers s s₁ hclear failure s₂ hfailed =>
      obtain ⟨rs', hmore, hafter, -⟩ := (hstaging.checkAbort hclear).send c
      rw [hfailed] at hafter
      exact ⟨rs', hmore, hafter, fun _ hdone => by cases hdone⟩
  | case5 c answers s s₁ hclear token s₂ hsent tokens s₃ hrest ih =>
      obtain ⟨rs₁, hmore, hafter, hwritten⟩ := (hstaging.checkAbort hclear).send c
      rw [hsent] at hafter hwritten
      obtain ⟨rs₂, hmore', hstaging', hall⟩ := ih hafter
      rw [hrest] at hstaging' hall
      refine ⟨rs₂, hmore.trans hmore', hstaging', fun tokens' hsame => ?_⟩
      cases hsame
      obtain ⟨cs, rfl, rfl, hacknowledged⟩ := hall tokens rfl
      obtain ⟨rfl, hfirst⟩ := hwritten token rfl
      refine ⟨c :: cs, rfl, rfl, fun d hd => ?_⟩
      rcases List.mem_cons.1 hd with rfl | hd
      · exact hfirst.mono hmore'
      · exact hacknowledged d hd
  | case6 c answers s s₁ hclear token s₂ hsent failure s₃ hrest ih =>
      obtain ⟨rs₁, hmore, hafter, -⟩ := (hstaging.checkAbort hclear).send c
      rw [hsent] at hafter
      obtain ⟨rs₂, hmore', hstaging', -⟩ := ih hafter
      rw [hrest] at hstaging'
      exact ⟨rs₂, hmore.trans hmore', hstaging', fun _ hdone => by cases hdone⟩

end Session

/-! ## Requests to a blob through a relay -/

/-- A request that replaces what readers see of a block blob. -/
def Request.commits (r : Request) : Bool := r.method = .putBlockList || r.method = .putBlob

/-- What readers see of a blob: its content, its ETag and the ids of its blocks. -/
def Blob.visible (b : Blob) : Bytes × String × List String := (b.content, b.etag, b.committed)

namespace Blob

variable {b : Blob} {r : Request}

theorem visible_of_error {e : ServiceError} (hrefused : (Service.answer r b).1 = .error e) :
    (Service.answer r b).2.visible = b.visible := by
  change (b.answer r).1 = _ at hrefused
  change (b.answer r).2.visible = _
  rw [answer] at hrefused ⊢
  cases hperformed : Blob.perform { b with calls := b.calls.count r.method } r with
  | ok out => rw [hperformed] at hrefused; cases hrefused
  | error rejection => rfl

/-- Staging shows nothing. -/
theorem visible_of_putBlock (hmethod : r.method = .putBlock) :
    (Service.answer r b).2.visible = b.visible := by
  cases r with
  | putBlock id body =>
      change (b.answer (.putBlock id body)).2.visible = _
      rw [answer, perform]
      cases hchecked :
        Blob.check { b with calls := b.calls.count (Request.putBlock id body).method } body <;> rfl
  | _ => cases hmethod

/-- Staging leaves the lease as it is. -/
theorem lease_after {rs : List Request} (hblocks : ∀ r ∈ rs, r.method = .putBlock) :
    (Service.after b rs).lease = b.lease := by
  induction rs generalizing b with
  | nil => rfl
  | cons r rs ih =>
      refine (ih fun q hmem => hblocks q (List.mem_cons_of_mem _ hmem)).trans ?_
      have hmethod := hblocks r List.mem_cons_self
      cases r with
      | putBlock id body =>
          change (b.answer (.putBlock id body)).2.lease = _
          rw [answer, perform]
          cases hchecked : Blob.check
            { b with calls := b.calls.count (Request.putBlock id body).method } body <;> rfl
      | _ => cases hmethod

end Blob

namespace Relay

/-- A fault answers the request although the service carries it out. -/
def loses (relay : Relay σ) (r : Request) : Bool :=
  (Fault.strike relay.exchanges.length r relay.faults).1.any (·.passedOn) &&
    (Service.answer r relay.service).1.isOk

/-- Among requests that are sent one after another no commit is carried out while a fault answers
it. -/
def LosesNoCommit (relay : Relay σ) : List Request → Prop
  | [] => True
  | r :: rs => (r.commits = true → relay.loses r = false) ∧
      LosesNoCommit (Service.answer r relay).2 rs

theorem losesNoCommit_append (relay : Relay σ) (rs rs' : List Request) :
    relay.LosesNoCommit (rs ++ rs') ↔
      relay.LosesNoCommit rs ∧ (Service.after relay rs).LosesNoCommit rs' := by
  induction rs generalizing relay with
  | nil => exact (iff_of_eq (true_and _)).symm
  | cons r rs ih => exact (and_congr_right fun _ => ih _).trans (and_assoc).symm

theorem exchanges_answer (relay : Relay σ) (r : Request) :
    (Service.answer r relay).2.exchanges =
      relay.exchanges ++ [⟨r, failure? (Service.answer r relay).1⟩] := by
  change (relay.answer r).2.exchanges = relay.exchanges ++ [⟨r, failure? (relay.answer r).1⟩]
  rw [answer, resolve]
  rcases Fault.strike relay.exchanges.length r relay.faults with ⟨_ | fault, faults⟩ <;> rfl

/-- A relay records what it is sent, and which of it is acknowledged. -/
theorem exchanges_after (relay : Relay σ) (rs : List Request) :
    ∃ sent, (Service.after relay rs).exchanges = relay.exchanges ++ sent ∧
      sent.map Exchange.request = rs ∧ ∀ r, Acknowledged r relay rs → ⟨r, none⟩ ∈ sent := by
  induction rs generalizing relay with
  | nil => exact ⟨[], (List.append_nil _).symm, rfl, nofun⟩
  | cons q rs ih =>
      obtain ⟨sent, hrecorded, hrequests, hacknowledged⟩ := ih (Service.answer q relay).2
      refine ⟨⟨q, failure? (Service.answer q relay).1⟩ :: sent, ?_, by
        rw [List.map_cons, hrequests], fun r h => ?_⟩
      · change (Service.after (Service.answer q relay).2 rs).exchanges = _
        rw [hrecorded, exchanges_answer, List.append_assoc]
        rfl
      · cases h with
        | here hok =>
            rw [hok]
            exact List.mem_cons_self
        | later hrest => exact List.mem_cons_of_mem _ (hacknowledged r hrest)

/-- Faults that never lose the answer to a commit do not do so in any run. -/
theorem losesNoCommit_of_loseOnly {relay : Relay σ}
    (h : Fault.LoseOnly (fun r => r.commits = false) relay.faults) (rs : List Request) :
    relay.LosesNoCommit rs := by
  induction rs generalizing relay with
  | nil => trivial
  | cons r rs ih =>
      refine ⟨fun hcommits => ?_, ih ?_⟩
      · have hlost := (h.strike relay.exchanges.length r).2
        rw [loses]
        cases hstruck : (Fault.strike relay.exchanges.length r relay.faults).1 with
        | none => rfl
        | some fault =>
            cases hpassed : fault.passedOn with
            | false => rw [Option.any_some, hpassed, Bool.false_and]
            | true => cases (hlost fault hstruck hpassed).symm.trans hcommits
      · obtain ⟨answer, relay', hhandled⟩ : ∃ answer relay', Service.answer r relay =
          (answer, relay') := ⟨_, _, rfl⟩
        rw [hhandled]
        cases handles_of_answer h hhandled with
        | dropped hrest => exact hrest
        | lost _ hrest => exact hrest
        | answered _ hrest => exact hrest

/-- A block that is staged, or a request that fails and is not lost, leaves what readers see. -/
theorem visible_answer {relay : Relay Blob} {r : Request}
    (hunseen : r.method = .putBlock ∨
      relay.loses r = false ∧ ∃ e, (Service.answer r relay).1 = .error e) :
    (Service.answer r relay).2.service.visible = relay.service.visible := by
  change _ ∨ _ ∧ ∃ e, (relay.answer r).1 = _ at hunseen
  change (relay.answer r).2.service.visible = _
  rw [loses] at hunseen
  rw [answer, resolve] at hunseen ⊢
  rcases hstruck : Fault.strike relay.exchanges.length r relay.faults with ⟨_ | fault, faults⟩
  · rw [hstruck] at hunseen
    rcases hunseen with hstages | ⟨-, e, hrefused⟩
    · exact Blob.visible_of_putBlock hstages
    · exact Blob.visible_of_error hrefused
  · rw [hstruck] at hunseen
    cases hpassed : fault.passedOn with
    | false =>
        simp only [hpassed, Bool.false_eq_true, if_false]
    | true =>
        simp only [hpassed, if_true]
        rcases hunseen with hstages | ⟨hkept, -⟩
        · exact Blob.visible_of_putBlock hstages
        · rw [Option.any_some, hpassed, Bool.true_and] at hkept
          cases hanswered : (Service.answer r relay.service).1 with
          | error e => exact Blob.visible_of_error hanswered
          | ok reply => rw [hanswered] at hkept; cases hkept

/-- Blocks that are staged and commits that fail without being lost leave what readers see. -/
theorem visible_after {relay : Relay Blob} {rs : List Request} (hkept : relay.LosesNoCommit rs)
    (hunseen : ∀ r ∈ rs, r.method = .putBlock ∨ r.commits = true ∧ ¬Acknowledged r relay rs) :
    (Service.after relay rs).service.visible = relay.service.visible := by
  induction rs generalizing relay with
  | nil => rfl
  | cons r rs ih =>
      have hrest := ih hkept.2 fun q hq =>
        (hunseen q (List.mem_cons_of_mem _ hq)).imp_right fun h => ⟨h.1, fun ha => h.2 (.later ha)⟩
      refine Eq.trans hrest (visible_answer ?_)
      refine (hunseen r List.mem_cons_self).imp_right fun ⟨hcommits, hrefused⟩ =>
        ⟨hkept.1 hcommits, ?_⟩
      cases hanswered : (Service.answer r relay).1 with
      | error e => exact ⟨e, rfl⟩
      | ok reply => exact absurd (.here hanswered) hrefused

end Relay

end BlobUpload
