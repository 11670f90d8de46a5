import BlobUpload.Proofs.Service.Equivalence
import BlobUpload.Proofs.Service.PageWrites
import BlobUpload.Proofs.Session.AppendRetries

/-! # What a blob does with a request

`Blob.Effect` says once what a blob can do with a request: reject it and count it, or carry it out
after all checks have passed. What several requests have done is read off their exchanges. -/

namespace BlobUpload

/-- Steps one after another end well only if each of them does. -/
theorem of_bind_ok {ε α β : Type} {x : Except ε α} {f : α → Except ε β} {b : β}
    (h : x >>= f = .ok b) : ∃ a, x = .ok a ∧ f a = .ok b := by
  cases x with
  | error e => cases h
  | ok a => exact ⟨a, rfl, h⟩

/-! ## One request -/

namespace Blob

/-- The answer of a blob to a request, and the blob after it. -/
inductive Effect (b : Blob) : (r : Request) → Except ServiceError r.Reply → Blob → Prop
  | rejected {r : Request} {rejection : Rejection} : b.perform r = .error rejection →
    Effect b r (.error rejection.toError) { b with calls := b.calls.count r.method }
  | staged {id : String} {body : Body} : b.check body = .ok () →
    Effect b (.putBlock id body) (.ok ()) (b.stage (id, body.payload))
  | published {ids : List String} {lease : Option String} {content : Bytes} :
    b.checkLease lease = .ok () → b.assemble ids = .ok content →
    Effect b (.putBlockList ids lease) (.ok (etagOf (b.revision + 1))) (b.publish content ids)
  | painted {first last : Nat} {body : Body} {ifMatch : Option String} : b.check body = .ok () →
    b.checkPages first last body.payload ifMatch = .ok () →
    Effect b (.updatePage first last body ifMatch) (.ok (etagOf (b.revision + 1)))
      (b.paint (first, body.payload))
  | extended {body : Body} {position maxSize : Option Nat} :
    b.checkAppend body position maxSize = .ok () →
    Effect b (.appendBlock body position maxSize)
      (.ok ⟨b.content.length, etagOf (b.revision + 1)⟩) (b.extend body.payload)
  | put {body : Body} : b.check body = .ok () →
    Effect b (.putBlob body) (.ok (etagOf (b.revision + 1))) (b.put body.payload)

variable {b after : Blob} {r : Request}

theorem effect_of_perform {reply : r.Reply}
    (hperformed : Blob.perform { b with calls := b.calls.count r.method } r = .ok (reply, after)) :
    b.Effect r (.ok reply) after := by
  cases r with
  | putBlock id body =>
      obtain ⟨_, hchecked, hdone⟩ := of_bind_ok hperformed
      cases hdone
      exact .staged hchecked
  | putBlockList ids lease =>
      obtain ⟨_, hchecked, hdone⟩ := of_bind_ok hperformed
      obtain ⟨content, hjoined, hdone⟩ := of_bind_ok hdone
      cases hdone
      exact .published hchecked (((b.alike_counted _).assemble_eq ids).symm.trans hjoined)
  | updatePage first last body ifMatch =>
      obtain ⟨_, hchecked, hdone⟩ := of_bind_ok hperformed
      obtain ⟨_, hpages, hdone⟩ := of_bind_ok hdone
      cases hdone
      exact .painted hchecked hpages
  | appendBlock body position maxSize =>
      obtain ⟨_, hchecked, hdone⟩ := of_bind_ok hperformed
      obtain ⟨_, hplaced, hdone⟩ := of_bind_ok hdone
      obtain ⟨_, hroom, hdone⟩ := of_bind_ok hdone
      cases hdone
      refine .extended ?_
      have hchecked' : b.check body = .ok () := hchecked
      have hplaced' : b.checkPosition position = .ok () := hplaced
      rw [checkAppend, hchecked']
      change (b.checkPosition position >>= fun _ => _) = _
      rw [hplaced']
      exact hroom
  | putBlob body =>
      obtain ⟨_, hchecked, hdone⟩ := of_bind_ok hperformed
      cases hdone
      exact .put hchecked

theorem effect_answer (r : Request) (b : Blob) :
    b.Effect r (Service.answer r b).1 (Service.answer r b).2 := by
  change b.Effect r (b.answer r).1 (b.answer r).2
  rw [answer]
  cases hperformed : Blob.perform { b with calls := b.calls.count r.method } r with
  | ok out => exact effect_of_perform hperformed
  | error rejection =>
      have hagrees := (b.alike_counted (b.calls.count r.method)).perform r
      rw [hperformed] at hagrees
      generalize hrefused : b.perform r = outcome at hagrees
      cases hagrees
      exact .rejected hrefused

/-- A request that is rejected is counted, and nothing else. -/
theorem eq_of_error {e : ServiceError} (hrefused : (Service.answer r b).1 = .error e) :
    (Service.answer r b).2 = { b with calls := b.calls.count r.method } := by
  have heffect := effect_answer r b
  rw [hrefused] at heffect
  generalize (Service.answer r b).2 = after at heffect
  cases heffect
  rfl

end Blob

/-! ## One request after another -/

namespace Service

variable {σ : Type} [Service σ]

/-- Requests that are sent one after another, each with the error that it is answered with. -/
def exchanges (s : σ) : List Request → List Exchange
  | [] => []
  | r :: rs => ⟨r, Relay.failure? (answer r s).1⟩ :: exchanges (answer r s).2 rs

theorem exchanges_append (s : σ) (rs rs' : List Request) :
    exchanges s (rs ++ rs') = exchanges s rs ++ exchanges (after s rs) rs' := by
  induction rs generalizing s with
  | nil => rfl
  | cons r rs ih => exact congrArg (_ :: ·) (ih (answer r s).2)

theorem exchanges_concat (s : σ) (rs : List Request) (r : Request) :
    exchanges s (rs ++ [r]) =
      exchanges s rs ++ [⟨r, Relay.failure? (answer r (after s rs)).1⟩] :=
  exchanges_append s rs [r]

end Service

end BlobUpload
