import BlobUpload.Proofs.Service.WellFormedness

/-! # ETags never come back

Every request that is carried out makes a new ETag, unless it only stages a block, and no other
request does. So an ETag counts the requests that made one, and pages that are written under an ETag
seen earlier are written just if none has been made since. Main statement:
`etags_never_come_back`. -/

namespace BlobUpload

/-- The request made a new ETag. -/
def Exchange.renews (x : Exchange) : Bool := x.request.method ≠ .putBlock && x.failure.isNone

/-- The ETag that a reply tells. -/
def Request.etag? : (r : Request) → r.Reply → Option String
  | .putBlock .., _ => none
  | .putBlockList .., etag | .updatePage .., etag | .putBlob .., etag => some etag
  | .appendBlock .., reply => some reply.etag

namespace Blob

variable {b : Blob} {r : Request}

/-- How many of these requests make a new ETag. -/
def renewals (b : Blob) (rs : List Request) : Nat := (Service.exchanges b rs).countP Exchange.renews

/-! ## One request -/

theorem renews_iff {σ : Type} [Service σ] {s : σ} :
    Exchange.renews ⟨r, Relay.failure? (Service.answer r s).1⟩ = true ↔
      r.method ≠ .putBlock ∧ ∃ reply, (Service.answer r s).1 = .ok reply := by
  rw [Exchange.renews, Bool.and_eq_true, decide_eq_true_iff]
  refine and_congr_right fun _ => ?_
  cases (Service.answer r s).1 with
  | error e => exact iff_of_false Bool.false_ne_true nofun
  | ok reply => exact iff_of_true rfl ⟨reply, rfl⟩

theorem revision_of_answer (r : Request) (b : Blob) :
    (Service.answer r b).2.revision = b.revision + b.renewals [r] := by
  have heffect := effect_answer r b
  rw [renewals, Service.exchanges, Service.exchanges, List.countP_singleton]
  generalize (Service.answer r b).1 = answer at heffect
  generalize (Service.answer r b).2 = after at heffect
  cases heffect with
  | rejected => cases r <;> rfl
  | _ => rfl

theorem etag?_of_answer {reply : r.Reply} (hanswered : (Service.answer r b).1 = .ok reply)
    (hrenews : r.method ≠ .putBlock) : r.etag? reply = some (Service.answer r b).2.etag := by
  have heffect := effect_answer r b
  rw [hanswered] at heffect
  generalize (Service.answer r b).2 = after at heffect
  cases heffect with
  | staged => exact absurd rfl hrenews
  | _ => rfl

/-! ## Pages under an ETag -/

/-- If nothing else is wrong with them, pages are written just if they state the ETag of the
blob. -/
theorem written_iff {first last : Nat} {body : Body} (hadmits : b.Admits body.lease)
    (hdigested : body.Digested) (hfills : body.payload.Fills first last) (expected : String) :
    (∃ etag, (Service.answer (.updatePage first last body (some expected)) b).1 = .ok etag) ↔
      expected = b.etag := by
  constructor
  · rintro ⟨etag, hwritten⟩
    exact (of_answer_updatePage (Prod.ext hwritten rfl)).2.2.2 expected rfl
  · rintro rfl
    have hpages : b.checkPages first last body.payload (some b.etag) = .ok () :=
      (checkPages_of_fills hfills b _).trans (if_neg (not_not_intro rfl))
    rw [answer_updatePage_of_check
      ((check_of_digested hdigested b).trans (checkLease_of_admits hadmits)) hpages]
    exact ⟨_, rfl⟩

/-! ## Many requests -/

theorem renewals_append (b : Blob) (rs rs' : List Request) :
    b.renewals (rs ++ rs') = b.renewals rs + (Service.after b rs).renewals rs' := by
  rw [renewals, Service.exchanges_append, List.countP_append]
  rfl

theorem renewals_eq_zero_iff {rs : List Request} :
    b.renewals rs = 0 ↔ ∀ x ∈ Service.exchanges b rs, x.renews = false := by
  simp only [renewals, List.countP_eq_zero, Bool.not_eq_true]

theorem revision_after (b : Blob) (rs : List Request) :
    (Service.after b rs).revision = b.revision + b.renewals rs := by
  induction rs generalizing b with
  | nil => rfl
  | cons r rs ih =>
      have hrest := ih (Service.answer r b).2
      rw [revision_of_answer, Nat.add_assoc, ← Service.after_singleton, ← renewals_append] at hrest
      exact hrest

theorem etag_after_eq_iff {rs rs' : List Request} :
    (Service.after b rs).etag = (Service.after b rs').etag ↔ b.renewals rs = b.renewals rs' := by
  rw [← Nat.add_right_inj (n := b.revision), ← revision_after, ← revision_after]
  exact ⟨etagOf_injective, congrArg etagOf⟩

/-- A request makes a new ETag just if it is carried out and does not only stage a block, and then
it tells the ETag, if any. ETags differ whenever the numbers of requests that made one do. So pages
with nothing else wrong are written under the ETag of the blob and no other, and under an earlier
one just if no request has made one since. -/
theorem etags_never_come_back (b : Blob) (rs : List Request) :
    (∀ r, (Service.after b (rs ++ [r])).etag ≠ (Service.after b rs).etag ↔
      r.method ≠ .putBlock ∧ ∃ reply, (Service.answer r (Service.after b rs)).1 = .ok reply) ∧
    (∀ r reply, (Service.answer r (Service.after b rs)).1 = .ok reply → r.method ≠ .putBlock →
      r.etag? reply = some (Service.after b (rs ++ [r])).etag) ∧
    (∀ rs', (Service.after b rs).etag = (Service.after b rs').etag ↔
      b.renewals rs = b.renewals rs') ∧
    ∀ first last body, (Service.after b rs).Admits body.lease → body.Digested →
      body.payload.Fills first last →
        (∀ expected, (∃ etag, (Service.answer (.updatePage first last body (some expected))
            (Service.after b rs)).1 = .ok etag) ↔ expected = (Service.after b rs).etag) ∧
        ∀ past since, rs = past ++ since →
          ((∃ etag, (Service.answer (.updatePage first last body
              (some (Service.after b past).etag)) (Service.after b rs)).1 = .ok etag) ↔
            ∀ x ∈ Service.exchanges (Service.after b past) since, x.renews = false) := by
  refine ⟨fun r => ?_, fun r reply hanswered hrenews => ?_, fun rs' => etag_after_eq_iff,
    fun first last body hadmits hdigested hfills => ⟨written_iff hadmits hdigested hfills, ?_⟩⟩
  · rw [Ne, etag_after_eq_iff, renewals_append, Nat.add_eq_left, renewals_eq_zero_iff]
    simp only [Service.exchanges, List.forall_mem_singleton, Bool.not_eq_false, renews_iff]
  · rw [Service.after_concat]
    exact etag?_of_answer hanswered hrenews
  · rintro past since rfl
    rw [written_iff hadmits hdigested hfills, etag_after_eq_iff, renewals_append, Nat.left_eq_add,
      renewals_eq_zero_iff]

/-- A blob under a lease, whose content is then replaced. -/
def leasedBlob : Blob := { lease := some "key" }

def replacing : List Request := [.putBlob { payload := [1, 2, 3], lease := some "key" }]

/-- One page for the blob under a lease. -/
def leasedPage : Body := { payload := List.replicate 512 7, lease := some "key" }

theorem etags_never_come_back_leased :
    (∃ etag, (Service.answer (.updatePage 0 511 leasedPage
      (some (Service.after leasedBlob replacing).etag)) (Service.after leasedBlob replacing)).1 =
        .ok etag) ∧
    ¬∃ etag, (Service.answer (.updatePage 0 511 leasedPage (some leasedBlob.etag))
      (Service.after leasedBlob replacing)).1 = .ok etag := by
  obtain ⟨hcurrent, hearlier⟩ := (etags_never_come_back leasedBlob replacing).2.2.2 0 511 leasedPage
    (.inr rfl) nofun ⟨rfl, rfl, Nat.zero_le _, List.length_replicate.symm⟩
  refine ⟨(hcurrent _).2 rfl, fun hwritten => ?_⟩
  cases (hearlier [] replacing rfl).1 hwritten _ List.mem_cons_self

end Blob

end BlobUpload
