import BlobUpload.Proofs.Service.StagedBlocks

/-! # Blobs that no request can tell apart

What a blob answers depends on its content and ETag, on its lease and on the blocks that are found
under their ids, but not on how often these were staged or how many requests were counted. So a
block that is staged once more makes no difference. -/

namespace BlobUpload.Blob

/-- No request can tell the blobs apart. -/
structure Alike (b b' : Blob) : Prop where
  content : b.content = b'.content
  committed : b.committed = b'.committed
  revision : b.revision = b'.revision
  lease : b.lease = b'.lease
  staged : ∀ id, b.stagedBlock? id = b'.stagedBlock? id

theorem Alike.refl (b : Blob) : b.Alike b := ⟨rfl, rfl, rfl, rfl, fun _ => rfl⟩

theorem Alike.trans {b b' b'' : Blob} (h : b.Alike b') (h' : b'.Alike b'') : b.Alike b'' :=
  ⟨h.content.trans h'.content, h.committed.trans h'.committed, h.revision.trans h'.revision,
    h.lease.trans h'.lease, fun id => (h.staged id).trans (h'.staged id)⟩

theorem Alike.symm {b b' : Blob} (h : b.Alike b') : b'.Alike b :=
  ⟨h.content.symm, h.committed.symm, h.revision.symm, h.lease.symm, fun id => (h.staged id).symm⟩

/-- Counting a request is not seen by any other. -/
theorem alike_counted (b : Blob) (calls : Calls) : Alike { b with calls } b :=
  ⟨rfl, rfl, rfl, rfl, fun _ => rfl⟩

/-! ## One request -/

/-- Both are rejected alike, or carried out with the same reply. -/
inductive Agrees {α : Type} : Except Rejection (α × Blob) → Except Rejection (α × Blob) → Prop
  | rejected (e : Rejection) : Agrees (.error e) (.error e)
  | done (reply : α) {b b' : Blob} : b.Alike b' → Agrees (.ok (reply, b)) (.ok (reply, b'))

/-- A check that both pass or both fail leaves it to the rest whether they agree. -/
theorem agrees_bind {α β : Type} (check : Except Rejection β)
    {f g : β → Except Rejection (α × Blob)} (h : ∀ x, Agrees (f x) (g x)) :
    Agrees (check >>= f) (check >>= g) := by
  cases check with
  | error e => exact .rejected e
  | ok x => exact h x

section

variable {b b' : Blob}

theorem Alike.checkLease_eq (h : b.Alike b') (claimed : Option String) :
    b.checkLease claimed = b'.checkLease claimed := by
  rw [checkLease, checkLease, h.lease]

theorem Alike.check_eq (h : b.Alike b') (body : Body) : b.check body = b'.check body := by
  rw [check, check, h.checkLease_eq]

theorem Alike.etag_eq (h : b.Alike b') : b.etag = b'.etag := by rw [etag, etag, h.revision]

theorem Alike.assemble_eq (h : b.Alike b') (ids : List String) :
    b.assemble ids = b'.assemble ids := by
  induction ids with
  | nil => rfl
  | cons id ids ih => rw [assemble, assemble, h.staged, ih]

theorem Alike.replace (h : b.Alike b') (content : Bytes) :
    (b.replace content).Alike (b'.replace content) :=
  ⟨rfl, h.committed, congrArg (· + 1) h.revision, h.lease, h.staged⟩

/-- Requests are carried out alike. -/
theorem Alike.perform (h : b.Alike b') (r : Request) : Agrees (b.perform r) (b'.perform r) := by
  cases r with
  | putBlock id body =>
      rw [Blob.perform, Blob.perform, h.check_eq]
      refine agrees_bind _ fun _ => .done () ⟨h.content, h.committed, h.revision, h.lease, ?_⟩
      intro other
      have hrest := h.staged other
      simp only [stagedBlock?, List.lookup_cons] at hrest ⊢
      rw [hrest]
  | putBlockList ids lease =>
      rw [Blob.perform, Blob.perform, h.checkLease_eq, h.assemble_eq]
      refine agrees_bind _ fun _ => agrees_bind _ fun content => ?_
      have hafter : Alike { b.replace content with committed := ids, staged := [] }
          { b'.replace content with committed := ids, staged := [] } :=
        ⟨rfl, rfl, congrArg (· + 1) h.revision, h.lease, fun _ => rfl⟩
      simp only [pure, Except.pure, hafter.etag_eq]
      exact .done _ hafter
  | updatePage first last body ifMatch =>
      have hpages : b.checkPages first last body.payload ifMatch =
          b'.checkPages first last body.payload ifMatch := by
        simp only [checkPages, h.etag_eq]
      rw [Blob.perform, Blob.perform, h.check_eq, hpages]
      refine agrees_bind _ fun _ => agrees_bind _ fun _ => ?_
      have hafter := h.replace (b.content.overlay first body.payload)
      simp only [pure, Except.pure, hafter.etag_eq]
      rw [← h.content]
      exact .done _ hafter
  | appendBlock body position maxSize =>
      have hplace : b.checkPosition position = b'.checkPosition position := by
        simp only [checkPosition, h.content]
      have hroom : b.checkSize body.payload.length maxSize =
          b'.checkSize body.payload.length maxSize := by
        simp only [checkSize, h.content]
      rw [Blob.perform, Blob.perform, h.check_eq, hplace, hroom]
      refine agrees_bind _ fun _ => agrees_bind _ fun _ => agrees_bind _ fun _ => ?_
      have hafter := h.replace (b.content ++ body.payload)
      simp only [pure, Except.pure, hafter.etag_eq]
      rw [← h.content]
      exact .done _ hafter
  | putBlob body =>
      rw [Blob.perform, Blob.perform, h.check_eq]
      refine agrees_bind _ fun _ => ?_
      have hafter : Alike { b.replace body.payload with committed := [], staged := [] }
          { b'.replace body.payload with committed := [], staged := [] } :=
        ⟨rfl, rfl, congrArg (· + 1) h.revision, h.lease, fun _ => rfl⟩
      simp only [pure, Except.pure, hafter.etag_eq]
      exact .done _ hafter

/-- Blobs that are alike answer every request alike, and stay so. -/
theorem Alike.answer (h : b.Alike b') (r : Request) :
    (Service.answer r b).1 = (Service.answer r b').1 ∧
      (Service.answer r b).2.Alike (Service.answer r b').2 := by
  have hcounted : Alike { b with calls := b.calls.count r.method }
      { b' with calls := b'.calls.count r.method } :=
    ⟨h.content, h.committed, h.revision, h.lease, h.staged⟩
  have hperformed := hcounted.perform r
  change (b.answer r).1 = (b'.answer r).1 ∧ (b.answer r).2.Alike (b'.answer r).2
  rw [Blob.answer, Blob.answer]
  generalize Blob.perform { b with calls := b.calls.count r.method } r = x at hperformed ⊢
  generalize Blob.perform { b' with calls := b'.calls.count r.method } r = y at hperformed ⊢
  cases hperformed with
  | rejected e => exact ⟨rfl, hcounted⟩
  | done reply hafter => exact ⟨rfl, hafter⟩

end

/-! ## A request that is sent again -/

/-- A request that is rejected leaves the blob as it was. -/
theorem alike_of_error {r : Request} {b : Blob} {e : ServiceError}
    (h : (Service.answer r b).1 = .error e) : (Service.answer r b).2.Alike b := by
  change (b.answer r).1 = _ at h
  change (b.answer r).2.Alike b
  rw [answer] at h ⊢
  cases hperformed : Blob.perform { b with calls := b.calls.count r.method } r with
  | ok out => rw [hperformed] at h; cases h
  | error rejection => exact b.alike_counted _

/-- A block that is staged once more makes no difference. -/
theorem alike_again {r : Request} (hblock : r.method = .putBlock) (b : Blob) :
    (Service.answer r (Service.answer r b).2).1 = (Service.answer r b).1 ∧
      (Service.answer r (Service.answer r b).2).2.Alike (Service.answer r b).2 := by
  cases r with
  | putBlock id body =>
      cases hchecked : b.check body with
      | ok _ =>
          have hchecked' : (b.stage (id, body.payload)).check body = .ok () := hchecked
          rw [answer_putBlock_of_check hchecked, answer_putBlock_of_check hchecked']
          refine ⟨rfl, rfl, rfl, rfl, rfl, fun other => ?_⟩
          simp only [stage, stagedBlock?, List.lookup_cons]
          split <;> rfl
      | error e =>
          have hrefused : (Service.answer (.putBlock id body) b).1 = .error e.toError := by
            have hchecked' : ({ b with calls := b.calls.count .putBlock } : Blob).check body =
                .error e := hchecked
            change (b.answer _).1 = _
            rw [Blob.answer, Blob.perform, Request.method, hchecked']
            rfl
          exact (alike_of_error hrefused).answer (.putBlock id body)
  | _ => cases hblock

end BlobUpload.Blob
