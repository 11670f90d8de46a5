import BlobUpload.Proofs.Session.SendEquations

/-! # A cipher never fails an upload

Sending has errors of its own, for chunks that break a rule, requests that fail and uploads that are
aborted. Any other error comes from cutting the source. A cutter takes care not to use its cipher
once that is finalized, so the error is that of the source. -/

namespace BlobUpload

def UploadError.isEncoding : UploadError → Bool
  | .encoding _ => true
  | _ => false

theorem Cutter.isEncoding_of_mem_toList {ρ : Type} [Reader ρ] {k : Cutter} {r : ρ}
    (hfresh : k.Fresh) {e : UploadError} (hmem : .error e ∈ (k.toList r).1) :
    e.isEncoding = false := by
  obtain ⟨offset, cause, rfl⟩ := source_of_mem_toList hfresh hmem
  rfl

/-- Every encryption begins with a cipher that has not been used. -/
theorem Settings.fresh_cutter (s : Settings) (length : Option Nat) : (s.cutter length).Fresh := by
  intro _ stream hcipher
  obtain ⟨key, -, rfl⟩ := Option.map_eq_some_iff.1 hcipher
  rfl

section

variable {σ : Type} [Service σ] {s : Session σ} {e : UploadError}

theorem Writer.isEncoding_of_check {w : Writer} {c : Chunk} (hunfit : w.check c = .error e) :
    e.isEncoding = false := by
  rw [check] at hunfit
  split at hunfit
  · cases hunfit
    rfl
  · cases hunfit

theorem isEncoding_of_deliver {offset retries sent : Nat} {r : Request} {s : σ}
    (hfailed : (deliver offset r retries sent s).1 = .error e) : e.isEncoding = false := by
  fun_induction deliver offset r retries sent s with
  | case1 => cases hfailed
  | case2 => cases hfailed; rfl
  | case3 => cases hfailed; rfl
  | case4 _ _ _ _ _ _ _ ih => exact ih hfailed

omit [Service σ] in
theorem Session.isEncoding_of_checkAbort {offset : Nat}
    (hrefused : (s.checkAbort offset).1 = .error e) : e.isEncoding = false := by
  simp only [checkAbort] at hrefused
  split at hrefused
  · cases hrefused
    rfl
  · cases hrefused

theorem Session.isEncoding_of_send {c : Chunk} (hfailed : (s.send c).1 = .error e) :
    e.isEncoding = false := by
  cases hchecked : s.writer.check c with
  | error e' =>
      rw [send_of_unfit hchecked] at hfailed
      cases hfailed
      exact Writer.isEncoding_of_check hchecked
  | ok _ =>
      match hdelivered : BlobUpload.deliver c.offset (s.writer.request c) s.settings.maxRetries 0
          s.service with
      | (.error e', service) =>
          rw [send_of_failed hchecked hdelivered] at hfailed
          cases hfailed
          exact isEncoding_of_deliver (congrArg Prod.fst hdelivered)
      | (.ok reply, service) =>
          rw [send_of_delivered hchecked hdelivered] at hfailed
          cases hfailed

/-- What stops the sending of a list is on the list, or it is not about encoding. -/
theorem isEncoding_of_sendEach {answers : List (Except UploadError Chunk)}
    (hfailed : (sendEach answers s).1 = .error e) : .error e ∈ answers ∨ e.isEncoding = false := by
  fun_induction sendEach answers s with
  | case1 s => cases hfailed
  | case2 e' answers s =>
      cases hfailed
      exact .inl List.mem_cons_self
  | case3 c answers s e' s₁ hrefused =>
      cases hfailed
      exact .inr (Session.isEncoding_of_checkAbort (congrArg Prod.fst hrefused))
  | case4 c answers s s₁ hclear e' s₂ hunsent =>
      cases hfailed
      exact .inr (Session.isEncoding_of_send (congrArg Prod.fst hunsent))
  | case5 => cases hfailed
  | case6 c answers s s₁ hclear token s₂ hsent e' s₃ hrest ih =>
      rw [hrest] at ih
      exact (ih hfailed).imp_left (List.mem_cons_of_mem _)

theorem mem_of_joinAll {answers : List (Except UploadError Chunk)}
    (hfailed : joinAll answers = .error e) : .error e ∈ answers := by
  induction answers with
  | nil => cases hfailed
  | cons answer answers ih =>
      cases answer with
      | error e' =>
          cases hfailed
          exact List.mem_cons_self
      | ok c =>
          rw [joinAll] at hfailed
          split at hfailed
          · cases hfailed
          · rename_i hrest
            cases hfailed
            exact List.mem_cons_of_mem _ (ih hrest)

theorem isEncoding_of_sendWhole {k : Cutter} {source : Source} (hfresh : k.Fresh)
    (hfailed : (sendWhole k source s).1 = .error e) : e.isEncoding = false := by
  match hgathered : gather k source with
  | (.error e', source') =>
      rw [sendWhole_of_ungathered hgathered] at hfailed
      cases hfailed
      have hjoined := gather_eq_joinAll k source
      rw [hgathered] at hjoined
      exact Cutter.isEncoding_of_mem_toList hfresh (mem_of_joinAll hjoined.symm)
  | (.ok payload, source') =>
      match hlooked : s.checkAbort 0 with
      | (.error e', s₁) =>
          rw [sendWhole_of_aborted hgathered hlooked] at hfailed
          cases hfailed
          exact Session.isEncoding_of_checkAbort (congrArg Prod.fst hlooked)
      | (.ok (), s₁) =>
          match hdelivered : deliver 0 (.putBlob (s₁.settings.envelope.body payload))
              s₁.settings.maxRetries 0 s₁.service with
          | (.error e', service) =>
              rw [sendWhole_of_failed hgathered hlooked hdelivered] at hfailed
              cases hfailed
              exact isEncoding_of_deliver (congrArg Prod.fst hdelivered)
          | (.ok etag, service) =>
              rw [sendWhole_of_put hgathered hlooked hdelivered] at hfailed
              cases hfailed

theorem Session.isEncoding_of_commit {tokens : List Token}
    (hfailed : (s.commit tokens).1 = .error e) : e.isEncoding = false := by
  rw [commit] at hfailed
  split at hfailed
  · cases hfailed
  split at hfailed
  · cases hfailed
    rfl
  · cases hfailed

end

end BlobUpload
