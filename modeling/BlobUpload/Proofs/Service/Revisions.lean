import BlobUpload.Proofs.Service.Effects

/-! # ETags tell blobs apart

An ETag shows how often the content has been replaced. No request takes that back, so a blob that
has the ETag it had before has not been replaced in between, whoever asked it for what. -/

namespace BlobUpload

/-! ## Hexadecimal numerals -/

namespace Numeral

/-- The value of an upper-case hexadecimal digit. -/
def hexDigit (c : Char) : Nat := if c.isDigit then c.toNat - '0'.toNat else c.toNat - 'A'.toNat + 10

/-- The number that upper-case hexadecimal digits stand for, behind `n`. -/
def ofHex (n : Nat) (cs : List Char) : Nat := cs.foldl (fun n c => 16 * n + hexDigit c) n

theorem hexDigit_toUpper_digitChar {d : Nat} (hsmall : d < 16) :
    hexDigit d.digitChar.toUpper = d := by
  revert d
  decide

theorem ofHex_toDigits (n : Nat) : ofHex 0 ((Nat.toDigits 16 n).map Char.toUpper) = n := by
  induction n using Nat.strongRecOn with
  | ind n ih =>
      rcases Nat.lt_or_ge n 16 with hsmall | hlarge
      · rw [Nat.toDigits_of_lt_base hsmall]
        exact (Nat.zero_add _).trans (hexDigit_toUpper_digitChar hsmall)
      · have hlast : n % 16 < 16 := Nat.mod_lt _ (by decide)
        have hfront := ih (n / 16) (Nat.div_lt_self (by omega) (by decide))
        rw [Nat.toDigits_of_base_le (by decide) hlarge, List.map_append, ofHex, List.foldl_append]
        rw [ofHex] at hfront
        rw [hfront]
        simp only [List.map_cons, List.map_nil, List.foldl_cons, List.foldl_nil,
          hexDigit_toUpper_digitChar hlast]
        exact Nat.div_add_mod n 16

/-- Zeros in front make no difference. -/
theorem ofHex_padded (width n : Nat) :
    ofHex 0 ((padded 16 width n).map Char.toUpper) = n := by
  have hzeros (k : Nat) : ofHex 0 ((List.replicate k '0').map Char.toUpper) = 0 := by
    induction k with
    | zero => rfl
    | succ k ih => exact ih
  rw [padded, List.leftpad, List.map_append, ofHex, List.foldl_append]
  exact (congrArg (ofHex · _) (hzeros _)).trans (ofHex_toDigits n)

end Numeral

/-- Different revisions have different ETags. -/
theorem etagOf_injective {m n : Nat} (h : etagOf m = etagOf n) : m = n := by
  have hdigits := List.append_cancel_left (List.append_cancel_right (String.ofList_injective h))
  rw [← Numeral.ofHex_padded 16 m, hdigits, Numeral.ofHex_padded]

namespace Blob

variable {b after : Blob} {r : Request} {rs : List Request}

/-! ## One request -/

/-- A request leaves content and ETag as they are, or moves on to the next ETag. -/
theorem revision_answer (r : Request) (b : Blob) :
    (Service.answer r b).2.content = b.content ∧ (Service.answer r b).2.revision = b.revision ∨
      (Service.answer r b).2.revision = b.revision + 1 := by
  have heffect := effect_answer r b
  generalize (Service.answer r b).1 = answer at heffect
  generalize (Service.answer r b).2 = after at heffect
  cases heffect with
  | rejected | staged => exact .inl ⟨rfl, rfl⟩
  | _ => exact .inr rfl

/-- Pages that are written lie over what was there before, and were meant for that ETag. -/
theorem of_answer_updatePage {first last : Nat} {body : Body} {ifMatch : Option String}
    {etag : String}
    (hanswered : Service.answer (.updatePage first last body ifMatch) b = (.ok etag, after)) :
    after.content = b.content.overlay first body.payload ∧ after.revision = b.revision + 1 ∧
      etag = after.etag ∧ ∀ expected, ifMatch = some expected → expected = b.etag := by
  have heffect := effect_answer (.updatePage first last body ifMatch) b
  rw [hanswered] at heffect
  cases heffect with | painted _ hpages => ?_
  refine ⟨rfl, rfl, rfl, ?_⟩
  rintro expected rfl
  unfold checkPages at hpages
  split at hpages
  · cases hpages
  split at hpages
  · cases hpages
  refine Decidable.byContradiction fun hstale => ?_
  have hrefused : (if expected ≠ b.etag then Except.error (Rejection.staleETag expected)
    else .ok ()) = .ok () := hpages
  rw [if_pos hstale] at hrefused
  cases hrefused

/-! ## Many requests -/

theorem revision_le_after (b : Blob) (rs : List Request) :
    b.revision ≤ (Service.after b rs).revision := by
  induction rs generalizing b with
  | nil => exact Nat.le_refl _
  | cons r rs ih =>
      refine Nat.le_trans ?_ (ih (Service.answer r b).2)
      rcases revision_answer r b with ⟨-, hsame⟩ | hnext <;> omega

/-- At no time while these requests are carried out are the content or the ETag others than
before. -/
def Untouched (b : Blob) (rs : List Request) : Prop :=
  ∀ qs, qs <+: rs →
    (Service.after b qs).content = b.content ∧ (Service.after b qs).etag = b.etag

/-- A blob that has kept its ETag has not been touched. -/
theorem untouched_of_revision (hsame : (Service.after b rs).revision = b.revision) :
    b.Untouched rs := by
  induction rs generalizing b with
  | nil =>
      intro qs hfront
      rw [List.prefix_nil.1 hfront]
      exact ⟨rfl, rfl⟩
  | cons r rs ih =>
      have hrest := revision_le_after (Service.answer r b).2 rs
      have hlater : (Service.after (Service.answer r b).2 rs).revision = b.revision := hsame
      rcases revision_answer r b with ⟨hcontent, hstill⟩ | hnext
      · intro qs hfront
        cases qs with
        | nil => exact ⟨rfl, rfl⟩
        | cons q qs =>
            obtain ⟨rfl, hfront'⟩ := List.cons_prefix_cons.1 hfront
            obtain ⟨hcontent', hetag'⟩ := ih (hlater.trans hstill.symm) qs hfront'
            exact ⟨hcontent'.trans hcontent, hetag'.trans (congrArg etagOf hstill)⟩
      · omega

end Blob

end BlobUpload
