import BlobUpload.Proofs.Cipher.Encryption

/-! # What decryption accepts

A byte string decrypts exactly if it is the encryption of something, and then to that
(`decrypt_accepts_encryptions`): encrypting at once and decrypting are inverse to each other, and
whatever is no encryption is refused. -/

namespace BlobUpload.ContentKey

/-- The plain bytes of the whole blocks of a byte string, with their padding. -/
def unchained (k : ContentKey) (ciphertext : Bytes) : Bytes :=
  Block.join ((AES.cipher k.key).unchain k.iv (Block.split ciphertext).1)

theorem decrypt_of_partial {k : ContentKey} {c : Bytes} (h : c.length % cipherBlockSize ≠ 0) :
    k.decrypt c = .error .partialBlock := by
  rw [decrypt]
  split
  · rename_i blocks hsplit
    have hlength := Block.length_split c
    rw [hsplit, List.length_nil, Nat.add_zero] at hlength
    exact absurd (by rw [hlength, Nat.mul_mod_left]) h
  · rfl

theorem decrypt_of_whole {k : ContentKey} {c : Bytes} (hwhole : c.length % cipherBlockSize = 0) :
    k.decrypt c = match Padding.remove? (k.unchained c) with
      | some plain => .ok plain
      | none => .error .badPadding := by
  have hsplit : Block.split c = ((Block.split c).1, []) :=
    Prod.ext rfl (Block.split_snd_of_dvd hwhole)
  rw [decrypt, hsplit]
  rfl

/-- A padded byte string in whole blocks comes from the encryption of what was padded. -/
theorem ciphertext_of_pads {k : ContentKey} {c p : Bytes} (hwhole : c.length % cipherBlockSize = 0)
    (hpads : Padding.Pads p (k.unchained c)) : k.stream.ciphertext p = c := by
  have hpadded : k.unchained c = Padding.add p := by
    apply hpads.eq_add
    rw [unchained, Block.length_join, Nat.mul_mod_left]
  have hplain : (Block.split (Padding.add p)).1 =
      (AES.cipher k.key).unchain k.iv (Block.split c).1 := by
    rw [← hpadded, unchained, Block.split_join]
  have hjoined := Block.join_split c
  rw [Block.split_snd_of_dvd hwhole, List.append_nil] at hjoined
  calc k.stream.ciphertext p
      = Block.join ((AES.cipher k.key).chain k.iv (Block.split (Padding.add p)).1) := rfl
    _ = Block.join (Block.split c).1 := by rw [hplain, BlockCipher.chain_unchain]
    _ = c := hjoined

/-- A byte string is accepted if and only if it is an encryption. -/
theorem decrypt_eq_ok_iff {k : ContentKey} {c p : Bytes} :
    k.decrypt c = .ok p ↔ k.stream.ciphertext p = c := by
  constructor
  · intro haccepted
    by_cases hwhole : c.length % cipherBlockSize = 0
    · rw [decrypt_of_whole hwhole] at haccepted
      cases hremoved : Padding.remove? (k.unchained c) with
      | none => simp [hremoved] at haccepted
      | some plain =>
          simp only [hremoved, Except.ok.injEq] at haccepted
          exact ciphertext_of_pads hwhole (haccepted ▸ Padding.remove?_eq_some_iff.1 hremoved)
    · rw [decrypt_of_partial hwhole] at haccepted
      cases haccepted
  · rintro rfl
    exact k.decrypt_ciphertext p

/-- Whole blocks are refused if and only if they do not end in a padding. -/
theorem decrypt_eq_badPadding_iff {k : ContentKey} {c : Bytes}
    (hwhole : c.length % cipherBlockSize = 0) :
    k.decrypt c = .error .badPadding ↔ ∀ p, ¬Padding.Pads p (k.unchained c) := by
  rw [decrypt_of_whole hwhole]
  simp only [← Padding.remove?_eq_some_iff]
  cases Padding.remove? (k.unchained c) <;> simp

theorem not_pads_nil (p : Bytes) : ¬Padding.Pads p [] := by
  rintro ⟨n, hpos, -, hempty⟩
  simp only [List.nil_eq, List.append_eq_nil_iff, List.replicate_eq_nil_iff] at hempty
  omega

/-- Decryption accepts the encryptions, each as what was encrypted, and nothing else: neither a
broken block nor whole blocks, nor the empty byte string, that do not end in a padding. No plain
bytes have two encryptions. -/
theorem decrypt_accepts_encryptions (k : ContentKey) (c : Bytes) :
    (∀ p, k.decrypt c = .ok p ↔ (k.stream.finalize p).1 = .ok c) ∧
    (k.decrypt c = .error .partialBlock ↔ c.length % cipherBlockSize ≠ 0) ∧
    (k.decrypt c = .error .badPadding ↔
      c.length % cipherBlockSize = 0 ∧ ∀ p, ¬Padding.Pads p (k.unchained c)) ∧
    k.decrypt [] = .error .badPadding ∧
    ((∃ p, k.decrypt c = .ok p) ∨ k.decrypt c = .error .partialBlock ∨
      k.decrypt c = .error .badPadding) ∧
    ∀ c' p, k.decrypt c = .ok p → k.decrypt c' = .ok p → c = c' := by
  have hempty : k.decrypt [] = .error .badPadding :=
    (decrypt_eq_badPadding_iff rfl).2 not_pads_nil
  refine ⟨?accepted, ?broken, ?unpadded, hempty, ?exhaustive, ?injective⟩
  case accepted =>
    intro p
    obtain ⟨_, hfinalize, -⟩ := CipherStream.finalize_eq (s := k.stream) rfl p
    rw [decrypt_eq_ok_iff, hfinalize, Except.ok.injEq]
  case broken =>
    refine ⟨fun hrefused hwhole => ?_, decrypt_of_partial⟩
    rw [decrypt_of_whole hwhole] at hrefused
    cases hremoved : Padding.remove? (k.unchained c) <;> simp [hremoved] at hrefused
  case unpadded =>
    by_cases hwhole : c.length % cipherBlockSize = 0
    · simp [decrypt_eq_badPadding_iff hwhole, hwhole]
    · simp [decrypt_of_partial hwhole, hwhole]
  case exhaustive =>
    by_cases hwhole : c.length % cipherBlockSize = 0
    · rw [decrypt_of_whole hwhole]
      cases Padding.remove? (k.unchained c) <;> simp
    · exact .inr (.inl (decrypt_of_partial hwhole))
  case injective =>
    intro c' p haccepted haccepted'
    exact (decrypt_eq_ok_iff.1 haccepted).symm.trans (decrypt_eq_ok_iff.1 haccepted')

end BlobUpload.ContentKey
