import BlobUpload.Proofs.Cipher.Encryption

/-! # One encryption, however it is cut

What a cipher stream answers to pieces of any lengths is, put together, the chained encryption of
the padded whole (`encrypts_updateEach`). In between it holds back less than a block, and once it is
finalized it answers nothing any more. -/

namespace BlobUpload

/-! ## Chained encryption, said without computing it -/

/-- `out` is the chained encryption of the padded bytes: each cipher block is the encryption of its
plain block combined with the cipher block before it, the first one with `iv`. -/
def BlockCipher.Encrypts (cipher : BlockCipher) (iv : Block) (data out : Bytes) : Prop :=
  ∃ plain chained,
    Padding.Pads data (Block.join plain) ∧
    chained = List.zipWith (fun block before => cipher.encrypt (block ^^^ before)) plain
      (iv :: chained) ∧
    out = Block.join chained

namespace BlockCipher

theorem chain_eq_zipWith (cipher : BlockCipher) (iv : Block) (plain : List Block) :
    cipher.chain iv plain =
      List.zipWith (fun block before => cipher.encrypt (block ^^^ before)) plain
        (iv :: cipher.chain iv plain) := by
  induction plain generalizing iv with
  | nil => rfl
  | cons block rest ih =>
      rw [chain, List.zipWith_cons_cons, ← ih]

/-- A stream of this cipher at the beginning of a blob. -/
def stream (cipher : BlockCipher) (iv : Block) : CipherStream := { cipher, last := iv }

theorem encrypts_ciphertext (cipher : BlockCipher) (iv : Block) (data : Bytes) :
    cipher.Encrypts iv data ((cipher.stream iv).ciphertext data) := by
  refine ⟨(Block.split (Padding.add data)).1, cipher.chain iv (Block.split (Padding.add data)).1,
    ?_, cipher.chain_eq_zipWith iv _, rfl⟩
  rw [Padding.join_split_add]
  exact Padding.pads_add data

end BlockCipher

/-! ## Pieces -/

namespace CipherStream

/-- Feeds a stream one piece after another: its answers, and the stream behind them. -/
def updateEach (s : CipherStream) : List Bytes → List (Except CipherError Bytes) × CipherStream
  | [] => ([], s)
  | piece :: pieces =>
      let (answer, s') := s.update piece
      let (answers, last) := s'.updateEach pieces
      (answer :: answers, last)

/-- An update answers the whole blocks of what is there, and holds back the rest. -/
theorem update_of_unfinalized {s : CipherStream} (hfresh : s.finalized = false) (piece : Bytes) :
    ∃ out s', s.update piece = (.ok out, s') ∧ out.length % cipherBlockSize = 0 ∧
      s'.finalized = false ∧ s'.pending.length < cipherBlockSize ∧
      out.length + s'.pending.length = s.pending.length + piece.length ∧
      ∀ rest, out ++ s'.ciphertext rest = s.ciphertext (piece ++ rest) := by
  obtain ⟨out, s', hupdate, hfresh', hlaw⟩ := update_eq hfresh piece
  refine ⟨out, s', hupdate, ?_⟩
  have hsplit := Block.length_split (s.pending ++ piece)
  simp only [CipherStream.update, hfresh, emit, Bool.false_eq_true, if_false, Prod.mk.injEq,
    Except.ok.injEq] at hupdate
  obtain ⟨rfl, rfl⟩ := hupdate
  rw [Block.length_join, Nat.mul_mod_left]
  refine ⟨rfl, hfresh', Block.length_split_snd _, ?_, hlaw⟩
  rw [BlockCipher.length_chain, ← hsplit, List.length_append]

/-- However many pieces were fed, what came out and what is held back are as long as they are, and
the rest of the encryption is still to come. -/
theorem updateEach_of_unfinalized {s : CipherStream} (hfresh : s.finalized = false)
    (hshort : s.pending.length < cipherBlockSize) (pieces : List Bytes) :
    ∃ (outs : List Bytes) (s' : CipherStream),
      s.updateEach pieces = (outs.map .ok, s') ∧ s'.finalized = false ∧
      s'.pending.length < cipherBlockSize ∧
      outs.flatten.length + s'.pending.length = s.pending.length + pieces.flatten.length ∧
      ∀ rest, outs.flatten ++ s'.ciphertext rest = s.ciphertext (pieces.flatten ++ rest) := by
  induction pieces generalizing s with
  | nil => exact ⟨[], s, rfl, hfresh, hshort, by simp, fun rest => rfl⟩
  | cons piece pieces ih =>
      obtain ⟨out, s₁, hupdate, -, hfresh₁, hshort₁, hcount₁, hlaw₁⟩ :=
        update_of_unfinalized hfresh piece
      obtain ⟨outs, s', hupdates, hfresh', hshort', hcount, hlaw⟩ := ih hfresh₁ hshort₁
      refine ⟨out :: outs, s', ?_, hfresh', hshort', ?_, ?_⟩
      · simp [updateEach, hupdate, hupdates]
      · simp only [List.flatten_cons, List.length_append]
        omega
      · intro rest
        simp only [List.flatten_cons, List.append_assoc]
        rw [hlaw, hlaw₁]

/-- A finalized stream refuses everything, and a refusal changes nothing. -/
theorem refuses_of_finalized {s : CipherStream} (hused : s.finalized = true) (data : Bytes) :
    s.update data = (.error .finalized, s) ∧ s.finalize data = (.error .finalized, s) := by
  simp [update, finalize, hused]

/-- An update that is answered finds a stream to go on with. -/
theorem of_update {s s' : CipherStream} {piece out : Bytes}
    (hstep : s.update piece = (.ok out, s')) :
    out.length % cipherBlockSize = 0 ∧ s'.finalized = false ∧
      s'.pending.length < cipherBlockSize ∧
      out.length + s'.pending.length = s.pending.length + piece.length ∧
      ∀ rest, out ++ s'.ciphertext rest = s.ciphertext (piece ++ rest) := by
  cases hfresh : s.finalized with
  | true =>
      rw [(refuses_of_finalized hfresh piece).1] at hstep
      cases hstep
  | false =>
      obtain ⟨out₁, s₁, hupdate, hfacts⟩ := update_of_unfinalized hfresh piece
      rw [hupdate] at hstep
      cases hstep
      exact hfacts

/-- A stream that is finalized answers the rest of its encryption, and is used up. -/
theorem of_finalize {s used : CipherStream} {rest final : Bytes}
    (hstep : s.finalize rest = (.ok final, used)) :
    final = s.ciphertext rest ∧ used.finalized = true := by
  cases hfresh : s.finalized with
  | true =>
      rw [(refuses_of_finalized hfresh rest).2] at hstep
      cases hstep
  | false =>
      obtain ⟨used₁, hfinalize, hfinalized⟩ := finalize_eq hfresh rest
      rw [hfinalize] at hstep
      cases hstep
      exact ⟨rfl, hfinalized⟩

/-- Cut into pieces in any way, a byte string is encrypted to the same bytes as at once, which are
its chained encryption, whatever the block cipher and its key. Behind every update less than a
block is held back, and nothing is lost; finalizing answers a block at least, and from then on
everything is refused. -/
theorem encrypts_updateEach (cipher : BlockCipher) (iv : Block) (pieces : List Bytes)
    (last : Bytes) :
    ∃ (outs : List Bytes) (s : CipherStream) (final : Bytes) (used : CipherStream),
      (cipher.stream iv).updateEach pieces = (outs.map .ok, s) ∧
      s.pending.length < cipherBlockSize ∧
      outs.flatten.length + s.pending.length = pieces.flatten.length ∧
      s.finalize last = (.ok final, used) ∧
      cipherBlockSize ≤ final.length ∧
      ((cipher.stream iv).finalize (pieces.flatten ++ last)).1 = .ok (outs.flatten ++ final) ∧
      cipher.Encrypts iv (pieces.flatten ++ last) (outs.flatten ++ final) ∧
      (outs.flatten ++ final).length = Padding.paddedLength (pieces.flatten ++ last).length ∧
      encryptedLength (pieces.flatten ++ last).length = Offset.wrap (outs.flatten ++ final).length ∧
      ∀ data, used.update data = (.error .finalized, used) ∧
        used.finalize data = (.error .finalized, used) := by
  obtain ⟨outs, s, hupdates, hfresh, hshort, hcount, hlaw⟩ :=
    updateEach_of_unfinalized (s := cipher.stream iv) rfl (Nat.succ_pos 15) pieces
  obtain ⟨used, hfinalize, hfinalized⟩ := finalize_eq hfresh last
  obtain ⟨whole, hatOnce, -⟩ :=
    finalize_eq (s := cipher.stream iv) rfl (pieces.flatten ++ last)
  have hlength : (outs.flatten ++ s.ciphertext last).length =
      Padding.paddedLength (pieces.flatten ++ last).length := by
    rw [hlaw, length_ciphertext]
    simp [BlockCipher.stream]
  refine ⟨outs, s, s.ciphertext last, used, hupdates, hshort, ?_, hfinalize, ?_, ?_, ?_, hlength,
    congrArg Offset.wrap hlength.symm, refuses_of_finalized hfinalized⟩
  · simpa [BlockCipher.stream] using hcount
  · rw [length_ciphertext, Padding.paddedLength]
    exact Nat.le_mul_of_pos_left _ (Nat.succ_pos _)
  · rw [hatOnce, hlaw]
  · rw [hlaw]
    exact cipher.encrypts_ciphertext iv _

end CipherStream

end BlobUpload
