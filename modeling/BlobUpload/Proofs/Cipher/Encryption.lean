import BlobUpload.Cipher.Stream

/-! # Encryption piece by piece

Encrypting a byte string piece by piece gives the same bytes as encrypting it at once
(`update_eq`), and decrypting gives the plain bytes back (`decrypt_ciphertext`). -/

namespace BlobUpload

/-! ## Cutting into blocks -/

namespace Block

theorem join_append (xs ys : List Block) : join (xs ++ ys) = join xs ++ join ys :=
  List.flatMap_append ..

theorem length_join (blocks : List Block) :
    (join blocks).length = blocks.length * cipherBlockSize := by
  induction blocks with
  | nil => rfl
  | cons block blocks ih =>
      rw [join, List.flatMap_cons, List.length_append, length_toBytes, List.length_cons,
        Nat.succ_mul, Nat.add_comm, ← ih, join]

theorem split_of_short {bytes : Bytes} (hshort : bytes.length < cipherBlockSize) :
    split bytes = ([], bytes) := by
  fun_cases split bytes with
  | case1 =>
      simp only [List.length_cons, cipherBlockSize] at hshort
      omega
  | case2 => rfl

theorem split_toBytes_append (block : Block) (bytes : Bytes) :
    split (block.toBytes ++ bytes) = (block :: (split bytes).1, (split bytes).2) := rfl

/-- Whole blocks in front are split off as they are. -/
theorem split_join_append (blocks : List Block) (bytes : Bytes) :
    split (join blocks ++ bytes) = (blocks ++ (split bytes).1, (split bytes).2) := by
  induction blocks with
  | nil => rfl
  | cons block blocks ih =>
      rw [join, List.flatMap_cons, List.append_assoc, split_toBytes_append]
      change (block :: (split (join blocks ++ bytes)).1, (split (join blocks ++ bytes)).2) = _
      rw [ih]
      rfl

theorem split_join (blocks : List Block) : split (join blocks) = (blocks, []) := by
  have hall := split_join_append blocks []
  have hshort : ([] : Bytes).length < cipherBlockSize := by decide
  rwa [List.append_nil, split_of_short hshort, List.append_nil] at hall

theorem length_split (bytes : Bytes) :
    bytes.length = (split bytes).1.length * cipherBlockSize + (split bytes).2.length := by
  rw [← length_join, ← List.length_append, join_split]

/-- Nothing is left over of a whole number of blocks. -/
theorem split_snd_of_dvd {bytes : Bytes} (hwhole : bytes.length % cipherBlockSize = 0) :
    (split bytes).2 = [] := by
  have hshort := length_split_snd bytes
  have hlength := length_split bytes
  rw [cipherBlockSize] at hwhole hshort hlength
  exact List.length_eq_zero_iff.1 (by omega)

end Block

/-! ## Chaining -/

theorem BlockCipher.chain_append (cipher : BlockCipher) (last : Block) (xs ys : List Block) :
    cipher.chain last (xs ++ ys) =
      cipher.chain last xs ++ cipher.chain ((cipher.chain last xs).getLastD last) ys := by
  induction xs generalizing last with
  | nil => rfl
  | cons x xs ih =>
      simp only [List.cons_append, chain, ih, List.getLastD_cons]

/-! ## Padding -/

namespace Padding

/-- Whole blocks in front make no difference to the padding. -/
theorem add_join_append (blocks : List Block) (data : Bytes) :
    add (Block.join blocks ++ data) = Block.join blocks ++ add data := by
  have hsame : (Block.join blocks ++ data).length % cipherBlockSize =
      data.length % cipherBlockSize := by
    rw [List.length_append, Block.length_join, Nat.add_comm, Nat.add_mul_mod_self_right]
  rw [add, add, bytes, bytes, hsame, List.append_assoc]

theorem join_split_add (data : Bytes) : Block.join (Block.split (add data)).1 = add data := by
  have hwhole : (add data).length % cipherBlockSize = 0 := by
    rw [length_add, paddedLength, Nat.mul_mod_left]
  have hjoined := Block.join_split (add data)
  rwa [Block.split_snd_of_dvd hwhole, List.append_nil] at hjoined

/-- `padded` is `data` and behind it between one and sixteen bytes that each hold their number. -/
def Pads (data padded : Bytes) : Prop :=
  ∃ n, 1 ≤ n ∧ n ≤ cipherBlockSize ∧ padded = data ++ List.replicate n n.toUInt8

theorem pads_add (data : Bytes) : Pads data (add data) := by
  have hsmall : data.length % cipherBlockSize < cipherBlockSize := Nat.mod_lt _ (by decide)
  exact ⟨cipherBlockSize - data.length % cipherBlockSize, by omega, by omega, rfl⟩

/-- Only one padding fills a byte string up to whole blocks. -/
theorem Pads.eq_add {data padded : Bytes} (h : Pads data padded)
    (hwhole : padded.length % cipherBlockSize = 0) : padded = add data := by
  obtain ⟨n, hpos, hle, rfl⟩ := h
  rw [List.length_append, List.length_replicate] at hwhole
  have hsame : n = cipherBlockSize - data.length % cipherBlockSize := by
    rw [cipherBlockSize] at hle hwhole ⊢
    omega
  rw [add, bytes, ← hsame]

/-- All bytes of a padding are looked at before it is removed. -/
theorem remove?_eq_some_iff {data padded : Bytes} :
    remove? padded = some data ↔ Pads data padded := by
  constructor
  · intro h
    cases hlast : padded.getLast? with
    | none => simp [remove?, hlast] at h
    | some byte =>
        simp only [remove?, hlast, bind, Option.bind, Option.ite_none_right_eq_some,
          Option.some.injEq] at h
        obtain ⟨⟨hpos, hle, -, hpadding⟩, rfl⟩ := h
        refine ⟨byte.toNat, hpos, hle, ?_⟩
        rw [← hpadding, List.take_append_drop]
  · rintro ⟨n, hpos, hle, rfl⟩
    have hvalue : n.toUInt8.toNat = n := by
      rw [cipherBlockSize] at hle
      exact Nat.mod_eq_of_lt (by omega)
    have hlast : (data ++ List.replicate n n.toUInt8).getLast? = some n.toUInt8 := by
      rw [List.getLast?_append, List.getLast?_replicate, if_neg (by omega)]
      rfl
    rw [remove?, hlast]
    simp only [bind, Option.bind, hvalue, List.length_append, List.length_replicate,
      Nat.add_sub_cancel]
    rw [List.drop_left, List.take_left, if_pos ⟨hpos, hle, by omega, rfl⟩]

theorem remove?_add (data : Bytes) : remove? (add data) = some data :=
  remove?_eq_some_iff.2 (pads_add data)

end Padding

/-! ## A stream as a whole -/

namespace CipherStream

/-- What a stream answers when it is finalized with `data`. -/
def ciphertext (s : CipherStream) (data : Bytes) : Bytes :=
  (s.emit (Block.split (Padding.add (s.pending ++ data))).1).1

theorem finalize_eq {s : CipherStream} (hfresh : s.finalized = false) (data : Bytes) :
    ∃ s', s.finalize data = (.ok (s.ciphertext data), s') ∧ s'.finalized = true := by
  rw [finalize, if_neg (by simp [hfresh])]
  exact ⟨_, rfl, rfl⟩

/-- Updating a stream takes a piece off the front of what it answers in the end. -/
theorem update_eq {s : CipherStream} (hfresh : s.finalized = false) (data : Bytes) :
    ∃ out s', s.update data = (.ok out, s') ∧ s'.finalized = false ∧
      ∀ rest, out ++ s'.ciphertext rest = s.ciphertext (data ++ rest) := by
  rw [update, if_neg (by simp [hfresh])]
  refine ⟨_, _, rfl, hfresh, fun rest => ?_⟩
  have hwhole : s.pending ++ (data ++ rest) = Block.join (Block.split (s.pending ++ data)).1 ++
      ((Block.split (s.pending ++ data)).2 ++ rest) := by
    rw [← List.append_assoc, ← List.append_assoc, Block.join_split]
  simp only [ciphertext, emit]
  rw [hwhole, Padding.add_join_append, Block.split_join_append, BlockCipher.chain_append,
    Block.join_append]

theorem length_ciphertext (s : CipherStream) (data : Bytes) :
    (s.ciphertext data).length = Padding.paddedLength (s.pending.length + data.length) := by
  rw [ciphertext, emit, Block.length_join, BlockCipher.length_chain, ← List.length_append,
    ← Padding.length_add, ← Padding.join_split_add, Block.length_join, Padding.join_split_add]

theorem ciphertext_ne_nil (s : CipherStream) (data : Bytes) : s.ciphertext data ≠ [] := by
  rw [← List.length_pos_iff, length_ciphertext, Padding.paddedLength]
  exact Nat.mul_pos (Nat.succ_pos _) (by decide)

end CipherStream

/-- What was encrypted at once under a content key decrypts to itself. -/
theorem ContentKey.decrypt_ciphertext (k : ContentKey) (data : Bytes) :
    k.decrypt (k.stream.ciphertext data) = .ok data := by
  rw [decrypt, CipherStream.ciphertext, CipherStream.emit, stream, List.nil_append]
  simp only [Block.split_join, BlockCipher.unchain_chain, Padding.join_split_add,
    Padding.remove?_add]

end BlobUpload
