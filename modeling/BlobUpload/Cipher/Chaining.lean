import BlobUpload.Cipher.Block
import BlobUpload.Offset

/-! # Cipher block chaining and padding

Each plain block is combined with the cipher block before it, the first with the initialization
vector. Padding fills a byte string up to whole blocks with between one and sixteen bytes that each
hold their number.
-/

namespace BlobUpload

namespace BlockCipher

/-- The cipher blocks of a list of plain blocks, chained to `last`. -/
def chain (cipher : BlockCipher) : (last : Block) → List Block → List Block
  | _, [] => []
  | last, block :: rest =>
    let out := cipher.encrypt (block ^^^ last)
    out :: chain cipher out rest

/-- The plain blocks of a list of cipher blocks, chained to `last`. -/
def unchain (cipher : BlockCipher) : (last : Block) → List Block → List Block
  | _, [] => []
  | last, block :: rest => (cipher.decrypt block ^^^ last) :: unchain cipher block rest

theorem length_chain (cipher : BlockCipher) (last : Block) (blocks : List Block) :
    (cipher.chain last blocks).length = blocks.length := by
  induction blocks generalizing last with
  | nil => rfl
  | cons block rest ih => simp [chain, ih]

theorem unchain_chain (cipher : BlockCipher) (last : Block) (blocks : List Block) :
    cipher.unchain last (cipher.chain last blocks) = blocks := by
  induction blocks generalizing last with
  | nil => rfl
  | cons block rest ih =>
    simp [chain, unchain, ih, cipher.decrypt_encrypt, Block.xor_xor_cancel_right]

theorem chain_unchain (cipher : BlockCipher) (last : Block) (blocks : List Block) :
    cipher.chain last (cipher.unchain last blocks) = blocks := by
  induction blocks generalizing last with
  | nil => rfl
  | cons block rest ih =>
    simp [chain, unchain, ih, cipher.encrypt_decrypt, Block.xor_xor_cancel_right]

end BlockCipher

namespace Padding

/-- The padding behind `length` bytes. -/
def bytes (length : Nat) : Bytes :=
  let n := cipherBlockSize - length % cipherBlockSize
  List.replicate n n.toUInt8

def add (data : Bytes) : Bytes := data ++ bytes data.length

/-- Length of `length` bytes with their padding: at least one byte of it, in whole blocks. -/
def paddedLength (length : Nat) : Nat := (length / cipherBlockSize + 1) * cipherBlockSize

/-- A byte string without its padding, if it ends in one. -/
def remove? (padded : Bytes) : Option Bytes := do
  let n := (← padded.getLast?).toNat
  let body := padded.length - n
  if 1 ≤ n ∧ n ≤ cipherBlockSize ∧ n ≤ padded.length ∧
      padded.drop body = List.replicate n n.toUInt8 then
    some (padded.take body)
  else
    none

end Padding

theorem Padding.length_add (data : Bytes) :
    (Padding.add data).length = paddedLength data.length := by
  simp only [add, bytes, paddedLength, List.length_append, List.length_replicate, cipherBlockSize]
  omega

/-- Length of the encryption of `length` bytes, in 64 bits. -/
def encryptedLength (length : Nat) : Nat := Offset.wrap (Padding.paddedLength length)

theorem encryptedLength_of_lt {length : Nat} (h : length + cipherBlockSize < UInt64.size) :
    encryptedLength length = Padding.paddedLength length := by
  apply Offset.wrap_of_lt
  simp only [Padding.paddedLength, cipherBlockSize] at h ⊢
  omega

end BlobUpload
