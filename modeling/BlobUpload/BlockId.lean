import BlobUpload.Text.Base64
import BlobUpload.Text.Numeral

/-! # Ids of staged blocks

A block is staged under an id that only depends on its offset: all ids of a blob have the same
length, and a block that is sent twice is staged under one id.
-/

namespace BlobUpload

/-- Number of digits of an offset in a block id. -/
def blockIdDigits : Nat := 32

/-- The id of the block at `offset`: its decimal digits in Base64. -/
def blockId (offset : Nat) : String :=
  String.ofList (Base64.encode (Bytes.ofAscii (Numeral.padded 10 blockIdDigits offset)))

end BlobUpload
