/-! # Byte strings -/

namespace BlobUpload

/-- A byte string, first byte first. -/
abbrev Bytes := List UInt8

namespace Bytes

/-- The bytes of a text that holds ASCII characters only. -/
def ofAscii (text : List Char) : Bytes := text.map fun c => c.toNat.toUInt8

/-- `base` with `patch` written over it from `start` on. The result grows as far as the patch
reaches, and a gap between the end of `base` and `start` holds zero bytes. -/
def overlay (base : Bytes) (start : Nat) (patch : Bytes) : Bytes :=
  base.take start ++
    (List.replicate (start - base.length) 0 ++ (patch ++ base.drop (start + patch.length)))

theorem length_overlay (base patch : Bytes) (start : Nat) :
    (base.overlay start patch).length = max base.length (start + patch.length) := by
  simp only [overlay, List.length_append, List.length_take, List.length_replicate,
    List.length_drop]
  omega

/-- A patch right behind `front` takes the place of as many bytes behind it. -/
theorem overlay_behind (front rest patch : Bytes) :
    (front ++ rest).overlay front.length patch = front ++ (patch ++ rest.drop patch.length) := by
  have hnone : front.length - (front ++ rest).length = 0 := by
    rw [List.length_append]
    omega
  rw [overlay, hnone, List.take_left, ← List.drop_drop, List.drop_left]
  rfl

end Bytes

end BlobUpload
