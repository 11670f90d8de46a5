import BlobUpload.Digest.MD5
import BlobUpload.Text.Base64

/-! # Integrity values of payloads -/

namespace BlobUpload

/-- The MD5 digest that a request carries so that the service can check its payload. -/
structure ContentMD5 where
  digest : Bytes
  deriving DecidableEq, Repr

namespace ContentMD5

def compute (payload : Bytes) : ContentMD5 := ⟨MD5.digest payload⟩

/-- The form in which a request carries it: the digest in Base64. -/
def text (m : ContentMD5) : String := String.ofList (Base64.encode m.digest)

end ContentMD5

end BlobUpload
