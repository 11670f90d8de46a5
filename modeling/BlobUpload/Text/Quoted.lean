import BlobUpload.Text.Printable

/-! # Quoted texts

A text between double quotes. A backslash stands before a quote and a backslash, the control
characters with a letter of their own are written with it, and every other character that cannot be
shown by itself is written as its number.
-/

namespace BlobUpload.Quoted

/-- A character by its number. -/
def byNumber (c : Char) : List Char :=
  ['\\', 'u', '\x7b'] ++ Nat.toDigits 16 c.toNat ++ ['\x7d']

def escape (c : Char) : List Char :=
  match c with
  | '\x00' => ['\\', '0']
  | '\t' => ['\\', 't']
  | '\r' => ['\\', 'r']
  | '\n' => ['\\', 'n']
  | '"' => ['\\', '"']
  | '\\' => ['\\', '\\']
  | c => if isShown c then [c] else byNumber c

def encode (text : String) : String :=
  String.ofList ('"' :: text.toList.flatMap escape ++ ['"'])

end BlobUpload.Quoted
