import BlobUpload.Digest.ContentMD5
import BlobUpload.Error

/-! # Requests to a blob service -/

namespace BlobUpload

inductive Method where
  | putBlock
  | putBlockList
  | updatePage
  | appendBlock
  | putBlob
  deriving DecidableEq, Repr

namespace Method

def all : List Method := [putBlock, putBlockList, updatePage, appendBlock, putBlob]

def name : Method → String
  | putBlock => "put_block"
  | putBlockList => "put_block_list"
  | updatePage => "update_page"
  | appendBlock => "append_block"
  | putBlob => "put_blob"

def ofName? (text : String) : Option Method := all.find? (·.name = text)

end Method

/-- The payload of a request, its digest if one is sent along, and the lease it claims. -/
structure Body where
  payload : Bytes
  md5 : Option ContentMD5 := none
  lease : Option String := none
  deriving DecidableEq, Repr

inductive Request where
  /-- Stages one block. -/
  | putBlock (id : String) (body : Body)
  /-- Makes staged blocks, in this order, the content of the blob. -/
  | putBlockList (ids : List String) (lease : Option String)
  /-- Writes the pages from `first` to `last`, both included. -/
  | updatePage (first last : Nat) (body : Body) (ifMatch : Option String)
  /-- Appends, if the blob is `position` bytes long before and at most `maxSize` after. -/
  | appendBlock (body : Body) (position maxSize : Option Nat)
  | putBlob (body : Body)
  deriving DecidableEq, Repr

/-- What a successful append answers: where the payload went, and the ETag after it. -/
structure Appended where
  offset : Nat
  etag : String
  deriving DecidableEq, Repr

namespace Request

def method : Request → Method
  | putBlock .. => .putBlock
  | putBlockList .. => .putBlockList
  | updatePage .. => .updatePage
  | appendBlock .. => .appendBlock
  | putBlob .. => .putBlob

/-- What a successful request answers; an ETag is the one after it. The time of the change, which a
service reports besides, is left out: no upload looks at it. -/
abbrev Reply : Request → Type
  | putBlock .. => Unit
  | putBlockList .. => String
  | updatePage .. => String
  | appendBlock .. => Appended
  | putBlob .. => String

end Request

class Service (σ : Type) where
  answer : (r : Request) → σ → Except ServiceError r.Reply × σ

end BlobUpload
