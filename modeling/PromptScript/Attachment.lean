import PromptScript.Message.Basic

/-! # Attachments

Files that a document puts into a message. As values they are objects with a mark of their own, under which a
document can also read their parts. -/
namespace PromptScript

structure Attachment where
  name : String
  url : String
  mimeType : String
  /-- The size in bytes, of at most 64 bits. -/
  size : Nat
  isImage : Bool
  deriving DecidableEq, Repr, Inhabited

namespace Attachment

/-- The field that marks an object as a file. -/
def markField : String := "__promptlType"

/-- The mark of a file. -/
def mark : String := "file"

/-- Whether a mime type is that of an image. -/
def isImageType (mimeType : String) : Bool := Text.startsWith "image/".toList mimeType.toList

/-- An attachment of the given mime type. -/
def ofType (name url mimeType : String) (size : Nat) : Attachment :=
  ⟨name, url, mimeType, size, isImageType mimeType⟩

/-- The value that a document sees. The mime type and the size have several names. -/
def toValue (a : Attachment) : Value :=
  let size := Value.number (Float.ofNat a.size)
  .object [(markField, .string mark), ("name", .string a.name), ("url", .string a.url),
    ("isImage", .bool a.isImage), ("type", .string a.mimeType), ("mime", .string a.mimeType),
    ("mimeType", .string a.mimeType), ("size", size), ("bytes", size)]

/-- Whether a value is a file. -/
def isMarked : Value → Bool
  | .object fields => ((Fields.get? markField fields).bind Value.string?) == some mark
  | _ => false

/-- A size given as a number: cut down to a whole number, and zero for what is no size. -/
def bytesOf (x : Float) : Nat :=
  match Number.truncate? x with
  | some n => min n.toNat (Nat.pow 2 64 - 1)
  | none => 0

/-- The attachment that a value stands for. Parts that are missing or of another kind are empty. -/
def ofValue? (v : Value) : Option Attachment :=
  match v with
  | .object fields =>
    if isMarked v then
      let text := fun (name : String) => ((Fields.get? name fields).bind Value.string?).getD ""
      let mimeType := if text "mimeType" = "" then text "mime" else text "mimeType"
      some
        { name := text "name", url := text "url", mimeType
          size := ((Fields.get? "size" fields).map fun v => bytesOf v.toNumber).getD 0
          isImage := ((Fields.get? "isImage" fields).map Value.isTruthy).getD (isImageType mimeType) }
    else none
  | _ => none

/-- The attachments that a value stands for: a file, or a list of nothing but files. -/
def listOf? (v : Value) : Option (List Attachment) :=
  match v with
  | .array (item :: items) =>
    if (item :: items).all isMarked then some ((item :: items).filterMap ofValue?) else none
  | v => (ofValue? v).map fun a => [a]

/-- The content item of an attachment. -/
def toContent (a : Attachment) : Content :=
  if a.isImage then .image a.url [] else .file a.url a.mimeType []

/-- An attachment as JSON. -/
def toJson (a : Attachment) : Json :=
  .obj [("name", .str a.name), ("url", .str a.url), ("mimeType", .str a.mimeType), ("size", .int a.size),
    ("isImage", .bool a.isImage)]

end Attachment
end PromptScript
