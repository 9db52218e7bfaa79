import OlpEdgeSdk.Model.JsonWrapper
import OlpEdgeSdk.Model.StreamLayerQueue

/-!
# The documents of the write service

The serializer and the parser of the requests that the stream layer client keeps in its queue,
and the serializers of what is sent to the index service. These build their documents with
`AddMember`, which takes only an object and leaves null in the place of the value it is given.

SOURCE: PublishDataRequestSerializer.cpp, PublishDataRequestParser.cpp,
IndexInfoSerializer.cpp, UpdateIndexRequestSerializer.cpp
-/

set_option autoImplicit false

namespace OlpEdgeSdk.Model

open OlpEdgeSdk.Base Json

namespace PublishDataRequest

/-- SOURCE: PublishDataRequestSerializer.cpp:23-54 -/
def toJson (x : PublishDataRequest) : Json :=
  .object (
    (x.data.map fun data => ("data", Json.string (data.map charOfByte))).toList ++
    [("layerId", .string (cString x.layerId))] ++
    (x.traceId.map fun text => ("traceId", Json.string (cString text))).toList ++
    (x.billingTag.map fun text => ("billingTag", Json.string (cString text))).toList ++
    (x.checksum.map fun text => ("checksum", Json.string (cString text))).toList)

instance : ToJson PublishDataRequest := ⟨toJson⟩

/-- SOURCE: PublishDataRequestParser.cpp:28-40 -/
def fromJson (value : Json) : Option PublishDataRequest := do
  let data ← parse value "data"
  let layerId ← parse value "layerId"
  let traceId ← parse (α := List Char) value "traceId"
  let billingTag ← parse (α := List Char) value "billingTag"
  let checksum ← parse (α := List Char) value "checksum"
  return {
    data, layerId, traceId := some traceId, billingTag := some billingTag,
    checksum := some checksum }

instance : FromJson PublishDataRequest where
  fromJson := fromJson
  blank := { data := none, layerId := [], traceId := none, billingTag := none, checksum := none }

end PublishDataRequest

/-- The serializer and the parser the stream layer client gives to its cache. A text on which the
parser fails an assertion has no request; the default one stands for it.
SOURCE: StreamLayerClientImpl.cpp:290-292, 331-333 -/
def StreamLayerClientImpl.jsonCodec (text : JsonText) : StreamLayerClientImpl.Codec where
  serialize request := serializeText text request
  parse json := (parseText text json).getD FromJson.blank

/-! ## The index -/

namespace WriteModel

/-- SOURCE: Index.h:40-68, 78-196 -/
inductive IndexValue where
  | string (value : List Char)
  | int (value : Int64)
  | bool (value : Bool)
  | heretile (value : Int64)
  | timeWindow (value : Int64)
  | unsupported
deriving DecidableEq

/-- SOURCE: Index.h:207-211 -/
structure Index where
  checksum : Option (List Char)
  metadata : Option (List (List Char × List Char))
  size : Option Int64
  id : List Char
  indexFields : List (List Char × IndexValue)
deriving DecidableEq

/-- The name of a member that is a text of the caller. -/
def memberName (key : List Char) : String := String.ofList (cString key)

/-- A field of the index; one of no type that is known is left out.
SOURCE: IndexInfoSerializer.cpp:31-63, UpdateIndexRequestSerializer.cpp:34-68 -/
def addField (indexFields : Json) : List Char × IndexValue → Option Json
  | (key, .string value) => indexFields.addMember (memberName key) (.string value)
  | (key, .int value) => indexFields.addMember (memberName key) (.int value.toInt)
  | (key, .bool value) => indexFields.addMember (memberName key) (.bool value)
  | (key, .heretile value) => indexFields.addMember (memberName key) (.int value.toInt)
  | (key, .timeWindow value) => indexFields.addMember (memberName key) (.int value.toInt)
  | (_, .unsupported) => some indexFields

/-- What both serializers do with one index. The fields have been moved into the document, and
left null behind, when the metadata is added to them.
SOURCE: IndexInfoSerializer.cpp:26-85, UpdateIndexRequestSerializer.cpp:29-91 -/
def Index.toObject (x : Index) : Option Json := do
  let jsonValue ← addMember (.object []) "id" (.string (cString x.id))
  let indexFields ← x.indexFields.foldlM addField (.object [])
  let jsonValue ← addMember jsonValue "fields" indexFields
  let indexFields := Json.null
  let _ ← (x.metadata.getD []).foldlM
    (fun fields m => fields.addMember (memberName m.1) (.string (cString m.2))) indexFields
  let jsonValue ← match x.checksum with
    | some checksum => addMember jsonValue "checksum" (.string (cString checksum))
    | none => some jsonValue
  match x.size with
  | some size => addMember jsonValue "size" (.int size.toInt)
  | none => some jsonValue

/-- SOURCE: IndexInfoSerializer.cpp:24-87 -/
def Index.toJson (x : Index) : Option Json := do
  let jsonValue ← x.toObject
  return .array [jsonValue]

/-- SOURCE: UpdateIndexRequest.h:195-197 -/
structure UpdateIndexRequest where
  indexAdditions : List Index
  indexRemovals : List (List Char)
deriving DecidableEq

/-- SOURCE: UpdateIndexRequestSerializer.cpp:24-101 -/
def UpdateIndexRequest.toJson (x : UpdateIndexRequest) : Option Json := do
  let additions ← x.indexAdditions.mapM Index.toObject
  let value ← addMember (.object []) "additions" (.array additions)
  let removals := x.indexRemovals.map fun removal => Json.string (cString removal)
  addMember value "removals" (.array removals)

end WriteModel

end OlpEdgeSdk.Model
