import OlpEdgeSdk.Base.Separators

/-!
# Resource names

An `HRN` names a catalog, a schema or a pipeline. It is read from a text of fields that are
separated by colons; a field that the text does not reach stays empty. A text that starts with
`http` or `https` is accepted too: it is kept whole as the id of a catalog, and the service
stays unknown.

The assertion on an unknown service name is not part of a release build and is left out.

SOURCE: HRN.cpp, HRN.h, Tokenizer.h
-/

set_option autoImplicit false

namespace OlpEdgeSdk.Model

open OlpEdgeSdk.Base

/-- What is left of the text of a tokenizer: nothing after its last token. -/
abbrev Tokenizer : Type := Option (List Char)

namespace Tokenizer

/-- SOURCE: Tokenizer.h:29-32 -/
def new (input : List Char) : Tokenizer := if input = [] then none else some input

/-- The next token, up to the next separator or the end.
SOURCE: Tokenizer.h:34-48 -/
def next (sep : Char) : Tokenizer → List Char × Tokenizer
  | none => ([], none)
  | some text =>
    let token := text.takeWhile (· ≠ sep)
    match text.dropWhile (· ≠ sep) with
    | [] => (token, none)
    | _ :: rest => (token, some rest)

/-- All that is left.
SOURCE: Tokenizer.h:51-56 -/
def tail (t : Tokenizer) : List Char := t.getD []

end Tokenizer

/-- SOURCE: HRN.h:34-39 -/
inductive ServiceType where
  | unknown
  | data
  | schema
  | pipeline
deriving DecidableEq, Repr

/-- SOURCE: HRN.h:41-64 -/
structure HRN where
  partition : List Char
  service : ServiceType
  region : List Char
  account : List Char
  catalogId : List Char
  layerId : List Char
  groupId : List Char
  schemaName : List Char
  version : List Char
  pipelineId : List Char
deriving DecidableEq, Repr

namespace HRN

/-- SOURCE: HRN.h:73 -/
def empty : HRN := ⟨[], .unknown, [], [], [], [], [], [], [], []⟩

/-- SOURCE: HRN.cpp:80-92 -/
def readService (text : List Char) : ServiceType :=
  if text = "data".toList then .data
  else if text = "schema".toList then .schema
  else if text = "pipeline".toList then .pipeline
  else .unknown

/-- The fields behind the account, which depend on the service.
SOURCE: HRN.cpp:96-114 -/
def readRest (h : HRN) (tokens : Tokenizer) : HRN :=
  match h.service with
  | .data =>
    let (catalogId, tokens) := tokens.next ':'
    { h with catalogId := catalogId, layerId := tokens.tail }
  | .schema =>
    let (groupId, tokens) := tokens.next ':'
    let (schemaName, tokens) := tokens.next ':'
    { h with groupId := groupId, schemaName := schemaName, version := tokens.tail }
  | .pipeline => { h with pipelineId := tokens.tail }
  | .unknown => h

/-- The constructor from a text. `next` and `tail` return the empty text where nothing is left,
which is what a field holds that is not assigned; the service alone is looked at before it is
assigned, and an empty name leaves it unknown as well.
SOURCE: HRN.cpp:60-115 -/
def parse (input : List Char) : HRN :=
  let (protocol, tokens) := (Tokenizer.new input).next ':'
  if protocol = "http".toList ∨ protocol = "https".toList then
    { empty with catalogId := input, partition := "catalog-url".toList }
  else if protocol = "hrn".toList then
    let (partition, tokens) := tokens.next ':'
    let (service, tokens) := tokens.next ':'
    let (region, tokens) := tokens.next ':'
    let (account, tokens) := tokens.next ':'
    readRest { empty with
      partition := partition, service := readService service, region := region,
      account := account } tokens
  else empty

/-- SOURCE: HRN.cpp:53-58 -/
def toCatalogHRNString (h : HRN) : List Char :=
  if h.service ≠ .data then []
  else "hrn:".toList ++ h.partition ++ ":data:".toList ++ h.region ++ ":".toList ++ h.account ++
    ":".toList ++ h.catalogId

/-- The text that is printed. The layer of a catalog is left out where it is empty.
SOURCE: HRN.cpp:29-51 -/
def toString (h : HRN) : List Char :=
  let genericPart := ":".toList ++ h.region ++ ":".toList ++ h.account ++ ":".toList
  let ret := "hrn:".toList ++ h.partition ++ ":".toList
  match h.service with
  | .data =>
    let ret := ret ++ "data".toList ++ genericPart ++ h.catalogId
    if h.layerId ≠ [] then ret ++ ":".toList ++ h.layerId else ret
  | .schema =>
    ret ++ "schema".toList ++ genericPart ++ h.groupId ++ ":".toList ++ h.schemaName ++
      ":".toList ++ h.version
  | .pipeline => ret ++ "pipeline".toList ++ genericPart ++ h.pipelineId
  | .unknown => ret ++ genericPart

/-- Names are compared by the fields that their service uses.
SOURCE: HRN.cpp:117-137 -/
def operatorEq (h other : HRN) : Bool :=
  let ret := h.partition = other.partition ∧ h.service = other.service ∧
    h.region = other.region ∧ h.account = other.account
  if ret then
    match h.service with
    | .data => h.catalogId = other.catalogId ∧ h.layerId = other.layerId
    | .schema =>
      h.groupId = other.groupId ∧ h.schemaName = other.schemaName ∧ h.version = other.version
    | .pipeline => h.pipelineId = other.pipelineId
    | .unknown => true
  else false

end HRN

end OlpEdgeSdk.Model
