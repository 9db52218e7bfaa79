import Mathlib.Tactic.Simproc.ExistsAndEq
import OlpEdgeSdk.Model.ReadDocuments

/-!
# Round trips through JSON

`RoundTrip` says of a type which of its values are read back as they were written. It is passed
on to options, to lists and, by `parse_serialize` and `parse_serialize_of_ne`, to the members of
an object, whatever is written before and after them. The values that do not come back are those
with a null in some text (`intact_text`) and those with a throughput that a double cannot hold
(`castInt64_doubleOfInt_iff`).
-/

set_option autoImplicit false

namespace OlpEdgeSdk.Analysis.JsonRoundTrips

open OlpEdgeSdk.Base OlpEdgeSdk.Model

/-- Which values of a type are read back as they were written, and which of those that leave no
member behind are the default. -/
class RoundTrip (α : Type) [ToJson α] [FromJson α] where
  Intact : α → Prop
  reads : ∀ a : α, (toJson a).isNull = false → (fromJson (toJson a) = some a ↔ Intact a)
  absent : ∀ a : α, (toJson a).isNull = true → (FromJson.blank = a ↔ Intact a)

export RoundTrip (Intact)

/-- No value of the type is written as null. -/
class Solid (α : Type) [ToJson α] : Prop where
  isNull_eq : ∀ a : α, (toJson a).isNull = false

/-! ## Values -/

instance : Solid (List Char) := ⟨fun _ => rfl⟩

instance : Solid Int64 := ⟨fun _ => rfl⟩

instance : Solid Bool := ⟨fun _ => rfl⟩

instance {α : Type} [ToJson α] : Solid (List α) := ⟨fun _ => rfl⟩

/-- A type without null values has no members that are left out. -/
@[reducible] def RoundTrip.ofSolid {α : Type} [ToJson α] [FromJson α] [Solid α] (Intact : α → Prop)
    (reads : ∀ a : α, fromJson (toJson a) = some a ↔ Intact a) : RoundTrip α where
  Intact := Intact
  reads a _ := reads a
  absent a hnull := absurd ((Solid.isNull_eq a).symm.trans hnull) nofun

instance : RoundTrip (List Char) := .ofSolid (fun text => Char.ofNat 0 ∉ text) fun text => by
  show some (Json.cString (Json.cString text)) = some text ↔ _
  rw [Json.cString_cString, Option.some.injEq, Json.cString_eq_iff]

theorem int64_in_range (a : Int64) : -2 ^ 63 ≤ a.toInt ∧ a.toInt < 2 ^ 63 :=
  ⟨a.le_toInt, a.toInt_lt⟩

instance : RoundTrip Int64 := .ofSolid (fun _ => True) fun a => by
  show (if -2 ^ 63 ≤ a.toInt ∧ a.toInt < 2 ^ 63 then some (Int64.ofInt a.toInt) else none) =
    some a ↔ True
  rw [if_pos (int64_in_range a), Int64.ofInt_toInt]
  exact iff_of_true rfl trivial

instance : RoundTrip Bool := .ofSolid (fun _ => True) fun _ => iff_of_true rfl trivial

section Containers

variable {α : Type} [ToJson α] [FromJson α] [RoundTrip α]

theorem reads_solid [Solid α] (a : α) : fromJson (toJson a) = some a ↔ Intact a :=
  RoundTrip.reads a (Solid.isNull_eq a)

instance [Solid α] : RoundTrip (Option α) where
  Intact o := ∀ a, o = some a → Intact a
  reads o hnull := by
    cases o with
    | none => cases hnull
    | some a =>
      show (fromJson (toJson a)).map some = some (some a) ↔ _
      rw [Option.map_eq_some_iff]
      constructor
      · rintro ⟨b, hb, heq⟩ a' ha'
        cases heq
        cases ha'
        exact (reads_solid _).mp hb
      · exact fun h => ⟨a, (reads_solid a).mpr (h a rfl), rfl⟩
  absent o hnull := by
    cases o with
    | none => exact iff_of_true rfl nofun
    | some a => exact absurd ((Solid.isNull_eq a).symm.trans hnull) nofun

theorem mapM_fromJson_iff [Solid α] (items : List α) :
    (items.map toJson).mapM fromJson = some items ↔ ∀ a ∈ items, Intact a := by
  induction items with
  | nil => exact iff_of_true rfl nofun
  | cons a items ih =>
    rw [List.map_cons, List.mapM_cons, List.forall_mem_cons, ← ih, ← reads_solid a]
    simp only [Option.bind_eq_bind, Option.bind_eq_some_iff, Option.pure_def, Option.some.injEq,
      List.cons.injEq]
    constructor
    · rintro ⟨a', ha, items', hitems, rfl, rfl⟩
      exact ⟨ha, hitems⟩
    · rintro ⟨ha, hitems⟩
      exact ⟨a, ha, items, hitems, rfl, rfl⟩

instance [Solid α] : RoundTrip (List α) :=
  .ofSolid (fun items => ∀ a ∈ items, Intact a) mapM_fromJson_iff

/-! ## Members -/

@[simp] theorem findMember_nil (name : String) : Json.findMember name [] = none := by
  rw [Json.findMember]

omit [FromJson α] [RoundTrip α] in
@[simp] theorem findMember_serialize_of_ne {key name : String} (hne : key ≠ name) (a : α)
    (members : List (String × Json)) :
    Json.findMember name (serialize key a members) = Json.findMember name members := by
  unfold serialize
  split
  · rfl
  · rw [Json.findMember_append, Json.findMember, if_neg hne]
    exact Option.or_none

omit [FromJson α] [RoundTrip α] in
/-- A member is not disturbed by those of other names. -/
@[simp] theorem parse_serialize_of_ne {β : Type} [FromJson β] {key name : String} (hne : key ≠ name)
    (a : α) (members : List (String × Json)) :
    parse (α := β) (.object (serialize key a members)) name = parse (.object members) name := by
  unfold parse
  dsimp only
  rw [findMember_serialize_of_ne hne]

omit [FromJson α] [RoundTrip α] in
theorem findMember_serialize_self {key : String} {members : List (String × Json)}
    (hfresh : Json.findMember key members = none) (a : α) :
    Json.findMember key (serialize key a members) =
      if (toJson a).isNull then none else some (toJson a) := by
  unfold serialize
  split
  · exact hfresh
  · rw [Json.findMember_append, hfresh, Json.findMember, if_pos rfl]
    rfl

/-- **A member is read back** iff its value is intact. -/
@[simp] theorem parse_serialize {key : String} {members : List (String × Json)}
    (hfresh : Json.findMember key members = none) (a : α) :
    parse (.object (serialize key a members)) key = some a ↔ Intact a := by
  unfold parse
  dsimp only
  rw [findMember_serialize_self hfresh]
  cases hnull : (toJson a).isNull with
  | true =>
    simp only [if_true, Option.some.injEq]
    exact RoundTrip.absent a hnull
  | false =>
    simp only [Bool.false_eq_true, if_false]
    exact RoundTrip.reads a hnull

end Containers

/-! ## Throughputs -/

/-- An integer that a double holds: its bits below the first 53 are zero. -/
def FitsDouble (a : Int64) : Prop := 2 ^ excess 53 a.toInt.natAbs ∣ a.toInt.natAbs

theorem doubleOfInt_eq_iff (n : Int) :
    doubleOfInt n = n ↔ 2 ^ excess 53 n.natAbs ∣ n.natAbs := by
  rw [← roundTo_eq_iff, doubleOfInt]
  split <;> omega

theorem fitsDouble_of_lt {a : Int64} (h : a.toInt.natAbs < 2 ^ 53) : FitsDouble a := by
  rw [FitsDouble, excess_eq_zero (by decide) h]
  exact Nat.one_dvd _

/-- **A throughput is read back** iff a double holds it. -/
theorem castInt64_doubleOfInt_iff (a : Int64) :
    castInt64 ((doubleOfInt a.toInt : Int) : Rat) = some a ↔ FitsDouble a := by
  rw [FitsDouble, ← doubleOfInt_eq_iff]
  have hwhole : castInt64 ((doubleOfInt a.toInt : Int) : Rat) =
      if -2 ^ 63 ≤ doubleOfInt a.toInt ∧ doubleOfInt a.toInt < 2 ^ 63
        then some (Int64.ofInt (doubleOfInt a.toInt)) else none := by
    unfold castInt64
    simp only [Rat.num_intCast, Rat.den_intCast, Nat.cast_one, Int.tdiv_one]
  rw [hwhole]
  constructor
  · intro h
    obtain ⟨⟨hlow, hhigh⟩, heq⟩ := Option.ite_none_right_eq_some.mp h
    have hvalue := congrArg Int64.toInt (Option.some.inj heq)
    rwa [Int64.toInt_ofInt_of_le hlow hhigh] at hvalue
  · intro h
    rw [h, if_pos (int64_in_range a), Int64.ofInt_toInt]

theorem parse_rat_serialize {key : String} {members : List (String × Json)}
    (hfresh : Json.findMember key members = none) (a : Int64) :
    parse (α := Rat) (.object (serialize key a members)) key =
      some ((doubleOfInt a.toInt : Int) : Rat) := by
  unfold parse
  dsimp only
  rw [findMember_serialize_self hfresh]
  rfl

/-! ## The catalog -/

section Documents

open ReadModel

instance : Solid Coverage := ⟨fun _ => rfl⟩

instance : RoundTrip Coverage := .ofSolid (fun x => Intact x.adminAreas) fun x => by
  show Coverage.fromJson (Coverage.toJson x) = some x ↔ _
  cases x
  simp [Coverage.fromJson, Coverage.toJson, Option.bind_eq_some_iff]

instance : Solid IndexDefinition := ⟨fun _ => rfl⟩

instance : RoundTrip IndexDefinition := .ofSolid
    (fun x => Intact x.name ∧ Intact x.type ∧ Intact x.duration ∧ Intact x.zoomLevel)
    fun x => by
  show IndexDefinition.fromJson (IndexDefinition.toJson x) = some x ↔ _
  cases x
  simp [IndexDefinition.fromJson, IndexDefinition.toJson, Option.bind_eq_some_iff]

instance : Solid IndexProperties := ⟨fun _ => rfl⟩

instance : RoundTrip IndexProperties := .ofSolid
    (fun x => Intact x.ttl ∧ Intact x.indexDefinitions) fun x => by
  show IndexProperties.fromJson (IndexProperties.toJson x) = some x ↔ _
  cases x
  simp [IndexProperties.fromJson, IndexProperties.toJson, Option.bind_eq_some_iff]

instance : Solid Creator := ⟨fun _ => rfl⟩

instance : RoundTrip Creator := .ofSolid (fun x => Intact x.id) fun x => by
  show Creator.fromJson (Creator.toJson x) = some x ↔ _
  cases x
  simp [Creator.fromJson, Creator.toJson, Option.bind_eq_some_iff]

instance : Solid Owner := ⟨fun _ => rfl⟩

instance : RoundTrip Owner := .ofSolid
    (fun x => Intact x.creator ∧ Intact x.organisation) fun x => by
  show Owner.fromJson (Owner.toJson x) = some x ↔ _
  cases x
  simp [Owner.fromJson, Owner.toJson, Option.bind_eq_some_iff]

instance : Solid Partitioning := ⟨fun _ => rfl⟩

instance : RoundTrip Partitioning := .ofSolid
    (fun x => Intact x.scheme ∧ Intact x.tileLevels) fun x => by
  show Partitioning.fromJson (Partitioning.toJson x) = some x ↔ _
  cases x
  simp [Partitioning.fromJson, Partitioning.toJson, Option.bind_eq_some_iff]

instance : Solid Schema := ⟨fun _ => rfl⟩

instance : RoundTrip Schema := .ofSolid (fun x => Intact x.hrn) fun x => by
  show Schema.fromJson (Schema.toJson x) = some x ↔ _
  cases x
  simp [Schema.fromJson, Schema.toJson, Option.bind_eq_some_iff]

instance : Solid StreamProperties := ⟨fun _ => rfl⟩

instance : RoundTrip StreamProperties := .ofSolid
    (fun x => FitsDouble x.dataInThroughputMbps ∧ FitsDouble x.dataOutThroughputMbps) fun x => by
  show StreamProperties.fromJson (StreamProperties.toJson x) = some x ↔ _
  cases x
  simp [StreamProperties.fromJson, StreamProperties.toJson, Option.bind_eq_some_iff,
    parse_rat_serialize, castInt64_doubleOfInt_iff]


instance : Solid Encryption := ⟨fun _ => rfl⟩

instance : RoundTrip Encryption := .ofSolid (fun x => Intact x.algorithm) fun x => by
  show Encryption.fromJson (Encryption.toJson x) = some x ↔ _
  cases x
  simp [Encryption.fromJson, Encryption.toJson, Option.bind_eq_some_iff]

instance : Solid Volume := ⟨fun _ => rfl⟩

instance : RoundTrip Volume := .ofSolid
    (fun x => Intact x.volumeType ∧ Intact x.maxMemoryPolicy ∧ Intact x.packageType ∧
      Intact x.encryption) fun x => by
  show Volume.fromJson (Volume.toJson x) = some x ↔ _
  cases x
  simp [Volume.fromJson, Volume.toJson, Option.bind_eq_some_iff]

theorem layer_fromJson_iff (value : Json) (x : Layer) :
    Layer.fromJson value = some x ↔
      parse value "id" = some x.id ∧ parse value "name" = some x.name ∧
      parse value "summary" = some x.summary ∧ parse value "description" = some x.description ∧
      parse value "owner" = some x.owner ∧ parse value "coverage" = some x.coverage ∧
      parse value "schema" = some x.schema ∧ parse value "contentType" = some x.contentType ∧
      parse value "contentEncoding" = some x.contentEncoding ∧
      parse value "partitioning" = some x.partitioning ∧
      parse value "layerType" = some x.layerType ∧ parse value "digest" = some x.digest ∧
      parse value "tags" = some x.tags ∧ parse value "billingTags" = some x.billingTags ∧
      parse value "ttl" = some x.ttl ∧ parse value "indexProperties" = some x.indexProperties ∧
      parse value "streamProperties" = some x.streamProperties ∧
      parse value "volume" = some x.volume := by
  constructor
  · intro h
    obtain ⟨id, hid, h⟩ := Option.bind_eq_some_iff.mp h
    obtain ⟨name, hname, h⟩ := Option.bind_eq_some_iff.mp h
    obtain ⟨summary, hsummary, h⟩ := Option.bind_eq_some_iff.mp h
    obtain ⟨description, hdescription, h⟩ := Option.bind_eq_some_iff.mp h
    obtain ⟨owner, howner, h⟩ := Option.bind_eq_some_iff.mp h
    obtain ⟨coverage, hcoverage, h⟩ := Option.bind_eq_some_iff.mp h
    obtain ⟨schema, hschema, h⟩ := Option.bind_eq_some_iff.mp h
    obtain ⟨contentType, hcontentType, h⟩ := Option.bind_eq_some_iff.mp h
    obtain ⟨contentEncoding, hcontentEncoding, h⟩ := Option.bind_eq_some_iff.mp h
    obtain ⟨partitioning, hpartitioning, h⟩ := Option.bind_eq_some_iff.mp h
    obtain ⟨layerType, hlayerType, h⟩ := Option.bind_eq_some_iff.mp h
    obtain ⟨digest, hdigest, h⟩ := Option.bind_eq_some_iff.mp h
    obtain ⟨tags, htags, h⟩ := Option.bind_eq_some_iff.mp h
    obtain ⟨billingTags, hbillingTags, h⟩ := Option.bind_eq_some_iff.mp h
    obtain ⟨ttl, httl, h⟩ := Option.bind_eq_some_iff.mp h
    obtain ⟨indexProperties, hindexProperties, h⟩ := Option.bind_eq_some_iff.mp h
    obtain ⟨streamProperties, hstreamProperties, h⟩ := Option.bind_eq_some_iff.mp h
    obtain ⟨volume, hvolume, h⟩ := Option.bind_eq_some_iff.mp h
    cases h
    exact ⟨hid, hname, hsummary, hdescription, howner, hcoverage, hschema, hcontentType,
      hcontentEncoding, hpartitioning, hlayerType, hdigest, htags, hbillingTags, httl,
      hindexProperties, hstreamProperties, hvolume⟩
  · rintro ⟨hid, hname, hsummary, hdescription, howner, hcoverage, hschema, hcontentType,
      hcontentEncoding, hpartitioning, hlayerType, hdigest, htags, hbillingTags, httl,
      hindexProperties, hstreamProperties, hvolume⟩
    unfold Layer.fromJson
    rw [hid, hname, hsummary, hdescription, howner, hcoverage, hschema, hcontentType,
      hcontentEncoding, hpartitioning, hlayerType, hdigest, htags, hbillingTags, httl,
      hindexProperties, hstreamProperties, hvolume]
    rfl

instance : Solid Layer := ⟨fun _ => rfl⟩

instance : RoundTrip Layer := .ofSolid
    (fun x => Intact x.id ∧ Intact x.name ∧ Intact x.summary ∧ Intact x.description ∧
      Intact x.owner ∧ Intact x.coverage ∧ Intact x.schema ∧ Intact x.contentType ∧
      Intact x.contentEncoding ∧ Intact x.partitioning ∧ Intact x.layerType ∧ Intact x.digest ∧
      Intact x.tags ∧ Intact x.billingTags ∧ Intact x.ttl ∧ Intact x.indexProperties ∧
      Intact x.streamProperties ∧ Intact x.volume) fun x => by
  show Layer.fromJson (Layer.toJson x) = some x ↔ _
  rw [layer_fromJson_iff]
  simp [Layer.toJson]

instance : Solid Notifications := ⟨fun _ => rfl⟩

instance : RoundTrip Notifications := .ofSolid (fun x => Intact x.enabled) fun x => by
  show Notifications.fromJson (Notifications.toJson x) = some x ↔ _
  cases x
  simp [Notifications.fromJson, Notifications.toJson, Option.bind_eq_some_iff]

theorem catalog_fromJson_iff (value : Json) (x : Catalog) :
    Catalog.fromJson value = some x ↔
      parse value "id" = some x.id ∧ parse value "hrn" = some x.hrn ∧
      parse value "name" = some x.name ∧ parse value "summary" = some x.summary ∧
      parse value "description" = some x.description ∧ parse value "coverage" = some x.coverage ∧
      parse value "owner" = some x.owner ∧ parse value "tags" = some x.tags ∧
      parse value "billingTags" = some x.billingTags ∧ parse value "created" = some x.created ∧
      parse value "layers" = some x.layers ∧ parse value "version" = some x.version ∧
      parse value "notifications" = some x.notifications := by
  constructor
  · intro h
    obtain ⟨id, hid, h⟩ := Option.bind_eq_some_iff.mp h
    obtain ⟨hrn, hhrn, h⟩ := Option.bind_eq_some_iff.mp h
    obtain ⟨name, hname, h⟩ := Option.bind_eq_some_iff.mp h
    obtain ⟨summary, hsummary, h⟩ := Option.bind_eq_some_iff.mp h
    obtain ⟨description, hdescription, h⟩ := Option.bind_eq_some_iff.mp h
    obtain ⟨coverage, hcoverage, h⟩ := Option.bind_eq_some_iff.mp h
    obtain ⟨owner, howner, h⟩ := Option.bind_eq_some_iff.mp h
    obtain ⟨tags, htags, h⟩ := Option.bind_eq_some_iff.mp h
    obtain ⟨billingTags, hbillingTags, h⟩ := Option.bind_eq_some_iff.mp h
    obtain ⟨created, hcreated, h⟩ := Option.bind_eq_some_iff.mp h
    obtain ⟨layers, hlayers, h⟩ := Option.bind_eq_some_iff.mp h
    obtain ⟨version, hversion, h⟩ := Option.bind_eq_some_iff.mp h
    obtain ⟨notifications, hnotifications, h⟩ := Option.bind_eq_some_iff.mp h
    cases h
    exact ⟨hid, hhrn, hname, hsummary, hdescription, hcoverage, howner, htags, hbillingTags,
      hcreated, hlayers, hversion, hnotifications⟩
  · rintro ⟨hid, hhrn, hname, hsummary, hdescription, hcoverage, howner, htags, hbillingTags,
      hcreated, hlayers, hversion, hnotifications⟩
    unfold Catalog.fromJson
    rw [hid, hhrn, hname, hsummary, hdescription, hcoverage, howner, htags, hbillingTags,
      hcreated, hlayers, hversion, hnotifications]
    rfl

instance : Solid Catalog := ⟨fun _ => rfl⟩

instance : RoundTrip Catalog := .ofSolid
    (fun x => Intact x.id ∧ Intact x.hrn ∧ Intact x.name ∧ Intact x.summary ∧
      Intact x.description ∧ Intact x.coverage ∧ Intact x.owner ∧ Intact x.tags ∧
      Intact x.billingTags ∧ Intact x.created ∧ Intact x.layers ∧ Intact x.version ∧
      Intact x.notifications) fun x => by
  show Catalog.fromJson (Catalog.toJson x) = some x ↔ _
  rw [catalog_fromJson_iff]
  simp [Catalog.toJson]

/-! ## Versions and partitions -/

instance : Solid VersionResponse := ⟨fun _ => rfl⟩

instance : RoundTrip VersionResponse := .ofSolid (fun x => Intact x.version) fun x => by
  show VersionResponse.fromJson (VersionResponse.toJson x) = some x ↔ _
  cases x
  simp [VersionResponse.fromJson, VersionResponse.toJson, Option.bind_eq_some_iff]

instance : Solid LayerVersion := ⟨fun _ => rfl⟩

instance : RoundTrip LayerVersion := .ofSolid
    (fun x => Intact x.layer ∧ Intact x.version ∧ Intact x.timestamp) fun x => by
  show LayerVersion.fromJson (LayerVersion.toJson x) = some x ↔ _
  cases x
  simp [LayerVersion.fromJson, LayerVersion.toJson, Option.bind_eq_some_iff]

instance : Solid LayerVersions := ⟨fun _ => rfl⟩

instance : RoundTrip LayerVersions := .ofSolid
    (fun x => Intact x.layerVersions ∧ Intact x.version) fun x => by
  show LayerVersions.fromJson (LayerVersions.toJson x) = some x ↔ _
  cases x
  simp [LayerVersions.fromJson, LayerVersions.toJson, Option.bind_eq_some_iff]

instance : Solid Partition := ⟨fun _ => rfl⟩

instance : RoundTrip Partition := .ofSolid
    (fun x => Intact x.checksum ∧ Intact x.compressedDataSize ∧ Intact x.dataHandle ∧
      Intact x.dataSize ∧ Intact x.partition ∧ Intact x.version) fun x => by
  show Partition.fromJson (Partition.toJson x) = some x ↔ _
  cases x
  simp [Partition.fromJson, Partition.toJson, Option.bind_eq_some_iff]

/-! ## Through the cache -/

/-- No text of the document has a null, and no throughput of a catalog has more bits than a
double. -/
def DocumentIntact : Document → Prop
  | .catalog x => Intact x
  | .version x => Intact x
  | .partition x => Intact x
  | .partitionIds ids => Intact ids
  | .layerVersions x => Intact x

/-- The document as a tree. -/
def tree : Document → Json
  | .catalog x => toJson x
  | .version x => toJson x
  | .partition x => toJson x
  | .partitionIds ids => toJson ids
  | .layerVersions x => toJson x

/-- An object or a list, written and parsed again. -/
theorem parseText_serializeText {α : Type} [ToJson α] [FromJson α] (text : JsonText) (x : α)
    (hread : text.read (text.write (toJson x)) = toJson x)
    (hnull : Char.ofNat 0 ∉ text.write (toJson x))
    (hshape : (∃ members, toJson x = .object members) ∨ ∃ items, toJson x = .array items) :
    parseText text (serializeText text x) = fromJson (α := α) (toJson x) := by
  unfold parseText serializeText
  rw [Json.cString_eq_iff.mpr hnull, hread]
  rcases hshape with ⟨members, hmembers⟩ | ⟨items, hitems⟩
  · rw [hmembers]
  · rw [hitems]

theorem map_eq_some_self_iff {α β : Type} {f : α → β} (hf : ∀ a b, f a = f b → a = b)
    (o : Option α) (a : α) : o.map f = some (f a) ↔ o = some a := by
  rw [Option.map_eq_some_iff]
  constructor
  · rintro ⟨b, hb, heq⟩
    rw [hb, hf b a heq]
  · exact fun h => ⟨a, h, rfl⟩

/-- **What the cache gives back from its texts.** A document that the repositories have put into
the cache, and that is left there as text alone, is read back as it was put iff no text in it
has a null and no throughput has more significant bits than a double. -/
theorem document_decode_encode_iff (text : JsonText) (document : Document)
    (hread : text.read (text.write (tree document)) = tree document)
    (hnull : Char.ofNat 0 ∉ text.write (tree document)) :
    document.decode text (document.encode text) = some document ↔ DocumentIntact document := by
  cases document with
  | catalog x =>
    refine (map_eq_some_self_iff (fun _ _ => Document.catalog.inj) _ x).trans ?_
    rw [Document.encode, parseText_serializeText text x hread hnull (.inl ⟨_, rfl⟩)]
    exact reads_solid x
  | version x =>
    refine (map_eq_some_self_iff (fun _ _ => Document.version.inj) _ x).trans ?_
    rw [Document.encode, parseText_serializeText text x hread hnull (.inl ⟨_, rfl⟩)]
    exact reads_solid x
  | partition x =>
    refine (map_eq_some_self_iff (fun _ _ => Document.partition.inj) _ x).trans ?_
    rw [Document.encode, parseText_serializeText text x hread hnull (.inl ⟨_, rfl⟩)]
    exact reads_solid x
  | partitionIds ids =>
    refine (map_eq_some_self_iff (fun _ _ => Document.partitionIds.inj) _ ids).trans ?_
    rw [Document.encode, parseText_serializeText text ids hread hnull (.inr ⟨_, rfl⟩)]
    exact reads_solid ids
  | layerVersions x =>
    refine (map_eq_some_self_iff (fun _ _ => Document.layerVersions.inj) _ x).trans ?_
    rw [Document.encode, parseText_serializeText text x hread hnull (.inl ⟨_, rfl⟩)]
    exact reads_solid x

/-- A partition without a checksum, and its text. -/
def storedPartition : Partition where
  checksum := none
  compressedDataSize := none
  dataHandle := "4eed6ed1".toList
  dataSize := some 1024
  partition := "269".toList
  version := some 4

def storedPartitionText : JsonText where
  write _ :=
    "\x7b\"dataHandle\":\"4eed6ed1\",\"dataSize\":1024,".toList ++
      "\"partition\":\"269\",\"version\":4\x7d".toList
  read _ := tree (.partition storedPartition)

theorem document_decode_encode_example :
    (Document.partition storedPartition).decode storedPartitionText
      ((Document.partition storedPartition).encode storedPartitionText) =
        some (.partition storedPartition) :=
  (document_decode_encode_iff storedPartitionText (.partition storedPartition) rfl
    (by decide)).mpr ⟨nofun, nofun, Json.cString_eq_iff.mp (by decide), fun _ _ => trivial,
      Json.cString_eq_iff.mp (by decide), fun _ _ => trivial⟩

end Documents

end OlpEdgeSdk.Analysis.JsonRoundTrips
