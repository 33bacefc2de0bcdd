import FlatRecord.Encoding
import FlatRecord.Proofs.Builder.Writes
import FlatRecord.Proofs.Codec.Structs
import FlatRecord.Proofs.Schema
import FlatRecord.Reading.Field
import Mathlib.Data.List.Sort

/-! Records as they lie in a buffer: which record, in which schema, stands at which distance. Everything that a
record refers to stands too, and every object and field at its alignment. -/
namespace FlatRecord

open Builder Encoding

/-- The bytes of a text, if the value is one. -/
def Value.textBytes? : Value → Option (List UInt8)
  | text s => some (Text.toBytes s).toList
  | bytes b => some b.toList
  | _ => none

structure TextStands (g : Ground) (value : Value) (d : Nat) : Prop where
  stored : ∃ bytes, value.textBytes? = some bytes ∧ TextStored g.bytes d bytes
  sits : g.Sits offsetSize d

def ResolvedElement.alignment : ResolvedElement → Nat
  | scalar type => type.size
  | text | record _ => offsetSize
  | struct type => type.alignment

/-- On that ground, the record of the named type stands at that distance. -/
abbrev Placement := Ground → String → Record → Nat → Prop

section Relations

variable (schema : Schema) (forced : Bool) (child : Placement) (g : Ground)

/-- The piece is what an element of the type holds for the value. -/
inductive ElementStands : ElementType → Value → Piece → Prop where
  | scalar {t : ScalarType} {v w : Scalar} (converted : v.convert? t = some w) :
      ElementStands (.scalar t) (.scalar v) (.own w.toBytes)
  | struct {name field : String} {s : StructType} {v : Value} {bytes : List UInt8}
      (known : schema.struct name = .ok s) (written : structBytes s v field = .ok bytes) :
      ElementStands (.struct name) v (.own bytes)
  | text {v : Value} {d : Nat} (stands : TextStands g v d) : ElementStands .text v (.ref .text d)
  | record {name : String} {r : Record} {d : Nat} (stands : child g name r d) :
      ElementStands (.record name) (.record r) (.ref .record d)

def VectorStands (type : ElementType) (items : List Value) (d : Nat) : Prop :=
  ∃ element elements, type.resolve schema = .ok element ∧
    List.Forall₂ (ElementStands schema child g type) items elements ∧
    VectorLevel g d element.inlineSize element.alignment elements

/-- What waits to become the field stands for the value. -/
inductive FieldStands (f : RecordField) : Value → Pending → Prop where
  | scalar {t : ScalarType} {v : Value} {w default : Scalar}
      (stored : schema.scalarOf f = .ok (t, default)) (written : fieldScalar schema f t v = .ok w) :
      FieldStands f v (.scalar f.slot w default)
  | struct {name : String} {s : StructType} {v : Value} {bytes : List UInt8}
      (kind : f.type = .struct name) (known : schema.struct name = .ok s)
      (written : structBytes s v f.name = .ok bytes) : FieldStands f v (.struct f.slot bytes s.alignment)
  | text {v : Value} {ref : Ref .text} (kind : f.type = .text) (stands : TextStands g v ref.distance) :
      FieldStands f v (.ref f.slot .text ref)
  | vector {type : ElementType} {items : List Value} {ref : Ref .vector} (kind : f.type = .vector type)
      (stands : VectorStands schema child g type items ref.distance) :
      FieldStands f (.vector items) (.ref f.slot .vector ref)
  | record {name : String} {r : Record} {ref : Ref .record} (kind : f.type = .record name)
      (stands : child g name r ref.distance) : FieldStands f (.record r) (.ref f.slot .record ref)

/-- The fields that a record has values for. -/
def presentFields (type : RecordType) (r : Record) : List RecordField :=
  type.liveFields.filter fun f => (r.get? f.name).isSome

/-- The fields that are pending are those that the record has values for. -/
def FieldsStand (r : Record) (fields : List RecordField) (pending : List Pending) : Prop :=
  List.Forall₂ (fun f p => ∃ v, r.get? f.name = some v ∧ FieldStands schema child g f v p) fields
    pending

end Relations

namespace Encoding

def Pending.slot : Pending → Nat
  | scalar slot _ _ => slot
  | struct slot _ _ => slot
  | ref slot _ _ => slot

/-- The field that is written, if its value is not left out as equal to its default. -/
def Pending.field? (forced : Bool) : Pending → Option (Nat × Piece)
  | scalar slot w default =>
    if w.sameNumber default && !forced then none else some (slot, .own w.toBytes)
  | struct slot bytes _ => some (slot, .own bytes)
  | ref slot kind child => some (slot, .ref kind child.distance)

/-- The fields of a record, the newest first, when they are written in that order. -/
def fieldsOf (forced : Bool) (pending : List Pending) : List (Nat × Piece) :=
  (pending.filterMap (Pending.field? forced)).reverse

/-- The alignments that the fields ask for. -/
def askedBy (pending : List Pending) : List (Nat × Nat) := pending.map fun p => (p.slot, p.alignment)

end Encoding

/-- A record that stands if its children do. -/
def RecordStands (schema : Schema) (forced : Bool) (child : Placement) : Placement :=
  fun g name r d => ∃ type pending, schema.record name = .ok type ∧ checkNames type name r = .ok () ∧
    FieldsStand schema child g r (presentFields type r) pending ∧
    RecordLevel g d (fieldsOf forced (byAlignment pending)) (askedBy (byAlignment pending))

/-- Records nested at most `levels` deep. -/
def LevelsStand (schema : Schema) (forced : Bool) : (levels : Nat) → Placement
  | 0 => fun _ _ _ _ => False
  | levels + 1 => RecordStands schema forced (LevelsStand schema forced levels)

variable {schema : Schema} {forced : Bool} {child : Placement} {g g' : Ground} {d : Nat}

section Growing

theorem TextStands.mono {v : Value} (stands : TextStands g v d) (under : g.Under g') :
    TextStands g' v d := by
  obtain ⟨bytes, text, stored⟩ := stands.stored
  exact ⟨⟨bytes, text, stored.of_suffix under.suffix⟩, stands.sits.mono under⟩

/-- What stands is not moved by what is written in front of it. -/
def Placement.Stays (child : Placement) : Prop :=
  ∀ g g' name r d, g.Under g' → child g name r d → child g' name r d

theorem ElementStands.mono {type : ElementType} {v : Value} {p : Piece} (stays : child.Stays)
    (under : g.Under g') (stands : ElementStands schema child g type v p) :
    ElementStands schema child g' type v p := by
  cases stands with
  | scalar converted => exact .scalar converted
  | struct known written => exact .struct known written
  | text stands => exact .text (stands.mono under)
  | record stands => exact .record (stays _ _ _ _ _ under stands)

theorem VectorStands.mono {type : ElementType} {items : List Value} (stays : child.Stays)
    (under : g.Under g') (stands : VectorStands schema child g type items d) :
    VectorStands schema child g' type items d := by
  obtain ⟨element, elements, known, all, level⟩ := stands
  exact ⟨element, elements, known, all.imp fun _ _ here => here.mono stays under, level.mono under⟩

theorem FieldStands.mono {f : RecordField} {v : Value} {p : Pending} (stays : child.Stays)
    (under : g.Under g') (stands : FieldStands schema child g f v p) :
    FieldStands schema child g' f v p := by
  cases stands with
  | scalar stored written => exact .scalar stored written
  | struct kind known written => exact .struct kind known written
  | text kind stands => exact .text kind (stands.mono under)
  | vector kind stands => exact .vector kind (stands.mono stays under)
  | record kind stands => exact .record kind (stays _ _ _ _ _ under stands)

theorem FieldsStand.mono {r : Record} {fields : List RecordField} {pending : List Pending}
    (stays : child.Stays) (under : g.Under g') (stand : FieldsStand schema child g r fields pending) :
    FieldsStand schema child g' r fields pending :=
  stand.imp fun _ _ here => here.imp fun _ here => ⟨here.1, here.2.mono stays under⟩

theorem RecordStands.stays (stays : child.Stays) : (RecordStands schema forced child).Stays := by
  rintro g g' name r d under ⟨type, pending, known, checked, stand, level⟩
  exact ⟨type, pending, known, checked, stand.mono stays under, level.mono under⟩

theorem levelsStand_stays (schema : Schema) (forced : Bool) (levels : Nat) :
    (LevelsStand schema forced levels).Stays := by
  induction levels with
  | zero => exact fun _ _ _ _ _ _ => id
  | succ levels ih => exact RecordStands.stays ih

end Growing

section Inside

theorem TextStands.covered {v : Value} (stands : TextStands g v d) : g.Covers d := by
  obtain ⟨bytes, -, stored⟩ := stands.stored
  exact covers_of_holds (by rw [LittleEndian.length_encode]; decide) stored.holds.left

/-- Records of this placement lie among the bytes. -/
def Placement.Inside (child : Placement) : Prop := ∀ g name r d, child g name r d → g.Covers d

theorem levelsStand_inside (schema : Schema) (forced : Bool) (levels : Nat) :
    (LevelsStand schema forced levels).Inside := by
  cases levels with
  | zero => exact fun _ _ _ _ => False.elim
  | succ levels =>
    rintro g name r d ⟨type, pending, -, -, -, level⟩
    exact level.covered

end Inside

section Pendings

variable {f : RecordField} {v : Value} {p : Pending}

theorem FieldStands.slot (stands : FieldStands schema child g f v p) : p.slot = f.slot := by
  cases stands <;> rfl

theorem FieldsStand.slots {r : Record} {fields : List RecordField} {pending : List Pending}
    (stand : FieldsStand schema child g r fields pending) :
    pending.map (·.slot) = fields.map (·.slot) := by
  induction stand with
  | nil => rfl
  | cons here _ ih =>
    obtain ⟨v, _, stands⟩ := here
    rw [List.map_cons, List.map_cons, stands.slot, ih]

/-- What is needed to write the field: a default of its type, an alignment that is one, or an object among
the bytes. -/
def Encoding.Pending.Ready (g : Ground) : Pending → Prop
  | .scalar _ value default => value.type = default.type
  | .struct _ _ alignment => ∃ k < 64, alignment = 2 ^ k
  | .ref _ _ child => g.Covers child.distance

theorem type_fieldScalar {t : ScalarType} {w : Scalar} (written : fieldScalar schema f t v = .ok w) :
    w.type = t := by
  simp only [fieldScalar] at written
  split at written
  next => exact type_coerce written
  next =>
    obtain ⟨e, -, written⟩ := bind_eq_ok.1 written
    obtain ⟨i, -, written⟩ := bind_eq_ok.1 written
    exact Schema.type_scalarOfInt written
  next => cases written

theorem FieldStands.ready (valid : f.Valid schema) (out : schema.LaidOut) (inside : child.Inside)
    (stands : FieldStands schema child g f v p) : p.Ready g := by
  cases stands with
  | scalar stored written =>
    exact (type_fieldScalar written).trans (valid.default_type stored).symm
  | struct _ known =>
    obtain ⟨k, small, power⟩ := (out.struct known).alignment_power
    exact ⟨k, by omega, power⟩
  | text _ stands => exact stands.covered
  | vector _ stands =>
    obtain ⟨element, elements, -, -, level⟩ := stands
    exact level.covered
  | record _ stands => exact inside _ _ _ _ stands

theorem slot_of_field? {place : Nat × Piece} (written : p.field? forced = some place) :
    place.1 = p.slot := by
  cases p with
  | scalar slot w default =>
    simp only [Pending.field?] at written
    split at written
    · cases written
    · cases written
      rfl
  | struct | ref => cases written; rfl

theorem byAlignment_eq (pending : List Pending) :
    byAlignment pending = pending.insertionSort fun p q => q.alignment ≤ p.alignment := by
  have insert (p : Pending) (rest : List Pending) : insertByAlignment p rest =
      rest.orderedInsert (fun p q => q.alignment ≤ p.alignment) p := by
    induction rest with
    | nil => rfl
    | cons q rest ih => rw [insertByAlignment, ih]; rfl
  induction pending with
  | nil => rfl
  | cons p rest ih =>
    rw [List.insertionSort_cons, ← ih, ← insert]
    rfl

theorem byAlignment_perm (pending : List Pending) : (byAlignment pending).Perm pending := by
  rw [byAlignment_eq]
  exact List.perm_insertionSort _ pending

end Pendings

end FlatRecord
