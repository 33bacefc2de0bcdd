import FlatRecord.Proofs.Codec.Encoded
import FlatRecord.Proofs.Codec.Revised
import Mathlib.Data.List.Nodup

/-! A schema and a later version of it, in which records may have new fields. What the earlier version knows of
types and fields, the later one knows alike. -/
namespace FlatRecord

/-- The later schema has all types of the earlier one. Records may have fields besides the old ones, which keep
their order among themselves. -/
structure Schema.Evolves (old new : Schema) : Prop where
  root : new.root = old.root
  identifier : new.identifier = old.identifier
  records : ∀ name o, old.record name = .ok o →
    ∃ n, new.record name = .ok n ∧ o.fields.Sublist n.fields
  structs : ∀ name s, old.struct name = .ok s → new.struct name = .ok s
  enums : ∀ name e, old.enumeration name = .ok e → new.enumeration name = .ok e

namespace Schema

/-- The fields of the named record that the later schema has added. -/
def newFields (old new : Schema) (name : String) : List RecordField :=
  match old.record name, new.record name with
  | .ok o, .ok n => n.fields.filter (· ∉ o.fields)
  | _, _ => []

/-- The record with the defaults of the live new fields. -/
def addNew (old new : Schema) (name : String) (r : Record) : Record :=
  withDefaults new { name, fields := old.newFields new name } r

/-- The record with the defaults of the live new fields, in every record at every level. -/
def grown (old new : Schema) : String → Record → Record := revisedRecord old (old.addNew new)

variable {old new : Schema} {name : String} {o n : RecordType} {f : RecordField}

theorem record_name (known : old.record name = .ok o) : o.name = name := by
  simp only [record] at known
  split at known
  next found =>
    cases known
    simpa using List.find?_some found
  next => cases known

namespace Evolves

variable (evolves : old.Evolves new)

include evolves

theorem rootRecord (rooted : old.rootRecord = .ok o) :
    ∃ n, new.rootRecord = .ok n ∧ n.name = o.name := by
  simp only [Schema.rootRecord] at rooted ⊢
  cases root : old.root with
  | none =>
    rw [root] at rooted
    cases rooted
  | some name =>
    rw [root] at rooted
    obtain ⟨n, known, -⟩ := evolves.records name o rooted
    rw [evolves.root, root]
    exact ⟨n, known, (record_name known).trans (record_name rooted).symm⟩

theorem scalarOf {answer : ScalarType × Scalar} (stored : old.scalarOf f = .ok answer) :
    new.scalarOf f = .ok answer := by
  simp only [Schema.scalarOf] at stored ⊢
  cases kind : f.type with
  | scalar t => simpa [kind] using stored
  | enumeration name =>
    simp only [kind] at stored ⊢
    obtain ⟨e, known, stored⟩ := bind_eq_ok.1 stored
    rw [evolves.enums name e known]
    exact stored
  | text | vector | record | struct => simp [kind] at stored

/-- What the earlier schema has a place for in a vector, the later one places alike. -/
theorem resolve {type : ElementType} {element : ResolvedElement}
    (resolved : type.resolve old = .ok element) : type.resolve new = .ok element := by
  cases type with
  | scalar | text => exact resolved
  | record name =>
    obtain ⟨o, known, rfl⟩ := map_eq_ok resolved
    obtain ⟨n, known', -⟩ := evolves.records name o known
    rw [ElementType.resolve, known']
    rfl
  | struct name =>
    obtain ⟨s, known, rfl⟩ := map_eq_ok resolved
    rw [ElementType.resolve, evolves.structs name s known]
    rfl

end Evolves

end Schema

end FlatRecord
