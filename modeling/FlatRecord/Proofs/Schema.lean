import FlatRecord.Proofs.Results
import FlatRecord.Schema.Basic
import Mathlib.Data.List.Nodup

/-! What a schema without conflicts promises: every name that a field needs is known, the defaults are of
their fields' types, and no two fields of a record share a slot. -/
namespace FlatRecord

/-- The names of the field's type are known, and its default is of its type. -/
def RecordField.Valid (schema : Schema) (f : RecordField) : Prop :=
  match f.type with
  | .scalar _ | .enumeration _ => ∃ default, schema.scalarOf f = .ok (default.type, default)
  | .record name | .vector (.record name) => ∃ type, schema.record name = .ok type
  | .struct name | .vector (.struct name) => ∃ type, schema.struct name = .ok type
  | .text | .vector (.scalar _) | .vector .text => True

structure RecordType.Valid (schema : Schema) (type : RecordType) : Prop where
  slots : (type.fields.map (·.slot)).Nodup
  small : ∀ f ∈ type.fields, f.slot < slotLimit
  fields : ∀ f ∈ type.fields, f.Valid schema

structure Schema.Valid (schema : Schema) : Prop where
  records : ∀ type ∈ schema.records, type.Valid schema
  root : ∀ name, schema.root = some name → ∃ type, schema.record name = .ok type

variable {schema : Schema} {type : RecordType} {f : RecordField} {name : String}

theorem scalarOf_type {answer : ScalarType × Scalar} (stored : schema.scalarOf f = .ok answer) :
    (∃ t, f.type = .scalar t) ∨ ∃ name, f.type = .enumeration name := by
  simp only [Schema.scalarOf] at stored
  split at stored
  next t kind => exact .inl ⟨t, kind⟩
  next name kind => exact .inr ⟨name, kind⟩
  next => cases stored

theorem scalarOf_enumeration {t : ScalarType} {default : Scalar} (kind : f.type = .enumeration name)
    (stored : schema.scalarOf f = .ok (t, default)) :
    ∃ e, schema.enumeration name = .ok e ∧ e.underlying = t := by
  simp only [Schema.scalarOf] at stored
  simp only [kind] at stored
  obtain ⟨e, known, stored⟩ := bind_eq_ok.1 stored
  refine ⟨e, known, ?_⟩
  split at stored
  next => cases stored; rfl
  next =>
    obtain ⟨_, _, stored⟩ := bind_eq_ok.1 stored
    obtain ⟨_, _, stored⟩ := bind_eq_ok.1 stored
    cases stored
    rfl

theorem RecordField.Valid.default_type (valid : f.Valid schema) {t : ScalarType} {default : Scalar}
    (stored : schema.scalarOf f = .ok (t, default)) : default.type = t := by
  have known : ∃ default, schema.scalarOf f = .ok (default.type, default) := by
    simp only [RecordField.Valid] at valid
    rcases scalarOf_type stored with ⟨t, kind⟩ | ⟨name, kind⟩
    · simpa only [kind] using valid
    · simpa only [kind] using valid
  obtain ⟨default, known⟩ := known
  cases stored.symm.trans known
  rfl

namespace Schema

theorem nodup_slots (none : repeatedSlot? type = none) : (type.fields.map (·.slot)).Nodup := by
  have empty := List.min?_eq_none_iff.1 none
  apply List.nodup_iff_count_le_one.2
  intro slot
  by_contra often
  have mem : slot ∈ type.fields.map (·.slot) := List.count_pos_iff.1 (by omega)
  have kept : slot ∈ (type.fields.map (·.slot)).filter
      fun slot => 1 < (type.fields.map (·.slot)).count slot :=
    List.mem_filter.2 ⟨mem, by simpa using often⟩
  rw [empty] at kept
  cases kept

theorem validateField_small (valid : schema.validateField type f = .ok ()) : f.slot < slotLimit := by
  simp only [validateField] at valid
  exact Nat.not_le.1 (check_eq_ok.1 valid).1

theorem validateField_valid (valid : schema.validateField type f = .ok ()) : f.Valid schema := by
  simp only [validateField] at valid
  obtain ⟨-, valid⟩ := check_eq_ok.1 valid
  simp only [RecordField.Valid]
  cases kind : f.type with
  | scalar | enumeration =>
    simp only [kind] at valid
    obtain ⟨⟨type, default⟩, found, valid⟩ := bind_eq_ok.1 valid
    obtain ⟨same, -⟩ := check_eq_ok.1 valid
    have same : default.type = type := by simpa using same
    exact ⟨default, same ▸ found⟩
  | text => trivial
  | record name | struct name =>
    simp only [kind] at valid
    obtain ⟨type, found, -⟩ := bind_eq_ok.1 valid
    exact ⟨type, found⟩
  | vector element =>
    cases element with
    | scalar | text => trivial
    | record name | struct name =>
      simp only [kind] at valid
      obtain ⟨type, found, -⟩ := bind_eq_ok.1 valid
      exact ⟨type, found⟩

theorem validateRecord_valid (valid : schema.validateRecord type = .ok ()) : type.Valid schema := by
  simp only [validateRecord] at valid
  cases shared : repeatedSlot? type with
  | some slot => simp [shared] at valid
  | none =>
    simp only [shared] at valid
    have each := forM_eq_ok.1 valid
    exact ⟨nodup_slots shared, fun f mem => validateField_small (each f mem),
      fun f mem => validateField_valid (each f mem)⟩

theorem valid_of_validate (valid : schema.validate = .ok ()) : schema.Valid := by
  simp only [validate] at valid
  cases root : schema.root with
  | some name =>
    simp only [root] at valid
    obtain ⟨type, known, valid⟩ := bind_eq_ok.1 valid
    refine ⟨fun type mem => validateRecord_valid (forM_eq_ok.1 valid type mem), fun name' same => ?_⟩
    cases root.symm.trans same
    exact ⟨type, known⟩
  | none =>
    simp only [root] at valid
    exact ⟨fun type mem => validateRecord_valid (forM_eq_ok.1 valid type mem),
      fun name' same => nomatch root.symm.trans same⟩

theorem record_mem (found : schema.record name = .ok type) : type ∈ schema.records := by
  simp only [record] at found
  split at found
  next here =>
    cases found
    exact List.mem_of_find?_eq_some here
  next => cases found

theorem struct_mem {type : StructType} (found : schema.struct name = .ok type) : type ∈ schema.structs := by
  simp only [struct] at found
  split at found
  next here =>
    cases found
    exact List.mem_of_find?_eq_some here
  next => cases found

theorem LaidOut.struct (out : schema.LaidOut) {type : StructType} (found : schema.struct name = .ok type) :
    type.LaidOut :=
  out type (struct_mem found)

theorem record_root (rooted : schema.rootRecord = .ok type) : schema.record type.name = .ok type := by
  simp only [rootRecord] at rooted
  split at rooted
  next name _ =>
    have found := rooted
    simp only [record] at found
    split at found
    next here =>
      cases found
      have same : type.name = name := by simpa using List.find?_some here
      rwa [same]
    next => cases found
  next => cases rooted

end Schema

/-- Records with one such struct, and with a vector of them. -/
def RecordType.holding (s : StructType) : RecordType :=
  { name := "Holder", fields := [.ofType "one" 0 (.struct s.name), .ofType "many" 1 (.vector (.struct s.name))] }

namespace Schema

def holding (s : StructType) : Schema := { records := [.holding s], structs := [s], root := some "Holder" }

/-- Whatever the layout of the struct is, the schema is valid. -/
theorem validate_holding (s : StructType) : (holding s).validate = .ok () := by
  have known : (holding s).struct s.name = .ok s := by simp [holding, struct]
  have fields : ∀ f ∈ (RecordType.holding s).fields, (holding s).validateField (.holding s) f = .ok () := by
    have limit : slotLimit = 32765 := rfl
    intro f mem
    rcases List.mem_cons.1 mem with rfl | mem
    · simp [validateField, RecordField.ofType, known, limit]
    · cases List.mem_singleton.1 mem
      simp [validateField, RecordField.ofType, known, limit]
  have records : (holding s).records.forM (holding s).validateRecord = .ok () := by
    refine forM_eq_ok.2 fun type mem => ?_
    cases List.mem_singleton.1 mem
    exact forM_eq_ok.2 fields
  have root : (holding s).record "Holder" = .ok (.holding s) := rfl
  change (do let _ ← (holding s).record "Holder"; (holding s).records.forM (holding s).validateRecord) = _
  rw [root, ok_bind, records]

end Schema

end FlatRecord
