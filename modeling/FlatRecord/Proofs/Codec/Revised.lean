import FlatRecord.Proofs.Codec.Normal

/-! Records that are changed at every level, the inner ones first. Which values are records is what the schema
says of their fields. -/
namespace FlatRecord

section Revising

variable (schema : Schema) (change : String → Record → Record)

mutual

/-- The value with a change made to every record in it that the type knows of. The change is given the name of
the record's type. -/
def revised (type : FieldType) : Value → Value
  | .scalar v => .scalar v
  | .text s => .text s
  | .bytes b => .bytes b
  | .struct entries => .struct entries
  | .vector items =>
    match type with
    | .vector element => .vector (revisedItems element.asField items)
    | _ => .vector items
  | .record entries =>
    match type with
    | .record name =>
      match schema.record name with
      | .ok type => .record (change name (revisedEntries type entries))
      | .error _ => .record entries
    | _ => .record entries

def revisedItems (type : FieldType) : List Value → List Value
  | [] => []
  | v :: rest => revised type v :: revisedItems type rest

def revisedEntries (type : RecordType) : List (String × Value) → List (String × Value)
  | [] => []
  | (name, v) :: rest =>
    (name,
      match type.field? name with
      | some f => revised f.type v
      | none => v) :: revisedEntries type rest

end

/-- The record of the named type, changed at every level. -/
def revisedRecord (typeName : String) (r : Record) : Record :=
  match schema.record typeName with
  | .ok type => change typeName (revisedEntries schema change type r)
  | .error _ => r

end Revising

variable {schema : Schema} {change : String → Record → Record} {r : Record}

theorem revisedItems_eq (type : FieldType) (items : List Value) :
    revisedItems schema change type items = items.map (revised schema change type) := by
  induction items with
  | nil => rfl
  | cons v rest ih => simp [revisedItems, ih]

theorem revised_record (name : String) (r : Record) :
    revised schema change (.record name) (.record r) =
      .record (revisedRecord schema change name r) := by
  simp only [revisedRecord, revised]
  split <;> rfl

theorem revised_vector (type : ElementType) (items : List Value) :
    revised schema change (.vector type) (.vector items) =
      .vector (items.map (revised schema change type.asField)) := by
  simp only [revised, revisedItems_eq]

theorem revisedEntries_eq (type : RecordType) (r : Record) :
    revisedEntries schema change type r = r.map fun entry => (entry.1,
      match type.field? entry.1 with
      | some f => revised schema change f.type entry.2
      | none => entry.2) := by
  induction r with
  | nil => rfl
  | cons entry rest ih =>
    rw [revisedEntries, ih]
    rfl

end FlatRecord
