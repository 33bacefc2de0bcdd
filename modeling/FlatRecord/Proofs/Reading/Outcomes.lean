import FlatRecord.Proofs.Codec.Means
import FlatRecord.Proofs.Reading.Verified

/-! What a decoder has found when it succeeds, apart from what it has counted: one case for each kind of element
and field, with the records inside left open. -/
namespace FlatRecord

open Reading Decoding

section Relations

variable (nested : String → Table → Record → Prop) (buf : Bytes) (schema : Schema) (t : Table)

/-- What an element decodes to, if records decode as `nested` says. -/
inductive ElementView.Decodes : ElementView → Value → Prop where
  | scalar {v : Scalar} : Decodes (.scalar v) (.scalar v)
  | text {bytes : Bytes} : Decodes (.text bytes) (ownedText bytes)
  | record {name : String} {t : Table} {r : Record} (inner : nested name t r) :
      Decodes (.record name t) (.record r)
  | struct {type : StructType} {bytes : Bytes} {entries : Record}
      (owned : ownedStruct type bytes = .ok entries) : Decodes (.struct type bytes) (.struct entries)

/-- What a field decodes to, element by element if it is a vector. -/
inductive FieldView.Decodes : FieldView → Option Value → Prop where
  | absent : Decodes .absent none
  | single {e : ElementView} {v : Value} (decodes : e.Decodes nested v) : Decodes (.single e) (some v)
  | vector {vector : FieldVector} {items : List Value}
      (each : List.Forall₂ (fun i item => ∃ e, vector.get buf i = .ok e ∧ e.Decodes nested item)
        (List.range vector.length) items) : Decodes (.vector vector) (some (.vector items))

/-- What the field of a record decodes to, as the schema describes it. -/
def Table.Decodes (f : RecordField) (value : Option Value) : Prop :=
  ∃ view, t.field buf schema f = .ok view ∧ view.Decodes nested buf value

/-- Fields that are set one after the other, each to a value that it can have. -/
inductive FieldsSet (values : RecordField → Option Value → Prop) :
    Record → List RecordField → Record → Prop where
  | nil {r : Record} : FieldsSet values r [] r
  | cons {r r' : Record} {f : RecordField} {rest : List RecordField} {value : Option Value}
      (here : values f value) (later : FieldsSet values (r.put f.name value) rest r') :
      FieldsSet values r (f :: rest) r'

end Relations

variable {nested nested' : String → Table → Record → Prop} {buf : Bytes} {schema : Schema} {t : Table}
  {limits : Limits} {child : Child} {owner : Nat} {e : ElementView} {view : FieldView} {v : Value}
  {value : Option Value} {f : RecordField} {items : List RecordField} {r r' : Record} {name : String}

section Weakening

theorem ElementView.Decodes.mono (decodes : e.Decodes nested v)
    (weaker : ∀ name t r, nested name t r → nested' name t r) : e.Decodes nested' v := by
  cases decodes with
  | scalar => exact .scalar
  | text => exact .text
  | record inner => exact .record (weaker _ _ _ inner)
  | struct owned => exact .struct owned

theorem FieldView.Decodes.mono (decodes : view.Decodes nested buf value)
    (weaker : ∀ name t r, nested name t r → nested' name t r) : view.Decodes nested' buf value := by
  cases decodes with
  | absent => exact .absent
  | single decodes => exact .single (decodes.mono weaker)
  | vector each =>
    refine .vector (each.imp fun i item found => ?_)
    obtain ⟨e, found, decodes⟩ := found
    exact ⟨e, found, decodes.mono weaker⟩

theorem Table.Decodes.mono (decodes : t.Decodes nested buf schema f value)
    (weaker : ∀ name t r, nested name t r → nested' name t r) :
    t.Decodes nested' buf schema f value := by
  obtain ⟨view, found, decodes⟩ := decodes
  exact ⟨view, found, decodes.mono weaker⟩

theorem FieldsSet.mono {values values' : RecordField → Option Value → Prop}
    (set : FieldsSet values r items r') (weaker : ∀ f value, values f value → values' f value) :
    FieldsSet values' r items r' := by
  induction set with
  | nil => exact .nil
  | cons here _ ih => exact .cons (weaker _ _ here) ih

end Weakening

section Fields

variable {values : RecordField → Option Value → Prop}

/-- Every entry was there before, or is the value of a field. -/
theorem FieldsSet.entry (set : FieldsSet values r items r') {entry : String × Value}
    (mem : entry ∈ r') : entry ∈ r ∨ ∃ f ∈ items, values f (some entry.2) := by
  induction set with
  | nil => exact .inl mem
  | @cons r _ f rest value here _ ih =>
    rcases ih mem with before | ⟨g, among, later⟩
    · cases value with
      | none => exact .inl before
      | some v =>
        rcases Record.mem_set before with rfl | older
        · exact .inr ⟨f, List.mem_cons_self, here⟩
        · exact .inl older
    · exact .inr ⟨g, List.mem_cons_of_mem f among, later⟩

/-- A name stays as it is while all fields of that name are absent. -/
theorem FieldsSet.leaves {key : String} (set : FieldsSet values r items r')
    (absent : ∀ f ∈ items, f.name = key → ∀ value, values f value → value = none) :
    r'.get? key = r.get? key := by
  induction set with
  | nil => rfl
  | @cons r _ f rest value here _ ih =>
    obtain ⟨first, later⟩ := List.forall_mem_cons.1 absent
    rw [ih later]
    by_cases same : f.name = key
    · obtain rfl := first same value here
      rfl
    · rw [get?_put_other same]

/-- The last field of a name that is not absent has its value in the record. -/
theorem FieldsSet.keeps {earlier later : List RecordField}
    (set : FieldsSet values r (earlier ++ f :: later) r') :
    ∃ value, values f value ∧
      ((∀ g ∈ later, g.name = f.name → ∀ value, values g value → value = none) →
        ∀ v, value = some v → r'.get? f.name = some v) := by
  induction earlier generalizing r with
  | nil =>
    obtain - | @⟨_, _, _, _, value, here, set⟩ := set
    refine ⟨value, here, ?_⟩
    rintro absent v rfl
    rw [set.leaves absent, Record.put, Record.get?_set, if_pos rfl]
  | cons g rest ih =>
    obtain - | ⟨-, set⟩ := set
    exact ih set

end Fields

section Passing

theorem decodeElement_decodes (passes : Passes (decodeElement limits child owner e) v) :
    e.Decodes (fun name t r => Passes (child name t) r) v := by
  cases e with
  | scalar w =>
    obtain rfl := passes_pure passes
    exact .scalar
  | text bytes =>
    obtain ⟨_, -, last⟩ := passes_bind passes
    obtain rfl := passes_pure last
    exact .text
  | record name t =>
    obtain ⟨r, inner, last⟩ := passes_bind passes
    obtain rfl := passes_pure last
    exact .record inner
  | struct type bytes =>
    obtain ⟨entries, owned, last⟩ := passes_lift_bind passes
    obtain rfl := passes_pure last
    exact .struct owned

theorem decodeField_decodes (passes : Passes (decodeField buf limits child owner view) value) :
    view.Decodes (fun name t r => Passes (child name t) r) buf value := by
  cases view with
  | absent =>
    obtain rfl := passes_pure passes
    exact .absent
  | single e =>
    obtain ⟨v, inner, rfl⟩ := passes_map passes
    exact .single (decodeElement_decodes inner)
  | vector vector =>
    obtain ⟨v, inner, rfl⟩ := passes_map passes
    obtain ⟨_, -, inner⟩ := passes_bind inner
    obtain ⟨items, each, last⟩ := passes_bind inner
    obtain rfl := passes_pure last
    refine .vector ((passes_mapM_related each).imp fun i item step => ?_)
    obtain ⟨e, found, step⟩ := passes_lift_bind step
    exact ⟨e, found, decodeElement_decodes step⟩

theorem decodeRecord_decodes (passes : Passes (decodeRecord buf schema limits child name t) r) :
    ∃ type, schema.record name = .ok type ∧
      FieldsSet (t.Decodes (fun name t r => Passes (child name t) r) buf schema) [] type.liveFields r := by
  obtain ⟨_, -, passes⟩ := passes_bind passes
  obtain ⟨type, known, passes⟩ := passes_lift_bind passes
  refine ⟨type, known, ?_⟩
  generalize type.liveFields = items, ([] : Record) = start at passes ⊢
  induction items generalizing start with
  | nil =>
    obtain rfl := passes_pure passes
    exact .nil
  | cons f rest ih =>
    rw [List.foldlM_cons] at passes
    obtain ⟨r₁, step, passes⟩ := passes_bind passes
    obtain ⟨view, found, step⟩ := passes_lift_bind step
    obtain ⟨value, decoded, step⟩ := passes_bind step
    obtain rfl : Record.put start f.name value = r₁ := by cases value <;> exact passes_pure step
    exact .cons ⟨view, found, decodeField_decodes decoded⟩ (ih _ passes)

/-- No record is nested no levels deep. -/
theorem decodeLevels_zero (passes : Passes (decodeLevels buf schema limits 0 name t) r) : False := by
  obtain ⟨c, n, run⟩ := passes
  cases run

end Passing

end FlatRecord
