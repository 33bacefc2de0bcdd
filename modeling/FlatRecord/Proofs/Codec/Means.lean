import FlatRecord.Proofs.Codec.Structs
import FlatRecord.Proofs.Reading.Stored
import FlatRecord.Proofs.Schema

/-! What stored pieces and records decode to. The meanings speak of every buffer that ends in the given
bytes, so what is written later does not change them. -/
namespace FlatRecord

open Builder Reading Decoding Counted

section Meaning

variable (schema : Schema) (limits : Limits) (s : List UInt8)

/-- The record of that type at distance `d` decodes to `r`. -/
def RecordMeans (name : String) (d : Nat) (r : Record) : Prop :=
  ∀ buf levels, s <:+ buf.toList → Value.levelsEntries r < levels →
    ∃ t, Table.read buf (buf.size - d) = .ok t ∧
      Gives limits (decodeLevels buf schema limits levels name t) r (Value.objectsEntries r + 1)

/-- The piece, wherever it stands as an element of that kind, decodes to `v`. -/
structure ElementMeans (element : ResolvedElement) (p : Piece) (v : Value) : Prop where
  size : p.size = element.inlineSize
  gives : ∀ buf levels owner e, s <:+ buf.toList → PieceStored buf.toList e p → v.levels ≤ levels →
    Gives limits (do
      decodeElement limits (decodeLevels buf schema limits levels) owner
        (← element.read buf (buf.size - e))) v v.objects

/-- The piece, as the field of a record, decodes to `v`. -/
def FieldMeans (f : RecordField) (p : Piece) (v : Value) : Prop :=
  ∀ buf levels (t : Table) fields, s <:+ buf.toList → t.Finds buf fields → (f.slot, p) ∈ fields →
    v.levels ≤ levels → Gives limits (do
      decodeField buf limits (decodeLevels buf schema limits levels) t.position
        (← t.field buf schema f)) (some v) v.objects

end Meaning

variable {schema : Schema} {limits : Limits} {s : List UInt8} {element : ResolvedElement}
  {f : RecordField} {p : Piece} {v : Value} {name : String} {d : Nat} {r : Record}

/-- The bytes of a scalar decode to it. -/
theorem scalar_means (w : Scalar) :
    ElementMeans schema limits s (.scalar w.type) (.own w.toBytes) (.scalar w) := by
  refine ⟨w.length_toBytes, fun buf levels owner e _ stored _ => ?_⟩
  have bytes := slice_of_holds stored.holds
  rw [Piece.length_bytesAt, show (Piece.own w.toBytes).size = w.type.size from w.length_toBytes]
    at bytes
  have read : (ResolvedElement.scalar w.type).read buf (buf.size - e) = .ok (.scalar w) := by
    have back := Scalar.ofBytes_toBytes w []
    rw [List.append_nil] at back
    simp only [ResolvedElement.read, bytes, ok_bind, Piece.bytesAt, pure_eq_ok, back]
  change Gives limits _ _ (0 + 0)
  exact gives_bind (gives_lift read) (gives_pure _)

theorem text_means {bytes : List UInt8} (stored : TextStored s d bytes) :
    ElementMeans schema limits s .text (.ref .text d) (ownedText bytes.toArray) := by
  refine ⟨rfl, fun buf levels owner e inside here _ => ?_⟩
  have read : ResolvedElement.text.read buf (buf.size - e) = .ok (.text bytes.toArray) := by
    simp only [ResolvedElement.read, follow_stored here, ok_bind,
      text_stored_reads (stored.of_suffix inside), pure_eq_ok]
  have objects : (ownedText bytes.toArray).objects = 0 + (1 + 0) := by
    simp only [ownedText]
    split <;> rfl
  rw [objects]
  exact gives_bind (gives_lift read) (gives_bind (gives_charge _) (gives_pure _))

theorem record_means (means : RecordMeans schema limits s name d r) :
    ElementMeans schema limits s (.record name) (.ref .record d) (.record r) := by
  refine ⟨rfl, fun buf levels owner e inside here deep => ?_⟩
  obtain ⟨t, table, gives⟩ := means buf levels inside deep
  have read : (ResolvedElement.record name).read buf (buf.size - e) = .ok (.record name t) := by
    simp only [ResolvedElement.read, follow_stored here, ok_bind, table, pure_eq_ok]
  have objects : (Value.record r).objects = 0 + (Value.objectsEntries r + 1 + 0) := by
    simp [Value.objects]
  rw [objects]
  exact gives_bind (gives_lift read) (gives_bind gives (gives_pure _))

theorem struct_means {type : StructType} {entries : Record} {bytes : List UInt8}
    (distinct : (type.members.map (·.1)).Nodup) (sorted : entries.Sorted)
    (complete : Encoding.Complete type entries bytes) :
    ElementMeans schema limits s (.struct type) (.own bytes)
      (.struct (entries.map (normalMember type))) := by
  refine ⟨complete.length, fun buf levels owner e _ stored _ => ?_⟩
  have here := slice_of_holds stored.holds
  rw [Piece.length_bytesAt, show (Piece.own bytes).size = type.size from complete.length] at here
  have read : (ResolvedElement.struct type).read buf (buf.size - e) =
      .ok (.struct type bytes.toArray) := by
    simp only [ResolvedElement.read, here, ok_bind, Piece.bytesAt, pure_eq_ok]
  change Gives limits _ _ (0 + (0 + 0))
  exact gives_bind (gives_lift read)
    (gives_bind (gives_lift (ownedStruct_written distinct sorted complete)) (gives_pure _))

/-- A field that reads as one value. -/
theorem single_means (means : ElementMeans schema limits s element p v)
    (reads : ∀ buf (t : Table) e,
      t.fieldPosition buf f.slot element.inlineSize = .ok (some (buf.size - e)) →
      ∀ view, element.read buf (buf.size - e) = .ok view →
        t.field buf schema f = .ok (.single view)) : FieldMeans schema limits s f p v := by
  intro buf levels t fields inside finds mem deep c room
  obtain ⟨e, _, stored, position⟩ := finds.present f.slot p mem
  rw [means.size] at position
  have gives := means.gives buf levels t.position e inside stored deep c room
  cases read : element.read buf (buf.size - e) with
  | error error =>
    rw [read] at gives
    cases gives
  | ok view =>
    rw [read] at gives
    rw [reads buf t e position view read]
    have here : (decodeElement limits (decodeLevels buf schema limits levels) t.position view).run c =
        .ok (v, c + v.objects) := gives
    change (some <$> decodeElement limits _ t.position view).run c = _
    rw [StateT.run_map, here]
    rfl

theorem scalarField_means {default w : Scalar} (scalar : schema.scalarOf f = .ok (w.type, default)) :
    FieldMeans schema limits s f (.own w.toBytes) (.scalar w) := by
  apply single_means (scalar_means w)
  intro buf t e position view read
  simp only [ResolvedElement.inlineSize] at position
  obtain ⟨bytes, here, same⟩ := bind_eq_ok.1 read
  cases same
  rcases scalarOf_type scalar with ⟨type, kind⟩ | ⟨name, kind⟩ <;>
    simp [Table.field, kind, scalar, position, here]

theorem structField_means {type : StructType} {entries : Record} {bytes : List UInt8}
    (kind : f.type = .struct name) (known : schema.struct name = .ok type)
    (distinct : (type.members.map (·.1)).Nodup) (sorted : entries.Sorted)
    (complete : Encoding.Complete type entries bytes) :
    FieldMeans schema limits s f (.own bytes) (.struct (entries.map (normalMember type))) := by
  apply single_means (struct_means distinct sorted complete)
  intro buf t e position view read
  simp only [ResolvedElement.inlineSize] at position
  obtain ⟨bytes, here, same⟩ := bind_eq_ok.1 read
  cases same
  simp [Table.field, kind, known, Table.struct?, position, here, Table.ofOption]

theorem textField_means {bytes : List UInt8} (kind : f.type = .text)
    (stored : TextStored s d bytes) :
    FieldMeans schema limits s f (.ref .text d) (ownedText bytes.toArray) := by
  apply single_means (text_means stored)
  intro buf t e position view read
  simp only [ResolvedElement.inlineSize] at position
  obtain ⟨pos, place, read⟩ := bind_eq_ok.1 read
  obtain ⟨bytes, here, same⟩ := bind_eq_ok.1 read
  cases same
  simp [Table.field, kind, Table.text?, Table.target, position, place, here, Table.ofOption]

theorem recordField_means (kind : f.type = .record name)
    (means : RecordMeans schema limits s name d r) :
    FieldMeans schema limits s f (.ref .record d) (.record r) := by
  apply single_means (record_means means)
  intro buf t e position view read
  simp only [ResolvedElement.inlineSize] at position
  obtain ⟨pos, place, read⟩ := bind_eq_ok.1 read
  obtain ⟨child, here, same⟩ := bind_eq_ok.1 read
  cases same
  simp [Table.field, kind, Table.record?, Table.target, position, place, here, Table.ofOption]

/-- The elements that stand in a stored vector, by number. -/
theorem elements_give {elements : List Piece} {values : List Value} {buf : Bytes} {levels : Nat}
    (stored : VectorStored buf.toList d element.inlineSize elements) (suffix : s <:+ buf.toList)
    (means : List.Forall₂ (ElementMeans schema limits s element) elements values)
    (deep : ∀ v ∈ values, v.levels ≤ levels) (owner : Nat) :
    Gives limits ((List.range elements.length).mapM fun i => do
      decodeElement limits (decodeLevels buf schema limits levels) owner
        (← (⟨element, buf.size - d + offsetSize, elements.length⟩ : FieldVector).get buf i))
      values (values.map Value.objects).sum := by
  refine gives_mapM (List.forall₂_iff_get.2 ⟨?_, fun i here there => ?_⟩)
  · rw [List.length_range, means.length_eq]
  · rw [List.length_range] at here
    have found : elements[i]? = some elements[i] := List.getElem?_eq_getElem here
    have mean : ElementMeans schema limits s element elements[i] values[i] := means.get here there
    have gives := mean.gives buf levels owner _ suffix (stored.element i _ found)
      (deep _ (List.getElem_mem there))
    simp only [List.get_eq_getElem, List.getElem_range, FieldVector.get_eq]
    rw [if_neg (Nat.not_le.2 here), element_position stored found]
    exact gives

theorem objectsItems_eq (items : List Value) :
    Value.objectsItems items = (items.map Value.objects).sum := by
  induction items with
  | nil => rfl
  | cons v rest ih => simp [Value.objectsItems, ih]

theorem vectorField_means {type : ElementType} {elements : List Piece} {values : List Value}
    (kind : f.type = .vector type) (known : type.resolve schema = .ok element)
    (stored : VectorStored s d element.inlineSize elements)
    (means : List.Forall₂ (ElementMeans schema limits s element) elements values) :
    FieldMeans schema limits s f (.ref .vector d) (.vector values) := by
  intro buf levels t fields inside finds mem deep
  have here : VectorStored buf.toList d element.inlineSize elements := stored.of_suffix inside
  have read : t.field buf schema f =
      .ok (.vector ⟨element, buf.size - d + offsetSize, elements.length⟩) := by
    simp [Table.field, kind, finds.target_ref mem, known, vectorHeader_stored here]
  have items := elements_give here inside means (Value.levelsItems_le.1 deep)
    (buf.size - d + offsetSize)
  have objects : (Value.vector values).objects = 0 + (1 + ((values.map Value.objects).sum + 0)) := by
    simp only [Value.objects, objectsItems_eq]
    omega
  rw [objects]
  exact gives_bind (gives_lift read)
    (gives_map (gives_bind (gives_charge _) (gives_bind items (gives_pure _))))

/-- A field that is not there reads as its default, if it has one. -/
theorem absent_reads {buf : Bytes} {t : Table} {fields : List (Nat × Piece)}
    (valid : f.Valid schema) (finds : t.Finds buf fields)
    (missing : f.slot ∉ fields.map (·.1)) :
    (∃ default, defaultValue schema f = some (.scalar default) ∧
      t.field buf schema f = .ok (.single (.scalar default))) ∨
    defaultValue schema f = none ∧ t.field buf schema f = .ok .absent := by
  have nowhere := finds.fieldPosition_absent missing
  have target := finds.target_absent missing
  simp only [RecordField.Valid] at valid
  cases kind : f.type with
  | scalar | enumeration =>
    simp only [kind] at valid
    obtain ⟨default, found⟩ := valid
    exact .inl ⟨default, by simp [defaultValue, found], by simp [Table.field, kind, found, nowhere]⟩
  | text =>
    exact .inr ⟨by simp [defaultValue, Schema.scalarOf, kind],
      by simp [Table.field, kind, Table.text?, target, Table.ofOption]⟩
  | record name =>
    exact .inr ⟨by simp [defaultValue, Schema.scalarOf, kind],
      by simp [Table.field, kind, Table.record?, target, Table.ofOption]⟩
  | vector element =>
    exact .inr ⟨by simp [defaultValue, Schema.scalarOf, kind],
      by simp [Table.field, kind, target]⟩
  | struct name =>
    simp only [kind] at valid
    obtain ⟨type, found⟩ := valid
    exact .inr ⟨by simp [defaultValue, Schema.scalarOf, kind],
      by simp [Table.field, kind, found, Table.struct?, nowhere, Table.ofOption]⟩

/-- What a stored record has for a field: a piece with a meaning, or nothing. -/
def FieldKept (schema : Schema) (limits : Limits) (s : List UInt8) (fields : List (Nat × Piece))
    (f : RecordField) (value : Option Value) : Prop :=
  f.slot ∉ fields.map (·.1) ∧ value = defaultValue schema f ∨
    ∃ p v, value = some v ∧ (f.slot, p) ∈ fields ∧ FieldMeans schema limits s f p v

/-- The number of objects in a value that may be absent. -/
def cost (value : Option Value) : Nat := (value.map Value.objects).getD 0

theorem field_gives {buf : Bytes} {t : Table} {fields : List (Nat × Piece)} {value : Option Value}
    {levels : Nat} (valid : f.Valid schema) (suffix : s <:+ buf.toList) (finds : t.Finds buf fields)
    (kept : FieldKept schema limits s fields f value)
    (deep : ∀ v, value = some v → v.levels ≤ levels) :
    Gives limits (do
      decodeField buf limits (decodeLevels buf schema limits levels) t.position
        (← t.field buf schema f)) value (cost value) := by
  rcases kept with ⟨missing, rfl⟩ | ⟨p, v, rfl, mem, means⟩
  · rcases absent_reads valid finds missing with ⟨default, value, reads⟩ | ⟨value, reads⟩
    · have single : Gives limits (decodeField buf limits (decodeLevels buf schema limits levels)
          t.position (.single (.scalar default))) (some (.scalar default)) 0 := gives_map (gives_pure _)
      rw [value]
      exact gives_bind (gives_lift reads) single
    · have nothing : Gives limits (decodeField buf limits (decodeLevels buf schema limits levels)
          t.position .absent) none 0 := gives_pure _
      rw [value]
      exact gives_bind (gives_lift reads) nothing
  · exact means buf levels t fields suffix finds mem (deep v rfl)

theorem objects_set {name : String} {v : Value} (fresh : r.get? name = none) :
    Value.objectsEntries (r.set name v) = v.objects + Value.objectsEntries r := by
  induction r with
  | nil => rfl
  | cons entry rest ih =>
    rw [Record.get?_cons] at fresh
    split at fresh
    next => cases fresh
    next other =>
      simp only [Record.set]
      split
      next => rfl
      next =>
        rw [if_neg (Ne.symm other)]
        simp only [Value.objectsEntries, ih fresh]
        omega

/-- Sets what is there. -/
def Record.put (r : Record) (name : String) : Option Value → Record
  | some v => r.set name v
  | none => r

theorem objects_put {name : String} (fresh : r.get? name = none) (value : Option Value) :
    Value.objectsEntries (r.put name value) = cost value + Value.objectsEntries r := by
  cases value with
  | none => simp [Record.put, cost]
  | some v => exact objects_set fresh

theorem get?_put_other {name other : String} (apart : name ≠ other) (value : Option Value) :
    (r.put name value).get? other = r.get? other := by
  cases value with
  | none => rfl
  | some v => rw [Record.put, Record.get?_set, if_neg apart]

theorem put_gives {x : Counted (Option Value)} {value : Option Value} (name : String) (r : Record)
    (gives : Gives limits x value (cost value)) :
    Gives limits (do
      match ← x with
      | some v => return Record.set r name v
      | none => return r) (r.put name value) (cost value) := by
  rw [← Nat.add_zero (cost value)]
  apply gives_bind gives
  cases value <;> exact gives_pure _

/-- The values of fields that read one after the other are collected. -/
theorem fields_give {items : List RecordField} {value : RecordField → Option Value}
    {x : RecordField → Counted (Option Value)} (distinct : (items.map (·.name)).Nodup)
    (fresh : ∀ f ∈ items, r.get? f.name = none)
    (each : ∀ f ∈ items, Gives limits (x f) (value f) (cost (value f))) :
    ∃ n, Value.objectsEntries (collected RecordField.name items value r) =
        Value.objectsEntries r + n ∧
      Gives limits (items.foldlM (fun r f => do
        match ← x f with
        | some v => return Record.set r f.name v
        | none => return r) r) (collected RecordField.name items value r) n := by
  induction items generalizing r with
  | nil => exact ⟨0, rfl, gives_pure r⟩
  | cons f rest ih =>
    obtain ⟨other, distinct⟩ := List.nodup_cons.1 distinct
    have step : collected RecordField.name (f :: rest) value r =
        collected RecordField.name rest value (r.put f.name (value f)) := rfl
    have apart : ∀ g ∈ rest, (r.put f.name (value f)).get? g.name = none := by
      intro g mem
      have names : f.name ≠ g.name := fun same => other (List.mem_map.2 ⟨g, mem, same.symm⟩)
      rw [get?_put_other names, fresh g (List.mem_cons_of_mem f mem)]
    obtain ⟨n, total, gives⟩ := ih distinct apart fun g mem => each g (List.mem_cons_of_mem f mem)
    refine ⟨cost (value f) + n, ?_, ?_⟩
    · rw [step, total, objects_put (fresh f List.mem_cons_self)]
      omega
    · rw [step, List.foldlM_cons]
      exact gives_bind (put_gives f.name r (each f List.mem_cons_self)) gives

/-- A stored record of which every live field has a meaning. -/
theorem record_stored_means {type : RecordType} {fields : List (Nat × Piece)}
    {value : RecordField → Option Value} (known : schema.record name = .ok type)
    (valid : type.Valid schema) (distinct : (type.liveFields.map (·.name)).Nodup)
    (stored : RecordStored s d fields)
    (kept : ∀ f ∈ type.liveFields, FieldKept schema limits s fields f (value f)) :
    RecordMeans schema limits s name d
      (collected RecordField.name type.liveFields value []) := by
  intro buf levels suffix deep
  obtain ⟨t, read, position, finds⟩ := record_stored_reads (stored.of_suffix suffix)
  refine ⟨t, read, ?_⟩
  cases levels with
  | zero => omega
  | succ levels =>
    have each : ∀ f ∈ type.liveFields, Gives limits (do
        decodeField buf limits (decodeLevels buf schema limits levels) t.position
          (← t.field buf schema f)) (value f) (cost (value f)) := by
      intro f mem
      apply field_gives (valid.fields f (List.mem_of_mem_filter mem)) suffix finds (kept f mem)
      intro v same
      have found : (collected RecordField.name type.liveFields value []).get? f.name = some v := by
        rw [get?_collected _ _ distinct, find_label _ distinct mem]
        simp [same]
      exact Value.levelsEntries_le.1 (Nat.le_of_lt_succ deep) _ (Record.mem_of_get? found)
    obtain ⟨n, total, gives⟩ := fields_give (r := []) distinct (fun _ _ => rfl) each
    simp only [Value.objectsEntries, Nat.zero_add] at total
    simp only [bind_assoc] at gives
    rw [total, Nat.add_comm n 1, ← Nat.zero_add n]
    exact gives_bind (gives_charge _) (gives_bind (gives_lift known) gives)

end FlatRecord
