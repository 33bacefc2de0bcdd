import FlatRecord.Proofs.Codec.Means
import FlatRecord.Proofs.Codec.Written

/-! What stands in a buffer means the normal form of what was to be written, from the elements of vectors up
to whole records. -/
namespace FlatRecord

open Builder Build Encoding

/-- Field names are distinct within each record, and member names within each struct. -/
structure Schema.DistinctNames (schema : Schema) : Prop where
  records : ∀ type ∈ schema.records, (type.fields.map (·.name)).Nodup
  structs : ∀ type ∈ schema.structs, (type.members.map (·.1)).Nodup

theorem Schema.DistinctNames.live {schema : Schema} (names : schema.DistinctNames) {name : String}
    {type : RecordType} (known : schema.record name = .ok type) :
    (type.liveFields.map (·.name)).Nodup :=
  List.Nodup.sublist (List.filter_sublist.map _) (names.records type (record_mem known))

theorem ownedText_toBytes (text : String) : Decoding.ownedText (Text.toBytes text) = .text text := by
  rw [Decoding.ownedText, Text.toText?_toBytes]

variable {schema : Schema} {limits : Limits} {forced : Bool} {b : Builder} {s : List UInt8}
  {f : RecordField} {element : ResolvedElement} {type : ElementType} {field : String} {g : Ground}
  {place : Placement}

section Elements

/-- The bytes of a struct mean its normal form. -/
theorem structBytes_means (forced : Bool) {name : String} {struct : StructType} {value : Value}
    {bytes : List UInt8} (names : schema.DistinctNames) (out : schema.LaidOut)
    (known : schema.struct name = .ok struct) (ordered : value.Ordered)
    (written : structBytes struct value field = .ok bytes) :
    ∃ entries : Record, normal schema forced (.struct name) value =
        .struct (entries.map (normalMember struct)) ∧
      (struct.members.map (·.1)).Nodup ∧ entries.Sorted ∧ Complete struct entries bytes := by
  have distinct := names.structs struct (Schema.struct_mem known)
  obtain ⟨entries, rfl | rfl, complete⟩ := structBytes_spec (out.struct known) written
  · exact ⟨entries, by simp [normal, known], distinct, ordered.1, complete⟩
  · exact ⟨entries, by simp [normal, known], distinct, ordered.1, complete⟩

/-- Records that stand in such a place mean their normal forms. -/
def PlaceMeans (schema : Schema) (limits : Limits) (forced : Bool) (place : Placement) : Prop :=
  ∀ g name r d, place g name r d → Record.Ordered r →
    RecordMeans schema limits g.bytes name d (normalRecord schema forced name r)

theorem TextStands.normal {v : Value} {d : Nat} (stands : TextStands g v d) (schema : Schema)
    (forced : Bool) : ∃ bytes, TextStored g.bytes d bytes ∧
      normal schema forced .text v = Decoding.ownedText bytes.toArray := by
  obtain ⟨bytes, text, stored⟩ := stands.stored
  refine ⟨bytes, stored, ?_⟩
  cases v with
  | text s =>
    cases text
    simp [FlatRecord.normal, ownedText_toBytes]
  | bytes b =>
    cases text
    simp [FlatRecord.normal]
  | scalar | vector | record | struct => cases text

theorem element_means {v : Value} {p : Piece} (names : schema.DistinctNames) (out : schema.LaidOut)
    (means : PlaceMeans schema limits forced place) (resolved : type.resolve schema = .ok element)
    (ordered : v.Ordered) (stands : ElementStands schema place g type v p) :
    ElementMeans schema limits g.bytes element p (normal schema forced type.asField v) := by
  cases stands with
  | @scalar t v w converted =>
    cases resolved
    have same : w.type = t := Scalar.type_convert converted
    subst same
    have value : normal schema forced (.scalar w.type) (.scalar v) = .scalar w := by
      simp [normal, converted]
    rw [ElementType.asField, value]
    exact scalar_means w
  | struct known written =>
    obtain ⟨s', known', rfl⟩ := map_eq_ok resolved
    cases known.symm.trans known'
    obtain ⟨entries, same, distinct, sorted, complete⟩ :=
      structBytes_means forced names out known ordered written
    rw [ElementType.asField, same]
    exact struct_means distinct sorted complete
  | text stands =>
    cases resolved
    obtain ⟨bytes, stored, same⟩ := stands.normal schema forced
    rw [ElementType.asField, same]
    exact text_means stored
  | record stands =>
    obtain ⟨record, -, rfl⟩ := map_eq_ok resolved
    rw [ElementType.asField, normal_record]
    exact record_means (means _ _ _ _ stands ordered)

theorem vector_means {items : List Value} {d : Nat} (names : schema.DistinctNames)
    (out : schema.LaidOut) (means : PlaceMeans schema limits forced place) (kind : f.type = .vector type)
    (ordered : Value.OrderedItems items) (stands : VectorStands schema place g type items d) :
    FieldMeans schema limits g.bytes f (.ref .vector d) (normal schema forced f.type (.vector items)) := by
  obtain ⟨element, elements, known, all, level⟩ := stands
  have whole : normal schema forced f.type (.vector items) =
      .vector (items.map (normal schema forced type.asField)) := by
    simp [kind, normal, normalItems_eq]
  rw [whole]
  apply vectorField_means kind known level.stored
  rw [List.forall₂_map_right_iff]
  apply List.Forall₂.flip
  apply ((List.forall₂_and_left _ _).2 ⟨Value.orderedItems_iff.1 ordered, all⟩).imp
  intro item p here
  exact element_means names out means known here.1 here.2

end Elements

section Fields

/-- The scalar of a field is its value's normal form. -/
theorem fieldScalar_normal {t : ScalarType} {default w : Scalar} {value : Value} (forced : Bool)
    (scalar : schema.scalarOf f = .ok (t, default)) (written : fieldScalar schema f t value = .ok w) :
    w.type = t ∧ normal schema forced f.type value = .scalar w := by
  refine ⟨type_fieldScalar written, ?_⟩
  simp only [fieldScalar] at written
  split at written
  next v =>
    have converted := coerce_eq_ok.1 written
    rcases scalarOf_type scalar with ⟨t', kind⟩ | ⟨name, kind⟩
    · have same : t' = t := by
        simp only [Schema.scalarOf] at scalar
        simp only [kind, Except.ok.injEq, Prod.mk.injEq] at scalar
        exact scalar.1
      simp [kind, normal, same, converted]
    · obtain ⟨e, known, same⟩ := scalarOf_enumeration kind scalar
      simp [kind, normal, known, same, converted]
  next variant name kind =>
    obtain ⟨e, known, same⟩ := scalarOf_enumeration kind scalar
    rw [known, ok_bind] at written
    obtain ⟨i, found, written⟩ := bind_eq_ok.1 written
    simp [kind, normal, known, found, same, written]
  next => cases written

/-- A pending field will mean the value. A scalar may yet turn out to equal its default. -/
def PendingMeans (schema : Schema) (limits : Limits) (s : List UInt8) (f : RecordField)
    (value : Value) : Pending → Prop
  | .scalar slot w default =>
    slot = f.slot ∧ schema.scalarOf f = .ok (w.type, default) ∧ value = .scalar w
  | .struct slot bytes _ => slot = f.slot ∧ (∀ t, schema.scalarOf f ≠ .ok t) ∧
    FieldMeans schema limits s f (.own bytes) value
  | .ref slot kind child => slot = f.slot ∧ (∀ t, schema.scalarOf f ≠ .ok t) ∧
    FieldMeans schema limits s f (.ref kind child.distance) value

theorem not_scalar (scalar : ∀ t, f.type ≠ .scalar t)
    (enumeration : ∀ name, f.type ≠ .enumeration name) (t : ScalarType × Scalar) :
    schema.scalarOf f ≠ .ok t := by
  intro found
  rcases scalarOf_type found with ⟨t, kind⟩ | ⟨name, kind⟩
  · exact scalar t kind
  · exact enumeration name kind

theorem element_not_scalar (kind : f.type = type.asField) (other : ∀ t, type ≠ .scalar t) :
    ∀ t, schema.scalarOf f ≠ .ok t := by
  apply not_scalar
  · intro t same
    cases type with
    | scalar => exact other _ rfl
    | text | record | struct => cases kind.symm.trans same
  · intro name same
    cases type <;> cases kind.symm.trans same

/-- Only scalar fields have defaults to be equal to. -/
theorem settleDefault_same {value : Value} (none : ∀ t, schema.scalarOf f ≠ .ok t) :
    settleDefault schema forced f value = value := by
  simp only [settleDefault]
  split
  next found => exact absurd found (none _)
  next => rfl

theorem PendingMeans.slot {value : Value} {p : Pending}
    (means : PendingMeans schema limits s f value p) : p.slot = f.slot := by
  cases p <;> exact means.1

theorem pending_means {v : Value} {p : Pending} (names : schema.DistinctNames)
    (out : schema.LaidOut) (means : PlaceMeans schema limits forced place) (ordered : v.Ordered)
    (stands : FieldStands schema place g f v p) :
    PendingMeans schema limits g.bytes f (normal schema forced f.type v) p := by
  cases stands with
  | scalar stored written =>
    obtain ⟨type, same⟩ := fieldScalar_normal forced stored written
    exact ⟨rfl, by rw [type]; exact stored, same⟩
  | struct kind known written =>
    obtain ⟨entries, same, distinct, sorted, complete⟩ :=
      structBytes_means forced names out known ordered written
    refine ⟨rfl, not_scalar (by simp [kind]) (by simp [kind]), ?_⟩
    rw [kind, same]
    exact structField_means kind known distinct sorted complete
  | text kind stands =>
    obtain ⟨bytes, stored, same⟩ := stands.normal schema forced
    refine ⟨rfl, not_scalar (by simp [kind]) (by simp [kind]), ?_⟩
    rw [kind, same]
    exact textField_means kind stored
  | vector kind stands =>
    refine ⟨rfl, not_scalar (by simp [kind]) (by simp [kind]), ?_⟩
    exact vector_means names out means kind ordered stands
  | record kind stands =>
    refine ⟨rfl, not_scalar (by simp [kind]) (by simp [kind]), ?_⟩
    rw [kind, normal_record]
    exact recordField_means kind (means _ _ _ _ stands ordered)

end Fields

section Records

variable {record : RecordType} {r : Record} {pending : List Pending}

/-- Every field is pending that the record has a value for, and no other. -/
def AllPending (schema : Schema) (limits : Limits) (s : List UInt8) (forced : Bool) (r : Record)
    (fields : List RecordField) (pending : List Pending) : Prop :=
  List.Forall₂ (fun f p => ∃ v, r.get? f.name = some v ∧
    PendingMeans schema limits s f (normal schema forced f.type v) p) fields pending

theorem same_field (valid : record.Valid schema) {f g : RecordField} (first : f ∈ record.liveFields)
    (second : g ∈ record.liveFields) (same : f.slot = g.slot) : f = g :=
  List.inj_on_of_nodup_map valid.slots (List.mem_of_mem_filter first)
    (List.mem_of_mem_filter second) same

/-- A slot that was written was written for the field that has it. -/
theorem pending_origin (valid : record.Valid schema)
    (all : AllPending schema limits s forced r (presentFields record r) pending)
    {fields : List (Nat × Piece)}
    (written : ∀ place, place ∈ fields ↔ ∃ p ∈ pending, p.field? forced = some place)
    (mem : f ∈ record.liveFields) (inside : f.slot ∈ fields.map (·.1)) :
    ∃ p v place, p.field? forced = some place ∧ r.get? f.name = some v ∧
      PendingMeans schema limits s f (normal schema forced f.type v) p := by
  obtain ⟨place, inside, slot⟩ := List.mem_map.1 inside
  obtain ⟨p, among, here⟩ := (written place).1 inside
  obtain ⟨g, present, v, found, means⟩ := related_right all among
  have same : g = f := same_field valid (List.mem_of_mem_filter present) mem
    ((means.slot.symm.trans (slot_of_field? here).symm).trans slot)
  subst same
  exact ⟨p, v, place, here, found, means⟩

theorem pending_kept (valid : record.Valid schema)
    (all : AllPending schema limits s forced r (presentFields record r) pending)
    {fields : List (Nat × Piece)}
    (written : ∀ place, place ∈ fields ↔ ∃ p ∈ pending, p.field? forced = some place)
    (mem : f ∈ record.liveFields) :
    FieldKept schema limits s fields f (fieldValue schema forced r f) := by
  have origin := pending_origin valid all written mem
  cases found : r.get? f.name with
  | none =>
    refine .inl ⟨fun inside => ?_, by simp [fieldValue, found]⟩
    obtain ⟨_, _, _, _, found', _⟩ := origin inside
    rw [found] at found'
    cases found'
  | some v =>
    have present : f ∈ presentFields record r := List.mem_filter.2 ⟨mem, by simp [found]⟩
    obtain ⟨p, among, v', found', means⟩ := related_left all present
    cases found.symm.trans found'
    have value : fieldValue schema forced r f =
        some (settleDefault schema forced f (normal schema forced f.type v)) := by
      simp [fieldValue, found]
    rw [value]
    cases p with
    | scalar slot w default =>
      obtain ⟨rfl, scalar, same⟩ := means
      rw [same]
      -- A default is left out, and no other field could have taken its slot.
      by_cases elided : (w.sameNumber default && !forced) = true
      · refine .inl ⟨fun inside => ?_, ?_⟩
        · obtain ⟨q, v'', place, here, found'', means⟩ := origin inside
          cases found.symm.trans found''
          cases q with
          | scalar slot' w' default' =>
            obtain ⟨_, scalar', same'⟩ := means
            cases same.symm.trans same'
            cases scalar.symm.trans scalar'
            simp [Pending.field?, elided] at here
          | struct | ref => exact means.2.1 _ scalar
        · simp only [settleDefault, scalar, defaultValue, Bool.and_comm (!forced), elided, if_true]
      · refine .inr ⟨.own w.toBytes, .scalar w, ?_, ?_, scalarField_means scalar⟩
        · simp only [settleDefault, scalar, Bool.and_comm (!forced)]
          rw [if_neg elided]
        · exact (written _).2 ⟨_, among, by simp only [Pending.field?, if_neg elided]⟩
    | struct slot bytes alignment =>
      obtain ⟨rfl, none, means⟩ := means
      rw [settleDefault_same none]
      exact .inr ⟨_, _, rfl, (written _).2 ⟨_, among, rfl⟩, means⟩
    | ref slot kind child =>
      obtain ⟨rfl, none, means⟩ := means
      rw [settleDefault_same none]
      exact .inr ⟨_, _, rfl, (written _).2 ⟨_, among, rfl⟩, means⟩

theorem names_known {typeName : String} (checked : checkNames record typeName r = .ok ()) :
    ∀ entry ∈ r, ∃ f ∈ record.liveFields, f.name = entry.1 := by
  intro entry mem
  have here := forM_eq_ok.1 checked entry mem
  dsimp only at here
  split at here
  next f found =>
    split at here
    next => cases here
    next live =>
      refine ⟨f, List.mem_filter.2 ⟨List.mem_of_find?_eq_some found, by simpa using live⟩, ?_⟩
      simpa using List.find?_some found
  next => cases here

theorem checkNames_ok {typeName : String} (distinct : (record.fields.map (·.name)).Nodup)
    (known : ∀ entry ∈ r, ∃ f ∈ record.liveFields, f.name = entry.1) :
    checkNames record typeName r = .ok () := by
  apply forM_eq_ok.2
  intro entry mem
  obtain ⟨f, present, same⟩ := known entry mem
  obtain ⟨inside, current⟩ := List.mem_filter.1 present
  have found : record.field? entry.1 = some f := same ▸ find_label _ distinct inside
  have current : f.deprecated = false := by simpa using current
  simp only [found, current]
  rfl

/-- A record means its normal form if its children do. -/
theorem record_stands_means (valid : schema.Valid) (names : schema.DistinctNames) (out : schema.LaidOut)
    (means : PlaceMeans schema limits forced place) :
    PlaceMeans schema limits forced (RecordStands schema forced place) := by
  rintro g typeName r d ⟨record, pending, known, checked, stand, level⟩ ordered
  have among := Schema.record_mem known
  have distinct := names.records record among
  have live : (record.liveFields.map (·.name)).Nodup :=
    distinct.sublist (List.filter_sublist.map _)
  have isValid := valid.records record among
  have all : AllPending schema limits g.bytes forced r (presentFields record r) pending := by
    apply stand.imp
    rintro f p ⟨v, found, stands⟩
    have inside : v.Ordered := 
      Value.orderedEntries_iff.1 ordered.2 _ (Record.mem_of_get? found)
    exact ⟨v, found, pending_means names out means inside stands⟩
  have normal : normalRecord schema forced typeName r =
      collected RecordField.name record.liveFields (fieldValue schema forced r) [] := by
    rw [collected_eq_normal schema forced distinct ordered.1 (names_known checked)]
    simp only [normalRecord, known]
  obtain ⟨start, table, places, stored, -⟩ := level.stands
  rw [normal]
  apply record_stored_means known isValid live ⟨start, table, places, stored⟩
  intro f mem
  apply pending_kept isValid all _ mem
  intro place
  simp [fieldsOf, (byAlignment_perm pending).mem_iff]

theorem levels_stand_mean (limits : Limits) (valid : schema.Valid) (names : schema.DistinctNames)
    (out : schema.LaidOut) (levels : Nat) : PlaceMeans schema limits forced (LevelsStand schema forced levels) := by
  induction levels with
  | zero => exact fun _ _ _ _ never => never.elim
  | succ levels ih => exact record_stands_means valid names out ih

/-- Whatever was written before, a record that is written means its normal form. -/
theorem encode_means (limits : Limits) (valid : schema.Valid) (names : schema.DistinctNames)
    (out : schema.LaidOut) (sound : b.Sound) {typeName : String} (ordered : Record.Ordered r) :
    Makes (encode schema typeName r) b fun ref b' => RecordMeans schema limits b'.settled typeName
      ref.distance (normalRecord schema b.config.forceDefaults typeName r) := by
  have writes := levels_encode valid out (Record.depth r) b typeName r sound rfl rfl
  apply Ends.mono writes
  · rintro ref b' ⟨proceeds, -, stands⟩
    exact ⟨proceeds.toAdvances, levels_stand_mean limits valid names out _ _ _ _ _ stands ordered⟩
  · exact fun _ _ _ => trivial

end Records

end FlatRecord
