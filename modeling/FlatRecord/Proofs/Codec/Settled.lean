import FlatRecord.Proofs.Codec.Reencoded
import FlatRecord.Proofs.Codec.Revised

/-! What is lost where defaults are not written. Normal forms are in normal form, and a record that was read is
its own normal form, except for the scalars that equal their defaults as numbers: they settle to them. -/
namespace FlatRecord

open Builder Encoding Decoding

section Again

variable {schema : Schema} {forced before : Bool} {f : RecordField} {record : RecordType} {r : Record}

/-- What was converted is of the type. -/
theorem convert_converted {v w : Scalar} {t : ScalarType} (converted : v.convert? t = some w) :
    w.convert? t = some w := Scalar.type_convert converted ▸ convert_same w

theorem convert_again (v : Scalar) (t : ScalarType) :
    (((v.convert? t).getD v).convert? t).getD ((v.convert? t).getD v) = (v.convert? t).getD v := by
  cases converted : v.convert? t with
  | none => simp [converted]
  | some w =>
    simp [convert_converted converted]

theorem normalMember_again (s : StructType) (entry : String × Value) :
    normalMember s (normalMember s entry) = normalMember s entry := by
  obtain ⟨name, v⟩ := entry
  cases found : s.member? name with
  | none => simp [normalMember, found]
  | some m =>
    cases v with
    | scalar v => simp [normalMember, found, convert_again]
    | text | bytes | vector | record | struct => simp [normalMember, found]

theorem members_again (s : StructType) (entries : Record) :
    (entries.map (normalMember s)).map (normalMember s) = entries.map (normalMember s) := by
  simp [normalMember_again]

theorem normal_default (valid : f.Valid schema) {t : ScalarType} {default : Scalar} (forced : Bool)
    (stored : schema.scalarOf f = .ok (t, default)) :
    normal schema forced f.type (.scalar default) = .scalar default := by
  cases valid.default_type stored
  exact normal_stored forced stored

theorem settle_default {t : ScalarType} {default : Scalar} (forced : Bool)
    (stored : schema.scalarOf f = .ok (t, default)) :
    settleDefault schema forced f (.scalar default) = .scalar default := by
  simp [settleDefault, stored]

/-- What has settled settles no further. -/
theorem settle_again (valid : f.Valid schema) (weaker : forced = true → before = true) {v : Value}
    (again : normal schema forced f.type (normal schema before f.type v) = normal schema forced f.type v) :
    settleDefault schema forced f (normal schema forced f.type
        (settleDefault schema before f (normal schema before f.type v))) =
      settleDefault schema forced f (normal schema forced f.type v) := by
  simp only [settleDefault.eq_def schema before]
  split
  next t default w stored first =>
    split
    next elided =>
      obtain ⟨unforced, same⟩ := Bool.and_eq_true_iff.1 elided
      have lenient : forced = false := by
        cases forced with
        | false => rfl
        | true => simp [weaker rfl] at unforced
      have typed : w.type = t := by
        rw [← valid.default_type stored]
        exact type_of_sameNumber same
      rw [first, normal_stored forced (typed ▸ stored)] at again
      rw [normal_default valid forced stored, settle_default forced stored, ← again]
      simp [settleDefault, stored, lenient, same]
    next => rw [← first, again]
  next => rw [again]

/-- The defaults that were added are there when defaults are added again. -/
theorem withDefaults_again (valid : record.Valid schema) (distinct : (record.fields.map (·.name)).Nodup)
    (sorted : r.Sorted) (weaker : forced = true → before = true)
    (again : ∀ entry ∈ r, ∀ type, normal schema forced type (normal schema before type entry.2) =
      normal schema forced type entry.2) :
    withDefaults schema record (normalEntries schema forced record
        (withDefaults schema record (normalEntries schema before record r))) =
      withDefaults schema record (normalEntries schema forced record r) := by
  have live : (record.liveFields.map (·.name)).Nodup :=
    distinct.sublist (List.filter_sublist.map _)
  apply Record.sorted_ext
  · exact sorted_withDefaults schema (sorted_normalEntries schema forced record
      (sorted_withDefaults schema (sorted_normalEntries schema before record sorted)))
  · exact sorted_withDefaults schema (sorted_normalEntries schema forced record sorted)
  intro name
  simp only [get?_withDefaults schema live, get?_normalEntries]
  cases found : r.get? name with
  | some v =>
    have again := again _ (Record.mem_of_get? found)
    cases field : record.field? name with
    | none => simp
    | some f =>
      have inside := List.mem_of_find?_eq_some field
      simp [settle_again (valid.fields f inside) weaker (again f.type)]
  | none =>
    cases missing : record.liveFields.find? (·.name == name) with
    | none => simp
    | some f =>
      have same : f.name = name := by simpa using List.find?_some missing
      have inside := List.mem_of_mem_filter (List.mem_of_find?_eq_some missing)
      have field : record.field? name = some f := same ▸ find_label _ distinct inside
      cases stored : schema.scalarOf f with
      | error e => simp [defaultValue, stored]
      | ok answer =>
        simp [defaultValue, stored, field, normal_default (valid.fields f inside) forced stored,
          settle_default forced stored]

/-- The variant that a text names is a scalar of the enumeration's type. -/
theorem variant_again (name s : String) :
    normal schema forced (.enumeration name) (normal schema before (.enumeration name) (.text s)) =
      normal schema forced (.enumeration name) (.text s) := by
  cases known : schema.enumeration name with
  | error e => simp [normal, known]
  | ok e =>
    cases found : Schema.variant e s with
    | error e => simp [normal, known, found]
    | ok i =>
      cases value : Schema.scalarOfInt e.underlying i with
      | error e => simp [normal, known, found, value]
      | ok v =>
        have typed : v.type = e.underlying := Schema.type_scalarOfInt value
        have same : v.convert? e.underlying = some v := typed ▸ convert_same v
        simp [normal, known, found, value, same]

mutual

theorem normal_again (valid : schema.Valid) (names : schema.DistinctNames)
    (weaker : forced = true → before = true) (type : FieldType) : (v : Value) → v.Ordered →
      normal schema forced type (normal schema before type v) = normal schema forced type v
  | .scalar v, _ => by
    cases type with
    | scalar t => simp [normal, convert_again]
    | enumeration name =>
      cases known : schema.enumeration name with
      | ok e => simp [normal, known, convert_again]
      | error e => simp [normal, known]
    | text | record | struct | vector => simp [normal]
  | .text s, _ => by
    cases type with
    | enumeration name => exact variant_again name s
    | scalar | text | record | struct | vector => simp [normal]
  | .bytes b, _ => by
    cases type with
    | text =>
      simp only [normal, ownedText]
      split
      next => simp [normal]
      next none => simp [normal, ownedText, none]
    | scalar | enumeration | record | struct | vector => simp [normal]
  | .vector items, ordered => by
    cases type with
    | vector element =>
      have again := items_again valid names weaker items ordered
      simp only [normal, normalItems_eq, List.map_map]
      refine congrArg Value.vector (List.map_congr_left fun item mem => ?_)
      exact again item mem element.asField
    | scalar | enumeration | text | record | struct => simp [normal]
  | .record entries, ordered => by
    cases type with
    | record name =>
      cases known : schema.record name with
      | error e => simp [normal, known]
      | ok record =>
        have mem := Schema.record_mem known
        have again := entries_again valid names weaker entries ordered.2
        simp only [normal, known]
        exact congrArg Value.record (withDefaults_again (valid.records record mem)
          (names.records record mem) ordered.1 weaker again)
    | struct name =>
      cases known : schema.struct name with
      | error e => simp [normal, known]
      | ok s => simp only [normal, known, members_again]
    | scalar | enumeration | text | vector => simp [normal]
  | .struct entries, _ => by
    cases type with
    | struct name =>
      cases known : schema.struct name with
      | error e => simp [normal, known]
      | ok s => simp only [normal, known, members_again]
    | scalar | enumeration | text | record | vector => simp [normal]

theorem items_again (valid : schema.Valid) (names : schema.DistinctNames)
    (weaker : forced = true → before = true) : (items : List Value) → Value.OrderedItems items →
      ∀ item ∈ items, ∀ type, normal schema forced type (normal schema before type item) =
        normal schema forced type item
  | [], _ => nofun
  | v :: rest, ordered => List.forall_mem_cons.2
    ⟨fun type => normal_again valid names weaker type v ordered.1,
      items_again valid names weaker rest ordered.2⟩

theorem entries_again (valid : schema.Valid) (names : schema.DistinctNames)
    (weaker : forced = true → before = true) : (entries : Record) →
      Value.OrderedEntries entries → ∀ entry ∈ entries, ∀ type,
        normal schema forced type (normal schema before type entry.2) =
          normal schema forced type entry.2
  | [], _ => nofun
  | (_, v) :: rest, ordered => List.forall_mem_cons.2
    ⟨fun type => normal_again valid names weaker type v ordered.1,
      entries_again valid names weaker rest ordered.2⟩

end

/-- A normal form has itself for its normal form, and another one as it would have been without it. -/
theorem normalRecord_again (valid : schema.Valid) (names : schema.DistinctNames)
    (weaker : forced = true → before = true) {name : String} (ordered : Record.Ordered r) :
    normalRecord schema forced name (normalRecord schema before name r) =
      normalRecord schema forced name r := by
  have again := normal_again valid names weaker (.record name) (.record r) ordered
  simpa only [normal_record, Value.record.injEq] using again

end Again

section Settling

/-- The scalars that equal the defaults of their fields as numbers are the defaults. -/
def settleEntries (schema : Schema) (name : String) (r : Record) : Record :=
  match schema.record name with
  | .ok type => r.map fun entry => (entry.1,
      match type.field? entry.1 with
      | some f => settleDefault schema false f entry.2
      | none => entry.2)
  | .error _ => r

/-- So at every level. -/
def settled (schema : Schema) : String → Record → Record := revisedRecord schema (settleEntries schema)

variable {schema : Schema} {child : String → Record → Prop} {type : ElementType} {f : RecordField}
  {v : Value} {name : String} {r : Record} {levels : Nat}

/-- The children of a canonical value settle as their normal forms do. -/
def ChildrenSettle (schema : Schema) (child : String → Record → Prop) : Prop :=
  ∀ name r, child name r → normalRecord schema false name r = settled schema name r

theorem ElementCanonical.settles (names : schema.DistinctNames) (children : ChildrenSettle schema child)
    (canonical : ElementCanonical schema child type v) :
    normal schema false type.asField v = revised schema (settleEntries schema) type.asField v := by
  cases canonical with
  | scalar => simp [ElementType.asField, normal, revised, convert_same]
  | @text bytes =>
    rw [ownedText]
    split
    next => simp [ElementType.asField, normal, revised]
    next none => simp [ElementType.asField, normal, revised, ownedText, none]
  | record canonical =>
    rw [ElementType.asField, normal_record, revised_record, children _ _ canonical, settled]
  | struct known canonical =>
    have same := canonical.normal_same (names.structs _ (Schema.struct_mem known))
    simp only [ElementType.asField, normal, revised, known, same]

theorem FieldCanonical.settles (names : schema.DistinctNames) (children : ChildrenSettle schema child)
    (canonical : FieldCanonical schema child f v) :
    normal schema false f.type v = revised schema (settleEntries schema) f.type v := by
  cases canonical with
  | scalar stored => rw [normal_stored false stored, revised]
  | single kind _ canonical => rw [kind, canonical.settles names children]
  | @vector type items kind each =>
    rw [kind, revised_vector]
    simp only [normal, normalItems_eq]
    exact congrArg Value.vector (List.map_congr_left fun item mem => (each item mem).settles names children)

/-- A record that was read has no other normal form than what it settles to. -/
theorem LevelsCanonical.settles (names : schema.DistinctNames)
    (canonical : LevelsCanonical schema levels name r) :
    normalRecord schema false name r = settled schema name r := by
  induction levels generalizing name r with
  | zero => exact canonical.elim
  | succ levels ih =>
    obtain ⟨record, known, collects⟩ := canonical
    have distinct := names.records record (Schema.record_mem known)
    simp only [normalRecord, settled, revisedRecord, settleEntries, known]
    rw [withDefaults_canonical collects, normalEntries_eq, revisedEntries_eq, List.map_map]
    apply List.map_congr_left
    intro entry mem
    obtain ⟨f, present, same, canonical⟩ := collects.entries entry mem
    have found : record.field? entry.1 = some f :=
      same ▸ find_label _ distinct (List.mem_of_mem_filter present)
    simp only [Function.comp_apply, found, canonical.settles names fun _ _ => ih]

end Settling

/-- Whether defaults are written is not seen by a reader, except that without them a scalar settles to the
default that it equals as a number. No more than the signs of zeros can be lost by that. -/
theorem forcing_settles {schema : Schema} {r : Record} {small large : Config} {compact full : Bytes}
    {options : ReaderOptions} (valid : schema.validate = .ok ()) (names : schema.DistinctNames)
    (out : schema.LaidOut) (ordered : Record.Ordered r) (lenient : small.forceDefaults = false)
    (forcing : large.forceDefaults = true) (written : encodeRoot schema r small = .ok compact)
    (forced : encodeRoot schema r large = .ok full)
    (asked : ∀ id, options.identifier = some id → schema.identifier = some id)
    (deep : Value.levelsEntries r ≤ options.limits.maxDepth)
    (many : Value.objectsEntries r + 1 ≤ options.limits.maxObjects) :
    ∃ type read, schema.rootRecord = .ok type ∧ decodeRoot schema full options = .ok read ∧
      decodeRoot schema compact options = .ok (settled schema type.name read) ∧
      Record.Alike (settled schema type.name read) read := by
  have valid := Schema.valid_of_validate valid
  obtain ⟨type, rooted⟩ := encodeRoot_rooted forced
  have compactRead := encodeRoot_decodes valid names out rooted ordered written asked deep many
  have fullRead := encodeRoot_decodes valid names out rooted ordered forced asked deep many
  rw [lenient] at compactRead
  rw [forcing] at fullRead
  obtain ⟨type', rooted', canonical, -⟩ := decodeRoot_image valid names fullRead
  cases rooted.symm.trans rooted'
  -- Both are normal forms of the record, and the one without defaults is that of the other.
  have settles : normalRecord schema false type.name r =
      settled schema type.name (normalRecord schema true type.name r) := by
    have lasting : false = true → true = true := fun _ => rfl
    rw [← canonical.settles names, normalRecord_again valid names lasting ordered]
  rw [settles] at compactRead
  refine ⟨type, _, rooted, fullRead, compactRead, ?_⟩
  rw [← canonical.settles names]
  exact canonical.alike valid names

/-- A point at negative zero, with its default written. -/
def forcedPoint : Bytes := #[12, 0, 0, 0, 0, 0, 6, 0, 8, 0, 4, 0, 6, 0, 0, 0, 0, 0, 0, 128]

/-- The same point, which is at its default as a number. -/
def compactPoint : Bytes := #[8, 0, 0, 0, 4, 0, 4, 0, 4, 0, 0, 0]

theorem negativeZero_settles :
    ∃ type read, pointSchema.rootRecord = .ok type ∧
      decodeRoot pointSchema forcedPoint { strict := true } = .ok read ∧
      decodeRoot pointSchema compactPoint { strict := true } =
        .ok (settled pointSchema type.name read) ∧
      Record.Alike (settled pointSchema type.name read) read := by
  have ordered : Record.Ordered negativeZero :=
    ⟨by unfold Record.Sorted; decide +kernel, trivial, trivial⟩
  have compact : encodeRoot pointSchema negativeZero {} = .ok compactPoint := by decide +kernel
  have forced : encodeRoot pointSchema negativeZero { forceDefaults := true } = .ok forcedPoint := by
    decide +kernel
  exact forcing_settles (by decide +kernel) pointSchema_distinctNames (by decide) ordered rfl rfl compact forced nofun
    (by decide) (by decide)

/-- The sign of a zero is read only if defaults are written. -/
theorem sign_needs_forcing :
    pointSchema.validate = .ok () ∧ pointSchema.DistinctNames ∧
      encodeRoot pointSchema negativeZero {} = .ok compactPoint ∧
      encodeRoot pointSchema negativeZero { forceDefaults := true } = .ok forcedPoint ∧
      decodeRoot pointSchema compactPoint {} = .ok [("x", .scalar (.float32 0))] ∧
      decodeRoot pointSchema forcedPoint {} = .ok [("x", .scalar (.float32 0x80000000))] ∧
      decodeRoot pointSchema compactPoint {} ≠ decodeRoot pointSchema forcedPoint {} :=
  ⟨by decide +kernel, pointSchema_distinctNames, by decide +kernel⟩

end FlatRecord
