import FlatRecord.Proofs.Codec.Coercion
import FlatRecord.Proofs.Codec.Repeated

/-! Enumerations by the names of their variants. The name is written as the integer of the variant, and the integer is
what comes back, at whatever depth the field is; only floats come back without one. -/
namespace FlatRecord

open Builder Encoding Decoding

/-- The integers that come back from a type which accepts them. A truth value is one of two, and a float is never read
as an integer. -/
def ScalarType.Keeps (i : Int) : ScalarType → Prop
  | .bool => i = 0 ∨ i = 1
  | .float32 | .float64 => False
  | _ => True

/-- The values of the variants are signed 64-bit integers. -/
def EnumType.Words (e : EnumType) : Prop := ∀ v ∈ e.variants, -2 ^ 63 ≤ v.2 ∧ v.2 < 2 ^ 63

instance (e : EnumType) : Decidable e.Words := inferInstanceAs (Decidable (∀ v ∈ e.variants, _ ∧ _))

/-- What the scalar tells of the integer that was written: where the type keeps it, it is read again and leads to a
variant of that value; from a float no integer is read, and it is the nearest one to the integer but for the sign of
zero. -/
structure EnumType.StandsFor (e : EnumType) (i : Int) (s : Scalar) : Prop where
  type : s.type = e.underlying
  kept : e.underlying.Keeps i → s.signed? = some i ∧ ∃ name, e.nameOf? i = some name ∧ (name, i) ∈ e.variants
  float : e.underlying.IsFloat → s.signed? = none ∧
    ∃ nearest, Scalar.ofInt? e.underlying i = some nearest ∧ s.Alike nearest

/-- A step from a value into one of its parts. -/
inductive PathStep where
  | field (name : String)
  | item (index : Nat)
deriving DecidableEq, Repr

/-- The part of a value at the end of a path. -/
def Value.at? : List PathStep → Value → Option Value
  | [], v => some v
  | .field name :: rest, .record entries => (Record.get? entries name).bind (Value.at? rest)
  | .item i :: rest, .vector items => items[i]?.bind (Value.at? rest)
  | _ :: _, _ => none

/-- The type that the schema has for it. -/
def FieldType.at? (schema : Schema) : List PathStep → FieldType → Option FieldType
  | [], t => some t
  | .field key :: rest, .record name =>
    match schema.record name with
    | .ok type => (type.field? key).bind fun f => FieldType.at? schema rest f.type
    | .error _ => none
  | .item _ :: rest, .vector element => FieldType.at? schema rest element.asField
  | _ :: _, _ => none

section Integers

variable {t : ScalarType} {i : Int} {e : EnumType}

theorem Scalar.signed_ofInt {w : Scalar} (held : Scalar.ofInt? t i = some w) (keeps : t.Keeps i)
    (word : i < 2 ^ 63) : w.signed? = some i := by
  have whole : w.integer? = some i := by
    cases t with
    | bool =>
      cases held
      rcases keeps with rfl | rfl <;> rfl
    | float32 | float64 => exact keeps.elim
    | _ => exact Scalar.integer_ofInt held trivial
  rw [signed?, whole]
  exact if_pos (decide_eq_true word)

theorem EnumType.mem_of_valueOf {variant : String} (found : e.valueOf? variant = some i) :
    (variant, i) ∈ e.variants := by
  obtain ⟨entry, here, rfl⟩ := Option.map_eq_some_iff.1 found
  have same : entry.1 = variant := by simpa using List.find?_some here
  exact same ▸ List.mem_of_find?_eq_some here

/-- An integer that some variant has leads to a variant that has it. -/
theorem EnumType.nameOf_mem {entry : String × Int} (mem : entry ∈ e.variants) :
    ∃ name, e.nameOf? entry.2 = some name ∧ (name, entry.2) ∈ e.variants := by
  cases here : e.variants.find? (·.2 == entry.2) with
  | none => simpa using List.find?_eq_none.1 here entry mem
  | some first =>
    have same : first.2 = entry.2 := by simpa using List.find?_some here
    exact ⟨first.1, by rw [nameOf?, here]; rfl, same ▸ List.mem_of_find?_eq_some here⟩

/-- The scalar that is written for a variant stands for its integer, and so does what it settles to. -/
theorem EnumType.standsFor {variant : String} {w s : Scalar} (words : e.Words)
    (found : e.valueOf? variant = some i) (held : Scalar.ofInt? e.underlying i = some w) (alike : s.Alike w) :
    e.StandsFor i s := by
  have mem := EnumType.mem_of_valueOf found
  have typed : w.type = e.underlying := Scalar.type_ofInt held
  have same : s.type = w.type := by
    rcases alike with rfl | ⟨same, -⟩
    · rfl
    · exact same
  refine ⟨same.trans typed, fun keeps => ?_, fun float => ?_⟩
  · have equal : s = w := by
      rcases alike with equal | ⟨-, -, zero⟩
      · exact equal
      · rw [← typed] at keeps
        cases w with
        | float32 | float64 => exact keeps.elim
        | _ => exact zero.elim
    exact ⟨equal ▸ Scalar.signed_ofInt held keeps (words _ mem).2, e.nameOf_mem mem⟩
  · refine ⟨Scalar.signed_float ?_, w, held, alike⟩
    rw [same, typed]
    exact float

end Integers

section Paths

variable {schema : Schema} {forced : Bool} {g : Ground} {child : Placement} {record : RecordType} {f : RecordField}
  {name : String} {r : Record} {v : Value} {path : List PathStep}

/-- Only records and vectors have parts. -/
theorem FieldType.at?_cases {type t : FieldType} (typed : type.at? schema path = some t) :
    path = [] ∧ type = t ∨ (∃ name, type = .record name) ∨ ∃ element, type = .vector element := by
  cases path with
  | nil => exact .inl ⟨rfl, Option.some.inj typed⟩
  | cons step rest =>
    cases type with
    | record name => exact .inr (.inl ⟨name, rfl⟩)
    | vector element => exact .inr (.inr ⟨element, rfl⟩)
    | scalar | enumeration | text | struct => cases step <;> cases typed

theorem Schema.enumeration_mem {e : EnumType} (known : schema.enumeration name = .ok e) : e ∈ schema.enums := by
  simp only [enumeration] at known
  split at known
  next here =>
    cases known
    exact List.mem_of_find?_eq_some here
  next => cases known

/-- A field that was set to the name of a variant, as it is read. -/
theorem variant_read (forced : Bool) (valid : f.Valid schema) (words : ∀ e ∈ schema.enums, e.Words) {e : EnumType}
    {variant : String} {t : ScalarType} {w default : Scalar} (kind : f.type = .enumeration name)
    (known : schema.enumeration name = .ok e) (stored : schema.scalarOf f = .ok (t, default))
    (written : fieldScalar schema f t (.text variant) = .ok w) : ∃ i s, e.valueOf? variant = some i ∧
      settleDefault schema forced f (normal schema forced f.type (.text variant)) = .scalar s ∧ e.StandsFor i s := by
  obtain ⟨e', known', rfl⟩ := scalarOf_enumeration kind stored
  cases known.symm.trans known'
  obtain ⟨typed, same⟩ := fieldScalar_normal forced stored written
  have settles : (settleDefault schema forced f (.scalar w)).Alike (.scalar w) :=
    settleDefault_alike valid (typed ▸ stored)
  simp only [fieldScalar, kind, known, ok_bind] at written
  obtain ⟨i, found, written⟩ := bind_eq_ok.1 written
  have found : e.valueOf? variant = some i := by
    simp only [Schema.variant] at found
    split at found
    next here => cases found; exact here
    next => cases found
  have held : Scalar.ofInt? e.underlying i = some w := by
    simp only [Schema.scalarOfInt] at written
    split at written
    next here => cases written; exact here
    next => cases written
  rw [same]
  cases read : settleDefault schema forced f (.scalar w) with
  | scalar s =>
    rw [read] at settles
    exact ⟨i, s, found, rfl, EnumType.standsFor (words e (Schema.enumeration_mem known)) found held settles⟩
  | text | bytes | vector | record | struct => rw [read] at settles; exact settles.elim

/-- A field that a record has an entry for stands in it, and is not deprecated. -/
theorem field_stands (names : schema.DistinctNames) (known : schema.record name = .ok record)
    (checked : checkNames record name r = .ok ()) {pending : List Pending}
    (stand : FieldsStand schema child g r (presentFields record r) pending) {key : String}
    (field : record.field? key = some f) (entry : r.get? key = some v) :
    f.name = key ∧ f ∈ record.liveFields ∧ ∃ p, FieldStands schema child g f v p := by
  have here : f.name = key := by simpa using List.find?_some field
  obtain ⟨live, present, same⟩ := names_known checked _ (Record.mem_of_get? entry)
  have distinct := names.records record (Schema.record_mem known)
  have whole : record.field? live.name = some live := find_label _ distinct (List.mem_of_mem_filter present)
  have same : live.name = key := same
  rw [same, field] at whole
  cases whole
  have waiting : f ∈ presentFields record r := List.mem_filter.2 ⟨present, by simp [here, entry]⟩
  obtain ⟨p, -, v', found, stands⟩ := related_left stand waiting
  rw [here, entry] at found
  cases found
  exact ⟨here, present, p, stands⟩

/-- A record or a vector that is encoded. -/
inductive Encoded (schema : Schema) (forced : Bool) (g : Ground) : FieldType → Value → Prop where
  | record {levels : Nat} {name : String} {r : Record} {d : Nat}
    (stands : LevelsStand schema forced levels g name r d) : Encoded schema forced g (.record name) (.record r)
  | vector {levels : Nat} {element : ElementType} {items : List Value} {d : Nat}
    (stands : VectorStands schema (LevelsStand schema forced levels) g element items d) :
    Encoded schema forced g (.vector element) (.vector items)

/-- The path leads to a scalar that stands for the variant's integer. -/
def Value.Tells (v : Value) (path : List PathStep) (e : EnumType) (variant : String) : Prop :=
  ∃ i s, e.valueOf? variant = some i ∧ v.at? path = some (.scalar s) ∧ e.StandsFor i s

variable {type : FieldType} {e : EnumType} {variant : String}

/-- The variant is behind a field that stands: the field is the enumeration's own, or a record or vector is behind
it. -/
theorem field_tells (fits : f.Valid schema) (words : ∀ e ∈ schema.enums, e.Words)
    (known : schema.enumeration name = .ok e) {levels : Nat} {p : Pending}
    (stands : FieldStands schema (LevelsStand schema forced levels) g f v p)
    (typed : f.type.at? schema path = some (.enumeration name)) (found : v.at? path = some (.text variant))
    (deeper : Encoded schema forced g f.type v → (normal schema forced f.type v).Tells path e variant) :
    (settleDefault schema forced f (normal schema forced f.type v)).Tells path e variant := by
  cases stands with
  | scalar stored written =>
    rcases FieldType.at?_cases typed with ⟨rfl, kind⟩ | ⟨_, kind⟩ | ⟨_, kind⟩
    · cases found
      obtain ⟨i, s, value, read, stands⟩ := variant_read forced fits words kind known stored written
      exact ⟨i, s, value, congrArg some read, stands⟩
    · exact absurd stored (not_scalar (by simp [kind]) (by simp [kind]) _)
    · exact absurd stored (not_scalar (by simp [kind]) (by simp [kind]) _)
  | struct kind | text kind =>
    rcases FieldType.at?_cases typed with ⟨-, same⟩ | ⟨_, same⟩ | ⟨_, same⟩ <;> cases kind.symm.trans same
  | vector kind stands =>
    rw [settleDefault_same (not_scalar (by simp [kind]) (by simp [kind]))]
    exact deeper (kind ▸ .vector stands)
  | record kind stands =>
    rw [settleDefault_same (not_scalar (by simp [kind]) (by simp [kind]))]
    exact deeper (kind ▸ .record stands)

/-- What was written for a variant, seen from any record or vector around it. -/
theorem encoded_tells (valid : schema.Valid) (names : schema.DistinctNames) (words : ∀ e ∈ schema.enums, e.Words)
    (encoded : Encoded schema forced g type v) (known : schema.enumeration name = .ok e)
    (typed : type.at? schema path = some (.enumeration name)) (found : v.at? path = some (.text variant)) :
    (normal schema forced type v).Tells path e variant := by
  -- By induction on the path; what follows a step is encoded as well, until the field itself is reached.
  induction path generalizing type v with
  | nil => cases encoded <;> cases typed
  | cons step rest ih =>
    cases encoded with
    | @record levels typeName r d stands =>
      cases levels with
      | zero => exact stands.elim
      | succ levels =>
        obtain ⟨record, pending, named, checked, stand, -⟩ := stands
        cases step with
        | item => cases found
        | field key =>
          simp only [FieldType.at?, named] at typed
          obtain ⟨f, field, inner⟩ := Option.bind_eq_some_iff.1 typed
          obtain ⟨w, entry, behind⟩ := Option.bind_eq_some_iff.1 found
          obtain ⟨rfl, present, p, stands⟩ := field_stands names named checked stand field entry
          have next : (normal schema forced (.record typeName) (.record r)).at? (.field f.name :: rest) =
              (settleDefault schema forced f (normal schema forced f.type w)).at? rest := by
            rw [normal_record, Value.at?, get?_normalRecord names named present, fieldValue, entry]
            rfl
          have fits := (valid.records record (Schema.record_mem named)).fields f (List.mem_of_mem_filter present)
          rw [Value.Tells, next]
          exact field_tells fits words known stands inner behind fun encoded => ih encoded inner behind
    | @vector levels element items d stands =>
      cases step with
      | field => cases found
      | item i =>
        obtain ⟨w, here, behind⟩ := Option.bind_eq_some_iff.1 found
        obtain ⟨-, elements, -, all, -⟩ := stands
        obtain ⟨p, -, stands⟩ := related_left all (List.mem_of_getElem? here)
        have next : (normal schema forced (.vector element) (.vector items)).at? (.item i :: rest) =
            (normal schema forced element.asField w).at? rest := by
          simp only [normal, normalItems_eq, Value.at?, List.getElem?_map, here]
          rfl
        have inner : element.asField.at? schema rest = some (.enumeration name) := typed
        rw [Value.Tells, next]
        cases stands with
        | record stands => exact ih (.record stands) inner behind
        | scalar | struct | text =>
          rcases FieldType.at?_cases inner with ⟨-, same⟩ | ⟨_, same⟩ | ⟨_, same⟩ <;> cases same

end Paths

variable {schema : Schema} {root : RecordType} {r : Record} {config : Config} {bytes : Bytes}
  {options : ReaderOptions}

/-- Names of variants survive encoding and decoding, at any depth: where the record has the name of a variant in the
field of an enumeration, the decoded record has a scalar that stands for the variant's integer. -/
theorem variants_survive (valid : schema.validate = .ok ()) (names : schema.DistinctNames)
    (out : schema.LaidOut) (words : ∀ e ∈ schema.enums, e.Words) (rooted : schema.rootRecord = .ok root)
    (ordered : Record.Ordered r) (written : encodeRoot schema r config = .ok bytes)
    (asked : ∀ id, options.identifier = some id → schema.identifier = some id)
    (deep : Value.levelsEntries r ≤ options.limits.maxDepth)
    (many : Value.objectsEntries r + 1 ≤ options.limits.maxObjects) :
    ∃ decoded, decodeRoot schema bytes options = .ok decoded ∧
      ∀ path name e variant, (FieldType.record root.name).at? schema path = some (.enumeration name) →
        schema.enumeration name = .ok e → (Value.record r).at? path = some (.text variant) →
        ∃ i s, e.valueOf? variant = some i ∧ (Value.record decoded).at? path = some (.scalar s) ∧
          e.StandsFor i s := by
  have valid := Schema.valid_of_validate valid
  obtain ⟨ref, b, b', -, -, stands, -⟩ := encodeRoot_stands valid out rooted written
  refine ⟨_, encodeRoot_decodes valid names out rooted ordered written asked deep many,
    fun path name e variant typed known found => ?_⟩
  rw [← normal_record]
  exact encoded_tells valid names words (.record stands) known typed found

def levelType : EnumType :=
  { name := "Level", underlying := .int16, variants := [("Low", -5), ("High", 300)], default := "Low" }

/-- An enumeration that is stored in floats. -/
def shareType : EnumType :=
  { name := "Share", underlying := .float32, variants := [("None", 0), ("Double", 2)], default := "None" }

/-- Dials with dials inside. -/
def dialSchema : Schema :=
  { enums := [levelType, shareType]
    records := [{ name := "Dial", fields := [.ofType "level" 0 (.enumeration "Level"),
      .ofType "share" 1 (.enumeration "Share"), .ofType "inner" 2 (.vector (.record "Dial"))] }]
    root := some "Dial" }

def dial : Record := [("inner", .vector [.record [("level", .text "High")]]), ("share", .text "Double")]

def dialBuffer : Bytes := #[
  16, 0, 0, 0, 0, 0, 10, 0, 12, 0, 0, 0, 8, 0, 4, 0, 10, 0, 0, 0, 8, 0, 0, 0, 0, 0, 0, 64,
  1, 0, 0, 0, 12, 0, 0, 0, 0, 0, 6, 0, 8, 0, 6, 0, 6, 0, 0, 0, 0, 0, 44, 1]

theorem dial_survives : encodeRoot dialSchema dial {} = .ok dialBuffer ∧
    ∃ decoded, decodeRoot dialSchema dialBuffer {} = .ok decoded ∧
      ∃ i s, levelType.valueOf? "High" = some i ∧
        (Value.record decoded).at? [.field "inner", .item 0, .field "level"] = some (.scalar s) ∧
        levelType.StandsFor i s := by
  have valid : dialSchema.validate = .ok () := by decide +kernel
  have written : encodeRoot dialSchema dial {} = .ok dialBuffer := by decide +kernel
  have names : dialSchema.DistinctNames := ⟨by decide, by decide⟩
  have words : ∀ e ∈ dialSchema.enums, e.Words := by decide
  have ordered : Record.Ordered dial := by
    simp only [Record.Ordered, Record.Sorted, dial, Value.OrderedEntries, Value.Ordered, Value.OrderedItems]
    decide +kernel
  have asked : ∀ id, ({} : ReaderOptions).identifier = some id → dialSchema.identifier = some id := by
    intro id asks
    cases asks
  obtain ⟨decoded, read, survive⟩ := variants_survive valid names (by decide) words rfl ordered written asked
    (by decide) (by decide)
  exact ⟨written, decoded, read, survive _ "Level" levelType "High" rfl rfl rfl⟩

def dialRead : Record := [
  ("inner", .vector [.record [("level", .scalar (.int16 300)), ("share", .scalar (.float32 0))]]),
  ("level", .scalar (.int16 (-5))), ("share", .scalar (.float32 0x40000000))]

/-- The float is the integer of the variant, but no integer is read from it. -/
theorem double_unread : dialSchema.validate = .ok () ∧ encodeRoot dialSchema dial {} = .ok dialBuffer ∧
    decodeRoot dialSchema dialBuffer {} = .ok dialRead ∧ shareType.valueOf? "Double" = some 2 ∧
    (Value.record dialRead).at? [.field "share"] = some (.scalar (.float32 0x40000000)) ∧
    Scalar.signed? (.float32 0x40000000) = none := by
  decide +kernel

end FlatRecord
