import FlatRecord.Proofs.Codec.Elided
import FlatRecord.Proofs.Codec.Nesting
import FlatRecord.Proofs.Codec.Settled

/-! Encoding again what was read. A record is written by the same steps as its normal form, so that the second
buffer is the first. -/
namespace FlatRecord

open Builder Build Encoding
open Decoding (decodeRoot ownedText get?_normalMember name_normalMember)

section Rules

variable {α β γ : Type} {R : α → β → Prop}

/-- Where defaults are not written, the second steps do what the first do, if these succeed. -/
def Repeats (x : Build α) (y : Build β) (R : α → β → Prop) : Prop :=
  ∀ b a b', b.Sound → b.config.forceDefaults = false → x.run b = .ok a b' →
    b'.Sound ∧ b'.config.forceDefaults = false ∧ ∃ a', y.run b = .ok a' b' ∧ R a a'

theorem repeats_run {x y : Build α} (safe : Safe x) (same : ∀ b, y.run b = x.run b) :
    Repeats x y Eq := by
  intro b a b' sound lenient run
  have advances := (safe b sound).of_ok run
  exact ⟨advances.sound, advances.config ▸ lenient, a, (same b).trans run, rfl⟩

theorem repeats_safe {x : Build α} (safe : Safe x) : Repeats x x Eq := repeats_run safe fun _ => rfl

theorem repeats_pure {a : α} {a' : β} (related : R a a') : Repeats (pure a) (pure a') R := by
  intro b _ _ sound lenient run
  cases run
  exact ⟨sound, lenient, a', rfl, related⟩

theorem repeats_throw (e : Error) {y : Build β} : Repeats (throw e) y R := by
  intro b a b' _ _ run
  cases run

theorem repeats_bind {α' β' : Type} {S : α' → β' → Prop} {x : Build α} {y : Build β} {f : α → Build α'}
    {g : β → Build β'} (first : Repeats x y R) (second : ∀ a a', R a a' → Repeats (f a) (g a') S) :
    Repeats (x >>= f) (y >>= g) S := by
  intro b a b' sound lenient run
  obtain ⟨c, b₁, before, after⟩ := run_bind_eq_ok run
  obtain ⟨sound, lenient, c', before', related⟩ := first b c b₁ sound lenient before
  obtain ⟨sound, lenient, a', after', related⟩ := second c c' related b₁ a b' sound lenient after
  exact ⟨sound, lenient, a', (run_bind_ok before').trans after', related⟩

theorem repeats_checked {α' : Type} {S : α' → β → Prop} {x : Except Error α} {f : α → Build α'}
    {y : Build β} (rest : ∀ a, x = .ok a → Repeats (f a) y S) : Repeats (ofExcept x >>= f) y S := by
  cases x with
  | error e =>
    intro b a b' _ _ run
    cases run
  | ok a => exact rest a rfl

theorem repeats_ofExcept {α' β' : Type} {S : α' → β' → Prop} {x : Except Error α} {y : Except Error β}
    {f : α → Build α'} {g : β → Build β'}
    (also : ∀ a, x = .ok a → ∃ a', y = .ok a' ∧ Repeats (f a) (g a') S) :
    Repeats (ofExcept x >>= f) (ofExcept y >>= g) S := by
  apply repeats_checked
  intro a known
  obtain ⟨a', rfl, rest⟩ := also a known
  exact rest

variable {items : List γ} {g : γ → γ}

theorem repeats_forM {step step' : γ → Build PUnit}
    (each : ∀ item ∈ items, Repeats (step item) (step' (g item)) Eq) :
    Repeats (items.forM step) ((items.map g).forM step') Eq := by
  induction items with
  | nil => exact repeats_pure rfl
  | cons item rest ih =>
    obtain ⟨here, later⟩ := List.forall_mem_cons.1 each
    exact repeats_bind here fun _ _ _ => ih later

theorem repeats_mapM {step step' : γ → Build α}
    (each : ∀ item ∈ items, Repeats (step item) (step' (g item)) Eq) :
    Repeats (items.mapM step) ((items.map g).mapM step') Eq := by
  induction items with
  | nil => exact repeats_pure rfl
  | cons item rest ih =>
    obtain ⟨here, later⟩ := List.forall_mem_cons.1 each
    rw [List.map_cons, List.mapM_cons, List.mapM_cons]
    apply repeats_bind here
    rintro answer _ rfl
    apply repeats_bind (ih later)
    rintro answers _ rfl
    exact repeats_pure rfl

theorem mapM_same {step : γ → Except Error α} {answers : List α}
    (each : ∀ item ∈ items, ∀ answer, step item = .ok answer → step (g item) = .ok answer)
    (all : items.mapM step = .ok answers) : (items.map g).mapM step = .ok answers := by
  induction items generalizing answers with
  | nil => exact all
  | cons item rest ih =>
    obtain ⟨here, later⟩ := List.forall_mem_cons.1 each
    rw [List.mapM_cons] at all
    obtain ⟨answer, first, all⟩ := bind_eq_ok.1 all
    obtain ⟨answers', others, all⟩ := bind_eq_ok.1 all
    rw [List.map_cons, List.mapM_cons, here answer first, ok_bind, ih later others, ok_bind]
    exact all

/-- Some fields are waiting after either loop, of which the same are written. -/
theorem repeats_fields {fields : List RecordField} {step step' : RecordField → Build (Option Pending)}
    (each : ∀ f ∈ fields, Repeats (step f) (step' f) fun p q => SameWritten [f] p.toList q.toList) :
    Repeats (fields.filterMapM step) (fields.filterMapM step') (SameWritten fields) := by
  -- The loop collects its answers in reverse.
  suffices general : ∀ rest done pending other, SameWritten done pending other →
      (∀ f ∈ rest, Repeats (step f) (step' f) fun p q => SameWritten [f] p.toList q.toList) →
      Repeats (List.filterMapM.loop step rest pending.reverse)
        (List.filterMapM.loop step' rest other.reverse) (SameWritten (done ++ rest)) from
    general fields [] [] [] (sameWritten_nil []) each
  intro rest
  induction rest with
  | nil =>
    intro done pending other same _
    rw [List.filterMapM.loop, List.filterMapM.loop, List.reverse_reverse, List.reverse_reverse,
      List.append_nil]
    exact repeats_pure same
  | cons f rest ih =>
    intro done pending other same each
    obtain ⟨here, later⟩ := List.forall_mem_cons.1 each
    rw [List.filterMapM.loop, List.filterMapM.loop]
    apply repeats_bind here
    intro p q same'
    have more := ih _ _ _ (same.append same') later
    rw [List.append_assoc, List.singleton_append] at more
    cases p <;> cases q <;> simpa using more

end Rules

section Elements

variable {schema : Schema} {v : Value} {field : String}

theorem toBytes_of_toText? {bytes : Bytes} {s : String} (found : Text.toText? bytes = some s) :
    Text.toBytes s = bytes := by
  simp only [Text.toText?, String.fromUTF8?] at found
  split at found
  next => cases found; rfl
  next => cases found

theorem text_repeats (v : Value) (field : String) :
    Repeats (encodeText v field) (encodeText (normal schema false .text v) field) Eq := by
  cases v with
  | text s => exact repeats_safe (safe_createText s)
  | bytes bytes =>
    apply repeats_run (safe_createBytes bytes)
    intro b
    rw [normal, ownedText]
    split
    next s found =>
      rw [encodeText, createText, toBytes_of_toText? found, createBytes, run_get, found,
        if_neg (by simp)]
    next => rfl
  | scalar | vector | record | struct => exact repeats_throw _

theorem writeMembers_repeats {s : StructType} {entries other : Record} {members : List Member}
    (each : ∀ m ∈ members, ∀ v, memberValue s m entries = .ok v → memberValue s m other = .ok v)
    {bytes written : List UInt8} (same : writeMembers s entries members bytes = .ok written) :
    writeMembers s other members bytes = .ok written := by
  induction members generalizing bytes with
  | nil => exact same
  | cons m rest ih =>
    obtain ⟨here, later⟩ := List.forall_mem_cons.1 each
    obtain ⟨v, value, same⟩ := bind_eq_ok.1 same
    obtain ⟨next, put, same⟩ := bind_eq_ok.1 same
    rw [writeMembers, here v value, ok_bind, put, ok_bind]
    exact ih later same

/-- A struct's normal form has its bytes, whatever the layout. -/
theorem structBytes_repeats {name : String} {s : StructType} {bytes : List UInt8}
    (names : schema.DistinctNames) (known : schema.struct name = .ok s)
    (written : structBytes s v field = .ok bytes) :
    structBytes s (normal schema false (.struct name) v) field = .ok bytes := by
  have distinct := StructType.nodup_layout (names.structs s (Schema.struct_mem known))
  have members {entries : Record} : ∀ m ∈ s.layout, ∀ v, memberValue s m entries = .ok v →
      memberValue s m (entries.map (normalMember s)) = .ok v := by
    intro m mem v value
    obtain ⟨w, found, converted⟩ := memberValue_eq_ok.1 value
    have member : s.member? m.name = some m := find_label _ distinct mem
    refine memberValue_eq_ok.2 ⟨v, ?_, convert_converted converted⟩
    rw [get?_normalMember, found, Option.map_some]
    simp only [normalMember, member, converted, Option.getD_some]
  have whole {entries : Record} (written : structBytes s (.struct entries) field = .ok bytes) :
      structBytes s (.struct (entries.map (normalMember s))) field = .ok bytes := by
    simp only [structBytes, List.find?_map, Function.comp_def, name_normalMember] at written ⊢
    cases unknown : entries.find? fun entry => (s.member? entry.1).isNone with
    | some entry => simp [unknown] at written
    | none =>
      simp only [unknown, Option.map_none] at written ⊢
      exact writeMembers_repeats members written
  cases v with
  | struct entries | record entries =>
    simp only [normal, known]
    exact whole written
  | scalar | text | bytes | vector => cases written

variable {child child' : Child} {items : List Value}

/-- A record and its normal form are written by the same steps. -/
def ChildRepeats (schema : Schema) (child child' : Child) (nested : String × Record) : Prop :=
  Repeats (child nested.1 nested.2) (child' nested.1 (normalRecord schema false nested.1 nested.2)) Eq

theorem scalars_repeat (t : ScalarType) :
    Repeats (encodeVector schema child (.scalar t) (.vector items) field)
      (encodeVector schema child' (.scalar t)
        (.vector (items.map (normal schema false (.scalar t)))) field) Eq := by
  simp only [encodeVector, List.length_map]
  apply repeats_bind (repeats_safe (safe_startVector _ _ _))
  intro _ _ _
  refine repeats_bind (repeats_forM fun item _ => ?_) fun _ _ _ => repeats_safe safe_endVector
  cases item with
  | scalar v =>
    apply repeats_ofExcept
    intro w coerced
    have converted := coerce_eq_ok.1 coerced
    refine ⟨w, ?_, repeats_safe (safe_pushBytesElement _)⟩
    rw [converted]
    exact coerce_eq_ok.2 (convert_converted converted)
  | text | bytes | vector | record | struct => exact repeats_throw _

theorem structs_repeat (names : schema.DistinctNames) (name : String) :
    Repeats (encodeVector schema child (.struct name) (.vector items) field)
      (encodeVector schema child' (.struct name)
        (.vector (items.map (normal schema false (.struct name)))) field) Eq := by
  simp only [encodeVector]
  apply repeats_ofExcept
  intro s known
  refine ⟨s, known, repeats_ofExcept fun elements written => ⟨elements, ?_, ?_⟩⟩
  · exact mapM_same (fun _ _ _ written => structBytes_repeats names known written) written
  · apply repeats_safe
    exact safe_bind (safe_startVector _ _ _) fun _ =>
      safe_bind (safe_forM safe_pushBytesElement) fun _ => safe_endVector

theorem texts_repeat :
    Repeats (encodeVector schema child .text (.vector items) field)
      (encodeVector schema child' .text (.vector (items.map (normal schema false .text))) field) Eq := by
  simp only [encodeVector]
  apply repeats_bind (repeats_mapM fun item _ => text_repeats item field)
  rintro refs _ rfl
  exact repeats_safe (safe_createRefVector refs)

theorem records_repeat {name : String}
    (children : ∀ nested ∈ items.flatMap (recordsAs name), ChildRepeats schema child child' nested) :
    Repeats (encodeVector schema child (.record name) (.vector items) field)
      (encodeVector schema child' (.record name)
        (.vector (items.map (normal schema false (.record name)))) field) Eq := by
  simp only [encodeVector]
  apply repeats_bind (R := Eq)
  · apply repeats_mapM
    intro item mem
    cases item with
    | record r =>
      rw [normal_record]
      exact children (name, r) (List.mem_flatMap.2 ⟨_, mem, List.mem_singleton_self _⟩)
    | scalar | text | bytes | vector | struct => exact repeats_throw _
  · rintro refs _ rfl
    exact repeats_safe (safe_createRefVector refs)

theorem vector_repeats (names : schema.DistinctNames) (type : ElementType)
    (children : ∀ nested ∈ nestedIn (.vector type) (.vector items), ChildRepeats schema child child' nested) :
    Repeats (encodeVector schema child type (.vector items) field)
      (encodeVector schema child' type (.vector (items.map (normal schema false type.asField))) field)
      Eq := by
  cases type with
  | scalar t => exact scalars_repeat t
  | struct name => exact structs_repeat names name
  | text => exact texts_repeat
  | record name => exact records_repeat children

end Elements

section Fields

variable {schema : Schema} {child child' : Child} {f : RecordField} {v : Value}

/-- What waits for a scalar or enumeration field. -/
def scalarPending (schema : Schema) (f : RecordField) (v : Value) : Build Pending := do
  let answer ← ofExcept (schema.scalarOf f)
  return .scalar f.slot (← ofExcept (fieldScalar schema f answer.1 v)) answer.2

theorem encodeField_scalar (kind : (∃ t, f.type = .scalar t) ∨ ∃ name, f.type = .enumeration name) :
    encodeField schema child f v = scalarPending schema f v := by
  rcases kind with ⟨_, kind⟩ | ⟨_, kind⟩
  · simp only [encodeField, kind, scalarPending]
  · simp only [encodeField, kind, scalarPending]

theorem encodeField_stored {w default : Scalar} (stored : schema.scalarOf f = .ok (w.type, default)) :
    encodeField schema child f (.scalar w) = pure (.scalar f.slot w default) := by
  rw [encodeField_scalar (scalarOf_type stored), scalarPending, stored]
  change (do return .scalar f.slot (← ofExcept (fieldScalar schema f w.type (.scalar w))) default) =
    (pure (.scalar f.slot w default) : Build Pending)
  rw [fieldScalar_stored]
  rfl

theorem sameWritten_self {p : Pending} (slot : p.slot = f.slot) (typed : p.Typed) :
    SameWritten [f] [p] [p] := by
  have waits : Waits [f] [p] := ⟨by simp [slot], by simpa using typed⟩
  exact ⟨rfl, waits, waits⟩

/-- A scalar that has settled to its default was left out before, and is again. -/
theorem sameWritten_settled (valid : f.Valid schema) {w default : Scalar}
    (stored : schema.scalarOf f = .ok (w.type, default)) :
    ∃ u, settleDefault schema false f (.scalar w) = .scalar u ∧ u.type = w.type ∧
      SameWritten [f] [.scalar f.slot w default] [.scalar f.slot u default] := by
  have typed := valid.default_type stored
  have waits (u : Scalar) (same : u.type = w.type) : Waits [f] [.scalar f.slot u default] :=
    ⟨.refl _, by simpa [Pending.Typed] using same.trans typed.symm⟩
  by_cases elided : w.sameNumber default = true
  · have again : default.sameNumber default = true := sameNumber_self elided
    refine ⟨default, by simp [settleDefault, stored, elided], typed, ?_, waits w rfl, waits default typed⟩
    simp [Pending.isWritten, elided, again]
  · refine ⟨w, by simp [settleDefault, stored, elided], rfl, rfl, waits w rfl, waits w rfl⟩

theorem scalar_repeats (valid : f.Valid schema)
    (kind : (∃ t, f.type = .scalar t) ∨ ∃ name, f.type = .enumeration name) :
    Repeats (encodeField schema child f v)
      (encodeField schema child' f (settleDefault schema false f (normal schema false f.type v)))
      fun p q => SameWritten [f] [p] [q] := by
  rw [encodeField_scalar kind, scalarPending]
  apply repeats_checked
  rintro ⟨t, default⟩ stored
  apply repeats_checked
  intro w written
  obtain ⟨rfl, value⟩ := fieldScalar_normal false stored written
  obtain ⟨u, settles, type, same⟩ := sameWritten_settled valid stored
  rw [value, settles, encodeField_stored (type ▸ stored)]
  exact repeats_pure same

theorem field_repeats (valid : f.Valid schema) (names : schema.DistinctNames)
    (children : ∀ nested ∈ nestedIn f.type v, ChildRepeats schema child child' nested) :
    Repeats (encodeField schema child f v)
      (encodeField schema child' f (settleDefault schema false f (normal schema false f.type v)))
      fun p q => SameWritten [f] [p] [q] := by
  cases kind : f.type with
  | scalar t => exact kind ▸ scalar_repeats valid (.inl ⟨t, kind⟩)
  | enumeration name => exact kind ▸ scalar_repeats valid (.inr ⟨name, kind⟩)
  | struct name =>
    rw [settleDefault_same (not_scalar (by simp [kind]) (by simp [kind]))]
    simp only [encodeField, kind]
    apply repeats_ofExcept
    intro s known
    refine ⟨s, known, repeats_ofExcept fun bytes written => ?_⟩
    exact ⟨bytes, structBytes_repeats names known written, repeats_pure (sameWritten_self rfl trivial)⟩
  | text =>
    rw [settleDefault_same (not_scalar (by simp [kind]) (by simp [kind]))]
    simp only [encodeField, kind]
    apply repeats_bind (text_repeats v f.name)
    rintro ref _ rfl
    exact repeats_pure (sameWritten_self rfl trivial)
  | vector type =>
    rw [settleDefault_same (not_scalar (by simp [kind]) (by simp [kind]))]
    simp only [encodeField, kind]
    cases v with
    | vector items =>
      rw [kind] at children
      simp only [normal, normalItems_eq]
      apply repeats_bind (vector_repeats names type children)
      rintro ref _ rfl
      exact repeats_pure (sameWritten_self rfl trivial)
    | scalar | text | bytes | record | struct =>
      exact repeats_bind (R := fun _ _ => False) (repeats_throw _) fun _ _ => False.elim
  | record name =>
    rw [settleDefault_same (not_scalar (by simp [kind]) (by simp [kind]))]
    simp only [encodeField, kind]
    cases v with
    | record r =>
      rw [kind] at children
      rw [normal_record]
      apply repeats_bind (children (name, r) (List.mem_singleton_self _))
      rintro ref _ rfl
      exact repeats_pure (sameWritten_self rfl trivial)
    | scalar | text | bytes | vector | struct => exact repeats_throw _

end Fields

section Stating

variable (schema : Schema)

/-- No field is left out whose default is not a number, so that it would not be left out again. -/
def RecordStates (child : String → Record → Prop) (name : String) (r : Record) : Prop :=
  ∀ type, schema.record name = .ok type →
    (∀ f ∈ type.liveFields, ∀ t default, schema.scalarOf f = .ok (t, default) →
      default.sameNumber default = false → r.contains f.name) ∧
    ∀ nested ∈ childRecords type r, child nested.1 nested.2

/-- Nor in the records nested in it, at most `levels` deep. -/
def LevelsState : (levels : Nat) → String → Record → Prop
  | 0 => fun _ _ => True
  | levels + 1 => RecordStates schema (LevelsState levels)

/-- The record states every field whose default is not a number, and so do all records in it. -/
def StatesNaN (name : String) (r : Record) : Prop := LevelsState schema (Record.depth r) name r

end Stating

section Records

variable {schema : Schema} {child child' : Child} {record : RecordType} {f : RecordField} {v : Value}
  {name : String} {r : Record} {forced : Bool}

theorem get?_normalRecord (names : schema.DistinctNames) (known : schema.record name = .ok record)
    (present : f ∈ record.liveFields) :
    (normalRecord schema forced name r).get? f.name = fieldValue schema forced r f := by
  have whole : record.field? f.name = some f :=
    find_label _ (names.records record (Schema.record_mem known)) (List.mem_of_mem_filter present)
  simp only [normalRecord, known]
  rw [get?_withDefaults schema (names.live known), get?_normalEntries,
    find_label _ (names.live known) present]
  cases found : r.get? f.name <;> simp [fieldValue, found, whole]

theorem depth_settleDefault (f : RecordField) (v : Value) :
    (settleDefault schema forced f v).depth = v.depth := by
  simp only [settleDefault]
  split
  · split <;> rfl
  · rfl

/-- A nested record's normal form is nested in the value's. -/
theorem nested_depth {type : FieldType} {nested : String × Record} (mem : nested ∈ nestedIn type v) :
    Record.depth (normalRecord schema forced nested.1 nested.2) ≤ (normal schema forced type v).depth := by
  have direct {name : String} {v : Value} (mem : nested ∈ recordsAs name v) :
      Record.depth (normalRecord schema forced nested.1 nested.2) ≤
        (normal schema forced (.record name) v).depth := by
    cases v with
    | record r =>
      cases List.mem_singleton.1 mem
      rw [normal_record]
      exact Nat.le_refl _
    | scalar | text | bytes | vector | struct => cases mem
  simp only [nestedIn] at mem
  split at mem
  next => exact direct mem
  next name items =>
    obtain ⟨item, among, mem⟩ := List.mem_flatMap.1 mem
    simp only [normal, normalItems_eq]
    apply Nat.le_trans (direct mem)
    exact Value.depthItems_le.1 (Nat.le_refl _) _ (List.mem_map_of_mem among)
  next => cases mem

theorem Record.contains_of_mem {entry : String × Value} (mem : entry ∈ r) :
    r.contains entry.1 = true := by
  simp only [contains, get?, Option.isSome_map, List.find?_isSome]
  exact ⟨entry, mem, by simp⟩

theorem checkNames_normal (names : schema.DistinctNames) (known : schema.record name = .ok record)
    (checked : checkNames record name r = .ok ()) :
    checkNames record name (normalRecord schema forced name r) = .ok () := by
  apply checkNames_ok (names.records record (Schema.record_mem known))
  intro entry mem
  have found : (normalRecord schema forced name r).contains entry.1 = true := Record.contains_of_mem mem
  simp only [normalRecord, known, Record.contains, get?_withDefaults schema (names.live known),
    get?_normalEntries] at found
  cases stated : r.get? entry.1 with
  | some v => exact names_known checked (entry.1, v) (Record.mem_of_get? stated)
  | none =>
    cases missing : record.liveFields.find? (·.name == entry.1) with
    | none => simp [stated, missing] at found
    | some f => exact ⟨f, List.mem_of_find?_eq_some missing, by simpa using List.find?_some missing⟩

theorem fields_repeat (valid : record.Valid schema) (names : schema.DistinctNames)
    (known : schema.record name = .ok record)
    (states : ∀ f ∈ record.liveFields, ∀ t default, schema.scalarOf f = .ok (t, default) →
      default.sameNumber default = false → r.contains f.name)
    (children : ∀ nested ∈ childRecords record r, ChildRepeats schema child child' nested) :
    Repeats
      (record.liveFields.filterMapM fun f => (r.get? f.name).mapM (encodeField schema child f))
      (record.liveFields.filterMapM fun f =>
        ((normalRecord schema false name r).get? f.name).mapM (encodeField schema child' f))
      (SameWritten record.liveFields) := by
  apply repeats_fields
  intro f present
  have field := valid.fields f (List.mem_of_mem_filter present)
  rw [get?_normalRecord names known present, fieldValue]
  cases found : r.get? f.name with
  | some v =>
    have inner : ∀ nested ∈ nestedIn f.type v, ChildRepeats schema child child' nested := by
      intro nested mem
      apply children nested
      exact List.mem_flatMap.2 ⟨f, present, by simpa [fieldRecords, found] using mem⟩
    apply repeats_bind (field_repeats field names inner)
    intro p q same
    exact repeats_pure same
  | none =>
    cases stored : schema.scalarOf f with
    | error e =>
      simp only [defaultValue, stored]
      exact repeats_pure (sameWritten_nil [f])
    | ok answer =>
      obtain ⟨t, default⟩ := answer
      cases field.default_type stored
      -- The default that was added is left out again, as it equals itself.
      have equal : default.sameNumber default = true := by
        by_contra differs
        have stated := states f present _ default stored (by simpa using differs)
        simp [Record.contains, found] at stated
      simp only [defaultValue, stored]
      change Repeats _ (encodeField schema child' f (.scalar default) >>= fun p => pure (some p)) _
      rw [encodeField_stored stored, pure_bind]
      refine repeats_pure ⟨?_, waits_nil [f], ⟨.refl _, ?_⟩⟩
      · simp [Pending.isWritten, equal]
      · simp [Pending.Typed]

theorem safe_pendingWrite (p : Pending) : Safe p.write := by
  cases p with
  | scalar slot value default =>
    rw [Pending.write]
    split
    next => exact safe_addField slot value default
    next => exact fun _ sound => Advances.refl sound
  | struct slot bytes alignment => exact safe_addStructField slot bytes alignment
  | ref slot kind child => exact safe_addRefField slot child

/-- Fields of which the same are written make the same record. -/
theorem pendingRecord_repeats (valid : record.Valid schema) {pending other : List Pending}
    (same : SameWritten record.liveFields pending other) :
    Repeats (do startRecord; (byAlignment pending).forM Pending.write; endRecord)
      (do startRecord; (byAlignment other).forM Pending.write; endRecord) Eq := by
  intro b ref b' sound lenient run
  have safe : Safe (do startRecord; (byAlignment pending).forM Pending.write; endRecord) :=
    safe_bind safe_startRecord fun _ => safe_bind (safe_forM safe_pendingWrite) fun _ => safe_endRecord
  have distinct : (record.liveFields.map (·.slot)).Nodup :=
    valid.slots.sublist (List.filter_sublist.map _)
  have small : ∀ f ∈ record.liveFields, f.slot < slotLimit :=
    fun f mem => valid.small f (List.mem_of_mem_filter mem)
  obtain ⟨sound', lenient', -⟩ := repeats_safe safe b ref b' sound lenient run
  refine ⟨sound', lenient', ref, ?_, rfl⟩
  obtain ⟨_, b₁, opened, rest⟩ := run_bind_eq_ok run
  have begun := (safe_startRecord b sound).of_ok opened
  obtain ⟨-, rfl⟩ := startRecord_ends.of_ok opened
  obtain ⟨_, b₂, written, ended⟩ := run_bind_eq_ok rest
  rw [same.run distinct small begun.sound.region (begun.config ▸ lenient) rfl] at written
  rw [run_bind_ok opened, run_bind_ok written]
  exact ended

theorem record_repeats {states : String → Record → Prop} (valid : schema.Valid)
    (names : schema.DistinctNames) (stated : RecordStates schema states name r)
    (children : ∀ type, schema.record name = .ok type → ∀ nested ∈ childRecords type r,
      ChildRepeats schema child child' nested) :
    Repeats (encodeRecord schema child name r)
      (encodeRecord schema child' name (normalRecord schema false name r)) Eq := by
  apply repeats_ofExcept
  intro record known
  refine ⟨record, known, repeats_ofExcept fun _ checked => ⟨(), checkNames_normal names known checked, ?_⟩⟩
  have isValid := valid.records record (Schema.record_mem known)
  apply repeats_bind (fields_repeat isValid names known (stated record known).1 (children record known))
  exact fun _ _ same => pendingRecord_repeats isValid same

/-- Whatever was written before, a record is written as its normal form is. -/
theorem levels_repeat (valid : schema.Valid) (names : schema.DistinctNames) (levels : Nat) :
    ∀ again name r, LevelsState schema levels name r →
      Record.depth (normalRecord schema false name r) ≤ again →
      Repeats (encodeLevels schema levels name r)
        (encodeLevels schema again name (normalRecord schema false name r)) Eq := by
  induction levels with
  | zero => exact fun _ _ _ _ _ => repeats_throw _
  | succ levels ih =>
    intro again name r stated deep
    cases again with
    | zero => exact absurd deep (Nat.not_succ_le_zero _)
    | succ again =>
      apply record_repeats valid names stated
      intro record known nested mem
      apply ih again nested.1 nested.2 ((stated record known).2 nested mem)
      -- What is nested in a value has its normal form nested in the value's.
      obtain ⟨f, present, mem⟩ := List.mem_flatMap.1 mem
      rw [fieldRecords] at mem
      cases found : r.get? f.name with
      | none => simp [found] at mem
      | some v =>
        rw [found] at mem
        have value : (normalRecord schema false name r).get? f.name =
            some (settleDefault schema false f (normal schema false f.type v)) := by
          rw [get?_normalRecord names known present, fieldValue, found]
        calc Record.depth (normalRecord schema false nested.1 nested.2)
          _ ≤ (normal schema false f.type v).depth := nested_depth mem
          _ = (settleDefault schema false f (normal schema false f.type v)).depth :=
            (depth_settleDefault f _).symm
          _ ≤ Value.depthEntries (normalRecord schema false name r) :=
            Value.depthEntries_le.1 (Nat.le_refl _) _ (Record.mem_of_get? value)
          _ ≤ again := Nat.le_of_succ_le_succ deep

end Records

variable {schema : Schema} {type : RecordType} {r : Record} {config : Config} {bytes : Bytes}

/-- Where defaults are not written, a record and its normal form have one root buffer. -/
theorem encodeRoot_repeats (valid : schema.Valid) (names : schema.DistinctNames)
    (rooted : schema.rootRecord = .ok type) (lenient : config.forceDefaults = false)
    (stated : StatesNaN schema type.name r) (written : encodeRoot schema r config = .ok bytes) :
    encodeRoot schema (normalRecord schema false type.name r) config = .ok bytes := by
  have fresh : (ofConfig config).Fresh := ⟨config, [], .inl rfl⟩
  obtain ⟨root, b, b', encoded, finished⟩ := rootBuffer_runs rooted written
  obtain ⟨-, -, _, again, rfl⟩ := levels_repeat valid names _ _ type.name r stated (Nat.le_refl _)
    (ofConfig config) root b fresh.sound lenient encoded
  rw [encodeRoot, rootBuffer_eq rooted, encode, run_bind_ok again, finished]

/-- What was read from a buffer and is encoded again is read again, and from then on the buffer stays the same.
Where defaults are not written it is the first buffer already, provided that every field with a default that is
not a number has a value. -/
theorem reencoding_settles {options : ReaderOptions} (valid : schema.validate = .ok ())
    (names : schema.DistinctNames) (out : schema.LaidOut) (ordered : Record.Ordered r)
    (written : encodeRoot schema r config = .ok bytes)
    (asked : ∀ id, options.identifier = some id → schema.identifier = some id)
    (deep : Value.levelsEntries r ≤ options.limits.maxDepth)
    (many : Value.objectsEntries r + 1 ≤ options.limits.maxObjects) :
    ∃ type read, schema.rootRecord = .ok type ∧ decodeRoot schema bytes options = .ok read ∧
      (∀ second, encodeRoot schema read config = .ok second → ∃ again,
        decodeRoot schema second options = .ok again ∧ encodeRoot schema again config = .ok second) ∧
      (config.forceDefaults = false → StatesNaN schema type.name r →
        encodeRoot schema read config = .ok bytes) := by
  have valid := Schema.valid_of_validate valid
  obtain ⟨type, rooted⟩ := encodeRoot_rooted written
  have read := encodeRoot_decodes valid names out rooted ordered written asked deep many
  refine ⟨type, _, rooted, read, ?_, ?_⟩
  · intro second rewritten
    obtain ⟨type', rooted', canonical, -⟩ := decodeRoot_image valid names read
    cases rooted.symm.trans rooted'
    obtain ⟨levels, objects⟩ := normalRecord_noLarger schema config.forceDefaults type.name r
    simp only [Value.levels, Value.objects] at levels objects
    have reread := encodeRoot_decodes valid names out rooted canonical.ordered rewritten asked (by omega)
      (by omega)
    rw [normalRecord_again valid names id ordered] at reread
    exact ⟨_, reread, rewritten⟩
  · intro lenient stated
    rw [lenient]
    exact encodeRoot_repeats valid names rooted lenient stated written

/-- Gauges whose level is not a number unless it is given. -/
def gaugeSchema : Schema :=
  { records := [{ name := "Gauge", fields := [
      { name := "level", slot := 0, type := .scalar .float32, default := some (.float32 0x7fc00000) },
      .ofType "least" 1 (.scalar .float32), .ofType "unit" 2 .text,
      .ofType "inner" 3 (.vector (.record "Gauge"))] }]
    root := some "Gauge" }

def innerGauge : Record := [("level", .scalar (.float32 0x7fc00000))]

/-- A gauge with another one inside. Its level is an integer still, its unit bytes, and its least level the
other zero. -/
def gauge : Record :=
  [("inner", .vector [.record innerGauge]), ("least", .scalar (.float32 0x80000000)),
    ("level", .scalar (.uint8 3)), ("unit", .bytes #[109])]

def gaugeBuffer : Bytes := #[
  16, 0, 0, 0, 12, 0, 16, 0, 12, 0, 0, 0, 8, 0, 4, 0, 12, 0, 0, 0, 12, 0, 0, 0, 32, 0, 0, 0, 0, 0, 64, 64,
  1, 0, 0, 0, 12, 0, 0, 0, 0, 0, 6, 0, 8, 0, 4, 0, 6, 0, 0, 0, 0, 0, 192, 127, 1, 0, 0, 0, 109, 0, 0, 0]

theorem gaugeSchema_distinctNames : gaugeSchema.DistinctNames := ⟨by decide, by decide⟩

theorem gauge_level_stated {r : Record} (given : r.contains "level" = true) {record : RecordType}
    (known : gaugeSchema.record "Gauge" = .ok record) : ∀ f ∈ record.liveFields, ∀ t default,
      gaugeSchema.scalarOf f = .ok (t, default) → default.sameNumber default = false →
        r.contains f.name := by
  cases known
  intro f mem t default stored notEqual
  have one : f.name = "level" ∨ f = .ofType "least" 1 (.scalar .float32) ∨ f = .ofType "unit" 2 .text ∨
      f = .ofType "inner" 3 (.vector (.record "Gauge")) := by
    rcases List.mem_cons.1 (List.mem_of_mem_filter mem) with rfl | rest
    · exact .inl rfl
    · exact .inr (by simpa using rest)
  rcases one with level | rfl | rfl | rfl
  · exact level ▸ given
  · cases stored
    have equal : (Scalar.float32 0).sameNumber (.float32 0) = true := by decide
    cases equal.symm.trans notEqual
  · cases stored
  · cases stored

theorem gauge_statesNaN : StatesNaN gaugeSchema "Gauge" gauge := by
  intro record known
  refine ⟨gauge_level_stated (by decide) known, ?_⟩
  cases known
  intro nested mem
  cases List.mem_singleton.1 (show nested ∈ [("Gauge", innerGauge)] from mem)
  intro record known
  refine ⟨gauge_level_stated (by decide) known, ?_⟩
  cases known
  exact nofun

theorem gauge_settles :
    ∃ type read, gaugeSchema.rootRecord = .ok type ∧
      decodeRoot gaugeSchema gaugeBuffer { strict := true } = .ok read ∧
      (∀ second, encodeRoot gaugeSchema read {} = .ok second → ∃ again,
        decodeRoot gaugeSchema second { strict := true } = .ok again ∧
          encodeRoot gaugeSchema again {} = .ok second) ∧
      encodeRoot gaugeSchema read {} = .ok gaugeBuffer := by
  have ordered : Record.Ordered gauge := by
    simp only [Record.Ordered, Record.Sorted, gauge, innerGauge, Value.OrderedEntries, Value.Ordered,
      Value.OrderedItems]
    decide +kernel
  have written : encodeRoot gaugeSchema gauge {} = .ok gaugeBuffer := by decide +kernel
  have any : ({ strict := true } : ReaderOptions).identifier = none := rfl
  obtain ⟨type, read, rooted, decoded, settles, repeats⟩ := reencoding_settles (by decide +kernel)
    gaugeSchema_distinctNames (by decide) ordered written (nothing_asked _ any) (by decide) (by decide)
  cases rooted
  exact ⟨_, read, rfl, decoded, settles, repeats rfl gauge_statesNaN⟩

/-- A gauge without a level, and what is written for it when it was read. -/
def emptyBuffer : Bytes := #[8, 0, 0, 0, 4, 0, 4, 0, 4, 0, 0, 0]

def filledBuffer : Bytes := #[12, 0, 0, 0, 0, 0, 6, 0, 8, 0, 4, 0, 6, 0, 0, 0, 0, 0, 192, 127]

/-- A default that equals nothing is not left out when it was filled in. -/
theorem emptyGauge_grows :
    gaugeSchema.validate = .ok () ∧ gaugeSchema.DistinctNames ∧
      encodeRoot gaugeSchema [] {} = .ok emptyBuffer ∧
      decodeRoot gaugeSchema emptyBuffer {} =
        .ok [("least", .scalar (.float32 0)), ("level", .scalar (.float32 0x7fc00000))] ∧
      encodeRoot gaugeSchema
        [("least", .scalar (.float32 0)), ("level", .scalar (.float32 0x7fc00000))] {} =
          .ok filledBuffer ∧
      filledBuffer ≠ emptyBuffer :=
  ⟨by decide +kernel, gaugeSchema_distinctNames, by decide +kernel⟩

end FlatRecord
