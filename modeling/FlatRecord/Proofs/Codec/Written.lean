import FlatRecord.Proofs.Codec.Layout

/-! Records that are written stand in the buffer, and a record that fits its schema is only refused when the
buffer would become too large. -/
namespace FlatRecord

open Builder Build Encoding

section Fitting

/-- A text, which has to be UTF-8 where the builder insists on it. -/
def TextFits (validate : Bool) : Value → Prop
  | .text _ => True
  | .bytes b => validate = true → (Text.toText? b).isSome
  | _ => False

/-- All members of the struct, and nothing else. -/
def StructFits (s : StructType) (value : Value) : Prop :=
  ∃ entries, (value = .struct entries ∨ value = .record entries) ∧
    (∀ entry ∈ entries, s.member? entry.1 ≠ none) ∧
    ∀ m ∈ s.layout, ∃ v, memberValue s m entries = .ok v

variable (schema : Schema) (validate : Bool) (child : String → Record → Prop)

inductive ElementFits : ElementType → Value → Prop where
  | scalar {t : ScalarType} {v w : Scalar} (converted : v.convert? t = some w) :
      ElementFits (.scalar t) (.scalar v)
  | struct {name : String} {s : StructType} {v : Value} (known : schema.struct name = .ok s)
      (fits : StructFits s v) : ElementFits (.struct name) v
  | text {v : Value} (fits : TextFits validate v) : ElementFits .text v
  | record {name : String} {r : Record} (fits : child name r) : ElementFits (.record name) (.record r)

/-- Vectors have no elements without a size. -/
def VectorFits (type : ElementType) (items : List Value) : Prop :=
  (∃ element, type.resolve schema = .ok element ∧ element.inlineSize ≠ 0) ∧
    ∀ item ∈ items, ElementFits schema validate child type item

def FieldFits (f : RecordField) (value : Value) : Prop :=
  match f.type with
  | .scalar _ | .enumeration _ => ∃ t default w, schema.scalarOf f = .ok (t, default) ∧
    fieldScalar schema f t value = .ok w
  | .struct name => ∃ s, schema.struct name = .ok s ∧ StructFits s value
  | .text => TextFits validate value
  | .vector type => ∃ items, value = .vector items ∧ VectorFits schema validate child type items
  | .record name => ∃ r, value = .record r ∧ child name r

/-- A record of that type, if its children fit. -/
def RecordFits (name : String) (r : Record) : Prop :=
  ∃ type, schema.record name = .ok type ∧ checkNames type name r = .ok () ∧
    ∀ f ∈ type.liveFields, ∀ v, r.get? f.name = some v → FieldFits schema validate child f v

/-- Records nested at most `levels` deep. -/
def LevelsFit : (levels : Nat) → String → Record → Prop
  | 0 => fun _ _ => False
  | levels + 1 => RecordFits schema validate (LevelsFit levels)

end Fitting

theorem memberBytes_ok {s : StructType} {entries : Record} (start : Nat) {members : List Member}
    (each : ∀ m ∈ members, ∃ v, memberValue s m entries = .ok v) :
    ∃ bytes, memberBytes s entries start members = .ok bytes := by
  induction members generalizing start with
  | nil => exact ⟨_, rfl⟩
  | cons m rest ih =>
    obtain ⟨⟨v, value⟩, later⟩ := List.forall_mem_cons.1 each
    obtain ⟨bytes, tail⟩ := ih (m.offset + m.type.size) later
    rw [memberBytes, value, ok_bind, tail]
    exact ⟨_, rfl⟩

theorem structBytes_ok {s : StructType} {value : Value} (out : s.LaidOut) (fits : StructFits s value)
    (field : String) :
    ∃ bytes, structBytes s value field = .ok bytes := by
  obtain ⟨entries, whole, known, each⟩ := fits
  have none : entries.find? (fun entry => (s.member? entry.1).isNone) = none := by
    rw [List.find?_eq_none]
    intro entry mem
    simpa using known entry mem
  obtain ⟨bytes, written⟩ := memberBytes_ok 0 each
  rw [← writeMembers_layout out] at written
  refine ⟨bytes, ?_⟩
  rcases whole with rfl | rfl
  · simp only [structBytes, none]
    exact written
  · simp only [structBytes, none]
    exact written

variable {schema : Schema} {forced validate : Bool} {b : Builder} {f : RecordField} {type : ElementType}
  {field : String}

section Elements

theorem text_encodes (sound : b.Sound) (value : Value) (field : String) :
    Writes (encodeText value field) b (b.stage = .idle ∧ TextFits b.config.validateText value)
      fun ref b' => b'.stage = .idle ∧ TextStands b'.ground value ref.distance := by
  cases value with
  | text s =>
    apply (text_written (text_made sound (safe_createText s) (createUnchecked_ends sound.region _))
      (createUnchecked_raises sound.region _)).mono
    · exact fun ordered => ordered.1
    · exact fun ref b' _ done => ⟨done.1, ⟨_, rfl, done.2.1⟩, done.2.2⟩
  | bytes bytes =>
    apply (text_written (text_made sound (safe_createBytes bytes) (createBytes_ends sound.region bytes))
      (createBytes_raises sound.region bytes)).mono
    · exact fun ordered => ordered
    · exact fun ref b' _ done => ⟨done.1, ⟨_, rfl, done.2.1⟩, done.2.2⟩
  | scalar | vector | record | struct => exact writes_throw fun ordered => ordered.2

variable {items : List Value}

/-- Objects that are written one after the other all stand in the end. -/
theorem objects_encode {kind : ObjectKind} {step : Value → Build (Ref kind)} {fits : Value → Prop}
    (stands : Ground → Value → Nat → Prop) (sound : b.Sound)
    (stays : ∀ g g' v d, g.Under g' → stands g v d → stands g' v d)
    (each : ∀ item ∈ items, ∀ b₁, Proceeds b b₁ →
      Writes (step item) b₁ (b₁.stage = .idle ∧ fits item) fun ref b' =>
        b'.stage = .idle ∧ stands b'.ground item ref.distance) :
    Writes (items.mapM step) b (b.stage = .idle ∧ ∀ item ∈ items, fits item) fun refs b' =>
      (b.stage = .idle → b'.stage = .idle) ∧
        List.Forall₂ (fun item (ref : Ref kind) => stands b'.ground item ref.distance) items refs := by
  apply writes_mapM (I := fun done refs b' => (b.stage = .idle → b'.stage = .idle) ∧
    List.Forall₂ (fun item (ref : Ref kind) => stands b'.ground item ref.distance) done refs)
    sound ⟨id, .nil⟩
  intro done item rest split refs b₁ before holds
  have mem : item ∈ items := by simp [split]
  apply (each item mem b₁ before).mono
  · exact fun ordered => ⟨holds.1 ordered.1, ordered.2 item mem⟩
  · intro ref b' next here
    refine ⟨fun _ => here.1, List.rel_append (holds.2.imp fun _ _ => ?_) (.cons here.2 .nil)⟩
    exact stays _ _ _ _ next.under

variable {place : Placement} {fits : String → Record → Prop}

theorem ElementStands.covered {g : Ground} {v : Value} {kind : ObjectKind} {d : Nat}
    (inside : place.Inside) (stands : ElementStands schema place g type v (.ref kind d)) :
    g.Covers d := by
  cases stands with
  | text stands => exact stands.covered
  | record stands => exact inside _ _ _ _ stands

/-- A vector that refers to its elements. -/
theorem refVector_encodes {kind : ObjectKind} {refs : List (Ref kind)} {element : ResolvedElement}
    (stays : place.Stays) (inside : place.Inside) (sound : b.Sound)
    (known : type.resolve schema = .ok element) (inline : element.inlineSize = offsetSize)
    (four : element.alignment = offsetSize)
    (stand : List.Forall₂ (fun item (ref : Ref kind) =>
      ElementStands schema place b.ground type item (.ref kind ref.distance)) items refs) :
    Writes (createRefVector refs) b (b.stage = .idle) fun ref b' =>
      b'.stage = .idle ∧ VectorStands schema place b'.ground type items ref.distance := by
  apply (references_written sound).mono
  · refine fun idle => ⟨idle, fun ref mem => ?_⟩
    obtain ⟨item, -, here⟩ := related_right stand mem
    rw [← sound.length_settled]
    exact here.covered inside
  · rintro ref b' next ⟨idle, elements, related, level⟩
    refine ⟨idle, element, elements, known, (related_trans stand related).imp ?_, ?_⟩
    · rintro item _ ⟨ref, here, rfl⟩
      exact here.mono stays next.under
    · rw [inline, four]
      exact level

theorem scalars_encode (sound : b.Sound) (t : ScalarType) :
    Writes (do
      startVector items.length t.size t.size
      items.forM fun
        | .scalar v => do pushElement (← ofExcept (coerce v t field))
        | other => throw (wrongKind field .scalarElement other)
      endVector) b
      (b.stage = .idle ∧ ∀ item ∈ items, ElementFits schema validate fits (.scalar t) item)
      fun ref b' => b'.stage = .idle ∧
        VectorStands schema place b'.ground (.scalar t) items ref.distance := by
  obtain ⟨k, small, power⟩ := t.size_power
  apply (vector_written (R := fun item p => ∀ g, ElementStands schema place g (.scalar t) item p)
    ⟨k, by omega, power⟩ sound ?_ ?_).weaken
  · rintro ref b' _ ⟨idle, elements, related, level⟩
    exact ⟨idle, .scalar t, elements, rfl, related.imp fun _ _ here => here _, level⟩
  · exact fun ordered => ⟨ordered.1, Nat.ne_of_gt t.size_pos⟩
  · intro item mem b₁ elements next level
    cases item with
    | scalar v =>
      apply writes_ofExcept
      · rintro ⟨⟨-, fits⟩, -⟩
        cases fits _ mem with
        | scalar converted => exact ⟨_, coerce_eq_ok.2 converted⟩
      · intro w coerced
        have length : w.toBytes.length = t.size := by
          rw [w.length_toBytes, Scalar.size, type_coerce coerced]
        apply (own_filled next.sound level w.toBytes).mono
        · exact fun ordered => ⟨length, ordered.2⟩
        · exact fun _ b' _ level => ⟨_, fun _ => .scalar (coerce_eq_ok.1 coerced), level⟩
    | text | bytes | vector | record | struct =>
      apply writes_throw
      rintro ⟨⟨-, fits⟩, -⟩
      cases fits _ mem

theorem structs_encode {name : String} {s : StructType} {elements : List (List UInt8)} (out : s.LaidOut)
    (sound : b.Sound) (known : schema.struct name = .ok s)
    (written : items.mapM (structBytes s · field) = .ok elements) :
    Writes (do startVector elements.length s.size s.alignment; elements.forM pushBytesElement; endVector)
      b (b.stage = .idle ∧ s.size ≠ 0) fun ref b' => b'.stage = .idle ∧
        VectorStands schema place b'.ground (.struct name) items ref.distance := by
  obtain ⟨k, small, power⟩ := out.alignment_power
  have resolved : (ElementType.struct name).resolve schema = .ok (.struct s) := by
    simp [ElementType.resolve, known]
  have related := mapM_related written
  apply (vector_written (R := fun bytes p => p = .own bytes) ⟨k, by omega, power⟩ sound id ?_).weaken
  · rintro ref b' _ ⟨idle, pieces, pushed, level⟩
    refine ⟨idle, .struct s, pieces, resolved, (related_trans related pushed).imp ?_, level⟩
    rintro item _ ⟨bytes, written, rfl⟩
    exact .struct known written
  · intro bytes mem b₁ pieces next level
    obtain ⟨item, -, written⟩ := related_right related mem
    apply (own_filled next.sound level bytes).mono
    · exact fun ordered => ⟨length_structBytes written, ordered.2⟩
    · exact fun _ b' _ level => ⟨_, rfl, level⟩

end Elements

/-- A child that fits is written, and stands where its reference leads. -/
def ChildWrites (forced validate : Bool) (child : Child) (fits : String → Record → Prop)
    (place : Placement) : Prop :=
  ∀ b name r, b.Sound → b.config.forceDefaults = forced → b.config.validateText = validate →
    Writes (child name r) b (b.stage = .idle ∧ fits name r) fun ref b' =>
      b'.stage = .idle ∧ place b'.ground name r ref.distance

section Fields

variable {child : Child} {fits : String → Record → Prop} {place : Placement}

variable {items : List Value}

theorem textItems_encode (sound : b.Sound) (texts : b.config.validateText = validate)
    (stays : place.Stays) :
    Writes (items.mapM (encodeText · field)) b
      (b.stage = .idle ∧ ∀ item ∈ items, ElementFits schema validate fits .text item) fun refs b' =>
        (b.stage = .idle → b'.stage = .idle) ∧ List.Forall₂ (fun item (ref : Ref .text) =>
          ElementStands schema place b'.ground .text item (.ref .text ref.distance)) items refs := by
  apply objects_encode (fun g item d => ElementStands schema place g .text item (.ref .text d)) sound
    (fun _ _ _ _ under stands => stands.mono stays under)
  intro item _ b₁ next
  apply (text_encodes next.sound item field).mono
  · rintro ⟨idle, fits⟩
    cases fits with
    | text fits => exact ⟨idle, by rw [next.config, texts]; exact fits⟩
  · exact fun ref b' _ done => ⟨done.1, .text done.2⟩

theorem texts_encode (sound : b.Sound) (texts : b.config.validateText = validate) (stays : place.Stays)
    (inside : place.Inside) :
    Writes (do createRefVector (← items.mapM (encodeText · field))) b
      (b.stage = .idle ∧ ∀ item ∈ items, ElementFits schema validate fits .text item) fun ref b' =>
        b'.stage = .idle ∧ VectorStands schema place b'.ground .text items ref.distance := by
  apply writes_bind (textItems_encode sound texts stays)
  intro refs b₁ next holds
  apply (refVector_encodes stays inside next.sound rfl rfl rfl holds.2).mono
  · exact fun ordered => holds.1 ordered.1
  · exact fun _ _ _ done => done

theorem recordItems_encode (writes : ChildWrites forced validate child fits place) (stays : place.Stays)
    {name : String} (sound : b.Sound) (defaults : b.config.forceDefaults = forced)
    (texts : b.config.validateText = validate) :
    Writes (items.mapM fun
        | .record r => child name r
        | other => throw (wrongKind field .recordElement other)) b
      (b.stage = .idle ∧ ∀ item ∈ items, ElementFits schema validate fits (.record name) item)
      fun refs b' => (b.stage = .idle → b'.stage = .idle) ∧
        List.Forall₂ (fun item (ref : Ref .record) => ElementStands schema place b'.ground
          (.record name) item (.ref .record ref.distance)) items refs := by
  apply objects_encode (fun g item d =>
    ElementStands schema place g (.record name) item (.ref .record d)) sound
    (fun _ _ _ _ under stands => stands.mono stays under)
  intro item _ b₁ next
  cases item with
  | record r =>
    apply (writes b₁ name r next.sound (next.config ▸ defaults) (next.config ▸ texts)).mono
    · rintro ⟨idle, fits⟩
      cases fits with
      | record fits => exact ⟨idle, fits⟩
    · exact fun ref b' _ done => ⟨done.1, .record done.2⟩
  | scalar | text | bytes | vector | struct =>
    apply writes_throw
    rintro ⟨-, fits⟩
    cases fits

theorem records_encode (writes : ChildWrites forced validate child fits place) (stays : place.Stays)
    (inside : place.Inside) {name : String} {record : RecordType}
    (known : schema.record name = .ok record) (sound : b.Sound)
    (defaults : b.config.forceDefaults = forced) (texts : b.config.validateText = validate) :
    Writes (do
      let refs ← items.mapM fun
        | .record r => child name r
        | other => throw (wrongKind field .recordElement other)
      createRefVector refs) b
      (b.stage = .idle ∧ ∀ item ∈ items, ElementFits schema validate fits (.record name) item)
      fun ref b' => b'.stage = .idle ∧
        VectorStands schema place b'.ground (.record name) items ref.distance := by
  apply writes_bind (recordItems_encode writes stays sound defaults texts)
  intro refs b₁ next holds
  have resolved : (ElementType.record name).resolve schema = .ok (.record name) := by
    simp [ElementType.resolve, known]
  apply (refVector_encodes stays inside next.sound resolved rfl rfl holds.2).mono
  · exact fun ordered => holds.1 ordered.1
  · exact fun _ _ _ done => done

theorem vector_encodes (writes : ChildWrites forced validate child fits place) (stays : place.Stays)
    (inside : place.Inside) (valid : f.Valid schema) (out : schema.LaidOut) (kind : f.type = .vector type)
    (sound : b.Sound) (defaults : b.config.forceDefaults = forced) (texts : b.config.validateText = validate) :
    Writes (encodeVector schema child type (.vector items) field) b
      (b.stage = .idle ∧ VectorFits schema validate fits type items) fun ref b' =>
        b'.stage = .idle ∧ VectorStands schema place b'.ground type items ref.distance := by
  cases type with
  | scalar t =>
    apply (scalars_encode sound t).mono
    · exact fun ordered => ⟨ordered.1, ordered.2.2⟩
    · exact fun _ _ _ done => done
  | struct name =>
    apply writes_ofExcept
    · rintro ⟨-, ⟨element, resolved, -⟩, -⟩
      obtain ⟨s, known, -⟩ := map_eq_ok resolved
      exact ⟨s, known⟩
    · intro s known
      apply writes_ofExcept
      · rintro ⟨-, -, fits⟩
        apply mapM_ok
        intro item mem
        cases fits item mem with
        | struct known' fits =>
          cases known.symm.trans known'
          exact structBytes_ok (out.struct known) fits field
      · intro elements written
        apply (structs_encode (out.struct known) sound known written).mono
        · rintro ⟨idle, ⟨element, resolved, sized⟩, -⟩
          obtain ⟨s', known', rfl⟩ := map_eq_ok resolved
          cases known.symm.trans known'
          exact ⟨idle, sized⟩
        · exact fun _ _ _ done => done
  | text =>
    apply (texts_encode sound texts stays inside).mono
    · exact fun ordered => ⟨ordered.1, ordered.2.2⟩
    · exact fun _ _ _ done => done
  | record name =>
    simp only [RecordField.Valid, kind] at valid
    obtain ⟨record, known⟩ := valid
    apply (records_encode writes stays inside known sound defaults texts).mono
    · exact fun ordered => ⟨ordered.1, ordered.2.2⟩
    · exact fun _ _ _ done => done

theorem field_encodes (writes : ChildWrites forced validate child fits place) (stays : place.Stays)
    (inside : place.Inside) (valid : f.Valid schema) (out : schema.LaidOut) (sound : b.Sound)
    (defaults : b.config.forceDefaults = forced) (texts : b.config.validateText = validate)
    (value : Value) :
    Writes (encodeField schema child f value) b
      (b.stage = .idle ∧ FieldFits schema validate fits f value) fun p b' =>
        (b.stage = .idle → b'.stage = .idle) ∧ FieldStands schema place b'.ground f value p := by
  simp only [encodeField, FieldFits]
  cases kind : f.type with
  | scalar | enumeration =>
    dsimp only
    apply writes_ofExcept
    · rintro ⟨-, t, default, w, stored, -⟩
      exact ⟨_, stored⟩
    · intro answer stored
      apply writes_ofExcept
      · rintro ⟨-, t, default, w, stored', written⟩
        cases stored.symm.trans stored'
        exact ⟨w, written⟩
      · exact fun w written => writes_pure sound ⟨id, .scalar stored written⟩
  | struct name =>
    dsimp only
    apply writes_ofExcept
    · rintro ⟨-, s, known, -⟩
      exact ⟨s, known⟩
    · intro s known
      apply writes_ofExcept
      · rintro ⟨-, s', known', fits⟩
        cases known.symm.trans known'
        exact structBytes_ok (out.struct known) fits f.name
      · exact fun bytes written => writes_pure sound ⟨id, .struct kind known written⟩
  | text =>
    dsimp only
    have written := text_encodes sound value f.name
    rw [texts] at written
    apply writes_bind written
    intro ref b' next done
    exact writes_pure next.sound ⟨fun _ => done.1, .text kind done.2⟩
  | vector type =>
    cases value with
    | vector items =>
      dsimp only
      apply writes_bind ((vector_encodes writes stays inside valid out kind sound defaults texts).mono ?_
        fun _ _ _ done => done)
      · intro ref b' next done
        exact writes_pure next.sound ⟨fun _ => done.1, .vector kind done.2⟩
      · rintro ⟨idle, items', same, fits⟩
        cases same
        exact ⟨idle, fits⟩
    | scalar | text | bytes | record | struct =>
      refine writes_bind (writes_throw ?_ : Writes _ _ _ fun _ _ => False) fun _ _ _ => False.elim
      rintro ⟨-, items, same, -⟩
      cases same
  | record name =>
    cases value with
    | record r =>
      dsimp only
      apply writes_bind ((writes b name r sound defaults texts).mono ?_ fun _ _ _ done => done)
      · intro ref b' next done
        exact writes_pure next.sound ⟨fun _ => done.1, .record kind done.2⟩
      · rintro ⟨idle, r', same, fits⟩
        cases same
        exact ⟨idle, fits⟩
    | scalar | text | bytes | vector | struct =>
      apply writes_throw
      rintro ⟨-, r, same, -⟩
      cases same

end Fields

section Records

variable {child : Child} {fits : String → Record → Prop} {place : Placement} {record : RecordType}
  {r : Record} {pending : List Pending} {g : Ground}

theorem fields_encode (writes : ChildWrites forced validate child fits place) (stays : place.Stays)
    (inside : place.Inside) (valid : record.Valid schema) (out : schema.LaidOut) (sound : b.Sound)
    (defaults : b.config.forceDefaults = forced) (texts : b.config.validateText = validate) :
    Writes (record.liveFields.filterMapM fun f => (r.get? f.name).mapM (encodeField schema child f)) b
      (b.stage = .idle ∧ ∀ f ∈ record.liveFields, ∀ v, r.get? f.name = some v →
        FieldFits schema validate fits f v) fun pending b' =>
      (b.stage = .idle → b'.stage = .idle) ∧
        FieldsStand schema place b'.ground r (presentFields record r) pending := by
  apply writes_filterMapM (I := fun done pending b' => (b.stage = .idle → b'.stage = .idle) ∧
    FieldsStand schema place b'.ground r (done.filter fun f => (r.get? f.name).isSome) pending)
    sound ⟨id, .nil⟩
  intro done f rest split pending b₁ before holds
  have mem : f ∈ record.liveFields := by simp [split]
  cases found : r.get? f.name with
  | none =>
    apply writes_pure before.sound
    simpa [found] using holds
  | some v =>
    have field := field_encodes writes stays inside (valid.fields f (List.mem_of_mem_filter mem)) out
      before.sound (before.config ▸ defaults) (before.config ▸ texts) v
    apply writes_bind (field.mono ?_ fun _ _ _ done => done)
    · intro p b₂ next here
      apply writes_pure next.sound
      refine ⟨fun idle => here.1 (holds.1 idle), ?_⟩
      rw [List.filter_append, List.filter_cons_of_pos (by simp [found])]
      exact List.rel_append (holds.2.mono stays next.under) (.cons ⟨v, found, here.2⟩ .nil)
    · exact fun ordered => ⟨holds.1 ordered.1, ordered.2 f mem v found⟩

theorem pending_writes {fields : List (Nat × Piece)} {asked : List (Nat × Nat)} {p : Pending}
    (sound : b.Sound) (level : LevelRecord b fields asked) (ready : p.Ready g)
    (below : g.bytes.length ≤ b.floor) :
    Writes p.write b (p.slot ∉ asked.map (·.1)) fun _ b' =>
      LevelRecord b' ((p.field? b.config.forceDefaults).toList ++ fields)
        (asked ++ [(p.slot, p.alignment)]) := by
  cases p with
  | scalar slot w default =>
    have typed : w.type = default.type := ready
    simp only [Pending.write, if_pos typed]
    apply (scalar_kept sound level slot w default).mono id
    intro _ b' _ level
    by_cases elided : b.elides w default = true
    · have none : (Pending.scalar slot w default).field? b.config.forceDefaults = none := if_pos elided
      rw [if_pos elided] at level
      rwa [none]
    · have some : (Pending.scalar slot w default).field? b.config.forceDefaults =
          some (slot, .own w.toBytes) := if_neg elided
      rw [if_neg elided] at level
      rwa [some]
  | struct slot bytes alignment => exact struct_kept sound level slot bytes ready
  | ref slot kind child =>
    apply (reference_kept sound level slot child).mono
    · exact fun fresh => ⟨fresh, ready.1, Nat.le_trans ready.2 below⟩
    · exact fun _ _ _ level => level

/-- The fields that are ready are written in their order. -/
theorem pendings_write (sound : b.Sound) (defaults : b.config.forceDefaults = forced)
    (level : LevelRecord b [] []) (ready : ∀ p ∈ pending, p.Ready g)
    (below : g.bytes.length ≤ b.floor) (distinct : (pending.map (·.slot)).Nodup) :
    Writes (pending.forM Pending.write) b True fun _ b' =>
      LevelRecord b' (fieldsOf forced pending) (askedBy pending) := by
  apply writes_forM (I := fun done b' => LevelRecord b' (fieldsOf forced done) (askedBy done)) sound
    level
  intro done p rest split b₁ before level
  have fresh : p.slot ∉ (askedBy done).map (·.1) := by
    rw [split, List.map_append, List.map_cons] at distinct
    have apart := List.disjoint_of_nodup_append distinct
    simp only [askedBy, List.map_map]
    exact fun taken => apart taken List.mem_cons_self
  apply (pending_writes before.sound level (ready p (by simp [split]))
    (Nat.le_trans below (before.floor_le sound))).mono
  · exact fun _ => fresh
  · intro _ b' _ level
    have same : b₁.config.forceDefaults = forced := before.config ▸ defaults
    have fields : fieldsOf forced (done ++ [p]) = (p.field? forced).toList ++ fieldsOf forced done := by
      simp only [fieldsOf, List.filterMap_append, List.reverse_append]
      cases here : p.field? forced <;> simp [here]
    rw [same] at level
    rw [fields, askedBy, List.map_append]
    exact level

theorem FieldsStand.ready (valid : record.Valid schema) (out : schema.LaidOut) (inside : place.Inside)
    (stand : FieldsStand schema place g r (presentFields record r) pending) :
    ∀ p ∈ pending, p.Ready g := by
  intro p mem
  obtain ⟨f, present, v, -, stands⟩ := related_right stand mem
  have live := List.mem_of_mem_filter present
  exact stands.ready (valid.fields f (List.mem_of_mem_filter live)) out inside

theorem FieldsStand.distinct (valid : record.Valid schema)
    (stand : FieldsStand schema place g r (presentFields record r) pending) :
    (pending.map (·.slot)).Nodup := by
  rw [stand.slots]
  exact List.Nodup.sublist ((List.filter_sublist.trans List.filter_sublist).map _) valid.slots

/-- The fields of a record whose objects stand are written, the most aligned first. -/
theorem pendings_fill (inside : place.Inside) (isValid : record.Valid schema) (out : schema.LaidOut) (sound : b.Sound)
    (defaults : b.config.forceDefaults = forced)
    (stand : FieldsStand schema place b.ground r (presentFields record r) pending) :
    Writes (do startRecord; (byAlignment pending).forM Pending.write) b (b.stage = .idle) fun _ b' =>
      LevelRecord b' (fieldsOf forced (byAlignment pending)) (askedBy (byAlignment pending)) := by
  have sorted := byAlignment_perm pending
  apply writes_bind (record_opened sound)
  intro _ b₂ begun level
  have same : b₂.config.forceDefaults = forced := by rw [begun.config, defaults]
  have below : b.ground.bytes.length ≤ b₂.floor := by
    rw [← begun.sound.length_settled]
    exact begun.kept.length_le
  have ready := stand.ready isValid out inside
  have pendings := pendings_write begun.sound same level
    (fun p mem => ready p (sorted.mem_iff.1 mem)) below
    ((sorted.map _).nodup_iff.2 (stand.distinct isValid))
  exact pendings.mono (fun _ => trivial) fun _ _ _ level => level

/-- A record whose objects stand is written behind them. -/
theorem pendingRecord_encodes (inside : place.Inside) (stays : place.Stays) (isValid : record.Valid schema)
    (out : schema.LaidOut) {name : String} (known : schema.record name = .ok record)
    (checked : checkNames record name r = .ok ()) (sound : b.Sound)
    (defaults : b.config.forceDefaults = forced)
    (stand : FieldsStand schema place b.ground r (presentFields record r) pending) :
    Writes (do startRecord; (byAlignment pending).forM Pending.write; endRecord) b (b.stage = .idle)
      fun ref b' => b'.stage = .idle ∧
        RecordStands schema forced place b'.ground name r ref.distance := by
  have filled := pendings_fill inside isValid out sound defaults stand
  simp only [← bind_assoc] at filled ⊢
  apply writes_bind filled
  intro _ b₃ filled level
  apply (record_ended filled.sound level).mono
  · exact fun _ => trivial
  · intro ref b' done ended
    refine ⟨ended.1, record, pending, known, checked, ?_, ended.2⟩
    exact stand.mono stays (filled.under.trans done.under)

/-- A record is written as its children are. -/
theorem record_encodes (writes : ChildWrites forced validate child fits place) (stays : place.Stays)
    (inside : place.Inside) (valid : schema.Valid) (out : schema.LaidOut) :
    ChildWrites forced validate (encodeRecord schema child) (RecordFits schema validate fits)
      (RecordStands schema forced place) := by
  intro b name r sound defaults texts
  apply writes_ofExcept
  · rintro ⟨-, record, known, -⟩
    exact ⟨record, known⟩
  intro record known
  apply writes_ofExcept
  · rintro ⟨-, record', known', checked, -⟩
    cases known.symm.trans known'
    exact ⟨(), checked⟩
  intro _ checked
  have isValid := valid.records record (Schema.record_mem known)
  have fields := fields_encode (r := r) writes stays inside isValid out sound defaults texts
  apply writes_bind (fields.mono ?_ fun _ _ _ done => done)
  · intro pending b₁ first holds
    apply (pendingRecord_encodes inside stays isValid out known checked first.sound
      (first.config ▸ defaults) holds.2).mono
    · exact fun ordered => holds.1 ordered.1
    · exact fun _ _ _ done => done
  · rintro ⟨idle, record', known', -, fits⟩
    cases known.symm.trans known'
    exact ⟨idle, fits⟩

/-- Whatever was written before, a record that is written stands at the end of the buffer, and one that fits
its schema is only refused by the size limit. -/
theorem levels_encode (valid : schema.Valid) (out : schema.LaidOut) (levels : Nat) :
    ChildWrites forced validate (encodeLevels schema levels) (LevelsFit schema validate levels)
      (LevelsStand schema forced levels) := by
  induction levels with
  | zero => exact fun _ _ _ _ _ _ => writes_throw And.right
  | succ levels ih =>
    exact record_encodes ih (levelsStand_stays schema forced levels)
      (levelsStand_inside schema forced levels) valid out

end Records

end FlatRecord
