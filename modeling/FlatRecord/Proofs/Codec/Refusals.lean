import FlatRecord.Proofs.Codec.Reencoded
import FlatRecord.Proofs.Codec.Recovery
import FlatRecord.Proofs.Reading.Sized

/-! Why a record is not encoded. It may not be what the schema describes, a text may not be UTF-8, and the buffer
may become too large. The encoder itself keeps to the order of the builder, so of the builder's other refusals only
one is met: it takes no vectors of elements without a size or with an alignment that is no power of two. A schema can
describe both, the second only if its structs are not in the natural layout. -/
namespace FlatRecord

open Builder Build Encoding

section Mismatches

variable {α β : Type}

/-- A computation that fails only by a mismatch with the schema. -/
def Mismatches (x : Except Error α) : Prop := ∀ e, x = .error e → ∃ mismatch, e = .schema mismatch

theorem mismatches_ok (a : α) : Mismatches (.ok a) := nofun

theorem mismatches_error (mismatch : Mismatch) :
    Mismatches (.error (.schema mismatch) : Except Error α) := by
  intro e failed
  cases failed
  exact ⟨mismatch, rfl⟩

theorem mismatches_bind {x : Except Error α} {f : α → Except Error β} (first : Mismatches x)
    (second : ∀ a, Mismatches (f a)) : Mismatches (x >>= f) := by
  intro e failed
  rcases bind_eq_error.1 failed with failed | ⟨a, -, failed⟩
  · exact first e failed
  · exact second a e failed

theorem mismatches_mapM {items : List α} {g : α → Except Error β}
    (each : ∀ item, Mismatches (g item)) : Mismatches (items.mapM g) := by
  induction items with
  | nil => exact mismatches_ok []
  | cons item rest ih =>
    rw [List.mapM_cons]
    exact mismatches_bind (each item) fun _ => mismatches_bind ih fun _ => mismatches_ok _

theorem mismatches_forM {items : List α} {check : α → Except Error Unit}
    (each : ∀ item, Mismatches (check item)) : Mismatches (items.forM check) := by
  induction items with
  | nil => exact mismatches_ok ()
  | cons item rest ih => exact mismatches_bind (each item) fun _ => ih

variable (schema : Schema) (s : StructType) (name field : String)

theorem record_mismatches : Mismatches (schema.record name) := by
  rw [Schema.record]
  split
  · exact mismatches_ok _
  · exact mismatches_error _

theorem struct_mismatches : Mismatches (schema.struct name) := by
  rw [Schema.struct]
  split
  · exact mismatches_ok _
  · exact mismatches_error _

theorem enumeration_mismatches : Mismatches (schema.enumeration name) := by
  rw [Schema.enumeration]
  split
  · exact mismatches_ok _
  · exact mismatches_error _

theorem rootRecord_mismatches : Mismatches schema.rootRecord := by
  rw [Schema.rootRecord]
  split
  · exact record_mismatches schema _
  · exact mismatches_error _

theorem variant_mismatches (e : EnumType) : Mismatches (Schema.variant e name) := by
  rw [Schema.variant]
  split
  · exact mismatches_ok _
  · exact mismatches_error _

theorem scalarOfInt_mismatches (t : ScalarType) (v : Int) : Mismatches (Schema.scalarOfInt t v) := by
  rw [Schema.scalarOfInt]
  split
  · exact mismatches_ok _
  · exact mismatches_error _

theorem scalarOf_mismatches (f : RecordField) : Mismatches (schema.scalarOf f) := by
  rw [Schema.scalarOf]
  split
  · exact mismatches_ok _
  · refine mismatches_bind (enumeration_mismatches schema _) fun e => ?_
    split
    · exact mismatches_ok _
    · exact mismatches_bind (variant_mismatches _ e) fun v =>
        mismatches_bind (scalarOfInt_mismatches _ v) fun _ => mismatches_ok _
  · exact mismatches_error _

theorem coerce_mismatches (v : Scalar) (t : ScalarType) : Mismatches (coerce v t field) := by
  rw [coerce]
  split
  · exact mismatches_ok _
  · exact mismatches_error _

theorem memberBytes_mismatches (entries : Record) (start : Nat) (members : List Member) :
    Mismatches (memberBytes s entries start members) := by
  induction members generalizing start with
  | nil => exact mismatches_ok _
  | cons m rest ih =>
    refine mismatches_bind ?_ fun _ => mismatches_bind (ih _) fun _ => mismatches_ok _
    rw [memberValue]
    split
    · exact coerce_mismatches _ _ _
    · exact mismatches_error _
    · exact mismatches_error _

/-- In the natural layout every member has its place, so only its value can be wrong. -/
theorem structBytes_mismatches (laid : s.LaidOut) (value : Value) : Mismatches (structBytes s value field) := by
  cases value with
  | record entries | struct entries =>
    simp only [structBytes]
    split
    · exact mismatches_error _
    · rw [writeMembers_layout laid]
      exact memberBytes_mismatches s entries 0 _
  | scalar | text | bytes | vector => exact mismatches_error _

theorem fieldScalar_mismatches (f : RecordField) (t : ScalarType) (value : Value) :
    Mismatches (fieldScalar schema f t value) := by
  unfold fieldScalar
  split
  · exact coerce_mismatches _ _ _
  · exact mismatches_bind (enumeration_mismatches schema _) fun e =>
      mismatches_bind (variant_mismatches _ e) fun v => scalarOfInt_mismatches t v
  · exact mismatches_error _

theorem checkNames_mismatches (type : RecordType) (r : Record) :
    Mismatches (checkNames type name r) := by
  refine mismatches_forM fun entry => ?_
  dsimp only
  split
  · split
    · exact mismatches_error _
    · exact mismatches_ok _
  · exact mismatches_error _

end Mismatches

/-- Some field is a vector of structs without members. -/
def Schema.Sizeless (schema : Schema) : Prop :=
  ∃ type ∈ schema.records, ∃ f ∈ type.liveFields, ∃ name s,
    f.type = .vector (.struct name) ∧ schema.struct name = .ok s ∧ s.members = []

/-- Why a record of the schema can be refused. -/
inductive Encoding.Refusal (schema : Schema) : Error → Prop where
  | mismatch (mismatch : Mismatch) : Refusal schema (.schema mismatch)
  | invalidText : Refusal schema .invalidText
  | sizeLimit (requested limit : Nat) : Refusal schema (.sizeLimit requested limit)
  | sizeless (sizeless : schema.Sizeless) : Refusal schema (.order .badElementLayout)

theorem Encoding.Refusal.of_limit {schema : Schema} (e : Error) (limit : e.IsLimit) :
    Refusal schema e := by
  obtain ⟨requested, limit, rfl⟩ := limit
  exact .sizeLimit requested limit

variable {schema : Schema} {forced validate : Bool} {b : Builder} {f : RecordField}
  {type : ElementType} {field : String} {child : Child} {fits : String → Record → Prop}
  {place : Placement} {items : List Value} {levels : Nat}

theorem Mismatches.refusal {x : Except Error α} (mismatches : Mismatches x) (e : Error)
    (failed : x = .error e) : Refusal schema e := by
  obtain ⟨mismatch, rfl⟩ := mismatches e failed
  exact .mismatch mismatch

section Elements

theorem text_tries (sound : b.Sound) (idle : b.stage = .idle) (value : Value) (field : String) :
    Tries (Refusal schema) (encodeText value field) b fun ref b' =>
      b'.stage = .idle ∧ TextStands b'.ground value ref.distance := by
  by_cases fits : TextFits b.config.validateText value
  · exact (text_encodes sound value field).tries ⟨idle, fits⟩ Refusal.of_limit
  · cases value with
    | text s => exact absurd trivial fits
    | bytes bytes =>
      have invalid : b.config.validateText = true ∧ (Text.toText? bytes).isNone = true := by
        simpa [TextFits] using fits
      rw [Tries, encodeText, createBytes, ends_bind, ends_get, if_pos invalid]
      exact .invalidText
    | scalar | vector | record | struct => exact tries_throw (.mismatch _)

/-- A vector of elements without a size is refused. -/
theorem sizeless_refused {x : Unit → Build α} (idle : b.stage = .idle) (length alignment : Nat) :
    Ends (startVector length 0 alignment >>= x) b (fun _ _ => False)
      fun e _ => e = .order .badElementLayout := by
  have first : ensureIdle.run b = .ok () b := by
    rw [ensureIdle, run_get, idle]
    rfl
  rw [ends_bind, startVector, Ends, run_bind_ok first]
  exact rfl

/-- Scalars are made to fit when their vector has begun. -/
theorem scalars_try (sound : b.Sound) (idle : b.stage = .idle) (t : ScalarType) :
    Tries (Refusal schema) (do
      startVector items.length t.size t.size
      items.forM fun
        | .scalar v => do pushElement (← ofExcept (coerce v t field))
        | other => throw (wrongKind field .scalarElement other)
      endVector) b fun _ b' => b'.stage = .idle := by
  obtain ⟨k, small, power⟩ := t.size_power
  refine tries_bind ((vector_opened sound ⟨k, by omega, power⟩).tries
    ⟨idle, Nat.ne_of_gt t.size_pos⟩ Refusal.of_limit) fun _ b₁ opened level => ?_
  refine tries_bind (tries_forM (I := fun done b' => ∃ elements, elements.length = done.length ∧
    LevelVector b' items.length t.size t.size elements) opened.sound ⟨[], rfl, level⟩ ?_) ?_
  · rintro done item rest split b₂ next ⟨elements, same, level⟩
    cases item with
    | scalar v =>
      refine tries_ofExcept (coerce_mismatches field v t).refusal fun w coerced => ?_
      have length : w.toBytes.length = t.size := by
        rw [w.length_toBytes, Scalar.size, type_coerce coerced]
      have more : elements.length < items.length := by
        rw [split, List.length_append, List.length_cons]
        omega
      apply ((own_filled next.sound level w.toBytes).tries ⟨length, more⟩ Refusal.of_limit).mono
      · exact fun _ reason => reason
      · exact fun _ _ _ level => ⟨_, by simp [same], level⟩
    | text | bytes | vector | record | struct => exact tries_throw (.mismatch _)
  · rintro _ b₂ next ⟨elements, same, level⟩
    apply ((vector_ended next.sound level).tries same Refusal.of_limit).mono
    · exact fun _ reason => reason
    · exact fun _ _ _ ended => ended.1

end Elements

/-- Children nested at most `levels` deep are only refused for such a reason. -/
def ChildTries (schema : Schema) (forced validate : Bool) (levels : Nat) (child : Child) : Prop :=
  ∀ b name r, b.Sound → b.config.forceDefaults = forced → b.config.validateText = validate →
    b.stage = .idle → Record.depth r ≤ levels →
    Tries (Refusal schema) (child name r) b fun _ b' => b'.stage = .idle

section Fields

variable {record : RecordType}

theorem vector_tries (out : schema.LaidOut) (writes : ChildWrites forced validate child fits place)
    (tries : ChildTries schema forced validate levels child) (stays : place.Stays)
    (inside : place.Inside) (known : record ∈ schema.records) (live : f ∈ record.liveFields)
    (valid : f.Valid schema) (kind : f.type = .vector type) (sound : b.Sound) (idle : b.stage = .idle)
    (defaults : b.config.forceDefaults = forced) (texts : b.config.validateText = validate)
    (deep : ∀ item ∈ items, item.depth ≤ levels) :
    Tries (Refusal schema) (encodeVector schema child type (.vector items) field) b fun _ b' =>
      b'.stage = .idle := by
  cases type with
  | scalar t => exact scalars_try sound idle t
  | struct name =>
    refine tries_ofExcept (struct_mismatches schema name).refusal fun s found => ?_
    refine tries_ofExcept (mismatches_mapM (structBytes_mismatches s field (out.struct found))).refusal
      fun elements written => ?_
    by_cases sized : s.size = 0
    · rw [sized]
      refine (sizeless_refused idle _ _).mono (fun _ _ never => never.elim) fun e _ same => ?_
      subst same
      have members := (out.struct found).members_of_size sized
      exact .sizeless ⟨record, known, f, live, name, s, kind, found, members⟩
    · have vector : Writes _ b _ fun (ref : Ref .vector) b' => b'.stage = .idle ∧
          VectorStands schema place b'.ground (.struct name) items ref.distance :=
        structs_encode (out.struct found) sound found written
      exact (vector.weaken fun _ _ _ done => done.1).tries ⟨idle, sized⟩ Refusal.of_limit
  | text =>
    have all : Tries (Refusal schema) (items.mapM (encodeText · field)) b fun _ b' =>
        b'.stage = .idle := by
      refine tries_mapM (I := fun _ _ b' => b'.stage = .idle) sound idle ?_
      intro done item rest _ answers b₁ next idle
      exact (text_tries next.sound idle item field).mono (fun _ reason => reason) fun _ _ _ done => done.1
    have stand : Writes (items.mapM (encodeText · field)) b
        (b.stage = .idle ∧ ∀ item ∈ items, ElementFits schema validate fits .text item) _ :=
      textItems_encode sound texts stays
    refine tries_bind (stand.tried all) fun refs b₁ next holds => ?_
    have vector := refVector_encodes stays inside next.sound rfl rfl rfl holds.2
    exact (vector.weaken fun _ _ _ done => done.1).tries (holds.1 idle) Refusal.of_limit
  | record name =>
    simp only [RecordField.Valid, kind] at valid
    obtain ⟨nested, found⟩ := valid
    have resolved : (ElementType.record name).resolve schema = .ok (.record name) := by
      simp [ElementType.resolve, found]
    refine tries_bind (Writes.tried (recordItems_encode writes stays sound defaults texts : Writes _ b
      (b.stage = .idle ∧ ∀ item ∈ items, ElementFits schema validate fits (.record name) item) _)
      (tries_mapM (I := fun _ _ b' => b'.stage = .idle) sound idle ?_)) fun refs b₁ next holds => ?_
    · intro done item rest split answers b₁ next idle
      have within := deep item (by simp [split])
      cases item with
      | record r =>
        exact tries b₁ name r next.sound (next.config ▸ defaults) (next.config ▸ texts) idle within
      | scalar | text | bytes | vector | struct => exact tries_throw (.mismatch _)
    · have vector := refVector_encodes stays inside next.sound resolved rfl rfl holds.2
      exact (vector.weaken fun _ _ _ done => done.1).tries (holds.1 idle) Refusal.of_limit

theorem field_tries (out : schema.LaidOut) (writes : ChildWrites forced validate child fits place)
    (tries : ChildTries schema forced validate levels child) (stays : place.Stays)
    (inside : place.Inside) (known : record ∈ schema.records) (live : f ∈ record.liveFields)
    (valid : f.Valid schema) (sound : b.Sound) (idle : b.stage = .idle)
    (defaults : b.config.forceDefaults = forced) (texts : b.config.validateText = validate)
    {value : Value} (deep : value.depth ≤ levels) :
    Tries (Refusal schema) (encodeField schema child f value) b fun _ b' => b'.stage = .idle := by
  have done {kind : ObjectKind} {x : Build (Ref kind)}
      (tries : Tries (Refusal schema) x b fun _ b' => b'.stage = .idle) :
      Tries (Refusal schema) (do return Pending.ref f.slot kind (← x)) b fun _ b' => b'.stage = .idle :=
    tries_bind tries fun _ _ next idle => tries_pure next.sound idle
  simp only [encodeField]
  cases kind : f.type with
  | scalar | enumeration =>
    refine tries_ofExcept (scalarOf_mismatches schema f).refusal fun answer _ => ?_
    refine tries_ofExcept (fieldScalar_mismatches schema f _ value).refusal fun w _ => ?_
    exact tries_pure sound idle
  | struct name =>
    refine tries_ofExcept (struct_mismatches schema name).refusal fun s found => ?_
    refine tries_ofExcept (structBytes_mismatches s f.name (out.struct found) value).refusal fun bytes _ => ?_
    exact tries_pure sound idle
  | text =>
    apply done
    exact (text_tries sound idle value f.name).mono (fun _ reason => reason) fun _ _ _ done => done.1
  | vector type =>
    cases value with
    | vector items =>
      apply done
      exact vector_tries out writes tries stays inside known live valid kind sound idle defaults texts
        (Value.depthItems_le.1 deep)
    | scalar | text | bytes | record | struct => exact tries_throw (.mismatch _)
  | record name =>
    cases value with
    | record r => exact done (tries b name r sound defaults texts idle deep)
    | scalar | text | bytes | vector | struct => exact tries_throw (.mismatch _)

end Fields

/-- A record is only refused for such a reason if its children are. -/
theorem record_tries (out : schema.LaidOut) (writes : ChildWrites forced validate child fits place)
    (tries : ChildTries schema forced validate levels child) (stays : place.Stays)
    (inside : place.Inside) (valid : schema.Valid) :
    ChildTries schema forced validate (levels + 1) (encodeRecord schema child) := by
  intro b name r sound defaults texts idle deep
  refine tries_ofExcept (record_mismatches schema name).refusal fun record known => ?_
  refine tries_ofExcept (checkNames_mismatches name record r).refusal fun _ checked => ?_
  have among := Schema.record_mem known
  have isValid := valid.records record among
  have all : Tries (Refusal schema) (record.liveFields.filterMapM fun f =>
      (r.get? f.name).mapM (encodeField schema child f)) b fun _ b' => b'.stage = .idle := by
    refine tries_filterMapM (I := fun _ _ b' => b'.stage = .idle) sound idle ?_
    intro done f rest split answers b₁ next idle
    have live : f ∈ record.liveFields := by simp [split]
    cases found : r.get? f.name with
    | none => exact tries_pure next.sound idle
    | some v =>
      have within := Value.depthEntries_le.1 (Nat.le_of_succ_le_succ deep) _ (Record.mem_of_get? found)
      exact tries_bind (field_tries out writes tries stays inside among live
        (isValid.fields f (List.mem_of_mem_filter live)) next.sound idle (next.config ▸ defaults)
        (next.config ▸ texts) within) fun _ _ next idle => tries_pure next.sound idle
  have stand := fields_encode (r := r) writes stays inside isValid out sound defaults texts
  refine tries_bind (stand.tried all) fun pending b₁ first holds => ?_
  have rest := pendingRecord_encodes inside stays isValid out known checked first.sound
    (first.config ▸ defaults) holds.2
  exact (rest.weaken fun _ _ _ done => done.1).tries (holds.1 idle) Refusal.of_limit

theorem levels_try (valid : schema.Valid) (out : schema.LaidOut) (levels : Nat) :
    ChildTries schema forced validate levels (encodeLevels schema levels) := by
  induction levels with
  | zero => exact fun _ _ r _ _ _ _ deep => absurd deep (Nat.not_succ_le_zero _)
  | succ levels ih =>
    exact record_tries out (levels_encode valid out levels) ih (levelsStand_stays schema forced levels)
      (levelsStand_inside schema forced levels) valid

variable {r : Record} {config : Config} {e : Error}

theorem rootBuffer_refusals (valid : schema.Valid) (out : schema.LaidOut) {sizePrefixed : Bool}
    (failed : rootBuffer schema r config sizePrefixed = .error e) : Refusal schema e := by
  cases rooted : schema.rootRecord with
  | error e' =>
    rw [rootBuffer, rooted] at failed
    cases failed
    exact (rootRecord_mismatches schema).refusal e rooted
  | ok type =>
    have fresh : (ofConfig config).Fresh := ⟨config, [], .inl rfl⟩
    have sound := fresh.sound
    have encodes := (levels_encode valid out (Record.depth r) (ofConfig config) type.name r sound rfl rfl).tried
      (levels_try valid out (Record.depth r) (ofConfig config) type.name r sound rfl rfl rfl (Nat.le_refl _))
    have ends : Ends (encode schema type.name r >>= fun root => finish root schema.identifier sizePrefixed)
        (ofConfig config) (fun _ _ => True) fun e _ => Refusal schema e := by
      rw [ends_bind]
      refine Ends.mono encodes (fun root b₁ done => ?_) fun _ _ reason => reason
      obtain ⟨proceeds, idle, stands⟩ := done
      have covered := levelsStand_inside schema _ _ _ _ _ _ stands
      have inReach : b₁.InReach root.distance := ⟨covered.1, proceeds.sound.length_settled ▸ covered.2⟩
      exact (finish_limited proceeds.sound.region idle inReach schema.identifier sizePrefixed).mono
        (fun _ _ _ => trivial) fun e _ => Refusal.of_limit e
    rw [rootBuffer_eq rooted] at failed
    split at failed
    next => cases failed
    next run =>
      cases failed
      simp only [Ends, run] at ends
      exact ends

/-- In the natural layout a record is refused for what it is or for its size, and never because the encoder misuses
the builder, apart from vectors whose structs have no members. -/
theorem encodeRoot_refusals (valid : schema.validate = .ok ()) (out : schema.LaidOut)
    (failed : encodeRoot schema r config = .error e) :
    (∃ mismatch, e = .schema mismatch) ∨ e = .invalidText ∨
      (∃ requested limit, e = .sizeLimit requested limit) ∨
      e = .order .badElementLayout ∧ ∃ type ∈ schema.records, ∃ f ∈ type.liveFields, ∃ name s,
        f.type = .vector (.struct name) ∧ schema.struct name = .ok s ∧ s.members = [] := by
  cases rootBuffer_refusals (Schema.valid_of_validate valid) out failed with
  | mismatch mismatch => exact .inl ⟨mismatch, rfl⟩
  | invalidText => exact .inr (.inl rfl)
  | sizeLimit requested limit => exact .inr (.inr (.inl ⟨requested, limit, rfl⟩))
  | sizeless sizeless => exact .inr (.inr (.inr ⟨rfl, sizeless⟩))

/-- An unfit step is found out when its vector has begun, and is a mismatch all the same. -/
theorem misStepped_refused :
    trailSchema.validate = .ok () ∧
    ∃ e, encodeRoot trailSchema misStepped {} = .error e ∧
      ((∃ mismatch, e = .schema mismatch) ∨ e = .invalidText ∨
        (∃ requested limit, e = .sizeLimit requested limit) ∨
        e = .order .badElementLayout ∧ ∃ type ∈ trailSchema.records, ∃ f ∈ type.liveFields, ∃ name s,
          f.type = .vector (.struct name) ∧ trailSchema.struct name = .ok s ∧ s.members = []) := by
  have valid : trailSchema.validate = .ok () := by decide +kernel
  have failed : encodeRoot trailSchema misStepped {} =
      .error (.schema (.scalarType "steps" .uint8 .uint16)) := by decide +kernel
  exact ⟨valid, _, failed, encodeRoot_refusals valid (by decide) failed⟩

/-- Vectors are refused even if they are empty: of structs without members, since those have no size, and, without
the natural layout, of structs whose alignment is no power of two. -/
theorem badElements_refused :
    (logSchema.validate = .ok () ∧
      encodeRoot logSchema [("marks", .vector [])] {} = .error (.order .badElementLayout)) ∧
    (Schema.holding uneven).validate = .ok () ∧ (∀ s ∈ (Schema.holding uneven).structs, s.members ≠ []) ∧
      encodeRoot (.holding uneven) [("many", .vector [])] {} = .error (.order .badElementLayout) :=
  ⟨by decide +kernel, Schema.validate_holding uneven, by decide +kernel⟩

end FlatRecord
