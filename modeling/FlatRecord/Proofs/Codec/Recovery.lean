import FlatRecord.Proofs.Builder.References
import FlatRecord.Proofs.Codec.RoundTrip

/-! What is left behind when an operation that is made of others fails halfway. Unless the size limit stopped
it, no object stays open, with one exception: a vector that has begun when its element turns out to be
unfit. -/
namespace FlatRecord

open Builder Build Encoding

namespace Builder

/-- From a builder with no object open to another such, also by a failure, unless the size limit stops it. -/
def Returns (x : Build α) (b : Builder) : Prop :=
  Ends x b (fun _ b' => Proceeds b b' ∧ b'.stage = .idle)
    fun e b' => e.IsLimit ∨ Advances b b' ∧ b'.stage = .idle

section Rules

variable {b : Builder} {order : Prop} {good : α → Builder → Prop}

theorem returns_pure (sound : b.Sound) (idle : b.stage = .idle) (a : α) : Returns (pure a) b :=
  ⟨.refl sound, idle⟩

theorem returns_throw (sound : b.Sound) (idle : b.stage = .idle) (e : Error) :
    Returns (throw e : Build α) b := .inr ⟨.refl sound, idle⟩

/-- The step behind may use what is known of the answers of the step before. -/
theorem returns_bind {x : Build α} {f : α → Build β} (head : Returns x b)
    (facts : Writes x b order good)
    (tail : ∀ a b₁, Proceeds b b₁ → b₁.stage = .idle → good a b₁ → Returns (f a) b₁) :
    Returns (x >>= f) b := by
  rw [Returns, ends_bind]
  refine (Ends.and head facts).mono (fun a b₁ done => ?_) fun _ _ bad => bad.1
  obtain ⟨⟨before, idle⟩, -, holds⟩ := done
  refine Ends.mono (tail a b₁ before idle holds) (fun _ _ after => ⟨before.trans after.1, after.2⟩)
    fun _ _ bad => ?_
  exact bad.imp id fun after => ⟨before.toAdvances.trans after.1, after.2⟩

theorem returns_ofExcept {x : Except Error α} {f : α → Build β} (sound : b.Sound)
    (idle : b.stage = .idle) (rest : ∀ a, x = .ok a → Returns (f a) b) :
    Returns (ofExcept x >>= f) b := by
  rw [Returns, ends_bind, ends_ofExcept]
  exact ⟨rest, fun _ _ => .inr ⟨.refl sound, idle⟩⟩

/-- What is in order fails only by the size limit. -/
theorem Writes.returns {x : Build α} (writes : Writes x b order good) (ordered : order)
    (back : ∀ a b', good a b' → b'.stage = .idle) : Returns x b :=
  Ends.mono writes (fun a b' done => ⟨done.1, back a b' done.2⟩) fun _ _ limit => .inl (limit ordered)

/-- What fails before it has changed anything. -/
theorem Writes.returns_unchanged {x : Build α} (writes : Writes x b order good) (sound : b.Sound)
    (idle : b.stage = .idle) (back : ∀ a b', good a b' → b'.stage = .idle)
    (fails : Ends x b (fun _ _ => True) fun e b' => e.IsLimit ∨ b' = b) : Returns x b := by
  refine (Ends.and writes fails).mono (fun a b' done => ⟨done.1.1, back a b' done.1.2⟩)
    fun _ _ bad => ?_
  exact bad.2.imp id fun same => ⟨.of_eq sound same, same ▸ idle⟩

theorem returns_mapM {items : List α} {step : α → Build β} (sound : b.Sound) (idle : b.stage = .idle)
    (each : ∀ item ∈ items, ∀ b₁, Proceeds b b₁ → b₁.stage = .idle → Returns (step item) b₁) :
    Returns (items.mapM step) b := by
  refine ends_mapM (I := fun _ _ b' => Proceeds b b' ∧ b'.stage = .idle) ⟨.refl sound, idle⟩ ?_
  intro done item rest split _ b₁ before
  have mem : item ∈ items := by simp [split]
  refine Ends.mono (each item mem b₁ before.1 before.2)
    (fun _ _ after => ⟨before.1.trans after.1, after.2⟩) fun _ _ bad => ?_
  exact bad.imp id fun after => ⟨before.1.toAdvances.trans after.1, after.2⟩

theorem returns_filterMapM {items : List α} {step : α → Build (Option β)} (sound : b.Sound)
    (idle : b.stage = .idle)
    (each : ∀ item ∈ items, ∀ b₁, Proceeds b b₁ → b₁.stage = .idle → Returns (step item) b₁) :
    Returns (items.filterMapM step) b := by
  suffices general : ∀ rest answers b₁, rest ⊆ items → Proceeds b b₁ → b₁.stage = .idle →
      Returns (List.filterMapM.loop step rest answers) b₁ from
    general items [] b (fun _ mem => mem) (.refl sound) idle
  intro rest
  induction rest with
  | nil => exact fun answers b₁ _ before idle => returns_pure before.sound idle _
  | cons item rest ih =>
    intro answers b₁ inside before idle
    rw [List.filterMapM.loop, Returns, ends_bind]
    have one := each item (inside List.mem_cons_self) b₁ before idle
    have later : rest ⊆ items := fun _ mem => inside (List.mem_cons_of_mem _ mem)
    refine Ends.mono one (fun a b₂ done => ?_) fun _ _ bad => bad
    obtain ⟨next, idle⟩ := done
    have more (answers : List β) : Ends (List.filterMapM.loop step rest answers) b₂
        (fun _ b' => Proceeds b₁ b' ∧ b'.stage = .idle)
        fun e b' => e.IsLimit ∨ Advances b₁ b' ∧ b'.stage = .idle :=
      Ends.mono (ih answers b₂ later (before.trans next) idle)
        (fun _ _ after => ⟨next.trans after.1, after.2⟩)
        fun _ _ bad => bad.imp id fun after => ⟨next.toAdvances.trans after.1, after.2⟩
    cases a with
    | none => exact more answers
    | some a => exact more (a :: answers)

end Rules

end Builder

section Steadiness

variable (schema : Schema) (child : String → Record → Prop)

/-- An element that does not turn out to be unfit when its vector has begun. -/
def ElementSteady : ElementType → Value → Prop
  | .scalar t, value => ∃ v w, value = .scalar v ∧ v.convert? t = some w
  | .record name, .record r => child name r
  | _, _ => True

def FieldSteady (f : RecordField) (value : Value) : Prop :=
  match f.type, value with
  | .vector type, .vector items => ∀ item ∈ items, ElementSteady child type item
  | .record name, .record r => child name r
  | _, _ => True

/-- A record of which no vector of scalars has an unfit element. All else may be wrong with it. -/
def RecordSteady (name : String) (r : Record) : Prop :=
  ∀ type, schema.record name = .ok type → ∀ f ∈ type.liveFields, ∀ v, r.get? f.name = some v →
    FieldSteady child f v

def LevelsSteady : (levels : Nat) → String → Record → Prop
  | 0 => fun _ _ => True
  | levels + 1 => RecordSteady schema (LevelsSteady levels)

end Steadiness

variable {schema : Schema} {forced validate : Bool} {b : Builder} {f : RecordField}
  {type : ElementType} {field : String} {child : Child} {fits steady : String → Record → Prop}
  {place : Placement} {items : List Value}

theorem text_returns (sound : b.Sound) (idle : b.stage = .idle) (value : Value) (field : String) :
    Returns (encodeText value field) b := by
  have moves : b.phase.moves .idle .idle = some .idle := by rw [phase, idle]; rfl
  have declined {e : Error} {b' : Builder} (declined : Declines b (b.phase.moves .idle .idle) e b') :
      e.IsLimit ∨ b' = b := (moves ▸ declined).limit_or_same
  apply (text_encodes sound value field).returns_unchanged sound idle fun _ _ done => done.1
  cases value with
  | text s =>
    exact Ends.mono (createUnchecked_abides sound.region _) (fun _ _ _ => trivial)
      fun _ _ bad => declined bad
  | bytes bytes =>
    exact (createBytes_abides sound.region bytes).mono (fun _ _ _ => trivial)
      fun _ _ bad => bad.elim (fun invalid => .inr invalid.2) declined
  | scalar | vector | record | struct => exact .inr rfl

/-- A vector of elements without a size does not begin. -/
theorem sizeless_returns {x : Unit → Build α} (sound : b.Sound) (idle : b.stage = .idle)
    (length alignment : Nat) : Returns (startVector length 0 alignment >>= x) b := by
  have moves : b.phase.moves .idle (.vector length 0 0) = some (.vector length 0 0) := by
    rw [phase, idle]; rfl
  rw [Returns, ends_bind]
  refine ((startVector_ends sound.region length 0 alignment).and
    (startVector_abides sound.region length 0 alignment)).mono
    (fun _ _ done => absurd rfl done.1.2.1) fun _ _ bad => ?_
  exact (moves ▸ bad.2).limit_or_same.imp id fun same => ⟨.of_eq sound same, same ▸ idle⟩

/-- A child that is steady leaves no object open. -/
def ChildReturns (forced validate : Bool) (child : Child) (steady : String → Record → Prop) : Prop :=
  ∀ b name r, b.Sound → b.config.forceDefaults = forced → b.config.validateText = validate →
    b.stage = .idle → steady name r → Returns (child name r) b

theorem vector_returns (writes : ChildWrites forced validate child fits place)
    (returns : ChildReturns forced validate child steady) (stays : place.Stays) (inside : place.Inside)
    (valid : f.Valid schema) (out : schema.LaidOut) (kind : f.type = .vector type) (sound : b.Sound)
    (idle : b.stage = .idle)
    (defaults : b.config.forceDefaults = forced) (texts : b.config.validateText = validate)
    (steadies : ∀ item ∈ items, ElementSteady steady type item) :
    Returns (encodeVector schema child type (.vector items) field) b := by
  cases type with
  | scalar t =>
    have whole : ∀ item ∈ items, ElementFits schema validate fits (.scalar t) item := by
      intro item mem
      obtain ⟨v, w, rfl, converted⟩ := steadies item mem
      exact .scalar converted
    exact (vector_encodes writes stays inside valid out kind sound defaults texts).returns
      ⟨idle, ⟨_, rfl, Nat.ne_of_gt t.size_pos⟩, whole⟩ fun _ _ done => done.1
  | struct name =>
    refine returns_ofExcept sound idle fun s known => ?_
    refine returns_ofExcept sound idle fun elements written => ?_
    by_cases sized : s.size = 0
    · rw [sized]
      exact sizeless_returns sound idle _ _
    · have vector : Writes _ b _ fun (ref : Ref .vector) b' => b'.stage = .idle ∧
          VectorStands schema place b'.ground (.struct name) items ref.distance :=
        structs_encode (out.struct known) sound known written
      exact vector.returns ⟨idle, sized⟩ fun _ _ done => done.1
  | text =>
    have texts : Writes (items.mapM (encodeText · field)) b
        (b.stage = .idle ∧ ∀ item ∈ items, ElementFits schema validate fits .text item) _ :=
      textItems_encode sound texts stays
    apply returns_bind (returns_mapM sound idle fun item _ b₁ next idle =>
      text_returns next.sound idle item field) texts
    intro refs b₁ next idle holds
    exact (refVector_encodes stays inside next.sound rfl rfl rfl holds.2).returns idle
      fun _ _ done => done.1
  | record name =>
    simp only [RecordField.Valid, kind] at valid
    obtain ⟨record, known⟩ := valid
    have resolved : (ElementType.record name).resolve schema = .ok (.record name) := by
      simp [ElementType.resolve, known]
    apply returns_bind (returns_mapM sound idle ?_) (recordItems_encode writes stays sound defaults texts)
    · intro refs b₁ next idle holds
      exact (refVector_encodes stays inside next.sound resolved rfl rfl holds.2).returns idle
        fun _ _ done => done.1
    · intro item mem b₁ next idle
      cases item with
      | record r =>
        exact returns b₁ name r next.sound (next.config ▸ defaults) (next.config ▸ texts) idle
          (steadies _ mem)
      | scalar | text | bytes | vector | struct => exact returns_throw next.sound idle _

theorem field_returns (writes : ChildWrites forced validate child fits place)
    (returns : ChildReturns forced validate child steady) (stays : place.Stays) (inside : place.Inside)
    (valid : f.Valid schema) (out : schema.LaidOut) (sound : b.Sound) (idle : b.stage = .idle)
    (defaults : b.config.forceDefaults = forced) (texts : b.config.validateText = validate)
    {value : Value} (steadies : FieldSteady steady f value) :
    Returns (encodeField schema child f value) b := by
  have done {kind : ObjectKind} {x : Build (Ref kind)} (returns : Returns x b) :
      Returns (do return Pending.ref f.slot kind (← x)) b := by
    rw [Returns, ends_bind]
    exact Ends.mono returns (fun _ _ done => done) fun _ _ bad => bad
  simp only [encodeField]
  simp only [FieldSteady] at steadies
  cases kind : f.type with
  | scalar | enumeration =>
    refine returns_ofExcept sound idle fun answer _ => ?_
    exact returns_ofExcept sound idle fun w _ => returns_pure sound idle _
  | struct name =>
    refine returns_ofExcept sound idle fun s _ => ?_
    exact returns_ofExcept sound idle fun bytes _ => returns_pure sound idle _
  | text => exact done (text_returns sound idle value f.name)
  | vector type =>
    cases value with
    | vector items =>
      rw [kind] at steadies
      exact done (vector_returns writes returns stays inside valid out kind sound idle defaults texts steadies)
    | scalar | text | bytes | record | struct => exact returns_throw sound idle _
  | record name =>
    cases value with
    | record r =>
      rw [kind] at steadies
      exact done (returns b name r sound defaults texts idle steadies)
    | scalar | text | bytes | vector | struct => exact returns_throw sound idle _

/-- A record leaves no object open if none of its children does. -/
theorem record_returns (writes : ChildWrites forced validate child fits place)
    (returns : ChildReturns forced validate child steady) (stays : place.Stays) (inside : place.Inside)
    (valid : schema.Valid) (out : schema.LaidOut) :
    ChildReturns forced validate (encodeRecord schema child) (RecordSteady schema steady) := by
  intro b name r sound defaults texts idle steadies
  refine returns_ofExcept sound idle fun record known => ?_
  refine returns_ofExcept sound idle fun _ checked => ?_
  have isValid := valid.records record (Schema.record_mem known)
  have fields := fields_encode (r := r) writes stays inside isValid out sound defaults texts
  apply returns_bind (returns_filterMapM sound idle ?_) fields
  · intro pending b₁ first idle holds
    exact (pendingRecord_encodes inside stays isValid out known checked first.sound
      (first.config ▸ defaults) holds.2).returns idle fun _ _ done => done.1
  · intro f mem b₁ next idle
    cases found : r.get? f.name with
    | none => exact returns_pure next.sound idle _
    | some v =>
      have field := field_returns writes returns stays inside
        (isValid.fields f (List.mem_of_mem_filter mem)) out next.sound idle (next.config ▸ defaults)
        (next.config ▸ texts) (steadies record known f mem v found)
      rw [Option.mapM_some, Returns, ends_map]
      exact field

/-- Encoding leaves no object open, whatever is wrong with a record that is steady. -/
theorem levels_return (valid : schema.Valid) (out : schema.LaidOut) (levels : Nat) :
    ChildReturns forced validate (encodeLevels schema levels) (LevelsSteady schema levels) := by
  induction levels with
  | zero => exact fun _ _ _ sound _ _ idle _ => returns_throw sound idle _
  | succ levels ih =>
    exact record_returns (levels_encode valid out levels) ih (levelsStand_stays schema forced levels)
      (levelsStand_inside schema forced levels) valid out

section Composites

/-- The items are of the vector's type, and the references are in reach. -/
def Builder.Operation.Proper (b : Builder) : Operation → Prop
  | .createVector type items => ∀ v ∈ items, v.type = type
  | .createRefVector _ items => ∀ ref ∈ items, b.InReach ref.distance
  | _ => True

theorem scalars_written (sound : b.Sound) (type : ScalarType) (items : List Scalar) :
    Writes (createVector type items) b (b.stage = .idle ∧ ∀ v ∈ items, v.type = type) fun _ b' =>
      b'.stage = .idle := by
  obtain ⟨k, small, power⟩ := type.size_power
  apply (vector_written (R := fun v p => p = .own v.toBytes) ⟨k, by omega, power⟩ sound ?_ ?_).weaken
  · exact fun _ _ _ done => done.1
  · exact fun ordered => ⟨ordered.1, Nat.ne_of_gt type.size_pos⟩
  · intro v mem b₁ elements next level
    apply (own_filled next.sound level v.toBytes).mono
    · rintro ⟨⟨-, typed⟩, more⟩
      exact ⟨by rw [v.length_toBytes, Scalar.size, typed v mem], more⟩
    · exact fun _ _ _ level => ⟨_, rfl, level⟩

/-- Texts are written as fields of a record would be. -/
theorem createTextVector_eq (items : List String) : createTextVector items =
    (do createRefVector (← (items.map Value.text).mapM (encodeText · ""))) := by
  rw [createTextVector, List.mapM_map]
  rfl

/-- A vector that is written as a whole is only refused by the size limit, if its items are proper. -/
theorem composite_limited (sound : b.Sound) (idle : b.stage = .idle) {op : Operation}
    (composite : op.isSingle = false) (proper : op.Proper b) :
    Ends op.step b (fun _ _ => True) fun e _ => e.IsLimit := by
  have limited {order : Prop} {good : Ref .vector → Builder → Prop} {x : Build (Ref .vector)}
      (writes : Writes x b order good) (ordered : order) :
      Ends (.object .vector <$> x : Build Answer) b (fun _ _ => True) fun e _ => e.IsLimit := by
    rw [ends_map]
    exact Ends.mono writes (fun _ _ _ => trivial) fun _ _ limit => limit ordered
  cases op with
  | createVector type items => exact limited (scalars_written sound type items) ⟨idle, proper⟩
  | createRefVector kind items =>
    exact limited (references_written sound) ⟨idle, proper⟩
  | createTextVector items =>
    have texts : Writes (do createRefVector (← (items.map Value.text).mapM (encodeText · ""))) b
        (b.stage = .idle ∧ ∀ item ∈ items.map Value.text,
          ElementFits {} b.config.validateText (fun _ _ => False) .text item) _ :=
      texts_encode sound rfl (levelsStand_stays {} true 0) (levelsStand_inside {} true 0)
    rw [← createTextVector_eq] at texts
    refine limited texts ⟨idle, fun item mem => ?_⟩
    obtain ⟨text, -, rfl⟩ := List.mem_map.1 mem
    exact .text trivial
  | _ => cases composite

end Composites

/-- No object is open, and a record that fits its schema can be encoded, finished and read again, unless the
size limit stops it. -/
def Builder.Usable (b : Builder) : Prop :=
  b.stage = .idle ∧ ∀ (schema : Schema) (typeName : String) (r : Record)
    (identifier : Option Identifier) (sizePrefixed : Bool) (limits : Limits),
    schema.validate = .ok () → schema.DistinctNames → schema.LaidOut → Record.Ordered r →
    LevelsFit schema b.config.validateText (Record.depth r) typeName r →
    Value.levelsEntries r ≤ limits.maxDepth → Value.objectsEntries r + 1 ≤ limits.maxObjects →
    Ends (do finish (← encode schema typeName r) identifier sizePrefixed) b
      (fun bytes _ => ∃ buf t,
        (if sizePrefixed then Buffer.ofSizePrefixed bytes else Buffer.ofBytes bytes) = .ok buf ∧
        buf.root = .ok t ∧ Decoding.toOwned buf.bytes schema typeName t limits =
          .ok (normalRecord schema b.config.forceDefaults typeName r))
      fun e _ => e.IsLimit

theorem idle_usable (sound : b.Sound) (idle : b.stage = .idle) : b.Usable := by
  refine ⟨idle, ?_⟩
  intro schema typeName r identifier sizePrefixed limits valid names out ordered fits deep many
  have isValid := Schema.valid_of_validate valid
  have writes := levels_encode isValid out (Record.depth r) b typeName r sound rfl rfl
  have encodes : Ends (encode schema typeName r) b _ _ := writes
  unfold Ends at encodes ⊢
  cases encoded : (encode schema typeName r).run b with
  | error e b₁ =>
    rw [encoded] at encodes
    rw [run_bind_error encoded]
    exact encodes ⟨idle, fits⟩
  | ok root b₁ =>
    rw [encoded] at encodes
    rw [run_bind_ok encoded]
    obtain ⟨proceeds, idle, stands⟩ := encodes
    have covered := levelsStand_inside schema _ _ _ _ _ _ stands
    have inReach : b₁.InReach root.distance := ⟨covered.1, proceeds.sound.length_settled ▸ covered.2⟩
    have finishes := finish_limited proceeds.sound.region idle inReach identifier sizePrefixed
    unfold Ends at finishes
    cases finished : (finish root identifier sizePrefixed).run b₁ with
    | error e b₂ =>
      rw [finished] at finishes
      exact finishes
    | ok bytes b₂ =>
      have decodes := encoded_decodes isValid names out sound ordered encoded finished limits deep many #[]
      rwa [Array.append_empty] at decodes

/-- What fails and is made of other operations leaves the builder as usable as it was, unless the size limit
stopped it. A proper vector is not refused for anything else; a record may be refused for whatever else is wrong
with it and its schema, as long as no vector has begun when one of its scalars turns out to be unfit. -/
theorem failure_leaves_usable (reachable : b.Reachable) (idle : b.stage = .idle) :
    (∀ op : Operation, op.isSingle = false → op.Proper b →
      ∀ e b', b.apply op = (.error e, b') → e.IsLimit) ∧
    ∀ (schema : Schema) (typeName : String) (r : Record), schema.validate = .ok () →
      schema.LaidOut → LevelsSteady schema (Record.depth r) typeName r →
      ∀ e b', (encode schema typeName r).run b = .error e b' → ¬e.IsLimit → b'.Usable := by
  have sound := reachable.sound
  constructor
  · intro op composite proper e b' failed
    have ends := composite_limited sound idle composite proper
    simp only [Ends, run_of_apply_error failed] at ends
    exact ends
  · intro schema typeName r valid out steady e b' failed unlimited
    have returns := levels_return (Schema.valid_of_validate valid) out (Record.depth r) b typeName r sound
      rfl rfl idle steady
    have ends : Ends (encode schema typeName r) b _ _ := returns
    simp only [Ends, failed] at ends
    obtain ⟨advances, idle⟩ := ends.resolve_left unlimited
    exact idle_usable advances.sound idle

/-- A note, some bytes, and how many there are. -/
def trailSchema : Schema :=
  { records := [{ name := "Trail", fields := [.ofType "note" 0 .text,
      .ofType "steps" 1 (.vector (.scalar .uint8)), .ofType "count" 2 (.scalar .uint16)] }]
    root := some "Trail" }

/-- The count is a text, which is found out when the note and the steps are written. -/
def misCounted : Record :=
  [("count", .text "one"), ("note", .text "a"), ("steps", .vector [.scalar (.uint8 7)])]

theorem misCounted_steady : LevelsSteady trailSchema (Record.depth misCounted) "Trail" misCounted := by
  intro type known f mem v found
  cases known
  have one : f = .ofType "note" 0 .text ∨ f = .ofType "steps" 1 (.vector (.scalar .uint8)) ∨
      f = .ofType "count" 2 (.scalar .uint16) := by simpa using List.mem_of_mem_filter mem
  rcases one with rfl | rfl | rfl
  · trivial
  · cases found
    intro item mem
    rw [List.mem_singleton.1 mem]
    exact ⟨.uint8 7, .uint8 7, rfl, rfl⟩
  · trivial

/-- The builder that holds a note and steps, but no record. -/
def misCountedLeft (config : Config) : Builder :=
  (outcome ((encode trailSchema "Trail" misCounted).run (ofConfig config))).2

theorem misCounted_leaves_usable : (misCountedLeft {}).used = 16 ∧ (misCountedLeft {}).Usable := by
  have refused : (outcome ((encode trailSchema "Trail" misCounted).run (ofConfig {}))).1 =
      .error (.schema (.valueKind "count" .scalar .text)) := by decide +kernel
  have failed : (encode trailSchema "Trail" misCounted).run (ofConfig {}) = .error _ (misCountedLeft {}) :=
    of_outcome_error (Prod.ext refused rfl)
  have unlimited : ¬(Error.schema (.valueKind "count" .scalar .text)).IsLimit := by
    rintro ⟨requested, limit, same⟩
    cases same
  exact ⟨by decide +kernel, (failure_leaves_usable (b := ofConfig {}) ⟨{}, [], rfl⟩ rfl).2 trailSchema
    "Trail" misCounted rfl (by decide) misCounted_steady _ _ failed unlimited⟩

/-- A step that is no byte. -/
def misStepped : Record := [("steps", .vector [.scalar (.uint16 300)])]

def misSteppedLeft (config : Config) : Builder :=
  (outcome ((encode trailSchema "Trail" misStepped).run (ofConfig config))).2

/-- A builder that has forgotten a text, and then fails to write a vector that refers to it. -/
def misreferredLeft (config : Config) : Builder :=
  (((ofConfig config).run [.createText "a", .reset]).apply (.createRefVector .text [⟨8⟩])).2

def wellStepped : Record := [("steps", .vector [.scalar (.uint8 7)])]

/-- The vector of the unfit step stays open, and so does one with a reference out of reach, so that a record
that fits is refused. -/
theorem misStepped_stays_open :
    trailSchema.validate = .ok () ∧
    (outcome ((encode trailSchema "Trail" misStepped).run (ofConfig {}))).1 =
      .error (.schema (.scalarType "steps" .uint8 .uint16)) ∧
    (misSteppedLeft {}).InVector ∧
    (outcome ((encode trailSchema "Trail" wellStepped).run (misSteppedLeft {}))).1 =
      .error (.order .vectorOpen) ∧
    (((ofConfig {}).run [.createText "a", .reset]).apply (.createRefVector .text [⟨8⟩])).1 =
      .error (.order .badReference) ∧
    (misreferredLeft {}).InVector ∧
    (outcome ((encode trailSchema "Trail" wellStepped).run (misreferredLeft {}))).1 =
      .error (.order .vectorOpen) ∧
    (outcome ((encode trailSchema "Trail" wellStepped).run (ofConfig {}))).1 = .ok ⟨16⟩ := by
  decide +kernel

end FlatRecord
