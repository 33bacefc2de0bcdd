import FlatRecord.Proofs.Builder.Beginnings
import FlatRecord.Proofs.Codec.Opened
import FlatRecord.Proofs.Reading.Spans

/-! The end of an encoded buffer. What is written first lies at the end, with nothing behind it but padding, and the
root leads to it. So what is missing from a buffer that opens strictly is padding, of less than four bytes if structs
have the natural layout. -/
namespace FlatRecord

open Builder Build Reading Encoding

/-- So many bytes lie behind the object at distance `d`, or behind one that it leads to. -/
inductive Behind (schema : Schema) (s : List UInt8) : FieldType → (d rest : Nat) → Prop where
  | text {d : Nat} {bytes : List UInt8} (stored : TextStored s d bytes) :
      Behind schema s .text d (d - (offsetSize + bytes.length + 1))
  | vector {element : ElementType} {resolved : ResolvedElement} {d : Nat} {elements : List Piece}
      (known : element.resolve schema = .ok resolved)
      (stored : VectorStored s d resolved.inlineSize elements) :
      Behind schema s (.vector element) d (d - (offsetSize + elements.length * resolved.inlineSize))
  | element {element : ElementType} {resolved : ResolvedElement} {d target rest : Nat}
      {elements : List Piece} {kind : ObjectKind} (known : element.resolve schema = .ok resolved)
      (stored : VectorStored s d resolved.inlineSize elements) (mem : .ref kind target ∈ elements)
      (behind : Behind schema s element.asField target rest) : Behind schema s (.vector element) d rest
  | record {name : String} {type : RecordType} {d start table : Nat} {places : List Field}
      {fields : List (Nat × Piece)} (known : schema.record name = .ok type)
      (stored : RecordAt s d start table places fields) : Behind schema s (.record name) d start
  | field {name : String} {type : RecordType} {d start table target rest : Nat} {places : List Field}
      {fields : List (Nat × Piece)} {f : RecordField} {kind : ObjectKind}
      (known : schema.record name = .ok type) (stored : RecordAt s d start table places fields)
      (mem : f ∈ type.fields) (slot : (f.slot, .ref kind target) ∈ fields)
      (behind : Behind schema s f.type target rest) : Behind schema s (.record name) d rest

/-- Less than four bytes lie there, all of them zero. -/
def NearEnd (schema : Schema) (s : List UInt8) (type : FieldType) (d : Nat) : Prop :=
  ∃ rest < offsetSize, zeros rest <:+ s ∧ Behind schema s type d rest

section Bytes

variable {schema : Schema} {s t : List UInt8} {buf : Bytes} {type : FieldType} {d rest : Nat}

theorem Behind.of_suffix (behind : Behind schema t type d rest) (suffix : t <:+ s) :
    Behind schema s type d rest := by
  induction behind with
  | text stored => exact .text (stored.of_suffix suffix)
  | vector known stored => exact .vector known (stored.of_suffix suffix)
  | element known stored mem _ ih => exact .element known (stored.of_suffix suffix) mem ih
  | record known stored => exact .record known (stored.of_suffix suffix)
  | field known stored mem slot _ ih => exact .field known (stored.of_suffix suffix) mem slot ih

theorem NearEnd.of_suffix (near : NearEnd schema t type d) (suffix : t <:+ s) :
    NearEnd schema s type d := by
  obtain ⟨rest, small, padding, behind⟩ := near
  exact ⟨rest, small, padding.trans suffix, behind.of_suffix suffix⟩

/-- What the builder has laid out is what a reader of the finished bytes finds. -/
theorem Behind.spans (behind : Behind schema buf.toList type d rest) :
    Spans buf schema type (buf.size - d) (buf.size - rest) := by
  induction behind with
  | @text d bytes stored =>
    have inside := stored.holds.le_length
    have room := stored.holds.length_le
    simp only [textBytes, List.length_append, LittleEndian.length_encode, List.length_singleton] at room
    rw [Array.length_toList] at inside
    have length : bytes.toArray.size = bytes.length := List.size_toArray
    have stop : buf.size - (d - (offsetSize + bytes.length + 1)) =
        buf.size - d + offsetSize + bytes.toArray.size + 1 := by omega
    exact stop ▸ .text (text_stored_reads stored)
  | @vector element resolved d elements known stored =>
    have inside := stored.count.le_length
    have room := stored.room
    rw [Array.length_toList] at inside
    have stop : buf.size - (d - (offsetSize + elements.length * resolved.inlineSize)) =
        buf.size - d + offsetSize + elements.length * resolved.inlineSize := by omega
    exact stop ▸ .vector known (vectorHeader_stored stored)
  | element known stored mem _ ih =>
    obtain ⟨i, below, found⟩ := List.mem_iff_getElem.1 mem
    have found := List.getElem?_eq_some_iff.2 ⟨below, found⟩
    have followed := follow_stored (stored.element i _ found)
    rw [← element_position stored found, ← stored.sizes _ mem] at followed
    exact .element known (vectorHeader_stored stored) below followed ih
  | @record name type d start table places fields known stored =>
    have inside := stored.head.inside
    have large := stored.large
    have stop : buf.size - start =
        buf.size - d + (Table.ofRecord buf.size d start table places).inlineSize := by
      simp only [Table.ofRecord]
      omega
    exact stop ▸ .record known stored.reads
  | field known stored mem slot _ ih =>
    exact .field known stored.reads mem (stored.finds.target_ref slot) ih

end Bytes

variable {schema : Schema} {forced validate : Bool} {b b' : Builder}

section Texts

variable {bytes : List UInt8} {d : Nat}

/-- The first text has its own padding behind it. -/
theorem text_behind {gap : Nat} (sound : b.Sound) (empty : b.used = 0) (small : gap < offsetSize)
    (adds : Adds b (textBytes bytes ++ zeros gap) b') (idle : b'.stage = .idle) (here : d = b'.used)
    (stored : TextStored b'.settled d bytes) (sound' : b'.Sound) :
    NearEnd schema b'.settled .text d := by
  have used := adds.used sound.region
  simp only [textBytes, List.length_append, LittleEndian.length_encode, List.length_singleton,
    length_zeros] at used
  have rest : d - (offsetSize + bytes.length + 1) = gap := by omega
  refine ⟨gap, small, ?_, rest ▸ .text stored⟩
  rw [sound'.settled_idle idle, adds.written, Builder.written_empty sound empty, List.append_nil]
  exact List.suffix_append _ _

theorem text_nearEnd (sound : b.Sound) (value : Value) (field : String) :
    Attains (encodeText value field) b fun ref b' =>
      b.used = 0 → NearEnd schema b'.settled .text ref.distance := by
  have written := (text_encodes sound value field).attains
  cases value with
  | text s =>
    apply (written.and (createUnchecked_ends sound.region _)).mono fun _ _ => trivial
    rintro ref b' proceeds ⟨⟨idle, ⟨bytes, same, stored⟩, -⟩, -, -, here, gap, small, adds⟩ empty
    cases same
    exact text_behind sound empty small adds idle here stored proceeds.sound
  | bytes bytes =>
    apply (written.and (createBytes_ends sound.region bytes)).mono fun _ _ => trivial
    rintro ref b' proceeds ⟨⟨idle, ⟨bytes, same, stored⟩, -⟩, -, -, here, gap, small, adds⟩ empty
    cases same
    exact text_behind sound empty small adds idle here stored proceeds.sound
  | scalar | vector | record | struct => exact trivial

end Texts

section Elements

variable {child : Child} {items : List Value} {field : String}

theorem scalarVector_behind (sound : b.Sound) (empty : b.used = 0) (t : ScalarType) :
    Ends (encodeVector schema child (.scalar t) (.vector items) field) b
      (fun ref b' => ∃ rest < offsetSize,
        ref.distance = offsetSize + (items.length * t.size + rest) ∧ zeros rest <:+ b'.settled)
      fun _ _ => True := by
  obtain ⟨k, small, power⟩ := t.size_power
  apply vector_behind sound empty ⟨k, by omega, power⟩ (Nat.dvd_refl _)
  intro item _ b₁ sound
  cases item with
  | scalar v =>
    rw [ends_bind, ends_ofExcept]
    exact ⟨fun w _ => own_keeps sound w.toBytes, fun _ _ => trivial⟩
  | text | bytes | vector | record | struct => exact trivial

theorem structVector_behind (out : schema.LaidOut) (sound : b.Sound) (empty : b.used = 0) (name : String) :
    Ends (encodeVector schema child (.struct name) (.vector items) field) b
      (fun ref b' => ∃ s, schema.struct name = .ok s ∧ ∃ rest < offsetSize,
        ref.distance = offsetSize + (items.length * s.size + rest) ∧ zeros rest <:+ b'.settled)
      fun _ _ => True := by
  rw [encodeVector, ends_bind, ends_ofExcept]
  refine ⟨fun s known => ?_, fun _ _ => trivial⟩
  rw [ends_bind, ends_ofExcept]
  refine ⟨fun elements written => ?_, fun _ _ => trivial⟩
  have laid := out.struct known
  obtain ⟨k, small, power⟩ := laid.alignment_power
  refine (vector_behind sound empty ⟨k, by omega, power⟩ laid.alignment_dvd_size
    fun bytes _ b₁ sound => own_keeps sound bytes).mono (fun ref b' done => ?_) fun _ _ _ => trivial
  rw [(mapM_related written).length_eq]
  exact ⟨s, known, done⟩

theorem VectorStands.nearEnd {place : Placement} {type : ElementType} {element : ResolvedElement}
    {d rest : Nat} (stands : VectorStands schema place b.ground type items d)
    (resolved : type.resolve schema = .ok element) (small : rest < offsetSize)
    (here : d = offsetSize + (items.length * element.inlineSize + rest))
    (padding : zeros rest <:+ b.settled) : NearEnd schema b.settled (.vector type) d := by
  obtain ⟨element', elements, resolved', all, level⟩ := stands
  cases resolved.symm.trans resolved'
  have behind : d - (offsetSize + elements.length * element.inlineSize) = rest := by
    rw [← all.length_eq]
    omega
  exact ⟨rest, small, padding, behind ▸ .vector resolved level.stored⟩

/-- A vector of references leads where its elements lead, unless it is written first itself. -/
theorem refVector_nearEnd {kind : ObjectKind} {refs : List (Ref kind)} {type : ElementType}
    {element : ResolvedElement} (sound : b.Sound) (resolved : type.resolve schema = .ok element)
    (inline : element.inlineSize = offsetSize)
    (near : b.used = 0 ∨ ∃ ref ∈ refs, NearEnd schema b.settled type.asField ref.distance) :
    Attains (createRefVector refs) b fun ref b' => NearEnd schema b'.settled (.vector type) ref.distance := by
  have written : Attains (createRefVector refs) b _ := (references_written sound).attains
  rcases near with empty | ⟨older, mem, rest, small, padding, behind⟩
  · apply (written.and (vector_behind sound empty ⟨2, by decide, rfl⟩ (Nat.dvd_refl _)
      fun ref _ b₁ sound => ref_keeps sound ref)).mono fun _ _ => trivial
    rintro ref b' _ ⟨⟨-, elements, related, level⟩, rest, small, here, padding⟩
    rw [← inline] at level here
    have behind : ref.distance - (offsetSize + elements.length * element.inlineSize) = rest := by
      rw [← related.length_eq]
      omega
    exact ⟨rest, small, padding, behind ▸ .vector resolved level.stored⟩
  · apply written.mono fun _ _ => trivial
    rintro ref b' next ⟨-, elements, related, level⟩
    rw [← inline] at level
    obtain ⟨p, among, rfl⟩ := related_left related mem
    exact ⟨rest, small, padding.trans next.kept,
      .element resolved level.stored among (behind.of_suffix next.kept)⟩

/-- Of objects that are written one after the other, the first one is near the end. -/
theorem objects_nearEnd {kind : ObjectKind} {step : Value → Build (Ref kind)} (type : FieldType)
    (sound : b.Sound) (empty : b.used = 0)
    (each : ∀ item ∈ items, ∀ b₁, Proceeds b b₁ → Attains (step item) b₁ fun ref b' =>
      b₁.used = 0 → NearEnd schema b'.settled type ref.distance) :
    Attains (items.mapM step) b fun refs b' =>
      b'.used = 0 ∨ ∃ ref ∈ refs, NearEnd schema b'.settled type ref.distance := by
  apply tries_mapM (I := fun _ (refs : List (Ref kind)) b' =>
    b'.used = 0 ∨ ∃ ref ∈ refs, NearEnd schema b'.settled type ref.distance) sound (.inl empty)
  intro done item rest split refs b₁ before holds
  apply (each item (by simp [split]) b₁ before).mono fun _ _ => trivial
  intro ref b' next near
  right
  rcases holds with empty | ⟨older, mem, near'⟩
  · exact ⟨ref, by simp, near empty⟩
  · exact ⟨older, List.mem_append_left _ mem, near'.of_suffix next.kept⟩

end Elements

/-- A child that is written first is near the end. -/
def ChildNearEnd (schema : Schema) (forced validate : Bool) (child : Child) : Prop :=
  ∀ b name r, b.Sound → b.config.forceDefaults = forced → b.config.validateText = validate →
    Attains (child name r) b fun ref b' =>
      b.used = 0 → NearEnd schema b'.settled (.record name) ref.distance

/-- One of the fields waits with a reference to an object near the end. -/
def LeadsToEnd (schema : Schema) (s : List UInt8) (fields : List RecordField) (pending : List Pending) :
    Prop :=
  ∃ f ∈ fields, ∃ kind, ∃ ref : Ref kind, .ref f.slot kind ref ∈ pending ∧
    NearEnd schema s f.type ref.distance

theorem LeadsToEnd.of_suffix {s t : List UInt8} {fields more : List RecordField}
    {pending waiting : List Pending} (leads : LeadsToEnd schema t fields pending) (suffix : t <:+ s) :
    LeadsToEnd schema s (fields ++ more) (pending ++ waiting) := by
  obtain ⟨f, mem, kind, ref, among, near⟩ := leads
  exact ⟨f, List.mem_append_left _ mem, kind, ref, List.mem_append_left _ among, near.of_suffix suffix⟩

section Fields

variable {child : Child} {fits : String → Record → Prop} {place : Placement} {f : RecordField}
  {items : List Value} {field : String}

theorem vector_nearEnd (writes : ChildWrites forced validate child fits place)
    (children : ChildNearEnd schema forced validate child) (stays : place.Stays) (inside : place.Inside)
    (valid : f.Valid schema) (out : schema.LaidOut) {type : ElementType} (kind : f.type = .vector type)
    (sound : b.Sound) (defaults : b.config.forceDefaults = forced) (texts : b.config.validateText = validate)
    (empty : b.used = 0) :
    Attains (encodeVector schema child type (.vector items) field) b fun ref b' =>
      NearEnd schema b'.settled (.vector type) ref.distance := by
  have written : Attains (encodeVector schema child type (.vector items) field) b _ :=
    (vector_encodes writes stays inside valid out kind sound defaults texts).attains
  cases type with
  | scalar t =>
    apply (written.and (scalarVector_behind sound empty t)).mono fun _ _ => trivial
    rintro ref b' _ ⟨⟨-, stands⟩, rest, small, here, padding⟩
    exact stands.nearEnd rfl small here padding
  | struct name =>
    apply (written.and (structVector_behind out sound empty name)).mono fun _ _ => trivial
    rintro ref b' _ ⟨⟨-, stands⟩, s, known, rest, small, here, padding⟩
    have resolved : (ElementType.struct name).resolve schema = .ok (.struct s) := by
      simp [ElementType.resolve, known]
    exact stands.nearEnd resolved small here padding
  | text =>
    exact tries_bind (objects_nearEnd .text sound empty fun item _ b₁ next =>
      text_nearEnd next.sound item field) fun refs b₁ next near =>
        refVector_nearEnd next.sound rfl rfl near
  | record name =>
    simp only [RecordField.Valid, kind] at valid
    obtain ⟨record, known⟩ := valid
    have resolved : (ElementType.record name).resolve schema = .ok (.record name) := by
      simp [ElementType.resolve, known]
    refine tries_bind (objects_nearEnd (.record name) sound empty fun item _ b₁ next => ?_)
      fun refs b₁ next near => refVector_nearEnd next.sound resolved rfl near
    cases item with
    | record r => exact children b₁ name r next.sound (next.config ▸ defaults) (next.config ▸ texts)
    | scalar | text | bytes | vector | struct => exact trivial

theorem field_nearEnd (writes : ChildWrites forced validate child fits place)
    (children : ChildNearEnd schema forced validate child) (stays : place.Stays) (inside : place.Inside)
    (valid : f.Valid schema) (out : schema.LaidOut) (sound : b.Sound)
    (defaults : b.config.forceDefaults = forced) (texts : b.config.validateText = validate)
    (empty : b.used = 0) (value : Value) :
    Attains (encodeField schema child f value) b fun p b' =>
      b'.used = 0 ∨ LeadsToEnd schema b'.settled [f] [p] := by
  have done {kind : ObjectKind} {x : Build (Ref kind)}
      (attains : Attains x b fun ref b' => NearEnd schema b'.settled f.type ref.distance) :
      Attains (do return Pending.ref f.slot kind (← x)) b fun p b' =>
        b'.used = 0 ∨ LeadsToEnd schema b'.settled [f] [p] :=
    tries_bind attains fun ref _ next near =>
      tries_pure next.sound (.inr ⟨f, by simp, kind, ref, by simp, near⟩)
  simp only [encodeField]
  cases kind : f.type with
  | scalar | enumeration | struct =>
    refine tries_ofExcept (fun _ _ => trivial) fun _ _ => ?_
    exact tries_ofExcept (fun _ _ => trivial) fun _ _ => tries_pure sound (.inl empty)
  | text =>
    apply done
    rw [kind]
    exact (text_nearEnd sound value f.name).mono (fun _ _ => trivial) fun _ _ _ near => near empty
  | vector type =>
    cases value with
    | vector items =>
      apply done
      rw [kind]
      exact vector_nearEnd writes children stays inside valid out kind sound defaults texts empty
    | scalar | text | bytes | record | struct => exact trivial
  | record name =>
    cases value with
    | record r =>
      apply done
      rw [kind]
      exact (children b name r sound defaults texts).mono (fun _ _ => trivial) fun _ _ _ near => near empty
    | scalar | text | bytes | vector | struct => exact trivial

end Fields

section Records

variable {record : RecordType} {r : Record} {pending : List Pending}

theorem pending_begun {p : Pending} {start : Nat} (sound : b.Sound) (begun : b.Begun start) :
    Ends p.write b (fun _ b' => b'.Sound ∧ b'.Begun start) fun _ _ => True := by
  cases p with
  | scalar slot value default =>
    simp only [Pending.write]
    split
    · refine ((safe_addField slot value default b sound).and
        (addField_ends sound.region slot value default)).mono (fun _ b' done => ⟨done.1.sound, ?_⟩)
        fun _ _ _ => trivial
      rcases done.2 with ⟨-, rfl⟩ | ⟨-, added⟩
      · exact begun
      · exact added.begun begun
    · exact trivial
  | struct slot bytes alignment =>
    exact ((safe_addStructField slot bytes alignment b sound).and
      (addStructField_ends sound.region slot bytes alignment)).mono
      (fun _ b' done => ⟨done.1.sound, done.2.begun begun⟩) fun _ _ _ => trivial
  | ref slot kind child =>
    exact ((safe_addRefField slot child b sound).and
      (addRefField_ends sound.region slot child)).mono
      (fun _ b' done => ⟨done.1.sound, done.2.2.2.begun begun⟩) fun _ _ _ => trivial

/-- The record begins where the builder stood. -/
theorem pendings_begun (sound : b.Sound) (pending : List Pending) :
    Ends (do startRecord; pending.forM Pending.write) b (fun _ b' => b'.Begun b.used)
      fun _ _ => True := by
  rw [ends_bind]
  refine ((safe_startRecord b sound).and startRecord_ends).mono (fun _ b₁ begun => ?_)
    fun _ _ _ => trivial
  obtain ⟨opened, -, rfl⟩ := begun
  have written : Ends (pending.forM Pending.write) (b.withStage (.record b.used []))
      (fun _ b' => b'.Sound ∧ b'.Begun b.used) fun _ _ => True := by
    apply ends_forM (I := fun _ b' => b'.Sound ∧ b'.Begun b.used) ⟨opened.sound, [], rfl⟩
    exact fun _ _ _ _ _ before => pending_begun before.1 before.2
  exact written.mono (fun _ _ done => done.2) fun _ _ _ => trivial

theorem pendingRecord_begins {place : Placement} (inside : place.Inside) (isValid : record.Valid schema)
    (out : schema.LaidOut) (sound : b.Sound) (defaults : b.config.forceDefaults = forced)
    (stand : FieldsStand schema place b.ground r (presentFields record r) pending) :
    Attains (do startRecord; (byAlignment pending).forM Pending.write; endRecord) b fun ref b' =>
      ∃ table places, RecordAt b'.settled ref.distance b.used table places
        (fieldsOf forced (byAlignment pending)) := by
  have filled := (pendings_fill inside isValid out sound defaults stand).attains.and
    (pendings_begun sound (byAlignment pending))
  simp only [← bind_assoc] at filled ⊢
  apply tries_bind filled
  rintro _ b₁ next ⟨level, places, stage⟩
  apply ((record_ended next.sound level).attains.and (record_made next.sound level.draft)).mono
    fun _ _ => trivial
  rintro ref b' _ ⟨-, -, -, start, places', stage', table, stored⟩
  obtain ⟨rfl, -⟩ := Stage.record.inj (stage.symm.trans stage')
  exact ⟨table, places', stored⟩

variable {child : Child} {fits : String → Record → Prop} {place : Placement}

theorem fields_nearEnd (writes : ChildWrites forced validate child fits place)
    (children : ChildNearEnd schema forced validate child) (stays : place.Stays) (inside : place.Inside)
    (valid : record.Valid schema) (out : schema.LaidOut) (sound : b.Sound)
    (defaults : b.config.forceDefaults = forced) (texts : b.config.validateText = validate)
    (empty : b.used = 0) :
    Attains (record.liveFields.filterMapM fun f => (r.get? f.name).mapM (encodeField schema child f)) b
      fun pending b' => b'.used = 0 ∨ LeadsToEnd schema b'.settled record.liveFields pending := by
  apply tries_filterMapM (I := fun done pending b' =>
    b'.used = 0 ∨ LeadsToEnd schema b'.settled done pending) sound (.inl empty)
  intro done f rest split pending b₁ before holds
  have live : f ∈ record.liveFields := by simp [split]
  have isValid := valid.fields f (List.mem_of_mem_filter live)
  have defaults' := before.config ▸ defaults
  have texts' := before.config ▸ texts
  cases found : r.get? f.name with
  | none =>
    refine tries_pure before.sound (holds.imp id fun leads => ?_)
    exact leads.of_suffix List.suffix_rfl
  | some v =>
    rw [Option.mapM_some]
    -- Until an object is written, the next field may write the first; after that it only has to keep it.
    rcases holds with empty | leads
    · have field := field_nearEnd writes children stays inside isValid out before.sound defaults' texts' empty v
      refine tries_bind field fun p b₂ next near => tries_pure next.sound (near.imp id ?_)
      rintro ⟨f', mem, kind, ref, among, near⟩
      cases List.mem_singleton.1 mem
      exact ⟨f, by simp, kind, ref, List.mem_append_right _ (by simpa using among), near⟩
    · have field := (field_encodes writes stays inside isValid out before.sound defaults' texts' v).attains
      exact tries_bind field fun p b₂ next _ => tries_pure next.sound (.inr (leads.of_suffix next.kept))

/-- A record that is written first is near the end if its children are. -/
theorem record_nearEnd (writes : ChildWrites forced validate child fits place)
    (children : ChildNearEnd schema forced validate child) (stays : place.Stays) (inside : place.Inside)
    (valid : schema.Valid) (out : schema.LaidOut) :
    ChildNearEnd schema forced validate (encodeRecord schema child) := by
  intro b name r sound defaults texts
  have written := (record_encodes writes stays inside valid out b name r sound defaults texts).attains
  -- Where something is written already, nothing is claimed of the record.
  by_cases empty : b.used = 0
  case neg => exact written.mono (fun _ _ => trivial) fun _ _ _ _ here => absurd here empty
  refine tries_ofExcept (fun _ _ => trivial) fun record known => ?_
  refine tries_ofExcept (fun _ _ => trivial) fun _ _ => ?_
  have isValid := valid.records record (Schema.record_mem known)
  have fields := (fields_encode (r := r) writes stays inside isValid out sound defaults texts).attains
  apply tries_bind (fields.and (fields_nearEnd writes children stays inside isValid out sound defaults texts
    empty))
  rintro pending b₁ first ⟨⟨-, stand⟩, -, near⟩
  apply (pendingRecord_begins inside isValid out first.sound (first.config ▸ defaults) stand).mono
    fun _ _ => trivial
  rintro ref b' next ⟨table, places, stored⟩ _
  -- Either the record is the first object itself, or one of its fields leads to the first.
  rcases near with empty | ⟨f, live, kind, target, among, rest, small, padding, behind⟩
  · rw [empty] at stored
    exact ⟨0, by decide, List.nil_suffix, .record known stored⟩
  · have slot : (f.slot, .ref kind target.distance) ∈ fieldsOf forced (byAlignment pending) := by
      rw [fieldsOf, List.mem_reverse, List.mem_filterMap]
      exact ⟨_, (byAlignment_perm pending).mem_iff.2 among, rfl⟩
    exact ⟨rest, small, padding.trans next.kept,
      .field known stored (List.mem_of_mem_filter live) slot (behind.of_suffix next.kept)⟩

theorem levels_nearEnd (valid : schema.Valid) (out : schema.LaidOut) (levels : Nat) :
    ChildNearEnd schema forced validate (encodeLevels schema levels) := by
  induction levels with
  | zero => exact fun _ _ _ _ _ _ => trivial
  | succ levels ih =>
    exact record_nearEnd (levels_encode valid out levels) ih (levelsStand_stays schema forced levels)
      (levelsStand_inside schema forced levels) valid out

end Records

/-- The root of an encoded buffer leads to an object that has less than four zeros behind it. -/
theorem encodeRoot_spans {type : RecordType} {r : Record} {config : Config} {bytes : Bytes}
    (valid : schema.Valid) (out : schema.LaidOut) (rooted : schema.rootRecord = .ok type)
    (written : encodeRoot schema r config = .ok bytes) :
    ∃ pos, follow bytes 0 = .ok pos ∧ ∃ rest < offsetSize, zeros rest <:+ bytes.toList ∧
      Spans bytes schema (.record type.name) pos (bytes.size - rest) := by
  obtain ⟨root, b, b', encoded, finished⟩ := rootBuffer_runs rooted written
  have fresh := ofConfig_sound config
  have near := levels_nearEnd valid out (Record.depth r) (ofConfig config) type.name r fresh rfl rfl
  obtain ⟨proceeds, near⟩ := Ends.of_ok near encoded
  obtain ⟨rest, small, padding, behind⟩ := near rfl
  have sound := proceeds.sound
  have ended : Finished b root.distance false bytes b' :=
    Ends.of_ok (finish_ends sound.region root schema.identifier false) finished
  have suffix := (settled_suffix_written b).trans ended.suffix
  exact ⟨_, ended.root_follows sound.region, rest, small, padding.trans suffix,
    (behind.of_suffix suffix).spans⟩

theorem zero_of_zeros {bytes : Bytes} {rest i : Nat} (padding : zeros rest <:+ bytes.toList)
    (behind : bytes.size - rest ≤ i) {byte : UInt8} (there : bytes[i]? = some byte) : byte = 0 := by
  obtain ⟨front, split⟩ := padding
  have size : front.length + rest = bytes.size := by
    rw [← length_zeros rest, ← List.length_append, split]
    exact Array.length_toList
  rw [← Array.getElem?_toList, ← split, List.getElem?_append_right (by omega)] at there
  exact List.eq_of_mem_replicate (List.mem_of_getElem? there)

/-- If structs have the natural layout, strict opening refuses an encoded buffer that was cut short by four bytes or
more, whatever the limits are. What can be missing unnoticed is less, and only the zeros that pad the end. -/
theorem cut_refused {r : Record} {config : Config} {bytes : Bytes} {options : ReaderOptions}
    (valid : schema.validate = .ok ()) (out : schema.LaidOut)
    (written : encodeRoot schema r config = .ok bytes) (strict : options.strict = true) :
    (∀ k, k + 4 ≤ bytes.size → ∃ e, Buffer.openWith (bytes.take k) options schema = .error e) ∧
    ∀ k view, Buffer.openWith (bytes.take k) options schema = .ok view →
      ∀ i byte, k ≤ i → bytes[i]? = some byte → byte = 0 := by
  obtain ⟨type, rooted⟩ := encodeRoot_rooted written
  obtain ⟨pos, root, rest, small, padding, spans⟩ :=
    encodeRoot_spans (Schema.valid_of_validate valid) out rooted written
  have reaches {k : Nat} {view : Buffer} (opened : Buffer.openWith (bytes.take k) options schema = .ok view) :
      bytes.size - rest ≤ k := by
    have split : bytes = bytes.take k ++ bytes.drop k := Array.toList_inj.1 (by simp)
    have within := opened_reaches strict rooted opened split root spans
    rw [Array.take_eq_extract, Array.size_extract, Nat.sub_zero] at within
    exact Nat.le_trans within (Nat.min_le_left k _)
  constructor
  · intro k short
    cases opened : Buffer.openWith (bytes.take k) options schema with
    | error e => exact ⟨e, rfl⟩
    | ok view =>
      have long := reaches opened
      simp only [offsetSize] at small
      omega
  · exact fun k view opened i byte behind there =>
      zero_of_zeros padding (Nat.le_trans (reaches opened) behind) there

/-- The label's text ends two bytes before the buffer does. -/
theorem labelled_cut :
    pointSchema.validate = .ok () ∧ encodeRoot pointSchema labelled {} = .ok labelledUnsized ∧
    (∃ view, Buffer.openWith (labelledUnsized.take 30) { strict := true } pointSchema = .ok view) ∧
    ∃ e, Buffer.openWith (labelledUnsized.take 28) { strict := true } pointSchema = .error e :=
  have valid : pointSchema.validate = .ok () := by decide +kernel
  have written : encodeRoot pointSchema labelled {} = .ok labelledUnsized := by decide +kernel
  have opened : Buffer.openWith (labelledUnsized.take 30) { strict := true } pointSchema =
      .ok ⟨labelledUnsized.take 30, 0⟩ := by decide +kernel
  ⟨valid, written, ⟨_, opened⟩, (cut_refused valid (by decide) written rfl).1 28 (by decide)⟩

/-- A struct that asks for a larger alignment than its size. -/
def wide : StructType where
  name := "Wide"
  members := [("y", .uint8)]
  layout := [⟨"y", .uint8, 0⟩]
  layout_members := rfl
  alignment := 16
  size := 1

/-- A vector of one such struct, with fifteen zeros behind it. -/
def wideBuffer : Bytes := #[
  20, 0, 0, 0, 0, 0, 0, 0, 0, 0, 0, 0, 8, 0, 8, 0, 0, 0, 4, 0, 8, 0, 0, 0, 4, 0, 0, 0, 1, 0, 0, 0,
  7, 0, 0, 0, 0, 0, 0, 0, 0, 0, 0, 0, 0, 0, 0, 0]

/-- Without the natural layout all the padding behind a vector can be missing unnoticed. -/
theorem wideBuffer_cut : (Schema.holding wide).validate = .ok () ∧
    encodeRoot (.holding wide) [("many", .vector [.struct [("y", .scalar (.uint8 7))]])] {} = .ok wideBuffer ∧
    33 + 4 ≤ wideBuffer.size ∧
    Buffer.openWith (wideBuffer.take 33) { strict := true } (.holding wide) = .ok ⟨wideBuffer.take 33, 0⟩ :=
  ⟨Schema.validate_holding wide, by decide +kernel⟩

end FlatRecord
