import FlatRecord.Proofs.Builder.Parts
import FlatRecord.Proofs.Builder.Stored

/-! A journal of what a caller has had written, kept from the operations and their answers alone, and the
invariant that ties it to the bytes of the builder. -/
namespace FlatRecord

open Builder Build

/-- A vector that was closed. -/
structure VectorNote where
  distance : Nat
  elementSize : Nat
  elements : List Piece
deriving Repr

/-- The objects that were finished, each by the distance that was handed out for it, and what the open
record or vector has been given so far. -/
structure Journal where
  texts : List (Nat × List UInt8) := []
  vectors : List VectorNote := []
  records : List (Nat × List (Nat × Piece)) := []
  fields : List (Nat × Piece) := []
  elementSize : Nat := 0
  elements : List Piece := []
deriving Repr

namespace Journal

/-- What a success adds. A field that is left out because of its default adds nothing. -/
def note (j : Journal) (b : Builder) : Operation → Answer → Journal
  | .reset, _ => {}
  | .createText text, .object _ ref =>
    { j with texts := (ref.distance, (Text.toBytes text).toList) :: j.texts }
  | .createBytes bytes, .object _ ref => { j with texts := (ref.distance, bytes.toList) :: j.texts }
  | .startVector _ elementSize _, _ => { j with elementSize, elements := [] }
  | .pushElement v, _ => { j with elements := j.elements ++ [.own v.toBytes] }
  | .pushBytesElement bytes, _ => { j with elements := j.elements ++ [.own bytes] }
  | .pushRef kind child, _ => { j with elements := j.elements ++ [.ref kind child.distance] }
  | .endVector, .object _ ref =>
    { j with vectors := ⟨ref.distance, j.elementSize, j.elements⟩ :: j.vectors }
  | .startRecord, _ => { j with fields := [] }
  | .addField slot value default, _ =>
    if b.elides value default then j
    else { j with fields := (slot, .own value.toBytes) :: j.fields }
  | .addRequiredField slot value, _ => { j with fields := (slot, .own value.toBytes) :: j.fields }
  | .addStructField slot bytes _, _ => { j with fields := (slot, .own bytes) :: j.fields }
  | .addRefField slot kind child, _ =>
    { j with fields := (slot, .ref kind child.distance) :: j.fields }
  | .endRecord, .object _ ref => { j with records := (ref.distance, j.fields) :: j.records }
  | _, _ => j

/-- A failure adds nothing. -/
def after (j : Journal) (b : Builder) (op : Operation) : Journal :=
  match (b.apply op).1 with
  | .ok answer => j.note b op answer
  | .error _ => j

/-- The journal after operations that stop at the first failure. -/
def inOrder (j : Journal) (b : Builder) : List Operation → Journal
  | [] => j
  | op :: rest =>
    match b.apply op with
    | (.ok _, b') => (j.after b op).inOrder b' rest
    | (.error _, _) => j.after b op

/-- The journal after an operation, which is what its parts leave. -/
def step (j : Journal) (b : Builder) (op : Operation) : Journal := j.inOrder b (b.parts op)

/-- The journal after a run. -/
def run (j : Journal) (b : Builder) : List Operation → Journal
  | [] => j
  | op :: rest => (j.step b op).run (b.apply op).2 rest

/-- An object of this kind was finished at this distance. -/
def Knows (j : Journal) (distance : Nat) : ObjectKind → Prop
  | .text => ∃ bytes, (distance, bytes) ∈ j.texts
  | .vector => ∃ v ∈ j.vectors, v.distance = distance
  | .record => ∃ fields, (distance, fields) ∈ j.records

def KnowsPiece (j : Journal) : Piece → Prop
  | .own _ => True
  | .ref kind target => j.Knows target kind

/-- Nothing that was finished is forgotten. -/
structure Grows (j j' : Journal) : Prop where
  texts : j.texts ⊆ j'.texts
  vectors : j.vectors ⊆ j'.vectors
  records : j.records ⊆ j'.records

variable {j j' : Journal}

theorem Grows.refl : Grows j j := ⟨fun _ h => h, fun _ h => h, fun _ h => h⟩

theorem Grows.trans {j'' : Journal} (before : Grows j j') (after : Grows j' j'') : Grows j j'' :=
  ⟨fun _ h => after.texts (before.texts h), fun _ h => after.vectors (before.vectors h),
    fun _ h => after.records (before.records h)⟩

theorem Grows.knows (grows : Grows j j') {d : Nat} {kind : ObjectKind} (known : j.Knows d kind) :
    j'.Knows d kind := by
  cases kind with
  | text => exact let ⟨bytes, mem⟩ := known; ⟨bytes, grows.texts mem⟩
  | vector => exact let ⟨v, mem, same⟩ := known; ⟨v, grows.vectors mem, same⟩
  | record => exact let ⟨fields, mem⟩ := known; ⟨fields, grows.records mem⟩

theorem Grows.knowsPiece (grows : Grows j j') {p : Piece} (known : j.KnowsPiece p) :
    j'.KnowsPiece p := by
  cases p with
  | own bytes => trivial
  | ref kind target => exact grows.knows known

end Journal

namespace Builder

/-- A vector is open. -/
def InVector (b : Builder) : Prop :=
  ∃ length pushed elementSize first, b.stage = .vector length pushed elementSize first

/-- The bytes are as the journal says. -/
structure Keeps (b : Builder) (j : Journal) : Prop where
  sound : b.Sound
  texts : ∀ d bytes, (d, bytes) ∈ j.texts → TextStored b.settled d bytes
  vectors : ∀ v ∈ j.vectors, VectorStored b.settled v.distance v.elementSize v.elements ∧
    ∀ p ∈ v.elements, j.KnowsPiece p
  records : ∀ d fields, (d, fields) ∈ j.records → RecordStored b.settled d fields ∧
    ∀ f ∈ fields, j.KnowsPiece f.2
  record : ∀ start places, b.stage = .record start places →
    RecordDraft b j.fields ∧ ∀ f ∈ j.fields, j.KnowsPiece f.2
  vector : ∀ length pushed size first, b.stage = .vector length pushed size first →
    VectorDraft b length j.elementSize j.elements ∧ ∀ p ∈ j.elements, j.KnowsPiece p

variable {b b' : Builder} {j : Journal}

/-- What was finished stays, and what is new is stored. -/
theorem Keeps.extend {j' : Journal} (keeps : Keeps b j) (advances : Advances b b')
    (grows : Journal.Grows j j')
    (texts : ∀ d bytes, (d, bytes) ∈ j'.texts →
      (d, bytes) ∈ j.texts ∨ TextStored b'.settled d bytes)
    (vectors : ∀ v ∈ j'.vectors, v ∈ j.vectors ∨
      VectorStored b'.settled v.distance v.elementSize v.elements ∧
        ∀ p ∈ v.elements, j.KnowsPiece p)
    (records : ∀ d fields, (d, fields) ∈ j'.records → (d, fields) ∈ j.records ∨
      RecordStored b'.settled d fields ∧ ∀ f ∈ fields, j.KnowsPiece f.2)
    (record : ∀ start places, b'.stage = .record start places →
      RecordDraft b' j'.fields ∧ ∀ f ∈ j'.fields, j.KnowsPiece f.2)
    (vector : ∀ length pushed size first, b'.stage = .vector length pushed size first →
      VectorDraft b' length j'.elementSize j'.elements ∧ ∀ p ∈ j'.elements, j.KnowsPiece p) :
    Keeps b' j' where
  sound := advances.sound
  texts d bytes mem := (texts d bytes mem).elim
    (fun older => (keeps.texts d bytes older).of_suffix advances.kept) id
  vectors v mem := by
    rcases vectors v mem with older | ⟨stored, known⟩
    · obtain ⟨stored, known⟩ := keeps.vectors v older
      exact ⟨stored.of_suffix advances.kept, fun p mem => grows.knowsPiece (known p mem)⟩
    · exact ⟨stored, fun p mem => grows.knowsPiece (known p mem)⟩
  records d fields mem := by
    rcases records d fields mem with older | ⟨stored, known⟩
    · obtain ⟨stored, known⟩ := keeps.records d fields older
      exact ⟨stored.of_suffix advances.kept, fun f mem => grows.knowsPiece (known f mem)⟩
    · exact ⟨stored, fun f mem => grows.knowsPiece (known f mem)⟩
  record start places stage :=
    let ⟨draft, known⟩ := record start places stage
    ⟨draft, fun f mem => grows.knowsPiece (known f mem)⟩
  vector length pushed size first stage :=
    let ⟨draft, known⟩ := vector length pushed size first stage
    ⟨draft, fun p mem => grows.knowsPiece (known p mem)⟩

/-- The same for a journal that differs in nothing that is finished. -/
theorem Keeps.redraft (keeps : Keeps b j) (advances : Advances b b') {fields : List (Nat × Piece)}
    {elementSize : Nat} {elements : List Piece}
    (record : ∀ start places, b'.stage = .record start places →
      RecordDraft b' fields ∧ ∀ f ∈ fields, j.KnowsPiece f.2)
    (vector : ∀ length pushed size first, b'.stage = .vector length pushed size first →
      VectorDraft b' length elementSize elements ∧ ∀ p ∈ elements, j.KnowsPiece p) :
    Keeps b' { j with fields, elementSize, elements } :=
  keeps.extend advances ⟨fun _ h => h, fun _ h => h, fun _ h => h⟩ (fun _ _ => .inl)
    (fun _ => .inl) (fun _ _ => .inl) record vector

theorem RecordDraft.littered {fields : List (Nat × Piece)} (draft : RecordDraft b fields)
    (littered : Littered b b') : RecordDraft b' fields := by
  obtain ⟨start, places, stage, placed⟩ := draft
  obtain ⟨left, adds⟩ := littered
  exact ⟨start, places, adds.stage.trans stage, placed.imp fun _ _ field => field.of_suffix adds.suffix⟩

/-- Bytes that nothing refers to do no harm, except in a vector. -/
theorem Keeps.littered (keeps : Keeps b j) (littered : Littered b b')
    (intact : b.InVector → b' = b) : Keeps b' j := by
  refine keeps.redraft (littered.advances keeps.sound) (fun start places stage => ?_)
    (fun length pushed size first stage => ?_)
  · obtain ⟨left, adds⟩ := littered
    obtain ⟨draft, known⟩ := keeps.record start places (adds.stage.symm.trans stage)
    exact ⟨draft.littered ⟨left, adds⟩, known⟩
  · obtain ⟨left, adds⟩ := littered
    have before := adds.stage.symm.trans stage
    rw [intact ⟨_, _, _, _, before⟩]
    exact keeps.vector length pushed size first before

/-- Nothing is done. -/
def Refuses (x : Build α) (b : Builder) : Prop :=
  Ends x b (fun _ _ => False) (fun _ b' => b' = b)

theorem refuses_bind {x : Build α} {f : α → Build β} (refuses : Refuses x b) :
    Refuses (x >>= f) b := by
  rw [Refuses, ends_bind]
  exact refuses.mono (fun _ _ impossible => impossible.elim) fun _ _ same => same

theorem refuses_writable {x : Build α} (refuses : Refuses x b) :
    Refuses (do ensureWritable; x) b := ensureWritable_then (fun _ => rfl) fun _ => refuses

theorem ensureIdle_refuses (busy : b.InVector) : Refuses ensureIdle b := by
  obtain ⟨length, pushed, size, first, stage⟩ := busy
  refine ensureIdle_ends.mono (fun _ b' start => ?_) fun _ _ bad => bad.2.1
  exact Stage.noConfusion (stage.symm.trans start.2)

theorem checkSlot_refuses (busy : b.InVector) (slot : Nat) : Refuses (checkSlot slot) b := by
  obtain ⟨length, pushed, size, first, stage⟩ := busy
  refine (checkSlot_ends slot).mono (fun _ b' start => ?_) fun _ _ same => same
  obtain ⟨_, fields, record, _⟩ := start
  exact Stage.noConfusion (stage.symm.trans record)

theorem createUnchecked_refuses (busy : b.InVector) (bytes : List UInt8) :
    Refuses (createUnchecked bytes) b := refuses_bind (ensureIdle_refuses busy)

theorem createBytes_refuses (busy : b.InVector) (bytes : Bytes) :
    Refuses (createBytes bytes) b := by
  rw [Refuses, createBytes, ends_bind, ends_get]
  split
  next => exact rfl
  next => exact createUnchecked_refuses busy _

theorem endRecord_refuses (busy : b.InVector) : Refuses endRecord b := by
  obtain ⟨length, pushed, size, first, stage⟩ := busy
  apply refuses_writable
  rw [Refuses, ends_bind, ends_get, stage]
  exact rfl

theorem finish_refuses (busy : b.InVector) (root : Ref .record) (identifier : Option Identifier)
    (sizePrefixed : Bool) : Refuses (finish root identifier sizePrefixed) b := by
  obtain ⟨length, pushed, size, first, stage⟩ := busy
  apply refuses_writable
  rw [Refuses, ends_bind, ends_get]
  dsimp only
  rw [if_pos (by rw [stage]; exact Stage.noConfusion)]
  exact rfl

/-- A step that adds to the bytes, or fails and leaves bytes that nothing refers to. -/
theorem Keeps.writes {x : Build α} {ok good : α → Builder → Prop} (keeps : Keeps b j)
    (safe : Safe x) (ends : Ends x b ok (fun _ b' => Littered b b'))
    (refuses : b.InVector → Refuses x b)
    (done : ∀ a b', ok a b' → Advances b b' → good a b') :
    Ends x b good (fun _ b' => Keeps b' j) := by
  -- Stray bytes would come between a vector's count and its elements; no such step begins in a vector.
  by_cases busy : b.InVector
  · exact (refuses busy).mono (fun _ _ impossible => impossible.elim)
      fun _ _ same => same ▸ keeps
  · exact (ends.and (safe b keeps.sound)).mono (fun a b' both => done a b' both.1 both.2)
      fun _ _ both => keeps.littered both.1 fun vector => absurd vector busy

theorem notRecord_of_idle (idle : b.stage = .idle) {p : Nat → List Field → Prop} :
    ∀ start places, b.stage = .record start places → p start places :=
  fun _ _ record => Stage.noConfusion (idle.symm.trans record)

theorem notVector_of_idle (idle : b.stage = .idle) {p : Nat → Nat → Nat → Nat → Prop} :
    ∀ length pushed size first, b.stage = .vector length pushed size first →
      p length pushed size first :=
  fun _ _ _ _ vector => Stage.noConfusion (idle.symm.trans vector)

theorem Keeps.text (keeps : Keeps b j) {bytes : List UInt8} {x : Build (Ref .text)} (safe : Safe x)
    (ends : Ends x b (fun ref b' => b.stage = .idle ∧ bytes.length < 2 ^ 32 ∧
      ref.distance = b'.used ∧ ∃ gap < offsetSize, Adds b (textBytes bytes ++ zeros gap) b')
      (fun _ b' => Littered b b'))
    (refuses : b.InVector → Refuses x b) :
    Ends x b (fun ref b' => Keeps b' { j with texts := (ref.distance, bytes) :: j.texts })
      (fun _ b' => Keeps b' j) := by
  apply keeps.writes safe ends refuses
  intro ref b' done advances
  obtain ⟨idle, short, here, gap, -, adds⟩ := done
  have idle' : b'.stage = .idle := adds.stage.trans idle
  refine keeps.extend advances ⟨List.subset_cons_self _ _, fun _ h => h, fun _ h => h⟩
    (fun d bytes mem => ?_) (fun _ => .inl) (fun _ _ => .inl) (notRecord_of_idle idle')
    (notVector_of_idle idle')
  rcases List.mem_cons.1 mem with new | older
  · cases new
    rw [advances.sound.settled_idle idle', here]
    exact .inr (text_stored keeps.sound.region short adds)
  · exact .inl older

theorem Keeps.vectorStarted (keeps : Keeps b j) (length size alignment : Nat) :
    Ends (startVector length size alignment) b
      (fun _ b' => Keeps b' { j with elementSize := size, elements := [] })
      (fun _ b' => Keeps b' j) := by
  refine keeps.writes (safe_startVector length size alignment)
    (startVector_ends keeps.sound.region length size alignment)
    (fun busy => refuses_bind (ensureIdle_refuses busy)) fun _ b' done advances => ?_
  obtain ⟨_, positive, short, b₁, gap, adds, -, aligned, rfl⟩ := done
  apply keeps.redraft advances (fun _ _ stage => Stage.noConfusion stage)
  intro length' pushed size' first stage
  obtain ⟨rfl, rfl, rfl, rfl⟩ := Stage.vector.inj stage
  exact ⟨draft_begun short positive aligned, nofun⟩

/-- An element is filled, or nothing happens. -/
theorem Keeps.pushed (keeps : Keeps b j) {p : Piece} {x : Build Unit} (safe : Safe x)
    (known : j.KnowsPiece p)
    (ends : Ends x b (fun _ b' => ∃ length pushed first, b.stage = .vector length pushed p.size first ∧
      pushed < length ∧ p.Reaches (first - pushed * p.size) ∧
      b' = b.filled length pushed first (p.bytesAt (first - pushed * p.size)))
      (fun _ b' => b' = b)) :
    Ends x b (fun _ b' => Keeps b' { j with elements := j.elements ++ [p] })
      (fun _ b' => Keeps b' j) := by
  refine (ends.and (safe b keeps.sound)).mono (fun _ b' both => ?_)
    fun _ _ both => both.1 ▸ keeps
  obtain ⟨⟨length, pushed, first, stage, more, reaches, rfl⟩, advances⟩ := both
  obtain ⟨draft, elements⟩ := keeps.vector length pushed p.size first stage
  have size : j.elementSize = p.size :=
    (Stage.vector.inj (draft.stage.symm.trans stage)).2.2.1
  rw [size] at draft
  apply keeps.redraft advances (fun _ _ record => Stage.noConfusion record)
  intro length' pushed' size' first' filled
  have same : length = length' := (Stage.vector.inj filled).1
  rw [size, ← same]
  refine ⟨draft_filled keeps.sound draft stage more reaches, fun q mem => ?_⟩
  rcases List.mem_append.1 mem with older | new
  · exact elements q older
  · rwa [List.mem_singleton.1 new]

theorem Keeps.vectorEnded (keeps : Keeps b j) :
    Ends endVector b (fun ref b' => Keeps b' { j with
        vectors := ⟨ref.distance, j.elementSize, j.elements⟩ :: j.vectors })
      (fun _ b' => Keeps b' j) := by
  refine ((endVector_ends keeps.sound.region).and (safe_endVector b keeps.sound)).mono
    (fun ref b' both => ?_) fun _ b' both => ?_
  · obtain ⟨⟨length, size, first, gap, stage, here, adds, tight⟩, advances⟩ := both
    obtain ⟨draft, known⟩ := keeps.vector length length size first stage
    have idle : b'.stage = .idle := adds.stage
    have stored := (vector_closed keeps.sound draft stage adds tight).2.2
    refine keeps.extend advances ⟨fun _ h => h, List.subset_cons_self _ _, fun _ h => h⟩
      (fun _ _ => .inl) (fun v mem => ?_) (fun _ _ => .inl) (notRecord_of_idle idle)
      (notVector_of_idle idle)
    rcases List.mem_cons.1 mem with rfl | older
    · rw [advances.sound.settled_idle idle, here]
      exact .inr ⟨stored, known⟩
    · exact .inl older
  · obtain ⟨bad, advances⟩ := both
    rcases bad with rfl | ⟨_, left, adds⟩
    · exact keeps
    · exact keeps.redraft advances (notRecord_of_idle adds.stage) (notVector_of_idle adds.stage)

theorem Keeps.recordStarted (keeps : Keeps b j) :
    Ends startRecord b (fun _ b' => Keeps b' { j with fields := [] }) (fun _ b' => Keeps b' j) := by
  refine (startRecord_ends.and (safe_startRecord b keeps.sound)).mono (fun _ b' both => ?_)
    fun _ _ both => both.1 ▸ keeps
  obtain ⟨⟨idle, rfl⟩, advances⟩ := both
  exact keeps.redraft advances (fun _ _ _ => ⟨record_begun, nofun⟩)
    fun _ _ _ _ stage => Stage.noConfusion stage

/-- The journal after a field was added. -/
theorem Keeps.added (keeps : Keeps b j) {slot : Nat} {p : Piece} (known : j.KnowsPiece p)
    (advances : Advances b b') (added : Added b slot (p.bytesAt b'.used) b')
    (reaches : p.Reaches b'.used) : Keeps b' { j with fields := (slot, p) :: j.fields } := by
  have stages := added
  obtain ⟨start, places, b₁, gap, stage, _, _, adds, closed⟩ := stages
  obtain ⟨draft, fields⟩ := keeps.record start places stage
  refine keeps.redraft advances (fun _ _ _ => ?_) fun _ _ _ _ vector => ?_
  · refine ⟨draft_added keeps.sound draft added reaches, fun f mem => ?_⟩
    rcases List.mem_cons.1 mem with rfl | older
    · exact known
    · exact fields f older
  · rw [closed] at vector
    exact Stage.noConfusion vector

theorem Keeps.ownAdded (keeps : Keeps b j) {slot : Nat} {bytes : List UInt8} {x : Build Unit}
    (safe : Safe x)
    (ends : Ends x b (fun _ b' => Added b slot bytes b') (fun _ b' => Littered b b'))
    (refuses : b.InVector → Refuses x b) :
    Ends x b (fun _ b' => Keeps b' { j with fields := (slot, .own bytes) :: j.fields })
      (fun _ b' => Keeps b' j) :=
  keeps.writes safe ends refuses fun _ _ added advances =>
    keeps.added (p := .own bytes) trivial advances added trivial

theorem Keeps.recordEnded (keeps : Keeps b j) :
    Ends endRecord b
      (fun ref b' => Keeps b' { j with records := (ref.distance, j.fields) :: j.records })
      (fun _ b' => Keeps b' j) := by
  refine keeps.writes safe_endRecord
    (endRecord_ends keeps.sound.region keeps.sound.fits keeps.sound.tables_written)
    endRecord_refuses fun ref b' done advances => ?_
  obtain ⟨start, places, stage, closed⟩ := done
  obtain ⟨draft, known⟩ := keeps.record start places stage
  have idle := closed.stage
  refine keeps.extend advances ⟨fun _ h => h, fun _ h => h, List.subset_cons_self _ _⟩
    (fun _ _ => .inl) (fun _ => .inl) (fun d fields mem => ?_) (notRecord_of_idle idle)
    (notVector_of_idle idle)
  rcases List.mem_cons.1 mem with new | older
  · cases new
    rw [advances.sound.settled_idle idle]
    obtain ⟨table, record⟩ := record_closed keeps.sound draft stage closed
    exact .inr ⟨⟨start, table, places, record⟩, known⟩
  · exact .inl older

theorem Keeps.finished (keeps : Keeps b j) (root : Ref .record) (identifier : Option Identifier)
    (sizePrefixed : Bool) :
    Ends (finish root identifier sizePrefixed) b (fun _ b' => Keeps b' j)
      (fun _ b' => Keeps b' j) := by
  refine keeps.writes (safe_finish root identifier sizePrefixed)
    (finish_ends keeps.sound.region root identifier sizePrefixed)
    (fun busy => finish_refuses busy root identifier sizePrefixed) fun _ b' done advances => ?_
  have ended := done.stage
  exact keeps.redraft advances (fun _ _ record => Stage.noConfusion (ended.symm.trans record))
    fun _ _ _ _ vector => Stage.noConfusion (ended.symm.trans vector)

theorem keeps_reset (sound : b.Sound) : Keeps b.reset {} :=
  ⟨reset_sound sound, nofun, nofun, nofun, fun _ _ stage => Stage.noConfusion stage,
    fun _ _ _ _ stage => Stage.noConfusion stage⟩

end Builder

end FlatRecord
