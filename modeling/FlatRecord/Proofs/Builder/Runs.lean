import FlatRecord.Proofs.Builder.Journal

/-! Runs in which every reference was handed out earlier in the same run. The journal of such a run says what
is stored. -/
namespace FlatRecord

open Builder Build

namespace Builder.Operation

/-- The references that an operation is given. -/
def refs : Operation → List (ObjectKind × Nat)
  | .pushRef kind child | .addRefField _ kind child => [(kind, child.distance)]
  | .createRefVector kind items => items.map fun child => (kind, child.distance)
  | .finish root _ _ => [(.record, root.distance)]
  | _ => []

/-- Not made of other operations. -/
def isSingle : Operation → Bool
  | .createVector .. | .createRefVector .. | .createTextVector .. => false
  | _ => true

end Builder.Operation

namespace Builder

/-- The operation's references are to objects of the journal, and it writes no loose scalar into a vector. -/
structure Admits (j : Journal) (b : Builder) (op : Operation) : Prop where
  known : ∀ r ∈ op.refs, j.Knows r.2 r.1
  apart : ∀ v, op = .pushScalar v → ¬b.InVector

variable {b b' : Builder} {j : Journal}

theorem Keeps.pushElement (keeps : Keeps b j) (bytes : List UInt8) :
    Ends (pushBytesElement bytes) b
      (fun _ b' => Keeps b' { j with elements := j.elements ++ [.own bytes] })
      (fun _ b' => Keeps b' j) :=
  keeps.pushed (p := .own bytes) (safe_pushBytesElement bytes) trivial
    ((pushBytesElement_ends keeps.sound.region keeps.sound.fits bytes).mono
      (fun _ _ done => let ⟨length, pushed, first, stage, more, same⟩ := done
        ⟨length, pushed, first, stage, more, trivial, same⟩)
      fun _ _ same => same)

theorem Keeps.pushRef (keeps : Keeps b j) {kind : ObjectKind} (child : Ref kind)
    (known : j.Knows child.distance kind) :
    Ends (Builder.pushRef child) b
      (fun _ b' => Keeps b' { j with elements := j.elements ++ [.ref kind child.distance] })
      (fun _ b' => Keeps b' j) := by
  refine keeps.pushed (p := .ref kind child.distance) (safe_pushRef child) known
    ((pushRef_ends keeps.sound.region keeps.sound.fits child).mono (fun _ b' done => ?_)
      fun _ _ same => same)
  obtain ⟨length, pushed, first, stage, more, positive, below, same⟩ := done
  exact ⟨length, pushed, first, stage, more,
    ref_reaches keeps.sound stage more positive below, same⟩

theorem Keeps.fieldAdded (keeps : Keeps b j) (slot : Nat) (value default : Scalar) :
    Ends (addField slot value default) b
      (fun _ b' => Keeps b' (if b.elides value default then j
        else { j with fields := (slot, .own value.toBytes) :: j.fields }))
      (fun _ b' => Keeps b' j) := by
  refine keeps.writes (safe_addField slot value default)
    (addField_ends keeps.sound.region slot value default)
    (fun busy => refuses_writable (refuses_bind (checkSlot_refuses busy slot)))
    fun _ b' done advances => ?_
  rcases done with ⟨elided, rfl⟩ | ⟨written, added⟩
  · rw [if_pos elided]
    exact keeps
  · rw [if_neg (by rw [written]; decide)]
    exact keeps.added (p := .own value.toBytes) trivial advances added trivial

theorem Keeps.refAdded (keeps : Keeps b j) (slot : Nat) {kind : ObjectKind} (child : Ref kind)
    (known : j.Knows child.distance kind) :
    Ends (addRefField slot child) b
      (fun _ b' => Keeps b' { j with fields := (slot, .ref kind child.distance) :: j.fields })
      (fun _ b' => Keeps b' j) := by
  refine keeps.writes (safe_addRefField slot child)
    (addRefField_ends keeps.sound.region slot child)
    (fun busy => refuses_writable (refuses_bind (checkSlot_refuses busy slot)))
    fun _ b' done advances => ?_
  obtain ⟨positive, older, added⟩ := done
  exact keeps.added (p := .ref kind child.distance) known advances added
    (ref_added keeps.sound positive older added)

theorem Keeps.scalarPushed (keeps : Keeps b j) (v : Scalar) (apart : ¬b.InVector) :
    Ends (pushScalar v) b (fun _ b' => Keeps b' j) (fun _ b' => Keeps b' j) :=
  (pushScalar_writes keeps.sound.region v).mono
    (fun _ _ done => let ⟨_, adds⟩ := done
      keeps.littered adds.littered fun busy => absurd busy apart)
    fun _ _ bad => keeps.littered bad fun busy => absurd busy apart

/-- Every single operation keeps the bytes as the journal says. -/
theorem keeps_single (keeps : Keeps b j) {op : Operation} (single : op.isSingle = true)
    (admits : Admits j b op) (remembers : op ≠ .reset) :
    Ends op.step b (fun answer b' => Keeps b' (j.note b op answer)) (fun _ b' => Keeps b' j) := by
  have fields (busy : b.InVector) (slot : Nat) {x : Nat → Build Unit} :
      Refuses (do ensureWritable; x (← checkSlot slot)) b :=
    refuses_writable (refuses_bind (checkSlot_refuses busy slot))
  cases op with
  | reset => exact absurd rfl remembers
  | createVector => exact nomatch single
  | createRefVector => exact nomatch single
  | createTextVector => exact nomatch single
  | pushScalar v =>
    rw [Operation.step, ends_bind]
    exact keeps.scalarPushed v (admits.apart v rfl)
  | createText text =>
    rw [Operation.step, ends_map]
    exact keeps.text (safe_createText text) (createUnchecked_ends keeps.sound.region _)
      fun busy => createUnchecked_refuses busy _
  | createBytes bytes =>
    rw [Operation.step, ends_map]
    exact keeps.text (safe_createBytes bytes) (createBytes_ends keeps.sound.region bytes)
      fun busy => createBytes_refuses busy bytes
  | startVector length elementSize alignment =>
    rw [Operation.step, ends_bind]
    exact keeps.vectorStarted length elementSize alignment
  | pushElement v =>
    rw [Operation.step, ends_bind]
    exact keeps.pushElement v.toBytes
  | pushBytesElement bytes =>
    rw [Operation.step, ends_bind]
    exact keeps.pushElement bytes
  | pushRef kind child =>
    rw [Operation.step, ends_bind]
    exact keeps.pushRef child (admits.known _ List.mem_cons_self)
  | endVector =>
    rw [Operation.step, ends_map]
    exact keeps.vectorEnded
  | startRecord =>
    rw [Operation.step, ends_bind]
    exact keeps.recordStarted
  | addField slot value default =>
    rw [Operation.step, ends_bind]
    exact keeps.fieldAdded slot value default
  | addRequiredField slot value =>
    rw [Operation.step, ends_bind]
    exact keeps.ownAdded (safe_addRequiredField slot value)
      (addRequiredField_ends keeps.sound.region slot value) fun busy => fields busy slot
  | addStructField slot bytes alignment =>
    rw [Operation.step, ends_bind]
    exact keeps.ownAdded (safe_addStructField slot bytes alignment)
      (addStructField_ends keeps.sound.region slot bytes alignment) fun busy => fields busy slot
  | addRefField slot kind child =>
    rw [Operation.step, ends_bind]
    exact keeps.refAdded slot child (admits.known _ List.mem_cons_self)
  | endRecord =>
    rw [Operation.step, ends_map]
    exact keeps.recordEnded
  | finish root identifier sizePrefixed =>
    rw [Operation.step, ends_map]
    exact keeps.finished root identifier sizePrefixed

/-- The builder and the journal after one operation. -/
theorem keeps_after (keeps : Keeps b j) {op : Operation} (single : op.isSingle = true)
    (admits : Admits j b op) : Keeps (b.apply op).2 (j.after b op) := by
  by_cases forgets : op = .reset
  · subst forgets
    exact keeps_reset keeps.sound
  · have ends := keeps_single keeps single admits forgets
    simp only [Ends] at ends
    unfold apply Journal.after apply
    cases result : op.step.run b <;> rw [result] at ends <;> exact ends

theorem ends_trivial (x : Build α) : Ends x b (fun _ _ => True) (fun _ _ => True) := by
  simp only [Ends]
  split <;> trivial

theorem grows_note (op : Operation) (answer : Answer) (remembers : op ≠ .reset) :
    Journal.Grows j (j.note b op answer) := by
  have open' {fields elementSize elements} :
      Journal.Grows j { j with fields, elementSize, elements } :=
    ⟨fun _ h => h, fun _ h => h, fun _ h => h⟩
  have text {t} : Journal.Grows j { j with texts := t :: j.texts } :=
    ⟨List.subset_cons_self _ _, fun _ h => h, fun _ h => h⟩
  have vector {v} : Journal.Grows j { j with vectors := v :: j.vectors } :=
    ⟨fun _ h => h, List.subset_cons_self _ _, fun _ h => h⟩
  have record {r} : Journal.Grows j { j with records := r :: j.records } :=
    ⟨fun _ h => h, fun _ h => h, List.subset_cons_self _ _⟩
  simp only [Journal.note]
  split
  next => exact absurd rfl remembers
  all_goals first | exact open' | exact text | exact vector | exact record | (split <;> exact open')

theorem grows_after (op : Operation) (remembers : op ≠ .reset) : Journal.Grows j (j.after b op) := by
  simp only [Journal.after]
  split
  · exact grows_note op _ remembers
  · exact .refl

/-- What a single operation hands out is in the journal. -/
theorem note_knows (op : Operation) (single : op.isSingle = true) :
    Ends op.step b (fun answer _ => ∀ kind ref, answer = .object kind ref →
      (j.note b op answer).Knows ref.distance kind) (fun _ _ => True) := by
  have silent {x : Build Unit} : Ends (do x; return Answer.done) b
      (fun answer _ => ∀ kind ref, answer = .object kind ref →
        (j.note b op answer).Knows ref.distance kind) (fun _ _ => True) := by
    rw [ends_bind]
    refine (ends_trivial x).mono (fun _ _ _ kind ref' same => ?_) fun _ _ _ => trivial
    cases same
  cases op with
  | createVector => cases single
  | createRefVector => cases single
  | createTextVector => cases single
  | createText text =>
    rw [Operation.step, ends_map]
    refine (ends_trivial _).mono (fun ref _ _ kind ref' same => ?_) fun _ _ _ => trivial
    cases same
    exact ⟨_, List.mem_cons_self⟩
  | createBytes bytes =>
    rw [Operation.step, ends_map]
    refine (ends_trivial _).mono (fun ref _ _ kind ref' same => ?_) fun _ _ _ => trivial
    cases same
    exact ⟨_, List.mem_cons_self⟩
  | endVector =>
    rw [Operation.step, ends_map]
    refine (ends_trivial _).mono (fun ref _ _ kind ref' same => ?_) fun _ _ _ => trivial
    cases same
    exact ⟨_, List.mem_cons_self, rfl⟩
  | endRecord =>
    rw [Operation.step, ends_map]
    refine (ends_trivial _).mono (fun ref _ _ kind ref' same => ?_) fun _ _ _ => trivial
    cases same
    exact ⟨_, List.mem_cons_self⟩
  | finish root identifier sizePrefixed =>
    rw [Operation.step, ends_map]
    refine (ends_trivial _).mono (fun _ _ _ kind ref' same => ?_) fun _ _ _ => trivial
    cases same
  | _ => exact silent

theorem after_knows {op : Operation} (single : op.isSingle = true) {kind : ObjectKind}
    {ref : Ref kind} (handed : (b.apply op).1 = .ok (.object kind ref)) :
    (j.after b op).Knows ref.distance kind := by
  have ends := note_knows (b := b) (j := j) op single
  rw [Journal.after, handed]
  simp only [Ends] at ends
  simp only [apply] at handed
  cases result : op.step.run b with
  | ok answer b' =>
    rw [result] at ends handed
    have same : answer = .object kind ref := Except.ok.inj handed
    exact same ▸ ends kind ref same
  | error e b' => rw [result] at handed; cases handed

/-- The same for operations in order, each of which may refer to what those before it handed out. -/
def AdmitsAll (j : Journal) (b : Builder) : List Operation → Prop
  | [] => True
  | op :: rest => op.isSingle = true ∧ op ≠ .reset ∧ Admits j b op ∧
    ∀ answer b', b.apply op = (.ok answer, b') → AdmitsAll (j.after b op) b' rest

theorem keeps_inOrder (keeps : Keeps b j) (ops : List Operation) (admits : AdmitsAll j b ops) :
    Keeps (b.applyInOrder ops).2 (j.inOrder b ops) := by
  induction ops generalizing b j with
  | nil => exact keeps
  | cons op rest ih =>
    obtain ⟨single, _, first, later⟩ := admits
    have next := keeps_after keeps single first
    simp only [Journal.inOrder]
    cases result : b.apply op with
    | mk answer b' =>
      rw [result] at next
      cases answer with
      | ok answer =>
        rw [applyInOrder_ok result]
        exact ih next (later answer b' result)
      | error e =>
        rw [applyInOrder_error result]
        exact next

theorem inOrder_knows (ops : List Operation) (admits : AdmitsAll j b ops) {kind : ObjectKind}
    {ref : Ref kind} (handed : (b.applyInOrder ops).1 = .ok (.object kind ref)) :
    (j.inOrder b ops).Knows ref.distance kind := by
  induction ops generalizing b j with
  | nil => cases handed
  | cons op rest ih =>
    obtain ⟨single, _, first, later⟩ := admits
    simp only [Journal.inOrder]
    cases rest with
    | nil =>
      have known := after_knows (j := j) single handed
      split <;> exact known
    | cons op' rest =>
      simp only [applyInOrder] at handed
      cases result : b.apply op with
      | mk answer b' =>
        rw [result] at handed
        cases answer with
        | ok answer => exact ih (later answer b' result) handed
        | error e => cases handed

theorem grows_inOrder (ops : List Operation) (admits : AdmitsAll j b ops) :
    Journal.Grows j (j.inOrder b ops) := by
  induction ops generalizing b j with
  | nil => exact .refl
  | cons op rest ih =>
    obtain ⟨_, remembers, _, later⟩ := admits
    have first := grows_after (b := b) (j := j) op remembers
    simp only [Journal.inOrder]
    split
    next answer b' result =>
      exact first.trans (ih (later answer b' result))
    next => exact first

theorem no_refs {op : Operation} (own : op.refs = []) : ∀ r ∈ op.refs, j.Knows r.2 r.1 := by
  intro r mem
  rw [own] at mem
  cases mem

/-- Operations that refer to nothing but what the journal knew before. -/
theorem admits_known (ops : List Operation)
    (plain : ∀ op ∈ ops, op.isSingle = true ∧ op ≠ .reset ∧ (∀ r ∈ op.refs, j.Knows r.2 r.1) ∧
      ∀ v, op ≠ .pushScalar v) : AdmitsAll j b ops := by
  induction ops generalizing b j with
  | nil => trivial
  | cons op rest ih =>
    obtain ⟨single, remembers, known, apart⟩ := plain op List.mem_cons_self
    refine ⟨single, remembers, ⟨known, fun v same => absurd same (apart v)⟩, fun _ b' _ => ?_⟩
    apply ih
    intro op' mem
    obtain ⟨single', remembers', known', apart'⟩ := plain op' (List.mem_cons_of_mem _ mem)
    exact ⟨single', remembers',
      fun r inside => (grows_after op remembers).knows (known' r inside), apart'⟩

theorem admits_refVector {kind : ObjectKind} {items : List (Ref kind)}
    (known : ∀ ref ∈ items, j.Knows ref.distance kind) :
    AdmitsAll j b (refVectorParts kind items) := by
  apply admits_known _
  intro op mem
  rw [refVectorParts, List.cons_append, List.mem_cons, List.mem_append, List.mem_map,
    List.mem_singleton] at mem
  rcases mem with rfl | ⟨ref, inside, rfl⟩ | rfl
  · exact ⟨rfl, Operation.noConfusion, no_refs rfl, fun _ => Operation.noConfusion⟩
  · refine ⟨rfl, Operation.noConfusion, fun r one => ?_, fun _ => Operation.noConfusion⟩
    rw [List.mem_singleton.1 one]
    exact known ref inside
  · exact ⟨rfl, Operation.noConfusion, no_refs rfl, fun _ => Operation.noConfusion⟩

/-- Texts, and then operations that may refer to them. -/
theorem admits_texts (items : List String) (rest : List Operation)
    (later : ∀ refs b', (items.mapM createText).run b = .ok refs b' → ∀ j', Journal.Grows j j' →
      (∀ ref ∈ refs, j'.Knows ref.distance .text) → AdmitsAll j' b' rest) :
    AdmitsAll j b (items.map .createText ++ rest) := by
  induction items generalizing b j with
  | nil => exact later [] b rfl j .refl nofun
  | cons item items ih =>
    refine ⟨rfl, Operation.noConfusion, ⟨no_refs rfl, fun _ => Operation.noConfusion⟩,
      fun answer b₁ done => ?_⟩
    have step : (Operation.createText item).step =
        (do let ref ← Builder.createText item; return .object .text ref) := by
      simp [Operation.step]
    have run := run_of_apply_ok done
    cases first : (Builder.createText item).run b with
    | error e b₂ => rw [step, run_bind_error first] at run; cases run
    | ok ref b₂ =>
      rw [step, run_bind_ok first] at run
      cases run
      have known : (j.after b (.createText item)).Knows ref.distance .text :=
        after_knows rfl (by rw [done])
      apply ih
      intro refs b' texts j' grows refsKnown
      have all : ((item :: items).mapM createText).run b = .ok (ref :: refs) b' := by
        rw [List.mapM_cons, run_bind_ok first, run_bind_ok texts]
        rfl
      have before := grows_after (b := b) (j := j) (.createText item) Operation.noConfusion
      apply later _ b' all j' (before.trans grows)
      intro ref' mem
      rcases List.mem_cons.1 mem with rfl | older
      · exact grows.knows known
      · exact refsKnown ref' older

/-- The parts of an operation refer to what it refers to, or to each other. -/
theorem admits_parts {op : Operation} (admits : Admits j b op) (remembers : op ≠ .reset) :
    AdmitsAll j b (b.parts op) := by
  cases op with
  | createVector type items =>
    apply admits_known _
    intro op mem
    rw [parts, List.cons_append, List.mem_cons, List.mem_append, List.mem_map,
      List.mem_singleton] at mem
    rcases mem with rfl | ⟨v, inside, rfl⟩ | rfl <;>
      exact ⟨rfl, Operation.noConfusion, no_refs rfl, fun _ => Operation.noConfusion⟩
  | createRefVector kind items =>
    exact admits_refVector fun ref mem =>
      admits.known (kind, ref.distance) (List.mem_map_of_mem mem)
  | createTextVector items =>
    apply admits_texts items _
    intro refs b' texts j' grows known
    rw [texts]
    exact admits_refVector known
  | _ => exact ⟨rfl, remembers, admits, fun _ _ _ => trivial⟩

/-- The references at hand after an operation, if these were at hand before. -/
def handedOut (given : List (ObjectKind × Nat)) (b : Builder) (op : Operation) :
    List (ObjectKind × Nat) :=
  if op = .reset then []
  else match (b.apply op).1 with
    | .ok (.object kind ref) => (kind, ref.distance) :: given
    | _ => given

/-- Every operation of the run is given only references that are at hand, and no loose scalar is written
into a vector. -/
def Legal (given : List (ObjectKind × Nat)) (b : Builder) : List Operation → Prop
  | [] => True
  | op :: rest => (∀ r ∈ op.refs, r ∈ given) ∧ (∀ v, op = .pushScalar v → ¬b.InVector) ∧
    Legal (handedOut given b op) (b.apply op).2 rest

theorem keeps_step (keeps : Keeps b j) {op : Operation} (admits : Admits j b op) :
    Keeps (b.apply op).2 (j.step b op) := by
  by_cases forgets : op = .reset
  · subst forgets
    exact keeps_reset keeps.sound
  · rw [apply_parts]
    exact keeps_inOrder keeps _ (admits_parts admits forgets)

theorem keeps_run (keeps : Keeps b j) {given : List (ObjectKind × Nat)}
    (known : ∀ r ∈ given, j.Knows r.2 r.1) (ops : List Operation) (legal : Legal given b ops) :
    Keeps (b.run ops) (j.run b ops) := by
  induction ops generalizing b j given with
  | nil => exact keeps
  | cons op rest ih =>
    obtain ⟨refs, apart, later⟩ := legal
    have admits : Admits j b op := ⟨fun r mem => known r (refs r mem), apart⟩
    refine ih (keeps_step keeps admits) (fun r mem => ?_) later
    simp only [handedOut] at mem
    split at mem
    · cases mem
    next remembers =>
      have parts := admits_parts admits remembers
      have grows := grows_inOrder _ parts
      split at mem
      next kind ref handed =>
        rcases List.mem_cons.1 mem with rfl | older
        · exact inOrder_knows _ parts (by rw [← apply_parts]; exact handed)
        · exact grows.knows (known r older)
      next => exact grows.knows (known r mem)

end Builder

end FlatRecord
