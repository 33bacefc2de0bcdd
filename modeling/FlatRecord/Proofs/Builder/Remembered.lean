import FlatRecord.Proofs.Builder.Aligned
import Mathlib.Order.Nat

/-! What the builder remembers beside its region: the largest alignment that was asked for, and the field tables. Steps
change the alignment only by raising it to what they ask for, so whatever such raises do not break holds after every
step, whether it fails or not. The tables change only when a record ends. -/
namespace FlatRecord.Builder

open Build

/-- The property survives when the alignment is asked for. -/
def Bears (P : Nat → Prop) (alignment : Nat) : Prop := ∀ n, P n → P (max n alignment)

/-- A step that keeps what holds of the builder, whether it fails or not. -/
def Preserves (I : Builder → Prop) (x : Build α) : Prop :=
  ∀ b, I b → Ends x b (fun _ b' => I b') fun _ b' => I b'

/-- A step after which the property still holds of the remembered alignment, whether the step fails or not. -/
def Remembers (P : Nat → Prop) (x : Build α) : Prop :=
  ∀ b, P b.minAlign → Ends x b (fun _ b' => P b'.minAlign) fun _ b' => P b'.minAlign

/-- The properties hold of the alignment and of the tables. -/
def Memory (P : Nat → Prop) (T : List Nat → Prop) (b : Builder) : Prop := P b.minAlign ∧ T b.tables

variable {P : Nat → Prop} {T : List Nat → Prop}

/-- The larger of two alignments is one of them. -/
theorem Bears.of_holds {alignment : Nat} (holds : P alignment) : Bears P alignment :=
  fun _ before => max_rec' P before holds

theorem Bears.max {m n : Nat} (first : Bears P m) (second : Bears P n) : Bears P (max m n) := by
  intro alignment before
  rw [← Nat.max_assoc]
  exact second _ (first _ before)

/-- Nothing that is asked for lowers the remembered alignment. -/
theorem bears_least (least alignment : Nat) : Bears (least ≤ ·) alignment :=
  fun _ before => Nat.le_trans before (Nat.le_max_left _ _)

section Rules

variable {I : Builder → Prop} {x : Build α} {f : α → Build β}

theorem preserves_pure (a : α) : Preserves I (pure a : Build α) := fun _ before => before

theorem preserves_throw (e : Error) : Preserves I (throw e : Build α) := fun _ before => before

theorem preserves_bind (first : Preserves I x) (rest : ∀ a, Preserves I (f a)) :
    Preserves I (x >>= f) := by
  intro b before
  rw [ends_bind]
  exact (first b before).mono (fun a b₁ between => rest a b₁ between) fun _ _ after => after

theorem preserves_map (f : α → β) (keeps : Preserves I x) : Preserves I (f <$> x) := by
  intro b before
  rw [ends_map]
  exact keeps b before

theorem preserves_get {f : Builder → Build α} (rest : ∀ b, I b → Preserves I (f b)) :
    Preserves I (get >>= f) := by
  intro b before
  rw [ends_bind, ends_get]
  exact rest b before b before

theorem preserves_modify {f : Builder → Builder} (keeps : ∀ b, I b → I (f b)) :
    Preserves I (modify f) := fun b before => keeps b before

theorem preserves_ofExcept (x : Except Error α) : Preserves I (ofExcept x : Build α) := by
  intro b before
  rw [ends_ofExcept]
  exact ⟨fun _ _ => before, fun _ _ => before⟩

theorem preserves_ite {c : Prop} [Decidable c] {x y : Build α} (yes : Preserves I x)
    (no : Preserves I y) : Preserves I (if c then x else y) := by
  split
  · exact yes
  · exact no

theorem preserves_forM {items : List α} {step : α → Build PUnit}
    (keeps : ∀ item, Preserves I (step item)) : Preserves I (items.forM step) := fun _ before =>
  ends_forM (I := fun _ b => I b) before fun _ item _ _ b between => keeps item b between

theorem preserves_mapM {items : List α} {step : α → Build β}
    (keeps : ∀ item, Preserves I (step item)) : Preserves I (items.mapM step) := fun _ before =>
  ends_mapM (I := fun _ _ b => I b) before fun _ item _ _ _ b between => keeps item b between

end Rules

section Steps

theorem preserves_write (bytes : List UInt8) : Preserves (Memory P T) (Builder.write bytes) :=
  preserves_get fun _ _ => preserves_bind (preserves_ofExcept _) fun _ =>
    preserves_modify fun _ before => before

theorem preserves_writeZeros (count : Nat) : Preserves (Memory P T) (writeZeros count) :=
  preserves_get fun _ _ => preserves_bind (preserves_ofExcept _) fun _ =>
    preserves_modify fun _ before => before

theorem preserves_overwrite (distance : Nat) (bytes : List UInt8) :
    Preserves (Memory P T) (overwrite distance bytes) :=
  preserves_get fun _ _ => preserves_bind (preserves_ofExcept _) fun _ =>
    preserves_modify fun _ before => before

theorem preserves_setStage (stage : Stage) : Preserves (Memory P T) (setStage stage) :=
  preserves_modify fun _ before => before

/-- The only step that asks for an alignment. -/
theorem preserves_align (length : Nat) {alignment : Nat} (bears : Bears P alignment) :
    Preserves (Memory P T) (align length alignment) :=
  preserves_bind (preserves_modify fun _ before => ⟨bears _ before.1, before.2⟩) fun _ =>
    preserves_get fun _ _ => preserves_writeZeros _

theorem preserves_ensureWritable : Preserves (Memory P T) ensureWritable :=
  preserves_get fun _ _ => preserves_ite (preserves_throw _) (preserves_pure _)

theorem preserves_ensureIdle : Preserves (Memory P T) ensureIdle := fun _ before =>
  ensureIdle_ends.mono (fun _ _ done => done.1 ▸ before) fun _ _ bad => bad.2.1 ▸ before

theorem preserves_checkRef (distance limit : Nat) : Preserves (Memory P T) (checkRef distance limit) :=
  preserves_ite (preserves_throw _) (preserves_pure _)

theorem preserves_checkSlot (slot : Nat) : Preserves (Memory P T) (checkSlot slot) := fun _ before =>
  (checkSlot_ends slot).mono (fun _ _ done => done.1 ▸ before) fun _ _ same => same ▸ before

theorem preserves_nextPlaces (size : Nat) : Preserves (Memory P T) (nextPlaces size) := fun _ before =>
  (nextPlaces_ends size).mono (fun _ _ done => done.1 ▸ before) fun _ _ same => same ▸ before

theorem preserves_hereAs (kind : ObjectKind) : Preserves (Memory P T) (hereAs kind) :=
  preserves_get fun _ _ => preserves_pure _

theorem preserves_fillElement (distance : Nat) (bytes : List UInt8) :
    Preserves (Memory P T) (fillElement distance bytes) :=
  preserves_bind (preserves_modify fun _ before => before) fun _ => preserves_overwrite _ _

theorem preserves_pushBytesElement (bytes : List UInt8) : Preserves (Memory P T) (pushBytesElement bytes) :=
  pushBytesElement_eq bytes ▸ preserves_bind preserves_ensureWritable fun _ =>
    preserves_bind (preserves_nextPlaces _) fun _ => preserves_fillElement _ _

theorem preserves_pushRef {kind : ObjectKind} (child : Ref kind) :
    Preserves (Memory P T) (Builder.pushRef child) :=
  pushRef_eq child ▸ preserves_bind preserves_ensureWritable fun _ => preserves_bind (preserves_nextPlaces _) fun _ =>
    preserves_bind (preserves_checkRef _ _) fun _ => preserves_fillElement _ _

theorem preserves_noteField (slot : Nat) : Preserves (Memory P T) (noteField slot) :=
  preserves_modify fun _ before => before

/-- A field is written behind the checks, and noted. -/
theorem preserves_field {x : Nat → Build Unit} (slot : Nat) (keeps : ∀ start, Preserves (Memory P T) (x start)) :
    Preserves (Memory P T) (do ensureWritable; x (← checkSlot slot)) :=
  preserves_bind preserves_ensureWritable fun _ => preserves_bind (preserves_checkSlot slot) keeps

theorem preserves_addStructField (slot : Nat) (bytes : List UInt8) {alignment : Nat}
    (bears : Bears P alignment) : Preserves (Memory P T) (addStructField slot bytes alignment) :=
  preserves_field slot fun _ => preserves_bind (preserves_align _ bears) fun _ =>
    preserves_bind (preserves_write bytes) fun _ => preserves_noteField slot

variable (small : ∀ k ≤ 3, Bears P (2 ^ k))

include small

theorem preserves_pushOffset (distance : Nat) : Preserves (Memory P T) (pushOffset distance) :=
  preserves_bind (preserves_align _ (small 2 (by decide))) fun _ => preserves_get fun _ _ =>
    preserves_write _

theorem preserves_pushScalar (v : Scalar) : Preserves (Memory P T) (Builder.pushScalar v) := by
  obtain ⟨k, below, power⟩ := v.type.size_power
  have bears : Bears P v.size := (show v.size = 2 ^ k from power) ▸ small k below
  exact preserves_bind preserves_ensureWritable fun _ =>
    preserves_bind (preserves_align _ bears) fun _ => preserves_write _

theorem preserves_createUnchecked (bytes : List UInt8) : Preserves (Memory P T) (createUnchecked bytes) := by
  refine preserves_bind preserves_ensureIdle fun _ => ?_
  split
  · exact preserves_get fun _ _ => preserves_throw _
  · exact preserves_bind (preserves_align _ (small 2 (by decide))) fun _ =>
      preserves_bind (preserves_write _) fun _ => preserves_bind (preserves_write _) fun _ =>
        preserves_bind (preserves_write _) fun _ => preserves_hereAs _

theorem preserves_createBytes (bytes : Bytes) : Preserves (Memory P T) (createBytes bytes) :=
  preserves_get fun _ _ => preserves_ite (preserves_throw _) (preserves_createUnchecked small _)

theorem preserves_startVector (length elementSize : Nat) {alignment : Nat}
    (bears : isPowerOfTwo alignment = true → Bears P alignment) :
    Preserves (Memory P T) (startVector length elementSize alignment) := by
  refine preserves_bind preserves_ensureIdle fun _ => ?_
  dsimp only
  split
  next => exact preserves_throw _
  next layout =>
    have power : isPowerOfTwo alignment = true := by simpa using (not_or.1 layout).2
    split
    · exact preserves_get fun _ _ => preserves_throw _
    · exact preserves_bind (preserves_align _ ((bears power).max (small 2 (by decide)))) fun _ =>
        preserves_bind (preserves_writeZeros _) fun _ => preserves_get fun _ _ =>
          preserves_setStage _

theorem preserves_endVector : Preserves (Memory P T) endVector := by
  refine preserves_bind preserves_ensureWritable fun _ => preserves_get fun b _ => ?_
  split
  next =>
    split
    · exact preserves_throw _
    · exact preserves_bind (preserves_setStage _) fun _ =>
        preserves_bind (preserves_pushScalar small _) fun _ => preserves_hereAs _
  next => exact preserves_throw _

/-- A vector of items, each pushed by a step of its own. -/
theorem preserves_vector {α : Type} (items : List α) {step : α → Build PUnit} (length size : Nat)
    {k : Nat} (below : k ≤ 3) (keeps : ∀ item, Preserves (Memory P T) (step item)) :
    Preserves (Memory P T) (do startVector length size (2 ^ k); items.forM step; endVector) :=
  preserves_bind (preserves_startVector small _ _ fun _ => small k below) fun _ =>
    preserves_bind (preserves_forM keeps) fun _ => preserves_endVector small

theorem preserves_createRefVector {kind : ObjectKind} (items : List (Ref kind)) :
    Preserves (Memory P T) (Builder.createRefVector items) :=
  preserves_vector small items _ _ (k := 2) (by decide) preserves_pushRef

theorem preserves_addField (slot : Nat) (value default : Scalar) :
    Preserves (Memory P T) (addField slot value default) :=
  preserves_field slot fun _ => preserves_get fun _ _ =>
    preserves_ite (preserves_pure _) <|
      preserves_bind (preserves_pushScalar small value) fun _ => preserves_noteField slot

theorem preserves_addRequiredField (slot : Nat) (value : Scalar) :
    Preserves (Memory P T) (addRequiredField slot value) :=
  preserves_field slot fun _ => preserves_bind (preserves_pushScalar small value) fun _ =>
    preserves_noteField slot

theorem preserves_addRefField (slot : Nat) {kind : ObjectKind} (child : Ref kind) :
    Preserves (Memory P T) (addRefField slot child) :=
  preserves_field slot fun _ => preserves_bind (preserves_checkRef _ _) fun _ =>
    preserves_bind (preserves_pushOffset small _) fun _ => preserves_noteField slot

theorem preserves_placeTable (lists : ∀ d tables, T tables → T (d :: tables)) (table : List UInt8) :
    Preserves (Memory P T) (placeTable table) := by
  refine preserves_get fun b _ => ?_
  split
  · exact preserves_pure _
  · exact preserves_bind (preserves_align _ (small 1 (by decide))) fun _ =>
      preserves_bind (preserves_write _) fun _ =>
        preserves_bind (preserves_modify fun _ before => ⟨before.1, lists _ _ before.2⟩) fun _ =>
          preserves_get fun _ _ => preserves_pure _

theorem preserves_endRecord (lists : ∀ d tables, T tables → T (d :: tables)) :
    Preserves (Memory P T) endRecord := by
  refine preserves_bind preserves_ensureWritable fun _ => preserves_get fun b _ => ?_
  split
  next =>
    refine preserves_get fun b _ => ?_
    dsimp only
    split
    · exact preserves_throw _
    · exact preserves_bind (preserves_pushScalar small _) fun _ => preserves_get fun _ _ =>
        preserves_bind (preserves_placeTable small lists _) fun _ =>
          preserves_bind (preserves_overwrite _ _) fun _ =>
            preserves_bind (preserves_setStage _) fun _ => preserves_pure _
  next => exact preserves_throw _

theorem preserves_finish (root : Ref .record) (identifier : Option Identifier)
    (sizePrefixed : Bool) : Preserves (Memory P T) (Builder.finish root identifier sizePrefixed) := by
  refine preserves_bind preserves_ensureWritable fun _ => preserves_get fun b _ => ?_
  have last : Preserves (Memory P T) (do setStage .finished; return (← get).region.data) :=
    preserves_bind (preserves_setStage _) fun _ => preserves_get fun _ _ => preserves_pure _
  have rest : Preserves (Memory P T) (do
      pushOffset root.distance
      if sizePrefixed then pushCount (← get).used
      setStage .finished
      return (← get).region.data) := by
    refine preserves_bind (preserves_pushOffset small _) fun _ => ?_
    split
    · exact preserves_get fun _ _ => preserves_bind (preserves_pushScalar small _) fun _ => last
    · exact last
  dsimp only
  split
  · exact preserves_throw _
  · refine preserves_get fun _ _ => preserves_bind (preserves_checkRef _ _) fun _ =>
      preserves_get fun _ before => ?_
    -- What is asked for here is what is remembered already, or what an offset asks for.
    have bears := (Bears.of_holds before.1).max (small 2 (by decide))
    refine preserves_bind (preserves_align _ bears) fun _ => ?_
    cases identifier with
    | none => exact rest
    | some id => exact preserves_bind (preserves_write _) fun _ => rest

/-- The alignment that the caller asks for, if the operation takes one that it accepts. -/
def Operation.Asks (P : Nat → Prop) : Operation → Prop
  | .startVector _ _ alignment => isPowerOfTwo alignment = true → Bears P alignment
  | .addStructField _ _ alignment => Bears P alignment
  | _ => True

theorem preserves_step {op : Operation} (asks : op.Asks P) (stays : op ≠ .reset)
    (lists : op = .endRecord → ∀ d tables, T tables → T (d :: tables)) :
    Preserves (Memory P T) op.step := by
  have done {x : Build Unit} (keeps : Preserves (Memory P T) x) : Preserves (Memory P T) (do x; return Answer.done) :=
    preserves_bind keeps fun _ => preserves_pure _
  cases op with
  | reset => exact absurd rfl stays
  | pushScalar v => exact done (preserves_pushScalar small v)
  | createText text => exact preserves_map _ (preserves_createUnchecked small _)
  | createBytes bytes => exact preserves_map _ (preserves_createBytes small bytes)
  | startVector length elementSize alignment => exact done (preserves_startVector small _ _ asks)
  | pushElement v => exact done (preserves_pushBytesElement _)
  | pushBytesElement bytes => exact done (preserves_pushBytesElement bytes)
  | pushRef kind child => exact done (preserves_pushRef child)
  | endVector => exact preserves_map _ (preserves_endVector small)
  | createVector type items =>
    obtain ⟨k, below, power⟩ := type.size_power
    have vector := preserves_vector (T := T) small items items.length type.size below
      fun v => preserves_pushBytesElement v.toBytes
    rw [← power] at vector
    exact preserves_map _ vector
  | createRefVector kind items => exact preserves_map _ (preserves_createRefVector small items)
  | createTextVector items =>
    exact preserves_map _ (preserves_bind
      (preserves_mapM fun _ => preserves_createUnchecked small _) fun _ =>
        preserves_createRefVector small _)
  | startRecord =>
    exact done (preserves_bind preserves_ensureIdle fun _ => preserves_get fun _ _ =>
      preserves_setStage _)
  | addField slot value default => exact done (preserves_addField small _ _ _)
  | addRequiredField slot value => exact done (preserves_addRequiredField small _ _)
  | addStructField slot bytes alignment => exact done (preserves_addStructField _ _ asks)
  | addRefField slot kind child => exact done (preserves_addRefField small slot child)
  | endRecord => exact preserves_map _ (preserves_endRecord small (lists rfl))
  | finish root identifier sizePrefixed => exact preserves_map _ (preserves_finish small _ _ _)

theorem remembers_step {op : Operation} (asks : op.Asks P) (stays : op ≠ .reset) : Remembers P op.step :=
  fun b before =>
    (preserves_step (T := fun _ => True) small asks stays (fun _ _ _ _ => trivial) b ⟨before, trivial⟩).mono
      (fun _ _ after => after.1) fun _ _ after => after.1

end Steps

/-- No other operation adds a table or forgets one. -/
theorem tables_step {op : Operation} (stays : op ≠ .reset) (other : op ≠ .endRecord) (b : Builder) :
    Ends op.step b (fun _ b' => b'.tables = b.tables) fun _ b' => b'.tables = b.tables := by
  have asks : op.Asks fun _ => True := by
    cases op with
    | startVector => exact fun _ _ _ => trivial
    | addStructField => exact fun _ _ => trivial
    | _ => trivial
  have keeps := preserves_step (T := (· = b.tables)) (fun _ _ _ _ => trivial) asks stays
    (fun same => absurd same other)
  exact (keeps b ⟨trivial, rfl⟩).mono (fun _ _ after => after.2) fun _ _ after => after.2

end FlatRecord.Builder
