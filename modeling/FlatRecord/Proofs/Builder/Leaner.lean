import FlatRecord.Builder.Finish
import FlatRecord.Proofs.Builder.Records
import FlatRecord.Proofs.Sizes
import Mathlib.Data.List.Forall2

/-! Two builders that are asked for the same, of which the first never has more written than the second. What comes
next is rounded up to a power of two, at which the shorter one is no longer than the other, however much the places of
things differ by then; where one of them leaves something out, it has to be the first. -/
namespace FlatRecord

open Builder Build

namespace Builder

/-- In the middle of the same kind of thing, and a record has no slots past those of the other. -/
inductive Stage.Within : Stage → Stage → Prop where
  | idle : Within .idle .idle
  | record {start start' : Nat} {fields fields' : List Field} (slots : slotCount fields ≤ slotCount fields') :
    Within (.record start fields) (.record start' fields')
  | vector {length length' pushed pushed' size size' first first' : Nat} :
    Within (.vector length pushed size first) (.vector length' pushed' size' first')
  | finished : Within .finished .finished

/-- Alignments no larger and no more fields. The other one shares no tables, and omits no default that this one
writes. -/
structure Kindred (b b' : Builder) : Prop where
  minAlign : ∃ j k, j ≤ k ∧ b.minAlign = 2 ^ j ∧ b'.minAlign = 2 ^ k
  stage : b.stage.Within b'.stage
  unshared : b'.config.shareTables = false
  forced : b.config.forceDefaults = true → b'.config.forceDefaults = true

/-- And no more written. -/
structure Leaner (b b' : Builder) : Prop extends Kindred b b' where
  used : b.used ≤ b'.used

/-- `b'` is `b` with more in front of what is written, at some power of two. -/
structure Grown (b b' : Builder) : Prop where
  used : b.used ≤ b'.used
  minAlign : ∃ k, b'.minAlign = max b.minAlign (2 ^ k)
  stage : b'.stage = b.stage
  config : b'.config = b.config

end Builder

/-- If both succeed, the answers are related and the first builder is leaner than the second. -/
def Leans (R : α → β → Prop) (r : EStateM.Result Error Builder α) (r' : EStateM.Result Error Builder β) : Prop :=
  ∀ a c a' c', r = .ok a c → r' = .ok a' c' → R a a' ∧ Leaner c c'

/-- Answers of which nothing is said, such as references: their distances differ, and lengths do not depend on them. -/
def Anyhow (_ : α) (_ : β) : Prop := True

variable {b b' c c' : Builder}

section Rules

variable {R : α → β → Prop} {S : γ → δ → Prop}

theorem leans_pure (lean : Leaner b b') {a : α} {a' : β} (related : R a a') :
    Leans R ((pure a : Build α).run b) ((pure a' : Build β).run b') := by
  intro _ _ _ _ run run'
  cases run
  cases run'
  exact ⟨related, lean⟩

theorem leans_error {x : Build α} {r : EStateM.Result Error Builder β} {e : Error}
    (failed : x.run b = .error e c) : Leans R (x.run b) r := by
  intro _ _ _ _ run
  cases failed.symm.trans run

theorem leans_error' {x : Build β} {r : EStateM.Result Error Builder α} {e : Error}
    (failed : x.run b' = .error e c) : Leans R r (x.run b') := by
  intro _ _ _ _ _ run
  cases failed.symm.trans run

theorem leans_bind {x : Build α} {x' : Build β} {f : α → Build γ} {f' : β → Build δ}
    (first : Leans R (x.run b) (x'.run b'))
    (rest : ∀ a a' c c', R a a' → Leaner c c' → Leans S ((f a).run c) ((f' a').run c')) :
    Leans S ((x >>= f).run b) ((x' >>= f').run b') := by
  intro _ _ _ _ run run'
  obtain ⟨a, c, run₁, run₂⟩ := run_bind_eq_ok run
  obtain ⟨a', c', run₁', run₂'⟩ := run_bind_eq_ok run'
  obtain ⟨related, lean⟩ := first _ _ _ _ run₁ run₁'
  exact rest a a' c c' related lean _ _ _ _ run₂ run₂'

theorem leans_map {x : Build α} {x' : Build β} {g : α → γ} {g' : β → δ} (first : Leans R (x.run b) (x'.run b'))
    (related : ∀ {a a'}, R a a' → S (g a) (g' a')) : Leans S ((g <$> x).run b) ((g' <$> x').run b') := by
  rw [map_eq_pure_bind, map_eq_pure_bind]
  exact leans_bind first fun _ _ _ _ before lean => leans_pure lean (related before)

theorem leans_get {f : Builder → Build α} {f' : Builder → Build β}
    (same : Leans R ((f b).run b) ((f' b').run b')) : Leans R ((get >>= f).run b) ((get >>= f').run b') := same

theorem leans_modify {g g' : Builder → Builder} (lean : Leaner (g b) (g' b')) :
    Leans Anyhow ((modify g : Build PUnit).run b) ((modify g' : Build PUnit).run b') := by
  intro _ _ _ _ run run'
  cases run
  cases run'
  exact ⟨trivial, lean⟩

/-- Behind a check that may stop either. -/
theorem leans_check {p p' : Prop} [Decidable p] [Decidable p'] {e e' : Error} {x : Build α} {x' : Build β}
    (rest : ¬p → ¬p' → Leans R (x.run b) (x'.run b')) :
    Leans R ((if p then throw e else x).run b) ((if p' then throw e' else x').run b') := by
  split
  · exact leans_error rfl
  split
  · exact leans_error' rfl
  next passes passes' => exact rest passes passes'

/-- Steps that leave the builder as it is. -/
theorem leans_still (lean : Leaner b b') {x : Build α} {x' : Build β} (keeps : ∀ {a c}, x.run b = .ok a c → c = b)
    (keeps' : ∀ {a c}, x'.run b' = .ok a c → c = b') : Leans Anyhow (x.run b) (x'.run b') := by
  intro _ _ _ _ run run'
  cases keeps run
  cases keeps' run'
  exact ⟨trivial, lean⟩

theorem leans_lift {x : Except Error γ} {f : γ → Build α} {g : γ → Build β}
    (rest : ∀ c, x = .ok c → Leans R ((f c).run b) ((g c).run b')) :
    Leans R ((ofExcept x >>= f).run b) ((ofExcept x >>= g).run b') := by
  cases x with
  | ok c => exact rest c rfl
  | error e => exact leans_error rfl

theorem leans_forM {items : List α} {items' : List β} {step : α → Build PUnit} {step' : β → Build PUnit}
    (related : List.Forall₂ R items items') (lean : Leaner b b')
    (each : ∀ item item' b b', R item item' → Leaner b b' →
      Leans Anyhow ((step item).run b) ((step' item').run b')) :
    Leans Anyhow ((items.forM step).run b) ((items'.forM step').run b') := by
  induction related generalizing b b' with
  | nil => exact leans_pure lean trivial
  | cons head _ ih => exact leans_bind (each _ _ b b' head lean) fun _ _ _ _ _ lean => ih lean

/-- The same items in both. -/
theorem leans_each {items : List α} {step : α → Build PUnit} (lean : Leaner b b')
    (each : ∀ item b b', Leaner b b' → Leans Anyhow ((step item).run b) ((step item).run b')) :
    Leans Anyhow ((items.forM step).run b) ((items.forM step).run b') :=
  leans_forM (List.forall₂_same.2 fun _ _ => rfl) lean fun item _ b b' same lean => same ▸ each item b b' lean

theorem leans_mapM {items : List α} {step : α → Build γ} {step' : α → Build δ} (lean : Leaner b b')
    (each : ∀ item b b', Leaner b b' → Leans S ((step item).run b) ((step' item).run b')) :
    Leans (List.Forall₂ S) ((items.mapM step).run b) ((items.mapM step').run b') := by
  induction items generalizing b b' with
  | nil => exact leans_pure lean .nil
  | cons item rest ih =>
    rw [List.mapM_cons, List.mapM_cons]
    exact leans_bind (each item b b' lean) fun _ _ _ _ head lean =>
      leans_bind (ih lean) fun _ _ _ _ tail lean => leans_pure lean (.cons head tail)

end Rules

section Writing

theorem Builder.Leaner.grown (lean : Leaner b b') (grown : Grown b' c') : Leaner b c' := by
  obtain ⟨j, k, finer, least, least'⟩ := lean.minAlign
  obtain ⟨n, raised⟩ := grown.minAlign
  rw [least', max_two_pow] at raised
  refine ⟨⟨⟨j, max k n, by omega, least, raised⟩, ?_, ?_, fun forces => ?_⟩, Nat.le_trans lean.used grown.used⟩
  · rw [grown.stage]
    exact lean.stage
  · rw [grown.config]
    exact lean.unshared
  · rw [grown.config]
    exact lean.forced forces

theorem Builder.Leaner.withStage (lean : Leaner b b') {stage stage' : Stage} (within : stage.Within stage') :
    Leaner (b.withStage stage) (b'.withStage stage') :=
  ⟨⟨lean.minAlign, within, lean.unshared, lean.forced⟩, lean.used⟩

/-- New builders. -/
theorem ofConfig_leaner (config config' : Config) (unshared : config'.shareTables = false)
    (forced : config.forceDefaults = true → config'.forceDefaults = true) :
    Leaner (ofConfig config) (ofConfig config') :=
  ⟨⟨⟨0, 0, Nat.le_refl 0, rfl, rfl⟩, .idle, unshared, forced⟩, Nat.le_refl 0⟩

theorem write_eq_ok {bytes : List UInt8} {a : Unit} (run : (Builder.write bytes).run b = .ok a c) :
    ∃ capacity, c = b.extended capacity bytes := by
  rw [run_write] at run
  cases granted : b.region.room bytes.length <;> rw [granted] at run <;> cases run
  exact ⟨_, rfl⟩

theorem used_extended (b : Builder) (capacity : Nat) (bytes : List UInt8) :
    (b.extended capacity bytes).used = b.used + bytes.length := b.region.used_extend capacity bytes

/-- The padding, with the alignment kept in mind. -/
theorem align_eq_ok {length alignment : Nat} {a : Unit} (run : (align length alignment).run b = .ok a c) :
    ∃ capacity, c = { b with minAlign := max b.minAlign alignment }.extended capacity
      (zeros (padding (b.used + length) alignment)) := by
  obtain ⟨_, _, raised, run⟩ := run_bind_eq_ok run
  cases raised
  rw [run_get, writeZeros_eq] at run
  exact write_eq_ok run

/-- Writing changes nothing else. -/
theorem Builder.Kindred.extended (kindred : Kindred b b') (capacity capacity' : Nat) {bytes bytes' : List UInt8}
    (less : b.used + bytes.length ≤ b'.used + bytes'.length) :
    Leaner (b.extended capacity bytes) (b'.extended capacity' bytes') := by
  rw [← used_extended b capacity, ← used_extended b' capacity'] at less
  exact ⟨⟨kindred.minAlign, kindred.stage, kindred.unshared, kindred.forced⟩, less⟩

theorem leans_write (lean : Leaner b b') {bytes bytes' : List UInt8} (shorter : bytes.length ≤ bytes'.length) :
    Leans Anyhow ((Builder.write bytes).run b) ((Builder.write bytes').run b') := by
  intro _ _ _ _ run run'
  obtain ⟨capacity, rfl⟩ := write_eq_ok run
  obtain ⟨capacity', rfl⟩ := write_eq_ok run'
  exact ⟨trivial, lean.extended _ _ (Nat.add_le_add lean.used shorter)⟩

/-- What follows the padding is still to come, and does not end later in the first builder. -/
theorem align_kindred (lean : Leaner b b') {length length' j k : Nat} (shorter : length ≤ length') (finer : j ≤ k)
    {a a' : Unit} (run : (align length (2 ^ j)).run b = .ok a c) (run' : (align length' (2 ^ k)).run b' = .ok a' c') :
    Kindred c c' ∧ c.used + length ≤ c'.used + length' := by
  obtain ⟨capacity, rfl⟩ := align_eq_ok run
  obtain ⟨capacity', rfl⟩ := align_eq_ok run'
  obtain ⟨m, n, less, least, least'⟩ := lean.minAlign
  have padded := add_padding_le (Nat.add_le_add lean.used shorter) finer
  refine ⟨⟨⟨max m j, max n k, by omega, ?_, ?_⟩, lean.stage, lean.unshared, lean.forced⟩, ?_⟩
  · exact least ▸ max_two_pow m j
  · exact least' ▸ max_two_pow n k
  · simp only [used_extended, length_zeros]
    simp only [Builder.used] at padded ⊢
    omega

theorem leans_align (lean : Leaner b b') (length : Nat) {j k : Nat} (finer : j ≤ k) :
    Leans Anyhow ((align length (2 ^ j)).run b) ((align length (2 ^ k)).run b') := by
  intro _ _ _ _ run run'
  obtain ⟨kindred, padded⟩ := align_kindred lean (Nat.le_refl length) finer run run'
  exact ⟨trivial, kindred, Nat.le_of_add_le_add_right padded⟩

theorem leans_ensureWritable (lean : Leaner b b') :
    Leans Anyhow (ensureWritable.run b) (ensureWritable.run b') :=
  leans_still lean (fun run => (ensureWritable_ends.of_ok run).1) fun run => (ensureWritable_ends.of_ok run).1

theorem leans_ensureIdle (lean : Leaner b b') : Leans Anyhow (ensureIdle.run b) (ensureIdle.run b') :=
  leans_still lean (fun run => (ensureIdle_ends.of_ok run).1) fun run => (ensureIdle_ends.of_ok run).1

theorem leans_checkRef (lean : Leaner b b') (distance bound distance' bound' : Nat) :
    Leans Anyhow ((checkRef distance bound).run b) ((checkRef distance' bound').run b') :=
  leans_still lean (fun run => ((checkRef_ends _ _).of_ok run).1) fun run => ((checkRef_ends _ _).of_ok run).1

theorem leans_setStage (lean : Leaner b b') {stage stage' : Stage} (within : stage.Within stage') :
    Leans Anyhow ((setStage stage).run b) ((setStage stage').run b') := leans_modify (lean.withStage within)

theorem leans_hereAs (lean : Leaner b b') (kind kind' : ObjectKind) :
    Leans Anyhow ((hereAs kind).run b) ((hereAs kind').run b') := leans_get (leans_pure lean trivial)

/-- The offset takes the same room wherever it leads. -/
theorem leans_pushOffset (lean : Leaner b b') (distance distance' : Nat) :
    Leans Anyhow ((pushOffset distance).run b) ((pushOffset distance').run b') :=
  leans_bind (leans_align (j := 2) (k := 2) lean _ (Nat.le_refl 2)) fun _ _ _ _ _ lean => leans_get <|
    leans_write lean (Nat.le_of_eq (by rw [LittleEndian.length_encode, LittleEndian.length_encode]))

theorem leans_pushScalar (lean : Leaner b b') {v v' : Scalar} (same : v.type = v'.type) :
    Leans Anyhow ((Builder.pushScalar v).run b) ((Builder.pushScalar v').run b') := by
  have size : v.size = v'.size := congrArg ScalarType.size same
  obtain ⟨k, -, power⟩ := v.type.size_power
  have power : v.size = 2 ^ k := power
  refine leans_bind (leans_ensureWritable lean) fun _ _ _ _ _ lean => ?_
  rw [← size, power]
  refine leans_bind (leans_align lean _ (Nat.le_refl k)) fun _ _ _ _ _ lean => leans_write lean ?_
  exact Nat.le_of_eq (by rw [Scalar.length_toBytes, Scalar.length_toBytes, size])

end Writing

section Objects

theorem leans_createUnchecked (lean : Leaner b b') (bytes : List UInt8) :
    Leans Anyhow ((createUnchecked bytes).run b) ((createUnchecked bytes).run b') := by
  refine leans_bind (leans_ensureIdle lean) fun _ _ _ _ _ lean => ?_
  split
  · exact leans_error rfl
  · exact leans_bind (leans_align (j := 2) (k := 2) lean _ (Nat.le_refl 2)) fun _ _ _ _ _ lean =>
      leans_bind (leans_write lean (Nat.le_refl _)) fun _ _ _ _ _ lean =>
        leans_bind (leans_write lean (Nat.le_refl _)) fun _ _ _ _ _ lean =>
          leans_bind (leans_write lean (Nat.le_refl _)) fun _ _ _ _ _ lean => leans_hereAs lean _ _

theorem leans_createBytes (lean : Leaner b b') (bytes : Bytes) :
    Leans Anyhow ((Builder.createBytes bytes).run b) ((Builder.createBytes bytes).run b') :=
  leans_get <| leans_check fun _ _ => leans_createUnchecked lean _

theorem leans_startVector (lean : Leaner b b') (length elementSize alignment : Nat) :
    Leans Anyhow ((Builder.startVector length elementSize alignment).run b)
      ((Builder.startVector length elementSize alignment).run b') := by
  refine leans_bind (leans_ensureIdle lean) fun _ _ _ _ _ lean => leans_check fun layout _ => ?_
  obtain ⟨-, power⟩ := not_or.1 layout
  obtain ⟨k, rfl⟩ := (isPowerOfTwo_iff alignment).1 (by simpa using power)
  dsimp only
  split
  · exact leans_error rfl
  have largest : max (2 ^ k) offsetSize = 2 ^ max k 2 := max_two_pow k 2
  rw [largest, writeZeros_eq]
  exact leans_bind (leans_align lean _ (Nat.le_refl _)) fun _ _ _ _ _ lean =>
    leans_bind (leans_write lean (Nat.le_refl _)) fun _ _ _ _ _ lean =>
      leans_get (leans_setStage lean .vector)

theorem leans_overwrite (lean : Leaner b b') (distance distance' : Nat) (bytes bytes' : List UInt8) :
    Leans Anyhow ((overwrite distance bytes).run b) ((overwrite distance' bytes').run b') := by
  have still (x : Except Error Unit) {b c : Builder} {a : Unit} (run : (ofExcept x : Build Unit).run b = .ok a c) :
      c = b := by
    cases x <;> cases run
    rfl
  exact leans_get <| leans_bind (leans_still lean (still _) (still _)) fun _ _ _ _ _ lean => leans_modify
    ⟨⟨lean.minAlign, lean.stage, lean.unshared, lean.forced⟩, lean.used⟩

theorem Builder.Stage.Within.countElement {stage stage' : Stage} (within : stage.Within stage') :
    stage.countElement.Within stage'.countElement := by
  cases within with
  | idle => exact .idle
  | record slots => exact .record slots
  | vector => exact .vector
  | finished => exact .finished

theorem leans_fillElement (lean : Leaner b b') (distance distance' : Nat) (bytes bytes' : List UInt8) :
    Leans Anyhow ((fillElement distance bytes).run b) ((fillElement distance' bytes').run b') :=
  leans_bind (leans_modify (lean.withStage lean.stage.countElement)) fun _ _ _ _ _ lean =>
    leans_overwrite lean _ _ _ _

theorem leans_nextPlaces (lean : Leaner b b') (size : Nat) :
    Leans Anyhow ((nextPlaces size).run b) ((nextPlaces size).run b') :=
  leans_still lean (fun run => ((nextPlaces_ends _).of_ok run).1) fun run => ((nextPlaces_ends _).of_ok run).1

theorem leans_pushBytesElement (lean : Leaner b b') (bytes : List UInt8) :
    Leans Anyhow ((pushBytesElement bytes).run b) ((pushBytesElement bytes).run b') :=
  pushBytesElement_eq bytes ▸ leans_bind (leans_ensureWritable lean) fun _ _ _ _ _ lean =>
    leans_bind (leans_nextPlaces lean _) fun _ _ _ _ _ lean => leans_fillElement lean _ _ _ _

theorem leans_pushRef (lean : Leaner b b') {kind : ObjectKind} (child child' : Ref kind) :
    Leans Anyhow ((Builder.pushRef child).run b) ((Builder.pushRef child').run b') := by
  rw [pushRef_eq, pushRef_eq]
  exact leans_bind (leans_ensureWritable lean) fun _ _ _ _ _ lean =>
    leans_bind (leans_nextPlaces lean _) fun _ _ _ _ _ lean =>
      leans_bind (leans_checkRef lean _ _ _ _) fun _ _ _ _ _ lean => leans_fillElement lean _ _ _ _

theorem leans_endVector (lean : Leaner b b') : Leans Anyhow (endVector.run b) (endVector.run b') := by
  refine leans_bind (leans_ensureWritable lean) fun _ _ c c' _ lean => leans_get ?_
  cases stage : c.stage with
  | vector length pushed size first =>
    cases stage' : c'.stage with
    | vector length' pushed' size' first' =>
      exact leans_check fun _ _ => leans_bind (leans_setStage lean .idle) fun _ _ _ _ _ lean =>
        leans_bind (leans_pushScalar lean rfl) fun _ _ _ _ _ lean => leans_hereAs lean _ _
    | idle | record | finished => exact leans_error' rfl
  | idle | record | finished => exact leans_error rfl

theorem leans_createRefVector (lean : Leaner b b') {kind : ObjectKind} {items items' : List (Ref kind)}
    (related : List.Forall₂ Anyhow items items') :
    Leans Anyhow ((createRefVector items).run b) ((createRefVector items').run b') := by
  rw [createRefVector, createRefVector, related.length_eq]
  exact leans_bind (leans_startVector lean _ _ _) fun _ _ _ _ _ lean =>
    leans_bind (leans_forM related lean fun _ _ _ _ _ lean => leans_pushRef lean _ _) fun _ _ _ _ _ lean =>
      leans_endVector lean

end Objects

section Records

theorem slotCount_cons (f : Field) (fields : List Field) :
    slotCount (f :: fields) = max (f.slot + 1) (slotCount fields) := by
  apply Nat.le_antisymm
  · refine slotCount_le fun g mem => ?_
    rcases List.mem_cons.1 mem with rfl | mem
    · omega
    · have below := slot_lt_slotCount mem
      omega
  · have first := slot_lt_slotCount (List.mem_cons_self (a := f) (l := fields))
    have rest : slotCount fields ≤ slotCount (f :: fields) :=
      slotCount_le fun g mem => slot_lt_slotCount (List.mem_cons_of_mem f mem)
    omega

theorem Builder.Stage.Within.addField {stage stage' : Stage} (within : stage.Within stage') (slot d d' : Nat) :
    (stage.addField ⟨slot, d⟩).Within (stage'.addField ⟨slot, d'⟩) := by
  cases within with
  | idle => exact .idle
  | record slots =>
    refine .record ?_
    rw [slotCount_cons, slotCount_cons]
    dsimp only
    omega
  | vector => exact .vector
  | finished => exact .finished

/-- A field that only the second record has. -/
theorem Builder.Stage.Within.omitField {stage stage' : Stage} (within : stage.Within stage') (f : Field) :
    stage.Within (stage'.addField f) := by
  cases within with
  | idle => exact .idle
  | record slots =>
    refine .record ?_
    rw [slotCount_cons]
    omega
  | vector => exact .vector
  | finished => exact .finished

theorem leans_startRecord (lean : Leaner b b') : Leans Anyhow (startRecord.run b) (startRecord.run b') :=
  leans_bind (leans_ensureIdle lean) fun _ _ _ _ _ lean =>
    leans_get (leans_setStage lean (.record (Nat.le_refl _)))

theorem leans_checkSlot (lean : Leaner b b') (slot : Nat) :
    Leans Anyhow ((checkSlot slot).run b) ((checkSlot slot).run b') :=
  leans_still lean (fun run => ((checkSlot_ends _).of_ok run).1) fun run => ((checkSlot_ends _).of_ok run).1

theorem leans_noteField (lean : Leaner b b') (slot : Nat) :
    Leans Anyhow ((noteField slot).run b) ((noteField slot).run b') :=
  leans_modify (lean.withStage (lean.stage.addField slot _ _))

/-- Bytes with their padding. -/
theorem align_write_grows {length k : Nat} {bytes : List UInt8} {a a' : Unit}
    (padded : (align length (2 ^ k)).run b = .ok a b') (written : (Builder.write bytes).run b' = .ok a' c) :
    Grown b c := by
  obtain ⟨capacity, rfl⟩ := align_eq_ok padded
  obtain ⟨capacity', rfl⟩ := write_eq_ok written
  refine ⟨?_, ⟨k, rfl⟩, rfl, rfl⟩
  rw [used_extended, used_extended]
  exact Nat.le_trans (Nat.le_add_right _ _) (Nat.le_add_right _ _)

theorem pushScalar_grows {v : Scalar} {a : Unit} (run : (Builder.pushScalar v).run b = .ok a c) : Grown b c := by
  obtain ⟨_, b₁, writable, placed⟩ := run_bind_eq_ok run
  obtain ⟨rfl, -⟩ := ensureWritable_ends.of_ok writable
  obtain ⟨_, b₂, padded, written⟩ := run_bind_eq_ok placed
  obtain ⟨k, -, power⟩ := v.type.size_power
  have power : v.size = 2 ^ k := power
  rw [power] at padded
  exact align_write_grows padded written

theorem leans_scalarField (lean : Leaner b b') (slot : Nat) (value : Scalar) :
    Leans Anyhow ((do Builder.pushScalar value; noteField slot).run b)
      ((do Builder.pushScalar value; noteField slot).run b') :=
  leans_bind (leans_pushScalar lean rfl) fun _ _ _ _ _ lean => leans_noteField lean slot

/-- If only one of them leaves the field out, it is the first. -/
theorem leans_addField (lean : Leaner b b') (slot : Nat) (value default : Scalar) :
    Leans Anyhow ((Builder.addField slot value default).run b) ((Builder.addField slot value default).run b') := by
  refine leans_bind (leans_ensureWritable lean) fun _ _ _ _ _ lean =>
    leans_bind (leans_checkSlot lean slot) fun _ _ c c' _ lean => leans_get ?_
  split
  next omits =>
    split
    · exact leans_pure lean trivial
    · intro _ _ _ _ run run'
      cases run
      obtain ⟨_, d, pushed, noted⟩ := run_bind_eq_ok run'
      cases noted
      have grown := lean.grown (pushScalar_grows pushed)
      exact ⟨trivial, ⟨grown.minAlign, grown.stage.omitField _, grown.unshared, grown.forced⟩, grown.used⟩
  next writes =>
    split
    next omits =>
      have unforced : c.config.forceDefaults = false := by
        cases forces : c.config.forceDefaults with
        | false => rfl
        | true => simp [lean.forced forces] at omits
      exact absurd ⟨omits.1, by rw [unforced]; rfl⟩ writes
    · exact leans_scalarField lean slot value

theorem leans_addRequiredField (lean : Leaner b b') (slot : Nat) (value : Scalar) :
    Leans Anyhow ((Builder.addRequiredField slot value).run b)
      ((Builder.addRequiredField slot value).run b') :=
  leans_bind (leans_ensureWritable lean) fun _ _ _ _ _ lean =>
    leans_bind (leans_checkSlot lean slot) fun _ _ _ _ _ lean => leans_scalarField lean slot value

theorem leans_addStructField (lean : Leaner b b') (slot : Nat) (bytes : List UInt8) {alignment : Nat}
    (power : isPowerOfTwo alignment = true) :
    Leans Anyhow ((Builder.addStructField slot bytes alignment).run b)
      ((Builder.addStructField slot bytes alignment).run b') := by
  obtain ⟨k, rfl⟩ := (isPowerOfTwo_iff alignment).1 power
  exact leans_bind (leans_ensureWritable lean) fun _ _ _ _ _ lean =>
    leans_bind (leans_checkSlot lean slot) fun _ _ _ _ _ lean =>
      leans_bind (leans_align lean _ (Nat.le_refl k)) fun _ _ _ _ _ lean =>
        leans_bind (leans_write lean (Nat.le_refl _)) fun _ _ _ _ _ lean => leans_noteField lean slot

theorem leans_addRefField (lean : Leaner b b') (slot : Nat) {kind : ObjectKind} (child child' : Ref kind) :
    Leans Anyhow ((Builder.addRefField slot child).run b) ((Builder.addRefField slot child').run b') :=
  leans_bind (leans_ensureWritable lean) fun _ _ _ _ _ lean =>
    leans_bind (leans_checkSlot lean slot) fun _ _ _ _ _ lean =>
      leans_bind (leans_checkRef lean _ _ _ _) fun _ _ _ _ _ lean =>
        leans_bind (leans_pushOffset lean _ _) fun _ _ _ _ _ lean => leans_noteField lean slot

theorem writeTable_eq_ok {table : List UInt8} {d : Nat} (run : (writeTable table).run b = .ok d c) :
    ∃ c₁ c₂, (align table.length entrySize).run b = .ok ⟨⟩ c₁ ∧ (Builder.write table).run c₁ = .ok ⟨⟩ c₂ ∧
      c = { c₂ with tables := c₂.used :: c₂.tables } := by
  obtain ⟨_, c₁, padded, run⟩ := run_bind_eq_ok run
  obtain ⟨_, c₂, written, run⟩ := run_bind_eq_ok run
  cases run
  exact ⟨c₁, c₂, padded, written, rfl⟩

theorem writeTable_grows {table : List UInt8} {d : Nat} (run : (writeTable table).run b = .ok d c) : Grown b c := by
  obtain ⟨c₁, c₂, padded, written, rfl⟩ := writeTable_eq_ok run
  have grown := align_write_grows (k := 1) padded written
  exact ⟨grown.used, grown.minAlign, grown.stage, grown.config⟩

theorem leans_writeTable (lean : Leaner b b') {table table' : List UInt8} (shorter : table.length ≤ table'.length) :
    Leans Anyhow ((writeTable table).run b) ((writeTable table').run b') := by
  intro _ _ _ _ run run'
  obtain ⟨c₁, c₂, padded, written, rfl⟩ := writeTable_eq_ok run
  obtain ⟨c₁', c₂', padded', written', rfl⟩ := writeTable_eq_ok run'
  obtain ⟨kindred, less⟩ := align_kindred (j := 1) (k := 1) lean shorter (Nat.le_refl 1) padded padded'
  obtain ⟨capacity, rfl⟩ := write_eq_ok written
  obtain ⟨capacity', rfl⟩ := write_eq_ok written'
  have lean := kindred.extended capacity capacity' less
  exact ⟨trivial, ⟨lean.minAlign, lean.stage, lean.unshared, lean.forced⟩, lean.used⟩

/-- The first builder may find the table among those it has; the second one always writes it. -/
theorem leans_placeTable (lean : Leaner b b') {table table' : List UInt8} (shorter : table.length ≤ table'.length) :
    Leans Anyhow ((placeTable table).run b) ((placeTable table').run b') := by
  refine leans_get ?_
  rw [lean.unshared]
  split
  · intro _ _ _ _ run run'
    cases run
    exact ⟨trivial, lean.grown (writeTable_grows run')⟩
  · exact leans_writeTable lean shorter

theorem leans_endRecord (lean : Leaner b b') : Leans Anyhow (endRecord.run b) (endRecord.run b') := by
  refine leans_bind (leans_ensureWritable lean) fun _ _ c c' _ lean => leans_get ?_
  have within := lean.stage
  generalize c.stage = stage, c'.stage = stage' at within ⊢
  cases within with
  | record slots =>
    refine leans_get <| leans_check fun _ _ => leans_bind (leans_pushScalar lean rfl) fun _ _ _ _ _ lean =>
      leans_get <| leans_bind (leans_placeTable lean ?_) fun _ _ _ _ _ lean =>
        leans_bind (leans_overwrite lean _ _ _ _) fun _ _ _ _ _ lean =>
          leans_bind (leans_setStage lean .idle) fun _ _ _ _ _ lean => leans_pure lean trivial
    rw [length_tableBytes, length_tableBytes]
    exact Nat.add_le_add_left (Nat.mul_le_mul_right _ slots) _
  | idle | vector | finished => exact leans_error rfl

theorem leans_finish (lean : Leaner b b') (root root' : Ref .record) (identifier : Option Identifier)
    (sizePrefixed : Bool) :
    Leans Anyhow ((Builder.finish root identifier sizePrefixed).run b)
      ((Builder.finish root' identifier sizePrefixed).run b') := by
  have closes {c c' : Builder} (lean : Leaner c c') :
      Leans Anyhow ((do setStage .finished; return (← get).region.data : Build Bytes).run c)
        ((do setStage .finished; return (← get).region.data : Build Bytes).run c') :=
    leans_bind (leans_setStage lean .finished) fun _ _ _ _ _ lean => leans_get (leans_pure lean trivial)
  have heads {c c' : Builder} (lean : Leaner c c') :
      Leans Anyhow ((do
          pushOffset root.distance
          if sizePrefixed then pushCount (← get).used
          setStage .finished
          return (← get).region.data : Build Bytes).run c)
        ((do
          pushOffset root'.distance
          if sizePrefixed then pushCount (← get).used
          setStage .finished
          return (← get).region.data : Build Bytes).run c') := by
    refine leans_bind (leans_pushOffset lean _ _) fun _ _ _ _ _ lean => ?_
    cases sizePrefixed with
    | false => exact closes lean
    | true => exact leans_get <| leans_bind (leans_pushScalar lean rfl) fun _ _ _ _ _ lean => closes lean
  refine leans_bind (leans_ensureWritable lean) fun _ _ _ _ _ lean => leans_get <| leans_check fun _ _ =>
    leans_get <| leans_bind (leans_checkRef lean _ _ _ _) fun _ _ c c' _ lean => leans_get ?_
  obtain ⟨j, k, finer, least, least'⟩ := lean.minAlign
  have largest : max c.minAlign offsetSize = 2 ^ max j 2 := least ▸ max_two_pow j 2
  have largest' : max c'.minAlign offsetSize = 2 ^ max k 2 := least' ▸ max_two_pow k 2
  rw [largest, largest']
  refine leans_bind (leans_align lean _ (by omega)) fun _ _ _ _ _ lean => ?_
  cases identifier with
  | none => exact heads lean
  | some id => exact leans_bind (leans_write lean (Nat.le_refl _)) fun _ _ _ _ _ lean => heads lean

end Records

end FlatRecord
