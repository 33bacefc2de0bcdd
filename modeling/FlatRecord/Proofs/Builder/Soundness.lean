import FlatRecord.Builder.Operation
import FlatRecord.Proofs.Builder.Finishing
import FlatRecord.Proofs.Builder.Records

/-! What holds of a builder after any operations whatever, failed and senseless ones among them. The bytes
below an open object, and all bytes while none is open, are never changed again. -/
namespace FlatRecord

open Builder Build

namespace Builder

/-- The distance below which nothing changes any more. -/
def floor (b : Builder) : Nat :=
  match b.stage with
  | .vector length _ elementSize first => first - length * elementSize
  | .record start _ => start
  | .idle | .finished => b.used

/-- The bytes that no later step changes. -/
def settled (b : Builder) : List UInt8 := b.written.drop (b.written.length - b.floor)

structure Sound (b : Builder) : Prop where
  region : b.RegionSound
  fits : b.stage.Fits b.used
  tables : ∀ d ∈ b.tables, TableSaved b.settled d

/-- From one sound builder to another, with what was settled kept. -/
structure Advances (b b' : Builder) : Prop where
  sound : b'.Sound
  kept : b.settled <:+ b'.settled
  config : b'.config = b.config

variable {b b' b'' : Builder}

theorem floor_le (fits : b.stage.Fits b.used) : b.floor ≤ b.used := by
  simp only [floor]
  cases stage : b.stage with
  | vector length pushed size first => rw [stage] at fits; have := fits.2.2; dsimp only; omega
  | record start fields => rw [stage] at fits; exact fits.1
  | idle | finished => exact Nat.le_refl _

theorem Sound.length_settled (sound : b.Sound) : b.settled.length = b.floor := by
  have inside := floor_le sound.fits
  rw [settled, List.length_drop, sound.region.length_written]
  omega

theorem settled_suffix_written (b : Builder) : b.settled <:+ b.written := List.drop_suffix _ _

/-- While no object is open, everything is settled. -/
theorem settled_eq_written (sound : b.RegionSound) (free : b.floor = b.used) :
    b.settled = b.written := by
  rw [settled, free, sound.length_written, Nat.sub_self, List.drop_zero]

theorem floor_idle (idle : b.stage = .idle) : b.floor = b.used := by rw [floor, idle]

theorem floor_finished (finished : b.stage = .finished) : b.floor = b.used := by
  rw [floor, finished]

theorem Sound.settled_idle (sound : b.Sound) (idle : b.stage = .idle) : b.settled = b.written :=
  settled_eq_written sound.region (floor_idle idle)

theorem Sound.tables_written (sound : b.Sound) : ∀ d ∈ b.tables, TableSaved b.written d :=
  fun d mem => (sound.tables d mem).of_suffix (settled_suffix_written b)

theorem Advances.refl (sound : b.Sound) : Advances b b := ⟨sound, List.suffix_refl _, rfl⟩

theorem Advances.of_eq (sound : b.Sound) (same : b' = b) : Advances b b' := same.symm ▸ .refl sound

theorem Advances.trans (before : Advances b b') (after : Advances b' b'') : Advances b b'' :=
  ⟨after.sound, before.kept.trans after.kept, after.config.trans before.config⟩

/-- What was settled is no longer than what is. -/
theorem Advances.floor_le (sound : b.Sound) (advances : Advances b b') : b.floor ≤ b'.floor := by
  rw [← sound.length_settled, ← advances.sound.length_settled]
  exact advances.kept.length_le

/-- What was settled is settled still when it is still there and no deeper object is open. -/
theorem kept_of_floor {b b' : Builder} (fits : b'.stage.Fits b'.used) (region : b'.RegionSound)
    (sound : b.Sound) (kept : b.settled <:+ b'.written) (floor : b.floor ≤ b'.floor) :
    b.settled <:+ b'.settled := by
  apply List.suffix_of_suffix_length_le kept (settled_suffix_written b')
  have inside := floor_le fits
  rw [sound.length_settled, settled, List.length_drop, region.length_written]
  omega

theorem advances_of (sound : b.Sound) (region : b'.RegionSound) (fits : b'.stage.Fits b'.used)
    (kept : b.settled <:+ b'.written) (floor : b.floor ≤ b'.floor) (tables : b'.tables = b.tables)
    (config : b'.config = b.config) : Advances b b' := by
  have same := kept_of_floor fits region sound kept floor
  exact ⟨⟨region, fits, fun d mem => (sound.tables d (tables ▸ mem)).of_suffix same⟩, same, config⟩

theorem Stage.Fits.mono {stage : Stage} {used used' : Nat} (fits : stage.Fits used)
    (more : used ≤ used') : stage.Fits used' := by
  cases stage with
  | vector length pushed size first => exact ⟨fits.1, fits.2.1, Nat.le_trans fits.2.2 more⟩
  | record start fields =>
    refine ⟨Nat.le_trans fits.1 more, fun f mem => ?_, fits.2.2⟩
    obtain ⟨low, high, small⟩ := fits.2.1 f mem
    exact ⟨low, Nat.le_trans high more, small⟩
  | idle | finished => trivial

theorem Adds.suffix {bytes : List UInt8} (adds : Adds b bytes b') : b.written <:+ b'.written :=
  ⟨bytes, adds.written.symm⟩

theorem Adds.advances {bytes : List UInt8} (adds : Adds b bytes b') (sound : b.Sound) :
    Advances b b' := by
  have used := adds.used sound.region
  have fits := sound.fits.mono (show b.used ≤ b'.used by omega)
  refine advances_of sound adds.region (adds.stage ▸ fits)
    ((settled_suffix_written b).trans adds.suffix) ?_ adds.tables adds.config
  simp only [floor]
  rw [adds.stage]
  split <;> omega

theorem Littered.advances (littered : Littered b b') (sound : b.Sound) : Advances b b' :=
  let ⟨_, adds⟩ := littered
  adds.advances sound

/-- The open object is closed or given up, or one begins that has nothing yet. -/
theorem advances_withStage (sound : b.Sound) (stage : Stage) (fits : stage.Fits b.used)
    (floor : b.floor ≤ (b.withStage stage).floor) : Advances b (b.withStage stage) :=
  advances_of sound (sound.region.withStage stage) fits (settled_suffix_written b) floor rfl rfl

theorem Sound.idle_withStage (sound : b.Sound) : Advances b (b.withStage .idle) :=
  advances_withStage sound .idle trivial (floor_le sound.fits)

/-- There is room for the element, and nothing but its place changes. -/
theorem filled_replaces (sound : b.Sound) {length pushed first : Nat} {bytes : List UInt8}
    (stage : b.stage = .vector length pushed bytes.length first) (more : pushed < length) :
    first - pushed * bytes.length ≤ b.used ∧ bytes.length ≤ first - pushed * bytes.length ∧
      (b.filled length pushed first bytes).written =
        Region.replaced b.written (first - pushed * bytes.length) bytes := by
  have fits := sound.fits
  rw [stage] at fits
  obtain ⟨inside, room⟩ := element_fits more fits.2.1 fits.2.2
  exact ⟨inside, room, Region.written_overwrite b.region _ bytes sound.region.sound inside room⟩

theorem filled_advances (sound : b.Sound) {length pushed first : Nat} {bytes : List UInt8}
    (stage : b.stage = .vector length pushed bytes.length first) (more : pushed < length) :
    Advances b (b.filled length pushed first bytes) := by
  have fits := sound.fits
  rw [stage] at fits
  obtain ⟨inside, room, written⟩ := filled_replaces sound stage more
  have length' := sound.region.length_written
  have floor : b.floor = first - length * bytes.length := by rw [Builder.floor, stage]
  refine advances_of sound
    ⟨Region.overwrite_sound b.region _ bytes sound.region.sound inside, sound.region.limit⟩
    ⟨more, fits.2⟩ ?_ (Nat.le_of_eq floor) rfl rfl
  rw [written]
  apply suffix_replaced room (length' ▸ inside)
  have step : (pushed + 1) * bytes.length ≤ length * bytes.length := Nat.mul_le_mul_right _ more
  rw [Nat.add_mul] at step
  omega

theorem added_advances (sound : b.Sound) {slot : Nat} {bytes : List UInt8}
    (added : Added b slot bytes b') : Advances b b' := by
  obtain ⟨start, fields, b₁, gap, stage, small, fresh, adds, rfl⟩ := added
  have first := adds.advances sound
  have fits := first.sound.fits
  rw [adds.stage, stage] at fits
  refine first.trans (advances_withStage first.sound _ ?_ ?_)
  · refine ⟨fits.1, fun f mem => ?_, ?_⟩
    · rcases List.mem_cons.1 mem with rfl | older
      · exact ⟨fits.1, Nat.le_refl _, small⟩
      · exact fits.2.1 f older
    · rw [List.map_cons, List.nodup_cons]
      exact ⟨fresh, fits.2.2⟩
  · simp only [floor, adds.stage, stage, withStage, Nat.le_refl]

theorem closed_advances {start d : Nat} {fields : List Field}
    (closed : Closed b start fields d b') : Advances b b' := by
  have all := settled_eq_written closed.region (floor_idle closed.stage)
  refine ⟨⟨closed.region, closed.stage ▸ trivial, all ▸ closed.tables⟩, ?_, closed.config⟩
  exact all ▸ (settled_suffix_written b).trans closed.kept

theorem finished_advances (sound : b.Sound) {root : Nat} {sizePrefixed : Bool} {bytes : Bytes}
    (finished : Finished b root sizePrefixed bytes b') : Advances b b' := by
  obtain ⟨gap, written⟩ := finished.written
  have kept : b.written <:+ b'.written := ⟨_, by rw [written, List.append_assoc]⟩
  have free := floor_finished finished.stage
  refine advances_of sound finished.region (finished.stage ▸ trivial)
    ((settled_suffix_written b).trans kept) ?_ finished.tables finished.config
  have lengths := kept.length_le
  rw [sound.region.length_written, finished.region.length_written] at lengths
  have := floor_le sound.fits
  omega

/-- A step that leads from any sound builder to a sound one, whether it fails or not. -/
def Safe (x : Build α) : Prop :=
  ∀ b, b.Sound → Ends x b (fun _ b' => Advances b b') (fun _ b' => Advances b b')

theorem safe_pure (a : α) : Safe (pure a : Build α) := fun _ sound => Advances.refl sound

theorem safe_bind {x : Build α} {f : α → Build β} (first : Safe x) (second : ∀ a, Safe (f a)) :
    Safe (x >>= f) := by
  intro b sound
  rw [ends_bind]
  refine (first b sound).mono (fun a b₁ before => ?_) (fun _ _ bad => bad)
  exact (second a b₁ before.sound).mono (fun _ _ after => before.trans after)
    (fun _ _ after => before.trans after)

theorem safe_map {x : Build α} (f : α → β) (safe : Safe x) : Safe (f <$> x) := by
  intro b sound
  rw [ends_map]
  exact (safe b sound).mono (fun _ _ done => done) (fun _ _ bad => bad)

theorem safe_forM {items : List α} {step : α → Build PUnit} (safe : ∀ item, Safe (step item)) :
    Safe (items.forM step) := by
  intro b sound
  refine (ends_forM (I := fun _ b' => Advances b b') (Advances.refl sound) ?_)
  intro _ item _ _ b₁ before
  exact (safe item b₁ before.sound).mono (fun _ _ after => before.trans after)
    (fun _ _ after => before.trans after)

theorem safe_mapM {items : List α} {step : α → Build β} (safe : ∀ item, Safe (step item)) :
    Safe (items.mapM step) := by
  intro b sound
  refine (ends_mapM (I := fun _ _ b' => Advances b b') (Advances.refl sound) ?_)
  intro _ item _ _ _ b₁ before
  exact (safe item b₁ before.sound).mono (fun _ _ after => before.trans after)
    (fun _ _ after => before.trans after)

theorem safe_createUnchecked (bytes : List UInt8) : Safe (createUnchecked bytes) :=
  fun _ sound => (createUnchecked_ends sound.region bytes).mono
    (fun _ _ done => let ⟨_, _, adds⟩ := done.2.2.2; adds.advances sound)
    (fun _ _ bad => bad.advances sound)

theorem safe_createText (text : String) : Safe (createText text) := safe_createUnchecked _

theorem safe_createBytes (bytes : Bytes) : Safe (createBytes bytes) :=
  fun _ sound => (createBytes_ends sound.region bytes).mono
    (fun _ _ done => let ⟨_, _, adds⟩ := done.2.2.2; adds.advances sound)
    (fun _ _ bad => bad.advances sound)

theorem safe_startVector (length elementSize alignment : Nat) :
    Safe (startVector length elementSize alignment) := by
  intro b sound
  refine (startVector_ends sound.region length elementSize alignment).mono (fun _ b' done => ?_)
    (fun _ _ bad => bad.advances sound)
  obtain ⟨idle, _, _, b₁, gap, adds, _, _, rfl⟩ := done
  have used := adds.used sound.region
  rw [List.length_append, length_zeros] at used
  refine advances_of sound (adds.region.withStage _) ⟨Nat.zero_le _, by omega, Nat.le_refl _⟩
    ((settled_suffix_written b).trans adds.suffix) ?_ adds.tables adds.config
  rw [floor_idle idle]
  simp only [floor, withStage]
  omega

theorem safe_pushBytesElement (bytes : List UInt8) : Safe (pushBytesElement bytes) := by
  intro b sound
  refine (pushBytesElement_ends sound.region sound.fits bytes).mono (fun _ b' done => ?_)
    (fun _ _ same => .of_eq sound same)
  obtain ⟨length, pushed, first, stage, more, rfl⟩ := done
  exact filled_advances sound stage more

theorem safe_pushRef {kind : ObjectKind} (child : Ref kind) : Safe (pushRef child) := by
  intro b sound
  refine (pushRef_ends sound.region sound.fits child).mono (fun _ b' done => ?_)
    (fun _ _ same => .of_eq sound same)
  obtain ⟨length, pushed, first, stage, more, _, _, rfl⟩ := done
  exact filled_advances sound (by rw [LittleEndian.length_encode]; exact stage) more

theorem safe_endVector : Safe endVector := by
  intro b sound
  refine (endVector_ends sound.region).mono (fun _ b' done => ?_) (fun _ b' bad => ?_)
  · obtain ⟨_, _, _, _, _, _, adds, _⟩ := done
    exact sound.idle_withStage.trans (adds.advances sound.idle_withStage.sound)
  · rcases bad with rfl | ⟨_, stray⟩
    · exact Advances.refl sound
    · exact sound.idle_withStage.trans (stray.advances sound.idle_withStage.sound)

theorem safe_startRecord : Safe startRecord := by
  intro b sound
  refine startRecord_ends.mono (fun _ b' done => ?_) (fun _ _ same => .of_eq sound same)
  obtain ⟨idle, rfl⟩ := done
  refine advances_withStage sound _ ⟨Nat.le_refl _, nofun, List.nodup_nil⟩ ?_
  exact Nat.le_of_eq (floor_idle idle)

theorem safe_pushScalar (v : Scalar) : Safe (pushScalar v) := fun _ sound =>
  (pushScalar_writes sound.region v).mono (fun _ _ done => let ⟨_, adds⟩ := done; adds.advances sound)
    (fun _ _ bad => bad.advances sound)

theorem safe_addField (slot : Nat) (value default : Scalar) :
    Safe (addField slot value default) := by
  intro b sound
  refine (addField_ends sound.region slot value default).mono (fun _ b' done => ?_)
    (fun _ _ bad => bad.advances sound)
  rcases done with ⟨_, rfl⟩ | ⟨_, added⟩
  · exact Advances.refl sound
  · exact added_advances sound added

theorem safe_addRequiredField (slot : Nat) (value : Scalar) : Safe (addRequiredField slot value) :=
  fun _ sound => (addRequiredField_ends sound.region slot value).mono
    (fun _ _ added => added_advances sound added) (fun _ _ bad => bad.advances sound)

theorem safe_addStructField (slot : Nat) (bytes : List UInt8) (alignment : Nat) :
    Safe (addStructField slot bytes alignment) :=
  fun _ sound => (addStructField_ends sound.region slot bytes alignment).mono
    (fun _ _ added => added_advances sound added) (fun _ _ bad => bad.advances sound)

theorem safe_addRefField (slot : Nat) {kind : ObjectKind} (child : Ref kind) :
    Safe (addRefField slot child) :=
  fun _ sound => (addRefField_ends sound.region slot child).mono
    (fun _ _ done => added_advances sound done.2.2) (fun _ _ bad => bad.advances sound)

theorem safe_endRecord : Safe endRecord := by
  intro b sound
  refine (endRecord_ends sound.region sound.fits sound.tables_written).mono (fun _ b' done => ?_)
    (fun _ _ bad => bad.advances sound)
  obtain ⟨_, _, _, closed⟩ := done
  exact closed_advances closed

theorem safe_finish (root : Ref .record) (identifier : Option Identifier) (sizePrefixed : Bool) :
    Safe (finish root identifier sizePrefixed) :=
  fun _ sound => (finish_ends sound.region root identifier sizePrefixed).mono
    (fun _ _ done => finished_advances sound done) (fun _ _ bad => bad.advances sound)

theorem safe_createRefVector {kind : ObjectKind} (items : List (Ref kind)) :
    Safe (createRefVector items) :=
  safe_bind (safe_startVector _ _ _) fun _ => safe_bind (safe_forM safe_pushRef) fun _ =>
    safe_endVector

theorem Operation.safe (op : Operation) (keeps : op ≠ .reset) : Safe op.step := by
  have done {x : Build Unit} (safe : Safe x) : Safe (do x; return Answer.done) :=
    safe_bind safe fun _ => safe_pure _
  cases op with
  | reset => exact absurd rfl keeps
  | pushScalar v => exact done (safe_pushScalar v)
  | createText text => exact safe_map _ (safe_createText text)
  | createBytes bytes => exact safe_map _ (safe_createBytes bytes)
  | startVector length elementSize alignment => exact done (safe_startVector _ _ _)
  | pushElement v => exact done (safe_pushBytesElement _)
  | pushBytesElement bytes => exact done (safe_pushBytesElement bytes)
  | pushRef kind child => exact done (safe_pushRef child)
  | endVector => exact safe_map _ safe_endVector
  | createVector type items =>
    exact safe_map _ (safe_bind (safe_startVector _ _ _) fun _ =>
      safe_bind (safe_forM fun _ => safe_pushBytesElement _) fun _ => safe_endVector)
  | createRefVector kind items => exact safe_map _ (safe_createRefVector items)
  | createTextVector items =>
    exact safe_map _ (safe_bind (safe_mapM safe_createText) fun _ => safe_createRefVector _)
  | startRecord => exact done safe_startRecord
  | addField slot value default => exact done (safe_addField _ _ _)
  | addRequiredField slot value => exact done (safe_addRequiredField _ _)
  | addStructField slot bytes alignment => exact done (safe_addStructField _ _ _)
  | addRefField slot kind child => exact done (safe_addRefField slot child)
  | endRecord => exact safe_map _ safe_endRecord
  | finish root identifier sizePrefixed => exact safe_map _ (safe_finish _ _ _)

theorem ofConfig_sound (config : Config) : (ofConfig config).Sound :=
  ⟨⟨Region.new_sound _ _, rfl⟩, trivial, nofun⟩

theorem reset_sound (sound : b.Sound) : b.reset.Sound :=
  ⟨⟨Region.clear_sound _ sound.region.sound, sound.region.limit⟩, trivial, nofun⟩

/-- What was settled stays settled, unless everything is forgotten. -/
theorem apply_advances (sound : b.Sound) (op : Operation) (keeps : op ≠ .reset) :
    Advances b (b.apply op).2 := by
  have ends := op.safe keeps b sound
  simp only [Ends] at ends
  simp only [apply]
  cases result : op.step.run b <;> rw [result] at ends <;> exact ends

theorem apply_sound (sound : b.Sound) (op : Operation) : (b.apply op).2.Sound := by
  by_cases forgets : op = .reset
  · subst forgets
    exact reset_sound sound
  · exact (apply_advances sound op forgets).sound

/-- The builder after any operations, one after the other, whether they succeeded or not. -/
def run (b : Builder) (ops : List Operation) : Builder :=
  ops.foldl (fun b op => (b.apply op).2) b

theorem run_sound (sound : b.Sound) (ops : List Operation) : (b.run ops).Sound := by
  induction ops generalizing b with
  | nil => exact sound
  | cons op rest ih => exact ih (apply_sound sound op)

/-- Some operations lead to this builder. -/
def Reachable (b : Builder) : Prop := ∃ config ops, b = (ofConfig config).run ops

theorem Reachable.sound (reachable : b.Reachable) : b.Sound := by
  obtain ⟨config, ops, rfl⟩ := reachable
  exact run_sound (ofConfig_sound config) ops

/-- A builder that has just been made, or reset after any history. -/
def Fresh (b : Builder) : Prop :=
  ∃ config history, b = ofConfig config ∨ b = ((ofConfig config).run history).reset

theorem Fresh.sound (fresh : b.Fresh) : b.Sound := by
  obtain ⟨config, history, rfl | rfl⟩ := fresh
  · exact ofConfig_sound config
  · exact reset_sound (run_sound (ofConfig_sound config) history)

end Builder

end FlatRecord
