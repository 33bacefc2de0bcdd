import FlatRecord.Proofs.Builder.Soundness
import Mathlib.Data.List.Find

/-! What a builder shows of its past. Two builders that hold the same bytes and are in the middle of the same
thing answer alike from then on, however much room each has and whatever lies past the written bytes. -/
namespace FlatRecord

open Builder Build

namespace Region

/-- Whether room is granted depends on how much is written and on the limit alone. -/
theorem room_granted (r : Region) (count : Nat) (sound : r.Sound)
    (limited : r.maxSize ≤ largestBuffer) :
    (r.room count).map (fun _ => ()) =
      if wordLimit ≤ r.used + count then .error (.sizeLimit largestWord r.maxSize)
      else if r.maxSize < r.used + count then .error (.sizeLimit (r.used + count) r.maxSize)
      else .ok () := by
  have fits := sound.fits
  have small := sound.limited
  have below : largestBuffer < wordLimit := by decide
  simp only [room]
  split
  next inside => rw [if_neg (by omega), if_neg (by omega)]; rfl
  next outside =>
    split
    · rfl
    split <;> rfl

/-- A written byte, by the distance of its end. -/
theorem byteAt_written (r : Region) (d : Nat) (inside : d < r.used) :
    r.byteAt d = r.written.reverse[d]?.getD 0 := by
  simp [byteAt, written, inside]

/-- Bytes that begin among the written ones are the same wherever the same is written. -/
theorem bytesAt_same {r r' : Region} {d : Nat} (same : r.written = r'.written)
    (used : r.used = r'.used) (positive : 0 < d) (inside : d ≤ r.used) (length : Nat) :
    r.bytesAt d length = r'.bytesAt d length := by
  apply List.map_congr_left
  intro i _
  rw [byteAt_written r _ (by omega), byteAt_written r' _ (by omega), same]

end Region

namespace Builder

/-- The same bytes in the middle of the same thing. The room that is left and what lies in it may differ. -/
structure Alike (b b' : Builder) : Prop where
  region : b.RegionSound
  region' : b'.RegionSound
  written : b.written = b'.written
  stage : b.stage = b'.stage
  minAlign : b.minAlign = b'.minAlign
  tables : b.tables = b'.tables
  config : { b.config with initialCapacity := b'.config.initialCapacity } = b'.config

/-- The same answer or error, from builders that are alike to builders that are alike. -/
inductive Same : EStateM.Result Error Builder α → EStateM.Result Error Builder α → Prop where
  | ok (a : α) {b b' : Builder} (alike : Alike b b') : Same (.ok a b) (.ok a b')
  | error (e : Error) {b b' : Builder} (alike : Alike b b') : Same (.error e b) (.error e b')

variable {b b' : Builder}

namespace Alike

theorem used (alike : Alike b b') : b.used = b'.used := by
  rw [← alike.region.length_written, alike.written, alike.region'.length_written]

theorem maxSize (alike : Alike b b') : b.config.maxSize = b'.config.maxSize := by
  have same := congrArg Config.maxSize alike.config
  exact same

theorem forceDefaults (alike : Alike b b') : b.config.forceDefaults = b'.config.forceDefaults := by
  have same := congrArg Config.forceDefaults alike.config
  exact same

theorem shareTables (alike : Alike b b') : b.config.shareTables = b'.config.shareTables := by
  have same := congrArg Config.shareTables alike.config
  exact same

theorem validateText (alike : Alike b b') : b.config.validateText = b'.config.validateText := by
  have same := congrArg Config.validateText alike.config
  exact same

theorem isFinished (alike : Alike b b') : b.isFinished = b'.isFinished := by
  rw [Builder.isFinished, Builder.isFinished, alike.stage]

theorem data (alike : Alike b b') : b.region.data = b'.region.data := by
  apply Array.toList_inj.1
  rw [Region.toList_data, Region.toList_data]
  exact alike.written

theorem setStage (alike : Alike b b') (stage : Stage) :
    Alike { b with stage } { b' with stage } :=
  ⟨⟨alike.region.sound, alike.region.limit⟩, ⟨alike.region'.sound, alike.region'.limit⟩,
    alike.written, rfl, alike.minAlign, alike.tables, alike.config⟩

/-- Both have the room or neither has. -/
theorem room (alike : Alike b b') (count : Nat) :
    (∃ capacity capacity', b.region.room count = .ok capacity ∧
      b'.region.room count = .ok capacity') ∨
    ∃ e, b.region.room count = .error e ∧ b'.region.room count = .error e := by
  have limit : b.region.maxSize = b'.region.maxSize :=
    alike.region.limit.trans (alike.maxSize.trans alike.region'.limit.symm)
  have used : b.region.used = b'.region.used := alike.used
  have first := Region.room_granted b.region count alike.region.sound
    (alike.region.limit ▸ b.config.maxSize_le)
  have second := Region.room_granted b'.region count alike.region'.sound
    (alike.region'.limit ▸ b'.config.maxSize_le)
  rw [used, limit, ← second] at first
  cases granted : b.region.room count <;> cases granted' : b'.region.room count <;>
    rw [granted, granted'] at first <;> simp only [Except.map] at first
  · cases first
    exact .inr ⟨_, rfl, rfl⟩
  · cases first
  · cases first
  · exact .inl ⟨_, _, rfl, rfl⟩

end Alike

section Rules

variable {x x' : Build α}

theorem same_bind {f f' : α → Build β} (first : Same (x.run b) (x'.run b'))
    (second : ∀ a c c', Alike c c' → x.run b = .ok a c → Same ((f a).run c) ((f' a).run c')) :
    Same ((x >>= f).run b) ((x' >>= f').run b') := by
  cases run : x.run b <;> cases run' : x'.run b' <;> rw [run, run'] at first <;> cases first
  case ok.ok a c c' alike =>
    rw [run_bind_ok run, run_bind_ok run']
    exact second a c c' alike run
  case error.error e c c' alike =>
    rw [run_bind_error run, run_bind_error run']
    exact .error e alike

theorem same_map (f : α → β) (same : Same (x.run b) (x'.run b')) :
    Same ((f <$> x).run b) ((f <$> x').run b') := by
  rw [← bind_pure_comp, ← bind_pure_comp]
  exact same_bind same fun a _ _ alike _ => .ok (f a) alike

theorem same_get {f f' : Builder → Build β} (same : Same ((f b).run b) ((f' b').run b')) :
    Same ((get >>= f).run b) ((get >>= f').run b') := same

theorem same_modify {g g' : Builder → Builder} {f f' : PUnit → Build β}
    (same : Same ((f ⟨⟩).run (g b)) ((f' ⟨⟩).run (g' b'))) :
    Same ((modify g >>= f).run b) ((modify g' >>= f').run b') := same

theorem same_ite {p : Prop} [Decidable p] {y y' : Build α} (yes : p → Same (x.run b) (x'.run b'))
    (no : ¬p → Same (y.run b) (y'.run b')) :
    Same ((if p then x else y).run b) ((if p then x' else y').run b') := by
  split
  next holds => exact yes holds
  next fails => exact no fails

end Rules

/-! ### The steps that write -/

theorem same_write (alike : Alike b b') (bytes : List UInt8) :
    Same ((Builder.write bytes).run b) ((Builder.write bytes).run b') := by
  rw [run_write, run_write]
  rcases alike.room bytes.length with ⟨c, c', granted, granted'⟩ | ⟨e, refused, refused'⟩
  · rw [granted, granted']
    have adds := adds_extend alike.region granted
    have adds' := adds_extend alike.region' granted'
    have written : bytes ++ b.written = bytes ++ b'.written := congrArg (bytes ++ ·) alike.written
    exact .ok PUnit.unit ⟨adds.region, adds'.region,
      adds.written.trans (written.trans adds'.written.symm), alike.stage, alike.minAlign,
      alike.tables, alike.config⟩
  · rw [refused, refused']
    exact .error e alike

theorem same_align (alike : Alike b b') (length alignment : Nat) :
    Same ((align length alignment).run b) ((align length alignment).run b') := by
  have raised : Alike { b with minAlign := max b.minAlign alignment }
      { b' with minAlign := max b'.minAlign alignment } :=
    ⟨⟨alike.region.sound, alike.region.limit⟩, ⟨alike.region'.sound, alike.region'.limit⟩,
      alike.written, alike.stage, congrArg (max · alignment) alike.minAlign, alike.tables,
      alike.config⟩
  have run (b : Builder) : (align length alignment).run b =
      (Builder.write (zeros (padding (b.used + length) alignment))).run
        { b with minAlign := max b.minAlign alignment } := by
    rw [← writeZeros_eq]
    rfl
  rw [run, run, alike.used]
  exact same_write raised _

/-- Bytes among the written ones are replaced in both. -/
theorem same_overwrite (alike : Alike b b') {distance : Nat} {bytes : List UInt8}
    (inside : distance ≤ b.used) (room : bytes.length ≤ distance) :
    Same ((overwrite distance bytes).run b) ((overwrite distance bytes).run b') := by
  have run {b : Builder} (region : b.RegionSound) (inside : distance ≤ b.used) :
      (overwrite distance bytes).run b =
        .ok ⟨⟩ { b with region := b.region.overwrite distance bytes } := by
    have within := Region.within_ok b.region distance bytes.length region.sound inside room
    rw [overwrite, run_get, within]
    rfl
  have inside' : distance ≤ b'.used := alike.used ▸ inside
  rw [run alike.region inside, run alike.region' inside']
  have region := Region.overwrite_sound b.region distance bytes alike.region.sound inside
  have region' := Region.overwrite_sound b'.region distance bytes alike.region'.sound inside'
  have written : b.region.written = b'.region.written := alike.written
  have first := Region.written_overwrite b.region distance bytes alike.region.sound inside room
  have second := Region.written_overwrite b'.region distance bytes alike.region'.sound inside' room
  exact .ok PUnit.unit ⟨⟨region, alike.region.limit⟩, ⟨region', alike.region'.limit⟩,
    first.trans (written ▸ second.symm), alike.stage, alike.minAlign, alike.tables, alike.config⟩

theorem same_ensureWritable (alike : Alike b b') :
    Same (ensureWritable.run b) (ensureWritable.run b') := by
  unfold ensureWritable
  refine same_get ?_
  rw [alike.isFinished]
  split
  · exact .error _ alike
  · exact .ok _ alike

theorem same_ensureIdle (alike : Alike b b') : Same (ensureIdle.run b) (ensureIdle.run b') := by
  unfold ensureIdle
  refine same_get ?_
  rw [alike.stage]
  cases b'.stage with
  | idle => exact .ok _ alike
  | record | vector | finished => exact .error _ alike

theorem same_setStage (alike : Alike b b') (stage : Stage) :
    Same ((setStage stage).run b) ((setStage stage).run b') := .ok PUnit.unit (alike.setStage stage)

theorem same_checkRef (alike : Alike b b') (distance limit : Nat) :
    Same ((checkRef distance limit).run b) ((checkRef distance limit).run b') := by
  unfold checkRef
  split
  · exact .error _ alike
  · exact .ok _ alike

theorem same_pushOffset (alike : Alike b b') (distance : Nat) :
    Same ((pushOffset distance).run b) ((pushOffset distance).run b') := by
  refine same_bind (same_align alike _ _) fun _ _ _ alike _ => same_get ?_
  rw [alike.used]
  exact same_write alike _

theorem same_pushScalar (alike : Alike b b') (v : Scalar) :
    Same ((Builder.pushScalar v).run b) ((Builder.pushScalar v).run b') :=
  same_bind (same_ensureWritable alike) fun _ _ _ alike _ =>
    same_bind (same_align alike _ _) fun _ _ _ alike _ => same_write alike _

theorem same_hereAs (alike : Alike b b') (kind : ObjectKind) :
    Same ((hereAs kind).run b) ((hereAs kind).run b') := by
  refine same_get ?_
  rw [alike.used]
  exact .ok _ alike

/-! ### Texts and vectors -/

theorem same_createUnchecked (alike : Alike b b') (bytes : List UInt8) :
    Same ((createUnchecked bytes).run b) ((createUnchecked bytes).run b') := by
  refine same_bind (same_ensureIdle alike) fun _ c c' alike _ => ?_
  split
  · refine same_get ?_
    rw [alike.maxSize]
    exact .error _ alike
  · exact same_bind (same_align alike _ _) fun _ _ _ alike _ =>
      same_bind (same_write alike _) fun _ _ _ alike _ =>
        same_bind (same_write alike _) fun _ _ _ alike _ =>
          same_bind (same_write alike _) fun _ _ _ alike _ => same_hereAs alike _

theorem same_createBytes (alike : Alike b b') (bytes : Bytes) :
    Same ((Builder.createBytes bytes).run b) ((Builder.createBytes bytes).run b') := by
  refine same_get ?_
  rw [alike.validateText]
  split
  · exact .error _ alike
  · exact same_createUnchecked alike _

theorem same_startVector (alike : Alike b b') (length elementSize alignment : Nat) :
    Same ((Builder.startVector length elementSize alignment).run b)
      ((Builder.startVector length elementSize alignment).run b') := by
  refine same_bind (same_ensureIdle alike) fun _ c c' alike _ => ?_
  split
  · exact .error _ alike
  dsimp only
  split
  · refine same_get ?_
    rw [alike.maxSize]
    exact .error _ alike
  · refine same_bind (same_align alike _ _) fun _ _ _ alike _ => ?_
    rw [writeZeros_eq]
    refine same_bind (same_write alike _) fun _ _ _ alike _ => same_get ?_
    rw [alike.used]
    exact same_setStage alike _

theorem same_nextPlaces (alike : Alike b b') (size : Nat) :
    Same ((nextPlaces size).run b) ((nextPlaces size).run b') := by
  unfold nextPlaces
  refine same_get ?_
  rw [alike.stage]
  cases b'.stage with
  | vector length pushed elementSize first =>
    dsimp only
    split
    · exact .error _ alike
    split
    · exact .error _ alike
    · exact .ok _ alike
  | idle | record | finished => exact .error _ alike

theorem same_fillElement (alike : Alike b b') {distance : Nat} {bytes : List UInt8}
    (inside : distance ≤ b.used) (room : bytes.length ≤ distance) :
    Same ((fillElement distance bytes).run b) ((fillElement distance bytes).run b') := by
  refine same_modify ?_
  rw [alike.stage]
  exact same_overwrite (alike.setStage _) inside room

/-- The next place of an open vector lies among the written bytes, so what fills it does the same. -/
theorem same_fill (alike : Alike b b') (fits : b.stage.Fits b.used) {size : Nat}
    {f : Nat × Nat → Build Unit}
    (fills : ∀ places c, Alike b c → places.1 ≤ b.used → size ≤ places.1 →
      Same ((f places).run b) ((f places).run c)) :
    Same ((do ensureWritable; let places ← nextPlaces size; f places).run b)
      ((do ensureWritable; let places ← nextPlaces size; f places).run b') := by
  refine same_bind (same_ensureWritable alike) fun _ c c' here writable => ?_
  obtain ⟨rfl, -⟩ := ensureWritable_ends.of_ok writable
  refine same_bind (same_nextPlaces here size) fun places d d' there next => ?_
  obtain ⟨rfl, length, pushed, first, stage, more, rfl⟩ := (nextPlaces_ends size).of_ok next
  rw [stage] at fits
  obtain ⟨inside, room⟩ := element_fits more fits.2.1 fits.2.2
  exact fills _ _ there inside room

theorem same_pushBytesElement (alike : Alike b b') (fits : b.stage.Fits b.used)
    (bytes : List UInt8) :
    Same ((Builder.pushBytesElement bytes).run b) ((Builder.pushBytesElement bytes).run b') :=
  pushBytesElement_eq bytes ▸ same_fill alike fits fun _ _ alike inside room => same_fillElement alike inside room

theorem same_pushRef (alike : Alike b b') (fits : b.stage.Fits b.used) {kind : ObjectKind}
    (child : Ref kind) :
    Same ((Builder.pushRef child).run b) ((Builder.pushRef child).run b') := by
  rw [pushRef_eq]
  refine same_fill alike fits fun places c here inside room => ?_
  refine same_bind (same_checkRef here child.distance places.2) fun _ d d' there good => ?_
  obtain ⟨rfl, -⟩ := (checkRef_ends child.distance places.2).of_ok good
  refine same_fillElement there inside ?_
  rwa [LittleEndian.length_encode]

theorem same_endVector (alike : Alike b b') :
    Same (Builder.endVector.run b) (Builder.endVector.run b') := by
  refine same_bind (same_ensureWritable alike) fun _ c c' alike _ => same_get ?_
  rw [alike.stage]
  cases c'.stage with
  | vector length pushed elementSize first =>
    dsimp only
    split
    · exact .error _ alike
    · exact same_bind (same_setStage alike _) fun _ _ _ alike _ =>
        same_bind (same_pushScalar alike _) fun _ _ _ alike _ => same_hereAs alike _
  | idle | record | finished => exact .error _ alike

/-! ### Records -/

theorem same_startRecord (alike : Alike b b') :
    Same (Builder.startRecord.run b) (Builder.startRecord.run b') := by
  refine same_bind (same_ensureIdle alike) fun _ c c' alike _ => same_get ?_
  rw [alike.used]
  exact same_setStage alike _

theorem same_checkSlot (alike : Alike b b') (slot : Nat) :
    Same ((checkSlot slot).run b) ((checkSlot slot).run b') := by
  unfold checkSlot
  refine same_get ?_
  rw [alike.stage]
  cases b'.stage with
  | record start fields =>
    dsimp only
    split
    · exact .error _ alike
    split
    · exact .error _ alike
    · exact .ok _ alike
  | idle | vector | finished => exact .error _ alike

theorem same_noteField (alike : Alike b b') (slot : Nat) :
    Same ((noteField slot).run b) ((noteField slot).run b') := by
  have noted : b.stage.addField ⟨slot, b.used⟩ = b'.stage.addField ⟨slot, b'.used⟩ := by
    rw [alike.stage, alike.used]
  have set := alike.setStage (b.stage.addField ⟨slot, b.used⟩)
  have alike' : Alike { b with stage := b.stage.addField ⟨slot, b.used⟩ }
      { b' with stage := b'.stage.addField ⟨slot, b'.used⟩ } := by rwa [← noted]
  exact Same.ok PUnit.unit alike'

theorem same_addField (alike : Alike b b') (slot : Nat) (value default : Scalar) :
    Same ((Builder.addField slot value default).run b)
      ((Builder.addField slot value default).run b') := by
  refine same_bind (same_ensureWritable alike) fun _ _ _ alike _ =>
    same_bind (same_checkSlot alike slot) fun _ c c' alike _ => same_get ?_
  rw [alike.forceDefaults]
  split
  · exact .ok _ alike
  · exact same_bind (same_pushScalar alike value) fun _ _ _ alike _ => same_noteField alike slot

theorem same_addRequiredField (alike : Alike b b') (slot : Nat) (value : Scalar) :
    Same ((Builder.addRequiredField slot value).run b)
      ((Builder.addRequiredField slot value).run b') :=
  same_bind (same_ensureWritable alike) fun _ _ _ alike _ =>
    same_bind (same_checkSlot alike slot) fun _ _ _ alike _ =>
      same_bind (same_pushScalar alike value) fun _ _ _ alike _ => same_noteField alike slot

theorem same_addStructField (alike : Alike b b') (slot : Nat) (bytes : List UInt8)
    (alignment : Nat) :
    Same ((Builder.addStructField slot bytes alignment).run b)
      ((Builder.addStructField slot bytes alignment).run b') :=
  same_bind (same_ensureWritable alike) fun _ _ _ alike _ =>
    same_bind (same_checkSlot alike slot) fun _ _ _ alike _ =>
      same_bind (same_align alike _ _) fun _ _ _ alike _ =>
        same_bind (same_write alike bytes) fun _ _ _ alike _ => same_noteField alike slot

theorem same_addRefField (alike : Alike b b') (slot : Nat) {kind : ObjectKind} (child : Ref kind) :
    Same ((Builder.addRefField slot child).run b) ((Builder.addRefField slot child).run b') :=
  same_bind (same_ensureWritable alike) fun _ _ _ alike _ =>
    same_bind (same_checkSlot alike slot) fun _ _ _ alike _ =>
      same_bind (same_checkRef alike _ _) fun _ _ _ alike _ =>
        same_bind (same_pushOffset alike _) fun _ _ _ alike _ => same_noteField alike slot

/-- A search for a table looks at written bytes alone. -/
theorem findTable_same (alike : Alike b b') (saved : ∀ d ∈ b.tables, TableSaved b.written d)
    (table : List UInt8) : b.findTable table = b'.findTable table := by
  have bytes : ∀ d ∈ b.tables, ∀ length,
      b.region.bytesAt d length = b'.region.bytesAt d length := by
    intro d mem length
    obtain ⟨old, holds, header, -⟩ := saved d mem
    have room := holds.length_le
    have inside := holds.le_length
    rw [alike.region.length_written] at inside
    have positive : 0 < entrySize := by decide
    exact Region.bytesAt_same alike.written alike.used (by omega) inside length
  rw [findTable, findTable, ← alike.tables]
  refine List.find?_congr fun d mem => ?_
  rw [bytes d mem, bytes d mem]

theorem same_writeTable (alike : Alike b b') (table : List UInt8) :
    Same ((writeTable table).run b) ((writeTable table).run b') := by
  refine same_bind (same_align alike _ _) fun _ _ _ alike _ =>
    same_bind (same_write alike table) fun _ c c' alike _ => same_modify (same_get ?_)
  have listed : Alike { c with tables := c.used :: c.tables }
      { c' with tables := c'.used :: c'.tables } :=
    ⟨⟨alike.region.sound, alike.region.limit⟩, ⟨alike.region'.sound, alike.region'.limit⟩,
      alike.written, alike.stage, alike.minAlign, by rw [alike.used, alike.tables], alike.config⟩
  rw [listed.used]
  exact .ok _ listed

theorem same_placeTable (alike : Alike b b') (saved : ∀ d ∈ b.tables, TableSaved b.written d)
    (table : List UInt8) : Same ((placeTable table).run b) ((placeTable table).run b') := by
  refine same_get ?_
  rw [findTable_same alike saved, alike.shareTables]
  split
  · exact .ok _ alike
  · exact same_writeTable alike table

/-- A table that is placed leaves what was written where it was. -/
theorem placeTable_keeps (sound : b.RegionSound) (saved : ∀ d ∈ b.tables, TableSaved b.written d)
    {table : List UInt8} {d : Nat} (placed : (placeTable table).run b = .ok d b') :
    b.used ≤ b'.used := by
  rcases (placeTable_ends sound saved table).of_ok placed with ⟨rfl, -⟩ | ⟨c, gap, adds, -, rfl⟩
  · exact Nat.le_refl _
  · have more := adds.used sound
    exact (by omega : b.used ≤ c.used)

theorem same_endRecord (alike : Alike b b') (saved : ∀ d ∈ b.tables, TableSaved b.written d) :
    Same (Builder.endRecord.run b) (Builder.endRecord.run b') := by
  refine same_bind (same_ensureWritable alike) fun _ c c' here writable => ?_
  obtain ⟨rfl, -⟩ := ensureWritable_ends.of_ok writable
  refine same_get ?_
  rw [here.stage]
  cases c'.stage with
  | record start fields =>
    refine same_get ?_
    rw [here.used]
    refine same_ite (fun _ => .error _ here) fun _ => ?_
    refine same_bind (same_pushScalar here (.int32 0)) fun _ d d' there placed => same_get ?_
    obtain ⟨-, placeholder⟩ := (pushScalar_ends here.region (.int32 0)).of_ok placed
    have used := placeholder_used here.region placeholder
    rw [there.used]
    refine same_bind (same_placeTable there (placeholder.saved saved) _) fun t e e' after table => ?_
    have kept := placeTable_keeps there.region (placeholder.saved saved) table
    refine same_bind (same_overwrite after (there.used ▸ kept) ?_) fun _ _ _ alike _ =>
      same_bind (same_setStage alike _) fun _ _ _ alike _ => .ok _ alike
    rw [Scalar.length_toBytes, ← there.used, used]
    exact Nat.le_add_left _ _
  | idle | vector | finished => exact .error _ here

/-! ### Whole buffers -/

theorem same_finish (alike : Alike b b') (root : Ref .record) (identifier : Option Identifier)
    (sizePrefixed : Bool) :
    Same ((Builder.finish root identifier sizePrefixed).run b)
      ((Builder.finish root identifier sizePrefixed).run b') := by
  have closes {c c' : Builder} (alike : Alike c c') :
      Same ((do setStage .finished; return (← get).region.data : Build Bytes).run c)
        ((do setStage .finished; return (← get).region.data : Build Bytes).run c') := by
    refine same_bind (same_setStage alike _) fun _ _ _ alike _ => same_get ?_
    rw [alike.data]
    exact .ok _ alike
  have heads {c c' : Builder} (alike : Alike c c') :
      Same ((do
          pushOffset root.distance
          if sizePrefixed then pushCount (← get).used
          setStage .finished
          return (← get).region.data : Build Bytes).run c)
        ((do
          pushOffset root.distance
          if sizePrefixed then pushCount (← get).used
          setStage .finished
          return (← get).region.data : Build Bytes).run c') := by
    refine same_bind (same_pushOffset alike _) fun _ _ _ alike _ =>
      same_ite (fun _ => same_get ?_) fun _ => closes alike
    rw [alike.used]
    exact same_bind (same_pushScalar alike _) fun _ _ _ alike _ => closes alike
  refine same_bind (same_ensureWritable alike) fun _ c c' alike _ => same_get ?_
  rw [alike.stage]
  refine same_ite (fun _ => .error _ alike) fun _ => same_get ?_
  rw [alike.used]
  refine same_bind (same_checkRef alike _ _) fun _ c c' alike _ => same_get ?_
  rw [alike.minAlign]
  refine same_bind (same_align alike _ _) fun _ c c' alike _ => ?_
  cases identifier with
  | none => exact heads alike
  | some id => exact same_bind (same_write alike _) fun _ _ _ alike _ => heads alike

theorem Alike.reset (alike : Alike b b') : Alike b.reset b'.reset :=
  ⟨⟨Region.clear_sound _ alike.region.sound, alike.region.limit⟩,
    ⟨Region.clear_sound _ alike.region'.sound, alike.region'.limit⟩,
    (Region.written_clear _).trans (Region.written_clear _).symm, rfl, rfl, rfl, alike.config⟩

/-! ### Operations -/

/-- A step that sees no more of a sound builder than what is written and what it is in the middle of. -/
def Blind (x : Build α) : Prop :=
  ∀ b b', Alike b b' → b.Sound → Same (x.run b) (x.run b')

theorem blind_bind {x : Build α} {f : α → Build β} (safe : Safe x) (first : Blind x)
    (second : ∀ a, Blind (f a)) : Blind (x >>= f) :=
  fun b b' alike sound => same_bind (first b b' alike sound) fun a c c' alike run =>
    second a c c' alike ((safe b sound).of_ok run).sound

theorem blind_pure (a : α) : Blind (pure a : Build α) := fun _ _ alike _ => .ok a alike

theorem blind_map {x : Build α} (f : α → β) (blind : Blind x) : Blind (f <$> x) :=
  fun b b' alike sound => same_map f (blind b b' alike sound)

theorem blind_forM {items : List α} {step : α → Build PUnit} (safe : ∀ item, Safe (step item))
    (blind : ∀ item, Blind (step item)) : Blind (items.forM step) := by
  induction items with
  | nil => exact blind_pure _
  | cons item rest ih => exact blind_bind (safe item) (blind item) fun _ => ih

theorem blind_mapM {items : List α} {step : α → Build β} (safe : ∀ item, Safe (step item))
    (blind : ∀ item, Blind (step item)) : Blind (items.mapM step) := by
  induction items with
  | nil => exact blind_pure _
  | cons item rest ih =>
    rw [List.mapM_cons]
    exact blind_bind (safe item) (blind item) fun _ =>
      blind_bind (safe_mapM safe) ih fun _ => blind_pure _

theorem blind_startVector (length elementSize alignment : Nat) :
    Blind (startVector length elementSize alignment) := fun _ _ alike _ =>
  same_startVector alike _ _ _

theorem blind_pushBytesElement (bytes : List UInt8) : Blind (pushBytesElement bytes) :=
  fun _ _ alike sound => same_pushBytesElement alike sound.fits bytes

theorem blind_pushRef {kind : ObjectKind} (child : Ref kind) : Blind (pushRef child) :=
  fun _ _ alike sound => same_pushRef alike sound.fits child

theorem blind_endVector : Blind endVector := fun _ _ alike _ => same_endVector alike

theorem blind_createText (text : String) : Blind (createText text) :=
  fun _ _ alike _ => same_createUnchecked alike _

theorem blind_createRefVector {kind : ObjectKind} (items : List (Ref kind)) :
    Blind (createRefVector items) :=
  blind_bind (safe_startVector _ _ _) (blind_startVector _ _ _) fun _ =>
    blind_bind (safe_forM safe_pushRef) (blind_forM safe_pushRef blind_pushRef) fun _ =>
      blind_endVector

theorem Operation.blind (op : Operation) : Blind op.step := by
  have done {x : Build Unit} (same : ∀ b b', Alike b b' → b.Sound → Same (x.run b) (x.run b')) :
      Blind (do x; return Answer.done) :=
    fun b b' alike sound => same_bind (same b b' alike sound) fun _ _ _ alike _ => .ok _ alike
  cases op with
  | reset => exact fun _ _ alike _ => .ok _ alike.reset
  | pushScalar v => exact done fun _ _ alike _ => same_pushScalar alike v
  | createText text => exact blind_map _ (blind_createText text)
  | createBytes bytes => exact blind_map _ fun _ _ alike _ => same_createBytes alike bytes
  | startVector length elementSize alignment => exact done (blind_startVector _ _ _)
  | pushElement v => exact done (blind_pushBytesElement _)
  | pushBytesElement bytes => exact done (blind_pushBytesElement bytes)
  | pushRef kind child => exact done (blind_pushRef child)
  | endVector => exact blind_map _ blind_endVector
  | createVector type items =>
    exact blind_map _ (blind_bind (safe_startVector _ _ _) (blind_startVector _ _ _) fun _ =>
      blind_bind (safe_forM fun _ => safe_pushBytesElement _)
        (blind_forM (fun _ => safe_pushBytesElement _) fun _ => blind_pushBytesElement _) fun _ =>
        blind_endVector)
  | createRefVector kind items => exact blind_map _ (blind_createRefVector items)
  | createTextVector items =>
    exact blind_map _ (blind_bind (safe_mapM safe_createText)
      (blind_mapM safe_createText blind_createText) fun _ => blind_createRefVector _)
  | startRecord => exact done fun _ _ alike _ => same_startRecord alike
  | addField slot value default => exact done fun _ _ alike _ => same_addField alike _ _ _
  | addRequiredField slot value => exact done fun _ _ alike _ => same_addRequiredField alike _ _
  | addStructField slot bytes alignment =>
    exact done fun _ _ alike _ => same_addStructField alike _ _ _
  | addRefField slot kind child => exact done fun _ _ alike _ => same_addRefField alike slot child
  | endRecord => exact blind_map _ fun _ _ alike sound => same_endRecord alike sound.tables_written
  | finish root identifier sizePrefixed =>
    exact blind_map _ fun _ _ alike _ => same_finish alike root identifier sizePrefixed

/-- What can be seen of a builder, and what it has written. -/
structure View where
  used : Nat
  isFinished : Bool
  finishedData : Except Error Bytes
  written : Bytes

def view (b : Builder) : View := ⟨b.used, b.isFinished, b.finishedData, b.region.data⟩

/-- The answer to each operation, and what is seen of the builder after it. -/
def transcript (b : Builder) : List Operation → List (Except Error Answer × View)
  | [] => []
  | op :: rest => ((b.apply op).1, (b.apply op).2.view) :: (b.apply op).2.transcript rest

theorem Alike.view (alike : Alike b b') : b.view = b'.view := by
  rw [Builder.view, Builder.view, finishedData, finishedData, alike.used, alike.isFinished,
    alike.data]

/-- One operation does the same to both. -/
theorem Alike.apply (alike : Alike b b') (sound : b.Sound) (op : Operation) :
    (b.apply op).1 = (b'.apply op).1 ∧ Alike (b.apply op).2 (b'.apply op).2 := by
  have same := op.blind b b' alike sound
  unfold Builder.apply
  cases run : op.step.run b <;> cases run' : op.step.run b' <;> rw [run, run'] at same <;>
    cases same
  case ok.ok answer c c' alike => exact ⟨rfl, alike⟩
  case error.error e c c' alike => exact ⟨rfl, alike⟩

/-- And so does any number of them. -/
theorem Alike.transcript (alike : Alike b b') (sound : b.Sound) (ops : List Operation) :
    b.transcript ops = b'.transcript ops := by
  induction ops generalizing b b' with
  | nil => rfl
  | cons op rest ih =>
    obtain ⟨answer, next⟩ := alike.apply sound op
    rw [Builder.transcript, Builder.transcript, answer, next.view, ih next (apply_sound sound op)]

/-- The configuration of a builder stays what it was made with. -/
theorem run_config (sound : b.Sound) (ops : List Operation) : (b.run ops).config = b.config := by
  induction ops generalizing b with
  | nil => rfl
  | cons op rest ih =>
    refine (ih (apply_sound sound op)).trans ?_
    by_cases forgets : op = .reset
    · subst forgets
      rfl
    · exact (apply_advances sound op forgets).config

/-- A builder that is reset after any history is like one that has just been made, whatever room the two
began with. -/
theorem reset_alike (config : Config) (capacity : Nat) (history : List Operation) :
    Alike ((ofConfig config).run history).reset
      (ofConfig { config with initialCapacity := capacity }) := by
  have same := run_config (ofConfig_sound config) history
  have reset := reset_sound (run_sound (ofConfig_sound config) history)
  refine ⟨reset.region, (ofConfig_sound _).region, Region.written_clear _, rfl, rfl, rfl, ?_⟩
  exact congrArg (fun c : Config => { c with initialCapacity := capacity }) same

/-- No byte from before a reset and no growth of the region is ever seen after it: operations get the same
answers, offsets and errors among them, and lead to the same bytes as in a builder that has just been
made. -/
theorem reset_forgets (config : Config) (capacity : Nat) (history ops : List Operation) :
    let used := ((ofConfig config).run history).reset
    let fresh := ofConfig { config with initialCapacity := capacity }
    used.view = fresh.view ∧ used.transcript ops = fresh.transcript ops := by
  have alike := reset_alike config capacity history
  have sound := reset_sound (run_sound (ofConfig_sound config) history)
  exact ⟨alike.view, alike.transcript sound ops⟩

end Builder

end FlatRecord
