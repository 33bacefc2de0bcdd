import FlatRecord.Proofs.Builder.Finishing
import FlatRecord.Proofs.Builder.Records

/-! The size limit as a filter. A step that succeeds under one limit does the same under a smaller one, or it is stopped
there; and it is stopped for a size that it would have reached. -/
namespace FlatRecord.Builder

open Build

/-- The builder with another limit and another capacity. -/
def narrowed (b : Builder) (limit capacity : Nat) : Builder :=
  { b with
    config := b.config.withMaxSize limit
    region := { b.region with capacity, maxSize := limit } }

/-- Nothing is left over from before the region was cleared, and an open vector's elements are written. -/
structure Snug (b : Builder) : Prop where
  region : b.RegionSound
  cells : b.region.cells.size = b.used
  vector : ∀ {length pushed size first}, b.stage = .vector length pushed size first → first ≤ b.used

/-- What becomes of a run from a narrowed builder when the run from the wide one comes to `a` and `c`. -/
inductive Follows (limit : Nat) (a : α) (c : Builder) : EStateM.Result Error Builder α → Prop where
  | ok {capacity : Nat} (fits : c.used ≤ capacity) (room : capacity ≤ limit) :
    Follows limit a c (.ok a (c.narrowed limit capacity))
  | stopped {requested : Nat} {d : Builder} (past : limit < requested) (reached : requested ≤ c.used) :
    Follows limit a c (.error (.sizeLimit requested limit) d)

/-- The step from `b` can be narrowed to the limit. -/
def Narrows (limit : Nat) (x : Build α) (b : Builder) : Prop :=
  b.Snug → ∀ a c, x.run b = .ok a c → c.Snug ∧ b.used ≤ c.used ∧
    ∀ capacity, b.used ≤ capacity → capacity ≤ limit →
      Follows limit a c (x.run (b.narrowed limit capacity))

variable {limit : Nat} {b : Builder}

section Rules

theorem narrows_pure (a : α) : Narrows limit (pure a : Build α) b := by
  intro snug _ _ run
  cases run
  exact ⟨snug, Nat.le_refl _, fun _ fits room => .ok fits room⟩

/-- Nothing is asked of what fails anyway. -/
theorem narrows_of_error {x : Build α} {e : Error} {c : Builder} (failed : x.run b = .error e c) :
    Narrows limit x b := by
  intro _ _ _ run
  cases failed.symm.trans run

theorem narrows_throw (e : Error) : Narrows limit (throw e : Build α) b := narrows_of_error rfl

theorem narrows_bind {x : Build α} {f : α → Build β} (first : Narrows limit x b)
    (rest : ∀ a c, x.run b = .ok a c → b.used ≤ c.used → Narrows limit (f a) c) :
    Narrows limit (x >>= f) b := by
  intro snug a c run
  obtain ⟨a₁, c₁, run₁, run₂⟩ := run_bind_eq_ok run
  obtain ⟨snug₁, grows₁, follows₁⟩ := first snug a₁ c₁ run₁
  obtain ⟨snug₂, grows₂, follows₂⟩ := rest a₁ c₁ run₁ grows₁ snug₁ a c run₂
  refine ⟨snug₂, Nat.le_trans grows₁ grows₂, fun capacity fits room => ?_⟩
  have here := follows₁ capacity fits room
  cases narrow : x.run (b.narrowed limit capacity) with
  | ok a' c' =>
    rw [narrow] at here
    rw [run_bind_ok narrow]
    cases here with
    | ok fits room => exact follows₂ _ fits room
  | error e c' =>
    rw [narrow] at here
    rw [run_bind_error narrow]
    cases here with
    | stopped past reached => exact .stopped past (Nat.le_trans reached grows₂)

theorem narrows_map {x : Build α} (f : α → β) (narrows : Narrows limit x b) :
    Narrows limit (f <$> x) b := by
  rw [map_eq_pure_bind]
  exact narrows_bind narrows fun _ _ _ _ => narrows_pure _

/-- What a step looks at is the same in the narrowed builder. -/
theorem narrows_get {f : Builder → Build α} (same : ∀ capacity, b.used ≤ capacity → f (b.narrowed limit capacity) = f b)
    (rest : Narrows limit (f b) b) : Narrows limit (get >>= f) b := by
  intro snug a c run
  obtain ⟨after, grows, follows⟩ := rest snug a c run
  refine ⟨after, grows, fun capacity fits room => ?_⟩
  rw [run_get, same capacity fits]
  exact follows capacity fits room

theorem narrows_modify {f : Builder → Builder}
    (same : ∀ capacity, f (b.narrowed limit capacity) = (f b).narrowed limit capacity)
    (used : (f b).used = b.used) (snug : b.Snug → (f b).Snug) : Narrows limit (modify f) b := by
  intro before a c run
  cases run
  refine ⟨snug before, Nat.le_of_eq used.symm, fun capacity fits room => ?_⟩
  change Follows limit _ (f b) (.ok _ (f (b.narrowed limit capacity)))
  rw [same]
  exact .ok (used ▸ fits) room

theorem narrows_ofExcept (x : Except Error α) : Narrows limit (ofExcept x : Build α) b := by
  cases x with
  | ok a => exact narrows_pure a
  | error e => exact narrows_throw e

theorem narrows_forM {items : List α} {step : α → Build PUnit}
    (each : ∀ item b, Narrows limit (step item) b) : Narrows limit (items.forM step) b := by
  induction items generalizing b with
  | nil => exact narrows_pure _
  | cons item rest ih => exact narrows_bind (each item b) fun _ _ _ _ => ih

theorem narrows_mapM {items : List α} {step : α → Build β}
    (each : ∀ item b, Narrows limit (step item) b) : Narrows limit (items.mapM step) b := by
  induction items generalizing b with
  | nil => exact narrows_pure _
  | cons item rest ih =>
    rw [List.mapM_cons]
    exact narrows_bind (each item b) fun _ _ _ _ => narrows_bind ih fun _ _ _ _ => narrows_pure _

theorem narrows_filterMapM {items : List α} {step : α → Build (Option β)}
    (each : ∀ item b, Narrows limit (step item) b) : Narrows limit (items.filterMapM step) b := by
  suffices general : ∀ found, Narrows limit (List.filterMapM.loop step items found) b from general []
  induction items generalizing b with
  | nil => exact fun found => narrows_pure _
  | cons item rest ih =>
    intro found
    rw [List.filterMapM.loop]
    refine narrows_bind (each item b) fun answer _ _ _ => ?_
    cases answer with
    | none => exact ih found
    | some a => exact ih (a :: found)

end Rules

section Writing

/-- Where nothing is left over behind the written bytes, a larger capacity changes nothing else. -/
theorem extend_compact {r : Region} (cells : r.cells.size = r.used) (capacity : Nat)
    (bytes : List UInt8) :
    r.extend capacity bytes =
      { r with
        cells := Region.putAll r.cells r.used bytes.reverse
        used := r.used + bytes.length
        capacity } := by
  have all : r.cells.take r.used = r.cells := by simp [← cells]
  have grown : r.grow capacity = { r with capacity } := by
    unfold Region.grow
    split
    next same => rw [same]
    next => rw [all]
  rw [Region.extend, grown]

theorem Snug.adds {b' : Builder} {bytes : List UInt8} (snug : b.Snug) (adds : Adds b bytes b')
    (cells : b'.region.cells.size = b'.used) : b'.Snug where
  region := adds.region
  cells := cells
  vector stage := by
    have inside := snug.vector (adds.stage.symm.trans stage)
    rw [adds.used snug.region]
    exact Nat.le_trans inside (Nat.le_add_left _ _)

theorem Snug.extended (snug : b.Snug) {capacity : Nat} {bytes : List UInt8}
    (adds : Adds b bytes (b.extended capacity bytes)) : (b.extended capacity bytes).Snug := by
  refine snug.adds adds ?_
  have size := Region.size_putAll b.region.cells b.region.used bytes.reverse (Nat.le_of_eq snug.cells.symm)
  have cells : b.region.cells.size = b.region.used := snug.cells
  rw [List.length_reverse] at size
  simp only [Builder.extended, Builder.used, extend_compact snug.cells, size]
  omega

theorem extended_narrowed (snug : b.Snug) (capacity room room' : Nat) (bytes : List UInt8) :
    (b.narrowed limit capacity).extended room bytes = (b.extended room' bytes).narrowed limit room := by
  simp only [Builder.extended, narrowed, extend_compact snug.cells]
  rw [extend_compact]
  exact snug.cells

/-- Room for bytes that were written in the wide builder. -/
theorem narrowed_room (small : limit ≤ largestBuffer) (snug : b.Snug) {capacity : Nat}
    (fits : b.used ≤ capacity) (room : capacity ≤ limit) (count : Nat)
    (near : b.used + count ≤ largestBuffer) :
    match (b.narrowed limit capacity).region.room count with
    | .ok granted => b.used + count ≤ granted ∧ granted ≤ limit
    | .error e => limit < b.used + count ∧ e = .sizeLimit (b.used + count) limit := by
  have sound : (b.narrowed limit capacity).region.Sound :=
    ⟨Nat.le_of_eq snug.cells.symm, fits, room⟩
  cases answer : (b.narrowed limit capacity).region.room count with
  | ok granted =>
    obtain ⟨enough, -, limited⟩ := Region.room_ok _ count granted sound answer
    exact ⟨enough, limited⟩
  | error e =>
    have word : largestBuffer < largestWord := by decide
    obtain ⟨past, rfl⟩ := Region.room_refused (r := (b.narrowed limit capacity).region)
      (Nat.lt_of_le_of_lt small (by decide)) answer
    have least : min (b.used + count) largestWord = b.used + count := Nat.min_eq_left (by omega)
    exact ⟨past, congrArg (Error.sizeLimit · limit) least⟩

theorem narrows_write (small : limit ≤ largestBuffer) (bytes : List UInt8) :
    Narrows limit (Builder.write bytes) b := by
  intro snug a c run
  rw [run_write] at run
  cases granted : b.region.room bytes.length with
  | error e => rw [granted] at run; cases run
  | ok capacity =>
    rw [granted] at run
    cases run
    have adds : Adds b bytes (b.extended capacity bytes) := adds_extend snug.region granted
    have used := adds.used snug.region
    have near := adds.region.used_le
    refine ⟨snug.extended adds, by omega, fun k fits room => ?_⟩
    have answer := narrowed_room small snug fits room bytes.length (by omega)
    rw [run_write]
    cases narrow : (b.narrowed limit k).region.room bytes.length with
    | ok granted' =>
      rw [narrow] at answer
      dsimp only
      rw [extended_narrowed snug k granted' capacity]
      exact .ok (by omega) answer.2
    | error e =>
      rw [narrow] at answer
      obtain ⟨past, rfl⟩ := answer
      exact .stopped past (by omega)

theorem narrows_align (small : limit ≤ largestBuffer) (length alignment : Nat) :
    Narrows limit (align length alignment) b := by
  refine narrows_bind (narrows_modify (fun _ => rfl) rfl fun snug => ?_) fun _ c _ _ =>
    narrows_get (fun _ _ => rfl) ?_
  · exact ⟨⟨snug.region.sound, snug.region.limit⟩, snug.cells, snug.vector⟩
  · rw [writeZeros_eq]
    exact narrows_write small _

/-- Bytes among the written ones are replaced in the narrowed builder too. -/
theorem narrows_overwrite {distance : Nat} (inside : distance ≤ b.used) (bytes : List UInt8) :
    Narrows limit (overwrite distance bytes) b := by
  intro snug
  by_cases long : distance < bytes.length
  · have outside : ¬(distance ≤ b.region.capacity ∧ bytes.length ≤ distance) := by omega
    have refused : ∃ e, (overwrite distance bytes).run b = .error e b := by
      rw [overwrite, run_get, Region.within, if_neg outside]
      exact ⟨_, rfl⟩
    obtain ⟨e, refused⟩ := refused
    exact narrows_of_error refused snug
  have granted {capacity : Nat} (fits : b.used ≤ capacity) :
      Region.within { b.region with capacity, maxSize := limit } distance bytes.length = .ok () :=
    if_pos ⟨Nat.le_trans inside fits, Nat.not_lt.1 long⟩
  have wide : b.region.within distance bytes.length = .ok () :=
    Region.within_ok _ _ _ snug.region.sound inside (by omega)
  refine narrows_get (fun capacity fits => ?_) ?_ snug
  · change ofExcept (Region.within { b.region with capacity, maxSize := limit } _ _) >>= _ = _
    rw [granted fits, wide]
  · rw [wide]
    refine narrows_bind (narrows_ofExcept _) fun _ c done _ => ?_
    cases done
    refine narrows_modify (fun _ => rfl) rfl fun snug => ?_
    have size := Region.size_putAll b.region.cells (distance - bytes.length) bytes.reverse
      (by rw [snug.cells]; omega)
    refine ⟨⟨Region.overwrite_sound _ _ _ snug.region.sound inside, snug.region.limit⟩, ?_, snug.vector⟩
    rw [List.length_reverse, snug.cells] at size
    exact size.trans (by change max b.used _ = b.used; omega)

theorem narrows_setStage {stage : Stage} (inside : ∀ {length pushed size first},
    stage = .vector length pushed size first → first ≤ b.used) : Narrows limit (setStage stage) b :=
  narrows_modify (fun _ => rfl) rfl fun snug => ⟨snug.region.withStage stage, snug.cells, inside⟩

theorem narrows_ensureWritable : Narrows limit ensureWritable b := by
  refine narrows_get (fun _ _ => rfl) ?_
  split
  · exact narrows_throw _
  · exact narrows_pure _

theorem narrows_ensureIdle : Narrows limit ensureIdle b := by
  refine narrows_get (fun _ _ => rfl) ?_
  cases b.stage with
  | idle => exact narrows_pure _
  | record | vector | finished => exact narrows_throw _

theorem narrows_checkRef (distance bound : Nat) : Narrows limit (checkRef distance bound) b := by
  unfold checkRef
  split
  · exact narrows_throw _
  · exact narrows_pure _

theorem narrows_hereAs (kind : ObjectKind) : Narrows limit (hereAs kind) b :=
  narrows_get (fun _ _ => rfl) (narrows_pure _)

theorem narrows_pushOffset (small : limit ≤ largestBuffer) (distance : Nat) :
    Narrows limit (pushOffset distance) b :=
  narrows_bind (narrows_align small _ _) fun _ _ _ _ => narrows_get (fun _ _ => rfl) (narrows_write small _)

theorem narrows_pushScalar (small : limit ≤ largestBuffer) (v : Scalar) :
    Narrows limit (Builder.pushScalar v) b :=
  narrows_bind narrows_ensureWritable fun _ _ _ _ =>
    narrows_bind (narrows_align small _ _) fun _ _ _ _ => narrows_write small _

end Writing

section Objects

theorem narrows_createUnchecked (small : limit ≤ largestBuffer) (bytes : List UInt8) :
    Narrows limit (createUnchecked bytes) b := by
  refine narrows_bind narrows_ensureIdle fun _ c _ _ => ?_
  split
  · exact narrows_of_error rfl
  · exact narrows_bind (narrows_align small _ _) fun _ _ _ _ =>
      narrows_bind (narrows_write small _) fun _ _ _ _ =>
        narrows_bind (narrows_write small _) fun _ _ _ _ =>
          narrows_bind (narrows_write small _) fun _ _ _ _ => narrows_hereAs _

theorem narrows_createBytes (small : limit ≤ largestBuffer) (bytes : Bytes) :
    Narrows limit (createBytes bytes) b := by
  refine narrows_get (fun _ _ => rfl) ?_
  split
  · exact narrows_throw _
  · exact narrows_createUnchecked small _

theorem narrows_startVector (small : limit ≤ largestBuffer) (length elementSize alignment : Nat) :
    Narrows limit (startVector length elementSize alignment) b := by
  refine narrows_bind narrows_ensureIdle fun _ c _ _ => ?_
  split
  · exact narrows_throw _
  dsimp only
  split
  · exact narrows_of_error rfl
  · rw [writeZeros_eq]
    refine narrows_bind (narrows_align small _ _) fun _ _ _ _ =>
      narrows_bind (narrows_write small _) fun _ d _ _ => narrows_get (fun _ _ => rfl) ?_
    refine narrows_setStage fun same => ?_
    cases same
    exact Nat.le_refl _

theorem narrows_nextPlaces (size : Nat) : Narrows limit (nextPlaces size) b := by
  refine narrows_get (fun _ _ => rfl) ?_
  cases b.stage with
  | vector length pushed elementSize first =>
    dsimp only
    split
    · exact narrows_throw _
    split
    · exact narrows_throw _
    · exact narrows_pure _
  | idle | record | finished => exact narrows_throw _

theorem narrows_fillElement {distance : Nat} (inside : distance ≤ b.used) (bytes : List UInt8) :
    Narrows limit (fillElement distance bytes) b := by
  refine narrows_bind (narrows_modify (fun _ => rfl) rfl fun snug => ?_) fun _ c done _ => ?_
  · refine ⟨⟨snug.region.sound, snug.region.limit⟩, snug.cells, fun same => ?_⟩
    cases stage : b.stage with
    | vector length pushed size first =>
      simp only [stage, Stage.countElement, Stage.vector.injEq] at same
      exact same.2.2.2 ▸ snug.vector stage
    | idle | record | finished => simp only [stage, Stage.countElement] at same; cases same
  · cases done
    refine narrows_overwrite ?_ bytes
    exact inside

/-- The next element's place is among the written bytes. -/
theorem narrows_fill {size : Nat} {f : Nat × Nat → Build Unit}
    (fills : ∀ places, places.1 ≤ b.used → Narrows limit (f places) b) :
    Narrows limit (do ensureWritable; let places ← nextPlaces size; f places) b := by
  intro snug
  refine narrows_bind narrows_ensureWritable (fun _ c writable _ => ?_) snug
  obtain ⟨rfl, -⟩ := ensureWritable_ends.of_ok writable
  refine narrows_bind (narrows_nextPlaces size) fun places c next _ => ?_
  obtain ⟨rfl, length, pushed, first, stage, more, rfl⟩ := (nextPlaces_ends size).of_ok next
  exact fills _ (Nat.le_trans (Nat.sub_le _ _) (snug.vector stage))

theorem narrows_pushBytesElement (bytes : List UInt8) : Narrows limit (pushBytesElement bytes) b :=
  pushBytesElement_eq bytes ▸ narrows_fill fun _ inside => narrows_fillElement inside bytes

theorem narrows_pushRef {kind : ObjectKind} (child : Ref kind) : Narrows limit (pushRef child) b := by
  rw [pushRef_eq]
  refine narrows_fill fun places inside => ?_
  refine narrows_bind (narrows_checkRef _ _) fun _ c good _ => ?_
  obtain ⟨rfl, -⟩ := (checkRef_ends _ _).of_ok good
  exact narrows_fillElement inside _

theorem narrows_endVector (small : limit ≤ largestBuffer) : Narrows limit endVector b := by
  refine narrows_bind narrows_ensureWritable fun _ c _ _ => narrows_get (fun _ _ => rfl) ?_
  cases c.stage with
  | vector length pushed elementSize first =>
    dsimp only
    split
    · exact narrows_throw _
    · exact narrows_bind (narrows_setStage nofun) fun _ _ _ _ =>
        narrows_bind (narrows_pushScalar small _) fun _ _ _ _ => narrows_hereAs _
  | idle | record | finished => exact narrows_throw _

theorem narrows_createRefVector (small : limit ≤ largestBuffer) {kind : ObjectKind}
    (items : List (Ref kind)) : Narrows limit (createRefVector items) b :=
  narrows_bind (narrows_startVector small _ _ _) fun _ _ _ _ =>
    narrows_bind (narrows_forM fun item _ => narrows_pushRef item) fun _ _ _ _ =>
      narrows_endVector small

end Objects

section Records

theorem narrows_startRecord : Narrows limit startRecord b :=
  narrows_bind narrows_ensureIdle fun _ _ _ _ => narrows_get (fun _ _ => rfl) (narrows_setStage nofun)

theorem narrows_checkSlot (slot : Nat) : Narrows limit (checkSlot slot) b := by
  refine narrows_get (fun _ _ => rfl) ?_
  cases b.stage with
  | record start fields =>
    dsimp only
    split
    · exact narrows_throw _
    split
    · exact narrows_throw _
    · exact narrows_pure _
  | idle | vector | finished => exact narrows_throw _

theorem narrows_noteField (slot : Nat) : Narrows limit (noteField slot) b := by
  refine narrows_modify (fun _ => rfl) rfl fun snug => ?_
  refine ⟨⟨snug.region.sound, snug.region.limit⟩, snug.cells, fun same => ?_⟩
  cases stage : b.stage with
  | vector length pushed size first =>
    simp only [stage, Stage.addField, Stage.vector.injEq] at same
    exact same.2.2.2 ▸ snug.vector stage
  | idle | record | finished => simp only [stage, Stage.addField] at same; cases same

theorem narrows_addField (small : limit ≤ largestBuffer) (slot : Nat) (value default : Scalar) :
    Narrows limit (addField slot value default) b := by
  refine narrows_bind narrows_ensureWritable fun _ _ _ _ =>
    narrows_bind (narrows_checkSlot _) fun _ _ _ _ => narrows_get (fun _ _ => rfl) ?_
  split
  · exact narrows_pure _
  · exact narrows_bind (narrows_pushScalar small _) fun _ _ _ _ => narrows_noteField _

theorem narrows_addStructField (small : limit ≤ largestBuffer) (slot : Nat) (bytes : List UInt8)
    (alignment : Nat) : Narrows limit (addStructField slot bytes alignment) b :=
  narrows_bind narrows_ensureWritable fun _ _ _ _ =>
    narrows_bind (narrows_checkSlot _) fun _ _ _ _ =>
      narrows_bind (narrows_align small _ _) fun _ _ _ _ =>
        narrows_bind (narrows_write small _) fun _ _ _ _ => narrows_noteField _

theorem narrows_addRefField (small : limit ≤ largestBuffer) (slot : Nat) {kind : ObjectKind}
    (child : Ref kind) : Narrows limit (addRefField slot child) b :=
  narrows_bind narrows_ensureWritable fun _ _ _ _ =>
    narrows_bind (narrows_checkSlot _) fun _ _ _ _ =>
      narrows_bind (narrows_checkRef _ _) fun _ _ _ _ =>
        narrows_bind (narrows_pushOffset small _) fun _ _ _ _ => narrows_noteField _

theorem narrows_writeTable (small : limit ≤ largestBuffer) (table : List UInt8) :
    Narrows limit (writeTable table) b := by
  refine narrows_bind (narrows_align small _ _) fun _ _ _ _ =>
    narrows_bind (narrows_write small _) fun _ _ _ _ =>
      narrows_bind (narrows_modify (fun _ => rfl) rfl fun snug => ?_) fun _ _ _ _ =>
        narrows_get (fun _ _ => rfl) (narrows_pure _)
  exact ⟨⟨snug.region.sound, snug.region.limit⟩, snug.cells, snug.vector⟩

theorem narrows_placeTable (small : limit ≤ largestBuffer) (table : List UInt8) :
    Narrows limit (placeTable table) b := by
  refine narrows_get (fun _ _ => rfl) ?_
  split
  · exact narrows_pure _
  · exact narrows_writeTable small _

theorem narrows_endRecord (small : limit ≤ largestBuffer) : Narrows limit endRecord b := by
  refine narrows_bind narrows_ensureWritable fun _ c _ _ => narrows_get (fun _ _ => rfl) ?_
  cases c.stage with
  | record start fields =>
    refine narrows_get (fun _ _ => rfl) ?_
    dsimp only
    split
    · exact narrows_throw _
    refine narrows_bind (narrows_pushScalar small _) fun _ d _ _ => narrows_get (fun _ _ => rfl) ?_
    refine narrows_bind (narrows_placeTable small _) fun table e _ grows => ?_
    exact narrows_bind (narrows_overwrite grows _) fun _ _ _ _ =>
      narrows_bind (narrows_setStage nofun) fun _ _ _ _ => narrows_pure _
  | idle | vector | finished => exact narrows_throw _

theorem narrows_finish (small : limit ≤ largestBuffer) (root : Ref .record)
    (identifier : Option Identifier) (sizePrefixed : Bool) :
    Narrows limit (finish root identifier sizePrefixed) b := by
  have close {c : Builder} : Narrows limit (do setStage .finished; return (← get).region.data) c :=
    narrows_bind (narrows_setStage nofun) fun _ _ _ _ => narrows_get (fun _ _ => rfl) (narrows_pure _)
  have rest {c : Builder} : Narrows limit (do
      pushOffset root.distance
      if sizePrefixed then pushCount (← get).used
      setStage .finished
      return (← get).region.data) c := by
    refine narrows_bind (narrows_pushOffset small _) fun _ d _ _ => ?_
    cases sizePrefixed with
    | false => exact close
    | true =>
      exact narrows_get (fun _ _ => rfl) (narrows_bind (narrows_pushScalar small _) fun _ _ _ _ => close)
  refine narrows_bind narrows_ensureWritable fun _ c _ _ => narrows_get (fun _ _ => rfl) ?_
  dsimp only
  split
  · exact narrows_throw _
  refine narrows_get (fun _ _ => rfl) (narrows_bind (narrows_checkRef _ _) fun _ _ _ _ =>
    narrows_get (fun _ _ => rfl) (narrows_bind (narrows_align small _ _) fun _ _ _ _ => ?_))
  cases identifier with
  | none => exact rest
  | some id => exact narrows_bind (narrows_write small _) fun _ _ _ _ => rest

end Records

end FlatRecord.Builder
