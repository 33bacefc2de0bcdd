import FlatRecord.Proofs.Codec.Canonical
import FlatRecord.Proofs.Reading.Checks

/-! What a decoder gives, whatever the bytes are: a canonical record, with as many objects as were counted. -/
namespace FlatRecord

open Reading Decoding Counted

/-- Success gives something good that took so many objects, and no more of them than the limits allow. -/
def Yields (limits : Limits) (x : Counted α) (good : α → Nat → Prop) : Prop :=
  ∀ c a c', x.run c = .ok (a, c') → ∃ n, c' = c + n ∧
    (c ≤ limits.maxObjects → c' ≤ limits.maxObjects) ∧ good a n

section Rules

variable {limits : Limits} {x : Counted α} {good : α → Nat → Prop}

theorem yields_pure {a : α} (holds : good a 0) : Yields limits (pure a) good := by
  intro c a' c' run
  cases run
  exact ⟨0, rfl, id, holds⟩

theorem yields_bind {f : α → Counted β} {good' : β → Nat → Prop} (first : Yields limits x good)
    (second : ∀ a n, good a n → Yields limits (f a) fun b m => good' b (n + m)) :
    Yields limits (x >>= f) good' := by
  intro c b c' run
  rw [StateT.run_bind] at run
  obtain ⟨⟨a, c₁⟩, run, later⟩ := bind_eq_ok.1 run
  obtain ⟨n, rfl, within, holds⟩ := first c a c₁ run
  obtain ⟨m, rfl, within', holds'⟩ := second a n holds (c + n) b c' later
  exact ⟨n + m, Nat.add_assoc c n m, within' ∘ within, holds'⟩

theorem yields_lift {e : Except Error β} {f : β → Counted α}
    (each : ∀ b, e = .ok b → Yields limits (f b) good) : Yields limits (liftM e >>= f) good := by
  cases e with
  | ok b => exact each b rfl
  | error _ =>
    intro c a c' run
    cases run

theorem yields_charge (pos : Nat) : Yields limits (Decoding.charge limits pos) fun _ n => n = 1 := by
  intro c a c' run
  rw [Decoding.charge, run_charge] at run
  split at run
  next => cases run
  next room =>
    cases run
    exact ⟨1, rfl, fun _ => Nat.not_lt.1 room, rfl⟩

theorem Yields.mono (yields : Yields limits x good) {good' : α → Nat → Prop}
    (weaker : ∀ a n, good a n → good' a n) : Yields limits x good' := by
  intro c a c' run
  obtain ⟨n, same, within, holds⟩ := yields c a c' run
  exact ⟨n, same, within, weaker a n holds⟩

theorem yields_map {f : α → β} {good' : β → Nat → Prop} (yields : Yields limits x good)
    (holds : ∀ a n, good a n → good' (f a) n) : Yields limits (f <$> x) good' := by
  rw [map_eq_pure_bind]
  exact yields_bind yields fun a n here => yields_pure (holds a n here)

theorem yields_mapM {items : List β} {f : β → Counted α} {P : α → Prop} {cost : α → Nat}
    (each : ∀ item ∈ items, Yields limits (f item) fun a n => P a ∧ n = cost a) :
    Yields limits (items.mapM f) fun answers n => (∀ a ∈ answers, P a) ∧ n = (answers.map cost).sum := by
  induction items with
  | nil => exact yields_pure ⟨by simp, rfl⟩
  | cons item rest ih =>
    obtain ⟨first, later⟩ := List.forall_mem_cons.1 each
    rw [List.mapM_cons]
    apply yields_bind first
    rintro a n ⟨good, rfl⟩
    apply yields_bind (ih later)
    rintro answers m ⟨goods, rfl⟩
    apply yields_pure
    exact ⟨List.forall_mem_cons.2 ⟨good, goods⟩, by simp⟩

/-- What each step of a fold carries from the items done to one more, the fold carries to the end. -/
theorem foldlM_keeps {ε : Type} {f : α → β → Except ε α} {items : List β} {I : List β → α → Prop}
    {a a' : α} (start : I [] a)
    (keeps : ∀ done item rest, items = done ++ item :: rest → ∀ a a', I done a → f a item = .ok a' →
      I (done ++ [item]) a')
    (folded : items.foldlM f a = .ok a') : I items a' := by
  suffices general : ∀ rest done a, items = done ++ rest → I done a → rest.foldlM f a = .ok a' →
      I items a' from general items [] a rfl start folded
  intro rest
  induction rest with
  | nil =>
    intro done a split holds folded
    cases folded
    rw [List.append_nil] at split
    exact split ▸ holds
  | cons item rest ih =>
    intro done a split holds folded
    rw [List.foldlM_cons] at folded
    obtain ⟨a₁, step, folded⟩ := bind_eq_ok.1 folded
    exact ih (done ++ [item]) a₁ (by simp [split]) (keeps done item rest split a a₁ holds step) folded

theorem run_foldlM (f : α → β → Counted α) (items : List β) (a : α) (c : Nat) :
    (items.foldlM f a).run c = items.foldlM (fun s item => (f s.1 item).run s.2) (a, c) := by
  induction items generalizing a c with
  | nil => rfl
  | cons item rest ih =>
    rw [List.foldlM_cons, List.foldlM_cons, StateT.run_bind]
    exact bind_congr fun s => ih s.1 s.2

theorem yields_foldlM {items : List β} {f : α → β → Counted α} {I : List β → α → Nat → Prop} {a : α}
    (start : I [] a 0)
    (keeps : ∀ done item rest, items = done ++ item :: rest → ∀ a n, I done a n →
      Yields limits (f a item) fun a' m => I (done ++ [item]) a' (n + m)) :
    Yields limits (items.foldlM f a) (I items) := by
  intro c a' c' run
  rw [run_foldlM] at run
  refine foldlM_keeps (I := fun done s => ∃ n, s.2 = c + n ∧
    (c ≤ limits.maxObjects → s.2 ≤ limits.maxObjects) ∧ I done s.1 n) ⟨0, rfl, id, start⟩ ?_ run
  rintro done item rest split ⟨a, c₁⟩ ⟨a₁, c₂⟩ ⟨n, rfl, within, holds⟩ step
  obtain ⟨m, rfl, within', holds⟩ := keeps done item rest split a n holds _ _ _ step
  exact ⟨n + m, Nat.add_assoc c n m, within' ∘ within, holds⟩

end Rules

section Views

variable (schema : Schema)

/-- What an element of the type can be found to be. -/
inductive ElementView.Of : ElementType → ElementView → Prop where
  | scalar {t : ScalarType} {v : Scalar} (type : v.type = t) : Of (.scalar t) (.scalar v)
  | text {bytes : Bytes} : Of .text (.text bytes)
  | record {name : String} {t : Table} : Of (.record name) (.record name t)
  | struct {name : String} {s : StructType} {bytes : Bytes} (known : schema.struct name = .ok s) :
      Of (.struct name) (.struct s bytes)

/-- What a field can be found to be. -/
inductive FieldView.Of (f : RecordField) : FieldView → Prop where
  | absent (none : ∀ t, schema.scalarOf f ≠ .ok t) : Of f .absent
  | scalar {v default : Scalar} (stored : schema.scalarOf f = .ok (v.type, default)) :
      Of f (.single (.scalar v))
  | single {type : ElementType} {e : ElementView} (kind : f.type = type.asField)
      (other : ∀ t, type ≠ .scalar t) (of : e.Of schema type) : Of f (.single e)
  | vector {type : ElementType} {v : FieldVector} (kind : f.type = .vector type)
      (resolved : type.resolve schema = .ok v.element) : Of f (.vector v)

variable {schema} {buf : Bytes} {t : Table} {f : RecordField} {type : ElementType}

theorem get_of {v : FieldVector} {i : Nat} {e : ElementView}
    (resolved : type.resolve schema = .ok v.element) (found : v.get buf i = .ok e) :
    e.Of schema type := by
  rw [FieldVector.get_eq] at found
  obtain ⟨-, found⟩ := check_eq_ok.1 found
  cases type with
  | scalar t =>
    rw [← Except.ok.inj resolved] at found
    obtain ⟨bytes, -, rfl⟩ := map_eq_ok found
    exact .scalar (Scalar.type_ofBits t _)
  | text =>
    rw [← Except.ok.inj resolved] at found
    obtain ⟨_, -, found⟩ := bind_eq_ok.1 found
    obtain ⟨bytes, -, rfl⟩ := map_eq_ok found
    exact .text
  | record name =>
    obtain ⟨_, -, same⟩ := map_eq_ok resolved
    rw [← same] at found
    obtain ⟨_, -, found⟩ := bind_eq_ok.1 found
    obtain ⟨t, -, rfl⟩ := map_eq_ok found
    exact .record
  | struct name =>
    obtain ⟨s, known, same⟩ := map_eq_ok resolved
    rw [← same] at found
    obtain ⟨bytes, -, rfl⟩ := map_eq_ok found
    exact .struct known

/-- A field of one type refers to something of that type, or is absent and has no default. -/
theorem of_option {view : β → ElementView} (kind : f.type = type.asField)
    (other : ∀ t, type ≠ .scalar t) (of : ∀ b, (view b).Of schema type) (e : Option β) :
    (Table.ofOption (e.map view)).Of schema f := by
  cases e with
  | none => exact .absent (element_not_scalar kind other)
  | some b => exact .single kind other (of b)

theorem field_of (valid : f.Valid schema) {view : FieldView} (found : t.field buf schema f = .ok view) :
    view.Of schema f := by
  simp only [Table.field] at found
  cases kind : f.type with
  | scalar | enumeration =>
    simp only [kind] at found
    obtain ⟨⟨type, default⟩, stored, found⟩ := bind_eq_ok.1 found
    obtain ⟨place, -, found⟩ := bind_eq_ok.1 found
    cases place with
    | none =>
      cases found
      exact .scalar (valid.default_type stored ▸ stored)
    | some pos =>
      obtain ⟨bytes, -, rfl⟩ := map_eq_ok found
      have type : (Scalar.ofBytes type bytes.toList).type = type := Scalar.type_ofBits _ _
      exact .scalar (type.symm ▸ stored)
  | text =>
    simp only [kind] at found
    obtain ⟨bytes, -, rfl⟩ := map_eq_ok found
    have kind : f.type = ElementType.text.asField := kind
    exact of_option kind (by simp) (fun _ => .text) _
  | record name =>
    simp only [kind] at found
    obtain ⟨t', -, rfl⟩ := map_eq_ok found
    have kind : f.type = (ElementType.record name).asField := kind
    exact of_option kind (by simp) (fun _ => .record) _
  | struct name =>
    simp only [kind] at found
    obtain ⟨s, known, found⟩ := bind_eq_ok.1 found
    obtain ⟨bytes, -, rfl⟩ := map_eq_ok found
    have kind : f.type = (ElementType.struct name).asField := kind
    exact of_option kind (by simp) (fun _ => .struct known) _
  | vector type =>
    simp only [kind] at found
    obtain ⟨place, -, found⟩ := bind_eq_ok.1 found
    cases place with
    | none =>
      cases found
      exact .absent (not_scalar (by simp [kind]) (by simp [kind]))
    | some pos =>
      obtain ⟨element, resolved, found⟩ := bind_eq_ok.1 found
      obtain ⟨header, -, found⟩ := bind_eq_ok.1 found
      cases found
      exact .vector kind resolved

end Views

section Decoding

variable {schema : Schema} {limits : Limits} {buf : Bytes} {t : Table} {f : RecordField}
  {type : ElementType} {child : Child} {image : String → Record → Prop} {owner : Nat}

theorem ownedStruct_canonical {s : StructType} {bytes : Bytes} {entries : Record}
    (owned : ownedStruct s bytes = .ok entries) : StructCanonical s entries := by
  apply foldlM_keeps (I := Collects Member.name
    (fun m v => ∃ w : Scalar, v = .scalar w ∧ w.type = m.type) fun _ => True) (collects_nil _ _ _) _ owned
  intro done m rest split r r' collects step
  obtain ⟨w, read, step⟩ := bind_eq_ok.1 step
  cases step
  refine collects.set ⟨w, rfl, ?_⟩
  rw [member] at read
  split at read
  next =>
    cases read
    exact Scalar.type_ofBits _ _
  next => cases read

/-- Children are in the image, with their objects. -/
def ChildYields (limits : Limits) (child : Child) (image : String → Record → Prop) : Prop :=
  ∀ name t, Yields limits (child name t) fun r n => image name r ∧ n = Value.objectsEntries r + 1

theorem element_yields (children : ChildYields limits child image) {e : ElementView}
    (of : e.Of schema type) : Yields limits (decodeElement limits child owner e) fun v n =>
      ElementCanonical schema image type v ∧ n = v.objects := by
  cases of with
  | scalar type =>
    apply yields_pure
    exact ⟨type ▸ .scalar, rfl⟩
  | text =>
    apply yields_bind (yields_charge owner)
    rintro _ _ rfl
    apply yields_pure
    refine ⟨.text, ?_⟩
    rw [ownedText]
    split <;> rfl
  | @record name t =>
    apply yields_bind (children name t)
    rintro r n ⟨canonical, rfl⟩
    exact yields_pure ⟨.record canonical, rfl⟩
  | struct known =>
    apply yields_lift
    intro entries owned
    exact yields_pure ⟨.struct known (ownedStruct_canonical owned), rfl⟩

theorem vector_yields (children : ChildYields limits child image) {v : FieldVector}
    (resolved : type.resolve schema = .ok v.element) :
    Yields limits (decodeVector buf limits child v) fun value n => (∃ items, value = .vector items ∧
      ∀ item ∈ items, ElementCanonical schema image type item) ∧ n = value.objects := by
  apply yields_bind (yields_charge v.start)
  rintro _ _ rfl
  have each : ∀ i ∈ List.range v.length, Yields limits (do
      decodeElement limits child v.start (← v.get buf i)) fun item n =>
        ElementCanonical schema image type item ∧ n = item.objects := by
    intro i _
    apply yields_lift
    exact fun e found => element_yields children (get_of resolved found)
  apply yields_bind (yields_mapM each)
  rintro items n ⟨canonical, rfl⟩
  apply yields_pure
  refine ⟨⟨items, rfl, canonical⟩, ?_⟩
  rw [Value.objects, objectsItems_eq]
  exact Nat.add_comm 1 _

/-- What is decoded for a field, or that it has no default. -/
def FieldImage (schema : Schema) (image : String → Record → Prop) (f : RecordField) :
    Option Value → Prop
  | some v => FieldCanonical schema image f v
  | none => ¬∃ answer, schema.scalarOf f = .ok answer

theorem field_yields (children : ChildYields limits child image) {view : FieldView}
    (of : view.Of schema f) : Yields limits (decodeField buf limits child owner view) fun value n =>
      FieldImage schema image f value ∧ n = cost value := by
  cases of with
  | absent none => exact yields_pure ⟨fun ⟨answer, stored⟩ => none answer stored, rfl⟩
  | scalar stored => exact yields_pure ⟨.scalar stored, rfl⟩
  | single kind other of =>
    apply yields_map (element_yields children of)
    exact fun v n here => ⟨.single kind other here.1, here.2⟩
  | vector kind resolved =>
    apply yields_map (vector_yields children resolved)
    rintro v n ⟨⟨items, rfl, each⟩, objects⟩
    exact ⟨.vector kind each, objects⟩

theorem record_yields (valid : schema.Valid) (names : schema.DistinctNames)
    (children : ChildYields limits child image) :
    ChildYields limits (decodeRecord buf schema limits child) (RecordCanonical schema image) := by
  intro name t
  apply yields_bind (yields_charge t.position)
  rintro _ _ rfl
  apply yields_lift
  intro record known
  have mem := Schema.record_mem known
  have distinct := names.live known
  refine (yields_foldlM (I := fun done r n => Collects RecordField.name
    (FieldCanonical schema image) (fun f => ∃ answer, schema.scalarOf f = .ok answer) done r ∧
    n = Value.objectsEntries r) ⟨collects_nil _ _ _, rfl⟩ ?_).mono ?_
  · rintro done f rest split r n ⟨collects, rfl⟩
    have present : f ∈ record.liveFields := by simp [split]
    have field := (valid.records record mem).fields f (List.mem_of_mem_filter present)
    apply yields_lift
    intro view found
    apply yields_bind (field_yields children (field_of field found))
    rintro value n ⟨image, rfl⟩
    cases value with
    | none => exact yields_pure ⟨collects.skip image, rfl⟩
    | some v =>
      -- The names of the fields before are others.
      have fresh : r.get? f.name = none := by
        cases earlier : r.get? f.name with
        | none => rfl
        | some old =>
          obtain ⟨g, among, same, -⟩ := collects.entries _ (Record.mem_of_get? earlier)
          rw [split, List.map_append, List.map_cons] at distinct
          have apart := List.disjoint_of_nodup_append distinct
          exact (apart (List.mem_map.2 ⟨g, among, same⟩) List.mem_cons_self).elim
      apply yields_pure
      refine ⟨collects.set image, ?_⟩
      rw [objects_set fresh]
      exact Nat.add_comm _ _
  · rintro r n ⟨collects, rfl⟩
    exact ⟨⟨record, known, collects⟩, Nat.add_comm 1 _⟩

/-- Decoded records are canonical, with their names and within their limits. -/
theorem levels_yield (valid : schema.Valid) (names : schema.DistinctNames) (limits : Limits) (buf : Bytes)
    (levels : Nat) : ChildYields limits (decodeLevels buf schema limits levels)
      (LevelsCanonical schema levels) := by
  induction levels with
  | zero =>
    intro name t c r c' run
    cases run
  | succ levels ih => exact record_yields valid names ih

end Decoding

end FlatRecord
