import FlatRecord.Proofs.Reading.Descent

/-! What limits do to a decoder. A record that comes out under some limits comes out under all that have room for
its levels and its objects, and under no others. Its objects are counted in the record itself, so one that the
buffer holds once is counted wherever it is referred to. -/
namespace FlatRecord

open Reading Decoding Counted

/-- The reader answers `a` and counts `n` objects if that is not too deep and there is room for so many, and
otherwise it stops at a defect. -/
structure Filters (limits : Limits) (fits : Prop) (x : Counted α) (a : α) (n : Nat) : Prop where
  gives : fits → Gives limits x a n
  stops : ∀ c ≤ limits.maxObjects, (fits → limits.maxObjects < c + n) →
    ∃ pos defect, x.run c = .error (.corrupt pos defect)

section Rules

variable {limits : Limits} {p q : Prop} {x : Counted α} {a : α} {b : β} {n m : Nat}

theorem Filters.congr (filters : Filters limits p x a n) (same : p ↔ q) : Filters limits q x a n :=
  propext same ▸ filters

theorem filters_pure (holds : p) (a : α) : Filters limits p (pure a) a 0 := by
  constructor
  · exact fun _ => gives_pure a
  · intro c within beyond
    have := beyond holds
    omega

theorem filters_charge (holds : p) (pos : Nat) : Filters limits p (Decoding.charge limits pos) () 1 := by
  constructor
  · exact fun _ => gives_charge _
  · intro c _ beyond
    rw [Decoding.charge, run_charge, if_pos (beyond holds)]
    exact ⟨pos, _, rfl⟩

theorem filters_read {e : Except Error β} {f : β → Counted α} (ok : e = .ok b)
    (filters : Filters limits p (f b) a n) : Filters limits p (liftM e >>= f) a n := by
  subst ok
  exact filters

theorem filters_bind {f : α → Counted β} (first : Filters limits p x a n)
    (second : p → Filters limits q (f a) b m) : Filters limits (p ∧ q) (x >>= f) b (n + m) := by
  constructor
  · rintro ⟨here, later⟩
    exact gives_bind (first.gives here) ((second here).gives later)
  · intro c within beyond
    rw [StateT.run_bind]
    by_cases passed : p ∧ c + n ≤ limits.maxObjects
    · obtain ⟨here, room⟩ := passed
      rw [first.gives here c room, ok_bind]
      refine (second here).stops (c + n) room fun later => ?_
      have := beyond ⟨here, later⟩
      omega
    · obtain ⟨pos, defect, stopped⟩ := first.stops c within fun here =>
        Nat.not_le.1 fun room => passed ⟨here, room⟩
      rw [stopped]
      exact ⟨pos, defect, rfl⟩

/-- What comes last does not count. -/
theorem filters_last {f : α → Counted β} (first : Filters limits p x a n) (last : f a = pure b) :
    Filters limits p (x >>= f) b n := by
  have rest : Filters limits True (f a) b 0 := last ▸ filters_pure trivial b
  have whole := filters_bind first fun _ => rest
  rwa [and_true, Nat.add_zero] at whole

theorem filters_map {f : α → β} (filters : Filters limits p x a n) :
    Filters limits p (f <$> x) (f a) n := by
  rw [map_eq_pure_bind]
  exact filters_last filters rfl

theorem filters_mapM {items : List β} {answers : List α} {f : β → Counted α} {fits : α → Prop}
    {cost : α → Nat} (each : List.Forall₂ (fun item a => Filters limits (fits a) (f item) a (cost a))
      items answers) :
    Filters limits (∀ a ∈ answers, fits a) (items.mapM f) answers (answers.map cost).sum := by
  induction each with
  | nil => exact filters_pure (List.forall_mem_nil _) []
  | cons first _ ih =>
    rw [List.mapM_cons]
    rw [List.forall_mem_cons]
    exact filters_bind first fun _ => filters_last ih rfl

end Rules

/-- The deepest nesting of records in a value that may be absent. -/
def nesting (value : Option Value) : Nat := (value.map Value.levels).getD 0

section Sizes

variable {r : Record} {name : String} {v : Value}

theorem levels_set_fresh (fresh : r.get? name = none) :
    Value.levelsEntries (r.set name v) = max v.levels (Value.levelsEntries r) := by
  induction r with
  | nil => rfl
  | cons entry rest ih =>
    rw [Record.get?_cons] at fresh
    split at fresh
    next => cases fresh
    next other =>
      simp only [Record.set, if_neg (Ne.symm other)]
      split
      next => rfl
      next =>
        simp only [Value.levelsEntries, ih fresh]
        omega

theorem levels_put (fresh : r.get? name = none) (value : Option Value) :
    Value.levelsEntries (r.put name value) = max (nesting value) (Value.levelsEntries r) := by
  cases value with
  | none => simp [Record.put, nesting]
  | some v => exact levels_set_fresh fresh

theorem levels_ownedText (bytes : Bytes) : (ownedText bytes).levels = 0 := by
  rw [ownedText]
  split <;> rfl

theorem objects_ownedText (bytes : Bytes) : (ownedText bytes).objects = 1 := by
  rw [ownedText]
  split <;> rfl

end Sizes

section Decoding

variable {buf : Bytes} {schema : Schema} {limits reference : Limits} {child : Child}
  {levels owner : Nat} {v : Value}

/-- The decoder gives this record if it is nested less than `levels` deep. -/
def ChildFilters (limits : Limits) (levels : Nat) (child : Child) (name : String) (t : Table)
    (r : Record) : Prop :=
  Filters limits (Value.levelsEntries r < levels) (child name t) r (Value.objectsEntries r + 1)

theorem element_filters {e : ElementView} (decodes : e.Decodes (ChildFilters limits levels child) v) :
    Filters limits (v.levels ≤ levels) (decodeElement limits child owner e) v v.objects := by
  cases decodes with
  | scalar => exact filters_pure (Nat.zero_le _) _
  | text =>
    rw [levels_ownedText, objects_ownedText]
    exact filters_last (filters_charge (Nat.zero_le _) owner) rfl
  | record inner => exact filters_last inner rfl
  | struct owned => exact filters_read owned (filters_pure (Nat.zero_le _) _)

theorem vector_filters {vector : FieldVector} {items : List Value}
    (each : List.Forall₂ (fun i item => ∃ e, vector.get buf i = .ok e ∧
      e.Decodes (ChildFilters limits levels child) item) (List.range vector.length) items) :
    Filters limits ((Value.vector items).levels ≤ levels) (decodeVector buf limits child vector)
      (.vector items) (Value.vector items).objects := by
  have filters : Filters limits (∀ item ∈ items, item.levels ≤ levels)
      ((List.range vector.length).mapM fun i => do
        decodeElement limits child vector.start (← vector.get buf i)) items
      (items.map Value.objects).sum := by
    refine filters_mapM (each.imp fun i item step => ?_)
    obtain ⟨e, found, decodes⟩ := step
    exact filters_read found (element_filters decodes)
  rw [Value.objects, objectsItems_eq, Nat.add_comm, Value.levels, Value.levelsItems_le]
  rw [← true_and (∀ item ∈ items, item.levels ≤ levels)]
  exact filters_bind (filters_charge trivial _) fun _ => filters_last filters rfl

theorem decodeField_filters {view : FieldView} {value : Option Value}
    (decodes : view.Decodes (ChildFilters limits levels child) buf value) :
    Filters limits (nesting value ≤ levels) (decodeField buf limits child owner view) value
      (cost value) := by
  cases decodes with
  | absent => exact filters_pure (Nat.zero_le _) none
  | single decodes => exact filters_map (element_filters decodes)
  | vector each => exact filters_map (vector_filters each)

/-- The fields of a record, those before having given `r`. No field takes the place of another one, so what a
field counts is still there in the end. -/
theorem fields_filter {items : List RecordField} {values : RecordField → Option Value → Prop}
    {x : RecordField → Counted (Option Value)} {r r' : Record} (distinct : (items.map (·.name)).Nodup)
    (fresh : ∀ f ∈ items, r.get? f.name = none)
    (each : ∀ f value, values f value →
      Filters limits (nesting value ≤ levels) (x f) value (cost value))
    (set : FieldsSet values r items r') :
    ∃ n, Value.objectsEntries r' = Value.objectsEntries r + n ∧
      Value.levelsEntries r ≤ Value.levelsEntries r' ∧
      (Value.levelsEntries r ≤ levels → Filters limits (Value.levelsEntries r' ≤ levels)
        (items.foldlM (fun r f => do
          match ← x f with
          | some v => return Record.set r f.name v
          | none => return r) r) r' n) := by
  induction set with
  | @nil r => exact ⟨0, rfl, Nat.le_refl _, fun within => filters_pure within r⟩
  | @cons r r' f rest value here _ ih =>
    obtain ⟨other, distinct⟩ := List.nodup_cons.1 distinct
    obtain ⟨absent, fresh⟩ := List.forall_mem_cons.1 fresh
    have apart : ∀ g ∈ rest, (r.put f.name value).get? g.name = none := by
      intro g mem
      have names : f.name ≠ g.name := fun same => other (List.mem_map.2 ⟨g, mem, same.symm⟩)
      rw [get?_put_other names, fresh g mem]
    obtain ⟨n, total, grows, filters⟩ := ih distinct apart
    have objects := objects_put absent value
    have deepest := levels_put absent value
    refine ⟨cost value + n, by omega, by omega, fun within => ?_⟩
    rw [List.foldlM_cons]
    have first : Filters limits (nesting value ≤ levels) (do
        match ← x f with
        | some v => return Record.set r f.name v
        | none => return r) (r.put f.name value) (cost value) := by
      apply filters_last (each f value here)
      cases value <;> rfl
    refine (filters_bind first fun fits => filters (by omega)).congr ?_
    omega

theorem record_filters (distinct : ∀ type ∈ schema.records, (type.fields.map (·.name)).Nodup)
    {name : String} {t : Table} {r : Record} {type : RecordType}
    (known : schema.record name = .ok type)
    (set : FieldsSet (t.Decodes (ChildFilters limits levels child) buf schema) [] type.liveFields r) :
    ChildFilters limits (levels + 1) (decodeRecord buf schema limits child) name t r := by
  have apart : (type.liveFields.map (·.name)).Nodup :=
    (distinct type (Schema.record_mem known)).sublist (List.filter_sublist.map _)
  have each : ∀ f value, t.Decodes (ChildFilters limits levels child) buf schema f value →
      Filters limits (nesting value ≤ levels) (do
        decodeField buf limits child t.position (← t.field buf schema f)) value (cost value) := by
    rintro f value ⟨view, found, decodes⟩
    exact filters_read found (decodeField_filters decodes)
  obtain ⟨n, total, -, filters⟩ := fields_filter apart (fun _ _ => rfl) each set
  have filters := filters (Nat.zero_le _)
  simp only [bind_assoc] at filters
  simp only [Value.objectsEntries, Nat.zero_add] at total
  rw [ChildFilters, total, Nat.add_comm n 1]
  refine (filters_bind (filters_charge trivial _) fun _ => filters_read known filters).congr ?_
  rw [Nat.lt_succ_iff, true_and]

/-- However many levels the one has, the other needs only those that the record has. -/
theorem levels_filter (distinct : ∀ type ∈ schema.records, (type.fields.map (·.name)).Nodup)
    (limits : Limits) (given levels : Nat) {name : String} {t : Table} {r : Record}
    (passes : Passes (decodeLevels buf schema reference given name t) r) :
    ChildFilters limits levels (decodeLevels buf schema limits levels) name t r := by
  induction given generalizing levels name t r with
  | zero => exact (decodeLevels_zero passes).elim
  | succ given ih =>
    cases levels with
    | zero =>
      constructor
      · exact fun fits => absurd fits (Nat.not_lt_zero _)
      · exact fun c _ _ => ⟨t.position, .tooDeep, rfl⟩
    | succ levels =>
      obtain ⟨type, known, set⟩ := decodeRecord_decodes passes
      refine record_filters distinct known (set.mono fun f value decodes => ?_)
      exact decodes.mono fun _ _ _ passes => ih levels passes

end Decoding

/-- The largest limits that there are. -/
def Limits.unlimited : Limits := { maxDepth := largestWord, maxObjects := largestWord }

/-- The limits have room for the levels below the record and for its objects, itself included. -/
def Limits.Admit (limits : Limits) (r : Record) : Prop :=
  Value.levelsEntries r ≤ limits.maxDepth ∧ Value.objectsEntries r + 1 ≤ limits.maxObjects

section Limits

variable {buf : Bytes} {schema : Schema} {name : String} {t : Table} {reference limits : Limits}
  {r : Record}

theorem toOwned_filters (distinct : ∀ type ∈ schema.records, (type.fields.map (·.name)).Nodup)
    (owned : toOwned buf schema name t reference = .ok r) (limits : Limits) :
    (limits.Admit r → toOwned buf schema name t limits = .ok r) ∧
    (¬limits.Admit r → ∃ pos defect, toOwned buf schema name t limits = .error (.corrupt pos defect)) := by
  obtain ⟨n, run⟩ := run'_eq_ok.1 owned
  have filters := levels_filter distinct limits (reference.maxDepth + 1) (limits.maxDepth + 1)
    ⟨0, n, run⟩
  constructor
  · rintro ⟨levels, objects⟩
    exact run'_eq_ok.2 ⟨_, filters.gives (by omega) 0 (by omega)⟩
  · intro beyond
    obtain ⟨pos, defect, stopped⟩ := filters.stops 0 (Nat.zero_le _) fun fits => by
      rw [Limits.Admit] at beyond
      omega
    refine ⟨pos, defect, ?_⟩
    rw [toOwned, StateT.run'_eq, stopped]
    rfl

/-- A record that comes out without limits comes out under all limits that admit it, and there is a defect under
all others. Where none comes out without limits, none comes out at all. -/
theorem limits_filter (distinct : ∀ type ∈ schema.records, (type.fields.map (·.name)).Nodup)
    (buf : Bytes) (name : String) (t : Table) :
    (∀ r, toOwned buf schema name t .unlimited = .ok r → ∀ limits : Limits,
      (limits.Admit r → toOwned buf schema name t limits = .ok r) ∧
      (¬limits.Admit r → ∃ pos defect, toOwned buf schema name t limits = .error (.corrupt pos defect))) ∧
    ∀ e, toOwned buf schema name t .unlimited = .error e → ∀ limits : Limits,
      limits.maxDepth ≤ largestWord → limits.maxObjects ≤ largestWord →
      ∃ e', toOwned buf schema name t limits = .error e' := by
  constructor
  · exact fun _ owned limits => toOwned_filters distinct owned limits
  · intro e failed limits depth objects
    cases owned : toOwned buf schema name t limits with
    | error e' => exact ⟨e', rfl⟩
    | ok r =>
      have admitted : limits.Admit r := by
        by_contra beyond
        obtain ⟨pos, defect, stopped⟩ := (toOwned_filters distinct owned limits).2 beyond
        cases owned.symm.trans stopped
      have unlimited := (toOwned_filters distinct owned .unlimited).1
        ⟨admitted.1.trans depth, admitted.2.trans objects⟩
      cases failed.symm.trans unlimited

end Limits

/-- A link that holds two others, which are the same one in the buffer. -/
def sharedBytes : Bytes :=
  #[12, 0, 0, 0, 0, 0, 6, 0, 8, 0, 4, 0, 6, 0, 0, 0, 4, 0, 0, 0, 2, 0, 0, 0, 12, 0, 0, 0, 8, 0, 0, 0, 4, 0,
    4, 0, 4, 0, 0, 0]

/-- The other link counts twice, and without its bytes no limits help. -/
theorem sharedBytes_filtered :
    toOwned sharedBytes linkSchema "Link" ⟨12, 6, 6, 8⟩ .unlimited =
      .ok [("next", .vector [.record [], .record []])] ∧
    toOwned sharedBytes linkSchema "Link" ⟨12, 6, 6, 8⟩ { maxDepth := 1, maxObjects := 4 } =
      .ok [("next", .vector [.record [], .record []])] ∧
    (∃ pos defect, toOwned sharedBytes linkSchema "Link" ⟨12, 6, 6, 8⟩
      { maxDepth := 1, maxObjects := 3 } = .error (.corrupt pos defect)) ∧
    (∃ pos defect, toOwned sharedBytes linkSchema "Link" ⟨12, 6, 6, 8⟩
      { maxDepth := 0, maxObjects := 4 } = .error (.corrupt pos defect)) ∧
    toOwned (sharedBytes.extract 0 36) linkSchema "Link" ⟨12, 6, 6, 8⟩ .unlimited =
      .error (.corrupt 24 .offsetOutside) ∧
    ∃ e, toOwned (sharedBytes.extract 0 36) linkSchema "Link" ⟨12, 6, 6, 8⟩ {} = .error e :=
  have owned : toOwned sharedBytes linkSchema "Link" ⟨12, 6, 6, 8⟩ .unlimited =
      .ok [("next", .vector [.record [], .record []])] := by decide +kernel
  have failed : toOwned (sharedBytes.extract 0 36) linkSchema "Link" ⟨12, 6, 6, 8⟩ .unlimited =
      .error (.corrupt 24 .offsetOutside) := by decide +kernel
  have distinct : ∀ type ∈ linkSchema.records, (type.fields.map (·.name)).Nodup := by decide
  have filtered := (limits_filter distinct sharedBytes "Link" _).1 _ owned
  have stopped := (limits_filter distinct _ "Link" _).2 _ failed
  ⟨owned, (filtered _).1 ⟨by decide, by decide⟩,
    (filtered _).2 fun admitted => absurd admitted.2 (by decide),
    (filtered _).2 fun admitted => absurd admitted.1 (by decide),
    failed, stopped {} (by decide) (by decide)⟩

end FlatRecord
