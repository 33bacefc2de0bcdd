import FlatRecord.Proofs.Reading.Outcomes
import FlatRecord.Proofs.Reading.Trimmed

/-! What becomes of a field when its record is decoded. Its value is kept under its name, as if it had been decoded
by itself, as long as no later field of the same name is there to take its place. -/
namespace FlatRecord

open Reading Decoding

section Deepening

variable {buf : Bytes} {schema : Schema} {limits : Limits} {child child' : Child} {owner : Nat}

/-- Whatever the one gives, the other gives from any count as small. -/
def ChildSame (child child' : Child) : Prop := ∀ name t, Traces (child name t) (child' name t) Eq

theorem element_same (children : ChildSame child child') (owner : Nat) (e : ElementView) :
    Traces (decodeElement limits child owner e) (decodeElement limits child' owner e) Eq := by
  cases e with
  | scalar v => exact traces_pure rfl
  | text bytes => exact traces_bind (traces_charge limits _) fun _ _ _ => traces_pure rfl
  | record name t =>
    refine traces_bind (children name t) fun r r' same => traces_pure ?_
    rw [same]
  | struct type bytes => exact traces_read fun _ _ => traces_pure rfl

theorem field_same (children : ChildSame child child') (owner : Nat) (view : FieldView) :
    Traces (decodeField buf limits child owner view) (decodeField buf limits child' owner view) Eq := by
  cases view with
  | absent => exact traces_pure rfl
  | single e => exact traces_map (element_same children owner e) fun _ _ => congrArg some
  | vector v =>
    refine traces_map (R := Eq) ?_ fun _ _ => congrArg some
    refine traces_bind (traces_charge limits _) fun _ _ _ => ?_
    refine traces_bind (traces_mapM (h := id) fun i _ => traces_read fun e _ => ?_) fun _ _ same => ?_
    · exact (element_same children v.start e).mono fun _ _ same => same.symm
    · rw [List.map_id] at same
      exact traces_pure (congrArg Value.vector same.symm)

theorem record_same (children : ChildSame child child') :
    ChildSame (decodeRecord buf schema limits child) (decodeRecord buf schema limits child') := by
  intro name t
  refine traces_bind (traces_charge limits _) fun _ _ _ => traces_read fun type _ => ?_
  nth_rewrite 2 [← List.filter_true type.liveFields]
  refine traces_foldlM rfl (fun f _ _ r r' same => ?_) fun _ _ never => by cases never
  subst same
  refine traces_read fun view _ => traces_bind (field_same children t.position view) ?_
  rintro value _ rfl
  cases value <;> exact traces_pure rfl

/-- More levels change nothing for a record that comes out. -/
theorem levels_same {levels levels' : Nat} (more : levels ≤ levels') :
    ChildSame (decodeLevels buf schema limits levels) (decodeLevels buf schema limits levels') := by
  induction levels generalizing levels' with
  | zero => exact fun _ _ _ _ _ run => nomatch run
  | succ levels ih =>
    cases levels' with
    | zero => exact absurd more (Nat.not_succ_le_zero _)
    | succ levels' => exact record_same (ih (Nat.le_of_succ_le_succ more))

end Deepening

variable {buf : Bytes} {schema : Schema} {limits : Limits} {t : Table} {name : String} {r : Record}
  {type : RecordType} {f : RecordField} {earlier later : List RecordField}

/-- What a field is by itself, apart from the buffer: the records in it come out as they do alone. -/
def FieldView.Owns (buf : Bytes) (schema : Schema) (limits : Limits) (view : FieldView) (v : Value) :
    Prop :=
  view.Decodes (fun name t r => toOwned buf schema name t limits = .ok r) buf (some v)

/-- A nested record comes out alone too, where it has more levels left. -/
theorem toOwned_of_levels {levels : Nat} (within : levels ≤ limits.maxDepth + 1)
    (passes : Passes (decodeLevels buf schema limits levels name t) r) :
    toOwned buf schema name t limits = .ok r := by
  obtain ⟨c, n, run⟩ := passes
  obtain ⟨_, m, -, run, rfl⟩ := levels_same within name t c r n run 0 (Nat.zero_le c)
  exact run'_eq_ok.2 ⟨m, run⟩

/-- A live field that is there has its entry in the record, which is what the field is by itself, unless a later
field of its name is there too. -/
theorem live_field_kept (known : schema.record name = .ok type)
    (owned : toOwned buf schema name t limits = .ok r)
    (live : type.liveFields = earlier ++ f :: later) :
    ∃ view, t.field buf schema f = .ok view ∧ (view ≠ .absent →
      (∀ g ∈ later, g.name = f.name → t.field buf schema g = .ok .absent) →
      ∃ v, r.get? f.name = some v ∧ view.Owns buf schema limits v) := by
  obtain ⟨n, run⟩ := run'_eq_ok.1 owned
  have passes : Passes (decodeRecord buf schema limits
    (decodeLevels buf schema limits limits.maxDepth) name t) r := ⟨0, n, run⟩
  obtain ⟨_, known', set⟩ := decodeRecord_decodes passes
  cases known.symm.trans known'
  rw [live] at set
  obtain ⟨value, ⟨view, found, decodes⟩, kept⟩ := set.keeps
  refine ⟨view, found, fun present alone => ?_⟩
  have kept := kept fun g mem same value decodes => by
    obtain ⟨_, found', decodes⟩ := decodes
    cases (alone g mem same).symm.trans found'
    cases decodes
    rfl
  have owns := decodes.mono fun _ _ _ => toOwned_of_levels (Nat.le_succ _)
  cases value with
  | some v => exact ⟨v, kept v rfl, owns⟩
  | none =>
    cases decodes
    exact absurd rfl present

/-- A record type with two fields of one name. -/
def twin : RecordType := { name := "Twin", fields := [.ofType "x" 0 .text, .ofType "x" 1 .text] }

def twinSchema : Schema := { records := [twin], root := some "Twin" }

/-- A twin with the texts "a" and "b", of which the second is found where its field says. -/
def twinBytes (second : UInt8) : Bytes :=
  #[12, 0, 0, 0, 8, 0, 12, 0, 4, 0, second, 0, 8, 0, 0, 0, 8, 0, 0, 0, 12, 0, 0, 0, 1, 0, 0, 0, 97, 0, 0, 0,
    1, 0, 0, 0, 98, 0]

/-- The second text is absent, and the first one is kept. -/
theorem twinBytes_kept :
    toOwned (twinBytes 0) twinSchema "Twin" ⟨12, 4, 8, 12⟩ {} = .ok [("x", .text "a")] ∧
    ∃ v, Record.get? [("x", .text "a")] "x" = some v ∧
      FieldView.Owns (twinBytes 0) twinSchema {} (.single (.text #[97])) v := by
  have known : twinSchema.record "Twin" = .ok twin := by decide +kernel
  have owned : toOwned (twinBytes 0) twinSchema "Twin" ⟨12, 4, 8, 12⟩ {} = .ok [("x", .text "a")] := by
    decide +kernel
  have live : twin.liveFields = [] ++ .ofType "x" 0 .text :: [.ofType "x" 1 .text] := by decide +kernel
  have found : Table.field (twinBytes 0) ⟨12, 4, 8, 12⟩ twinSchema (.ofType "x" 0 .text) =
      .ok (.single (.text #[97])) := by decide +kernel
  have absent : ∀ g ∈ [RecordField.ofType "x" 1 .text], g.name = "x" →
      Table.field (twinBytes 0) ⟨12, 4, 8, 12⟩ twinSchema g = .ok .absent := by decide +kernel
  obtain ⟨_, found', kept⟩ := live_field_kept known owned live
  cases found.symm.trans found'
  exact ⟨owned, kept nofun absent⟩

/-- Both texts are there. The first one is found by its name, and yet it is lost. -/
theorem twinBytes_lost :
    twinSchema.validate = .ok () ∧
    Table.fieldNamed (twinBytes 8) ⟨12, 4, 8, 12⟩ twinSchema "Twin" "x" = .ok (.single (.text #[97])) ∧
    .ofType "x" 0 .text ∈ twin.liveFields ∧
    Table.field (twinBytes 8) ⟨12, 4, 8, 12⟩ twinSchema (.ofType "x" 0 .text) =
      .ok (.single (.text #[97])) ∧
    toOwned (twinBytes 8) twinSchema "Twin" ⟨12, 4, 8, 12⟩ {} = .ok [("x", .text "b")] ∧
    Record.get? [("x", .text "b")] "x" ≠ some (ownedText #[97]) := by
  decide +kernel

end FlatRecord
