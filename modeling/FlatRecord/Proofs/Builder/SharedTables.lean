import FlatRecord.Proofs.Builder.Remembered
import FlatRecord.Proofs.Builder.Standing
import FlatRecord.Proofs.Reading.Stored
import Mathlib.Data.List.Nodup

/-! The sharing of field tables is exact. Tables are compared with what is read back at the remembered distances; since
nothing is written over them and each gives its own length, a table is written if and only if no equal one stands. -/
namespace FlatRecord.Builder

open Build

/-- The tables that were written, each at its distance, and the records that were closed, each with the table that was
computed for it. The newest come first. -/
structure Ledger where
  tables : List (Nat × List UInt8) := []
  records : List (Nat × List UInt8) := []
deriving Repr

namespace Ledger

/-- A record is closed at distance `d`. Its table was written if the builder remembers one more than before. -/
def close (l : Ledger) (b b' : Builder) (d : Nat) (table : List UInt8) : Ledger where
  tables := if b'.tables = b.tables then l.tables else (b'.tables.headD 0, table) :: l.tables
  records := (d, table) :: l.records

/-- What an operation leaves. Only the end of a record adds anything, if it succeeds, and a reset takes it all away. -/
def after (l : Ledger) (b : Builder) : Operation → Ledger
  | .reset => {}
  | .endRecord =>
    match b.apply .endRecord, b.stage with
    | (.ok (.object _ ref), b'), .record start fields =>
      l.close b b' ref.distance (tableBytes ref.distance (ref.distance - start) fields)
    | _, _ => l
  | _ => l

/-- The ledger after a run. -/
def run (l : Ledger) (b : Builder) : List Operation → Ledger
  | [] => l
  | op :: rest => (l.after b op).run (b.apply op).2 rest

end Ledger

/-- The distance to which the first bytes of the record at `d` lead, that of its field table. -/
def tableOf (b : Builder) (d : Nat) : Int :=
  d + (Int32.ofNat (LittleEndian.decode (b.region.bytesAt d offsetSize))).toInt

variable {b b' : Builder} {l : Ledger} {d t : Nat} {table : List UInt8}

theorem tableOf_eq (sound : b.RegionSound) (near : t ≤ largestBuffer)
    (offset : Holds b.written d (tableOffset t d)) : b.tableOf d = t := by
  have inside := offset.le_length
  have limit := sound.used_le
  rw [sound.length_written] at inside
  simp only [largestBuffer] at near limit
  have read : b.region.bytesAt d offsetSize = tableOffset t d := by
    have four : (tableOffset t d).length = offsetSize := Scalar.length_toBytes _
    rw [← four]
    exact sound.bytesAt_eq offset
  have bits : LittleEndian.decode (tableOffset t d) = (Scalar.int32 (Int32.ofInt ((t : Int) - d))).bits := by
    rw [tableOffset, Scalar.toBytes, LittleEndian.decode_encode]
    exact Nat.mod_eq_of_lt (Scalar.bits_lt _)
  rw [tableOf, read, bits, soffset_bits (by omega) (by omega)]
  omega

/-- The first two bytes of a table give its length, so there is one at each distance. -/
theorem table_eq_of_holds {s first second : List UInt8} (holds : Holds s d first) (holds' : Holds s d second)
    (whole : TellsLength first) (whole' : TellsLength second) : first = second := by
  obtain ⟨header, length⟩ := whole
  obtain ⟨header', length'⟩ := whole'
  have fronts : first.take 2 = second.take 2 := (holds.take 2).eq_of_length (holds'.take 2) (by
    rw [List.length_take, List.length_take]
    omega)
  apply holds.eq_of_length holds'
  rw [← length, ← length', fronts]

/-- A table that is not found stands nowhere. -/
theorem findTable_none (sound : b.RegionSound) (whole : TellsLength table)
    (missing : b.findTable table = none) (mem : d ∈ b.tables) : ¬Holds b.written d table := by
  intro holds
  have length := sound.bytesAt_eq (holds.take 2)
  rw [List.length_take, Nat.min_eq_left whole.1] at length
  apply List.find?_eq_none.1 missing d mem
  simp [entrySize, length, whole.2, sound.bytesAt_eq holds]

/-- What the remembered distances become when a table has its place at `t`. None is added, or `t` is, and then no equal
table stood at any of them. -/
def Enters (b : Builder) (table : List UInt8) (t : Nat) (tables : List Nat) : Prop :=
  tables = b.tables ∨ tables = t :: b.tables ∧ (TellsLength table → ∀ u ∈ b.tables, ¬Holds b.written u table)

theorem placeTable_enters {b₁ : Builder} {left : List UInt8} (shared : b.config.shareTables = true)
    (adds : Adds b left b₁) (table : List UInt8) :
    Ends (placeTable table) b₁ (fun t b' => t ∈ b'.tables ∧ Enters b table t b'.tables) fun _ _ => True := by
  rw [placeTable, ends_bind, ends_get, if_pos (adds.config ▸ shared)]
  cases found : b₁.findTable table with
  | some d => exact ⟨List.mem_of_find?_eq_some found, .inl adds.tables⟩
  | none =>
    refine (writeTable_ends adds.region table).mono (fun t b' done => ?_) fun _ _ _ => trivial
    obtain ⟨b₂, gap, -, rfl, rfl⟩ := done
    refine ⟨List.mem_cons_self, .inr ⟨by rw [adds.tables], fun whole u known holds => ?_⟩⟩
    exact findTable_none adds.region whole found (adds.tables ▸ known) (holds.of_suffix adds.suffix)

/-- The ledger says what stands where. -/
structure Shares (b : Builder) (l : Ledger) : Prop where
  sound : b.Sound
  shared : b.config.shareTables = true
  places : l.tables.map (·.1) = b.tables
  tables : ∀ t ∈ l.tables, Holds b.settled t.1 t.2 ∧ TellsLength t.2
  different : (l.tables.map (·.2)).Nodup
  records : ∀ r ∈ l.records, ∃ t ∈ l.tables, t.2 = r.2 ∧ Holds b.settled r.1 (tableOffset t.1 r.1)

theorem Shares.keep (shares : Shares b l) (advances : Advances b b') (same : b'.tables = b.tables) :
    Shares b' l where
  sound := advances.sound
  shared := advances.config ▸ shares.shared
  places := shares.places.trans same.symm
  tables t mem := ⟨(shares.tables t mem).1.of_suffix advances.kept, (shares.tables t mem).2⟩
  different := shares.different
  records r mem :=
    let ⟨t, among, same, offset⟩ := shares.records r mem
    ⟨t, among, same, offset.of_suffix advances.kept⟩

theorem shares_ofConfig (config : Config) : Shares (ofConfig { config with shareTables := true }) {} :=
  ⟨ofConfig_sound _, rfl, rfl, nofun, List.nodup_nil, nofun⟩

theorem Shares.reset (shares : Shares b l) : Shares b.reset {} :=
  ⟨reset_sound shares.sound, shares.shared, rfl, nofun, List.nodup_nil, nofun⟩

/-- What the end of a record leaves, whether its table was found or written. -/
theorem Shares.close (shares : Shares b l) {start : Nat} {fields : List Field}
    (closed : Closed b start fields d b') (mem : t ∈ b'.tables)
    (entered : Enters b (tableBytes d (d - start) fields) t b'.tables)
    (holds : Holds b'.written t (tableBytes d (d - start) fields))
    (offset : Holds b'.written d (tableOffset t d)) (below : ∀ f ∈ fields, f.slot < slotLimit) :
    Shares b' (l.close b b' d (tableBytes d (d - start) fields)) := by
  have advances := closed_advances closed
  have whole := tableBytes_tellsLength d (d - start) below
  have all : b'.settled = b'.written := settled_eq_written closed.region (floor_idle closed.stage)
  rw [← all] at holds offset
  have shared : b'.config.shareTables = true := closed.config ▸ shares.shared
  have older (u : Nat × List UInt8) (among : u ∈ l.tables) : Holds b'.settled u.1 u.2 ∧ TellsLength u.2 :=
    ⟨(shares.tables u among).1.of_suffix advances.kept, (shares.tables u among).2⟩
  have before (r : Nat × List UInt8) (among : r ∈ l.records) :
      ∃ u ∈ l.tables, u.2 = r.2 ∧ Holds b'.settled r.1 (tableOffset u.1 r.1) :=
    let ⟨u, known, same, offset⟩ := shares.records r among
    ⟨u, known, same, offset.of_suffix advances.kept⟩
  rcases entered with same | ⟨more, missing⟩
  · -- The table was found, and what stands there is the table.
    rw [same, ← shares.places] at mem
    obtain ⟨u, among, rfl⟩ := List.mem_map.1 mem
    have equal := table_eq_of_holds (older u among).1 holds (older u among).2 whole
    rw [Ledger.close, if_pos same]
    refine ⟨advances.sound, shared, shares.places.trans same.symm, older, shares.different, ?_⟩
    exact List.forall_mem_cons.2 ⟨⟨u, among, equal, offset⟩, before⟩
  · have longer : b'.tables ≠ b.tables := by
      rw [more]
      exact List.cons_ne_self t b.tables
    have head : b'.tables.headD 0 = t := by rw [more, List.headD_cons]
    rw [Ledger.close, if_neg longer, head]
    refine ⟨advances.sound, shared, ?_, ?_, ?_, ?_⟩
    · rw [more, List.map_cons, shares.places]
    · exact List.forall_mem_cons.2 ⟨⟨holds, whole⟩, older⟩
    · rw [List.map_cons, List.nodup_cons]
      refine ⟨fun known => ?_, shares.different⟩
      obtain ⟨u, among, same⟩ := List.mem_map.1 known
      have place : u.1 ∈ b.tables := shares.places ▸ List.mem_map_of_mem among
      have stands := (shares.tables u among).1.of_suffix (settled_suffix_written b)
      rw [show u.2 = tableBytes d (d - start) fields from same] at stands
      exact missing whole u.1 place stands
    · refine List.forall_mem_cons.2 ⟨⟨_, List.mem_cons_self, rfl, offset⟩, fun r among => ?_⟩
      obtain ⟨u, known, same⟩ := before r among
      exact ⟨u, List.mem_cons_of_mem _ known, same⟩

theorem Shares.endRecord (shares : Shares b l) :
    Ends endRecord b (fun ref b' => ∃ start fields, b.stage = .record start fields ∧
      Shares b' (l.close b b' ref.distance (tableBytes ref.distance (ref.distance - start) fields)))
      fun _ b' => Shares b' l := by
  refine (endRecord_places (Q := Enters b) (fun table adds => placeTable_enters shares.shared adds table)
    shares.sound).mono (fun ref b' done => ?_) fun _ b' bad => ?_
  · obtain ⟨start, fields, t, stage, closed, mem, entered, holds, offset⟩ := done
    have fits := shares.sound.fits
    rw [stage] at fits
    have below : ∀ f ∈ fields, f.slot < slotLimit := fun f mem => (fits.2.1 f mem).2.2
    exact ⟨start, fields, stage, shares.close closed mem entered holds offset below⟩
  · obtain ⟨left, adds⟩ := bad
    exact shares.keep (adds.advances shares.sound) adds.tables

theorem Shares.apply (shares : Shares b l) (op : Operation) : Shares (b.apply op).2 (l.after b op) := by
  by_cases forgets : op = .reset
  · subst forgets
    exact shares.reset
  by_cases closes : op = .endRecord
  · subst closes
    have ends : Ends Operation.endRecord.step b (fun answer b' => ∃ ref start fields,
        answer = .object .record ref ∧ b.stage = .record start fields ∧
        Shares b' (l.close b b' ref.distance (tableBytes ref.distance (ref.distance - start) fields)))
        fun _ b' => Shares b' l := by
      rw [Operation.step, ends_map]
      refine shares.endRecord.mono (fun ref _ closed => ?_) fun _ _ bad => bad
      obtain ⟨start, fields, stage, done⟩ := closed
      exact ⟨ref, start, fields, rfl, stage, done⟩
    cases result : b.apply .endRecord with
    | mk answer b' =>
      cases answer with
      | ok answer =>
        obtain ⟨ref, start, fields, rfl, stage, done⟩ := ends.of_ok (run_of_apply_ok result)
        simp only [Ledger.after, result, stage]
        exact done
      | error e =>
        simp only [Ends, run_of_apply_error result] at ends
        have same : l.after b .endRecord = l := by
          simp only [Ledger.after, result]
        rw [same]
        exact ends
  · have same : l.after b op = l := by
      cases op with
      | reset => exact absurd rfl forgets
      | endRecord => exact absurd rfl closes
      | _ => rfl
    rw [same]
    have kept := tables_step forgets closes b
    refine shares.keep (apply_advances shares.sound op forgets) ?_
    simp only [Ends] at kept
    simp only [Builder.apply]
    cases result : op.step.run b <;> rw [result] at kept <;> exact kept

theorem Shares.run (shares : Shares b l) (ops : List Operation) : Shares (b.run ops) (l.run b ops) := by
  induction ops generalizing b l with
  | nil => exact shares
  | cons op rest ih => exact ih (shares.apply op)

/-- With sharing, after any operations whatever, every remembered distance is that of a table that was written and still
stands there as a whole, no two of these tables are equal, and two records that were closed since the last reset lead
to the same table if and only if the same table was computed for them. -/
theorem tables_shared_exactly (config : Config) (ops : List Operation) :
    let start := ofConfig { config with shareTables := true }
    let b := start.run ops
    let l := Ledger.run {} start ops
    (l.tables.map (·.1) = b.tables ∧ ∀ t ∈ l.tables, Holds b.written t.1 t.2 ∧ TellsLength t.2) ∧
    (l.tables.map (·.2)).Nodup ∧
    (∀ r ∈ l.records, ∃ t ∈ l.tables, b.tableOf r.1 = t.1 ∧ t.2 = r.2) ∧
    ∀ r ∈ l.records, ∀ s ∈ l.records, b.tableOf r.1 = b.tableOf s.1 ↔ r.2 = s.2 := by
  intro start b l
  have shares : Shares b l := (shares_ofConfig config).run ops
  have region := shares.sound.region
  have stands (t : Nat × List UInt8) (mem : t ∈ l.tables) : Holds b.written t.1 t.2 ∧ TellsLength t.2 :=
    ⟨(shares.tables t mem).1.of_suffix (settled_suffix_written b), (shares.tables t mem).2⟩
  have leads (r : Nat × List UInt8) (mem : r ∈ l.records) : ∃ t ∈ l.tables, b.tableOf r.1 = t.1 ∧ t.2 = r.2 := by
    obtain ⟨t, among, same, offset⟩ := shares.records r mem
    have inside := (stands t among).1.le_length
    rw [region.length_written] at inside
    exact ⟨t, among, tableOf_eq region (Nat.le_trans inside region.used_le)
      (offset.of_suffix (settled_suffix_written b)), same⟩
  refine ⟨⟨shares.places, stands⟩, shares.different, leads, fun r mem s mem' => ?_⟩
  obtain ⟨t, among, place, table⟩ := leads r mem
  obtain ⟨u, among', place', table'⟩ := leads s mem'
  rw [place, place', ← table, ← table']
  constructor
  · intro same
    have here := (stands t among).1
    rw [Int.ofNat.inj same] at here
    exact table_eq_of_holds here (stands u among').1 (stands t among).2 (stands u among').2
  · intro same
    rw [List.inj_on_of_nodup_map shares.different among among' same]

/-- Three records, of which the first and the last have the same fields and the one between them has not. One end of a
record is refused, and bytes are filled in between. -/
def mixedRecords : List Operation := [
  .startRecord, .addRequiredField 0 (.uint32 1), .endRecord, .endRecord,
  .startRecord, .addRequiredField 1 (.uint32 2), .endRecord,
  .startVector 1 4 4, .pushRef .record ⟨8⟩, .endVector,
  .startRecord, .addRequiredField 0 (.uint32 3), .endRecord]

example :
    let start := ofConfig {}
    (Ledger.run {} start mixedRecords).records.map (·.1) = [48, 24, 8] ∧
    (Ledger.run {} start mixedRecords).records.map (fun r => (start.run mixedRecords).tableOf r.1) = [14, 32, 14] ∧
    (start.run mixedRecords).tables = [32, 14] := by
  decide +kernel

end FlatRecord.Builder
