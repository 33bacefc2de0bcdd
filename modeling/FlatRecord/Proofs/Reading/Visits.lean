import FlatRecord.Proofs.Reading.Safety
import FlatRecord.Proofs.Reading.Stored

/-! Records that others share are visited once for each way to them. A chain of records that refer to the next one
twice so takes exponentially many visits, and each of them is counted. -/
namespace FlatRecord

open Reading Machine Builder

/-- From every count, `x` succeeds and counts `n` more, unless the sum is no word. -/
def Tallies (x : Counting α) (n : Nat) : Prop :=
  ∃ a, ∀ c ≤ largestWord, x.run c = if c + n ≤ largestWord then pure (a, c + n) else overflow

section Tallies

variable {x : Counting α} {m n : Nat}

theorem tallies_pure (a : α) : Tallies (pure a) 0 := by
  refine ⟨a, fun c small => ?_⟩
  rw [Nat.add_zero, if_pos small]
  rfl

theorem tallies_bind {f : α → Counting β} (first : Tallies x m) (rest : ∀ a, Tallies (f a) n) :
    Tallies (x >>= f) (m + n) := by
  obtain ⟨a, first⟩ := first
  obtain ⟨b, rest⟩ := rest a
  refine ⟨b, fun c small => ?_⟩
  rw [StateT.run_bind, first c small]
  by_cases fits : c + m ≤ largestWord
  · rw [if_pos fits, pure_bind, rest _ fits, Nat.add_assoc]
  · rw [if_neg fits, if_neg (by omega)]
    rfl

theorem tallies_map (tallies : Tallies x n) (f : α → β) : Tallies (f <$> x) n := by
  rw [map_eq_pure_bind]
  exact tallies_bind tallies fun a => tallies_pure (f a)

/-- What reads without counting, as it is known to. -/
theorem tallies_known {y : Checked α} {a : α} {f : α → Counting β} (known : y.run = some (.ok a))
    (rest : Tallies (f a) n) : Tallies (liftM y >>= f) n := by
  have same : y = pure a := known
  rw [same]
  exact rest

theorem tallies_charge {limits : Limits} (all : limits.maxObjects = largestWord) (e : Error) :
    Tallies (Machine.charge limits e) 1 := by
  refine ⟨(), fun c small => ?_⟩
  rw [StateT.run, Machine.charge, add]
  by_cases fits : c + 1 ≤ largestWord
  · rw [if_pos fits, if_pos fits, pure_bind, if_neg (by omega)]
  · rw [if_neg fits, if_neg fits]
    rfl

theorem tallies_foldlM {f : β → α → Counting β} {items : List α}
    (each : ∀ b, ∀ a ∈ items, Tallies (f b a) n) (b : β) : Tallies (items.foldlM f b) (items.length * n) := by
  induction items generalizing b with
  | nil => simpa using tallies_pure b
  | cons a rest ih =>
    rw [List.foldlM_cons, List.length_cons, Nat.succ_mul, Nat.add_comm]
    have first := each b a List.mem_cons_self
    exact tallies_bind first (ih fun b a mem => each b a (List.mem_cons_of_mem _ mem))

end Tallies

/-- A record that may have two others of its type. -/
def fork : RecordType :=
  { name := "Fork", fields := [.ofType "left" 0 (.record "Fork"), .ofType "right" 1 (.record "Fork")] }

def forkSchema : Schema := { records := [fork], root := some "Fork" }

/-- At distance `d`, a chain of `n` records and one more, each with the next one on both sides. -/
inductive Chain (buf : Bytes) : (n d : Nat) → Prop where
  | last {d : Nat} (stored : RecordStored buf.toList d []) : Chain buf 0 d
  | next {n d e : Nat} (stored : RecordStored buf.toList d [(0, .ref .record e), (1, .ref .record e)])
      (rest : Chain buf n e) : Chain buf (n + 1) d

section Chain

variable {buf : Bytes} {t : Table} {f : RecordField} {child : Machine.Child} {limits : Limits} {n d depth : Nat}

theorem fork_slot (mem : f ∈ fork.fields) : f.type = .record "Fork" ∧ (f.slot = 0 ∨ f.slot = 1) := by
  rcases List.mem_cons.1 mem with rfl | mem
  · exact ⟨rfl, .inl rfl⟩
  · cases List.mem_singleton.1 mem
    exact ⟨rfl, .inr rfl⟩

theorem fork_field_absent (finds : t.Finds buf []) (mem : f ∈ fork.fields) :
    t.field buf forkSchema f = .ok .absent := by
  obtain ⟨kind, -⟩ := fork_slot mem
  simp only [Table.field, kind, Table.record?]
  rw [finds.target_absent List.not_mem_nil]
  rfl

theorem fork_field {e : Nat} {t' : Table} (finds : t.Finds buf [(0, .ref .record e), (1, .ref .record e)])
    (read : Table.read buf (buf.size - e) = .ok t') (mem : f ∈ fork.fields) :
    t.field buf forkSchema f = .ok (.single (.record "Fork" t')) := by
  obtain ⟨kind, slot⟩ := fork_slot mem
  have among : (f.slot, Piece.ref .record e) ∈ [(0, Piece.ref .record e), (1, .ref .record e)] := by
    rcases slot with slot | slot
    · simp [slot]
    · simp [slot]
  simp only [Table.field, kind, Table.record?]
  rw [finds.target_ref among]
  simp only [ok_bind, Option.mapM_some, read]
  rfl

/-- The checked reader is the reader. -/
theorem fork_field_run (addressable : Addressable buf) (within : t.Within buf) (mem : f ∈ fork.fields) :
    (Machine.field buf t forkSchema f).run = some (t.field buf forkSchema f) := by
  obtain ⟨kind, slot⟩ := fork_slot mem
  have small : f.slot < slotLimit := by
    have limit : slotLimit = 32765 := rfl
    omega
  have valid : f.Valid forkSchema := by
    rw [RecordField.Valid, kind]
    exact ⟨fork, rfl⟩
  have out : forkSchema.LaidOut := fun _ mem => absurd mem List.not_mem_nil
  exact (field_sane addressable within small valid out).same

/-- A record counts itself, and what each of its two sides counts. -/
theorem fork_tallies (all : limits.maxObjects = largestWord)
    (each : ∀ f ∈ fork.fields, ∃ view, (Machine.field buf t forkSchema f).run = some (.ok view) ∧
      Tallies (Machine.decodeField buf limits child depth t.position view) n) :
    Tallies (Machine.decodeRecord buf forkSchema limits child depth "Fork" t) (1 + 2 * n) := by
  refine tallies_bind (tallies_charge all _) fun _ => tallies_known (a := fork) rfl ?_
  refine tallies_foldlM (fun r f mem => ?_) []
  obtain ⟨view, known, tallies⟩ := each f (List.mem_of_mem_filter mem)
  refine tallies_known known (tallies_bind (n := 0) tallies fun value => ?_)
  cases value with
  | none => exact tallies_pure r
  | some v => exact tallies_pure (Record.set r f.name v)

/-- Decoding a chain counts every way through it. -/
theorem chain_tallies (addressable : Addressable buf) (all : limits.maxObjects = largestWord)
    (chain : Chain buf n d) (levels depth : Nat) (deep : n < levels) (shallow : depth + n ≤ largestWord) :
    ∃ t, Table.read buf (buf.size - d) = .ok t ∧
      Tallies (Machine.decodeLevels buf forkSchema limits levels depth "Fork" t) (2 ^ (n + 1) - 1) := by
  induction chain generalizing levels depth with
  | last stored =>
    obtain ⟨levels, rfl⟩ : ∃ below, levels = below + 1 := ⟨levels - 1, by omega⟩
    obtain ⟨t, read, -, finds⟩ := record_stored_reads stored
    have within := ((Table.read_reads buf _).of_ok read).2
    refine ⟨t, read, fork_tallies (n := 0) all fun f mem => ⟨.absent, ?_, tallies_pure none⟩⟩
    rw [fork_field_run addressable within mem, fork_field_absent finds mem]
  | @next n d e stored rest ih =>
    obtain ⟨levels, rfl⟩ : ∃ below, levels = below + 1 := ⟨levels - 1, by omega⟩
    obtain ⟨t, read, -, finds⟩ := record_stored_reads stored
    have within := ((Table.read_reads buf _).of_ok read).2
    have deeper : (add depth 1).run = some (.ok (depth + 1)) := by
      rw [add, if_pos (by omega)]
      rfl
    obtain ⟨t', read', tallies⟩ := ih levels (depth + 1) (by omega) (by omega)
    -- One visit to the record itself, and all those behind it once for each side.
    have twice : 2 ^ (n + 1 + 1) - 1 = 1 + 2 * (2 ^ (n + 1) - 1) := by
      have positive := Nat.one_le_two_pow (n := n + 1)
      rw [Nat.pow_succ]
      omega
    rw [twice]
    refine ⟨t, read, fork_tallies all fun f mem => ⟨.single (.record "Fork" t'), ?_, ?_⟩⟩
    · rw [fork_field_run addressable within mem, fork_field finds read' mem]
    · have record := tallies_bind tallies fun r => tallies_pure (Value.record r)
      exact tallies_map (tallies_known deeper record) some

end Chain

/-- The offset of a record to its field table, both at their distances from the end. -/
def tableOffset (d table : Nat) : List UInt8 := (Scalar.int32 (Int32.ofInt ((table : Int) - d))).toBytes

@[simp] theorem length_tableOffset (d table : Nat) : (tableOffset d table).length = 4 := rfl

/-- The last records of a chain of `n` and one. The last one's field table is empty, and the others share one. -/
def rungs (n : Nat) : Nat → List UInt8
  | 0 => tableOffset 4 (12 * n + 8)
  | k + 1 => tableOffset (12 * k + 16) (12 * n + 16) ++
    (LittleEndian.encode offsetSize 8 ++ (LittleEndian.encode offsetSize 4 ++ rungs n k))

/-- A chain of `n` records and one more, behind the offset to its root and the two field tables. -/
def ladder (n : Nat) : Bytes :=
  ([16, 0, 0, 0] ++ ([8, 0, 12, 0, 4, 0, 8, 0] ++ ([4, 0, 4, 0] ++ rungs n n))).toArray

section Ladder

variable {n k : Nat}

@[simp] theorem length_rungs (n k : Nat) : (rungs n k).length = 12 * k + 4 := by
  induction k with
  | zero => rfl
  | succ k ih =>
    simp only [rungs, List.length_append, length_tableOffset, LittleEndian.length_encode, ih, offsetSize]
    omega

theorem size_ladder (n : Nat) : (ladder n).size = 12 * n + 20 := by
  simp [ladder]

theorem rungs_suffix (n : Nat) {m : Nat} (fewer : k ≤ m) : rungs n k <:+ rungs n m := by
  induction fewer with
  | refl => exact List.suffix_rfl
  | @step m _ ih =>
    have sides := (List.suffix_append (LittleEndian.encode offsetSize 4) (rungs n m)).trans
      (List.suffix_append (LittleEndian.encode offsetSize 8) _)
    exact ih.trans (sides.trans (List.suffix_append (tableOffset (12 * m + 16) (12 * n + 16)) _))

theorem holds_rungs (fewer : k ≤ n) : Holds (ladder n).toList (12 * k + 4) (rungs n k) := by
  have here : Holds (rungs n k) (12 * k + 4) (rungs n k) := ⟨[], [], by simp, by simp⟩
  have behind : rungs n n <:+ (ladder n).toList :=
    ⟨[16, 0, 0, 0] ++ ([8, 0, 12, 0, 4, 0, 8, 0] ++ [4, 0, 4, 0]), rfl⟩
  exact here.of_suffix ((rungs_suffix n fewer).trans behind)

theorem holds_tables (n : Nat) : Holds (ladder n).toList (12 * n + 16) [8, 0, 12, 0, 4, 0, 8, 0] ∧
    Holds (ladder n).toList (12 * n + 8) [4, 0, 4, 0] := by
  constructor
  · exact ⟨[16, 0, 0, 0], [4, 0, 4, 0] ++ rungs n n, rfl, by simp⟩
  · exact ⟨[16, 0, 0, 0] ++ [8, 0, 12, 0, 4, 0, 8, 0], rungs n n, rfl, by simp⟩

theorem last_stored (small : 12 * n + 20 ≤ largestBuffer) : RecordStored (ladder n).toList 4 [] :=
  ⟨0, 12 * n + 8, [], {
    near := by decide
    tableNear := by omega
    large := by decide
    small := by decide
    offset := holds_rungs (Nat.zero_le n)
    table := (holds_tables n).2
    behind := nofun
    slots := nofun
    distinct := .nil
    fields := .nil }⟩

/-- The field table of a record at distance `12 * k + 16`, which has 12 bytes and both sides behind its first four. -/
theorem rung_table (k : Nat) :
    tableBytes (12 * k + 16) (12 * k + 16 - (12 * k + 4)) [⟨0, 12 * k + 12⟩, ⟨1, 12 * k + 8⟩] =
      [8, 0, 12, 0, 4, 0, 8, 0] := by
  have whole : 12 * k + 16 - (12 * k + 4) = 12 := by omega
  have left : entryOf (12 * k + 16) [⟨0, 12 * k + 12⟩, ⟨1, 12 * k + 8⟩] 0 = 4 := by
    change 12 * k + 16 - (12 * k + 12) = 4
    omega
  have right : entryOf (12 * k + 16) [⟨0, 12 * k + 12⟩, ⟨1, 12 * k + 8⟩] 1 = 8 := by
    change 12 * k + 16 - (12 * k + 8) = 8
    omega
  calc tableBytes (12 * k + 16) (12 * k + 16 - (12 * k + 4)) [⟨0, 12 * k + 12⟩, ⟨1, 12 * k + 8⟩]
      = LittleEndian.encode entrySize 8 ++ (LittleEndian.encode entrySize 12 ++
          (LittleEndian.encode entrySize (entryOf (12 * k + 16) [⟨0, 12 * k + 12⟩, ⟨1, 12 * k + 8⟩] 0) ++
            LittleEndian.encode entrySize (entryOf (12 * k + 16) [⟨0, 12 * k + 12⟩, ⟨1, 12 * k + 8⟩] 1))) := by
        rw [tableBytes_eq, whole]
        rfl
    _ = [8, 0, 12, 0, 4, 0, 8, 0] := by
        rw [left, right]
        rfl

/-- Both sides of a record on the ladder are the next one. -/
theorem rung_stored (small : 12 * n + 20 ≤ largestBuffer) (fewer : k < n) :
    RecordStored (ladder n).toList (12 * k + 16)
      [(0, .ref .record (12 * k + 4)), (1, .ref .record (12 * k + 4))] := by
  have here : Holds (ladder n).toList (12 * k + 16) (rungs n (k + 1)) := holds_rungs fewer
  have side {d : Nat} (holds : Holds (ladder n).toList d (LittleEndian.encode offsetSize (d - (12 * k + 4))))
      (forward : 12 * k + 4 < d) (near : d ≤ 12 * k + 12) :
      PieceStored (ladder n).toList d (.ref .record (12 * k + 4)) :=
    ⟨holds, by omega, forward, by omega⟩
  have left : PieceStored (ladder n).toList (12 * k + 12) (.ref .record (12 * k + 4)) := by
    refine side ?_ (by omega) (by omega)
    rw [show 12 * k + 12 - (12 * k + 4) = 8 by omega]
    exact here.right.left
  have right : PieceStored (ladder n).toList (12 * k + 8) (.ref .record (12 * k + 4)) := by
    refine side ?_ (by omega) (by omega)
    rw [show 12 * k + 8 - (12 * k + 4) = 4 by omega]
    exact here.right.right.left
  refine ⟨12 * k + 4, 12 * n + 16, [⟨0, 12 * k + 12⟩, ⟨1, 12 * k + 8⟩], ?_⟩
  exact {
    near := by omega
    tableNear := by omega
    large := by simp only [offsetSize]; omega
    small := by simp only [largestRecord]; omega
    offset := here.left
    table := rung_table k ▸ (holds_tables n).1
    behind := by simp [offsetSize]
    slots := by simp [slotLimit, tableHeaderSize, entrySize]
    distinct := by simp
    fields := .cons ⟨rfl, by simp [Piece.size, offsetSize], left⟩
      (.cons ⟨rfl, by simp [Piece.size, offsetSize], right⟩ .nil) }

theorem ladder_chain (small : 12 * n + 20 ≤ largestBuffer) (fewer : k ≤ n) : Chain (ladder n) k (12 * k + 4) := by
  induction k with
  | zero => exact .last (last_stored small)
  | succ k ih => exact .next (rung_stored small fewer) (ih (Nat.le_of_lt fewer))

theorem ladder_addressable (small : 12 * n + 20 ≤ largestBuffer) : Addressable (ladder n) := by
  have limit : largestBuffer = 2 ^ 31 - 1 := rfl
  rw [Addressable, size_ladder]
  omega

theorem ladder_follow (n : Nat) : follow (ladder n) 0 = .ok 16 := by
  have holds : Holds (ladder n).toList (ladder n).size (LittleEndian.encode offsetSize 16) :=
    ⟨[], [8, 0, 12, 0, 4, 0, 8, 0] ++ ([4, 0, 4, 0] ++ rungs n n), rfl, rfl⟩
  have first := nat_of_holds holds (by decide)
  rw [Nat.sub_self] at first
  rw [follow, first]
  simp only [ok_bind, size_ladder]
  rw [if_neg (by decide), if_neg (by omega)]
  rfl

/-- A ladder of 64 records and one more has more ways through it than a word can count. -/
theorem ladder_overflows (small : 12 * n + 20 ≤ largestBuffer) (tall : 64 ≤ n) {limits : Limits}
    (all : limits.maxObjects = largestWord) (deep : n ≤ limits.maxDepth) :
    Machine.decodeRoot forkSchema (ladder n) { limits } = overflow := by
  have limit : largestBuffer = 2 ^ 31 - 1 := rfl
  have word : largestWord = 2 ^ 64 - 1 := rfl
  have addressable := ladder_addressable small
  obtain ⟨t, read, r, counts⟩ := chain_tallies addressable all (ladder_chain small (Nat.le_refl n))
    (limits.maxDepth + 1) 0 (Nat.lt_succ_of_le deep) (by omega)
  have many : 2 ^ 65 ≤ 2 ^ (n + 1) := Nat.pow_le_pow_right (by decide) (by omega)
  have counts := counts 0 (Nat.zero_le _)
  rw [if_neg (by omega)] at counts
  rw [size_ladder, show 12 * n + 20 - (12 * n + 4) = 16 by omega] at read
  have opened : Machine.openWith (ladder n) { limits } forkSchema = pure ⟨ladder n, 0⟩ := by
    have long : ¬(ladder n).size < offsetSize := by
      rw [size_ladder, offsetSize]
      omega
    rw [Machine.openWith, Buffer.ofBytes, if_neg long]
    rfl
  have root : Machine.root ⟨ladder n, 0⟩ = pure t := by
    rw [Machine.root, ladder_follow]
    have same := (readTable_sane addressable 16).same
    rw [read] at same
    exact same
  have rooted : Machine.lift forkSchema.rootRecord = pure fork := rfl
  have owned : Machine.toOwned (ladder n) forkSchema "Fork" t limits = overflow := by
    rw [Machine.toOwned, StateT.run'_eq, counts]
    rfl
  rw [Machine.decodeRoot, opened, pure_bind, rooted, pure_bind, root, pure_bind]
  exact owned

end Ladder

end FlatRecord
