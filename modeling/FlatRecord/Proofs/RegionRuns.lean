import FlatRecord.Proofs.Placement
import FlatRecord.Scalar.Basic

/-! Regions as lists. Whatever is done to a region, its bytes are those that the same operations leave in a plain list,
and a place that is named by its distance from the end is the same place in both. -/
namespace FlatRecord.Region

/-- What callers do to a region. -/
inductive Operation where
  | reserve (length : Nat)
  | push (bytes : List UInt8)
  | pushScalar (v : Scalar)
  | write (d : Nat) (bytes : List UInt8)
  | clear
deriving DecidableEq, Repr

namespace Operation

/-- The number of bytes that the operation adds. -/
def length : Operation → Nat
  | reserve length => length
  | push bytes => bytes.length
  | pushScalar v => v.size
  | write .. | clear => 0

def apply (r : Region) : Operation → Except Error Region
  | reserve length => r.reserve length
  | push bytes => r.push bytes
  | pushScalar v => r.push v.toBytes
  | write d bytes => r.write d bytes
  | clear => .ok r.clear

/-- The region after the operation, which leaves it alone when it fails. -/
def after (r : Region) (op : Operation) : Region :=
  match op.apply r with
  | .ok r' => r'
  | .error _ => r

/-- The operation on a list. -/
def onList (s : List UInt8) : Operation → List UInt8
  | reserve length => List.replicate length 0 ++ s
  | push bytes => bytes ++ s
  | pushScalar v => v.toBytes ++ s
  | write d bytes => replaced s d bytes
  | clear => []

/-- The list after the operation, which leaves it alone when it would become too long. -/
def afterList (maxSize : Nat) (s : List UInt8) (op : Operation) : List UInt8 :=
  if maxSize < s.length + op.length then s else op.onList s

/-- What is replaced has been written. -/
def Inside (s : List UInt8) : Operation → Prop
  | write d bytes => bytes.length ≤ d ∧ d ≤ s.length
  | reserve _ | push _ | pushScalar _ | clear => True

/-- The operation only adds bytes. -/
def Grows : Operation → Prop
  | reserve _ | push _ | pushScalar _ => True
  | write .. | clear => False

end Operation

def run (r : Region) (ops : List Operation) : Region := ops.foldl Operation.after r

def runList (maxSize : Nat) (s : List UInt8) (ops : List Operation) : List UInt8 :=
  ops.foldl (Operation.afterList maxSize) s

/-- Every replacement is one of bytes that are written by then. -/
def AllInside (maxSize : Nat) : (s : List UInt8) → List Operation → Prop
  | _, [] => True
  | s, op :: rest => op.Inside s ∧ AllInside maxSize (op.afterList maxSize s) rest

/-- The region holds the list, and keeps to its limits. -/
structure Refines (maxSize : Nat) (r : Region) (s : List UInt8) : Prop where
  sound : r.Sound
  limit : r.maxSize = maxSize
  written : r.written = s

variable {maxSize : Nat} {r : Region} {s : List UInt8}

theorem Refines.used (refines : Refines maxSize r s) : r.used = s.length := by
  rw [← refines.written, r.length_written refines.sound]

theorem Refines.data (refines : Refines maxSize r s) : r.data.toList = s :=
  r.toList_data.trans refines.written

theorem refines_new (initialCapacity maxSize : Nat) : Refines maxSize (new initialCapacity maxSize) [] :=
  ⟨new_sound .., rfl, written_new ..⟩

/-- Bytes are pushed unless the list would become too long. -/
theorem push_refines (refines : Refines maxSize r s) (word : maxSize < wordLimit) (bytes : List UInt8) :
    if maxSize < s.length + bytes.length then
      r.push bytes = .error (.sizeLimit (min (s.length + bytes.length) largestWord) maxSize)
    else ∃ r', r.push bytes = .ok r' ∧ Refines maxSize r' (bytes ++ s) := by
  have used := refines.used
  have limit := refines.limit
  rw [push]
  cases answer : r.room bytes.length with
  | error e =>
    obtain ⟨past, rfl⟩ := room_refused (limit ▸ word) answer
    rw [limit, used] at past ⊢
    rw [if_pos past]
    rfl
  | ok capacity =>
    obtain ⟨fits, -, limited⟩ := room_ok r _ _ refines.sound answer
    rw [if_neg (by omega)]
    refine ⟨_, rfl, r.extend_sound capacity bytes refines.sound answer, ?_, ?_⟩
    · rw [maxSize_extend, limit]
    · rw [r.written_extend capacity bytes refines.sound, refines.written]

theorem reserve_eq (r : Region) (length : Nat) : r.reserve length = r.push (List.replicate length 0) := by
  rw [reserve, push, List.length_replicate]
  cases r.room length <;> rfl

theorem write_refines (refines : Refines maxSize r s) {d : Nat} {bytes : List UInt8} (room : bytes.length ≤ d)
    (inside : d ≤ s.length) : ∃ r', r.write d bytes = .ok r' ∧ Refines maxSize r' (replaced s d bytes) := by
  have written : d ≤ r.used := refines.used ▸ inside
  refine ⟨r.overwrite d bytes, ?_, r.overwrite_sound d bytes refines.sound written, refines.limit, ?_⟩
  · rw [write, r.within_ok d bytes.length refines.sound written room]
    rfl
  · rw [r.written_overwrite d bytes refines.sound written room, refines.written]

/-- One operation fails exactly past the limit, and otherwise does to the region what it does to the list. -/
theorem Operation.apply_refines (refines : Refines maxSize r s) (word : maxSize < wordLimit) {op : Operation}
    (inside : op.Inside s) :
    if maxSize < s.length + op.length then
      op.apply r = .error (.sizeLimit (min (s.length + op.length) largestWord) maxSize)
    else ∃ r', op.apply r = .ok r' ∧ Refines maxSize r' (op.onList s) := by
  have room : s.length ≤ maxSize :=
    refines.used ▸ refines.limit ▸ Nat.le_trans refines.sound.fits refines.sound.limited
  cases op with
  | reserve length =>
    have zeros := push_refines refines word (List.replicate length 0)
    rw [← reserve_eq, List.length_replicate] at zeros
    exact zeros
  | push bytes => exact push_refines refines word bytes
  | pushScalar v =>
    have bytes := push_refines refines word v.toBytes
    rw [v.length_toBytes] at bytes
    exact bytes
  | write d bytes =>
    rw [if_neg (by simp only [length]; omega)]
    exact write_refines refines inside.1 inside.2
  | clear =>
    rw [if_neg (by simp only [length]; omega)]
    exact ⟨r.clear, rfl, r.clear_sound refines.sound, refines.limit, r.written_clear⟩

theorem Operation.after_refines (refines : Refines maxSize r s) (word : maxSize < wordLimit) {op : Operation}
    (inside : op.Inside s) : Refines maxSize (op.after r) (op.afterList maxSize s) := by
  have applied := op.apply_refines refines word inside
  rw [after, afterList]
  split at applied
  next past =>
    rw [applied, if_pos past]
    exact refines
  next fits =>
    obtain ⟨r', applied, refines⟩ := applied
    rw [applied, if_neg fits]
    exact refines

theorem run_refines (refines : Refines maxSize r s) (word : maxSize < wordLimit) {ops : List Operation}
    (inside : AllInside maxSize s ops) : Refines maxSize (run r ops) (runList maxSize s ops) := by
  induction ops generalizing r s with
  | nil => exact refines
  | cons op rest ih => exact ih (op.after_refines refines word inside.1) inside.2

theorem Refines.read (refines : Refines maxSize r s) {d length : Nat} (room : length ≤ d) (inside : d ≤ s.length) :
    r.read d length = .ok ((s.drop (s.length - d)).take length) := by
  have used := refines.used
  rw [Region.read, r.within_ok d length refines.sound (by omega) room, Except.map,
    r.bytesAt_eq d length refines.sound (by omega) room, refines.written, used]

/-- What only grows a list leaves it at the end. -/
theorem suffix_runList {ops : List Operation} (grow : ∀ op ∈ ops, op.Grows) : s <:+ runList maxSize s ops := by
  induction ops generalizing s with
  | nil => exact List.suffix_rfl
  | cons op rest ih =>
    obtain ⟨grows, later⟩ := List.forall_mem_cons.1 grow
    refine List.IsSuffix.trans ?_ (ih later)
    rw [Operation.afterList]
    split
    · exact List.suffix_rfl
    · cases op with
      | reserve | push | pushScalar => exact List.suffix_append ..
      | write | clear => cases grows

theorem allInside_of_grows {ops : List Operation} (grow : ∀ op ∈ ops, op.Grows) : AllInside maxSize s ops := by
  induction ops generalizing s with
  | nil => trivial
  | cons op rest ih =>
    obtain ⟨grows, later⟩ := List.forall_mem_cons.1 grow
    refine ⟨?_, ih later⟩
    cases op with
    | reserve | push | pushScalar => trivial
    | write | clear => cases grows

/-- Growth keeps the places. -/
theorem Refines.read_run (refines : Refines maxSize r s) (word : maxSize < wordLimit) {more : List Operation}
    (grow : ∀ op ∈ more, op.Grows) {d length : Nat} (room : length ≤ d) (inside : d ≤ s.length) :
    (run r more).read d length = r.read d length := by
  obtain ⟨front, longer⟩ : s <:+ runList maxSize s more := suffix_runList grow
  have later := run_refines refines word (allInside_of_grows grow)
  rw [← longer] at later
  rw [refines.read room inside, later.read room (by rw [List.length_append]; omega), List.length_append,
    Nat.add_sub_assoc inside, List.drop_length_add_append]

/-- Draining the unwritten front of the allocation leaves the written bytes. -/
theorem Refines.intoBytes (refines : Refines maxSize r s) : r.intoBytes = r.data := by
  have fits := refines.sound.fits
  have stored := refines.sound.stored
  have length := r.length_written refines.sound
  have whole := r.bytesAt_eq r.used r.used refines.sound (Nat.le_refl _) (Nat.le_refl _)
  rw [Nat.sub_self, List.drop_zero, List.take_of_length_le (Nat.le_of_eq length)] at whole
  apply Array.toList_inj.1
  rw [r.toList_data, ← whole]
  apply List.ext_getElem
  · simp [Region.intoBytes, allocation, bytesAt]
    omega
  · intro i below _
    have place : r.capacity - 1 - (r.capacity - r.used + i) = r.used - 1 - i := by omega
    simp [Region.intoBytes, allocation, bytesAt, place]

/-- The capacity after `count` doublings in words, where what is too large becomes the largest word. -/
def doublings : (count capacity : Nat) → Nat
  | 0, capacity => capacity
  | count + 1, capacity => doublings count (min (2 * capacity) largestWord)

/-- Doubling in words comes to an end as well, and at the same capacity once that is cut down to a word. -/
theorem doublings_end (required capacity : Nat) (positive : 0 < capacity) (word : required ≤ largestWord) :
    ∃ count, (∀ fewer < count, doublings fewer capacity < required) ∧ required ≤ doublings count capacity ∧
      ∀ limit ≤ largestWord, min (doublings count capacity) limit = min (doubled required capacity) limit := by
  fun_induction doubled required capacity with
  | case2 capacity stays =>
    refine ⟨0, fun _ none => absurd none (Nat.not_lt_zero _), ?_, fun _ _ => rfl⟩
    simp only [doublings]
    omega
  | case1 capacity grows ih =>
    by_cases small : 2 * capacity ≤ largestWord
    · obtain ⟨count, fewer, enough, same⟩ := ih (by omega)
      refine ⟨count + 1, fun n below => ?_, ?_, ?_⟩
      · cases n with
        | zero => exact grows.2
        | succ n =>
          rw [doublings, Nat.min_eq_left small]
          exact fewer n (Nat.lt_of_succ_lt_succ below)
      · rwa [doublings, Nat.min_eq_left small]
      · rw [doublings, Nat.min_eq_left small]
        exact same
    · refine ⟨1, fun n below => ?_, ?_, fun limit limited => ?_⟩
      · obtain rfl : n = 0 := by omega
        exact grows.2
      · simp only [doublings]
        omega
      · rw [doubled, if_neg (by omega)]
        simp only [doublings]
        omega

/-- After any operations the region is the list that they make, whichever of them failed: its bytes, what is read at
any place, and what fails next. Growth leaves every place where it was, and the capacity stays within its limit. -/
theorem run_refines_list (initialCapacity : Nat) (word : maxSize < wordLimit) (ops : List Operation)
    (inside : AllInside maxSize [] ops) :
    let r := run (new initialCapacity maxSize) ops
    let s := runList maxSize [] ops
    (r.data.toList = s ∧ r.used = s.length ∧ r.intoBytes = r.data) ∧
    (∀ d length, length ≤ d → d ≤ r.used →
      r.read d length = .ok ((s.drop (s.length - d)).take length) ∧
      ∀ more, (∀ op ∈ more, op.Grows) → (run r more).read d length = r.read d length) ∧
    (∀ op : Operation, op.Inside s →
      ((∃ e, op.apply r = .error e) ↔ maxSize < r.used + op.length) ∧
      ∀ e, op.apply r = .error e →
        e = .sizeLimit (min (r.used + op.length) largestWord) maxSize ∧ op.after r = r) ∧
    (r.used ≤ r.capacity ∧ r.capacity ≤ maxSize) ∧
    ∀ required ≤ largestWord, ∃ count,
      (∀ fewer < count, doublings fewer (max r.capacity 64) < required) ∧
      required ≤ doublings count (max r.capacity 64) ∧
      min (doublings count (max r.capacity 64)) maxSize = min (doubled required (max r.capacity 64)) maxSize := by
  intro r s
  have refines : Refines maxSize r s := run_refines (refines_new initialCapacity maxSize) word inside
  have used := refines.used
  refine ⟨⟨refines.data, used, refines.intoBytes⟩, fun d length room written => ⟨?_, fun more grow => ?_⟩,
    fun op inside => ?_, ⟨refines.sound.fits, ?_⟩, fun required least => ?_⟩
  · exact refines.read room (used ▸ written)
  · exact refines.read_run word grow room (used ▸ written)
  · have applied := op.apply_refines refines word inside
    rw [used]
    split at applied
    next past =>
      refine ⟨⟨fun _ => past, fun _ => ⟨_, applied⟩⟩, fun e failed => ?_⟩
      rw [Operation.after, failed]
      exact ⟨Except.error.inj (failed.symm.trans applied), rfl⟩
    next fits =>
      obtain ⟨r', applied, -⟩ := applied
      have never (e : Error) : op.apply r ≠ .error e := by simp [applied]
      exact ⟨⟨fun ⟨e, failed⟩ => absurd failed (never e), fun past => absurd past fits⟩,
        fun e failed => absurd failed (never e)⟩
  · rw [← refines.limit]
    exact refines.sound.limited
  · obtain ⟨count, fewer, enough, same⟩ := doublings_end required (max r.capacity 64) (by omega) least
    exact ⟨count, fewer, enough, same maxSize (by simp only [largestWord, wordLimit] at *; omega)⟩

/-- Three bytes, eighteen more that are refused, a number that needs a new allocation, and another first byte. -/
def fourWrites : List Operation := [.push [1, 2, 3], .reserve 18, .pushScalar (.uint32 7), .write 3 [9]]

/-- Of twenty bytes seven are written. The place of the first three is kept when ten more come in front of them, and
fourteen more are one too many. -/
theorem fourWrites_refine_list :
    20 < wordLimit ∧ AllInside 20 [] fourWrites ∧
    let r := run (new 4 20) fourWrites
    r.data.toList = [7, 0, 0, 0, 9, 2, 3] ∧ r.intoBytes = r.data ∧
    (run r [.push (List.replicate 10 5)]).read 3 2 = .ok [9, 2] ∧
    (Operation.reserve 14).apply r = .error (.sizeLimit 21 20) := by
  have word : 20 < wordLimit := by decide
  have list : runList 20 [] fourWrites = [7, 0, 0, 0, 9, 2, 3] := by decide
  have inside : AllInside 20 [] fourWrites := by
    refine ⟨trivial, trivial, trivial, ?_, trivial⟩
    show 1 ≤ 3 ∧ 3 ≤ (runList 20 [] (fourWrites.take 3)).length
    decide
  obtain ⟨⟨data, used, drained⟩, reads, fails, -, -⟩ := run_refines_list 4 word fourWrites inside
  simp only [list] at data used reads fails
  have seven : (run (new 4 20) fourWrites).used = 7 := used
  obtain ⟨read, kept⟩ := reads 3 2 (by decide) (by omega)
  obtain ⟨past, error⟩ := fails (.reserve 14) trivial
  obtain ⟨e, failed⟩ := past.2 (by simp only [Operation.length]; omega)
  refine ⟨word, inside, data, drained, ?_, ?_⟩
  · rw [kept [.push (List.replicate 10 5)] (by simp [Operation.Grows]), read]
    rfl
  · rw [failed, (error e failed).1, seven]
    rfl

end FlatRecord.Region
