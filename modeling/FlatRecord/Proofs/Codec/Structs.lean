import FlatRecord.Proofs.Codec.Normal
import FlatRecord.Proofs.Results
import FlatRecord.Proofs.Sizes

/-! Structs: what is written has the struct's size. In the natural layout members stand one behind the other, and read
back from where they were written. -/
namespace FlatRecord

namespace StructType

/-- The members stand behind `start`, one behind the other, and end at `stop`. -/
def Laid : (start : Nat) → List Member → (stop : Nat) → Prop
  | start, [], stop => start = stop
  | start, m :: rest, stop => start ≤ m.offset ∧ Laid (m.offset + m.type.size) rest stop

theorem laid_place (offset : Nat) (members : List (String × ScalarType)) :
    Laid offset (Member.place offset members).1 (Member.place offset members).2 := by
  induction members generalizing offset with
  | nil => rfl
  | cons member rest ih => exact ⟨Nat.le_add_right _ _, ih _⟩

theorem Laid.le {start stop : Nat} {members : List Member} (laid : Laid start members stop) :
    start ≤ stop := by
  induction members generalizing start with
  | nil => exact Nat.le_of_eq laid
  | cons m rest ih =>
    have := ih laid.2
    have := laid.1
    omega

theorem Laid.member_le {start stop : Nat} {members : List Member} (laid : Laid start members stop)
    {m : Member} (mem : m ∈ members) : start ≤ m.offset ∧ m.offset + m.type.size ≤ stop := by
  induction members generalizing start with
  | nil => cases mem
  | cons first rest ih =>
    obtain ⟨before, laid⟩ := laid
    rcases List.mem_cons.1 mem with rfl | later
    · exact ⟨before, laid.le⟩
    · have := ih laid later
      omega

theorem LaidOut.laid {s : StructType} (out : s.LaidOut) : ∃ stop ≤ s.size, Laid 0 s.layout stop := by
  rw [out.size, out.layout]
  exact ⟨_, Nat.le_add_right _ _, laid_place 0 s.members⟩

theorem names_layout (s : StructType) : s.layout.map (·.name) = s.members.map (·.1) := by
  have pairs := congrArg (List.map Prod.fst) s.layout_members
  rwa [List.map_map] at pairs

theorem nodup_layout {s : StructType} (distinct : (s.members.map (·.1)).Nodup) :
    (s.layout.map (·.name)).Nodup := by
  rw [s.names_layout]
  exact distinct

end StructType

theorem Scalar.type_ofInt {t : ScalarType} {n : Int} {v : Scalar}
    (same : Scalar.ofInt? t n = some v) : v.type = t := by
  simp only [Scalar.ofInt?] at same
  split at same
  · cases same; rfl
  · cases same; rfl
  · cases same; rfl
  · split at same
    · split at same
      · cases same; exact Scalar.type_ofBits _ _
      · cases same
    · cases same

theorem Schema.type_scalarOfInt {t : ScalarType} {i : Int} {v : Scalar}
    (found : Schema.scalarOfInt t i = .ok v) : v.type = t := by
  simp only [scalarOfInt] at found
  split at found
  next here => cases found; exact Scalar.type_ofInt here
  next => cases found

theorem Scalar.type_convert {a b : Scalar} {t : ScalarType} (same : a.convert? t = some b) :
    b.type = t := by
  simp only [Scalar.convert?] at same
  split at same
  next here => cases same; exact here
  next =>
    split at same
    next => cases same
    next =>
      split at same
      · cases same; rfl
      · cases same; rfl
      · obtain ⟨n, _, found⟩ := Option.bind_eq_some_iff.1 same
        exact Scalar.type_ofInt found

namespace Encoding

theorem coerce_eq_ok {v w : Scalar} {t : ScalarType} {field : String} :
    coerce v t field = .ok w ↔ v.convert? t = some w := by
  simp only [coerce]
  split <;> simp [*]

theorem type_coerce {v w : Scalar} {t : ScalarType} {field : String}
    (coerced : coerce v t field = .ok w) : w.type = t :=
  Scalar.type_convert (coerce_eq_ok.1 coerced)

theorem memberValue_eq_ok {s : StructType} {m : Member} {entries : Record} {v : Scalar} :
    memberValue s m entries = .ok v ↔
      ∃ w, entries.get? m.name = some (.scalar w) ∧ w.convert? m.type = some v := by
  simp only [memberValue]
  split
  next w found => simp [found, coerce_eq_ok]
  next other wrong found => cases other <;> simp_all
  next missing => simp [missing]

theorem length_memberValue {s : StructType} {m : Member} {entries : Record} {v : Scalar}
    (value : memberValue s m entries = .ok v) : v.toBytes.length = m.type.size := by
  obtain ⟨w, _, converted⟩ := memberValue_eq_ok.1 value
  rw [v.length_toBytes, Scalar.size, Scalar.type_convert converted]

theorem overwrite_eq_ok {bytes member written : List UInt8} {start : Nat} :
    overwrite bytes start member = .ok written ↔ start + member.length ≤ bytes.length ∧
      bytes.take start ++ member ++ bytes.drop (start + member.length) = written := by
  simp only [overwrite]
  split <;> simp [*]

theorem length_overwrite {bytes member written : List UInt8} {start : Nat}
    (same : overwrite bytes start member = .ok written) : written.length = bytes.length := by
  obtain ⟨room, rfl⟩ := overwrite_eq_ok.1 same
  simp only [List.length_append, List.length_take, List.length_drop]
  omega

theorem length_writeMembers {s : StructType} {entries : Record} {members : List Member} {bytes written : List UInt8}
    (same : writeMembers s entries members bytes = .ok written) : written.length = bytes.length := by
  induction members generalizing bytes with
  | nil => cases same; rfl
  | cons m rest ih =>
    obtain ⟨v, value, same⟩ := bind_eq_ok.1 same
    obtain ⟨next, put, same⟩ := bind_eq_ok.1 same
    exact (ih same).trans (length_overwrite put)

/-- The members' bytes from offset `start` on, one behind the other, with zeros between them. -/
def memberBytes (s : StructType) (entries : Record) : (start : Nat) → List Member → Except Error (List UInt8)
  | start, [] => .ok (List.replicate (s.size - start) 0)
  | start, m :: rest => do
    let v ← memberValue s m entries
    let later ← memberBytes s entries (m.offset + m.type.size) rest
    return List.replicate (m.offset - start) 0 ++ v.toBytes ++ later

/-- What is put behind some zeros leaves those before it and those behind it. -/
theorem overwrite_zeros (front : List UInt8) {member : List UInt8} {gap room : Nat}
    (fits : gap + member.length ≤ room) :
    overwrite (front ++ List.replicate room 0) (front.length + gap) member =
      .ok ((front ++ List.replicate gap 0 ++ member) ++ List.replicate (room - (gap + member.length)) 0) := by
  rw [overwrite, if_pos (by rw [List.length_append, List.length_replicate]; omega), List.take_length_add_append,
    List.take_replicate, Nat.add_assoc, List.drop_length_add_append, List.drop_replicate,
    Nat.min_eq_left (by omega)]

/-- In the natural layout no member's bytes reach another's, so they may as well come one behind the other. -/
theorem writeMembers_eq {s : StructType} {entries : Record} {members : List Member} {front : List UInt8}
    {start stop : Nat} (laid : StructType.Laid start members stop) (inside : stop ≤ s.size)
    (length : front.length = start) :
    writeMembers s entries members (front ++ List.replicate (s.size - start) 0) =
      (memberBytes s entries start members).map (front ++ ·) := by
  induction members generalizing start front with
  | nil => rfl
  | cons m rest ih =>
    obtain ⟨before, laid⟩ := laid
    rw [writeMembers, memberBytes]
    cases value : memberValue s m entries with
    | error e => rfl
    | ok v =>
      have size := length_memberValue value
      have within := laid.le
      have fits : m.offset - start + v.toBytes.length ≤ s.size - start := by omega
      have placed := overwrite_zeros front fits
      rw [show front.length + (m.offset - start) = m.offset by omega, size,
        show s.size - start - (m.offset - start + m.type.size) = s.size - (m.offset + m.type.size) by omega] at placed
      have filled : (front ++ List.replicate (m.offset - start) 0 ++ v.toBytes).length = m.offset + m.type.size := by
        simp only [List.length_append, List.length_replicate, size]
        omega
      rw [ok_bind, ok_bind, placed, ok_bind, ih laid filled]
      cases memberBytes s entries (m.offset + m.type.size) rest with
      | error e => rfl
      | ok bytes => simp

theorem writeMembers_layout {s : StructType} (out : s.LaidOut) (entries : Record) :
    writeMembers s entries s.layout (List.replicate s.size 0) = memberBytes s entries 0 s.layout := by
  obtain ⟨stop, inside, laid⟩ := out.laid
  have same : writeMembers s entries s.layout (List.replicate s.size 0) = _ :=
    writeMembers_eq laid inside (rfl : ([] : List UInt8).length = 0)
  rw [same]
  cases memberBytes s entries 0 s.layout <;> rfl

/-- Every member's bytes stand at its offset. -/
theorem memberBytes_spec {s : StructType} {entries : Record} {start stop : Nat}
    {members : List Member} {bytes : List UInt8} (laid : StructType.Laid start members stop)
    (inside : stop ≤ s.size) (written : memberBytes s entries start members = .ok bytes) :
    bytes.length = s.size - start ∧ ∀ m ∈ members, ∃ v, memberValue s m entries = .ok v ∧
      (bytes.drop (m.offset - start)).take m.type.size = v.toBytes := by
  induction members generalizing start bytes with
  | nil =>
    cases written
    simp
  | cons m rest ih =>
    obtain ⟨before, laid⟩ := laid
    obtain ⟨v, value, written⟩ := bind_eq_ok.1 written
    obtain ⟨later, tail, written⟩ := bind_eq_ok.1 written
    cases written
    obtain ⟨length, each⟩ := ih laid tail
    have within := laid.le
    have size := length_memberValue value
    refine ⟨?_, fun m' mem => ?_⟩
    · simp only [List.length_append, List.length_replicate, size, length]
      omega
    · rcases List.mem_cons.1 mem with rfl | mem
      · refine ⟨v, value, ?_⟩
        rw [List.append_assoc, List.drop_left' (List.length_replicate ..), List.take_left' size]
      · obtain ⟨v', value', found⟩ := each m' mem
        have behind := (laid.member_le mem).1
        refine ⟨v', value', ?_⟩
        have split : m'.offset - start =
            (List.replicate (m.offset - start) (0 : UInt8) ++ v.toBytes).length +
              (m'.offset - (m.offset + m.type.size)) := by
          simp only [List.length_append, List.length_replicate, size]
          omega
        rw [split, ← List.drop_drop, List.drop_left]
        exact found

/-- The entries of a struct that was written: all members, and nothing else. -/
structure Complete (s : StructType) (entries : Record) (bytes : List UInt8) : Prop where
  length : bytes.length = s.size
  known : ∀ entry ∈ entries, s.member? entry.1 ≠ none
  inside : ∀ m ∈ s.layout, m.offset + m.type.size ≤ s.size
  member : ∀ m ∈ s.layout, ∃ v, memberValue s m entries = .ok v ∧
    (bytes.drop m.offset).take m.type.size = v.toBytes

/-- What stands for a struct has entries, each of them a member's, and the members' values are what is written. -/
theorem structBytes_eq_ok {s : StructType} {value : Value} {field : String} {bytes : List UInt8} :
    structBytes s value field = .ok bytes ↔ ∃ entries, value.entries? = some entries ∧
      (∀ entry ∈ entries, s.member? entry.1 ≠ none) ∧
        writeMembers s entries s.layout (List.replicate s.size 0) = .ok bytes := by
  have known {entries : Record} : (entries.find? fun entry => (s.member? entry.1).isNone) = none ↔
      ∀ entry ∈ entries, s.member? entry.1 ≠ none := by
    simp [List.find?_eq_none]
  have checked (entries : Record) : structBytes s (.struct entries) field = .ok bytes ↔
      (∀ entry ∈ entries, s.member? entry.1 ≠ none) ∧
        writeMembers s entries s.layout (List.replicate s.size 0) = .ok bytes := by
    rw [← known]
    simp only [structBytes]
    cases entries.find? fun entry => (s.member? entry.1).isNone with
    | some entry => simp
    | none => simp
  cases value with
  | struct entries => simp [Value.entries?, checked]
  | record entries =>
    rw [show structBytes s (.record entries) field = structBytes s (.struct entries) field from rfl]
    simp [Value.entries?, checked]
  | scalar v | text v | bytes v | vector v => simp [structBytes, Value.entries?]

/-- Bytes that are written have the struct's size, whatever its layout. -/
theorem length_structBytes {s : StructType} {value : Value} {field : String} {bytes : List UInt8}
    (written : structBytes s value field = .ok bytes) : bytes.length = s.size := by
  obtain ⟨entries, given, known, written⟩ := structBytes_eq_ok.1 written
  rw [length_writeMembers written, List.length_replicate]

theorem complete_of_written {s : StructType} {entries : Record} {bytes : List UInt8} (out : s.LaidOut)
    (known : ∀ entry ∈ entries, s.member? entry.1 ≠ none)
    (written : writeMembers s entries s.layout (List.replicate s.size 0) = .ok bytes) :
    Complete s entries bytes := by
  rw [writeMembers_layout out] at written
  obtain ⟨stop, inside, laid⟩ := out.laid
  obtain ⟨length, each⟩ := memberBytes_spec laid inside written
  exact ⟨length, known, fun m mem => Nat.le_trans (laid.member_le mem).2 inside, each⟩

theorem structBytes_spec {s : StructType} {value : Value} {field : String} {bytes : List UInt8} (out : s.LaidOut)
    (written : structBytes s value field = .ok bytes) :
    ∃ entries, (value = .struct entries ∨ value = .record entries) ∧ Complete s entries bytes := by
  obtain ⟨entries, given, known, written⟩ := structBytes_eq_ok.1 written
  refine ⟨entries, ?_, complete_of_written out known written⟩
  cases value with
  | struct entries => cases given; exact .inl rfl
  | record entries => cases given; exact .inr rfl
  | scalar v | text v | bytes v | vector v => cases given

end Encoding

namespace Decoding

open Encoding Reading

theorem member_reads {bytes : List UInt8} {m : Member} {v : Scalar} (type : v.type = m.type)
    (room : m.offset + m.type.size ≤ bytes.length)
    (found : (bytes.drop m.offset).take m.type.size = v.toBytes) :
    member bytes.toArray m.offset m.type = .ok v := by
  have front : (bytes.toArray.extract m.offset (m.offset + m.type.size)).toList = v.toBytes := by
    rw [Array.toList_extract, List.extract_eq_take_drop, Nat.add_sub_cancel_left]
    exact found
  have read := Scalar.ofBytes_toBytes v []
  rw [List.append_nil, type] at read
  rw [member, if_pos (by simpa using room), front, read]

theorem name_normalMember (s : StructType) (entry : String × Value) :
    (normalMember s entry).1 = entry.1 := by
  simp only [normalMember]
  split <;> rfl

theorem sorted_normalMember (s : StructType) {entries : Record} (sorted : entries.Sorted) :
    Record.Sorted (entries.map (normalMember s)) := by
  refine List.pairwise_map.2 (sorted.imp fun before => ?_)
  rwa [name_normalMember, name_normalMember]

theorem get?_normalMember (s : StructType) (entries : Record) (name : String) :
    Record.get? (entries.map (normalMember s)) name =
      (entries.get? name).map fun v => (normalMember s (name, v)).2 := by
  induction entries with
  | nil => rfl
  | cons entry rest ih =>
    rw [List.map_cons, Record.get?_cons, Record.get?_cons, ih, name_normalMember]
    by_cases same : entry.1 = name
    · subst same; simp
    · simp [same]

/-- The members' values under their names. -/
theorem ownedStruct_eq {s : StructType} {bytes : Bytes} {value : Member → Scalar}
    (each : ∀ m ∈ s.layout, member bytes m.offset m.type = .ok (value m)) :
    ownedStruct s bytes = .ok (collected Member.name s.layout (some ∘ Value.scalar ∘ value) []) := by
  simp only [ownedStruct]
  generalize s.layout = members at each
  suffices general : ∀ r : Record, members.foldlM (fun r m => do
      return Record.set r m.name (.scalar (← member bytes m.offset m.type))) r =
      .ok (collected Member.name members (some ∘ Value.scalar ∘ value) r) from general []
  induction members with
  | nil => exact fun _ => rfl
  | cons m rest ih =>
    intro r
    rw [List.foldlM_cons, each m List.mem_cons_self]
    exact ih (fun m' mem => each m' (List.mem_cons_of_mem _ mem)) _

/-- What was written reads back as the members' values, collected. -/
theorem ownedStruct_collected {s : StructType} {entries : Record} {bytes : List UInt8}
    (complete : Complete s entries bytes) :
    ∃ value : Member → Scalar, (∀ m ∈ s.layout, memberValue s m entries = .ok (value m)) ∧
      ownedStruct s bytes.toArray =
        .ok (collected Member.name s.layout (some ∘ Value.scalar ∘ value) []) := by
  let value (m : Member) : Scalar := (memberValue s m entries).toOption.getD default
  have valued (m : Member) (mem : m ∈ s.layout) : memberValue s m entries = .ok (value m) := by
    obtain ⟨v, found, _⟩ := complete.member m mem
    simp [value, found, Except.toOption]
  refine ⟨value, valued, ownedStruct_eq fun m mem => ?_⟩
  obtain ⟨v, found, here⟩ := complete.member m mem
  obtain ⟨w, _, converted⟩ := memberValue_eq_ok.1 found
  have same : value m = v := Except.ok.inj ((valued m mem).symm.trans found)
  rw [same]
  exact member_reads (Scalar.type_convert converted) (complete.length ▸ complete.inside m mem) here

/-- A struct reads back with every member at its own type. -/
theorem ownedStruct_written {s : StructType} {entries : Record} {bytes : List UInt8}
    (distinct : (s.members.map (·.1)).Nodup) (sorted : entries.Sorted)
    (complete : Complete s entries bytes) :
    ownedStruct s bytes.toArray = .ok (entries.map (normalMember s)) := by
  have names := StructType.nodup_layout distinct
  obtain ⟨value, valued, read⟩ := ownedStruct_collected complete
  rw [read]
  congr 1
  apply Record.sorted_ext (sorted_collected _ _ List.Pairwise.nil) (sorted_normalMember s sorted)
  intro name
  rw [get?_collected _ _ names, get?_normalMember]
  cases found : s.layout.find? (·.name == name) with
  | none =>
    cases entry : entries.get? name with
    | none => rfl
    | some v => exact absurd found (complete.known _ (Record.mem_of_get? entry))
  | some m =>
    have mem := List.mem_of_find?_eq_some found
    have same : m.name = name := by simpa using List.find?_some found
    obtain ⟨w, entry, converted⟩ := memberValue_eq_ok.1 (valued m mem)
    have here : s.member? name = some m := found
    rw [← same] at here ⊢
    simp [entry, normalMember, here, converted]

end Decoding

end FlatRecord
