import FlatRecord.Proofs.Codec.Structs
import FlatRecord.Proofs.Placement

/-! Structs in bytes. No layout that keeps the members' order and puts each of them at a multiple of its size is
shorter, and what is written is the members' values and zeros between them. -/
namespace FlatRecord

/-- The byte at `i` is one of the member's. -/
def Member.Covers (m : Member) (i : Nat) : Prop := m.offset ≤ i ∧ i < m.offset + m.type.size

namespace StructType

/-- A layout in which every member stands at a multiple of its size, none reaches into another, and all of them keep
their order. The size is such that the same holds of every struct in a vector. -/
structure Natural (members : List (String × ScalarType)) (layout : List Member) (size : Nat) : Prop where
  members : layout.map (fun m => (m.name, m.type)) = members
  aligned : ∀ m ∈ layout, m.type.size ∣ m.offset
  ordered : layout.Pairwise fun m n => m.offset + m.type.size ≤ n.offset
  within : ∀ m ∈ layout, m.offset + m.type.size ≤ size
  whole : ∀ m ∈ layout, m.type.size ∣ size

theorem Laid.ordered {start stop : Nat} {members : List Member} (laid : Laid start members stop) :
    members.Pairwise fun m n => m.offset + m.type.size ≤ n.offset := by
  induction members generalizing start with
  | nil => exact List.Pairwise.nil
  | cons first rest ih => exact List.pairwise_cons.2 ⟨fun n mem => (laid.2.member_le mem).1, ih laid.2⟩

theorem LaidOut.natural {s : StructType} (out : s.LaidOut) : Natural s.members s.layout s.size := by
  obtain ⟨stop, inside, laid⟩ := out.laid
  constructor
  · exact s.layout_members
  · exact fun m mem => out.member_aligned mem
  · exact laid.ordered
  · exact fun m mem => Nat.le_trans (laid.member_le mem).2 inside
  · exact fun m mem => Nat.dvd_trans (out.size_dvd_alignment mem) out.alignment_dvd_size

theorem Natural.increasing {members : List (String × ScalarType)} {layout : List Member} {size : Nat}
    (natural : Natural members layout size) : layout.Pairwise fun m n => m.offset < n.offset := by
  refine natural.ordered.imp fun {m n} before => ?_
  have := m.type.size_pos
  omega

/-- Members that are put as early as their sizes allow end no later than any others that begin no earlier. -/
theorem place_le_of_aligned {layout : List Member} {offset size : Nat}
    (aligned : ∀ m ∈ layout, m.type.size ∣ m.offset)
    (ordered : layout.Pairwise fun m n => m.offset + m.type.size ≤ n.offset)
    (within : ∀ m ∈ layout, m.offset + m.type.size ≤ size) (behind : ∀ m ∈ layout, offset ≤ m.offset)
    (least : offset ≤ size) : (Member.place offset (layout.map fun m => (m.name, m.type))).2 ≤ size := by
  induction layout generalizing offset with
  | nil => exact least
  | cons first rest ih =>
    obtain ⟨before, ordered⟩ := List.pairwise_cons.1 ordered
    -- The first member is no earlier than where it is put, so that nothing behind it is either.
    have early : offset + padding offset first.type.size ≤ first.offset := by
      obtain ⟨k, small, power⟩ := first.type.size_power
      have whole := aligned first List.mem_cons_self
      rw [power] at whole ⊢
      exact add_padding_least (by omega) (behind first List.mem_cons_self) whole
    have room := within first List.mem_cons_self
    refine ih (fun m mem => aligned m (List.mem_cons_of_mem _ mem)) ordered
      (fun m mem => within m (List.mem_cons_of_mem _ mem)) (fun m mem => ?_) ?_
    · have := before m mem
      omega
    · omega

theorem LaidOut.alignment_eq {s : StructType} (out : s.LaidOut) :
    s.alignment = (s.members.map (·.2.size)).max?.getD 1 := by
  rw [out.alignment, Member.largest]
  cases s.members with
  | nil => rfl
  | cons first rest =>
    have positive := first.2.size_pos
    rw [List.map_cons, List.max?_cons', Option.getD_some, List.foldl_map, List.foldl_cons,
      Nat.max_eq_right (by omega)]

/-- One member has the largest size, unless there is none. -/
theorem LaidOut.alignment_dvd {layout : List Member} {size : Nat} {s : StructType} (out : s.LaidOut)
    (natural : Natural s.members layout size) : s.alignment ∣ size := by
  rw [out.alignment_eq]
  cases largest : (s.members.map (·.2.size)).max? with
  | none => exact Nat.one_dvd size
  | some a =>
    obtain ⟨member, mem, rfl⟩ := List.mem_map.1 (List.max?_mem largest)
    rw [← natural.members] at mem
    obtain ⟨m, among, rfl⟩ := List.mem_map.1 mem
    exact natural.whole m among

theorem LaidOut.size_le {layout : List Member} {size : Nat} {s : StructType} (out : s.LaidOut)
    (natural : Natural s.members layout size) : s.size ≤ size := by
  have stop : (Member.place 0 s.members).2 ≤ size := by
    rw [← natural.members]
    exact place_le_of_aligned natural.aligned natural.ordered natural.within (fun m _ => Nat.zero_le m.offset)
      (Nat.zero_le size)
  have whole := out.alignment_dvd natural
  obtain ⟨k, small, power⟩ := out.alignment_power
  rw [out.size, Member.extent, ← out.alignment, power]
  rw [power] at whole
  exact add_padding_least (by omega) stop whole

end StructType

namespace Encoding

variable {s : StructType} {entries : Record} {members : List Member} {start stop : Nat}

/-- Between the members and behind them there are zeros. -/
theorem memberBytes_zero {bytes : List UInt8} (laid : StructType.Laid start members stop)
    (written : memberBytes s entries start members = .ok bytes) {i : Nat} (ahead : start ≤ i)
    (below : i < s.size) (bare : ∀ m ∈ members, ¬m.Covers i) :
    bytes[i - start]? = some 0 := by
  induction members generalizing start bytes with
  | nil =>
    cases written
    rw [List.getElem?_replicate, if_pos (by omega)]
  | cons m rest ih =>
    obtain ⟨before, laid⟩ := laid
    obtain ⟨v, value, written⟩ := bind_eq_ok.1 written
    obtain ⟨later, tail, written⟩ := bind_eq_ok.1 written
    cases written
    have size := length_memberValue value
    have outside := bare m List.mem_cons_self
    simp only [Member.Covers] at outside
    rw [List.append_assoc]
    by_cases early : i < m.offset
    · rw [List.getElem?_append_left (by rw [List.length_replicate]; omega), List.getElem?_replicate,
        if_pos (by omega)]
    · have past := ih laid tail (by omega) (fun m' mem => bare m' (List.mem_cons_of_mem _ mem))
      rw [List.getElem?_append_right (by rw [List.length_replicate]; omega), List.length_replicate,
        List.getElem?_append_right (by omega), size]
      rwa [show i - start - (m.offset - start) - m.type.size = i - (m.offset + m.type.size) by omega]

end Encoding

/-- The entries are the members' values, each of its member's type, and nothing else. -/
structure Coerced (s : StructType) (given owned : Record) : Prop where
  sorted : owned.Sorted
  names : ∀ name, owned.contains name = true ↔ name ∈ s.members.map (·.1)
  member : ∀ m ∈ s.layout, ∃ v w, given.get? m.name = some (.scalar v) ∧
    Encoding.coerce v m.type m.name = .ok w ∧ owned.get? m.name = some (.scalar w)

theorem ownedStruct_coerced {s : StructType} {entries : Record} {bytes : List UInt8}
    (distinct : (s.members.map (·.1)).Nodup) (complete : Encoding.Complete s entries bytes) :
    ∃ owned, Decoding.ownedStruct s bytes.toArray = .ok owned ∧ Coerced s entries owned := by
  have names := StructType.nodup_layout distinct
  obtain ⟨value, valued, read⟩ := Decoding.ownedStruct_collected complete
  refine ⟨_, read, sorted_collected _ _ List.Pairwise.nil, fun name => ?_, fun m mem => ?_⟩
  · rw [← s.names_layout, Record.contains, get?_collected _ _ names]
    by_cases known : name ∈ s.layout.map (·.name)
    · obtain ⟨m, mem, rfl⟩ := List.mem_map.1 known
      simp [find_label _ names mem, known]
    · simp [find_label_none _ known, known, Record.get?]
  · obtain ⟨v, given, converted⟩ := Encoding.memberValue_eq_ok.1 (valued m mem)
    refine ⟨v, value m, given, Encoding.coerce_eq_ok.2 converted, ?_⟩
    rw [get?_collected _ _ names, find_label _ names mem]
    rfl

/-- The layout that a struct is given by its members is natural and the shortest that is. Bytes that are written
have its size, hold the members' values as their types hold them, bit for bit, and nothing but zeros besides. -/
theorem struct_layout_exact (s : StructType) (out : s.LaidOut) (distinct : (s.members.map (·.1)).Nodup) :
    (StructType.Natural s.members s.layout s.size ∧ (s.layout.Pairwise fun m n => m.offset < n.offset) ∧
      s.alignment = (s.members.map (·.2.size)).max?.getD 1 ∧ s.alignment ∣ s.size ∧
      ∀ layout size, StructType.Natural s.members layout size → s.size ≤ size) ∧
    ∀ value field bytes, Encoding.structBytes s value field = .ok bytes →
      bytes.length = s.size ∧
      (∃ entries owned, value.entries? = some entries ∧
        Encoding.writeMembers s entries s.layout (List.replicate s.size 0) = .ok bytes ∧
        Encoding.memberBytes s entries 0 s.layout = .ok bytes ∧
        Decoding.ownedStruct s bytes.toArray = .ok owned ∧ Coerced s entries owned) ∧
      ∀ i < s.size, (∀ m ∈ s.layout, ¬m.Covers i) → bytes[i]? = some 0 := by
  have natural := out.natural
  refine ⟨⟨natural, natural.increasing, out.alignment_eq, out.alignment_dvd_size,
    fun _ _ other => out.size_le other⟩, fun value field bytes written => ?_⟩
  obtain ⟨entries, given, known, written⟩ := Encoding.structBytes_eq_ok.1 written
  have complete := Encoding.complete_of_written out known written
  obtain ⟨owned, read, coerced⟩ := ownedStruct_coerced distinct complete
  have behind := (Encoding.writeMembers_layout out entries).symm.trans written
  obtain ⟨stop, inside, laid⟩ := out.laid
  exact ⟨complete.length, ⟨entries, owned, given, written, behind, read, coerced⟩,
    fun i below bare => Encoding.memberBytes_zero laid behind (Nat.zero_le i) below bare⟩

/-- Members of all sizes, with gaps of three and six bytes between them and seven bytes behind them. -/
def motley : StructType :=
  { name := "Motley"
    members := [("flag", .bool), ("count", .uint32), ("step", .int16), ("share", .float64), ("rank", .uint8)] }

/-- The members in another order and at other types, as far as these convert. -/
def motleyEntries : Record :=
  [("count", .scalar (.int8 7)), ("flag", .scalar (.bool true)), ("rank", .scalar (.uint64 3)),
    ("share", .scalar (.int8 1)), ("step", .scalar (.int16 (-2)))]

def motleyBytes : List UInt8 :=
  [1, 0, 0, 0, 7, 0, 0, 0, 254, 255, 0, 0, 0, 0, 0, 0, 0, 0, 0, 0, 0, 0, 240, 63, 3, 0, 0, 0, 0, 0, 0, 0]

/-- Five members of 16 bytes together cannot do with less than 32, and each of them reads back at its own type. -/
theorem motley_exact :
    motley.LaidOut ∧ (motley.members.map (·.1)).Nodup ∧ motley.size = 32 ∧
    (∀ layout size, StructType.Natural motley.members layout size → 32 ≤ size) ∧
    Encoding.structBytes motley (.record motleyEntries) "m" = .ok motleyBytes ∧
    (∃ owned, Decoding.ownedStruct motley motleyBytes.toArray = .ok owned ∧ Coerced motley motleyEntries owned ∧
      owned.get? "share" = some (.scalar (.float64 0x3ff0000000000000))) ∧
    motleyBytes[13]? = some 0 := by
  have out : motley.LaidOut := StructType.laidOut_of_members _ _ _
  have distinct : (motley.members.map (·.1)).Nodup := by decide
  have written : Encoding.structBytes motley (.record motleyEntries) "m" = .ok motleyBytes := by decide +kernel
  have size : motley.size = 32 := by decide
  obtain ⟨⟨-, -, -, -, least⟩, bytes⟩ := struct_layout_exact motley out distinct
  obtain ⟨-, ⟨entries, owned, given, -, -, read, coerced⟩, zero⟩ := bytes _ _ _ written
  cases given
  have share : (⟨"share", .float64, 16⟩ : Member) ∈ motley.layout := by decide
  obtain ⟨v, w, stated, converted, kept⟩ := coerced.member _ share
  have one : motleyEntries.get? "share" = some (.scalar (.int8 1)) := by decide +kernel
  cases one.symm.trans stated
  have double : Encoding.coerce (.int8 1) .float64 "share" = .ok (.float64 0x3ff0000000000000) := by decide +kernel
  cases double.symm.trans converted
  refine ⟨out, distinct, size, ?_, written, ⟨owned, read, coerced, kept⟩, ?_⟩
  · rw [← size]
    exact least
  · apply zero 13 (by rw [size]; decide)
    unfold Member.Covers
    decide

end FlatRecord
