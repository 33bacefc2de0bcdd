import FlatRecord.Proofs.Reading.Descent

/-! How long the vectors are that come out of a buffer. An element takes a byte at least, so a vector has no more
elements than the buffer has bytes. Structs without members are the exception: they take no bytes, and the buffer
can claim any number of them. -/
namespace FlatRecord

open Reading Decoding

namespace Value

mutual

/-- The vectors in a value, by their items: itself, and those in its items and entries. -/
def vectors : Value → List (List Value)
  | scalar _ | text _ | bytes _ => []
  | vector items => items :: vectorsItems items
  | record entries | struct entries => vectorsEntries entries

def vectorsItems : List Value → List (List Value)
  | [] => []
  | v :: rest => v.vectors ++ vectorsItems rest

def vectorsEntries : List (String × Value) → List (List Value)
  | [] => []
  | (_, v) :: rest => v.vectors ++ vectorsEntries rest

end

variable {items values : List Value} {entries : List (String × Value)}

theorem mem_vectorsItems : items ∈ vectorsItems values ↔ ∃ v ∈ values, items ∈ v.vectors := by
  induction values with
  | nil => simp [vectorsItems]
  | cons v rest ih => simp [vectorsItems, ih]

theorem mem_vectorsEntries :
    items ∈ vectorsEntries entries ↔ ∃ entry ∈ entries, items ∈ entry.2.vectors := by
  induction entries with
  | nil => simp [vectorsEntries]
  | cons entry rest ih => simp [vectorsEntries, ih]

end Value

/-- The items of a vector are no more than `limit`, or they are structs that the schema gives no members. -/
def Sized (schema : Schema) (limit : Nat) (items : List Value) : Prop :=
  items.length ≤ limit ∨
    (∃ s ∈ schema.structs, s.members = []) ∧ ∀ item ∈ items, item = .struct []

variable {schema : Schema} {limits : Limits} {buf : Bytes} {t : Table} {f : RecordField} {child : Child}
  {limit : Nat} {v : Value} {items : List Value} {nested : String → Table → Record → Prop}

/-- Only structs take no bytes. -/
theorem inlineSize_zero {element : ResolvedElement} (nothing : element.inlineSize = 0) :
    ∃ s, element = .struct s ∧ s.size = 0 := by
  cases element with
  | scalar type => exact absurd nothing (Nat.ne_of_gt type.size_pos)
  | text => cases nothing
  | record name => cases nothing
  | struct s => exact ⟨s, rfl, nothing⟩

/-- No member can be read from no bytes, whatever its offset. -/
theorem ownedStruct_empty {s : StructType} {bytes : Bytes} {entries : Record} (nothing : bytes.size = 0)
    (owned : ownedStruct s bytes = .ok entries) : s.members = [] ∧ entries = [] := by
  have members := s.layout_members
  rw [ownedStruct] at owned
  cases layout : s.layout with
  | nil =>
    rw [layout] at members owned
    cases owned
    exact ⟨members.symm, rfl⟩
  | cons m rest =>
    rw [layout, List.foldlM_cons] at owned
    obtain ⟨_, first, -⟩ := bind_eq_ok.1 owned
    obtain ⟨_, read, -⟩ := bind_eq_ok.1 first
    have positive := m.type.size_pos
    rw [member, if_neg (by omega)] at read
    cases read

/-- Structs hold scalars only. -/
theorem ownedStruct_vectors {s : StructType} {bytes : Bytes} {entries : Record}
    (owned : ownedStruct s bytes = .ok entries) : Value.vectorsEntries entries = [] := by
  have canonical := ownedStruct_canonical owned
  refine List.eq_nil_iff_forall_not_mem.2 fun items mem => ?_
  obtain ⟨entry, inside, mem⟩ := Value.mem_vectorsEntries.1 mem
  obtain ⟨m, -, -, w, scalar, -⟩ := canonical.entries entry inside
  rw [scalar] at mem
  cases mem

theorem element_vectors {e : ElementView} (decodes : e.Decodes (fun _ _ r =>
      ∀ items ∈ Value.vectorsEntries r, Sized schema limit items) v) :
    ∀ items ∈ v.vectors, Sized schema limit items := by
  cases decodes with
  | scalar => exact List.forall_mem_nil _
  | text =>
    rw [ownedText]
    split <;> exact List.forall_mem_nil _
  | record inner => exact inner
  | struct owned =>
    rw [Value.vectors, ownedStruct_vectors owned]
    exact List.forall_mem_nil _

/-- The items that a vector's header announces are in the buffer, or take no bytes there. -/
theorem items_sized {vector : FieldVector} {element : ElementType} {pos : Nat}
    (resolved : element.resolve schema = .ok vector.element)
    (header : vectorHeader buf pos vector.element.inlineSize = .ok (vector.start, vector.length))
    (each : List.Forall₂ (fun i item => ∃ e, vector.get buf i = .ok e ∧ e.Decodes nested item)
      (List.range vector.length) items) : Sized schema buf.size items := by
  by_cases nothing : vector.element.inlineSize = 0
  · obtain ⟨s, known, empty⟩ := inlineSize_zero nothing
    obtain ⟨name, found⟩ := resolve_struct (known ▸ resolved)
    have bare : ∀ item ∈ items, s.members = [] ∧ item = .struct [] := by
      intro item mem
      obtain ⟨i, -, e, read, decodes⟩ := related_right each mem
      rw [FieldVector.get_eq, known] at read
      obtain ⟨bytes, sliced, rfl⟩ := map_eq_ok (check_eq_ok.1 read).2
      have size := size_of_slice sliced
      cases decodes with
      | struct owned =>
        obtain ⟨members, rfl⟩ := ownedStruct_empty (by omega) owned
        exact ⟨members, rfl⟩
    cases items with
    | nil => exact .inl (Nat.zero_le _)
    | cons first rest =>
      have members := (bare first List.mem_cons_self).1
      exact .inr ⟨⟨s, Schema.struct_mem found, members⟩, fun item mem => (bare item mem).2⟩
  · left
    have inside := ((vectorHeader_reads buf pos _).of_ok header).2
    have length := each.length_eq
    rw [List.length_range] at length
    have bytes : vector.length * 1 ≤ vector.length * vector.element.inlineSize :=
      Nat.mul_le_mul_left _ (Nat.pos_of_ne_zero nothing)
    dsimp only at inside
    omega

theorem field_vectors (decodes : t.Decodes (fun _ _ r =>
      ∀ items ∈ Value.vectorsEntries r, Sized schema buf.size items) buf schema f (some v)) :
    ∀ items ∈ v.vectors, Sized schema buf.size items := by
  obtain ⟨view, found, decodes⟩ := decodes
  cases decodes with
  | single decodes => exact element_vectors decodes
  | vector each =>
    obtain ⟨element, pos, -, -, resolved, header⟩ := Table.field_found found
    refine List.forall_mem_cons.2 ⟨items_sized resolved header each, fun others mem => ?_⟩
    obtain ⟨item, among, mem⟩ := Value.mem_vectorsItems.1 mem
    obtain ⟨i, -, e, -, decodes⟩ := related_right each among
    exact element_vectors decodes others mem

theorem levels_vectors (levels : Nat) {name : String} {r : Record}
    (passes : Passes (decodeLevels buf schema limits levels name t) r) :
    ∀ items ∈ Value.vectorsEntries r, Sized schema buf.size items := by
  induction levels generalizing name t r with
  | zero => exact (decodeLevels_zero passes).elim
  | succ levels ih =>
    obtain ⟨type, -, set⟩ := decodeRecord_decodes passes
    intro items mem
    obtain ⟨entry, among, mem⟩ := Value.mem_vectorsEntries.1 mem
    rcases set.entry among with none | ⟨f, -, decodes⟩
    · cases none
    · exact field_vectors (decodes.mono fun _ _ _ => ih) items mem

variable {bytes : Bytes} {options : ReaderOptions} {name : String} {r : Record}

theorem toOwned_sized (owned : toOwned buf schema name t limits = .ok r) :
    ∀ items ∈ Value.vectorsEntries r, Sized schema buf.size items := by
  obtain ⟨n, run⟩ := run'_eq_ok.1 owned
  exact levels_vectors _ ⟨0, n, run⟩

/-- Whatever the bytes claim, a vector that is decoded has no more items than there are bytes, unless it is a
vector of structs without members. -/
theorem vectors_sized (decoded : decodeRoot schema bytes options = .ok r) :
    ∀ items ∈ Value.vectorsEntries r, items.length ≤ bytes.size ∨
      (∃ s ∈ schema.structs, s.members = []) ∧ ∀ item ∈ items, item = .struct [] := by
  obtain ⟨b, opened, decoded⟩ := bind_eq_ok.1 decoded
  obtain ⟨root, -, decoded⟩ := bind_eq_ok.1 decoded
  obtain ⟨t, -, owned⟩ := bind_eq_ok.1 decoded
  obtain rfl := Buffer.bytes_openWith opened
  exact toOwned_sized owned

def reelSchema : Schema :=
  { records := [{ name := "Reel", fields := [.ofType "frames" 0 (.vector (.scalar .uint8))] }]
    root := some "Reel" }

/-- A reel of 24 frames, which claims another number of them. -/
def reelBytes (claimed : UInt8) : Bytes := #[
  12, 0, 0, 0, 0, 0, 6, 0, 8, 0, 4, 0, 6, 0, 0, 0, 4, 0, 0, 0, claimed, 0, 0, 0,
  1, 1, 1, 1, 1, 1, 1, 1, 1, 1, 1, 1, 1, 1, 1, 1, 1, 1, 1, 1, 1, 1, 1, 1]

def reel : Record := [("frames", .vector (List.replicate 24 (.scalar (.uint8 1))))]

/-- Half of the bytes are frames, and one more is too many. -/
theorem reelBytes_sized :
    decodeRoot reelSchema (reelBytes 24) {} = .ok reel ∧
    (∀ items ∈ Value.vectorsEntries reel, items.length ≤ (reelBytes 24).size ∨
      (∃ s ∈ reelSchema.structs, s.members = []) ∧ ∀ item ∈ items, item = .struct []) ∧
    decodeRoot reelSchema (reelBytes 25) {} = .error (.corrupt 20 .vectorTooLong) :=
  have decoded : decodeRoot reelSchema (reelBytes 24) {} = .ok reel := by decide +kernel
  ⟨decoded, vectors_sized decoded, by decide +kernel⟩

/-- A log of marks, which have no members. -/
def logSchema : Schema :=
  { records := [{ name := "Log", fields := [.ofType "marks" 0 (.vector (.struct "Mark"))] }]
    structs := [{ name := "Mark", members := [] }]
    root := some "Log" }

/-- A log that claims 200 marks. -/
def logBytes : Bytes :=
  #[12, 0, 0, 0, 6, 0, 8, 0, 4, 0, 0, 0, 8, 0, 0, 0, 4, 0, 0, 0, 200, 0, 0, 0]

/-- The claim costs four bytes, and is believed. -/
theorem logBytes_oversized :
    logSchema.validate = .ok () ∧
    decodeRoot logSchema logBytes {} = .ok [("marks", .vector (List.replicate 200 (.struct [])))] ∧
    ∃ items ∈ Value.vectorsEntries [("marks", .vector (List.replicate 200 (.struct [])))],
      logBytes.size < items.length := by
  refine ⟨by decide +kernel, by decide +kernel, List.replicate 200 (.struct []), ?_, ?_⟩
  · exact List.mem_cons_self
  · rw [List.length_replicate]
    decide

end FlatRecord
