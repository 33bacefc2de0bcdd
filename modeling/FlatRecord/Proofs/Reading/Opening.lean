import FlatRecord.Proofs.Reading.Untrusted
import FlatRecord.Proofs.Reading.Visits
import FlatRecord.Schema.Game

/-! Opening, verifying and decoding bytes that nobody vouches for: no sum overflows, no access goes astray,
and no error blames anything but the bytes. -/
namespace FlatRecord

open Reading Machine

/-- Nothing overflows, and nothing is looked at outside the bytes that are there. -/
def Contained (m : Checked α) (x : Except Error α) : Prop :=
  m.run = some x ∧ ∀ start stop size, x ≠ .error (.outside start stop size)

/-- Contained, and an error is about the bytes. -/
def Guarded (m : Checked α) (x : Except Error α) : Prop :=
  Contained m x ∧ ∀ e, x = .error e → e.Untrusted

section Outcomes

variable {m : Checked α} {x : Except Error α} {good : α → Prop}

theorem Sane.guarded (sane : Sane m x good) : Guarded m x := by
  obtain ⟨same, reads⟩ := sane
  have blamed : ∀ e, x = .error e → e.Untrusted := by
    intro e failed
    rw [failed] at reads
    exact reads
  exact ⟨⟨same, fun start stop size failed => blamed _ failed⟩, blamed⟩

theorem Sane.contained (sane : Sane m x good) : Contained m x := sane.guarded.1

theorem contained_error {e : Error} (inside : ∀ start stop size, e ≠ .outside start stop size) :
    Contained (throw e : Checked α) (.error e) :=
  ⟨rfl, fun start stop size same => inside start stop size (Except.error.inj same)⟩

theorem contained_bind {f : α → Checked β} {g : α → Except Error β} (first : Sane m x good)
    (second : ∀ a, good a → Contained (f a) (g a)) : Contained (m >>= f) (x >>= g) := by
  obtain ⟨same, reads⟩ := first
  cases x with
  | ok a =>
    obtain ⟨same', inside⟩ := second a reads
    refine ⟨?_, inside⟩
    rw [ExceptT.run_bind, same]
    exact same'
  | error e =>
    refine ⟨?_, fun start stop size failed => ?_⟩
    · rw [ExceptT.run_bind, same]
      rfl
    · cases failed
      exact reads

end Outcomes

variable {schema : Schema} {root : RecordType} {b : Buffer} {bytes : Bytes} {limits : Limits}

/-- A buffer as it is opened, with the root near its front. -/
structure Buffer.Opened (b : Buffer) : Prop where
  addressable : Addressable b.bytes
  front : b.rootAt ≤ offsetSize

theorem ofBytes_reads (addressable : Addressable bytes) :
    Reads (Buffer.ofBytes bytes) (·.Opened) := by
  simp only [Buffer.ofBytes]
  split
  · trivial
  · exact ⟨addressable, Nat.zero_le _⟩

theorem ofSizePrefixed_sane (addressable : Addressable bytes) :
    Sane (Machine.ofSizePrefixed bytes) (Buffer.ofSizePrefixed bytes) (·.Opened) := by
  have large : bytes.size < 2 ^ 63 := addressable
  rw [Buffer.ofSizePrefixed_eq, Machine.ofSizePrefixed]
  by_cases short : bytes.size < 2 * offsetSize
  · rw [if_pos short, if_pos short]
    exact ⟨rfl, trivial⟩
  · rw [if_neg short, if_neg short]
    apply sane_bind (sane_lift (nat_reads bytes 0 offsetSize))
    intro length _
    by_cases cut : bytes.size < offsetSize + length
    · rw [if_pos cut, if_pos cut]
      exact ⟨rfl, trivial⟩
    · rw [if_neg cut, if_neg cut]
      apply sane_check
      intro _
      rw [slice_ok (Nat.zero_le _) (Nat.not_lt.1 cut)]
      refine sane_known (sane_return ⟨?_, Nat.le_refl _⟩)
      simp only [Addressable, Array.size_extract]
      omega

theorem root_sane (addressable : Addressable b.bytes) :
    Sane (Machine.root b) b.root fun t => t.Within b.bytes := by
  apply sane_bind (sane_lift (follow_reads b.bytes b.rootAt))
  intro pos _
  exact (readTable_sane addressable pos).mono fun _ here => here.2

theorem verify_sane (addressable : Addressable b.bytes) (valid : schema.Valid) (out : schema.LaidOut)
    (isValid : root.Valid schema) {limits : Limits} (finite : limits.maxObjects < largestWord) :
    Sane (Machine.verify b schema root limits) (Verification.verify b schema root limits)
      fun _ => True := by
  apply sane_bind (root_sane addressable)
  intro t within
  exact walk_run (visitLevels_sane addressable valid out _ 0 root t within (Nat.zero_le _) isValid) finite

theorem hasIdentifier_sane (opened : b.Opened) (id : Identifier) :
    Sane (Machine.hasIdentifier b id) (.ok (b.hasIdentifier id)) fun _ => True := by
  have front := opened.front
  simp only [offsetSize] at front
  apply sane_add (by simp only [largestWord, offsetSize]; omega)
  apply sane_add (by simp only [largestWord, offsetSize, identifierSize]; omega)
  have same : b.hasIdentifier id =
      (decide (b.rootAt + offsetSize + identifierSize ≤ b.bytes.size) &&
        b.bytes.extract (b.rootAt + offsetSize) (b.rootAt + offsetSize + identifierSize) ==
          id.toArray) := by
    simp only [Buffer.hasIdentifier, Buffer.identifier?]
    by_cases room : b.rootAt + offsetSize + identifierSize ≤ b.bytes.size
    · simp [room]
    · simp [room]
  rw [same]
  exact sane_return trivial

/-- The first half of the check. -/
def Buffer.checkIdentifier (b : Buffer) : Option Identifier → Except Error Unit
  | none => .ok ()
  | some id => do
    if ← (.ok (b.hasIdentifier id) : Except Error Bool) then .ok ()
    else .error (.corrupt (b.rootAt + offsetSize) .wrongIdentifier)

theorem Buffer.check_eq (b : Buffer) (options : ReaderOptions) (schema : Schema) :
    b.check options schema = (do
      b.checkIdentifier options.identifier
      if options.strict then
        Verification.verify b schema (← schema.rootRecord) options.limits) := by
  simp only [Buffer.check, Buffer.checkIdentifier]
  cases options.identifier with
  | none => rfl
  | some id =>
    cases found : b.hasIdentifier id with
    | false => simp [found]
    | true => simp [found]

theorem checkIdentifier_sane (opened : b.Opened) (id : Option Identifier) :
    Sane (Machine.checkIdentifier b id) (b.checkIdentifier id) fun _ => True := by
  have front := opened.front
  simp only [offsetSize] at front
  cases id with
  | none => exact sane_return trivial
  | some id =>
    apply sane_add (by simp only [largestWord, offsetSize]; omega)
    apply sane_bind (hasIdentifier_sane opened id)
    intro found _
    cases found with
    | false => exact sane_corrupt _ _
    | true => exact sane_return trivial

theorem check_sane (opened : b.Opened) (valid : schema.Valid) (out : schema.LaidOut)
    (rooted : schema.rootRecord = .ok root) {options : ReaderOptions}
    (finite : options.limits.maxObjects < largestWord) :
    Sane (Machine.check b options schema) (b.check options schema) fun _ => True := by
  have isValid := valid.records root (Schema.record_mem (Schema.record_root rooted))
  rw [Buffer.check_eq]
  apply sane_bind (checkIdentifier_sane opened options.identifier)
  intro _ _
  cases options.strict with
  | false => exact sane_return trivial
  | true =>
    rw [rooted]
    exact verify_sane opened.addressable valid out isValid finite

theorem openWith_sane (addressable : Addressable bytes) (valid : schema.Valid) (out : schema.LaidOut)
    (rooted : schema.rootRecord = .ok root) {options : ReaderOptions}
    (finite : options.limits.maxObjects < largestWord) :
    Sane (Machine.openWith bytes options schema) (Buffer.openWith bytes options schema)
      (·.Opened) := by
  apply sane_bind (sane_lift (ofBytes_reads addressable))
  intro b opened
  exact sane_bind (check_sane opened valid out rooted finite) fun _ _ => sane_return opened

theorem openSizePrefixedWith_sane (addressable : Addressable bytes) (valid : schema.Valid) (out : schema.LaidOut)
    (rooted : schema.rootRecord = .ok root) {options : ReaderOptions}
    (finite : options.limits.maxObjects < largestWord) :
    Sane (Machine.openSizePrefixedWith bytes options schema)
      (Buffer.openSizePrefixedWith bytes options schema) (·.Opened) := by
  apply sane_bind (ofSizePrefixed_sane addressable)
  intro b opened
  exact sane_bind (check_sane opened valid out rooted finite) fun _ _ => sane_return opened

theorem decodeRoot_sane (addressable : Addressable bytes) (valid : schema.Valid) (out : schema.LaidOut)
    (rooted : schema.rootRecord = .ok root) {options : ReaderOptions}
    (finite : options.limits.maxObjects < largestWord) :
    Sane (Machine.decodeRoot schema bytes options) (Decoding.decodeRoot schema bytes options)
      fun _ => True := by
  apply sane_bind (openWith_sane addressable valid out rooted finite)
  intro b opened
  apply sane_bind (sane_lift (rooted ▸ reads_ok rfl : Reads _ (· = root)))
  intro _ same
  subst same
  apply sane_bind (root_sane opened.addressable)
  intro t within
  exact toOwned_sane opened.addressable valid out within ⟨_, Schema.record_root rooted⟩ finite

/-- A record of an unknown type is not decoded at all. -/
theorem toOwned_contained (addressable : Addressable b.bytes) (valid : schema.Valid) (out : schema.LaidOut)
    {t : Table} (within : t.Within b.bytes) (typeName : String) {limits : Limits}
    (finite : limits.maxObjects < largestWord) :
    Contained (Machine.toOwned b.bytes schema typeName t limits)
      (Decoding.toOwned b.bytes schema typeName t limits) := by
  cases found : schema.record typeName with
  | ok type => exact (toOwned_sane addressable valid out within ⟨type, found⟩ finite).contained
  | error e =>
    have unknown : ∀ start stop size, e ≠ .outside start stop size := by
      simp only [Schema.record] at found
      split at found
      · cases found
      · cases found
        simp
    unfold Machine.toOwned Decoding.toOwned Machine.decodeLevels Decoding.decodeLevels
      Machine.decodeRecord Decoding.decodeRecord
    rw [StateT.run'_eq, StateT.run'_eq, StateT.run_bind, StateT.run_bind, map_bind, map_bind, found]
    exact contained_bind (walk_charge _ _ finite 0 (Nat.zero_le _)) fun _ _ => contained_error unknown

theorem field_guarded (addressable : Addressable b.bytes) (valid : schema.Valid) (out : schema.LaidOut) {t : Table}
    (within : t.Within b.bytes) {type : RecordType} (known : type ∈ schema.records)
    {f : RecordField} (among : f ∈ type.fields) :
    Guarded (Machine.field b.bytes t schema f) (t.field b.bytes schema f) := by
  have isValid := valid.records type known
  exact (field_sane addressable within (isValid.small f among) (isValid.fields f among) out).guarded

theorem get_contained (addressable : Addressable b.bytes) (valid : schema.Valid) (out : schema.LaidOut) {t : Table}
    (within : t.Within b.bytes) {type : RecordType} (known : type ∈ schema.records)
    {f : RecordField} (among : f ∈ type.fields) {v : FieldVector}
    (read : t.field b.bytes schema f = .ok (.vector v)) (index : Nat) :
    Contained (Machine.get b.bytes v index) (v.get b.bytes index) := by
  have isValid := valid.records type known
  have sane := field_sane addressable within (isValid.small f among) (isValid.fields f among) out
  have good : v.Good schema b.bytes t.position := sane.reads.of_ok read
  by_cases below : index < v.length
  · exact (get_sane addressable good below).contained
  · rw [FieldVector.get_eq, Machine.get, if_pos (Nat.not_lt.1 below), if_pos (Nat.not_lt.1 below)]
    exact contained_error (by simp)

/-- For a valid schema with a root, whose structs have the natural layout, every reader is contained, whatever the
bytes and the options, if there is a larger count than the limit; and opening, decoding, verifying and reading a field
go wrong only by what is wrong with the bytes. -/
theorem reading_contained (valid : schema.validate = .ok ()) (out : schema.LaidOut)
    (rooted : schema.rootRecord = .ok root) {bytes : Bytes} (addressable : Addressable bytes) :
    (∀ options, options.limits.maxObjects < largestWord →
      Guarded (Machine.openWith bytes options schema) (Buffer.openWith bytes options schema) ∧
      Guarded (Machine.openSizePrefixedWith bytes options schema)
        (Buffer.openSizePrefixedWith bytes options schema) ∧
      Guarded (Machine.decodeRoot schema bytes options)
        (Decoding.decodeRoot schema bytes options)) ∧
    ∀ b, Buffer.ofBytes bytes = .ok b ∨ Buffer.ofSizePrefixed bytes = .ok b →
      (∀ type ∈ schema.records, ∀ limits, limits.maxObjects < largestWord →
        Guarded (Machine.verify b schema type limits) (Verification.verify b schema type limits)) ∧
      Guarded (Machine.root b) b.root ∧
      ∀ pos t, Table.read b.bytes pos = .ok t →
        (∀ type ∈ schema.records, ∀ f ∈ type.fields,
          Guarded (Machine.field b.bytes t schema f) (t.field b.bytes schema f) ∧
          ∀ v, t.field b.bytes schema f = .ok (.vector v) →
            ∀ index, Contained (Machine.get b.bytes v index) (v.get b.bytes index)) ∧
        ∀ typeName limits, limits.maxObjects < largestWord →
          Contained (Machine.toOwned b.bytes schema typeName t limits)
            (Decoding.toOwned b.bytes schema typeName t limits) := by
  have valid := Schema.valid_of_validate valid
  constructor
  · intro options finite
    exact ⟨(openWith_sane addressable valid out rooted finite).guarded,
      (openSizePrefixedWith_sane addressable valid out rooted finite).guarded,
      (decodeRoot_sane addressable valid out rooted finite).guarded⟩
  · intro b opens
    have opened : b.Opened := by
      rcases opens with plain | prefixed
      · exact (ofBytes_reads addressable).of_ok plain
      · exact (ofSizePrefixed_sane addressable).reads.of_ok prefixed
    have addressable := opened.addressable
    refine ⟨fun type known limits finite => ?_, (root_sane addressable).guarded, fun pos t read => ?_⟩
    · exact (verify_sane addressable valid out (valid.records type known) finite).guarded
    · have within := ((Table.read_reads b.bytes pos).of_ok read).2
      refine ⟨fun type known f among => ⟨?_, fun v read index => ?_⟩, fun typeName limits finite => ?_⟩
      · exact field_guarded addressable valid out within known among
      · exact get_contained addressable valid out within known among read index
      · exact toOwned_contained addressable valid out within typeName finite

/-- A struct whose member lies behind its end. -/
def overrun : StructType where
  name := "Overrun"
  members := [("x", .uint32)]
  layout := [⟨"x", .uint32, 8⟩]
  layout_members := rfl
  alignment := 4
  size := 4

/-- Without the natural layout a member is looked for outside its struct, and with the largest word for a limit the
count of the visits overflows. -/
theorem reading_uncontained :
    ((Schema.holding overrun).validate = .ok () ∧
      Decoding.decodeRoot (.holding overrun) #[12, 0, 0, 0, 0, 0, 6, 0, 8, 0, 4, 0, 6, 0, 0, 0, 1, 2, 3, 4] {} =
        .error (.indexOutOfRange 8 4)) ∧
    forkSchema.validate = .ok () ∧ forkSchema.LaidOut ∧
      Machine.decodeRoot forkSchema (ladder 64) { limits := { maxObjects := largestWord } } = overflow := by
  have overflows : Machine.decodeRoot forkSchema (ladder 64) { limits := { maxObjects := largestWord } } = overflow :=
    ladder_overflows (by decide) (Nat.le_refl 64) rfl (Nat.le_refl 64)
  exact ⟨⟨Schema.validate_holding overrun, by decide +kernel⟩, by decide +kernel, nofun, overflows⟩

/-- A root whose field table would lie in front of the buffer. -/
def astray : Bytes := #[4, 0, 0, 0, 255, 255, 255, 127]

theorem astray_contained :
    Schema.Game.schema.validate = .ok () ∧ Schema.Game.schema.LaidOut ∧
    Schema.Game.schema.rootRecord = .ok Schema.Game.monster ∧ Addressable astray ∧
    Guarded (Machine.decodeRoot Schema.Game.schema astray {})
      (Decoding.decodeRoot Schema.Game.schema astray {}) ∧
    Decoding.decodeRoot Schema.Game.schema astray {} = .error (.corrupt 4 .tableOutside) :=
  have valid : Schema.Game.schema.validate = .ok () := by decide +kernel
  have out : Schema.Game.schema.LaidOut := by decide
  have rooted : Schema.Game.schema.rootRecord = .ok Schema.Game.monster := by decide +kernel
  have addressable : Addressable astray := by unfold Addressable; decide
  ⟨valid, out, rooted, addressable, ((reading_contained valid out rooted addressable).1 {} (by decide)).2.2,
    by decide +kernel⟩

end FlatRecord
