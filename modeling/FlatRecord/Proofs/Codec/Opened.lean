import FlatRecord.Proofs.Builder.Header
import FlatRecord.Proofs.Codec.Checked
import FlatRecord.Proofs.Reading.Opening

/-! Finished buffers that are opened with demands on them. A record that stands in the buffer for some schema is
decoded with that schema, also when it was written with another. -/
namespace FlatRecord

open Builder Build Reading Encoding Decoding Verification

variable {schema : Schema} {type : RecordType} {r : Record} {config : Config} {bytes : Bytes}
  {options : ReaderOptions}

/-- A reader that asks for no identifier is content with any schema's. -/
theorem nothing_asked (schema : Schema) (none : options.identifier = none) :
    ∀ id, options.identifier = some id → schema.identifier = some id := by
  intro id demand
  rw [none] at demand
  cases demand

section Standing

variable {b b' : Builder} {root : Ref .record} {identifier : Option Identifier} {forced : Bool}
  {levels : Nat}

/-- A buffer that was finished with an identifier has it. -/
theorem finished_identified (sound : b.Sound) (regular : b.Regular)
    (finished : (finish root identifier false).run b = .ok bytes b') :
    Buffer.checkIdentifier ⟨bytes, 0⟩ identifier = .ok () := by
  cases identifier with
  | none => rfl
  | some id =>
    obtain ⟨k, -, power⟩ := regular
    have fits : b.FitsHeader := by
      rw [FitsHeader, power]
      exact fitsOffsets_two_pow k
    obtain ⟨front, rest, length, split⟩ :=
      (finish_names sound.region fits root id false).of_ok finished
    have found : Buffer.hasIdentifier ⟨bytes, 0⟩ id = true := identifier_found length split
    rw [Buffer.checkIdentifier, ok_bind, found, if_pos rfl]

/-- A finished buffer in which a record stands meets the demands, as the walk counts no more than was encoded. -/
theorem stands_passes (valid : schema.Valid) (names : schema.DistinctNames) (sound : b.Sound)
    (regular : b.Regular) (rooted : schema.rootRecord = .ok type)
    (stands : LevelsStand schema forced (Record.depth r) b.ground type.name r root.distance)
    (finished : (finish root identifier false).run b = .ok bytes b')
    (asked : ∀ id, options.identifier = some id → identifier = some id)
    (deep : Value.levelsEntries r ≤ options.limits.maxDepth)
    (many : Value.objectsEntries r + 1 ≤ options.limits.maxObjects) :
    Buffer.check ⟨bytes, 0⟩ options schema = .ok () := by
  have ended : Finished b root.distance false bytes b' :=
    Ends.of_ok (finish_ends sound.region root identifier false) finished
  have carries := finish_carries sound regular finished
  have found : Buffer.root ⟨bytes, 0⟩ = Table.read bytes (bytes.size - root.distance) :=
    ended.root_reads sound.region
  have identified : Buffer.checkIdentifier ⟨bytes, 0⟩ options.identifier = .ok () := by
    cases demand : options.identifier with
    | none => rfl
    | some id => exact asked id demand ▸ finished_identified sound regular finished
  obtain ⟨t, read, visits⟩ := levels_visited valid options.limits forced (Record.depth r) carries
    type.name r root.distance type (options.limits.maxDepth + 1) stands (Schema.record_root rooted)
    (Nat.lt_succ_of_le (Nat.le_trans (recordNesting_le schema type.name r) deep))
  have verified : verify ⟨bytes, 0⟩ schema type options.limits = .ok () := by
    have room : 0 + countLevels schema (Record.depth r) type.name r ≤ options.limits.maxObjects := by
      rw [Nat.zero_add]
      exact Nat.le_trans (recordCount_le names type.name r) many
    rw [verify, found, read, ok_bind, StateT.run'_eq, visits 0 room]
    rfl
  rw [Buffer.check_eq, identified, ok_bind, rooted]
  cases options.strict with
  | false => rfl
  | true => exact verified

/-- A record that stands in a finished buffer is decoded in its normal form, under demands that the buffer meets
and limits that are large enough. -/
theorem stands_decodes (valid : schema.Valid) (names : schema.DistinctNames) (out : schema.LaidOut)
    (sound : b.Sound) (regular : b.Regular) (rooted : schema.rootRecord = .ok type) (ordered : Record.Ordered r)
    (stands : LevelsStand schema forced (Record.depth r) b.ground type.name r root.distance)
    (finished : (finish root identifier false).run b = .ok bytes b')
    (asked : ∀ id, options.identifier = some id → identifier = some id)
    (deep : Value.levelsEntries r ≤ options.limits.maxDepth)
    (many : Value.objectsEntries r + 1 ≤ options.limits.maxObjects) :
    decodeRoot schema bytes options = .ok (normalRecord schema forced type.name r) := by
  have ended : Finished b root.distance false bytes b' :=
    Ends.of_ok (finish_ends sound.region root identifier false) finished
  have opened : Buffer.ofBytes bytes = .ok ⟨bytes, 0⟩ := ended.opens sound.region #[]
  have found : Buffer.root ⟨bytes, 0⟩ = Table.read bytes (bytes.size - root.distance) :=
    ended.root_reads sound.region
  have passes := stands_passes valid names sound regular rooted stands finished asked deep many
  obtain ⟨levels, objects⟩ := normalRecord_noLarger schema forced type.name r
  simp only [Value.levels, Value.objects] at levels objects
  have suffix := (finish_carries sound regular finished).suffix
  obtain ⟨t, read, gives⟩ := levels_stand_mean options.limits valid names out _ _ _ _ _ stands ordered
    bytes (options.limits.maxDepth + 1) suffix (by omega)
  rw [decodeRoot, Buffer.openWith, opened, ok_bind, passes, ok_bind, pure_eq_ok, ok_bind, rooted,
    ok_bind, found, read, ok_bind, toOwned, StateT.run'_eq, gives 0 (by omega)]
  rfl

end Standing

/-- What is left of the encoding of a root record: the record stands in a builder that was then finished. -/
theorem encodeRoot_stands (valid : schema.Valid) (out : schema.LaidOut) (rooted : schema.rootRecord = .ok type)
    (written : encodeRoot schema r config = .ok bytes) :
    ∃ root b b', b.Sound ∧ b.Regular ∧
      LevelsStand schema config.forceDefaults (Record.depth r) b.ground type.name r root.distance ∧
      (finish root schema.identifier false).run b = .ok bytes b' := by
  have fresh : (ofConfig config).Fresh := ⟨config, [], .inl rfl⟩
  obtain ⟨root, b, b', encoded, finished⟩ := rootBuffer_runs rooted written
  obtain ⟨proceeds, -, stands⟩ := Ends.of_ok
    (levels_encode valid out (Record.depth r) (ofConfig config) type.name r fresh.sound rfl rfl) encoded
  exact ⟨root, b, b', proceeds.sound, proceeds.raises.regular fresh.regular, stands, finished⟩

/-- A schema that encodes has a root. -/
theorem encodeRoot_rooted (written : encodeRoot schema r config = .ok bytes) :
    ∃ type, schema.rootRecord = .ok type := by
  rw [encodeRoot, rootBuffer] at written
  obtain ⟨type, rooted, -⟩ := bind_eq_ok.1 written
  exact ⟨type, rooted⟩

/-- A root buffer decodes to the normal form of the record in it, under demands that it meets. -/
theorem encodeRoot_decodes (valid : schema.Valid) (names : schema.DistinctNames) (out : schema.LaidOut)
    (rooted : schema.rootRecord = .ok type) (ordered : Record.Ordered r)
    (written : encodeRoot schema r config = .ok bytes)
    (asked : ∀ id, options.identifier = some id → schema.identifier = some id)
    (deep : Value.levelsEntries r ≤ options.limits.maxDepth)
    (many : Value.objectsEntries r + 1 ≤ options.limits.maxObjects) :
    decodeRoot schema bytes options =
      .ok (normalRecord schema config.forceDefaults type.name r) := by
  obtain ⟨root, b, b', sound, regular, stands, finished⟩ := encodeRoot_stands valid out rooted written
  exact stands_decodes valid names out sound regular rooted ordered stands finished asked deep many

end FlatRecord
