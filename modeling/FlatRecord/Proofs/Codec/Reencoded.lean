import FlatRecord.Proofs.Codec.Image
import FlatRecord.Proofs.Codec.Opened

/-! Decoding and encoding again: whatever bytes a record was decoded from, it is written into a buffer that
decodes to the same record. -/
namespace FlatRecord

open Builder Build Reading Encoding Decoding Verification

variable {schema : Schema} {type : RecordType} {r : Record} {config : Config} {bytes : Bytes}
  {options : ReaderOptions}

/-- A root record that fits its schema is only refused by the size limit. -/
theorem rootBuffer_limited (valid : schema.Valid) (out : schema.LaidOut) (rooted : schema.rootRecord = .ok type)
    (fits : LevelsFit schema config.validateText (Record.depth r) type.name r) {sizePrefixed : Bool}
    {e : Error} (failed : rootBuffer schema r config sizePrefixed = .error e) : e.IsLimit := by
  have fresh : (ofConfig config).Fresh := ⟨config, [], .inl rfl⟩
  have ends : Ends (encode schema type.name r >>= fun root => finish root schema.identifier sizePrefixed)
      (ofConfig config) (fun _ _ => True) fun e _ => e.IsLimit := by
    rw [ends_bind]
    apply Ends.mono (levels_encode valid out (Record.depth r) (ofConfig config) type.name r fresh.sound rfl rfl)
    · rintro root b₁ ⟨proceeds, idle, stands⟩
      have sound := proceeds.sound
      have inside := levelsStand_inside _ _ _ _ _ _ _ stands
      have below : root.distance ≤ b₁.used := by
        rw [← floor_idle idle, ← sound.length_settled]
        exact inside.2
      apply Ends.mono (finish_aligned sound.region (proceeds.raises.regular fresh.regular) root
        schema.identifier sizePrefixed)
      · exact fun _ _ _ => trivial
      · exact fun e _ limit => limit ⟨idle, inside.1, below⟩
    · exact fun e _ limit => limit ⟨rfl, fits⟩
  rw [rootBuffer_eq rooted] at failed
  split at failed
  next => cases failed
  next run =>
    cases failed
    simp only [Ends, run] at ends
    exact ends

/-- A record that was decoded is canonical, and within the limits of the reader. -/
theorem decodeRoot_image (valid : schema.Valid) (names : schema.DistinctNames)
    (decoded : decodeRoot schema bytes options = .ok r) :
    ∃ type, schema.rootRecord = .ok type ∧
      LevelsCanonical schema (options.limits.maxDepth + 1) type.name r ∧
      Value.objectsEntries r + 1 ≤ options.limits.maxObjects := by
  obtain ⟨buf, -, decoded⟩ := bind_eq_ok.1 decoded
  obtain ⟨type, rooted, decoded⟩ := bind_eq_ok.1 decoded
  obtain ⟨t, -, decoded⟩ := bind_eq_ok.1 decoded
  obtain ⟨n, run⟩ := run'_eq_ok.1 decoded
  obtain ⟨m, rfl, within, canonical, rfl⟩ := levels_yield valid names options.limits buf.bytes
    (options.limits.maxDepth + 1) type.name t 0 r n run
  refine ⟨type, rooted, canonical, ?_⟩
  have within := within (Nat.zero_le _)
  rwa [Nat.zero_add] at within

/-- A root buffer decodes to the normal form of the record in it, within limits that are large enough. -/
theorem rootBuffer_decodes (valid : schema.Valid) (names : schema.DistinctNames) (out : schema.LaidOut)
    (rooted : schema.rootRecord = .ok type) (ordered : Record.Ordered r)
    (written : encodeRoot schema r config = .ok bytes) (any : options.identifier = none)
    (deep : Value.levelsEntries r ≤ options.limits.maxDepth)
    (many : Value.objectsEntries r + 1 ≤ options.limits.maxObjects) :
    decodeRoot schema bytes options =
      .ok (normalRecord schema config.forceDefaults type.name r) :=
  encodeRoot_decodes valid names out rooted ordered written (nothing_asked schema any) deep many

/-- If structs have the natural layout, every record that was decoded can be encoded again, unless the buffer would
become too large, and decodes to the same record under the same options. -/
theorem decoded_reencodes (valid : schema.validate = .ok ()) (names : schema.DistinctNames) (out : schema.LaidOut)
    (sized : ∀ s ∈ schema.structs, s.members ≠ []) (any : options.identifier = none)
    (decoded : decodeRoot schema bytes options = .ok r) (lenient : config.validateText = false) :
    (∃ requested limit, encodeRoot schema r config = .error (.sizeLimit requested limit)) ∨
      ∃ again r', encodeRoot schema r config = .ok again ∧
        decodeRoot schema again options = .ok r' ∧ Record.Alike r' r := by
  have valid := Schema.valid_of_validate valid
  obtain ⟨type, rooted, canonical, many⟩ := decodeRoot_image valid names decoded
  cases written : encodeRoot schema r config with
  | error e =>
    have filled : ∀ s ∈ schema.structs, 0 < s.size := fun s mem => (out s mem).size_pos (sized s mem)
    have fits := canonical.fits valid names filled (Nat.le_refl (Record.depth r))
    rw [← lenient] at fits
    obtain ⟨requested, limit, rfl⟩ := rootBuffer_limited valid out rooted fits written
    exact .inl ⟨requested, limit, rfl⟩
  | ok again =>
    have deep := Nat.le_of_lt_succ canonical.levels_lt
    exact .inr ⟨again, _, rfl, rootBuffer_decodes valid names out rooted canonical.ordered written any deep many,
      canonical.alike valid names⟩

/-- Boxes with boxes inside. -/
def boxSchema : Schema :=
  { structs := [{ name := "Size", members := [("width", .uint16), ("open", .bool)] }]
    records := [{ name := "Box", fields := [.ofType "size" 0 (.struct "Size"),
      .ofType "tilt" 1 (.scalar .float32), .ofType "inner" 2 (.vector (.record "Box"))] }]
    root := some "Box" }

/-- A buffer that no encoder leaves: one inner box stands for two, its size is open by the byte 2, and the
outer tilt is negative zero. -/
def boxBuffer : Bytes := #[
  16, 0, 0, 0, 0, 0, 10, 0, 12, 0, 0, 0, 8, 0, 4, 0, 10, 0, 0, 0, 8, 0, 0, 0, 0, 0, 0, 128,
  2, 0, 0, 0, 16, 0, 0, 0, 12, 0, 0, 0, 6, 0, 8, 0, 4, 0, 0, 0, 8, 0, 0, 0, 3, 0, 2, 0]

def innerBox : Record :=
  [("size", .struct [("open", .scalar (.bool true)), ("width", .scalar (.uint16 3))]),
    ("tilt", .scalar (.float32 0))]

def outerBox : Record :=
  [("inner", .vector [.record innerBox, .record innerBox]), ("tilt", .scalar (.float32 0x80000000))]

/-- What is written of it: the inner boxes stand by themselves, the byte is 1, and the tilt is left out. -/
def boxAgain : Bytes := #[
  16, 0, 0, 0, 0, 0, 10, 0, 8, 0, 0, 0, 0, 0, 4, 0, 10, 0, 0, 0, 4, 0, 0, 0, 2, 0, 0, 0, 32, 0, 0, 0,
  12, 0, 0, 0, 0, 0, 6, 0, 10, 0, 6, 0, 6, 0, 0, 0, 0, 0, 3, 0, 1, 0, 6, 0, 8, 0, 4, 0, 6, 0, 0, 0,
  3, 0, 1, 0]

/-- The outer box, level but for the sign. -/
def levelBox : Record :=
  [("inner", .vector [.record innerBox, .record innerBox]), ("tilt", .scalar (.float32 0))]

theorem boxBuffer_reencodes : decodeRoot boxSchema boxBuffer { strict := true } = .ok outerBox ∧
    encodeRoot boxSchema outerBox {} = .ok boxAgain ∧
    decodeRoot boxSchema boxAgain { strict := true } = .ok levelBox ∧ Record.Alike levelBox outerBox := by
  have decoded : decodeRoot boxSchema boxBuffer { strict := true } = .ok outerBox := by
    decide +kernel
  have written : encodeRoot boxSchema outerBox {} = .ok boxAgain := by decide +kernel
  have reread : decodeRoot boxSchema boxAgain { strict := true } = .ok levelBox := by decide +kernel
  have valid : boxSchema.validate = .ok () := by decide +kernel
  have names : boxSchema.DistinctNames := ⟨by decide, by decide⟩
  have lenient : ({} : Config).validateText = false := rfl
  rcases decoded_reencodes valid names (by decide) (by decide) rfl decoded lenient with
    ⟨requested, limit, failed⟩ | ⟨again, r, written', reread', alike⟩
  · cases written.symm.trans failed
  · cases written.symm.trans written'
    cases reread.symm.trans reread'
    exact ⟨decoded, written, reread, alike⟩

/-- Without the natural layout, what is read of the second buffer is another record, or nothing at all. -/
theorem reencoding_differs :
    ((Schema.holding overlaid).validate = .ok () ∧ (Schema.holding overlaid).DistinctNames ∧
      decodeRoot (.holding overlaid) #[12, 0, 0, 0, 0, 0, 6, 0, 5, 0, 4, 0, 6, 0, 0, 0, 2] { strict := true } =
        .ok twoAndTrue ∧
      encodeRoot (.holding overlaid) twoAndTrue {} = .ok overlaidBuffer ∧
      decodeRoot (.holding overlaid) overlaidBuffer { strict := true } = .ok oneAndTrue ∧
      ¬Record.Alike oneAndTrue twoAndTrue) ∧
    (Schema.holding uneven).validate = .ok () ∧ (Schema.holding uneven).DistinctNames ∧
      decodeRoot (.holding uneven) #[12, 0, 0, 0, 0, 0, 6, 0, 8, 0, 6, 0, 6, 0, 0, 0, 0, 0, 7, 0]
        { strict := true } = .ok seven ∧
      encodeRoot (.holding uneven) seven {} = .ok unevenBuffer ∧
      decodeRoot (.holding uneven) unevenBuffer { strict := true } = .error (.corrupt 17 .misaligned) := by
  have changed : ¬Record.Alike oneAndTrue twoAndTrue := by
    simp [Record.Alike, Value.AlikeEntries, Value.Alike, Scalar.Alike, IsZero, oneAndTrue, twoAndTrue]
  refine ⟨⟨Schema.validate_holding overlaid, ⟨by decide, by decide⟩, ?_⟩, Schema.validate_holding uneven,
    ⟨by decide, by decide⟩, ?_⟩
  · exact ⟨by decide +kernel, by decide +kernel, by decide +kernel, changed⟩
  · decide +kernel

end FlatRecord
