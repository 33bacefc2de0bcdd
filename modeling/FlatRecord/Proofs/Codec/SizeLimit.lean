import FlatRecord.Proofs.Builder.SizeLimit
import FlatRecord.Proofs.Codec.Checked

/-! Encoding under a size limit. The limit decides whether there is a buffer, and never what is in it. -/
namespace FlatRecord

open Builder Build Encoding

variable {schema : Schema} {child : Child} {limit : Nat} {b : Builder}

section Encoder

theorem narrows_encodeText (small : limit ≤ largestBuffer) (value : Value) (field : String) :
    Narrows limit (encodeText value field) b := by
  cases value with
  | text s => exact narrows_createUnchecked small _
  | bytes bytes => exact narrows_createBytes small bytes
  | scalar | vector | record | struct => exact narrows_throw _

variable (small : limit ≤ largestBuffer)
  (children : ∀ name r b, Narrows limit (child name r) b)

include small children

theorem narrows_encodeVector (element : ElementType) (value : Value) (field : String) :
    Narrows limit (encodeVector schema child element value field) b := by
  cases value with
  | vector items =>
    cases element with
    | scalar t =>
      refine narrows_bind (narrows_startVector small _ _ _) fun _ _ _ _ =>
        narrows_bind (narrows_forM fun item b => ?_) fun _ _ _ _ => narrows_endVector small
      cases item with
      | scalar v =>
        exact narrows_bind (narrows_ofExcept _) fun _ _ _ _ => narrows_pushBytesElement _
      | text | bytes | vector | record | struct => exact narrows_throw _
    | struct name =>
      exact narrows_bind (narrows_ofExcept _) fun s _ _ _ =>
        narrows_bind (narrows_ofExcept _) fun elements _ _ _ =>
          narrows_bind (narrows_startVector small _ _ _) fun _ _ _ _ =>
            narrows_bind (narrows_forM fun item _ => narrows_pushBytesElement item) fun _ _ _ _ =>
              narrows_endVector small
    | text =>
      exact narrows_bind (narrows_mapM fun item _ => narrows_encodeText small item field)
        fun _ _ _ _ => narrows_createRefVector small _
    | record name =>
      refine narrows_bind (narrows_mapM fun item b => ?_) fun _ _ _ _ =>
        narrows_createRefVector small _
      cases item with
      | record r => exact children name r b
      | scalar | text | bytes | vector | struct => exact narrows_throw _
  | scalar | text | bytes | record | struct => exact narrows_throw _

theorem narrows_encodeField (f : RecordField) (value : Value) :
    Narrows limit (encodeField schema child f value) b := by
  unfold encodeField
  cases f.type with
  | scalar | enumeration =>
    exact narrows_bind (narrows_ofExcept _) fun _ _ _ _ =>
      narrows_bind (narrows_ofExcept _) fun _ _ _ _ => narrows_pure _
  | struct name =>
    exact narrows_bind (narrows_ofExcept _) fun _ _ _ _ =>
      narrows_bind (narrows_ofExcept _) fun _ _ _ _ => narrows_pure _
  | text =>
    exact narrows_bind (narrows_encodeText small value f.name) fun _ _ _ _ => narrows_pure _
  | vector element =>
    exact narrows_bind (narrows_encodeVector small children element value f.name)
      fun _ _ _ _ => narrows_pure _
  | record name =>
    cases value with
    | record r => exact narrows_bind (children name r b) fun _ _ _ _ => narrows_pure _
    | scalar | text | bytes | vector | struct => exact narrows_throw _

omit children in
theorem narrows_pending (p : Pending) : Narrows limit p.write b := by
  cases p with
  | scalar slot value default =>
    rw [Pending.write]
    split
    · exact narrows_addField small _ _ _
    · exact narrows_throw _
  | struct slot bytes alignment => exact narrows_addStructField small _ _ _
  | ref slot kind target => exact narrows_addRefField small _ _

theorem narrows_encodeRecord (typeName : String) (r : Record) :
    Narrows limit (encodeRecord schema child typeName r) b := by
  refine narrows_bind (narrows_ofExcept _) fun type _ _ _ =>
    narrows_bind (narrows_ofExcept _) fun _ _ _ _ =>
      narrows_bind (narrows_filterMapM fun f b => ?_) fun pending _ _ _ =>
        narrows_bind narrows_startRecord fun _ _ _ _ =>
          narrows_bind (narrows_forM fun p _ => narrows_pending small p) fun _ _ _ _ =>
            narrows_endRecord small
  cases r.get? f.name with
  | none => exact narrows_pure _
  | some v =>
    rw [Option.mapM_some]
    exact narrows_map _ (narrows_encodeField small children f v)

omit children in
/-- Records of any depth can be narrowed to any limit. -/
theorem narrows_encodeLevels (levels : Nat) (typeName : String) (r : Record) :
    Narrows limit (encodeLevels schema levels typeName r) b := by
  induction levels generalizing b typeName r with
  | zero => exact narrows_throw _
  | succ levels ih => exact narrows_encodeRecord small (fun name r b => ih name r) typeName r

end Encoder

theorem ofConfig_snug (config : Config) : (ofConfig config).Snug :=
  ⟨⟨Region.new_sound _ _, rfl⟩, rfl, nofun⟩

theorem ofConfig_withMaxSize (small : limit ≤ largestBuffer) (config : Config) :
    ofConfig (config.withMaxSize limit) =
      (ofConfig config).narrowed limit (min config.initialCapacity limit) := by
  simp [ofConfig, narrowed, Config.withMaxSize, Region.new, Nat.min_eq_left small]

/-- The encoder with the end of the buffer, which is all that is written. -/
theorem narrows_buffer (small : limit ≤ largestBuffer) (typeName : String) (r : Record) :
    Narrows limit (encode schema typeName r >>= fun root => finish root schema.identifier false) b :=
  narrows_bind (narrows_encodeLevels small _ _ _) fun _ _ _ _ => narrows_finish small _ _ _

theorem size_buffer {config : Config} {typeName : String} {r : Record} {bytes : Bytes}
    (run : (encode schema typeName r >>= fun root => finish root schema.identifier false).run
      (ofConfig config) = .ok bytes b) : bytes.size = b.used := by
  obtain ⟨root, b₁, encoded, finished⟩ := run_bind_eq_ok run
  obtain ⟨snug, -, -⟩ := narrows_encodeLevels (Nat.le_refl _) _ _ _ (ofConfig_snug config) _ _ encoded
  exact finish_size snug.region finished

/-- Under another size limit a record has the same buffer, if that is within the limit, and otherwise none: the
limit is what the encoder fails by, for a size that it would have reached. -/
theorem sizeLimit_filters {r : Record} {config : Config} {bytes : Bytes}
    (written : encodeRoot schema r config = .ok bytes) (small : limit ≤ largestBuffer) :
    (bytes.size ≤ limit → encodeRoot schema r (config.withMaxSize limit) = .ok bytes) ∧
    (limit < bytes.size → ∃ requested,
      encodeRoot schema r (config.withMaxSize limit) = .error (.sizeLimit requested limit) ∧
        limit < requested ∧ requested ≤ bytes.size) := by
  obtain ⟨type, rooted⟩ : ∃ type, schema.rootRecord = .ok type := by
    rw [encodeRoot, rootBuffer] at written
    obtain ⟨type, rooted, -⟩ := bind_eq_ok.1 written
    exact ⟨type, rooted⟩
  rw [encodeRoot, rootBuffer_eq rooted] at written ⊢
  split at written
  next wide run =>
    cases written
    obtain ⟨-, -, follows⟩ := narrows_buffer small _ _ (ofConfig_snug config) _ _ run
    have here := follows (min config.initialCapacity limit) (Nat.zero_le _) (Nat.min_le_right _ _)
    rw [← ofConfig_withMaxSize small] at here
    rw [size_buffer run]
    cases narrow : (encode schema type.name r >>= fun root => finish root schema.identifier false).run
        (ofConfig (config.withMaxSize limit)) with
    | ok bytes' b =>
      rw [narrow] at here
      cases here with
      | ok fits room => exact ⟨fun _ => rfl, fun past => absurd past (by omega)⟩
    | error e b =>
      rw [narrow] at here
      cases here with
      | stopped past reached =>
        exact ⟨fun within => absurd past (by omega), fun _ => ⟨_, rfl, past, reached⟩⟩
  next => cases written

/-- The point of thirty-two bytes, with all the room it needs and with one byte less. -/
theorem labelled_filtered :
    encodeRoot pointSchema labelled (Config.withMaxSize {} 32) = .ok labelledUnsized ∧
    ∃ requested, encodeRoot pointSchema labelled (Config.withMaxSize {} 31) =
      .error (.sizeLimit requested 31) ∧ 31 < requested ∧ requested ≤ 32 := by
  have written : encodeRoot pointSchema labelled {} = .ok labelledUnsized := by decide +kernel
  have all : 32 ≤ largestBuffer := by decide
  have less : 31 ≤ largestBuffer := by decide
  exact ⟨(sizeLimit_filters written all).1 (by decide), (sizeLimit_filters written less).2 (by decide)⟩

end FlatRecord
