import FlatRecord.Proofs.Builder.Leaner
import FlatRecord.Proofs.Codec.SizeLimit
import FlatRecord.Schema.Game

/-! The lengths of a record's buffers under different configurations. Without shared field tables, defaults that are
written take room and nothing else can give it back; sharing can, since records that have all their fields have equal
tables more often. -/
namespace FlatRecord

open Builder Build Encoding

namespace Encoding

/-- The same field, but for where it refers to. A struct's alignment is a power of two. -/
inductive Pending.Matches : Pending → Pending → Prop where
  | scalar {slot : Nat} {value default : Scalar} : Matches (.scalar slot value default) (.scalar slot value default)
  | struct {slot : Nat} {bytes : List UInt8} {alignment : Nat} (power : isPowerOfTwo alignment = true) :
    Matches (.struct slot bytes alignment) (.struct slot bytes alignment)
  | ref {slot : Nat} {kind : ObjectKind} {child child' : Ref kind} :
    Matches (.ref slot kind child) (.ref slot kind child')

theorem Pending.Matches.alignment {p q : Pending} (fits : p.Matches q) : p.alignment = q.alignment := by
  cases fits <;> rfl

theorem matches_insert {p q : Pending} {ps qs : List Pending} (head : p.Matches q)
    (all : List.Forall₂ Pending.Matches ps qs) :
    List.Forall₂ Pending.Matches (insertByAlignment p ps) (insertByAlignment q qs) := by
  induction all with
  | nil => exact .cons head .nil
  | cons first rest ih =>
    rw [insertByAlignment, insertByAlignment, head.alignment, first.alignment]
    split
    · exact .cons head (.cons first rest)
    · exact .cons first ih

theorem matches_byAlignment {ps qs : List Pending} (all : List.Forall₂ Pending.Matches ps qs) :
    List.Forall₂ Pending.Matches (byAlignment ps) (byAlignment qs) := by
  induction all with
  | nil => exact .nil
  | cons head _ ih => exact matches_insert head ih

end Encoding

variable {schema : Schema} {child : Child} {b b' : Builder}

theorem leans_filterMapM {S : β → γ → Prop} {items : List α} {step : α → Build (Option β)}
    {step' : α → Build (Option γ)} (lean : Leaner b b') (each : ∀ item b b', Leaner b b' →
      Leans (Option.Rel S) ((step item).run b) ((step' item).run b')) :
    Leans (List.Forall₂ S) ((items.filterMapM step).run b) ((items.filterMapM step').run b') := by
  suffices general : ∀ found found', List.Forall₂ S found found' →
      Leans (List.Forall₂ S) ((List.filterMapM.loop step items found).run b)
        ((List.filterMapM.loop step' items found').run b') from general [] [] .nil
  induction items generalizing b b' with
  | nil => exact fun found found' before => leans_pure lean (List.rel_reverse before)
  | cons item rest ih =>
    intro found found' before
    rw [List.filterMapM.loop, List.filterMapM.loop]
    refine leans_bind (each item b b' lean) fun answer answer' _ _ related lean => ?_
    cases related with
    | none => exact ih lean found found' before
    | some related => exact ih lean _ _ (.cons related before)

section Encoder

theorem leans_encodeText (lean : Leaner b b') (value : Value) (field : String) :
    Leans Anyhow ((encodeText value field).run b) ((encodeText value field).run b') := by
  cases value with
  | text s => exact leans_createUnchecked lean _
  | bytes bytes => exact leans_createBytes lean bytes
  | scalar | vector | record | struct => exact leans_error rfl

theorem leans_pending (lean : Leaner b b') {p q : Pending} (fits : p.Matches q) :
    Leans Anyhow (p.write.run b) (q.write.run b') := by
  cases fits with
  | scalar =>
    rw [Pending.write]
    split
    · exact leans_addField lean _ _ _
    · exact leans_error rfl
  | struct power => exact leans_addStructField lean _ _ power
  | ref => exact leans_addRefField lean _ _ _

variable (out : schema.LaidOut)
  (children : ∀ name r b b', Leaner b b' → Leans Anyhow ((child name r).run b) ((child name r).run b'))

include children

theorem leans_encodeVector (lean : Leaner b b') (element : ElementType) (value : Value) (field : String) :
    Leans Anyhow ((encodeVector schema child element value field).run b)
      ((encodeVector schema child element value field).run b') := by
  cases value with
  | vector items =>
    cases element with
    | scalar t =>
      refine leans_bind (leans_startVector lean _ _ _) fun _ _ _ _ _ lean =>
        leans_bind (leans_each lean fun item b b' lean => ?_) fun _ _ _ _ _ lean => leans_endVector lean
      cases item with
      | scalar v =>
        exact leans_lift fun w _ => leans_pushBytesElement lean w.toBytes
      | text | bytes | vector | record | struct => exact leans_error rfl
    | struct name =>
      refine leans_lift fun s _ => leans_lift fun elements _ => ?_
      exact leans_bind (leans_startVector lean _ _ _) fun _ _ _ _ _ lean =>
        leans_bind (leans_each lean fun item _ _ lean => leans_pushBytesElement lean item) fun _ _ _ _ _ lean =>
          leans_endVector lean
    | text =>
      exact leans_bind (leans_mapM lean fun item _ _ lean => leans_encodeText lean item field)
        fun _ _ _ _ related lean => leans_createRefVector lean related
    | record name =>
      refine leans_bind (leans_mapM (S := Anyhow) lean fun item b b' lean => ?_) fun _ _ _ _ related lean =>
        leans_createRefVector lean related
      cases item with
      | record r => exact children name r b b' lean
      | scalar | text | bytes | vector | struct => exact leans_error rfl
  | scalar | text | bytes | record | struct => exact leans_error rfl

include out

theorem leans_encodeField (lean : Leaner b b') (f : RecordField) (value : Value) :
    Leans Pending.Matches ((encodeField schema child f value).run b) ((encodeField schema child f value).run b') := by
  unfold encodeField
  cases f.type with
  | scalar | enumeration =>
    exact leans_lift fun _ _ => leans_lift fun _ _ => leans_pure lean .scalar
  | struct name =>
    refine leans_lift fun s known => leans_lift fun _ _ => ?_
    obtain ⟨k, -, power⟩ := (out.struct known).alignment_power
    exact leans_pure lean (.struct ((isPowerOfTwo_iff _).2 ⟨k, power⟩))
  | text => exact leans_bind (leans_encodeText lean value f.name) fun _ _ _ _ _ lean => leans_pure lean .ref
  | vector element =>
    exact leans_bind (leans_encodeVector children lean element value f.name) fun _ _ _ _ _ lean =>
      leans_pure lean .ref
  | record name =>
    cases value with
    | record r => exact leans_bind (children name r b b' lean) fun _ _ _ _ _ lean => leans_pure lean .ref
    | scalar | text | bytes | vector | struct => exact leans_error rfl

theorem leans_encodeRecord (lean : Leaner b b') (typeName : String) (r : Record) :
    Leans Anyhow ((encodeRecord schema child typeName r).run b) ((encodeRecord schema child typeName r).run b') := by
  refine leans_lift fun type _ => leans_lift fun _ _ =>
    leans_bind (leans_filterMapM (S := Pending.Matches) lean fun f b b' lean => ?_) fun _ _ _ _ related lean =>
      leans_bind (leans_startRecord lean) fun _ _ _ _ _ lean =>
        leans_bind (leans_forM (matches_byAlignment related) lean fun _ _ _ _ fits lean => leans_pending lean fits)
          fun _ _ _ _ _ lean => leans_endRecord lean
  cases r.get? f.name with
  | none => exact leans_pure lean .none
  | some v =>
    rw [Option.mapM_some]
    exact leans_map (leans_encodeField out children lean f v) .some

omit children in
/-- Records of any depth are encoded side by side. -/
theorem leans_encodeLevels (lean : Leaner b b') (levels : Nat) (typeName : String) (r : Record) :
    Leans Anyhow ((encodeLevels schema levels typeName r).run b)
      ((encodeLevels schema levels typeName r).run b') := by
  induction levels generalizing b b' typeName r with
  | zero => exact leans_error rfl
  | succ levels ih => exact leans_encodeRecord out (fun name r _ _ lean => ih lean name r) lean typeName r

end Encoder

/-- A record is encoded in no more bytes from a configuration that omits more and may share tables. -/
theorem encodeRoot_size_le {r : Record} {config config' : Config} {bytes bytes' : Bytes} (out : schema.LaidOut)
    (lean : Leaner (ofConfig config) (ofConfig config')) (written : encodeRoot schema r config = .ok bytes)
    (written' : encodeRoot schema r config' = .ok bytes') : bytes.size ≤ bytes'.size := by
  obtain ⟨type, rooted⟩ : ∃ type, schema.rootRecord = .ok type := by
    rw [encodeRoot, rootBuffer] at written
    obtain ⟨type, rooted, -⟩ := bind_eq_ok.1 written
    exact ⟨type, rooted⟩
  rw [encodeRoot, rootBuffer_eq rooted] at written written'
  split at written
  next run =>
    split at written'
    next run' =>
      cases written
      cases written'
      have levels : Leans Anyhow ((encodeLevels schema r.depth type.name r).run _)
          ((encodeLevels schema r.depth type.name r).run _) :=
        leans_encodeLevels out lean r.depth type.name r
      have whole := leans_bind levels fun root root' _ _ _ lean =>
        leans_finish lean root root' schema.identifier false
      obtain ⟨-, lean⟩ := whole _ _ _ _ run run'
      rw [size_buffer run, size_buffer run']
      exact lean.used
    next => cases written'
  next => cases written

/-- Defaults that are written never make a buffer shorter where tables are not shared; and a buffer with shared tables
is never longer than the one that has its own for each record and all defaults written. -/
theorem forcedDefaults_size_le {r : Record} {config : Config} {plain forced : Bytes} (out : schema.LaidOut)
    (omitted : encodeRoot schema r { config with forceDefaults := false } = .ok plain)
    (written : encodeRoot schema r { config with forceDefaults := true } = .ok forced) :
    (config.shareTables = false → plain.size ≤ forced.size) ∧
    ∀ unshared, encodeRoot schema r { config with forceDefaults := true, shareTables := false } = .ok unshared →
      plain.size ≤ unshared.size ∧ forced.size ≤ unshared.size := by
  refine ⟨fun unshared => ?_, fun unshared alone => ⟨?_, ?_⟩⟩
  · exact encodeRoot_size_le out (ofConfig_leaner _ { config with forceDefaults := true } unshared fun _ => rfl)
      omitted written
  · exact encodeRoot_size_le out (ofConfig_leaner _ _ rfl fun _ => rfl) omitted alone
  · exact encodeRoot_size_le out (ofConfig_leaner _ _ rfl fun _ => rfl) written alone

/-- A monster with two weapons, of which the second has the damage that weapons have by default. -/
def armed : Record := Record.ofEntries [
  ("hp", .scalar (.int16 1)), ("mana", .scalar (.int16 1)), ("color", .scalar (.int8 0)),
  ("weapons", .vector [
    .record (Record.ofEntries [("name", .text ""), ("damage", .scalar (.int16 5))]),
    .record (Record.ofEntries [("name", .text ""), ("damage", .scalar (.int16 0))])])]

theorem armed_size_le : ∃ plain forced,
    encodeRoot Schema.Game.schema armed { shareTables := false } = .ok plain ∧
    encodeRoot Schema.Game.schema armed { shareTables := false, forceDefaults := true } = .ok forced ∧
    plain.size = 108 ∧ forced.size = 112 ∧ plain.size ≤ forced.size := by
  have first : Array.size <$> encodeRoot Schema.Game.schema armed { shareTables := false } = .ok 108 := by
    decide +kernel
  have second : Array.size <$> encodeRoot Schema.Game.schema armed
      { shareTables := false, forceDefaults := true } = .ok 112 := by decide +kernel
  obtain ⟨plain, omitted, size⟩ := map_eq_ok first
  obtain ⟨forced, written, size'⟩ := map_eq_ok second
  have least := @forcedDefaults_size_le _ _ { shareTables := false } _ _ (by decide) omitted written
  exact ⟨plain, forced, omitted, written, size, size', least.1 rfl⟩

/-- Where tables are shared, the two bytes of the damage are less than the table that the second weapon then has in
common with the first. -/
theorem armed_shortened : Schema.Game.schema.validate = .ok () ∧
    Array.size <$> encodeRoot Schema.Game.schema armed {} = .ok 108 ∧
    Array.size <$> encodeRoot Schema.Game.schema armed { forceDefaults := true } = .ok 104 := by
  decide +kernel

end FlatRecord
