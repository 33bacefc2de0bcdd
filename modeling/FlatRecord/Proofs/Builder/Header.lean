import FlatRecord.Proofs.Builder.Agreement
import FlatRecord.Proofs.Builder.References
import FlatRecord.Proofs.Builder.Remembered
import FlatRecord.Proofs.Codec.RoundTrip

/-! The header of a finished buffer. It always leads to the root; whether the identifier stands right behind the
offset to the root depends on the alignments that structs were added with. -/
namespace FlatRecord

open Builder Build Reading

namespace Builder

/-- What is aligned to it leaves room for an offset without a gap, or asks for no more than offsets do. -/
def FitsOffsets (alignment : Nat) : Prop := alignment ≤ offsetSize ∨ offsetSize ∣ alignment

instance (alignment : Nat) : Decidable (FitsOffsets alignment) := inferInstanceAs (Decidable (_ ∨ _))

/-- The alignment that the builder remembers. -/
def FitsHeader (b : Builder) : Prop := FitsOffsets b.minAlign

theorem fitsOffsets_two_pow (k : Nat) : FitsOffsets (2 ^ k) := by
  rcases Nat.le_total k 2 with small | large
  · exact .inl (Nat.pow_le_pow_right (by decide) small)
  · exact .inr (Nat.pow_dvd_pow 2 large)

/-- The alignment of the whole buffer is a multiple of an offset's. -/
theorem four_dvd_max {alignment : Nat} (fits : FitsOffsets alignment) :
    4 ∣ max alignment offsetSize := by
  rcases fits with small | whole
  · rw [Nat.max_eq_right small]
    exact Nat.dvd_refl 4
  · rcases Nat.eq_zero_or_pos alignment with rfl | positive
    · exact Nat.dvd_refl 4
    · rwa [Nat.max_eq_left (Nat.le_of_dvd positive whole)]

variable {b b' : Builder}

/-- A step that asks for no alignment that offsets do not fit, whether it fails or not. -/
def KeepsFit (x : Build α) : Prop :=
  ∀ b, b.FitsHeader → Ends x b (fun _ b' => b'.FitsHeader) fun _ b' => b'.FitsHeader

/-- A struct is added at an alignment that fits, if at all. -/
def Operation.Fits : Operation → Prop
  | .addStructField _ _ alignment => FitsOffsets alignment
  | _ => True

/-- A reset begins with the least alignment, and all else that is asked for is a power of two, structs apart. -/
theorem keepsFit_step {op : Operation} (fits : op.Fits) : KeepsFit op.step := by
  by_cases forgets : op = .reset
  · subst forgets
    exact fun _ _ => .inl (by decide : 1 ≤ offsetSize)
  · refine remembers_step (fun k _ => .of_holds (fitsOffsets_two_pow k)) ?_ forgets
    cases op with
    | startVector length elementSize alignment =>
      intro power
      obtain ⟨k, rfl⟩ := (isPowerOfTwo_iff alignment).1 power
      exact .of_holds (fitsOffsets_two_pow k)
    | addStructField => exact .of_holds fits
    | _ => trivial

theorem apply_fits (fits : b.FitsHeader) {op : Operation} (opFits : op.Fits) :
    (b.apply op).2.FitsHeader := by
  have ends := keepsFit_step opFits b fits
  simp only [Ends] at ends
  unfold apply
  cases result : op.step.run b <;> rw [result] at ends <;> exact ends

theorem run_fits (fits : b.FitsHeader) (ops : List Operation) (all : ∀ op ∈ ops, op.Fits) :
    (b.run ops).FitsHeader := by
  induction ops generalizing b with
  | nil => exact fits
  | cons op rest ih =>
    obtain ⟨first, later⟩ := List.forall_mem_cons.1 all
    exact ih (apply_fits fits first) later

section Roots

/-- A reference to a record leads to one. -/
def Headed (b : Builder) (r : ObjectKind × Nat) : Prop :=
  r.1 = .record → ∃ start table places, HeadAt b.settled r.2 start table places

theorem endRecord_headed (sound : b.Sound) :
    Ends endRecord b (fun ref b' => Headed b' (.record, ref.distance)) fun _ _ => True := by
  refine ((endRecord_ends sound.region sound.fits sound.tables_written).and
    (safe_endRecord b sound)).mono (fun ref b' done _ => ?_) fun _ _ _ => trivial
  obtain ⟨⟨start, places, stage, closed⟩, advances⟩ := done
  rw [advances.sound.settled_idle closed.stage]
  obtain ⟨table, head⟩ := head_closed sound stage closed
  exact ⟨start, table, places, head⟩

/-- What is at hand as a record is one, whatever else the run did. -/
theorem lasting_headed : Lasting Headed where
  lasts _ advances headed record :=
    let ⟨start, table, places, head⟩ := headed record
    ⟨start, table, places, head.of_suffix advances.kept⟩
  text _ _ := (ends_trivial _).mono (fun _ _ _ record => nomatch record) fun _ _ _ => trivial
  vector _ := (ends_trivial _).mono (fun _ _ _ record => nomatch record) fun _ _ _ => trivial
  record sound := endRecord_headed sound

end Roots

section Identifiers

/-- How far into the buffer the identifier begins. -/
def headerEnd (sizePrefixed : Bool) : Nat := (if sizePrefixed then offsetSize else 0) + offsetSize

/-- The end of the header, where no gap is needed in front of what was written before. -/
theorem header_tight (sound : b.RegionSound) (root : Ref .record) (sizePrefixed : Bool)
    (tight : (b.used + offsetSize) % 4 = 0) :
    Ends (do
      pushOffset root.distance
      if sizePrefixed then pushCount (← get).used
      setStage .finished
      return (← get).region.data) b
      (fun bytes _ => ∃ front, front.length = headerEnd sizePrefixed ∧
        bytes.toList = front ++ b.written) fun _ _ => True := by
  have none : padding (b.used + offsetSize) offsetSize = 0 := by
    rw [offsetSize, padding_four]
    simp only [offsetSize] at tight
    omega
  have close {b₁ : Builder} {front : List UInt8} (length : front.length = headerEnd sizePrefixed)
      (written : b₁.written = front ++ b.written) :
      Ends (do setStage .finished; return (← get).region.data) b₁
        (fun bytes _ => ∃ front, front.length = headerEnd sizePrefixed ∧
          bytes.toList = front ++ b.written) fun _ _ => True :=
    ⟨front, length, (Region.toList_data b₁.region).trans written⟩
  rw [ends_bind]
  refine (pushOffset_ends sound _).mono (fun _ b₁ offset => ?_) fun _ _ _ => trivial
  obtain ⟨aligned, offset⟩ := offset
  rw [none, zeros, List.replicate_zero, List.append_nil] at offset
  cases sizePrefixed with
  | false =>
    exact close (by rw [LittleEndian.length_encode]; rfl) offset.written
  | true =>
    simp only [if_true]
    rw [ends_bind, ends_get, ends_bind]
    refine (prefix_ends offset.region aligned).mono (fun _ b₂ size => ?_) fun _ _ _ => trivial
    refine close ?_ (by rw [size.written, offset.written, ← List.append_assoc])
    rw [List.length_append, LittleEndian.length_encode, LittleEndian.length_encode]
    rfl

/-- The identifier stands right behind the offset to the root. -/
theorem finish_names (sound : b.RegionSound) (fits : b.FitsHeader) (root : Ref .record)
    (id : Identifier) (sizePrefixed : Bool) :
    Ends (finish root (some id) sizePrefixed) b
      (fun bytes _ => ∃ front rest, front.length = headerEnd sizePrefixed ∧
        bytes.toList = front ++ (id.toList ++ rest)) fun _ _ => True := by
  refine ensureWritable_then (fun _ => trivial) fun _ => ?_
  rw [ends_bind, ends_get]
  dsimp only
  split
  next => trivial
  next =>
    rw [ends_bind, ends_get, ends_bind]
    refine (checkRef_ends _ _).mono (fun _ b₁ good => ?_) fun _ _ _ => trivial
    obtain ⟨rfl, -⟩ := good
    rw [ends_bind, ends_get, ends_bind]
    refine (align_ends sound _ _).mono (fun _ b₂ pad => ?_) fun _ _ _ => trivial
    have used := pad.used sound
    have aligned := add_padding_dvd (b₁.used + (offsetSize + identifierSize +
      if sizePrefixed then offsetSize else 0)) (four_dvd_max fits)
    rw [ends_bind]
    refine (write_ends pad.region id.toList).mono (fun _ b₃ named => ?_) fun _ _ _ => trivial
    have used' := named.used pad.region
    have length : id.toList.length = identifierSize := Vector.length_toList
    simp only [Option.isSome_some, if_true, length_zeros] at used
    rw [length] at used'
    have tight : (b₃.used + offsetSize) % 4 = 0 := by
      simp only [offsetSize, identifierSize] at aligned used used' ⊢
      cases sizePrefixed <;> simp only [Bool.false_eq_true, if_false, if_true] at aligned used <;> omega
    refine (header_tight named.region root sizePrefixed tight).mono (fun bytes _ done => ?_)
      fun _ _ _ => trivial
    obtain ⟨front, length, split⟩ := done
    exact ⟨front, b₂.written, length, by rw [split, named.written]⟩

theorem identifier_found {bytes : Bytes} {front rest : List UInt8} {id : Identifier}
    {sizePrefixed : Bool} (length : front.length = headerEnd sizePrefixed)
    (split : bytes.toList = front ++ (id.toList ++ rest)) :
    Buffer.hasIdentifier ⟨bytes, if sizePrefixed then offsetSize else 0⟩ id = true := by
  have width : id.toList.length = identifierSize := Vector.length_toList
  have size : bytes.size = headerEnd sizePrefixed + (identifierSize + rest.length) := by
    rw [← Array.length_toList, split, List.length_append, List.length_append, length, width]
  have there : bytes.extract (headerEnd sizePrefixed) (headerEnd sizePrefixed + identifierSize) =
      id.toArray := by
    apply Array.toList_inj.1
    rw [Array.toList_extract, List.extract_eq_take_drop, split, ← length, List.drop_left,
      Nat.add_sub_cancel_left, List.take_left' width]
    rfl
  rw [Buffer.hasIdentifier, Buffer.identifier?]
  dsimp only
  rw [show (if sizePrefixed then offsetSize else 0) + offsetSize = headerEnd sizePrefixed from rfl,
    if_pos (by omega), there]
  simp

end Identifiers

/-- A buffer that was finished opens as a whole, with the size it says it has and its root where the reference
to it points. The root is a record if the reference was handed out for one since the builder was made or reset;
and the identifier is found if no struct was added at an alignment that offsets do not fit. -/
theorem finished_header (fresh : b.Fresh) (ops : List Operation) (root : Ref .record)
    (identifier : Option Identifier) (sizePrefixed : Bool) (buf : Bytes)
    (finished : ((b.run ops).apply (.finish root identifier sizePrefixed)).1 = .ok (.buffer buf)) :
    ∃ view, (if sizePrefixed then Buffer.ofSizePrefixed buf else Buffer.ofBytes buf) = .ok view ∧
      view.bytes = buf ∧
      (sizePrefixed = true → nat buf 0 offsetSize = .ok (buf.size - offsetSize)) ∧
      view.root = Table.read buf (buf.size - root.distance) ∧
      ((.record, root.distance) ∈ atHand [] b ops →
        ∃ t, view.root = .ok t ∧ t.position = buf.size - root.distance) ∧
      ((∀ op ∈ ops, op.Fits) → ∀ id, identifier = some id → view.hasIdentifier id = true) := by
  have sound := run_sound fresh.sound ops
  obtain ⟨b', ended⟩ := finished_of_apply sound finished
  have opens := ended.opens sound.region #[]
  have size (sized : sizePrefixed = true) := ended.size_reads sized #[]
  have reads := ended.root_reads sound.region
  rw [Array.append_empty] at opens size
  refine ⟨⟨buf, if sizePrefixed then offsetSize else 0⟩, opens, rfl, size, reads, fun known => ?_,
    fun fits id named => ?_⟩
  · obtain ⟨start, table, places, head⟩ := lasting_headed.atHand fresh.sound
      (List.forall_mem_nil _) ops _ known rfl
    rw [sound.settled_idle ended.ready] at head
    exact ⟨_, reads.trans (head.of_suffix ended.suffix).reads, rfl⟩
  · subst named
    have start : b.FitsHeader := by
      obtain ⟨config, history, rfl | rfl⟩ := fresh
      · exact .inl (by decide : 1 ≤ offsetSize)
      · exact .inl (by decide : 1 ≤ offsetSize)
    have ends : Ends (Operation.finish root (some id) sizePrefixed).step (b.run ops)
        (fun answer _ => ∀ bytes, answer = .buffer bytes → ∃ front rest,
          front.length = headerEnd sizePrefixed ∧ bytes.toList = front ++ (id.toList ++ rest))
        fun _ _ => True := by
      rw [Operation.step, ends_map]
      refine (finish_names sound.region (run_fits start ops fits) root id sizePrefixed).mono
        (fun bytes _ done bytes' same => ?_) fun _ _ _ => trivial
      cases same
      exact done
    obtain ⟨front, rest, length, split⟩ := ends.of_ok (run_of_apply_ok (Prod.ext finished rfl)) buf rfl
    exact identifier_found length split

/-- A record with a struct, at an alignment of the caller's choice. -/
def structRecord (alignment : Nat) : List Operation := [
  .startRecord, .addStructField 0 [170] alignment, .endRecord]

def magic : Identifier := #v[70, 87, 66, 84]

def structRecordBuffer : Bytes := #[
  28, 0, 0, 0, 16, 0, 0, 0, 70, 87, 66, 84, 0, 0, 6, 0, 12, 0, 4, 0, 6, 0, 0, 0, 170, 0, 0, 0, 0, 0, 0, 0]

theorem structRecord_header :
    ∃ view, Buffer.ofSizePrefixed structRecordBuffer = .ok view ∧ view.bytes = structRecordBuffer ∧
      nat structRecordBuffer 0 offsetSize = .ok 28 ∧
      (∃ t, view.root = .ok t ∧ t.position = 20) ∧ view.hasIdentifier magic = true := by
  obtain ⟨view, opens, whole, size, -, root, named⟩ := finished_header (b := ofConfig {})
    ⟨{}, [], .inl rfl⟩ (structRecord 8) ⟨12⟩ (some magic) true structRecordBuffer (by decide +kernel)
  have fits : ∀ op ∈ structRecord 8, op.Fits := by
    intro op mem
    simp only [structRecord, List.mem_cons, List.not_mem_nil, or_false] at mem
    rcases mem with rfl | rfl | rfl
    · trivial
    · exact .inr (by decide : 4 ∣ 8)
    · trivial
  exact ⟨view, opens, whole, size rfl, root (by decide +kernel), named fits magic rfl⟩

def misnamedBuffer : Bytes := #[
  20, 0, 0, 0, 0, 0, 70, 87, 66, 84, 0, 0, 0, 0, 6, 0, 12, 0, 6, 0, 6, 0, 0, 0, 0, 0, 170, 0, 0, 0, 0, 0]

/-- Behind the padding to a multiple of six the offset to the root needs padding of its own, which comes between
it and the identifier. -/
theorem structRecord_misnamed :
    (((ofConfig {}).run (structRecord 6)).apply (.finish ⟨12⟩ (some magic) false)).1 =
      .ok (.buffer misnamedBuffer) ∧
    Buffer.ofBytes misnamedBuffer = .ok ⟨misnamedBuffer, 0⟩ ∧
    Buffer.hasIdentifier ⟨misnamedBuffer, 0⟩ magic = false := by
  decide +kernel

end Builder

end FlatRecord
