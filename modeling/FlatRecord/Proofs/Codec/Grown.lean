import FlatRecord.Proofs.Codec.Opened
import FlatRecord.Proofs.Reading.Trimmed

/-! Buffers that were written before a schema evolved, read with the later schema, and the other way round. -/
namespace FlatRecord

open Builder Build Reading Encoding Decoding

variable {old new : Schema} {forced : Bool} {g : Ground} {place place' : Placement} {f : RecordField}
  {type : ElementType} {name : String} {o n : RecordType} {r : Record}

section Standing

theorem ElementStands.evolves (evolves : old.Evolves new)
    (children : ∀ g name r d, place g name r d → place' g name r d) {v : Value} {p : Piece}
    (stands : ElementStands old place g type v p) : ElementStands new place' g type v p := by
  cases stands with
  | scalar converted => exact .scalar converted
  | struct known written => exact .struct (evolves.structs _ _ known) written
  | text stands => exact .text stands
  | record stands => exact .record (children _ _ _ _ stands)

theorem fieldScalar_evolves (evolves : old.Evolves new) {t : ScalarType} {v : Value} {w : Scalar}
    (written : fieldScalar old f t v = .ok w) : fieldScalar new f t v = .ok w := by
  simp only [fieldScalar] at written ⊢
  split at written
  next => exact written
  next variant name kind =>
    obtain ⟨e, known, written⟩ := bind_eq_ok.1 written
    simp only [evolves.enums name e known, ok_bind]
    exact written
  next => cases written

theorem FieldStands.evolves (evolves : old.Evolves new)
    (children : ∀ g name r d, place g name r d → place' g name r d) {v : Value} {p : Pending}
    (stands : FieldStands old place g f v p) : FieldStands new place' g f v p := by
  cases stands with
  | scalar stored written =>
    exact .scalar (evolves.scalarOf stored) (fieldScalar_evolves evolves written)
  | struct kind known written => exact .struct kind (evolves.structs _ _ known) written
  | text kind stands => exact .text kind stands
  | vector kind stands =>
    obtain ⟨element, elements, resolved, all, level⟩ := stands
    exact .vector kind ⟨element, elements, evolves.resolve resolved,
      all.imp fun _ _ here => here.evolves evolves children, level⟩
  | record kind stands => exact .record kind (children _ _ _ _ stands)

end Standing

section Growing

end Growing

section Roots

variable {config : Config} {bytes : Bytes} {options : ReaderOptions}

end Roots

end FlatRecord
