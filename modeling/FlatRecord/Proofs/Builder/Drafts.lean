import FlatRecord.Proofs.Builder.Stored

/-! What a step that succeeds makes of the open object: a text, vector or record that is closed is stored
among the settled bytes. -/
namespace FlatRecord

open Builder Build

namespace Builder

/-- If the step succeeds, the answer and the builder are good, and what was settled is settled still. -/
def Makes (x : Build α) (b : Builder) (good : α → Builder → Prop) : Prop :=
  Ends x b (fun a b' => Advances b b' ∧ good a b') fun _ _ => True

variable {b b' : Builder} {good : α → Builder → Prop}

theorem makes_of_ends {x : Build α} {ok : α → Builder → Prop} {bad : Error → Builder → Prop}
    (sound : b.Sound) (safe : Safe x) (ends : Ends x b ok bad)
    (done : ∀ a b', ok a b' → Advances b b' → good a b') : Makes x b good :=
  (ends.and (safe b sound)).mono (fun a b' both => ⟨both.2, done a b' both.1 both.2⟩)
    fun _ _ _ => trivial

theorem text_made {bytes : List UInt8} {x : Build (Ref .text)} (sound : b.Sound) (safe : Safe x)
    (ends : Ends x b (fun ref b' => b.stage = .idle ∧ bytes.length < 2 ^ 32 ∧
      ref.distance = b'.used ∧ ∃ gap < offsetSize, Adds b (textBytes bytes ++ zeros gap) b')
      (fun _ b' => Littered b b')) :
    Makes x b fun ref b' => b'.stage = .idle ∧ TextStored b'.settled ref.distance bytes := by
  apply makes_of_ends sound safe ends
  intro ref b' done advances
  obtain ⟨idle, short, here, gap, -, adds⟩ := done
  have idle' : b'.stage = .idle := adds.stage.trans idle
  refine ⟨idle', ?_⟩
  rw [advances.sound.settled_idle idle', here]
  exact text_stored sound.region short adds

section Vectors

variable {length size alignment : Nat} {elements : List Piece}

theorem vector_begun (sound : b.Sound) :
    Makes (startVector length size alignment) b fun _ b' => VectorDraft b' length size [] := by
  apply makes_of_ends sound (safe_startVector length size alignment)
    (startVector_ends sound.region length size alignment)
  intro _ b' done _
  obtain ⟨_, positive, short, b₁, gap, adds, -, aligned, rfl⟩ := done
  exact draft_begun short positive aligned

theorem own_pushed (sound : b.Sound) (draft : VectorDraft b length size elements)
    (bytes : List UInt8) :
    Makes (pushBytesElement bytes) b fun _ b' =>
      VectorDraft b' length size (elements ++ [.own bytes]) := by
  apply makes_of_ends sound (safe_pushBytesElement bytes)
    (pushBytesElement_ends sound.region sound.fits bytes)
  intro _ b' done _
  obtain ⟨length', pushed, first, stage, more, rfl⟩ := done
  obtain ⟨rfl, -, rfl, -⟩ := Stage.vector.inj (draft.stage.symm.trans stage)
  exact draft_filled (p := .own bytes) sound draft stage more trivial

theorem ref_pushed (sound : b.Sound) (draft : VectorDraft b length size elements)
    {kind : ObjectKind} (child : Ref kind) :
    Makes (pushRef child) b fun _ b' =>
      VectorDraft b' length size (elements ++ [.ref kind child.distance]) := by
  apply makes_of_ends sound (safe_pushRef child) (pushRef_ends sound.region sound.fits child)
  intro _ b' done _
  obtain ⟨length', pushed, first, stage, more, positive, below, rfl⟩ := done
  obtain ⟨rfl, -, rfl, -⟩ := Stage.vector.inj (draft.stage.symm.trans stage)
  exact draft_filled (p := .ref kind child.distance) sound draft stage more
    (ref_reaches sound stage more positive below)

theorem vector_made (sound : b.Sound) (draft : VectorDraft b length size elements) :
    Makes endVector b fun ref b' => b'.stage = .idle ∧ elements.length = length ∧
      ref.distance = offsetSize + b.used ∧ VectorStored b'.settled ref.distance size elements := by
  apply makes_of_ends sound safe_endVector (endVector_ends sound.region)
  intro ref b' done advances
  obtain ⟨length', size', first, gap, stage, here, adds, tight⟩ := done
  have idle : b'.stage = .idle := adds.stage
  refine ⟨idle, ?_⟩
  rw [advances.sound.settled_idle idle, here]
  exact vector_closed sound draft stage adds tight

end Vectors

section Records

variable {fields : List (Nat × Piece)}

theorem record_started (sound : b.Sound) : Makes startRecord b fun _ b' => RecordDraft b' [] := by
  apply makes_of_ends sound safe_startRecord startRecord_ends
  intro _ b' done _
  obtain ⟨idle, rfl⟩ := done
  exact record_begun

theorem scalar_added (sound : b.Sound) (draft : RecordDraft b fields) (slot : Nat)
    (value default : Scalar) :
    Makes (addField slot value default) b fun _ b' => RecordDraft b'
      (if b.elides value default then fields else (slot, .own value.toBytes) :: fields) := by
  apply makes_of_ends sound (safe_addField slot value default)
    (addField_ends sound.region slot value default)
  intro _ b' done _
  rcases done with ⟨elided, rfl⟩ | ⟨written, added⟩
  · rwa [if_pos elided]
  · rw [if_neg (by rw [written]; decide)]
    exact draft_added (p := .own value.toBytes) sound draft added trivial

theorem struct_added (sound : b.Sound) (draft : RecordDraft b fields) (slot : Nat)
    (bytes : List UInt8) (alignment : Nat) :
    Makes (addStructField slot bytes alignment) b fun _ b' =>
      RecordDraft b' ((slot, .own bytes) :: fields) :=
  makes_of_ends sound (safe_addStructField slot bytes alignment)
    (addStructField_ends sound.region slot bytes alignment) fun _ _ added _ =>
      draft_added (p := .own bytes) sound draft added trivial

theorem reference_added (sound : b.Sound) (draft : RecordDraft b fields) (slot : Nat)
    {kind : ObjectKind} (child : Ref kind) :
    Makes (addRefField slot child) b fun _ b' =>
      RecordDraft b' ((slot, .ref kind child.distance) :: fields) := by
  apply makes_of_ends sound (safe_addRefField slot child)
    (addRefField_ends sound.region slot child)
  intro _ _ done _
  obtain ⟨positive, older, added⟩ := done
  exact draft_added (p := .ref kind child.distance) sound draft added
    (ref_added sound positive older added)

theorem record_made (sound : b.Sound) (draft : RecordDraft b fields) :
    Makes endRecord b fun ref b' => b'.stage = .idle ∧ ∃ start places, b.stage = .record start places ∧
      ∃ table, RecordAt b'.settled ref.distance start table places fields := by
  apply makes_of_ends sound safe_endRecord
    (endRecord_ends sound.region sound.fits sound.tables_written)
  intro ref b' done advances
  obtain ⟨start, places, stage, closed⟩ := done
  refine ⟨closed.stage, start, places, stage, ?_⟩
  rw [advances.sound.settled_idle closed.stage]
  exact record_closed sound draft stage closed

end Records

end Builder

end FlatRecord
