import FlatRecord.Proofs.Builder.Leaner
import FlatRecord.Proofs.Builder.Parts
import FlatRecord.Proofs.Results

/-! Runs with and without the sharing of field tables. A table that is shared moves everything that comes after it, and
so the distances by which operations refer to what was made before; here they refer to the operations that made it. -/
namespace FlatRecord

open Builder Build

def Ref.rename {kind : ObjectKind} (f : Nat → Nat) (r : Ref kind) : Ref kind := ⟨f r.distance⟩

namespace Builder

/-- The operation with other distances for what it refers to. -/
def Operation.rename (f : Nat → Nat) : Operation → Operation
  | .pushRef kind child => .pushRef kind (child.rename f)
  | .createRefVector kind items => .createRefVector kind (items.map (Ref.rename f))
  | .addRefField slot kind child => .addRefField slot kind (child.rename f)
  | .finish root identifier sizePrefixed => .finish (root.rename f) identifier sizePrefixed
  | op => op

/-- Where the object is that an operation has made, or zero, to which nothing may refer. -/
def Answer.distance : Answer → Nat
  | .object _ ref => ref.distance
  | .done | .buffer _ => 0

/-- The answers and builders of a run in which every operation succeeds, and in which a reference gives the place in
the run of the operation that made the object. `made` are the distances of the operations so far. -/
def play (b : Builder) (made : List Nat) : List Operation → Except Error (List (Answer × Builder))
  | [] => .ok []
  | op :: rest =>
    match b.apply (op.rename fun i => made.getD i 0) with
    | (.ok answer, b') => ((answer, b') :: ·) <$> play b' (made ++ [answer.distance]) rest
    | (.error e, _) => .error e

/-- A struct is added at a power of two, if at all. -/
def Operation.AddsAtPowers : Operation → Prop
  | .addStructField _ _ alignment => isPowerOfTwo alignment = true
  | _ => True

/-- The same kind of answer, and no more bytes. -/
inductive Answer.NoLonger : Answer → Answer → Prop where
  | done : NoLonger .done .done
  | object {kind : ObjectKind} {ref ref' : Ref kind} : NoLonger (.object kind ref) (.object kind ref')
  | buffer {bytes bytes' : Bytes} (less : bytes.size ≤ bytes'.size) : NoLonger (.buffer bytes) (.buffer bytes')

theorem Answer.NoLonger.of_buffer {answer : Answer} {bytes : Bytes} (noLonger : NoLonger (.buffer bytes) answer) :
    ∃ bytes', answer = .buffer bytes' ∧ bytes.size ≤ bytes'.size := by
  cases noLonger with
  | buffer less => exact ⟨_, rfl, less⟩

variable {b b' : Builder}

theorem related_map (f g : α → β) (items : List α) : List.Forall₂ Anyhow (items.map f) (items.map g) := by
  induction items with
  | nil => exact .nil
  | cons _ _ ih => exact .cons trivial ih

theorem leans_createTextVector (lean : Leaner b b') (items : List String) :
    Leans Anyhow ((createTextVector items).run b) ((createTextVector items).run b') :=
  leans_bind (leans_mapM lean fun _ _ _ lean => leans_createUnchecked lean _) fun _ _ _ _ related lean =>
    leans_createRefVector lean related

theorem leans_createVector (lean : Leaner b b') (type : ScalarType) (items : List Scalar) :
    Leans Anyhow ((createVector type items).run b) ((createVector type items).run b') :=
  leans_bind (leans_startVector lean _ _ _) fun _ _ _ _ _ lean =>
    leans_bind (leans_each lean fun _ _ _ lean => leans_pushBytesElement lean _) fun _ _ _ _ _ lean =>
      leans_endVector lean

theorem Leaner.reset (lean : Leaner b b') : Leaner b.reset b'.reset :=
  ⟨⟨⟨0, 0, Nat.le_refl 0, rfl, rfl⟩, .idle, lean.unshared, lean.forced⟩, Nat.le_refl 0⟩

/-- An operation keeps the one builder leaner than the other, wherever in each of them its references lead. -/
theorem Operation.leans (lean : Leaner b b') (sound : b.RegionSound) (sound' : b'.RegionSound) {op : Operation}
    (powers : op.AddsAtPowers) (f g : Nat → Nat) :
    Leans Answer.NoLonger ((op.rename f).step.run b) ((op.rename g).step.run b') := by
  have done {x x' : Build Unit} (leans : Leans Anyhow (x.run b) (x'.run b')) :
      Leans Answer.NoLonger ((do x; return Answer.done : Build Answer).run b)
        ((do x'; return Answer.done : Build Answer).run b') :=
    leans_bind leans fun _ _ _ _ _ lean => leans_pure lean .done
  have object {kind : ObjectKind} {x x' : Build (Ref kind)} (leans : Leans Anyhow (x.run b) (x'.run b')) :
      Leans Answer.NoLonger ((.object kind <$> x : Build Answer).run b) ((.object kind <$> x' : Build Answer).run b') :=
    leans_map leans fun _ => .object
  cases op with
  | reset => exact done (leans_modify lean.reset)
  | pushScalar v => exact done (leans_pushScalar lean rfl)
  | createText text => exact object (leans_createUnchecked lean _)
  | createBytes bytes => exact object (leans_createBytes lean bytes)
  | startVector length elementSize alignment => exact done (leans_startVector lean _ _ _)
  | pushElement v => exact done (leans_pushBytesElement lean _)
  | pushBytesElement bytes => exact done (leans_pushBytesElement lean bytes)
  | pushRef kind child => exact done (leans_pushRef lean _ _)
  | endVector => exact object (leans_endVector lean)
  | createVector type items => exact object (leans_createVector lean type items)
  | createRefVector kind items => exact object (leans_createRefVector lean (related_map _ _ items))
  | createTextVector items => exact object (leans_createTextVector lean items)
  | startRecord => exact done (leans_startRecord lean)
  | addField slot value default => exact done (leans_addField lean slot value default)
  | addRequiredField slot value => exact done (leans_addRequiredField lean slot value)
  | addStructField slot bytes alignment => exact done (leans_addStructField lean slot bytes powers)
  | addRefField slot kind child => exact done (leans_addRefField lean slot _ _)
  | endRecord => exact object (leans_endRecord lean)
  | finish root identifier sizePrefixed =>
    refine leans_map (R := fun bytes bytes' => bytes.size ≤ bytes'.size) ?_ .buffer
    intro bytes c bytes' c' run run'
    obtain ⟨-, lean⟩ := leans_finish lean _ _ identifier sizePrefixed _ _ _ _ run run'
    have less : bytes.size ≤ bytes'.size := by
      rw [finish_size sound run, finish_size sound' run']
      exact lean.used
    exact ⟨less, lean⟩

/-- The two runs side by side, from builders of which the first is leaner. -/
theorem Leaner.play (lean : Leaner b b') (sound : b.Sound) (sound' : b'.Sound) {ops : List Operation}
    (powers : ∀ op ∈ ops, op.AddsAtPowers) {made made' : List Nat} {outcomes outcomes' : List (Answer × Builder)}
    (plays : b.play made ops = .ok outcomes) (plays' : b'.play made' ops = .ok outcomes') :
    List.Forall₂ (fun s u => s.2.used ≤ u.2.used ∧ s.1.NoLonger u.1) outcomes outcomes' := by
  induction ops generalizing b b' made made' outcomes outcomes' with
  | nil =>
    cases plays
    cases plays'
    exact .nil
  | cons op rest ih =>
    obtain ⟨first, later⟩ := List.forall_mem_cons.1 powers
    rw [Builder.play] at plays plays'
    split at plays
    next answer c done =>
      split at plays'
      next answer' c' done' =>
        obtain ⟨more, after, rfl⟩ := map_eq_ok plays
        obtain ⟨more', after', rfl⟩ := map_eq_ok plays'
        obtain ⟨noLonger, lean⟩ := Operation.leans lean sound.region sound'.region first _ _ _ _ _ _
          (run_of_apply_ok done) (run_of_apply_ok done')
        have next := apply_sound sound (op.rename fun i => made.getD i 0)
        have next' := apply_sound sound' (op.rename fun i => made'.getD i 0)
        rw [done] at next
        rw [done'] at next'
        exact .cons ⟨lean.used, noLonger⟩ (ih lean next next' later after after')
      next => cases plays'
    next => cases plays

/-- Sharing field tables never makes a buffer longer, as long as structs are added at powers of two: after every
operation no more is used than without sharing, and a finished buffer has no more bytes. -/
theorem shared_used_le (config : Config) (ops : List Operation) (powers : ∀ op ∈ ops, op.AddsAtPowers)
    {shared unshared : List (Answer × Builder)}
    (plays : (ofConfig { config with shareTables := true }).play [] ops = .ok shared)
    (plays' : (ofConfig { config with shareTables := false }).play [] ops = .ok unshared) :
    List.Forall₂ (fun s u => s.2.used ≤ u.2.used ∧
      ∀ bytes, s.1 = .buffer bytes → ∃ bytes', u.1 = .buffer bytes' ∧ bytes.size ≤ bytes'.size) shared unshared := by
  have sound := ofConfig_sound { config with shareTables := true }
  have sound' := ofConfig_sound { config with shareTables := false }
  have lean := ofConfig_leaner { config with shareTables := true } { config with shareTables := false } rfl id
  refine (lean.play sound sound' powers plays plays').imp fun _ _ both => ⟨both.1, fun bytes same => ?_⟩
  exact (same ▸ both.2).of_buffer

/-- What is used after each operation. -/
def lengths (config : Config) (ops : List Operation) : Except Error (List Nat) :=
  (fun outcomes => outcomes.map (·.2.used)) <$> (ofConfig config).play [] ops

/-- Two records with equal field tables, and a root that refers to a vector of them and has such a table too. -/
def twinRecords : List Operation := [
  .startRecord, .addRequiredField 1 (.uint32 7), .endRecord,
  .startRecord, .addStructField 1 [1, 2, 3, 4] 4, .endRecord,
  .createRefVector .record [⟨2⟩, ⟨5⟩],
  .startRecord, .addRefField 1 .vector ⟨6⟩, .endRecord, .finish ⟨9⟩ none false]

theorem twinRecords_used_le : ∃ shared unshared,
    (ofConfig {}).play [] twinRecords = .ok shared ∧
    (ofConfig { shareTables := false }).play [] twinRecords = .ok unshared ∧
    shared.map (·.2.used) = [0, 4, 16, 16, 20, 24, 36, 36, 40, 44, 48] ∧
    unshared.map (·.2.used) = [0, 4, 16, 16, 20, 32, 44, 44, 48, 60, 64] ∧
    List.Forall₂ (fun s u => s.2.used ≤ u.2.used ∧
      ∀ bytes, s.1 = .buffer bytes → ∃ bytes', u.1 = .buffer bytes' ∧ bytes.size ≤ bytes'.size) shared unshared := by
  have first : lengths {} twinRecords = .ok [0, 4, 16, 16, 20, 24, 36, 36, 40, 44, 48] := by decide +kernel
  have second : lengths { shareTables := false } twinRecords = .ok [0, 4, 16, 16, 20, 32, 44, 44, 48, 60, 64] := by
    decide +kernel
  have powers : ∀ op ∈ twinRecords, op.AddsAtPowers := by
    have four : isPowerOfTwo 4 = true := by decide
    simp [twinRecords, Operation.AddsAtPowers, four]
  obtain ⟨shared, plays, used⟩ := map_eq_ok first
  obtain ⟨unshared, plays', used'⟩ := map_eq_ok second
  exact ⟨shared, unshared, plays, plays', used, used', shared_used_le {} twinRecords powers plays plays'⟩

/-- Two empty records, and a third one whose struct is added at ten. -/
def tenAligned : List Operation := [
  .startRecord, .endRecord, .startRecord, .endRecord,
  .startRecord, .addStructField 0 (List.replicate 12 0) 10, .endRecord, .finish ⟨6⟩ none false]

/-- Padding for ten does not grow with the length: twelve bytes behind the twelve that are used with sharing need eight
bytes of it, and behind sixteen without sharing none. The shared buffer is longer in the end. -/
theorem tenAligned_longer :
    lengths {} tenAligned = .ok [0, 8, 8, 12, 12, 32, 42, 48] ∧
    lengths { shareTables := false } tenAligned = .ok [0, 8, 8, 16, 16, 28, 38, 44] := by
  decide +kernel

end Builder

end FlatRecord
