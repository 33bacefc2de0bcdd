import FlatRecord.Proofs.Builder.OpenVector
import FlatRecord.Proofs.Builder.References

/-! Objects that are handed out are never written to again. Elements are filled and offsets patched in place, and the
region is copied when it grows, but all of this happens above the floor, and an object lies below it. -/
namespace FlatRecord.Builder

open Build

/-- The last bytes of what is written. -/
def tail (b : Builder) (length : Nat) : List UInt8 := b.written.drop (b.written.length - length)

variable {b b' : Builder} {d : Nat}

theorem Sound.length_tail (sound : b.Sound) (inside : d ≤ b.used) : (b.tail d).length = d := by
  rw [tail, List.length_drop, sound.region.length_written]
  omega

theorem tail_suffix_written (b : Builder) (length : Nat) : b.tail length <:+ b.written :=
  List.drop_suffix _ _

/-- A tail is found again in whatever ends in it. -/
theorem tail_eq_of_suffix {bytes : List UInt8} (suffix : bytes <:+ b.written)
    (length : bytes.length = d) : b.tail d = bytes := by
  rw [tail, ← length, ← List.suffix_iff_eq_drop.1 suffix]

/-- Below the floor a tail is part of what is settled. -/
theorem Sound.tail_suffix_settled (sound : b.Sound) (below : d ≤ b.floor) : b.tail d <:+ b.settled := by
  apply List.suffix_of_suffix_length_le (tail_suffix_written b d) (settled_suffix_written b)
  rw [sound.length_tail (below.trans (floor_le sound.fits)), sound.length_settled]
  exact below

/-- What advances keeps the bytes below the floor. -/
theorem Advances.tail_eq (sound : b.Sound) (advances : Advances b b') (below : d ≤ b.floor) :
    b'.tail d = b.tail d :=
  tail_eq_of_suffix
    (((sound.tail_suffix_settled below).trans advances.kept).trans (settled_suffix_written b'))
    (sound.length_tail (below.trans (Builder.floor_le sound.fits)))

/-- No operation changes a byte below the floor, and none lowers the floor. -/
theorem run_tail (sound : b.Sound) (below : d ≤ b.floor) (ops : List Operation)
    (remembers : ∀ op ∈ ops, op ≠ .reset) :
    d ≤ (b.run ops).floor ∧ (b.run ops).tail d = b.tail d :=
  have advances := run_advances sound ops remembers
  ⟨below.trans (advances.floor_le sound), advances.tail_eq sound below⟩

/-- What is finished is what is written. -/
theorem written_of_finishedData {bytes : Bytes} (finished : b.finishedData = .ok bytes) :
    b.written = bytes.toList := by
  rw [finishedData] at finished
  split at finished
  · cases finished
    rw [written, Region.toList_data]
  · cases finished

/-- Once an operation has handed out an object, the bytes from there to the end stay as they are, whatever is called
later and whether it succeeds or not, and a finished buffer ends in them. -/
theorem object_permanent (reachable : b.Reachable) {op : Operation} {kind : ObjectKind} {o : Ref kind}
    (made : b.apply op = (.ok (.object kind o), b')) {later : List Operation}
    (remembers : ∀ op ∈ later, op ≠ .reset) :
    0 < o.distance ∧ (b'.tail o.distance).length = o.distance ∧
    (b'.run later).tail o.distance = b'.tail o.distance ∧
    ∀ bytes, (b'.run later).finishedData = .ok bytes → b'.tail o.distance <:+ bytes.toList := by
  have sound := reachable.sound
  obtain ⟨positive, below⟩ :=
    (lasting_inReach.made sound op).of_ok (run_of_apply_ok made) kind o rfl
  have sound' : b'.Sound := by simpa only [made] using apply_sound sound op
  obtain ⟨-, kept⟩ := run_tail sound' below later remembers
  refine ⟨positive, sound'.length_tail (below.trans (floor_le sound'.fits)), kept, ?_⟩
  intro bytes finished
  rw [← kept, ← written_of_finishedData finished]
  exact tail_suffix_written _ _

/-- A vector whose elements are filled between calls that are refused, a record with its field table, and the
buffer's end. -/
def busyLife : List Operation := [
  .startVector 2 4 4, .pushRef .text ⟨8⟩, .createText "b", .pushRef .text ⟨9⟩, .pushRef .text ⟨8⟩,
  .endVector, .startRecord, .addRefField 0 .text ⟨8⟩, .addField 1 (.int64 7) (.int64 0), .endRecord,
  .finish ⟨36⟩ none true]

def wordWritten (config : Config) : Builder := ((ofConfig config).apply (.createText "a")).2

/-- The region begins with one byte, so that it is copied each time. -/
theorem wordWritten_permanent :
    ((wordWritten { initialCapacity := 1 }).run busyLife).isFinished ∧
    ((wordWritten { initialCapacity := 1 }).run busyLife).tail 8 =
      (wordWritten { initialCapacity := 1 }).tail 8 :=
  have made : (ofConfig { initialCapacity := 1 }).apply (.createText "a") =
      (.ok (.object .text ⟨8⟩), wordWritten { initialCapacity := 1 }) := Prod.ext (by decide +kernel) rfl
  ⟨by decide +kernel, (object_permanent ⟨{ initialCapacity := 1 }, [], rfl⟩ made (by decide)).2.2.1⟩

end FlatRecord.Builder
