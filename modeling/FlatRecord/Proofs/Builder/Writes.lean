import FlatRecord.Proofs.Builder.Aligned
import FlatRecord.Proofs.Builder.Drafts

/-! Writing in order. A step that succeeds keeps what was written before and brings the open object one step
further, everything at its alignment; a step that was in order can only fail by the size limit. -/
namespace FlatRecord

open Builder Build

/-- The end of a buffer to be, and the largest alignment that was asked for in it. -/
structure Ground where
  bytes : List UInt8
  alignment : Nat

namespace Ground

/-- What is written in front leaves the ground beneath. -/
structure Under (g g' : Ground) : Prop where
  suffix : g.bytes <:+ g'.bytes
  alignment : g.alignment ≤ g'.alignment

/-- Something at distance `d` asked for this alignment. -/
structure Sits (g : Ground) (alignment d : Nat) : Prop where
  power : ∃ k, alignment = 2 ^ k
  asked : alignment ≤ g.alignment
  whole : alignment ∣ d

/-- The buffer ends in these bytes, and its length is a multiple of every alignment that was asked for. -/
structure Carries (g : Ground) (buf : Bytes) : Prop where
  suffix : g.bytes <:+ buf.toList
  whole : ∀ k, 2 ^ k ≤ g.alignment → 2 ^ k ∣ buf.size

variable {g g' g'' : Ground} {alignment d : Nat}

theorem Under.trans (before : g.Under g') (after : g'.Under g'') : g.Under g'' :=
  ⟨before.suffix.trans after.suffix, Nat.le_trans before.alignment after.alignment⟩

theorem Sits.mono (sits : g.Sits alignment d) (under : g.Under g') : g'.Sits alignment d :=
  ⟨sits.power, Nat.le_trans sits.asked under.alignment, sits.whole⟩

/-- What sits at a multiple of its alignment from the end does so from the front. -/
theorem Sits.position (sits : g.Sits alignment d) {buf : Bytes} (carries : g.Carries buf) :
    alignment ∣ buf.size - d := by
  obtain ⟨⟨k, rfl⟩, asked, whole⟩ := sits
  exact Nat.dvd_sub (carries.whole k asked) whole

end Ground

/-- The vector's count, and its elements behind it, stand at their alignments. -/
structure VectorLevel (g : Ground) (d size alignment : Nat) (elements : List Piece) : Prop where
  stored : VectorStored g.bytes d size elements
  count : g.Sits offsetSize d
  first : g.Sits alignment (d - offsetSize)

/-- Every place is at the alignment that was asked for its slot. -/
def PlacesSit (g : Ground) (asked : List (Nat × Nat)) (places : List Field) : Prop :=
  ∀ place ∈ places, ∃ alignment, (place.slot, alignment) ∈ asked ∧ g.Sits alignment place.distance

/-- A record stands at its alignment, and its fields at those that were asked for their slots. -/
structure RecordLevel (g : Ground) (d : Nat) (fields : List (Nat × Piece)) (asked : List (Nat × Nat)) :
    Prop where
  sits : g.Sits offsetSize d
  stands : ∃ start table places, RecordAt g.bytes d start table places fields ∧
    PlacesSit g asked places

section Growing

variable {g g' : Ground} {d : Nat}

theorem VectorLevel.mono {size alignment : Nat} {elements : List Piece}
    (level : VectorLevel g d size alignment elements) (under : g.Under g') :
    VectorLevel g' d size alignment elements :=
  ⟨level.stored.of_suffix under.suffix, level.count.mono under, level.first.mono under⟩

theorem PlacesSit.mono {asked : List (Nat × Nat)} {places : List Field}
    (sit : PlacesSit g asked places) (under : g.Under g') : PlacesSit g' asked places := by
  intro place mem
  obtain ⟨alignment, asked, sits⟩ := sit place mem
  exact ⟨alignment, asked, sits.mono under⟩

theorem RecordLevel.mono {fields : List (Nat × Piece)} {asked : List (Nat × Nat)}
    (level : RecordLevel g d fields asked) (under : g.Under g') : RecordLevel g' d fields asked := by
  obtain ⟨sits, start, table, places, record, sit⟩ := level
  exact ⟨sits.mono under, start, table, places, record.of_suffix under.suffix, sit.mono under⟩

/-- Something lies at that distance among the bytes. -/
def Ground.Covers (g : Ground) (d : Nat) : Prop := 0 < d ∧ d ≤ g.bytes.length

theorem covers_of_holds {bytes : List UInt8} (some : 0 < bytes.length) (holds : Holds g.bytes d bytes) :
    g.Covers d := ⟨Nat.lt_of_lt_of_le some holds.length_le, holds.le_length⟩

theorem VectorLevel.covered {size alignment : Nat} {elements : List Piece}
    (level : VectorLevel g d size alignment elements) : g.Covers d :=
  covers_of_holds (by rw [LittleEndian.length_encode]; decide) level.stored.count

theorem RecordLevel.covered {fields : List (Nat × Piece)} {asked : List (Nat × Nat)}
    (level : RecordLevel g d fields asked) : g.Covers d := by
  obtain ⟨-, start, table, places, record, -⟩ := level
  exact covers_of_holds (by rw [Scalar.length_toBytes]; exact ScalarType.size_pos _) record.offset

end Growing

namespace Builder

def ground (b : Builder) : Ground := ⟨b.settled, b.minAlign⟩

/-- From one sound builder to another, with what was settled and the alignments kept. -/
structure Proceeds (b b' : Builder) : Prop extends Advances b b' where
  raises : Raises b 0 b'

variable {b b' b'' : Builder}

theorem Proceeds.refl (sound : b.Sound) : Proceeds b b := ⟨.refl sound, raises_same rfl⟩

theorem Proceeds.trans (before : Proceeds b b') (after : Proceeds b' b'') : Proceeds b b'' :=
  ⟨before.toAdvances.trans after.toAdvances, before.raises.trans after.raises⟩

theorem Proceeds.under (proceeds : Proceeds b b') : b.ground.Under b'.ground :=
  ⟨proceeds.kept, proceeds.raises.keeps⟩

theorem Raises.sits {alignment d : Nat} (raises : Raises b alignment b') (whole : alignment ∣ d)
    (power : ∃ k, alignment = 2 ^ k) : b'.ground.Sits alignment d := ⟨power, raises.covers, whole⟩

theorem Raises.least {alignment : Nat} (raises : Raises b alignment b') : Raises b 0 b' :=
  ⟨raises.keeps, Nat.zero_le _, raises.regular⟩

/-- Success keeps and is good, and failure has a reason of that kind. -/
def Tries (why : Error → Prop) (x : Build α) (b : Builder) (good : α → Builder → Prop) : Prop :=
  Ends x b (fun a b' => Proceeds b b' ∧ good a b') fun e _ => why e

section Trying

variable {why : Error → Prop} {good : α → Builder → Prop}

theorem tries_pure (sound : b.Sound) {a : α} (holds : good a b) : Tries why (pure a) b good :=
  ⟨.refl sound, holds⟩

theorem tries_throw {e : Error} (reason : why e) : Tries why (throw e) b good := reason

theorem tries_bind {x : Build β} {f : β → Build α} {first : β → Builder → Prop}
    (head : Tries why x b first)
    (tail : ∀ a b₁, Proceeds b b₁ → first a b₁ → Tries why (f a) b₁ good) :
    Tries why (x >>= f) b good := by
  rw [Tries, ends_bind]
  apply Ends.mono head
  · intro a b₁ done
    apply Ends.mono (tail a b₁ done.1 done.2)
    · exact fun _ _ rest => ⟨done.1.trans rest.1, rest.2⟩
    · exact fun _ _ reason => reason
  · exact fun _ _ reason => reason

theorem tries_ofExcept {x : Except Error β} {f : β → Build α} (reason : ∀ e, x = .error e → why e)
    (rest : ∀ a, x = .ok a → Tries why (f a) b good) : Tries why (ofExcept x >>= f) b good := by
  rw [Tries, ends_bind, ends_ofExcept]
  exact ⟨rest, reason⟩

theorem Tries.mono {x : Build α} (tries : Tries why x b good) {why' : Error → Prop}
    {good' : α → Builder → Prop} (reason : ∀ e, why e → why' e)
    (weaker : ∀ a b', Proceeds b b' → good a b' → good' a b') : Tries why' x b good' :=
  Ends.mono tries (fun a b' done => ⟨done.1, weaker a b' done.1 done.2⟩) fun e _ => reason e

/-- A loop of which every step keeps what holds of the items done. -/
theorem tries_forM {items : List β} {step : β → Build PUnit} {I : List β → Builder → Prop}
    (sound : b.Sound) (start : I [] b)
    (keeps : ∀ done item rest, items = done ++ item :: rest → ∀ b₁, Proceeds b b₁ → I done b₁ →
      Tries why (step item) b₁ fun _ b' => I (done ++ [item]) b') :
    Tries why (items.forM step) b fun _ b' => I items b' := by
  apply ends_forM (I := fun done b' => Proceeds b b' ∧ I done b') ⟨.refl sound, start⟩
  intro done item rest split b₁ before
  apply Ends.mono (keeps done item rest split b₁ before.1 before.2)
  · exact fun _ _ after => ⟨before.1.trans after.1, after.2⟩
  · exact fun _ _ reason => reason

theorem tries_mapM {items : List β} {step : β → Build γ} {I : List β → List γ → Builder → Prop}
    (sound : b.Sound) (start : I [] [] b)
    (keeps : ∀ done item rest, items = done ++ item :: rest → ∀ answers b₁, Proceeds b b₁ →
      I done answers b₁ →
      Tries why (step item) b₁ fun a b' => I (done ++ [item]) (answers ++ [a]) b') :
    Tries why (items.mapM step) b fun answers b' => I items answers b' := by
  apply ends_mapM (I := fun done answers b' => Proceeds b b' ∧ I done answers b')
    ⟨.refl sound, start⟩
  intro done item rest split answers b₁ before
  apply Ends.mono (keeps done item rest split answers b₁ before.1 before.2)
  · exact fun _ _ after => ⟨before.1.trans after.1, after.2⟩
  · exact fun _ _ reason => reason

/-- The same for a loop that leaves some items out. -/
theorem tries_filterMapM {items : List β} {step : β → Build (Option γ)}
    {I : List β → List γ → Builder → Prop} (sound : b.Sound) (start : I [] [] b)
    (keeps : ∀ done item rest, items = done ++ item :: rest → ∀ answers b₁, Proceeds b b₁ →
      I done answers b₁ →
      Tries why (step item) b₁ fun a b' => I (done ++ [item]) (answers ++ a.toList) b') :
    Tries why (items.filterMapM step) b fun answers b' => I items answers b' := by
  -- The loop collects its answers in reverse.
  suffices general : ∀ rest done answers b₁, items = done ++ rest → Proceeds b b₁ →
      I done answers b₁ → Tries why (List.filterMapM.loop step rest answers.reverse) b₁
        fun all b' => I items all b' from general items [] [] b rfl (.refl sound) start
  intro rest
  induction rest with
  | nil =>
    intro done answers b₁ split before holds
    have all : items = done := by simpa using split
    subst all
    rw [List.filterMapM.loop, List.reverse_reverse]
    exact tries_pure before.sound holds
  | cons item rest ih =>
    intro done answers b₁ split before holds
    rw [List.filterMapM.loop]
    apply tries_bind (keeps done item rest split answers b₁ before holds)
    intro a b₂ next holds
    have more := ih (done ++ [item]) (answers ++ a.toList) b₂ (by simpa using split)
      (before.trans next) holds
    cases a with
    | none => simpa using more
    | some a => simpa using more

end Trying

/-- Success keeps and is good, and failure was not in order or is by the size limit. -/
def Writes (x : Build α) (b : Builder) (order : Prop) (good : α → Builder → Prop) : Prop :=
  Ends x b (fun a b' => Proceeds b b' ∧ good a b') fun e _ => order → e.IsLimit

section Rules

variable {order : Prop} {good : α → Builder → Prop}

theorem writes_pure (sound : b.Sound) {a : α} (holds : good a b) : Writes (pure a) b order good :=
  tries_pure sound holds

theorem writes_throw {e : Error} (never : ¬order) : Writes (throw e) b order good :=
  fun ordered => absurd ordered never

theorem writes_bind {x : Build β} {f : β → Build α} {first : β → Builder → Prop}
    (head : Writes x b order first)
    (tail : ∀ a b₁, Proceeds b b₁ → first a b₁ → Writes (f a) b₁ order good) :
    Writes (x >>= f) b order good := tries_bind head tail

theorem writes_ofExcept {x : Except Error β} {f : β → Build α} (known : order → ∃ a, x = .ok a)
    (rest : ∀ a, x = .ok a → Writes (f a) b order good) : Writes (ofExcept x >>= f) b order good := by
  refine tries_ofExcept (fun e failed ordered => ?_) rest
  obtain ⟨a, ok⟩ := known ordered
  rw [ok] at failed
  cases failed

theorem Writes.mono {x : Build α} (writes : Writes x b order good) {order' : Prop}
    {good' : α → Builder → Prop} (harder : order' → order)
    (weaker : ∀ a b', Proceeds b b' → good a b' → good' a b') : Writes x b order' good' :=
  Tries.mono writes (fun _ limit ordered => limit (harder ordered)) weaker

theorem Writes.weaken {x : Build α} (writes : Writes x b order good) {good' : α → Builder → Prop}
    (weaker : ∀ a b', Proceeds b b' → good a b' → good' a b') : Writes x b order good' :=
  writes.mono id weaker

/-- What is in order is tried, and only the size limit can be in the way. -/
theorem Writes.tries {x : Build α} (writes : Writes x b order good) (ordered : order)
    {why : Error → Prop} (limited : ∀ e, e.IsLimit → why e) : Tries why x b good :=
  Tries.mono writes (fun e limit => limited e (limit ordered)) fun _ _ _ holds => holds

/-- What is known of a step's results does not depend on why it fails. -/
theorem Writes.tried {x : Build α} (writes : Writes x b order good) {why : Error → Prop}
    {good' : α → Builder → Prop} (tries : Tries why x b good') : Tries why x b good :=
  (Ends.and writes tries).mono (fun _ _ both => both.1) fun _ _ bad => bad.2

/-- Success keeps and is good; of failures nothing is said. -/
abbrev Attains (x : Build α) (b : Builder) (good : α → Builder → Prop) : Prop :=
  Tries (fun _ => True) x b good

theorem Writes.attains {x : Build α} (writes : Writes x b order good) : Attains x b good :=
  Ends.mono writes (fun _ _ done => done) fun _ _ _ => trivial

theorem Attains.and {x : Build α} {more : α → Builder → Prop} {bad : Error → Builder → Prop}
    (attains : Attains x b good) (ends : Ends x b more bad) :
    Attains x b fun a b' => good a b' ∧ more a b' :=
  (Ends.and attains ends).mono (fun _ _ both => ⟨both.1.1, both.1.2, both.2⟩) fun _ _ _ => trivial

/-- What is known of a step's results, together with what is known of its alignments and its failures. -/
theorem Makes.writes {x : Build α} (makes : Makes x b good) {level : α → Builder → Prop}
    (ends : Ends x b level fun e _ => order → e.IsLimit)
    (raises : ∀ a b', level a b' → Raises b 0 b') :
    Writes x b order fun a b' => good a b' ∧ level a b' := by
  apply Ends.mono (Ends.and makes ends)
  · rintro a b' ⟨⟨advances, holds⟩, level⟩
    exact ⟨⟨advances, raises a b' level⟩, holds, level⟩
  · exact fun _ _ limit => limit.2

theorem writes_forM {items : List β} {step : β → Build PUnit} {I : List β → Builder → Prop}
    (sound : b.Sound) (start : I [] b)
    (keeps : ∀ done item rest, items = done ++ item :: rest → ∀ b₁, Proceeds b b₁ → I done b₁ →
      Writes (step item) b₁ order fun _ b' => I (done ++ [item]) b') :
    Writes (items.forM step) b order fun _ b' => I items b' := tries_forM sound start keeps

theorem writes_mapM {items : List β} {step : β → Build γ} {I : List β → List γ → Builder → Prop}
    (sound : b.Sound) (start : I [] [] b)
    (keeps : ∀ done item rest, items = done ++ item :: rest → ∀ answers b₁, Proceeds b b₁ →
      I done answers b₁ →
      Writes (step item) b₁ order fun a b' => I (done ++ [item]) (answers ++ [a]) b') :
    Writes (items.mapM step) b order fun answers b' => I items answers b' :=
  tries_mapM sound start keeps

theorem writes_filterMapM {items : List β} {step : β → Build (Option γ)}
    {I : List β → List γ → Builder → Prop} (sound : b.Sound) (start : I [] [] b)
    (keeps : ∀ done item rest, items = done ++ item :: rest → ∀ answers b₁, Proceeds b b₁ →
      I done answers b₁ →
      Writes (step item) b₁ order fun a b' => I (done ++ [item]) (answers ++ a.toList) b') :
    Writes (items.filterMapM step) b order fun answers b' => I items answers b' :=
  tries_filterMapM sound start keeps

end Rules

theorem text_written {bytes : List UInt8} {x : Build (Ref .text)} {order : Prop}
    (made : Makes x b fun ref b' => b'.stage = .idle ∧ TextStored b'.settled ref.distance bytes)
    (ends : Ends x b (fun ref b' => Raises b offsetSize b' ∧ offsetSize ∣ ref.distance)
      fun e _ => order → e.IsLimit) :
    Writes x b order fun ref b' => b'.stage = .idle ∧
      TextStored b'.settled ref.distance bytes ∧ b'.ground.Sits offsetSize ref.distance := by
  apply (made.writes ends fun _ _ level => level.1.least).weaken
  rintro ref b' _ ⟨⟨idle, stored⟩, raises, whole⟩
  exact ⟨idle, stored, raises.sits whole ⟨2, rfl⟩⟩

section Vectors

variable {length size alignment : Nat} {elements : List Piece}

/-- An open vector whose elements begin at a multiple of their alignment. -/
structure LevelVector (b : Builder) (length size alignment : Nat) (elements : List Piece) : Prop
    extends VectorDraft b length size elements where
  sits : b.ground.Sits alignment b.used
  four : offsetSize ≤ b.minAlign

theorem vector_opened (sound : b.Sound) (power : ∃ k < 64, alignment = 2 ^ k) :
    Writes (startVector length size alignment) b (b.stage = .idle ∧ size ≠ 0) fun _ b' =>
      LevelVector b' length size alignment [] := by
  obtain ⟨k, small, rfl⟩ := power
  apply ((vector_begun sound).writes (startVector_raises sound.region length size small)
    fun _ _ level => level.1.least).weaken
  rintro _ b' _ ⟨draft, raises, four, whole⟩
  exact ⟨draft, raises.sits whole ⟨k, rfl⟩, four.covers⟩

theorem LevelVector.next {p : Piece} (level : LevelVector b length size alignment elements)
    (draft : VectorDraft b' length size (elements ++ [p]))
    (same : b'.minAlign = b.minAlign ∧ b'.used = b.used) :
    LevelVector b' length size alignment (elements ++ [p]) := by
  obtain ⟨power, asked, whole⟩ := level.sits
  have kept : b.ground.alignment ≤ b'.ground.alignment := Nat.le_of_eq same.1.symm
  exact ⟨draft, ⟨power, Nat.le_trans asked kept, same.2 ▸ whole⟩, same.1 ▸ level.four⟩

/-- The open vector has room for as many elements as it lacks. -/
theorem LevelVector.room (level : LevelVector b length size alignment elements)
    (more : elements.length < length) : b.HasRoom size :=
  ⟨length, elements.length, b.used, level.stage, more⟩

theorem own_filled (sound : b.Sound) (level : LevelVector b length size alignment elements)
    (bytes : List UInt8) :
    Writes (pushBytesElement bytes) b (bytes.length = size ∧ elements.length < length) fun _ b' =>
      LevelVector b' length size alignment (elements ++ [.own bytes]) := by
  apply ((own_pushed sound level.toVectorDraft bytes).writes
    (pushBytesElement_orderly sound.region sound.fits bytes)
    fun _ _ same => raises_same same.1).mono
  · rintro ⟨rfl, more⟩
    exact level.room more
  · exact fun _ b' _ both => level.next both.1 both.2

theorem ref_filled (sound : b.Sound) (level : LevelVector b length offsetSize alignment elements)
    {kind : ObjectKind} (child : Ref kind) :
    Writes (pushRef child) b
      ((0 < child.distance ∧ child.distance ≤ b.floor) ∧ elements.length < length) fun _ b' =>
        LevelVector b' length offsetSize alignment (elements ++ [.ref kind child.distance]) := by
  apply ((ref_pushed sound level.toVectorDraft child).writes
    (pushRef_orderly sound.region sound.fits child) fun _ _ same => raises_same same.1).mono
  · rintro ⟨inside, more⟩
    exact ⟨level.room more, inside⟩
  · exact fun _ b' _ both => level.next both.1 both.2

theorem vector_ended (sound : b.Sound) (level : LevelVector b length size alignment elements) :
    Writes endVector b (elements.length = length) fun ref b' => b'.stage = .idle ∧
      elements.length = length ∧ VectorLevel b'.ground ref.distance size alignment elements := by
  apply ((vector_made sound level.toVectorDraft).writes (endVector_raises sound.region)
    fun _ _ raised => raised.1.least).mono
  · intro full
    exact ⟨length, size, b.used, full ▸ level.stage⟩
  · rintro ref b' proceeds ⟨⟨idle, full, here, stored⟩, raises, whole⟩
    refine ⟨idle, full, stored, raises.sits whole ⟨2, rfl⟩, ?_⟩
    rw [here, Nat.add_sub_cancel_left]
    exact level.sits.mono proceeds.under

section Loops

variable {items : List α} {step : α → Build PUnit} {R : α → Piece → Prop} {order : Prop}

/-- A loop of which each step fills an element. -/
theorem elements_filled (sound : b.Sound) (level : LevelVector b items.length size alignment [])
    (each : ∀ item ∈ items, ∀ b₁ elements, Proceeds b b₁ →
      LevelVector b₁ items.length size alignment elements →
      Writes (step item) b₁ (order ∧ elements.length < items.length) fun _ b' => ∃ p, R item p ∧
        LevelVector b' items.length size alignment (elements ++ [p])) :
    Writes (items.forM step) b order fun _ b' => ∃ elements, List.Forall₂ R items elements ∧
      LevelVector b' items.length size alignment elements := by
  apply writes_forM (I := fun done b' => ∃ elements, List.Forall₂ R done elements ∧
    LevelVector b' items.length size alignment elements) sound ⟨[], .nil, level⟩
  intro done item rest split b₁ before holds
  obtain ⟨elements, related, level⟩ := holds
  have mem : item ∈ items := by simp [split]
  have more : elements.length < items.length := by
    have lengths := related.length_eq
    simp only [split, List.length_append, List.length_cons]
    omega
  apply (each item mem b₁ elements before level).mono
  · exact fun ordered => ⟨ordered, more⟩
  · rintro _ b' _ ⟨p, here, level⟩
    exact ⟨_, List.rel_append related (.cons here .nil), level⟩

theorem vector_written (power : ∃ k < 64, alignment = 2 ^ k) (sound : b.Sound)
    (begun : order → b.stage = .idle ∧ size ≠ 0)
    (each : ∀ item ∈ items, ∀ b₁ elements, Proceeds b b₁ →
      LevelVector b₁ items.length size alignment elements →
      Writes (step item) b₁ (order ∧ elements.length < items.length) fun _ b' => ∃ p, R item p ∧
        LevelVector b' items.length size alignment (elements ++ [p])) :
    Writes (do startVector items.length size alignment; items.forM step; endVector) b order
      fun ref b' => b'.stage = .idle ∧ ∃ elements, List.Forall₂ R items elements ∧
        VectorLevel b'.ground ref.distance size alignment elements := by
  apply writes_bind ((vector_opened sound power).mono begun fun _ _ _ level => level)
  intro _ b₁ opened level
  apply writes_bind (elements_filled opened.sound level fun item mem b₂ elements next =>
    each item mem b₂ elements (opened.trans next))
  intro _ b₂ filled holds
  obtain ⟨elements, related, level⟩ := holds
  apply (vector_ended filled.sound level).mono
  · exact fun _ => related.length_eq.symm
  · exact fun ref b' _ ended => ⟨ended.1, elements, related, ended.2.2⟩

/-- A vector of references to what is complete. -/
theorem references_written {kind : ObjectKind} {refs : List (Ref kind)} (sound : b.Sound) :
    Writes (createRefVector refs) b
      (b.stage = .idle ∧ ∀ ref ∈ refs, 0 < ref.distance ∧ ref.distance ≤ b.floor) fun ref b' =>
      b'.stage = .idle ∧ ∃ elements,
        List.Forall₂ (fun (ref : Ref kind) p => p = .ref kind ref.distance) refs elements ∧
        VectorLevel b'.ground ref.distance offsetSize offsetSize elements := by
  apply vector_written ⟨2, by decide, rfl⟩ sound
  · exact fun ordered => ⟨ordered.1, by decide⟩
  · intro ref mem b₁ elements next level
    apply (ref_filled next.sound level ref).mono
    · rintro ⟨⟨-, inside⟩, more⟩
      obtain ⟨positive, below⟩ := inside ref mem
      exact ⟨⟨positive, Nat.le_trans below (next.floor_le sound)⟩, more⟩
    · exact fun _ b' _ level => ⟨_, rfl, level⟩

end Loops

end Vectors

section Records

variable {fields : List (Nat × Piece)} {asked : List (Nat × Nat)}

/-- The places that the open record has noted. -/
def places (b : Builder) : List Field :=
  match b.stage with
  | .record _ places => places
  | _ => []

theorem places_of_stage {start : Nat} {places : List Field} (stage : b.stage = .record start places) :
    b.places = places := by rw [Builder.places, stage]

/-- An open record whose fields stand at the alignments that were asked for their slots. -/
structure LevelRecord (b : Builder) (fields : List (Nat × Piece)) (asked : List (Nat × Nat)) : Prop where
  draft : RecordDraft b fields
  sit : PlacesSit b.ground asked b.places

theorem record_opened (sound : b.Sound) :
    Writes startRecord b (b.stage = .idle) fun _ b' => LevelRecord b' [] [] := by
  apply ((record_started sound).writes startRecord_orderly fun _ _ same => raises_same same).weaken
  rintro _ b' _ ⟨draft, -⟩
  refine ⟨draft, ?_⟩
  obtain ⟨start, places, stage, placed⟩ := draft
  cases placed
  rw [places_of_stage stage]
  exact nofun

/-- The open record lacks a slot that none of its fields has. -/
theorem LevelRecord.lacks (level : LevelRecord b fields asked) {slot : Nat}
    (fresh : slot ∉ asked.map (·.1)) : b.Lacks slot := by
  obtain ⟨start, places, stage, placed⟩ := level.draft
  refine ⟨start, places, stage, fun taken => fresh ?_⟩
  obtain ⟨place, mem, rfl⟩ := List.mem_map.1 taken
  obtain ⟨alignment, asked, -⟩ := level.sit place (places_of_stage stage ▸ mem)
  exact List.mem_map.2 ⟨_, asked, rfl⟩

theorem LevelRecord.added {fields' : List (Nat × Piece)} {slot alignment : Nat} {bytes : List UInt8}
    (level : LevelRecord b fields asked) (added : Added b slot bytes b') (proceeds : Proceeds b b')
    (draft : RecordDraft b' fields') (sits : b'.ground.Sits alignment b'.used) :
    LevelRecord b' fields' (asked ++ [(slot, alignment)]) := by
  refine ⟨draft, fun place mem => ?_⟩
  obtain ⟨start, places, b₁, gap, stage, -, -, -, rfl⟩ := added
  have places' : (b₁.withStage (.record start (⟨slot, b₁.used⟩ :: places))).places =
      ⟨slot, b₁.used⟩ :: places := places_of_stage rfl
  rw [places'] at mem
  rcases List.mem_cons.1 mem with rfl | older
  · exact ⟨alignment, by simp, sits⟩
  · obtain ⟨before, known, stood⟩ := level.sit place (places_of_stage stage ▸ older)
    exact ⟨before, List.mem_append_left _ known, stood.mono proceeds.under⟩

/-- What a step adds to the open record, if it does not leave it as it is. -/
theorem field_written {fields' : List (Nat × Piece)} {slot alignment : Nat} {x : Build Unit}
    {order : Prop} (bytes : Builder → List UInt8) (level : LevelRecord b fields asked)
    (power : ∃ k, alignment = 2 ^ k) (makes : Makes x b fun _ b' => RecordDraft b' fields')
    (raises : Ends x b (fun _ b' => b' = b ∨ Raises b alignment b' ∧ alignment ∣ b'.used)
      fun e _ => order → e.IsLimit)
    (adds : Ends x b (fun _ b' => b' = b ∨ Added b slot (bytes b') b') fun _ _ => True) :
    Writes x b order fun _ b' => LevelRecord b' fields' (asked ++ [(slot, alignment)]) := by
  have both := (raises.and adds).mono (fun _ _ both => both) fun _ _ failed => failed.1
  apply (makes.writes both ?_).weaken
  · rintro _ b' proceeds ⟨draft, raised, added⟩
    have same (unchanged : b' = b) : LevelRecord b' fields' (asked ++ [(slot, alignment)]) := by
      subst unchanged
      refine ⟨draft, fun place mem => ?_⟩
      obtain ⟨before, known, sits⟩ := level.sit place mem
      exact ⟨before, List.mem_append_left _ known, sits⟩
    rcases raised with unchanged | ⟨raises, whole⟩
    · exact same unchanged
    · rcases added with unchanged | added
      · exact same unchanged
      · exact level.added added proceeds draft (raises.sits whole power)
  · rintro _ b' ⟨rfl | ⟨raises, -⟩, -⟩
    · exact raises_same rfl
    · exact raises.least

theorem scalar_kept (sound : b.Sound) (level : LevelRecord b fields asked) (slot : Nat)
    (value default : Scalar) :
    Writes (addField slot value default) b (slot ∉ asked.map (·.1)) fun _ b' => LevelRecord b'
      (if b.elides value default then fields else (slot, .own value.toBytes) :: fields)
      (asked ++ [(slot, value.size)]) := by
  obtain ⟨k, -, power⟩ := value.type.size_power
  apply field_written (fun _ => value.toBytes) level ⟨k, power⟩
    (scalar_added sound level.draft slot value default)
  · apply (addField_raises sound.region slot value default).mono
    · exact fun _ _ done => done.imp And.right id
    · exact fun _ _ limit fresh => limit (level.lacks fresh)
  · apply (addField_ends sound.region slot value default).mono
    · exact fun _ _ done => done.imp And.right And.right
    · exact fun _ _ _ => trivial

theorem struct_kept (sound : b.Sound) (level : LevelRecord b fields asked) (slot : Nat)
    (bytes : List UInt8) {alignment : Nat} (power : ∃ k < 64, alignment = 2 ^ k) :
    Writes (addStructField slot bytes alignment) b (slot ∉ asked.map (·.1)) fun _ b' =>
      LevelRecord b' ((slot, .own bytes) :: fields) (asked ++ [(slot, alignment)]) := by
  obtain ⟨k, small, rfl⟩ := power
  apply field_written (fun _ => bytes) level ⟨k, rfl⟩
    (struct_added sound level.draft slot bytes (2 ^ k))
  · apply (addStructField_raises sound.region slot bytes small).mono
    · exact fun _ _ => .inr
    · exact fun _ _ limit fresh => limit (level.lacks fresh)
  · apply (addStructField_ends sound.region slot bytes (2 ^ k)).mono
    · exact fun _ _ => .inr
    · exact fun _ _ _ => trivial

theorem reference_kept (sound : b.Sound) (level : LevelRecord b fields asked) (slot : Nat)
    {kind : ObjectKind} (child : Ref kind) :
    Writes (addRefField slot child) b
      (slot ∉ asked.map (·.1) ∧ 0 < child.distance ∧ child.distance ≤ b.floor) fun _ b' =>
      LevelRecord b' ((slot, .ref kind child.distance) :: fields) (asked ++ [(slot, offsetSize)]) := by
  apply field_written (fun b' => LittleEndian.encode offsetSize (b'.used - child.distance)) level
    ⟨2, rfl⟩ (reference_added sound level.draft slot child)
  · apply (addRefField_raises sound.region slot child).mono
    · exact fun _ _ => .inr
    · exact fun _ _ limit fresh => limit ⟨level.lacks fresh.1, fresh.2⟩
  · apply (addRefField_ends sound.region slot child).mono
    · exact fun _ _ done => .inr done.2.2
    · exact fun _ _ _ => trivial

theorem record_ended (sound : b.Sound) (level : LevelRecord b fields asked) :
    Writes endRecord b True fun ref b' =>
      b'.stage = .idle ∧ RecordLevel b'.ground ref.distance fields asked := by
  apply ((record_made sound level.draft).writes (endRecord_raises sound.region sound.tables_written)
    fun _ _ raised => raised.1.least).mono
  · intro _
    obtain ⟨start, places, stage, -⟩ := level.draft
    exact ⟨start, places, stage⟩
  · rintro ref b' proceeds ⟨⟨idle, start, places, stage, table, record⟩, raises, whole⟩
    have sit := level.sit.mono proceeds.under
    rw [places_of_stage stage] at sit
    exact ⟨idle, raises.sits whole ⟨2, rfl⟩, start, table, places, record, sit⟩

end Records

end Builder

end FlatRecord
