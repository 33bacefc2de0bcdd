import FlatRecord.Bytes

/-! UTF-8 text in byte strings. `toText?` is strict; `lossy` puts one U+FFFD in the place of each
maximal part that begins a character and does not complete it. -/
namespace FlatRecord.Text

def toBytes (s : String) : Bytes := s.toUTF8.data

def toText? (bytes : Bytes) : Option String := String.fromUTF8? ⟨bytes⟩

/-- Reading back what was written gives the same text. -/
theorem toText?_toBytes (s : String) : toText? (toBytes s) = some s := by
  simp [toText?, toBytes, String.fromUTF8?, s.isValidUTF8]
  rfl

/-- A character whose last `missing + 1` bytes are still to come. The next one lies in `low ..= high`. -/
structure Partial where
  code : Nat
  missing : Nat
  low : Nat
  high : Nat

/-- What one more byte makes of the bytes before it. -/
inductive Step where
  | finished (c : Char)
  | unfinished (p : Partial)

def replacement : Char := '\uFFFD'

/-- The first byte of a character fixes its length, and bounds its second byte so that overlong forms,
surrogates and codes past U+10FFFF are refused. -/
def lead (b : Nat) : Step :=
  if b < 0x80 then .finished (Char.ofNat b)
  else if b < 0xC2 then .finished replacement
  else if b < 0xE0 then .unfinished ⟨b - 0xC0, 0, 0x80, 0xBF⟩
  else if b < 0xF0 then
    .unfinished ⟨b - 0xE0, 1, if b = 0xE0 then 0xA0 else 0x80, if b = 0xED then 0x9F else 0xBF⟩
  else if b < 0xF5 then
    .unfinished ⟨b - 0xF0, 2, if b = 0xF0 then 0x90 else 0x80, if b = 0xF4 then 0x8F else 0xBF⟩
  else .finished replacement

def Partial.accepts (p : Partial) (b : Nat) : Bool := p.low ≤ b && b ≤ p.high

def Partial.extend (p : Partial) (b : Nat) : Step :=
  let code := p.code * 64 + (b - 0x80)
  match p.missing with
  | 0 => .finished (Char.ofNat code)
  | missing + 1 => .unfinished ⟨code, missing, 0x80, 0xBF⟩

/-- A finished character goes out; an unfinished one waits for the next byte. -/
def decodeLossy : Option Partial → List UInt8 → List Char
  | none, [] => []
  | some _, [] => [replacement]
  | none, b :: rest => continueWith (lead b.toNat) rest
  | some p, b :: rest =>
    if p.accepts b.toNat then continueWith (p.extend b.toNat) rest
    else replacement :: continueWith (lead b.toNat) rest
where
  continueWith (step : Step) (rest : List UInt8) : List Char :=
    match step with
    | .finished c => c :: decodeLossy none rest
    | .unfinished p => decodeLossy (some p) rest

def lossy (bytes : Bytes) : String := String.ofList (decodeLossy none bytes.toList)

end FlatRecord.Text
