/-
UTF-8: characters as bytes and bytes as characters.

* `encode` — the bytes of a text;
* `decode?` — the text of a well-formed byte sequence, nothing for any other;
* `decodeLossy` — the text of any byte sequence, where each longest run of bytes that begins
  a character without completing it, and each byte that cannot begin one, gives one U+FFFD;
* `encodeSize` — the number of bytes of a text.

Design notes: both decoders walk by `next`, which reads one character at the front or drops
the ill-formed run that stands there.  `next_length_le` bounds what it leaves, so that the
decoders end.
-/

namespace LeaseKeeper.Text.Utf8

def encode (s : List Char) : List UInt8 := s.flatMap String.utf8EncodeChar

def encodeSize (s : List Char) : Nat := (encode s).length

/-- What a first byte announces: the payload bits it holds, the number of bytes to come, and
the range of the first of them, which keeps out overlong forms, surrogates and code points
above U+10FFFF. -/
structure Lead where
  payload : Nat
  tails : Nat
  low : UInt8
  high : UInt8

/-- The character length that the byte `b` announces, if a character may begin with it. -/
def lead? (b : UInt8) : Option Lead :=
  if b < 0x80 then some ⟨b.toNat, 0, 0x80, 0xBF⟩
  else if b < 0xC2 then none
  else if b < 0xE0 then some ⟨b.toNat - 0xC0, 1, 0x80, 0xBF⟩
  else if b == 0xE0 then some ⟨0, 2, 0xA0, 0xBF⟩
  else if b == 0xED then some ⟨0xD, 2, 0x80, 0x9F⟩
  else if b < 0xF0 then some ⟨b.toNat - 0xE0, 2, 0x80, 0xBF⟩
  else if b == 0xF0 then some ⟨0, 3, 0x90, 0xBF⟩
  else if b < 0xF4 then some ⟨b.toNat - 0xF0, 3, 0x80, 0xBF⟩
  else if b == 0xF4 then some ⟨4, 3, 0x80, 0x8F⟩
  else none

/-- Reads `n` further bytes onto the code point `acc`; the first has to lie between `low` and
`high`, the others between 0x80 and 0xBF.  At a byte that does not fit there is no code
point, and that byte is the first of those left. -/
def tails : Nat → Nat → UInt8 → UInt8 → List UInt8 → Option Nat × List UInt8
  | 0, acc, _, _, bytes => (some acc, bytes)
  | _ + 1, _, _, _, [] => (none, [])
  | n + 1, acc, low, high, b :: rest =>
    if low ≤ b ∧ b ≤ high then tails n (acc * 64 + (b.toNat - 0x80)) 0x80 0xBF rest
    else (none, b :: rest)

/-- Reads the character that begins with the byte `b`, or drops the ill-formed run there. -/
def next (b : UInt8) (bytes : List UInt8) : Option Char × List UInt8 :=
  match lead? b with
  | none => (none, bytes)
  | some l =>
    let (code, rest) := tails l.tails l.payload l.low l.high bytes
    (code.map Char.ofNat, rest)

theorem tails_length_le (n acc : Nat) (low high : UInt8) (bytes : List UInt8) :
    (tails n acc low high bytes).2.length ≤ bytes.length := by
  induction n generalizing acc low high bytes with
  | zero => simp [tails]
  | succ n ih =>
    cases bytes with
    | nil => simp [tails]
    | cons b rest =>
      simp only [tails]
      split
      · exact Nat.le_trans (ih _ _ _ rest) (by simp)
      · simp

theorem next_length_le (b : UInt8) (bytes : List UInt8) :
    (next b bytes).2.length ≤ bytes.length := by
  unfold next
  cases h : lead? b with
  | none => simp
  | some l => simpa using tails_length_le _ _ _ _ bytes

/-- The text of a byte sequence, if every byte of it belongs to a character. -/
def decode? : List UInt8 → Option (List Char)
  | [] => some []
  | b :: bytes =>
    match (next b bytes).1 with
    | none => none
    | some c => (decode? (next b bytes).2).map (c :: ·)
termination_by bytes => bytes.length
decreasing_by
  have := next_length_le b bytes
  simp only [List.length_cons]
  omega

/-- The text of a byte sequence; whatever is no character of it gives U+FFFD. -/
def decodeLossy : List UInt8 → List Char
  | [] => []
  | b :: bytes => (next b bytes).1.getD '\uFFFD' :: decodeLossy (next b bytes).2
termination_by bytes => bytes.length
decreasing_by
  have := next_length_le b bytes
  simp only [List.length_cons]
  omega

end LeaseKeeper.Text.Utf8
