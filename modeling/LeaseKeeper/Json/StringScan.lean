/-
String literals of JSON text.

* `string` — the text of a literal after its opening quote, with all escapes resolved;
* `skipString` — what follows a literal whose text is not wanted: escapes need to have the
  right shape only, and the bytes need not be UTF-8.

Design notes: both are `content`, which collects the bytes of the text; the UTF-8 of a wanted
text is checked once its closing quote is reached.
-/
import LeaseKeeper.Json.Scan
import LeaseKeeper.Text.Utf8

namespace LeaseKeeper.Json

/-- Whether the text of a literal is wanted. -/
inductive Care where
  | kept
  | skipped
  deriving DecidableEq

def hexFour : List UInt8 → Except Fault (Scanned Nat)
  | a :: b :: c :: d :: s =>
    match [a, b, c, d].mapM fun x => Text.hexDigit? (Char.ofUInt8 x) with
    | some ds => .ok (ds.foldl (fun n x => 16 * n + x) 0, s)
    | none => .error .invalidEscape
  | _ => .error .endInString

/-- Reads the given byte, which the second half of an escaped pair needs to go on. -/
def pairByte (c : Char) : List UInt8 → Except Fault (List UInt8)
  | [] => .error .endInString
  | b :: s => if b = byte c then .ok s else .error .unpairedEscape

/-- Reads the character after a backslash and a `u`: four digits, or twice four for the two
halves of a surrogate pair. -/
def codePoint (s : List UInt8) : Except Fault (Scanned Char) := do
  let (high, s) ← hexFour s
  if 0xDC00 ≤ high ∧ high ≤ 0xDFFF then throw .loneSurrogate
  if high < 0xD800 ∨ 0xDBFF < high then return (Char.ofNat high, s)
  let s ← pairByte '\\' s
  let s ← pairByte 'u' s
  let (low, s) ← hexFour s
  if low < 0xDC00 ∨ 0xDFFF < low then throw .loneSurrogate
  return (Char.ofNat (0x10000 + (high - 0xD800) * 0x400 + (low - 0xDC00)), s)

/-- The byte that a letter stands for after a backslash. -/
def shortEscape? (b : UInt8) : Option UInt8 :=
  if b = byte '"' ∨ b = byte '\\' ∨ b = byte '/' then some b
  else if b = byte 'b' then some 0x08
  else if b = byte 'f' then some 0x0c
  else if b = byte 'n' then some 0x0a
  else if b = byte 'r' then some 0x0d
  else if b = byte 't' then some 0x09
  else none

/-- Reads what follows a backslash, as the bytes of the character that it stands for. -/
def escape (care : Care) : List UInt8 → Except Fault (Scanned (List UInt8))
  | [] => .error .endInString
  | b :: s =>
    match shortEscape? b with
    | some x => .ok ([x], s)
    | none =>
      if b ≠ byte 'u' then .error .invalidEscape
      else
        match care with
        | .kept => (codePoint s).map fun (c, s) => (String.utf8EncodeChar c, s)
        | .skipped => (hexFour s).map fun (_, s) => ([], s)

theorem hexFour_length {s rest : List UInt8} {n : Nat} (h : hexFour s = .ok (n, rest)) :
    rest.length < s.length := by
  unfold hexFour at h
  split at h
  · split at h
    · cases h
      simp only [List.length_cons]
      omega
    · cases h
  · cases h

theorem pairByte_length {c : Char} {s rest : List UInt8} (h : pairByte c s = .ok rest) :
    rest.length < s.length := by
  unfold pairByte at h
  split at h
  · cases h
  · split at h
    · cases h
      simp
    · cases h

theorem codePoint_length {s rest : List UInt8} {c : Char} (h : codePoint s = .ok (c, rest)) :
    rest.length < s.length := by
  unfold codePoint at h
  cases h1 : hexFour s with
  | error e => simp [h1, bind, Except.bind] at h
  | ok r1 =>
    obtain ⟨high, s1⟩ := r1
    have l1 := hexFour_length h1
    simp only [h1, bind, Except.bind] at h
    split at h
    · cases h
    · simp only [pure, Except.pure] at h
      split at h
      · cases h
        exact l1
      · cases h2 : pairByte '\\' s1 with
        | error e => simp [h2] at h
        | ok s2 =>
          have l2 := pairByte_length h2
          simp only [h2] at h
          cases h3 : pairByte 'u' s2 with
          | error e => simp [h3] at h
          | ok s3 =>
            have l3 := pairByte_length h3
            simp only [h3] at h
            cases h4 : hexFour s3 with
            | error e => simp [h4] at h
            | ok r4 =>
              obtain ⟨low, s4⟩ := r4
              have l4 := hexFour_length h4
              simp only [h4] at h
              split at h
              · cases h
              · simp only [Except.ok.injEq, Prod.mk.injEq] at h
                obtain ⟨_, rfl⟩ := h
                omega

theorem escape_length {care : Care} {s rest bytes : List UInt8}
    (h : escape care s = .ok (bytes, rest)) : rest.length < s.length := by
  cases s with
  | nil => cases h
  | cons b s =>
    simp only [escape] at h
    split at h
    · cases h
      simp
    · split at h
      · cases h
      · cases care with
        | kept =>
          cases hc : codePoint s with
          | error e => simp [hc, Except.map] at h
          | ok r =>
            obtain ⟨c, after⟩ := r
            simp only [hc, Except.map] at h
            cases h
            have := codePoint_length hc
            simp only [List.length_cons]
            omega
        | skipped =>
          cases hc : hexFour s with
          | error e => simp [hc, Except.map] at h
          | ok r =>
            obtain ⟨n, after⟩ := r
            simp only [hc, Except.map] at h
            cases h
            have := hexFour_length hc
            simp only [List.length_cons]
            omega

/-- Reads up to and with the closing quote; returns the bytes of the text. -/
def content (care : Care) : List UInt8 → Except Fault (Scanned (List UInt8))
  | [] => .error .endInString
  | b :: s =>
    if b = byte '"' then .ok ([], s)
    else if b = byte '\\' then
      match h : escape care s with
      | .error e => .error e
      | .ok (front, rest) =>
        have := escape_length h
        (content care rest).map fun (bytes, rest) => (front ++ bytes, rest)
    else if b < 0x20 then .error .controlCharacter
    else (content care s).map fun (bytes, rest) => (b :: bytes, rest)
termination_by s => s.length

/-- Reads a string after its opening quote. -/
def string (s : List UInt8) : Except Fault (Scanned String) := do
  let (bytes, s) ← content .kept s
  match Text.Utf8.decode? bytes with
  | some cs => return (String.ofList cs, s)
  | none => throw .invalidCodePoint

/-- What follows a string, after its opening quote. -/
def skipString (s : List UInt8) : Except Fault (List UInt8) :=
  (content .skipped s).map (·.2)

end LeaseKeeper.Json
