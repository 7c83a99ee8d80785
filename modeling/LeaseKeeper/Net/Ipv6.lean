/-
IPv6 addresses.

* `Ipv6.ofText?` — reads eight groups of hexadecimal digits between colons, where a double
  colon stands for groups of zeros and an IPv4 address may stand for the last two groups;
* `Ipv6.toChars` — writes the one recommended form: lower case, no leading zeros, the longest
  run of at least two zero groups (the first of the longest) as a double colon, and an
  IPv4-mapped address with its IPv4 half in decimal;
* `Ipv6.ofIpv4`, `Ipv6.mapped?` — the IPv4-mapped address of an IPv4 address, and back.
-/
import LeaseKeeper.Net.Ipv4

namespace LeaseKeeper

/-- An IPv6 address as its 128-bit number. -/
structure Ipv6 where
  bits : BitVec 128
  deriving DecidableEq, Repr

namespace Ipv6

/-- The group of sixteen bits that begins `16 * place` bits from the right. -/
def group (a : Ipv6) (place : Nat) : Nat := (a.bits.toNat >>> (16 * place)) % 65536

def groups (a : Ipv6) : List Nat :=
  [a.group 7, a.group 6, a.group 5, a.group 4, a.group 3, a.group 2, a.group 1, a.group 0]

/-- The address with the given groups, the most significant first. -/
def ofGroups (gs : List Nat) : Ipv6 :=
  ⟨BitVec.ofNat 128 (gs.foldl (fun n g => n * 65536 + g) 0)⟩

/-- The IPv4-mapped address `::ffff:a.b.c.d`. -/
def ofIpv4 (a : Ipv4) : Ipv6 := ⟨BitVec.ofNat 128 (0xFFFF00000000 + a.bits.toNat)⟩

/-- The IPv4 address that an IPv4-mapped address stands for. -/
def mapped? (a : Ipv6) : Option Ipv4 :=
  if a.bits.toNat >>> 32 = 0xFFFF then some ⟨a.bits.setWidth 32⟩ else none

/-! ### Reading -/

/-- One to four hexadecimal digits. -/
def group? (s : List Char) : Option Nat :=
  if s = [] ∨ 4 < s.length then none
  else (s.mapM Text.hexDigit?).map fun ds => ds.foldl (fun n d => 16 * n + d) 0

/-- The groups of pieces between colons; the last piece may be an IPv4 address if `embedded`. -/
def groups? (embedded : Bool) : List (List Char) → Option (List Nat)
  | [] => some []
  | [piece] =>
    match group? piece with
    | some g => some [g]
    | none =>
      if embedded then
        (Ipv4.ofText? piece).map fun a => [a.bits.toNat / 65536, a.bits.toNat % 65536]
      else none
  | piece :: pieces =>
    match group? piece, groups? embedded pieces with
    | some g, some gs => some (g :: gs)
    | _, _ => none

/-- The groups of a text between colons; the empty text has none. -/
def groupsOfText? (embedded : Bool) (s : List Char) : Option (List Nat) :=
  if s = [] then some [] else groups? embedded (Text.fields (· == ':') s)

/-- The address that a text stands for.  A double colon takes the place of the groups that are
missing from eight, of which there may be only seven besides it. -/
def ofText? (s : List Char) : Option Ipv6 :=
  match Text.cut? [':', ':'] s with
  | none =>
    match groups? true (Text.fields (· == ':') s) with
    | some gs => if gs.length = 8 then some (ofGroups gs) else none
    | none => none
  | some (before, after) =>
    match groupsOfText? false before, groupsOfText? true after with
    | some front, some back =>
      if front.length + back.length ≤ 7 then
        some (ofGroups (front ++ List.replicate (8 - (front.length + back.length)) 0 ++ back))
      else none
    | _, _ => none

/-! ### Writing -/

/-- The number of zeros at the front. -/
def zeroRun (gs : List Nat) : Nat := (gs.takeWhile (· == 0)).length

/-- Where the longest run of zeros begins, and its length; the first of equally long ones. -/
def longestZeroRun : List Nat → Nat × Nat
  | [] => (0, 0)
  | g :: gs =>
    let here := zeroRun (g :: gs)
    let (start, length) := longestZeroRun gs
    if here ≥ length then (0, here) else (start + 1, length)

/-- Groups between colons. -/
def groupsText (gs : List Nat) : List Char :=
  List.intercalate [':'] (gs.map (Nat.toDigits 16))

/-- The recommended text of an address. -/
def toChars (a : Ipv6) : List Char :=
  match a.mapped? with
  | some v4 => [':', ':', 'f', 'f', 'f', 'f', ':'] ++ v4.toChars
  | none =>
    let (start, length) := longestZeroRun a.groups
    if length ≥ 2 then
      groupsText (a.groups.take start) ++ [':', ':'] ++ groupsText (a.groups.drop (start + length))
    else groupsText a.groups

end Ipv6

end LeaseKeeper
