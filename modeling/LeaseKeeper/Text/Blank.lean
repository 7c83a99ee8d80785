/-
White space, and text without it at its ends.

`isBlank` is the Unicode property White_Space: the controls U+0009 to U+000D and U+0085, the
space, the no-break space, the spaces of the punctuation block and the ideographic space.

* `trim s` — `s` without blanks at either end;
* `getLast_trim_not_blank` — a trimmed text does not end in a blank.
-/

namespace LeaseKeeper.Text

/-- Whether `c` has the Unicode property White_Space. -/
def isBlank (c : Char) : Bool :=
  (0x09 ≤ c.toNat && c.toNat ≤ 0x0D) || c.toNat == 0x20 || c.toNat == 0x85 || c.toNat == 0xA0 ||
  c.toNat == 0x1680 || (0x2000 ≤ c.toNat && c.toNat ≤ 0x200A) || c.toNat == 0x2028 ||
  c.toNat == 0x2029 || c.toNat == 0x202F || c.toNat == 0x205F || c.toNat == 0x3000

/-- `s` without the blanks at its end. -/
def trimEnd (s : List Char) : List Char :=
  (s.reverse.dropWhile isBlank).reverse

/-- `s` without the blanks at its beginning and its end. -/
def trim (s : List Char) : List Char :=
  trimEnd (s.dropWhile isBlank)

@[simp] theorem trim_nil : trim [] = [] := rfl

theorem getLast_trim_not_blank {s : List Char} {c : Char}
    (h : (trim s).getLast? = some c) : isBlank c = false := by
  simp only [trim, trimEnd, List.getLast?_reverse] at h
  cases hb : isBlank c with
  | false => rfl
  | true =>
    have hd := List.head?_dropWhile_not isBlank (s.dropWhile isBlank).reverse
    rw [h] at hd
    simp [hb] at hd

end LeaseKeeper.Text
