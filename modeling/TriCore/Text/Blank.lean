/-!
# Blanks

Text given from outside is read without the blanks around it. Blank is every character that Unicode
counts as white space, not only those of ASCII.

## Main definitions

* `Text.isBlank` : the white space of Unicode.
* `Text.trim`, `Text.trimEnd` : a text without the blanks around it or behind it.
-/

namespace TriCore.Text

/-- The characters with the Unicode property of white space. -/
def isBlank (c : Char) : Bool :=
  let n := c.toNat
  (0x09 ≤ n && n ≤ 0x0D) || n == 0x20 || n == 0x85 || n == 0xA0 || n == 0x1680 ||
    (0x2000 ≤ n && n ≤ 0x200A) || n == 0x2028 || n == 0x2029 || n == 0x202F || n == 0x205F ||
    n == 0x3000

/-- A text without the blanks at its end. -/
def trimEnd (cs : List Char) : List Char := (cs.reverse.dropWhile isBlank).reverse

/-- A text without the blanks around it. -/
def trim (cs : List Char) : List Char := trimEnd (cs.dropWhile isBlank)

/-- The parts of a text between occurrences of a separator; one more than there are separators. -/
def splitOn (separator : Char) : List Char → List (List Char)
  | [] => [[]]
  | c :: cs =>
    if c = separator then
      [] :: splitOn separator cs
    else
      match splitOn separator cs with
      | part :: parts => (c :: part) :: parts
      | [] => [[c]]

end TriCore.Text
