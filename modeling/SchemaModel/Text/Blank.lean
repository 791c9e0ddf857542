/-!
# Blank characters

The characters with the Unicode `White_Space` property, and trimming them from both ends of a
text. Names given in settings and keyword values are trimmed by this class, so a no-break space
or an ideographic space around a name is dropped like an ASCII space.
-/

namespace SchemaModel.Blank

/-- The code points with the Unicode `White_Space` property: tab to carriage return, space, next
line, no-break space, ogham space mark, the en quad to hair space, line and paragraph separator,
narrow no-break space, medium mathematical space and ideographic space. -/
def isBlank (c : Char) : Bool :=
  let n := c.toNat
  (0x09 ≤ n && n ≤ 0x0D) || n == 0x20 || n == 0x85 || n == 0xA0 || n == 0x1680 ||
    (0x2000 ≤ n && n ≤ 0x200A) || n == 0x2028 || n == 0x2029 || n == 0x202F ||
    n == 0x205F || n == 0x3000

/-- The characters without the blanks at the start. -/
def dropLeading : List Char → List Char
  | [] => []
  | c :: rest => if isBlank c then dropLeading rest else c :: rest

/-- A text without the blanks at both ends. -/
def trim (s : String) : String :=
  String.ofList (dropLeading (dropLeading s.toList).reverse).reverse

example : isBlank ' ' ∧ isBlank '\t' ∧ isBlank '\x0c' ∧ isBlank '\u3000' ∧ !isBlank 'a' ∧
    !isBlank '\u200b' := by decide

end SchemaModel.Blank
