/-!
# Text.Blank — white space

- `isBlank`: membership in the Unicode property `White_Space`.
- `trim`: a text without the blank characters at its two ends.
- `compact`: a text without any blank character.

Zero-width characters such as U+200B and U+FEFF are not blank.
-/

namespace SchemaCodec
namespace Text

/-- The characters with the property `White_Space`. -/
def isBlank (c : Char) : Bool :=
  let n := c.toNat
  (0x09 ≤ n && n ≤ 0x0D) || n == 0x20 || n == 0x85 || n == 0xA0 || n == 0x1680 ||
    (0x2000 ≤ n && n ≤ 0x200A) || n == 0x2028 || n == 0x2029 || n == 0x202F ||
    n == 0x205F || n == 0x3000

/-- The text without the blank characters at its two ends. -/
def trim (s : List Char) : List Char :=
  ((s.dropWhile isBlank).reverse.dropWhile isBlank).reverse

/-- The text without any blank character. -/
def compact (s : List Char) : List Char :=
  s.filter fun c => !isBlank c

end Text
end SchemaCodec
