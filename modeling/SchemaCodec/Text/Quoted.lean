import SchemaCodec.Text.Printable

/-!
# Text.Quoted — quoted texts for diagnostics

- `escaped`: how one character stands inside quotes of a given kind.
- `quoted`: a text between double quotes.
- `quotedChar`: a character between single quotes.
-/

namespace SchemaCodec
namespace Text

/-- The digits of a code point in lower-case hexadecimal, without leading zeros. -/
def codePointDigits (c : Char) : List Char :=
  Nat.toDigits 16 c.toNat

/-- How a character stands between the quotes `quote`: the quote itself and the backslash are
escaped, common controls have a letter, and what has no visible form of its own is given by its
code point. -/
def escaped (quote : Char) (c : Char) : List Char :=
  if c = quote ∨ c = '\\' then ['\\', c]
  else if c = '\n' then ['\\', 'n']
  else if c = '\r' then ['\\', 'r']
  else if c = '\t' then ['\\', 't']
  else if c = '\x00' then ['\\', '0']
  else if isPrintable c then [c]
  else ['\\', 'u', '\x7b'] ++ codePointDigits c ++ ['\x7d']

/-- A text between double quotes. -/
def quoted (s : String) : String :=
  String.ofList ('"' :: s.toList.flatMap (escaped '"') ++ ['"'])

/-- A character between single quotes. -/
def quotedChar (c : Char) : String :=
  String.ofList ('\'' :: escaped '\'' c ++ ['\''])

end Text
end SchemaCodec
