/-!
# Text.Utf8 — texts as bytes

- `utf8`: the UTF-8 form of a text.
- `ofUtf8?`: the text with a given UTF-8 form, if the bytes are well formed.
-/

namespace SchemaCodec
namespace Text

/-- The UTF-8 form of a text. -/
def utf8 (s : String) : List UInt8 :=
  s.toUTF8.data.toList

/-- The text whose UTF-8 form is `bytes`: overlong forms, surrogates and code points above
U+10FFFF have none. -/
def ofUtf8? (bytes : List UInt8) : Option String :=
  String.fromUTF8? ⟨bytes.toArray⟩

end Text
end SchemaCodec
