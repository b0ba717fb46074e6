/-!
# Byte strings

The program reads, compares and writes bytes, whatever characters they are meant to be. A byte
string is a text of characters up to 255, one for each byte. What comes from the system as a text,
such as an argument, is a byte string by its encoding, and a name is decoded again before a file is
opened.
-/

set_option autoImplicit false

namespace PhraseTable.Text

/-- A byte string, with each byte as the character of its number. -/
def ofBytes (bytes : List UInt8) : List Char :=
  bytes.map Char.ofUInt8

/-- The encoding of a text as a byte string. -/
def utf8 (s : String) : List Char :=
  ofBytes s.toUTF8.data.toList

/-- The byte string of what stands in a file. -/
def read (bytes : ByteArray) : String :=
  String.ofList (ofBytes bytes.data.toList)

/-- The bytes of a byte string. -/
def written (s : String) : ByteArray :=
  ⟨(s.toList.map fun c => UInt8.ofNat c.toNat).toArray⟩

/-- The byte string of a text. -/
def encoded (s : String) : String :=
  String.ofList (utf8 s)

/-- The text of a byte string, if it is the encoding of one. -/
def decoded? (s : String) : Option String :=
  String.fromUTF8? (written s)

end PhraseTable.Text
