import OpGraph.Yaml.Scalar

/-!
# `Yaml.Tag` — what kind of node a node says it is

A tag is a sequence of bytes. It is written with characters of a small set, and percent codes spell any
other byte. Codes that follow one another have to have the pattern of encoded characters, a leading byte
and as many trailing ones as it asks for, but need not encode any: a tag is text only where it happens to
be. A zero byte ends a tag.
-/

namespace OpGraph.Yaml

/-- The bytes of a tag. -/
abbrev Tag := List UInt8

namespace Tag

/-- The tag a text is. -/
def ofString (s : String) : Tag := s.toUTF8.data.toList

/-- The mark that begins tags of a document's own. -/
def mark : UInt8 := 0x21

/-- Number of trailing bytes that a leading byte asks for. -/
def trailing? (lead : UInt8) : Option Nat :=
  if lead < 0x80 then some 0
  else if 0xc0 ≤ lead && lead < 0xe0 then some 1
  else if 0xe0 ≤ lead && lead < 0xf0 then some 2
  else if 0xf0 ≤ lead && lead < 0xf8 then some 3
  else none

/-- Whether a byte can trail. -/
def isTrailing (b : UInt8) : Bool := 0x80 ≤ b && b < 0xc0

/-- The byte that two digits of a percent code spell. -/
def code? (x y : Char) : Option UInt8 := (ofDigits? 16 hexDigit? [x, y]).map UInt8.ofNat

/-- The bytes that characters and percent codes spell, of which `due` bytes have to trail. -/
def decode (due : Nat) : List Char → Option Tag
  | [] => if due = 0 then some [] else none
  | '%' :: x :: y :: rest => do
      let b ← code? x y
      let due ← if due = 0 then trailing? b else if isTrailing b then some (due - 1) else none
      (decode due rest).map (b :: ·)
  | x :: rest => if x = '%' || 0 < due then none else (decode 0 rest).map (ofString x.toString ++ ·)

/-- A tag up to its first zero byte. -/
def upToZero (t : Tag) : Tag := t.takeWhile (· ≠ 0)

/-- What stands after the mark, if a tag begins with one and goes on as text. -/
def local? : Tag → Option String
  | [] => none
  | b :: rest => if b = mark then String.fromUTF8? ⟨rest.toArray⟩ else none

end Tag

end OpGraph.Yaml
