/-!
# `Yaml.Cursor` — a place in a text

A cursor stands before the rest of a text and knows its line and column. Five characters break lines, and
a carriage return followed by a line feed breaks one line only. Read as part of a value, every break of
the older kind becomes a line feed.
-/

namespace OpGraph.Yaml

/-- Characters a text may hold. -/
def isPrintable (c : Char) : Bool :=
  c = '\t' || c = '\n' || c = '\r' || (' ' ≤ c && c ≤ '~') || c = '\u0085' ||
    ('\u00a0' ≤ c && c ≤ '\ufffd') || 0x10000 ≤ c.toNat

/-- Characters that break a line. -/
def isBreak (c : Char) : Bool :=
  c = '\r' || c = '\n' || c = '\u0085' || c = '\u2028' || c = '\u2029'

/-- Characters that separate within a line. -/
def isBlank (c : Char) : Bool := c = ' ' || c = '\t'

/-- Characters of names. -/
def isWord (c : Char) : Bool := c.isAlphanum || c = '_' || c = '-'

/-- Characters that open, close and separate collections in a line. -/
def isFlow (c : Char) : Bool := c ∈ [',', '[', ']', '\x7b', '\x7d']

/-- A place in a text. -/
structure Cursor where
  rest : List Char
  /-- Number of characters before it. -/
  index : Nat := 0
  line : Nat := 0
  column : Nat := 0

namespace Cursor

/-! ## Looking ahead -/

/-- Whether a character of a kind is `n` places ahead. -/
def sees (c : Cursor) (p : Char → Bool) (n : Nat := 0) : Bool := (c.rest[n]?).any p

/-- Whether a certain character is next. -/
def isAt (c : Cursor) (x : Char) : Bool := c.sees (· = x)

/-- Whether the text ends. -/
def isEnd (c : Cursor) : Bool := c.rest.isEmpty

/-- Whether the line ends. -/
def endsLine (c : Cursor) : Bool := c.isEnd || c.sees isBreak

/-- Whether a word ends `n` places ahead. -/
def endsWord (c : Cursor) (n : Nat := 0) : Bool :=
  (c.rest[n]?).all fun x => isBlank x || isBreak x

/-- Whether a mark stands alone at the start of a line. -/
def isMark (c : Cursor) (mark : List Char) : Bool :=
  c.column = 0 && c.rest.take mark.length = mark && c.endsWord mark.length

/-- The mark that starts a document. -/
def startMark : List Char := ['-', '-', '-']

/-- The mark that ends a document. -/
def endMark : List Char := ['.', '.', '.']

/-- Whether a document starts or ends here. -/
def isDocumentMark (c : Cursor) : Bool := c.isMark startMark || c.isMark endMark

/-! ## Going on -/

/-- Go past characters of the same line. -/
def skip (c : Cursor) (n : Nat := 1) : Cursor :=
  { c with rest := c.rest.drop n, index := c.index + n, column := c.column + n }

/-- Go past characters of a kind on the same line. -/
def skipWhile (c : Cursor) (p : Char → Bool) : Cursor := c.skip (c.rest.takeWhile p).length

/-- Go past characters of a kind on the same line, and give them back. -/
def readWhile (c : Cursor) (p : Char → Bool) : String × Cursor :=
  (String.ofList (c.rest.takeWhile p), c.skipWhile p)

/-- Go past the end of a line, and give back what it stands for. -/
def readBreak (c : Cursor) : String × Cursor :=
  let next (n : Nat) : Cursor :=
    { rest := c.rest.drop n, index := c.index + n, line := c.line + 1, column := 0 }
  match c.rest with
  | '\r' :: '\n' :: _ => ("\n", next 2)
  | '\u2028' :: _ => ("\u2028", next 1)
  | '\u2029' :: _ => ("\u2029", next 1)
  | _ => ("\n", next 1)

/-- Go past the end of a line. -/
def skipBreak (c : Cursor) : Cursor := c.readBreak.2

/-- Go past blanks and a comment, up to the end of the line. -/
def skipComment (c : Cursor) : Cursor :=
  if c.isAt '#' then c.skipWhile (! isBreak ·) else c

end Cursor

end OpGraph.Yaml
