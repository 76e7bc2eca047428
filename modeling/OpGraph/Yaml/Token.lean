import OpGraph.Yaml.Tag

/-!
# `Yaml.Token` — the marks of a text

A text is cut into tokens: marks of structure, names, tags and scalars. Indentation becomes structure as
well: a key or an entry right of all before it opens a block collection, and whatever stands left of it
closes it. A word turns out to be a key only when a colon follows on the same line; until then its place
is remembered, and the tokens of the key are put there afterwards.
-/

namespace OpGraph.Yaml

/-- A mark of a text. -/
inductive Token where
  /-- A version of the format. -/
  | version (major minor : Nat)
  /-- What a tag's handle stands for. -/
  | shorthand (name : String) (base : Tag)
  | documentStart
  | documentEnd
  | blockSequence
  | blockMapping
  | blockEnd
  | flowSequence
  | flowSequenceEnd
  | flowMapping
  | flowMappingEnd
  | entry
  | flowEntry
  | key
  | value
  | alias (name : String)
  | anchor (name : String)
  | tag (handle : String) (suffix : Tag)
  | scalar (text : String) (style : Style)
  deriving DecidableEq

namespace Token

/-- A place where a key may have begun. -/
structure KeyPlace where
  /-- Number of tokens before it. -/
  number : Nat
  /-- Whether it can be nothing but a key. -/
  required : Bool
  line : Nat
  index : Nat
  column : Nat

/-- The state of cutting a text. -/
structure Scan where
  cursor : Cursor
  tokens : List Token := []
  /-- Whether a key may begin here. -/
  keyAllowed : Bool := true
  /-- Columns of the open block collections, innermost first. -/
  indents : List Nat := []
  /-- For each open flow collection, innermost first, and for the block around them all, where a key
      may have begun. -/
  keys : List (Option KeyPlace) := [none]

namespace Scan

/-- Whether a flow collection is open. -/
def inFlow (s : Scan) : Bool := 1 < s.keys.length

/-- The column of the innermost block collection. -/
def indent? (s : Scan) : Option Nat := s.indents.head?

/-- The least column of the lines of a scalar. -/
def margin (s : Scan) : Nat := (s.indent?.map (· + 1)).getD 0

/-- Put a token at the end. -/
def push (s : Scan) (t : Token) : Scan := { s with tokens := s.tokens ++ [t] }

/-- Put a token in front of those from a number on. -/
def insert (s : Scan) (number : Nat) (t : Token) : Scan :=
  { s with tokens := s.tokens.take number ++ [t] ++ s.tokens.drop number }

/-! ## Indentation -/

/-- Close the block collections right of a column. -/
def close (s : Scan) (column : Nat) : Scan :=
  if s.inFlow then s
  else
    { s with
      tokens := s.tokens ++ (s.indents.takeWhile (column < ·)).map fun _ => blockEnd
      indents := s.indents.dropWhile (column < ·) }

/-- Close all block collections. -/
def closeAll (s : Scan) : Scan :=
  if s.inFlow then s
  else { s with tokens := s.tokens ++ s.indents.map fun _ => blockEnd, indents := [] }

/-- Open a block collection at a column, if it is right of those that are open. -/
def openBlock (s : Scan) (column number : Nat) (t : Token) : Scan :=
  if s.inFlow || s.indent?.any (column ≤ ·) then s
  else { s.insert number t with indents := column :: s.indents }

/-- Open a block collection here. -/
def openHere (s : Scan) (t : Token) : Scan := s.openBlock s.cursor.column s.tokens.length t

/-! ## Keys -/

/-- Where a key of the innermost collection may have begun. -/
def keyPlace? (s : Scan) : Option KeyPlace := s.keys.head?.join

/-- Change where a key of the innermost collection may have begun. -/
def setKey (s : Scan) (k : Option KeyPlace) : Scan := { s with keys := k :: s.keys.tail }

/-- Give up the place where a key may have begun, unless there had to be a key. -/
def dropKey (s : Scan) : Option Scan :=
  if s.keyPlace?.any (·.required) then none else some (s.setKey none)

/-- Remember this place, if a key may begin here. -/
def noteKey (s : Scan) : Option Scan :=
  if s.keyAllowed then do
    let s ← s.dropKey
    let c := s.cursor
    some (s.setKey (some
      { number := s.tokens.length, required := !s.inFlow && s.indent? = some c.column
        line := c.line, index := c.index, column := c.column }))
  else some s

/-- Whether a key that began at a place can no longer end: keys stay in one line and are short. -/
def isStale (s : Scan) (k : KeyPlace) : Bool :=
  k.line < s.cursor.line || k.index + 1024 < s.cursor.index

/-- Forget the places of keys that can no longer end, unless there had to be a key. -/
def dropStale (s : Scan) : Option Scan :=
  if s.keys.any fun k => k.any fun k => s.isStale k && k.required then none
  else some { s with keys := s.keys.map (·.filter (! s.isStale ·)) }

/-! ## Between tokens -/

/-- Go past blanks, comments and breaks. Tabs count as blanks where no key may begin, and a byte order
    mark does at the start of a line. -/
def skipGap : Nat → Scan → Scan
  | 0, s => s
  | fuel + 1, s =>
      let c := s.cursor
      let c := if c.column = 0 && c.isAt '\ufeff' then c.skip else c
      let tabs := s.inFlow || !s.keyAllowed
      let c := (c.skipWhile fun x => x = ' ' || tabs && x = '\t').skipComment
      if c.sees isBreak then
        skipGap fuel
          { s with cursor := c.skipBreak, keyAllowed := s.keyAllowed || !s.inFlow }
      else { s with cursor := c }

/-! ## Names and tags -/

/-- Read the name of an anchor or an alias after its first character. -/
def readName (c : Cursor) : Option (String × Cursor) :=
  let (name, c) := c.readWhile isWord
  let stops := ['?', ':', ',', ']', '\x7d', '%', '@', '\x60']
  if name.isEmpty then none
  else if c.endsWord || c.sees (· ∈ stops) then some (name, c)
  else none

/-- Characters of tags. -/
def isTagChar (verbatim : Bool) (c : Char) : Bool :=
  isWord c ||
    c ∈ [';', '/', '?', ':', '@', '&', '=', '+', '$', '.', '%', '!', '~', '*', '\'', '(', ')'] ||
    verbatim && c ∈ [',', '[', ']']

/-- Read the rest of a tag that began with `lead`. -/
def readSuffix (verbatim : Bool) (lead : String) (c : Cursor) : Option (Tag × Cursor) := do
  let (text, c) := c.readWhile (isTagChar verbatim)
  let rest ← Tag.decode 0 text.toList
  if lead.isEmpty && text.isEmpty then none
  else some (Tag.upToZero (Tag.ofString (lead.drop 1).toString ++ rest), c)

/-- Read the handle of a tag: a mark, perhaps a word and a second mark. -/
def readHandle (c : Cursor) : Option (String × Cursor) :=
  if c.isAt '!' then
    let (name, c) := c.skip.readWhile isWord
    if c.isAt '!' then some ("!" ++ name ++ "!", c.skip) else some ("!" ++ name, c)
  else none

/-- Read a tag. -/
def readTag (c : Cursor) : Option (Token × Cursor) := do
  if c.sees (· = '<') 1 then
    let (suffix, c) ← readSuffix true "" (c.skip 2)
    if c.isAt '>' then some (.tag "" suffix, c.skip) else none
  else
    let (handle, c) ← readHandle c
    if 1 < handle.length && handle.endsWith "!" then
      let (suffix, c) ← readSuffix false "" c
      some (.tag handle suffix, c)
    else
      let (suffix, c) ← readSuffix false handle c
      some (if suffix.isEmpty then .tag "" [Tag.mark] else .tag "!" suffix, c)

/-! ## Directives -/

/-- Read a number of at most nine digits. -/
def readNumber (c : Cursor) : Option (Nat × Cursor) :=
  let (digits, c) := c.readWhile Char.isDigit
  if digits.isEmpty || 9 < digits.length then none else digits.toNat?.map fun n => (n, c)

/-- Read a directive after its first character. -/
def readDirective (c : Cursor) : Option (Token × Cursor) := do
  let (name, c) := c.readWhile isWord
  if !c.endsWord then none
  else
    let c := c.skipWhile isBlank
    match name with
    | "YAML" =>
        let (major, c) ← readNumber c
        if !c.isAt '.' then none
        else
          let (minor, c) ← readNumber c.skip
          some (.version major minor, c)
    | "TAG" =>
        let (handle, c) ← readHandle c
        if !c.sees isBlank || !(handle.endsWith "!") then none
        else
          let (base, c) ← readSuffix true "" (c.skipWhile isBlank)
          if c.endsWord then some (.shorthand handle base, c) else none
    | _ => none

/-- Read a directive and the rest of its line. -/
def readDirectiveLine (c : Cursor) : Option (Token × Cursor) := do
  let (t, c) ← readDirective c.skip
  let c := (c.skipWhile isBlank).skipComment
  if c.isEnd then some (t, c) else if c.endsLine then some (t, c.skipBreak) else none

/-! ## One token -/

/-- Take over a token and the place after it. -/
def take (s : Scan) (r : Option (Token × Cursor)) : Option Scan :=
  r.map fun (t, cursor) => { s.push t with cursor }

/-- Take a mark of some length. -/
def takeMark (s : Scan) (t : Token) (length : Nat) : Scan :=
  { s.push t with cursor := s.cursor.skip length }

/-- A mark that ends everything open. -/
def atMargin (s : Scan) : Option Scan :=
  s.closeAll.dropKey.map fun s => { s with keyAllowed := false }

/-- The start of a flow collection. -/
def startFlow (s : Scan) (t : Token) : Option Scan := do
  let s ← s.noteKey
  some { s.takeMark t 1 with keyAllowed := true, keys := none :: s.keys }

/-- The end of a flow collection. -/
def endFlow (s : Scan) (t : Token) : Option Scan := do
  let s ← s.dropKey
  some { s.takeMark t 1 with
    keyAllowed := false, keys := if s.inFlow then s.keys.tail else s.keys }

/-- The dash before an entry of a block sequence. -/
def takeEntry (s : Scan) : Option Scan := do
  if !s.inFlow && !s.keyAllowed then none
  else
    let s := if s.inFlow then s else s.openHere blockSequence
    let s ← s.dropKey
    some { s.takeMark entry 1 with keyAllowed := true }

/-- The question mark before a key. -/
def takeKey (s : Scan) : Option Scan := do
  if !s.inFlow && !s.keyAllowed then none
  else
    let s := if s.inFlow then s else s.openHere blockMapping
    let s ← s.dropKey
    some { s.takeMark key 1 with keyAllowed := !s.inFlow }

/-- The colon before a value. -/
def takeValue (s : Scan) : Option Scan :=
  match s.keyPlace? with
  | some k =>
      let s := (s.insert k.number key).openBlock k.column k.number blockMapping
      some { (s.setKey none).takeMark value 1 with keyAllowed := false }
  | none =>
      if !s.inFlow && !s.keyAllowed then none
      else
        let s := if s.inFlow then s else s.openHere blockMapping
        some { s.takeMark value 1 with keyAllowed := !s.inFlow }

/-- A name, a tag or a quoted scalar, which may begin a key. -/
def takeWord (s : Scan) (read : Cursor → Option (Token × Cursor)) : Option Scan := do
  let s ← s.noteKey
  { s with keyAllowed := false }.take (read s.cursor)

/-- A tag ends where a word does, or before a comma in a flow collection. -/
def tagEnds (s : Scan) (r : Token × Cursor) : Bool := r.2.endsWord || s.inFlow && r.2.isAt ','

/-- A quoted scalar. -/
def readQuotedToken (quote : Char) (c : Cursor) : Option (Token × Cursor) :=
  (readQuoted quote (c.rest.length + 1) "" c.skip).map fun (text, c) => (scalar text .quoted, c)

/-- A plain scalar. A break after it lets a key begin. -/
def takePlain (s : Scan) : Option Scan := do
  let s ← s.noteKey
  let c := s.cursor
  let (text, broken, cursor) ← readPlain s.inFlow s.margin (c.rest.length + 1) "" {} c
  some { s.push (scalar text .plain) with cursor, keyAllowed := broken }

/-- A block of lines. -/
def takeBlock (s : Scan) (style : Style) : Option Scan := do
  let s ← s.dropKey
  let (text, cursor) ← readBlock (style = .literal) s.indent? s.cursor.skip
  some { s.push (scalar text style) with cursor, keyAllowed := true }

/-- Characters that cannot begin a plain scalar. -/
def indicators : List Char :=
  ['-', '?', ':', ',', '[', ']', '\x7b', '\x7d', '#', '&', '*', '!', '|', '>', '\'', '"', '%', '@',
    '\x60']

/-- Whether a plain scalar begins here. -/
def beginsPlain (s : Scan) : Bool :=
  let c := s.cursor
  !c.endsWord && !c.sees (· ∈ indicators) || c.isAt '-' && !c.sees isBlank 1 ||
    !s.inFlow && c.sees (fun x => x = '?' || x = ':') && !c.endsWord 1

/-- Take the token that begins here. -/
def takeToken (s : Scan) (x : Char) : Option Scan :=
  let c := s.cursor
  if c.column = 0 && x = '%' then s.atMargin.bind fun s => s.take (readDirectiveLine c)
  else if c.isMark Cursor.startMark then s.atMargin.map (·.takeMark documentStart 3)
  else if c.isMark Cursor.endMark then s.atMargin.map (·.takeMark documentEnd 3)
  else if x = '[' then s.startFlow flowSequence
  else if x = '\x7b' then s.startFlow flowMapping
  else if x = ']' then s.endFlow flowSequenceEnd
  else if x = '\x7d' then s.endFlow flowMappingEnd
  else if x = ',' then
    s.dropKey.map fun s => { s.takeMark flowEntry 1 with keyAllowed := true }
  else if x = '-' && c.endsWord 1 then s.takeEntry
  else if x = '?' && (s.inFlow || c.endsWord 1) then s.takeKey
  else if x = ':' && (s.inFlow || c.endsWord 1) then s.takeValue
  else if x = '*' then s.takeWord fun c => (readName c.skip).map fun (n, c) => (.alias n, c)
  else if x = '&' then s.takeWord fun c => (readName c.skip).map fun (n, c) => (.anchor n, c)
  else if x = '!' then s.takeWord fun c => (readTag c).filter s.tagEnds
  else if x = '|' && !s.inFlow then s.takeBlock .literal
  else if x = '>' && !s.inFlow then s.takeBlock .folded
  else if x = '\'' || x = '"' then s.takeWord (readQuotedToken x)
  else if s.beginsPlain then s.takePlain
  else none

/-! ## All tokens -/

/-- Take the tokens from here on. -/
def takeAll : Nat → Scan → Option (List Token)
  | 0, _ => none
  | fuel + 1, s => do
      let s ← s.dropStale
      let s ← (skipGap (s.cursor.rest.length + 1) s).dropStale
      let s := s.close s.cursor.column
      match s.cursor.rest with
      | [] => s.closeAll.dropKey.map (·.tokens)
      | x :: _ =>
          let s ← s.takeToken x
          takeAll fuel s

end Scan

/-- The tokens of a text; none where it cannot be cut into any. -/
def ofText? (text : String) : Option (List Token) :=
  let rest := text.toList
  if rest.all isPrintable then
    let start : Scan := { cursor := { rest } }
    start.takeAll (rest.length + 1)
  else none

end Token

end OpGraph.Yaml
