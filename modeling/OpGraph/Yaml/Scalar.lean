import OpGraph.Yaml.Cursor

/-!
# `Yaml.Scalar` — values written as text

A scalar is written plain, between quotes, or as a block of lines. Plain and quoted ones may go on over
several lines: one break between two lines counts as a blank, more breaks as one less than there are, and
blanks around breaks do not count. A block keeps its breaks or folds them, and its header says what
becomes of those at the end.
-/

namespace OpGraph.Yaml

/-- How a scalar is written. -/
inductive Style where
  | plain
  | quoted
  /-- A block that keeps its breaks. -/
  | literal
  | folded
  deriving DecidableEq

/-! ## Gaps between words -/

/-- Blanks and breaks between two words of a scalar. -/
structure Gap where
  /-- Blanks before any break. -/
  blanks : String := ""
  /-- Whether there is a break. -/
  broken : Bool := false
  /-- The first break, unless it was written to be ignored. -/
  first : String := ""
  /-- Breaks after the first. -/
  more : String := ""

namespace Gap

/-- What a gap counts as. -/
def fold (g : Gap) : String :=
  if !g.broken then g.blanks
  else if g.first = "\n" then (if g.more.isEmpty then " " else g.more)
  else g.first ++ g.more

/-- Read a gap on. After a break no tab may stand left of column `margin`. -/
def read (margin : Nat) : Nat → Gap → Cursor → Option (Gap × Cursor)
  | 0, _, _ => none
  | fuel + 1, g, c =>
      match c.rest with
      | [] => some (g, c)
      | x :: _ =>
          if isBlank x then
            if g.broken then
              if x = '\t' && c.column < margin then none else read margin fuel g c.skip
            else read margin fuel { g with blanks := g.blanks.push x } c.skip
          else if isBreak x then
            let (b, c) := c.readBreak
            if g.broken then read margin fuel { g with more := g.more ++ b } c
            else read margin fuel { broken := true, first := b } c
          else some (g, c)

/-- Read a gap on from where it stands. -/
def readOn (margin : Nat) (g : Gap) (c : Cursor) : Option (Gap × Cursor) :=
  read margin (c.rest.length + 1) g c

end Gap

/-! ## Plain scalars -/

/-- Whether a plain word ends here: at an indicator of the context it stands in. -/
def endsPlain (flow : Bool) (c : Cursor) : Bool :=
  c.endsWord || c.isAt ':' && c.endsWord 1 || flow && c.sees isFlow

/-- Whether a colon stands before an indicator, which plain words in a line may not hold. -/
def isStrayColon (flow : Bool) (c : Cursor) : Bool :=
  flow && c.isAt ':' && c.sees (fun x => isFlow x || x = '?') 1

/-- Read a plain word on. -/
def readWord (flow : Bool) : Nat → String → Cursor → Option (String × Cursor)
  | 0, _, _ => none
  | fuel + 1, acc, c =>
      if isStrayColon flow c then none
      else if endsPlain flow c then some (acc, c)
      else
        match c.rest with
        | [] => some (acc, c)
        | x :: _ => readWord flow fuel (acc.push x) c.skip

/-- Read a plain scalar on: its text, and whether a break came after it. -/
def readPlain (flow : Bool) (margin : Nat) :
    Nat → String → Gap → Cursor → Option (String × Bool × Cursor)
  | 0, _, _, _ => none
  | fuel + 1, acc, g, c =>
      if c.isDocumentMark || c.isAt '#' then some (acc, g.broken, c)
      else do
        let (word, c) ← readWord flow (c.rest.length + 1) "" c
        let (acc, g) : String × Gap := if word.isEmpty then (acc, g) else (acc ++ g.fold ++ word, {})
        if c.sees fun x => isBlank x || isBreak x then
          let (g, c) ← g.readOn margin c
          if !flow && c.column < margin then some (acc, g.broken, c)
          else readPlain flow margin fuel acc g c
        else some (acc, g.broken, c)

/-! ## Quoted scalars -/

/-- Characters that a backslash and a letter stand for. -/
def escapes : List (Char × Char) :=
  [('0', '\x00'), ('a', '\x07'), ('b', '\x08'), ('t', '\t'), ('\t', '\t'), ('n', '\n'),
    ('v', '\x0b'), ('f', '\x0c'), ('r', '\r'), ('e', '\x1b'), (' ', ' '), ('"', '"'), ('/', '/'),
    ('\\', '\\'), ('N', '\u0085'), ('_', '\u00a0'), ('L', '\u2028'), ('P', '\u2029')]

/-- Number of digits after a letter that introduces a code point. -/
def codeLength? (c : Char) : Option Nat :=
  match c with
  | 'x' => some 2
  | 'u' => some 4
  | 'U' => some 8
  | _ => none

/-- The value of a hexadecimal digit. -/
def hexDigit? (c : Char) : Option Nat :=
  if '0' ≤ c && c ≤ '9' then some (c.toNat - '0'.toNat)
  else if 'a' ≤ c && c ≤ 'f' then some (c.toNat - 'a'.toNat + 10)
  else if 'A' ≤ c && c ≤ 'F' then some (c.toNat - 'A'.toNat + 10)
  else none

/-- The number that digits of a base stand for. -/
def ofDigits? (base : Nat) (digit? : Char → Option Nat) (cs : List Char) : Option Nat :=
  cs.foldlM (fun n c => (digit? c).map fun d => n * base + d) 0

/-- The character of a code point. -/
def ofCode? (n : Nat) : Option Char := if n.isValidChar then some (Char.ofNat n) else none

/-- What stands after a backslash: the character it means, and the number of places it takes. -/
def escaped? : List Char → Option (Char × Nat)
  | [] => none
  | x :: rest =>
      match escapes.lookup x, codeLength? x with
      | some c, _ => some (c, 1)
      | none, none => none
      | none, some n =>
          let digits := rest.take n
          if digits.length < n then none
          else ((ofDigits? 16 hexDigit? digits).bind ofCode?).map fun c => (c, n + 1)

/-- Read a quoted word on: its text, and whether it ended at a break that is to be ignored. -/
def readQuotedWord (quote : Char) : Nat → String → Cursor → Option (String × Bool × Cursor)
  | 0, _, _ => none
  | fuel + 1, acc, c =>
      if c.endsWord then some (acc, false, c)
      else if quote = '\'' && c.isAt '\'' && c.sees (· = '\'') 1 then
        readQuotedWord quote fuel (acc.push '\'') (c.skip 2)
      else if c.isAt quote then some (acc, false, c)
      else
        match c.rest with
        | [] => some (acc, false, c)
        | x :: rest =>
            if quote = '"' && x = '\\' then
              if c.sees isBreak 1 then some (acc, true, c.skip.skipBreak)
              else do
                let (y, n) ← escaped? rest
                readQuotedWord quote fuel (acc.push y) (c.skip (n + 1))
            else readQuotedWord quote fuel (acc.push x) c.skip

/-- Read a quoted scalar on, past the quote that ends it. -/
def readQuoted (quote : Char) : Nat → String → Cursor → Option (String × Cursor)
  | 0, _, _ => none
  | fuel + 1, acc, c =>
      if c.isDocumentMark || c.isEnd then none
      else do
        let (acc, broken, c) ← readQuotedWord quote (c.rest.length + 1) acc c
        if c.isAt quote then some (acc, c.skip)
        else
          let start : Gap := { broken }
          let (g, c) ← start.readOn 0 c
          readQuoted quote fuel (acc ++ g.fold) c

/-! ## Blocks -/

/-- What becomes of the breaks at the end of a block. -/
inductive Chomping where
  | strip
  | clip
  | keep
  deriving DecidableEq

/-- The chomping an indicator asks for. -/
def chomping? (c : Char) : Option Chomping :=
  if c = '+' then some .keep else if c = '-' then some .strip else none

/-- The indentation an indicator asks for. -/
def increment? (c : Char) : Option Nat :=
  if '1' ≤ c && c ≤ '9' then some (c.toNat - '0'.toNat) else none

/-- Read the indicators of a block: chomping and indentation, in either order. -/
def readIndicators (c : Cursor) : Chomping × Option Nat × Cursor :=
  let first := c.rest.head?
  let second := c.skip.rest.head?
  match first.bind chomping?, first.bind increment? with
  | some k, _ =>
      match second.bind increment? with
      | some n => (k, some n, c.skip 2)
      | none => (k, none, c.skip)
  | none, some n =>
      match second.bind chomping? with
      | some k => (k, some n, c.skip 2)
      | none => (.clip, some n, c.skip)
  | none, none => (.clip, none, c)

/-- Read empty lines and the indentation of the next line. While the indentation of the block is not
    known, it becomes the widest seen. -/
def readIndentation (least : Nat) :
    Nat → Option Nat → Nat → String → Cursor → Option (String × Nat × Cursor)
  | 0, _, _, _, _ => none
  | fuel + 1, indent, widest, acc, c =>
      let room := (indent.map (· - c.column)).getD c.rest.length
      let c := c.skip (min room (c.rest.takeWhile (· = ' ')).length)
      let widest := max widest c.column
      if indent.all (c.column < ·) && c.isAt '\t' then none
      else if c.sees isBreak then
        let (b, c) := c.readBreak
        readIndentation least fuel indent widest (acc ++ b) c
      else some (acc, indent.getD (max widest least), c)

/-- Read lines of a block on. `lead` is the break before the next line, `blank` whether the line before
    began with a blank. -/
def readLines (literal : Bool) (indent : Nat) :
    Nat → String → String → String → Bool → Cursor → Option (String × String × String × Cursor)
  | 0, _, _, _, _, _ => none
  | fuel + 1, acc, lead, trail, blank, c =>
      if c.column ≠ indent || c.isEnd then some (acc, lead, trail, c)
      else do
        let starts := c.sees isBlank
        let joint :=
          if !literal && lead = "\n" && !blank && !starts then (if trail.isEmpty then " " else "")
          else lead
        let (line, c) := c.readWhile (! isBreak ·)
        let (lead, c) := if c.isEnd then ("", c) else c.readBreak
        let (next, _, c) ← readIndentation indent (c.rest.length + 1) (some indent) 0 "" c
        readLines literal indent fuel (acc ++ joint ++ trail ++ line) lead next starts c

/-- Read a block after its first character. `margin` is the least indentation it can have. -/
def readBlock (literal : Bool) (outer : Option Nat) (c : Cursor) : Option (String × Cursor) := do
  let (chomping, increment, c) := readIndicators c
  if c.isAt '0' then none
  else
    let c := (c.skipWhile isBlank).skipComment
    if !c.endsLine then none
    else
      let c := if c.isEnd then c else c.skipBreak
      let margin := (outer.map (· + 1)).getD 0
      let known := increment.map fun n => (outer.getD 0) + n
      let (trail, indent, c) ← readIndentation (max 1 margin) (c.rest.length + 1) known 0 "" c
      let (text, lead, trail, c) ←
        readLines literal indent (c.rest.length + 1) "" "" trail false c
      some (text ++ (if chomping = .strip then "" else lead) ++
        (if chomping = .keep then trail else ""), c)

end OpGraph.Yaml
