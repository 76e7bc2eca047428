import OpGraph.Assoc
import OpGraph.Yaml.Token

/-!
# `Yaml.Tree` — the one document of a text

Tokens make up a tree of scalars, sequences and mappings. Where a node is left out there is an empty
plain scalar. A node may get a name and be stood for by it later in the text; the tree keeps such
references, and the document the nodes they mean. A text holds at most one document, and one without
any holds nothing.

Each function takes its part of the tokens off and gives the rest back; `fuel` bounds how many nodes and
entries may follow one another or nest.
-/

namespace OpGraph.Yaml

/-- A node of a document. -/
inductive Tree where
  | scalar (text : String) (style : Style) (tag : Option Tag)
  | sequence (tag : Option Tag) (items : List Tree)
  | mapping (tag : Option Tag) (entries : List (Tree × Tree))
  /-- A node that is found elsewhere. -/
  | reference (id : Nat)

namespace Tree

/-- An omitted node. -/
def blank : Tree := .scalar "" .plain none

/-- What is left to read, and what was named so far. -/
structure Reading where
  tokens : List Token
  /-- What the handles of tags stand for. -/
  handles : List (String × Tag) := []
  /-- The id that each name stands for. -/
  names : List (String × Nat) := []
  /-- Number of named nodes that began. -/
  begun : Nat := 0
  /-- For each id the number of the named node that took it last. -/
  owners : List (Nat × Nat) := []
  /-- Named nodes by number. -/
  nodes : List (Nat × Tree) := []

/-- Reads a part of a document, if it is there. -/
abbrev Reader := StateT Reading Option

/-- The next token. -/
def next? : Reader (Option Token) := do pure (← get).tokens.head?

/-- Go past a token. -/
def advance : Reader Unit := modify fun r => { r with tokens := r.tokens.tail }

/-- Whether one of some tokens is next, or none at all. -/
def nextIs (ts : List Token) : Reader Bool := do pure ((← next?).any (· ∈ ts))

/-- Go past a token, which has to be next. -/
def expect (t : Token) : Reader Unit := do
  if ← nextIs [t] then advance else failure

/-! ## Names and tags -/

/-- Handles of tags that need not be declared. -/
def standardHandles : List (String × Tag) :=
  [("!", [Tag.mark]), ("!!", Tag.ofString "tag:yaml.org,2002:")]

/-- The tag that a handle and a suffix stand for. -/
def resolveTag (handle : String) (suffix : Tag) : Reader Tag := do
  if handle.isEmpty then pure suffix
  else
    match Assoc.find? handle ((← get).handles ++ standardHandles) with
    | some base => pure (base ++ suffix)
    | none => failure

/-- Read the tag and the name of a node, in either order. -/
def readProperties : Reader (Option Tag × Option String) := do
  match ← next? with
  | some (.anchor name) => do
      advance
      match ← next? with
      | some (.tag handle suffix) => do
          advance
          pure (some (← resolveTag handle suffix), some name)
      | _ => pure (none, some name)
  | some (.tag handle suffix) => do
      advance
      match ← next? with
      | some (.anchor name) => do
          advance
          pure (some (← resolveTag handle suffix), some name)
      | _ => pure (some (← resolveTag handle suffix), none)
  | _ => pure (none, none)

/-- Give a node that begins here a name. Its id is the number of names there are, so a name that is given
    again can bring an id that is taken, and then the id means the new node. -/
def beginNamed (name : Option String) : Reader (Option Nat) := do
  match name with
  | none => pure none
  | some name => do
      let r ← get
      let id := r.names.length
      set { r with
        names := Assoc.put name id r.names
        begun := r.begun + 1
        owners := Assoc.put id r.begun r.owners }
      pure (some r.begun)

/-- Keep a named node under its number. -/
def keep (number : Option Nat) (t : Tree) : Reader Tree := do
  match number with
  | none => pure t
  | some number => do
      modify fun r => { r with nodes := (number, t) :: r.nodes }
      pure t

/-- The node a name stands for. -/
def refer (name : String) : Reader Tree := do
  match Assoc.find? name (← get).names with
  | some id => pure (.reference id)
  | none => failure

/-! ## Nodes -/

mutual

/-- Read a node. `block` says whether it may be a block collection, `level` whether a block sequence may
    stand at the level of the mapping it is in. -/
def readNode (block level : Bool) : Nat → Reader Tree
  | 0 => failure
  | fuel + 1 => do
      match ← next? with
      | some (.alias name) => do
          advance
          refer name
      | _ => do
          let (tag, name) ← readProperties
          let number ← beginNamed name
          match ← next? with
          | some (.scalar text style) => do
              advance
              keep number (.scalar text style tag)
          | some .flowSequence => do
              advance
              keep number (.sequence tag (← readFlowItems true fuel))
          | some .flowMapping => do
              advance
              keep number (.mapping tag (← readFlowEntries true fuel))
          | t => do
              if level && t = some .entry then
                keep number (.sequence tag (← readLevelItems fuel))
              else if block && t = some .blockSequence then do
                advance
                keep number (.sequence tag (← readBlockItems fuel))
              else if block && t = some .blockMapping then do
                advance
                keep number (.mapping tag (← readBlockEntries fuel))
              else if tag.isSome || name.isSome then keep number (.scalar "" .plain tag)
              else failure

/-- Read a node unless one of some tokens is next, in which case it was left out. -/
def readUnless (block level : Bool) (stops : List Token) : Nat → Reader Tree
  | 0 => failure
  | fuel + 1 => do
      if ← nextIs stops then pure blank else readNode block level fuel

/-- Read the entries of a block sequence and its end. -/
def readBlockItems : Nat → Reader (List Tree)
  | 0 => failure
  | fuel + 1 => do
      match ← next? with
      | some .entry => do
          advance
          let item ← readUnless true false [.entry, .blockEnd] fuel
          pure (item :: (← readBlockItems fuel))
      | some .blockEnd => do
          advance
          pure []
      | _ => failure

/-- Read the entries of a block sequence at the level of the mapping it is in. -/
def readLevelItems : Nat → Reader (List Tree)
  | 0 => failure
  | fuel + 1 => do
      match ← next? with
      | some .entry => do
          advance
          let item ← readUnless true false [.entry, .key, .value, .blockEnd] fuel
          pure (item :: (← readLevelItems fuel))
      | _ => pure []

/-- Read the entries of a block mapping and its end. -/
def readBlockEntries : Nat → Reader (List (Tree × Tree))
  | 0 => failure
  | fuel + 1 => do
      match ← next? with
      | some .key => do
          advance
          let k ← readUnless true true [.key, .value, .blockEnd] fuel
          let v ← readBlockValue fuel
          pure ((k, v) :: (← readBlockEntries fuel))
      | some .blockEnd => do
          advance
          pure []
      | _ => failure

/-- Read the value of an entry of a block mapping. -/
def readBlockValue : Nat → Reader Tree
  | 0 => failure
  | fuel + 1 => do
      if ← nextIs [.value] then do
        advance
        readUnless true true [.key, .value, .blockEnd] fuel
      else pure blank

/-- Read the entries of a flow sequence and its end. Single pairs are not taken. -/
def readFlowItems (first : Bool) : Nat → Reader (List Tree)
  | 0 => failure
  | fuel + 1 => do
      if ← nextIs [.flowSequenceEnd] then do
        advance
        pure []
      else do
        if first then pure () else expect .flowEntry
        if ← nextIs [.flowSequenceEnd] then do
          advance
          pure []
        else do
          let item ← readNode false false fuel
          pure (item :: (← readFlowItems false fuel))

/-- Read the entries of a flow mapping and its end. -/
def readFlowEntries (first : Bool) : Nat → Reader (List (Tree × Tree))
  | 0 => failure
  | fuel + 1 => do
      if ← nextIs [.flowMappingEnd] then do
        advance
        pure []
      else do
        if first then pure () else expect .flowEntry
        if ← nextIs [.flowMappingEnd] then do
          advance
          pure []
        else if ← nextIs [.key] then do
          advance
          let k ← readUnless false false [.value, .flowEntry, .flowMappingEnd] fuel
          let v ← readFlowValue fuel
          pure ((k, v) :: (← readFlowEntries false fuel))
        else do
          let k ← readNode false false fuel
          pure ((k, blank) :: (← readFlowEntries false fuel))

/-- Read the value of an entry of a flow mapping. -/
def readFlowValue : Nat → Reader Tree
  | 0 => failure
  | fuel + 1 => do
      if ← nextIs [.value] then do
        advance
        readUnless false false [.flowEntry, .flowMappingEnd] fuel
      else pure blank

end

end Tree

/-! ## Documents -/

/-- A document: its root, and the nodes that references mean. -/
structure Document where
  root : Tree
  nodes : List (Nat × Tree)

namespace Document

open OpGraph.Yaml.Tree

/-- Read the directives before a document. One version is taken, of the kinds known, and one meaning for
    each handle. -/
def readDirectives (versioned : Bool) : Nat → Reader Unit
  | 0 => failure
  | fuel + 1 => do
      match ← next? with
      | some (.version major minor) => do
          if versioned || major ≠ 1 || (minor ≠ 1 && minor ≠ 2) then failure
          else do
            advance
            readDirectives true fuel
      | some (.shorthand name base) => do
          if Assoc.has name (← get).handles then failure
          else do
            modify fun r => { r with handles := r.handles ++ [(name, base)] }
            advance
            readDirectives versioned fuel
      | _ => pure ()

/-- Go past marks that end a document; nothing may come after them. -/
def readEnd : Nat → Reader Unit
  | 0 => failure
  | fuel + 1 => do
      match ← next? with
      | none => pure ()
      | some .documentEnd => do
          advance
          readEnd fuel
      | some _ => failure

/-- Whether a token starts a document that is announced. -/
def isAnnounced : Token → Bool
  | .version .. | .shorthand .. | .documentStart => true
  | _ => false

/-- Read the root of a document. -/
def readRoot (fuel : Nat) : Reader Tree := do
  if (← next?).any isAnnounced then do
    readDirectives false fuel
    expect .documentStart
    let t ← next?
    if t.isNone || t = some .documentEnd || t.any isAnnounced then pure blank
    else readNode true false fuel
  else readNode true false fuel

/-- The nodes that ids mean in the end. -/
def meanings (r : Reading) : List (Nat × Tree) :=
  r.owners.filterMap fun (id, number) => (Assoc.find? number r.nodes).map fun t => (id, t)

/-- The document of a text, or nothing where the text holds none; no answer where it is malformed. -/
def ofText? (text : String) : Option (Option Document) := do
  let tokens ← Token.ofText? text
  if tokens.isEmpty then some none
  else
    let fuel := 3 * tokens.length + 3
    let reader : Reader Tree := do
      let t ← readRoot fuel
      readEnd fuel
      pure t
    let (root, r) ← reader.run { tokens }
    some (some { root, nodes := meanings r })

end Document

end OpGraph.Yaml
