import OpGraph.Session.Error
import OpGraph.Yaml.Tree

/-!
# `Session.Reader` — settings written as text

Settings are a mapping from their names to their values. What is not named keeps its usual value, and so
does everything where the text is empty. No name may come twice, and none but the three is known. A
number is written plain, in one of four bases and without leading zeros; a kind of provider is its name,
as a scalar or as the tag of nothing.
-/

namespace OpGraph.Config

open Yaml

/-! ## Values -/

/-- Texts that stand for nothing. -/
def nullWords : List String := ["null", "Null", "NULL", "~"]

/-- Whether a text is no value at all. -/
def isNothing (text : String) : Bool := text.isEmpty || text ∈ nullWords

/-- The tag of nothing. -/
def nullTag : Tag := Tag.ofString "tag:yaml.org,2002:null"

/-- The tag of whole numbers. -/
def intTag : Tag := Tag.ofString "tag:yaml.org,2002:int"

/-- The greatest number a setting can be. -/
def greatest : Nat := 4294967295

/-- The value of a digit of a base. -/
def digit? (base : Nat) (c : Char) : Option Nat := (hexDigit? c).filter (· < base)

/-- The number that digits stand for; there has to be one. -/
def digits? (base : Nat) (cs : List Char) : Option Nat :=
  if cs.isEmpty then none else ofDigits? base (digit? base) cs

/-- The number a text stands for. -/
def number? (text : String) : Option Nat :=
  let cs := text.toList
  let cs := if cs.head? = some '+' then cs.tail else cs
  let n :=
    match cs with
    | '0' :: 'x' :: rest => digits? 16 rest
    | '0' :: 'o' :: rest => digits? 8 rest
    | '0' :: 'b' :: rest => digits? 2 rest
    | '0' :: _ :: _ => none
    | _ => digits? 10 cs
  n.filter (· ≤ greatest)

/-- A version limit, which may be nothing. -/
def limit? : Tree → Option (Option Nat)
  | .scalar text style tag =>
      if style = .plain then
        if tag = some nullTag then (if text ∈ nullWords then some none else none)
        else if tag = none && isNothing text then some none
        else (number? text).map some
      else if style = .literal && tag = some intTag then (number? text).map some
      else none
  | _ => none

/-- A kind of provider. A tag of the document's own names it if there is one, and then nothing else may
    stand there. -/
def kind? : Tree → Option ProviderKind
  | .scalar text style tag =>
      match tag.bind Tag.local? with
      | none => ProviderKind.ofName? text
      | some name => if style = .plain && isNothing text then ProviderKind.ofName? name else none
  | _ => none

/-- The node a reference means, or the node itself. -/
def resolve (d : Document) : Tree → Option Tree
  | .reference id => Assoc.find? id d.nodes
  | t => some t

/-- Whether a node was left empty. -/
def isEmptyNode : Tree → Bool
  | .scalar text style _ => style = .plain && text.isEmpty
  | _ => false

/-- A list of kinds of provider. -/
def kinds? (d : Document) : Tree → Option (List ProviderKind)
  | .sequence _ items => items.mapM fun t => (resolve d t).bind kind?
  | t => if isEmptyNode t then some [] else none

/-- The name of a setting. -/
def settingName? : Tree → Option String
  | .scalar text _ _ => some text
  | _ => none

/-! ## Settings -/

/-- Settings read so far, and the names they came under. -/
structure Draft where
  config : Config := {}
  named : List String := []

/-- Read one more setting. -/
def Draft.add (d : Document) (draft : Draft) (e : Tree × Tree) : Option Draft := do
  let name ← (resolve d e.1).bind settingName?
  let t ← resolve d e.2
  if name ∈ draft.named then none
  else
    let c := draft.config
    let config ←
      match name with
      | "default_provider" => (kind? t).map fun k => { c with defaultProvider := k }
      | "max_api_version" => (limit? t).map fun v => { c with newest? := v }
      | "providers" => (kinds? d t).map fun ks => { c with providers := ks }
      | _ => none
    pure { config, named := name :: draft.named }

/-- The settings of a document. -/
def ofDocument? (d : Document) : Option Config := do
  match ← resolve d d.root with
  | .mapping _ entries => (entries.foldlM (Draft.add d) {}).map (·.config)
  | t => if isEmptyNode t then some {} else none

/-! ## Texts -/

/-- Settings that are not out of range. -/
def validated (c : Config) : Except SessionError Config :=
  match c.validate with
  | .ok _ => .ok c
  | .error fault => .error (.config fault)

/-- The settings of a text. -/
def ofText (text : String) : Except SessionError Config :=
  match Document.ofText? text with
  | none => .error .unreadable
  | some none => validated {}
  | some (some d) =>
      match ofDocument? d with
      | none => .error .unreadable
      | some c => validated c

/-- The settings of a file. -/
def ofBytes (bytes : List UInt8) : Except SessionError Config :=
  match String.fromUTF8? ⟨bytes.toArray⟩ with
  | none => .error .noText
  | some text => ofText text

end OpGraph.Config
