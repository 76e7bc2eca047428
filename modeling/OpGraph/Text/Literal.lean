import OpGraph.Text.Unmarked

/-!
# `Text.Literal` — how values are written inside diagnostics

Strings are quoted, lists are bracketed, records name their fields. The quoting rule: `"` and `\` take a
backslash, four control characters take a sign of their own, and every other character that leaves
no mark of its own is spelled as its hexadecimal code point. All else stands for itself.
-/

namespace OpGraph.Text

/-- Lower-case hexadecimal digits of `n`, without leading zeros. -/
def hex (n : Nat) : List Char := Nat.toDigits 16 n

/-- One character as it stands between quotes. -/
def escape (c : Char) : List Char :=
  if c = '"' then ['\\', '"']
  else if c = '\\' then ['\\', '\\']
  else if c = '\n' then ['\\', 'n']
  else if c = '\r' then ['\\', 'r']
  else if c = '\t' then ['\\', 't']
  else if c = '\x00' then ['\\', '0']
  else if isUnmarked c then ['\\', 'u', '\x7b'] ++ hex c.toNat ++ ['\x7d']
  else [c]

/-- A string between double quotes. -/
def quoted (s : String) : String :=
  String.ofList (['"'] ++ s.toList.flatMap escape ++ ['"'])

/-- Items between square brackets. -/
def listing (items : List String) : String := "[" ++ ", ".intercalate items ++ "]"

/-- A record: its name, then its fields in order. -/
def record (name : String) (fields : List (String × String)) : String :=
  name ++ " \x7b " ++ ", ".intercalate (fields.map fun (k, v) => k ++ ": " ++ v) ++ " \x7d"

/-- A constructor applied to one value. -/
def applied (name argument : String) : String := name ++ "(" ++ argument ++ ")"

/-- A list of numbers. -/
def numbers (ns : List Nat) : String := listing (ns.map toString)

/-- A list of strings. -/
def strings (ss : List String) : String := listing (ss.map quoted)

/-- A truth value. -/
def bool (b : Bool) : String := if b then "true" else "false"

/-- A number with its English ordinal suffix. The teens take `th`. -/
def ordinal (n : Nat) : String :=
  let suffix :=
    if n % 100 = 11 || n % 100 = 12 || n % 100 = 13 then "th"
    else if n % 10 = 1 then "st"
    else if n % 10 = 2 then "nd"
    else if n % 10 = 3 then "rd"
    else "th"
  toString n ++ suffix

end OpGraph.Text
