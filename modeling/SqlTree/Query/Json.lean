import SqlTree.Decimal
import SqlTree.Query.Basic

/-!
Queries as JSON, without blanks. Values carry no tag: null, truth values, numbers and texts are
JSON's own, and bytes are an array of numbers.
-/

namespace SqlTree.Json

/-- Only quotes, backslashes and control characters are escaped. -/
def escape (c : Char) : List Char :=
  match c with
  | '"' => ['\\', '"']
  | '\\' => ['\\', '\\']
  | '\x08' => ['\\', 'b']
  | '\t' => ['\\', 't']
  | '\n' => ['\\', 'n']
  | '\x0c' => ['\\', 'f']
  | '\r' => ['\\', 'r']
  | c =>
    if c.toNat < 32 then
      ['\\', 'u', '0', '0', Nat.digitChar (c.toNat / 16), Nat.digitChar (c.toNat % 16)]
    else [c]

def text (s : String) : String := String.ofList ('"' :: (s.toList.flatMap escape ++ ['"']))

/-- Floats always show a point or an exponent. Very small and very large ones have an exponent;
a half goes to the even neighbour. -/
def number : NumberFormat := ⟨.even, fun e => -5 ≤ e && e ≤ 15, true⟩

/-- JSON has no number that is not finite. -/
def float (x : Binary64) : String := if x.isFinite then x.format number else "null"

def array (items : List String) : String := "[" ++ ",".intercalate items ++ "]"

def value : Value → String
  | .null => "null"
  | .bool b => if b then "true" else "false"
  | .int n => toString n.toInt
  | .float x => float x
  | .text s => text s
  | .blob bytes => array (bytes.data.toList.map fun b => toString b.toNat)

def query (q : Query) : String :=
  "\x7b\"text\":" ++ text q.text ++ ",\"string\":" ++ text q.display ++ ",\"values\":" ++
    array (q.params.toList.map value) ++ "\x7d"

end SqlTree.Json
