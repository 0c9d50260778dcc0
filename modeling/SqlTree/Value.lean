import SqlTree.Decimal
import SqlTree.Text

/-!
Literal values. Each literal of a tree becomes one parameter of the query, so these are also
the values that a parameter list holds.
-/

namespace SqlTree

inductive Value where
  | null
  | bool (b : Bool)
  | int (n : Int64)
  | float (x : Binary64)
  | text (s : String)
  | blob (bytes : ByteArray)

namespace Value

/-- Values of different kinds are never equal, and floats are compared as numbers. -/
def equal : Value → Value → Bool
  | .null, .null => true
  | .bool a, .bool b => a == b
  | .int a, .int b => a == b
  | .float a, .float b => a == b
  | .text a, .text b => a == b
  | .blob a, .blob b => a == b
  | _, _ => false

instance : BEq Value := ⟨equal⟩

end Value

/-- Host values that can stand as literals. -/
class ToValue (α : Type) where
  toValue : α → Value

export ToValue (toValue)

instance : ToValue Value := ⟨id⟩
instance : ToValue Bool := ⟨.bool⟩
instance : ToValue Int64 := ⟨.int⟩
instance : ToValue Int32 := ⟨fun n => .int n.toInt64⟩
instance : ToValue Int16 := ⟨fun n => .int n.toInt64⟩
instance : ToValue Int8 := ⟨fun n => .int n.toInt64⟩
instance : ToValue UInt32 := ⟨fun n => .int n.toUInt64.toInt64⟩
instance : ToValue UInt16 := ⟨fun n => .int n.toUInt64.toInt64⟩
instance : ToValue UInt8 := ⟨fun n => .int n.toUInt64.toInt64⟩
instance : ToValue Binary64 := ⟨.float⟩
instance : ToValue Float := ⟨fun x => .float (.ofFloat x)⟩
instance : ToValue Float32 := ⟨fun x => .float (.ofFloat32 x)⟩
instance : ToValue String := ⟨.text⟩
instance : ToValue ByteArray := ⟨.blob⟩

/-- Something missing is null, also inside something that may be missing. -/
instance {α : Type} [ToValue α] : ToValue (Option α) where
  toValue
    | some a => toValue a
    | none => .null

@[simp] theorem toValue_self (v : Value) : toValue v = v := rfl

@[simp] theorem toValue_none {α : Type} [ToValue α] : toValue (none : Option α) = .null := rfl

@[simp] theorem toValue_some {α : Type} [ToValue α] (a : α) : toValue (some a) = toValue a := rfl

/-! ### Values inline

The values in the text of a statement, as standard SQL spells them. This form is for people to
read; a statement that is executed carries its values as parameters.
-/

/-- A text literal: single quotes around it, and each one inside it doubled. -/
def quoteText (s : String) : String := Text.enclose '\'' s

/-- Floats are written without an exponent and a whole one without a point; a half goes up. -/
def plainNumber : NumberFormat := ⟨.away, fun _ => true, false⟩

/-- A number that has no digits is written as a quoted word. -/
def inlineFloat (x : Binary64) : String :=
  if x.isNaN then quoteText "NaN"
  else if x.isInfinite then quoteText (if x.negative then "-Infinity" else "Infinity")
  else x.format plainNumber

def Value.inline : Value → String
  | .null => "NULL"
  | .bool b => if b then "TRUE" else "FALSE"
  | .int n => toString n.toInt
  | .float x => inlineFloat x
  | .text s => quoteText s
  | .blob bytes => "X" ++ quoteText (Hex.encode bytes)

end SqlTree
