import SqlTree.Operator
import SqlTree.Value

/-!
Dialects, and the four that come with the library. A dialect says how identifiers are quoted,
which mark stands for a parameter, how operators are spelled and how values are written inline.
What it leaves out is standard SQL.
-/

namespace SqlTree

/-! ### Placeholders

The marks that stand in a statement for its parameters: either a lead and a running number, or
the same mark every time.
-/

inductive Placeholder where
  | numbered (lead : String) (first : Nat)
  | unnumbered (mark : String)

/-- The mark of the parameter at a position, counted from zero. -/
def Placeholder.mark : Placeholder → Nat → String
  | .numbered lead first, position => lead ++ toString (first + position)
  | .unnumbered mark, _ => mark

/-- Starting later is the same as standing further on. -/
theorem Placeholder.mark_numbered_add (lead : String) (first k position : Nat) :
    mark (.numbered lead (first + k)) position = mark (.numbered lead first) (k + position) := by
  simp only [mark, Nat.add_assoc]

/-! ### Dialects -/

structure Dialect where
  name : String
  quote : Char := '"'
  placeholder : Placeholder := .unnumbered "?"
  /-- The token of a binary operator, or `none` if the dialect has no such operator. -/
  token? : BinaryOp → Option String := BinaryOp.standardToken?
  /-- A quote inside an identifier is written twice. -/
  quoteName : String → String := Text.enclose quote
  inline : Value → String := Value.inline

/-! ### Built-in dialects

A name of a dialect that is given by a person may be an alias and may be written in any ASCII
case; a name in a configuration is one of the four exact ones.
-/

namespace Dialect

def generic : Dialect where
  name := "generic"

def postgres : Dialect where
  name := "postgres"
  placeholder := .numbered "$" 1
  token?
    | .ilike => some "ILIKE"
    | .notIlike => some "NOT ILIKE"
    | .regex => some "~"
    | .iregex => some "~*"
    | .notRegex => some "!~"
    | .notIregex => some "!~*"
    | op => op.standardToken?
  inline
    | .blob bytes => quoteText ("\\x" ++ Hex.encode bytes)
    | v => v.inline

/-- Doubled bars mean disjunction here, so there is no operator for concatenation. A backslash
in a text literal starts an escape and is therefore doubled. -/
def mysql : Dialect where
  name := "mysql"
  quote := '`'
  token?
    | .regex => some "REGEXP"
    | .notRegex => some "NOT REGEXP"
    | .concat => none
    | op => op.standardToken?
  inline
    | .text s => quoteText (String.ofList (Text.double '\\' s.toList))
    | v => v.inline

/-- Truth values are numbers. -/
def sqlite : Dialect where
  name := "sqlite"
  placeholder := .numbered "$" 1
  inline
    | .bool b => if b then "1" else "0"
    | v => v.inline

end Dialect

inductive Builtin where
  | generic | postgres | mysql | sqlite
  deriving DecidableEq

/-- A name that belongs to no dialect. -/
inductive NameError where
  /-- Given by a person. -/
  | unknown (name : String)
  /-- Found in a configuration. -/
  | notExact (name : String)
  deriving DecidableEq

namespace Builtin

instance : Inhabited Builtin := ⟨postgres⟩

def all : List Builtin := [generic, postgres, mysql, sqlite]

theorem mem_all (b : Builtin) : b ∈ all := by
  cases b <;> simp [all]

def name : Builtin → String
  | generic => "generic"
  | postgres => "postgres"
  | mysql => "mysql"
  | sqlite => "sqlite"

instance : ToString Builtin := ⟨name⟩

def dialect : Builtin → Dialect
  | generic => .generic
  | postgres => .postgres
  | mysql => .mysql
  | sqlite => .sqlite

/-- The names that a dialect answers to, in lower case. -/
def names : Builtin → List String
  | generic => ["generic", "ansi"]
  | postgres => ["postgres", "postgresql", "pg"]
  | mysql => ["mysql", "mariadb"]
  | sqlite => ["sqlite", "sqlite3"]

def ofName (s : String) : Except NameError Builtin :=
  match all.find? fun b => b.names.contains (Text.lower s) with
  | some b => .ok b
  | none => .error (.unknown s)

def ofConfig (s : String) : Except NameError Builtin :=
  match all.find? fun b => b.name == s with
  | some b => .ok b
  | none => .error (.notExact s)

@[simp] theorem name_dialect (b : Builtin) : b.dialect.name = b.name := by
  cases b <;> rfl

@[simp] theorem ofConfig_name (b : Builtin) : ofConfig b.name = .ok b := by
  cases b <;> rfl

end Builtin

def NameError.message : NameError → String
  | unknown name => "unknown dialect: " ++ name
  | notExact name =>
    "unknown variant `" ++ name ++ "`, expected one of `generic`, `postgres`, `mysql`, `sqlite`"

/-- The dialect of a name or alias. -/
def Dialect.ofName (s : String) : Except NameError Dialect :=
  (Builtin.ofName s).map Builtin.dialect

end SqlTree
