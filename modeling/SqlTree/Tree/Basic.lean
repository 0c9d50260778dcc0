import SqlTree.Operator
import SqlTree.Value

/-!
Expressions and `SELECT` statements. The two contain each other: a statement stands in an
expression as a sub-select and as a source, and its clauses hold expressions. Nothing here
depends on a dialect, and a tree may be faulty; faults are found when it is compiled.
-/

namespace SqlTree

/-- A table and the name that a statement gives it. -/
structure Table where
  name : String
  alias? : Option String := none
  deriving DecidableEq

/-- The name by which columns of the table are qualified. -/
def Table.reference (t : Table) : String := t.alias?.getD t.name

/-- A column. The property is the name under which the caller knows it. -/
structure ColumnRef where
  name : String
  table? : Option String := none
  property? : Option String := none
  deriving DecidableEq

/-- The property, where it says something that the name does not. -/
def ColumnRef.distinctProperty? (c : ColumnRef) : Option String :=
  c.property?.filter (· != c.name)

mutual

inductive Expr where
  | column (ref : ColumnRef)
  | literal (value : Value)
  | wildcard (table? : Option String)
  | binary (op : BinaryOp) (left right : Expr)
  | unary (op : UnaryOp) (operand : Expr)
  /-- The function's name is written as it stands. -/
  | call (function : String) (args : List Expr)
  | aliased (expr : Expr) (name : String)
  | member (tested : Expr) (items : List Expr) (negated : Bool)
  | subquery (select : Select)

/-- A clause is absent if its list is empty or its option is `none`. -/
structure Select where
  distinct : Bool := false
  items : List Expr := []
  source? : Option Source := none
  filter? : Option Expr := none
  groups : List Expr := []
  having? : Option Expr := none
  orders : List OrderItem := []
  limit? : Option Nat := none
  offset? : Option Nat := none

inductive Source where
  | table (table : Table)
  | subquery (select : Select) (name : String)

/-- Without a direction the database chooses. -/
structure OrderItem where
  expr : Expr
  direction? : Option Direction := none

end

/-- What can be compiled on its own. -/
inductive Root where
  | expr (e : Expr)
  | select (s : Select)

instance : Coe Expr Root := ⟨.expr⟩
instance : Coe Select Root := ⟨.select⟩

@[simp] theorem Table.reference_of_alias (name a : String) :
    Table.reference ⟨name, some a⟩ = a := rfl

@[simp] theorem Table.reference_of_none (name : String) :
    Table.reference ⟨name, none⟩ = name := rfl

theorem ColumnRef.distinctProperty?_eq_some_iff {c : ColumnRef} {p : String} :
    c.distinctProperty? = some p ↔ c.property? = some p ∧ p ≠ c.name := by
  simp [distinctProperty?, Option.filter_eq_some_iff]

end SqlTree
