import Mathlib.Tactic.Lemma
import SqlTree.Dialect.Builtin
import SqlTree.Query.Basic
import SqlTree.Tree.Basic

/-!
All faults of a tree in one dialect, in the order in which a reader from left to right comes
upon them.

A node is answerable for its own names and operator, and the order of its checks differs from
node to node: an operator comes before its operands, an alias after the expression that it
names. An `IN` without members and a statement without a select list and a source are faulty as
a whole, and nothing inside them counts.
-/

namespace SqlTree

def NameRole.faults (role : NameRole) (s : String) : List Fault :=
  if s = "" then [.malformed (.emptyName role)] else []

def BinaryOp.faults (d : Dialect) (op : BinaryOp) : List Fault :=
  if d.token? op = none then [.unsupported op d.name] else []

namespace Fault

def ofQualifier : Option String → List Fault
  | none => []
  | some table => NameRole.table.faults table

def ofColumn (c : ColumnRef) : List Fault := ofQualifier c.table? ++ NameRole.column.faults c.name

/-- A property is looked at in a select list only, and only if it is not the name itself. -/
def ofProperty : Expr → List Fault
  | .column c =>
    if c.property? = some "" ∧ c.name ≠ "" then [.malformed (.emptyName .property)] else []
  | _ => []

def ofTable (t : Table) : List Fault :=
  NameRole.table.faults t.name ++
    match t.alias? with
    | none => []
    | some a => NameRole.aliasName.faults a

/-- An empty select list stands for the columns of the table, which it refers to by name. -/
def ofAllColumns : Option Source → List Expr → List Fault
  | some (.table t), [] => NameRole.table.faults t.reference
  | _, _ => []

end Fault

mutual

def Expr.faults (d : Dialect) : Expr → List Fault
  | .column c => Fault.ofColumn c
  | .literal _ => []
  | .wildcard table? => Fault.ofQualifier table?
  | .binary op l r => op.faults d ++ (l.faults d ++ r.faults d)
  | .unary _ e => e.faults d
  | .call f args => NameRole.function.faults f ++ Expr.faultsAll d args
  | .aliased e a => e.faults d ++ NameRole.aliasName.faults a
  | .member _ [] _ => [.malformed .emptyInList]
  | .member e items _ => e.faults d ++ Expr.faultsAll d items
  | .subquery s => s.faults d

def Expr.faultsAll (d : Dialect) : List Expr → List Fault
  | [] => []
  | e :: es => e.faults d ++ Expr.faultsAll d es

def Expr.faultsItems (d : Dialect) : List Expr → List Fault
  | [] => []
  | e :: es => e.faults d ++ (Fault.ofProperty e ++ Expr.faultsItems d es)

def Expr.faultsOption (d : Dialect) : Option Expr → List Fault
  | none => []
  | some e => e.faults d

def Select.faults (d : Dialect) : Select → List Fault
  | ⟨_, [], none, _, _, _, _, _, _⟩ => [.malformed .emptySelect]
  | ⟨_, items, source?, filter?, groups, having?, orders, _, _⟩ =>
    Fault.ofAllColumns source? items ++ (Expr.faultsItems d items ++
      (Source.faultsOption d source? ++ (Expr.faultsOption d filter? ++
      (Expr.faultsAll d groups ++ (Expr.faultsOption d having? ++
      OrderItem.faultsAll d orders)))))

def Source.faults (d : Dialect) : Source → List Fault
  | .table t => Fault.ofTable t
  | .subquery s a => s.faults d ++ NameRole.aliasName.faults a

def Source.faultsOption (d : Dialect) : Option Source → List Fault
  | none => []
  | some x => x.faults d

def OrderItem.faultsAll (d : Dialect) : List OrderItem → List Fault
  | [] => []
  | ⟨e, _⟩ :: os => e.faults d ++ OrderItem.faultsAll d os

end

def Root.faults (d : Dialect) : Root → List Fault
  | .expr e => e.faults d
  | .select s => s.faults d

/-! ### Trees without faults -/

variable {d : Dialect}

lemma BinaryOp.token_of_faults {op : BinaryOp} (h : op.faults d = []) :
    ∃ s, d.token? op = some s := by
  cases hs : d.token? op with
  | none => simp [BinaryOp.faults, hs] at h
  | some s => exact ⟨s, rfl⟩

lemma Expr.faults_of_member {e : Expr} {items : List Expr} {negated : Bool}
    (h : (Expr.member e items negated).faults d = []) :
    e.faults d = [] ∧ Expr.faultsAll d items = [] := by
  cases items with
  | nil => simp [Expr.faults] at h
  | cons x xs => simpa [Expr.faults] using h

lemma Select.faults_parts {distinct : Bool} {items groups : List Expr} {source? : Option Source}
    {filter? having? : Option Expr} {orders : List OrderItem} {limit? offset? : Option Nat}
    (h : (Select.mk distinct items source? filter? groups having? orders limit? offset?).faults d =
      []) :
    (items ≠ [] ∨ source? ≠ none) ∧ Expr.faultsItems d items = [] ∧
      Source.faultsOption d source? = [] ∧ Expr.faultsOption d filter? = [] ∧
      Expr.faultsAll d groups = [] ∧ Expr.faultsOption d having? = [] ∧
      OrderItem.faultsAll d orders = [] := by
  cases items <;> cases source? <;> simp [Select.faults] at h ⊢
  all_goals exact h.2

end SqlTree
