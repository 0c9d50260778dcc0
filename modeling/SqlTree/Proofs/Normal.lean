import SqlTree.Tree.Basic

/-!
The tree that a query stands for.

Some trees are written alike: `DISTINCT` applied to an expression is a call of a function of
that name, an empty select list is a wildcard, and a property is an alias where it is written
and nothing where it is not. The normal form of a tree chooses one tree for each of these.
-/

namespace SqlTree

namespace Normal

/-- What an empty select list stands for. -/
def wildcards : Option Source → List Expr → List Expr
  | _, _ :: _ => []
  | some (.table t), [] => [.wildcard (some t.reference)]
  | some (.subquery ..), [] => [.wildcard none]
  | none, [] => []

/-- In a select list a property is an alias if it differs from the name. -/
def item (e normal : Expr) : Expr :=
  match e with
  | .column c =>
    match c.distinctProperty? with
    | none => normal
    | some p => .aliased normal p
  | _ => normal

end Normal

mutual

/-- A property leaves no trace outside of a select list. -/
def Expr.normal : Expr → Expr
  | .column c => .column { c with property? := none }
  | .literal v => .literal v
  | .wildcard table? => .wildcard table?
  | .binary op l r => .binary op l.normal r.normal
  | .unary .distinct e => .call "DISTINCT" [e.normal]
  | .unary op e => .unary op e.normal
  | .call f args => .call f (Expr.normalAll args)
  | .aliased e a => .aliased e.normal a
  | .member e items negated => .member e.normal (Expr.normalAll items) negated
  | .subquery s => .subquery s.normal

def Expr.normalAll : List Expr → List Expr
  | [] => []
  | e :: es => e.normal :: Expr.normalAll es

def Expr.normalItems : List Expr → List Expr
  | [] => []
  | e :: es => Normal.item e e.normal :: Expr.normalItems es

def Expr.normalOption : Option Expr → Option Expr
  | none => none
  | some e => some e.normal

def Select.normal : Select → Select
  | ⟨distinct, items, source?, filter?, groups, having?, orders, limit?, offset?⟩ =>
    ⟨distinct, Normal.wildcards source? items ++ Expr.normalItems items,
      Source.normalOption source?, Expr.normalOption filter?, Expr.normalAll groups,
      Expr.normalOption having?, OrderItem.normalAll orders, limit?, offset?⟩

def Source.normal : Source → Source
  | .table t => .table t
  | .subquery s a => .subquery s.normal a

def Source.normalOption : Option Source → Option Source
  | none => none
  | some x => some x.normal

def OrderItem.normalAll : List OrderItem → List OrderItem
  | [] => []
  | ⟨e, direction?⟩ :: os => ⟨e.normal, direction?⟩ :: OrderItem.normalAll os

end

theorem Expr.normal_unary (op : UnaryOp) (e : Expr) (h : op ≠ .distinct) :
    (Expr.unary op e).normal = .unary op e.normal := by
  rw [Expr.normal]
  exact h

def Root.normal : Root → Root
  | .expr e => .expr e.normal
  | .select s => .select s.normal

end SqlTree
