import SqlTree.Tree.Basic

/-!
Structural equality of trees. Literals are compared as values, so that a tree that holds a NaN
differs from itself, and the two zeros can stand for each other.
-/

namespace SqlTree

mutual

def Expr.equal : Expr → Expr → Bool
  | .column a, .column b => a == b
  | .literal a, .literal b => a == b
  | .wildcard a, .wildcard b => a == b
  | .binary op l r, .binary op' l' r' => op == op' && l.equal l' && r.equal r'
  | .unary op e, .unary op' e' => op == op' && e.equal e'
  | .call f args, .call f' args' => f == f' && Expr.equalAll args args'
  | .aliased e name, .aliased e' name' => e.equal e' && name == name'
  | .member e items n, .member e' items' n' =>
    e.equal e' && Expr.equalAll items items' && n == n'
  | .subquery s, .subquery s' => s.equal s'
  | _, _ => false
termination_by structural e => e

def Expr.equalAll : List Expr → List Expr → Bool
  | [], [] => true
  | e :: es, e' :: es' => e.equal e' && Expr.equalAll es es'
  | _, _ => false
termination_by structural es => es

def Expr.equalOption : Option Expr → Option Expr → Bool
  | none, none => true
  | some e, some e' => e.equal e'
  | _, _ => false
termination_by structural e? => e?

def Select.equal : Select → Select → Bool
  | ⟨distinct, items, source?, filter?, groups, having?, orders, limit?, offset?⟩, s =>
    distinct == s.distinct && Expr.equalAll items s.items &&
      Source.equalOption source? s.source? && Expr.equalOption filter? s.filter? &&
      Expr.equalAll groups s.groups && Expr.equalOption having? s.having? &&
      OrderItem.equalAll orders s.orders && limit? == s.limit? && offset? == s.offset?
termination_by structural s => s

def Source.equal : Source → Source → Bool
  | .table t, .table t' => t == t'
  | .subquery s name, .subquery s' name' => s.equal s' && name == name'
  | _, _ => false
termination_by structural x => x

def Source.equalOption : Option Source → Option Source → Bool
  | none, none => true
  | some x, some x' => x.equal x'
  | _, _ => false
termination_by structural x? => x?

def OrderItem.equal : OrderItem → OrderItem → Bool
  | ⟨e, direction?⟩, o => e.equal o.expr && direction? == o.direction?
termination_by structural o => o

def OrderItem.equalAll : List OrderItem → List OrderItem → Bool
  | [], [] => true
  | o :: os, o' :: os' => o.equal o' && OrderItem.equalAll os os'
  | _, _ => false
termination_by structural os => os

end

instance : BEq Expr := ⟨Expr.equal⟩
instance : BEq Select := ⟨Select.equal⟩

end SqlTree
