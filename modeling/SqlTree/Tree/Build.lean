import SqlTree.Tree.Basic

/-!
Building trees. Expressions are combined by named operators, and a statement grows clause by
clause in any order: the select list, groups and orders are appended to, conditions are joined
by `AND`, and a source, limit or offset replaces the one before.
-/

namespace SqlTree

namespace Expr

/-- A host value as a literal. -/
def lit {α : Type} [ToValue α] (a : α) : Expr := .literal (toValue a)

instance : Coe Value Expr := ⟨.literal⟩

def null : Expr := .literal .null

/-- A column of no particular table. -/
def col (name : String) : Expr := .column { name }

/-- Every column of every source. -/
def star : Expr := .wildcard none

def plus (l r : Expr) : Expr := .binary .add l r
def minus (l r : Expr) : Expr := .binary .sub l r
def multiply (l r : Expr) : Expr := .binary .mul l r
def divide (l r : Expr) : Expr := .binary .div l r
def modulo (l r : Expr) : Expr := .binary .mod l r
def eq (l r : Expr) : Expr := .binary .eq l r
def notEq (l r : Expr) : Expr := .binary .notEq l r
def lt (l r : Expr) : Expr := .binary .lt l r
def ltEq (l r : Expr) : Expr := .binary .ltEq l r
def gt (l r : Expr) : Expr := .binary .gt l r
def gtEq (l r : Expr) : Expr := .binary .gtEq l r
def and (l r : Expr) : Expr := .binary .and l r
def or (l r : Expr) : Expr := .binary .or l r
def concat (l r : Expr) : Expr := .binary .concat l r
def like (l pattern : Expr) : Expr := .binary .like l pattern
def notLike (l pattern : Expr) : Expr := .binary .notLike l pattern
def ilike (l pattern : Expr) : Expr := .binary .ilike l pattern
def notIlike (l pattern : Expr) : Expr := .binary .notIlike l pattern
def regex (l pattern : Expr) : Expr := .binary .regex l pattern
def iregex (l pattern : Expr) : Expr := .binary .iregex l pattern
def notRegex (l pattern : Expr) : Expr := .binary .notRegex l pattern
def notIregex (l pattern : Expr) : Expr := .binary .notIregex l pattern

instance : Add Expr := ⟨plus⟩
instance : Sub Expr := ⟨minus⟩
instance : Mul Expr := ⟨multiply⟩
instance : Div Expr := ⟨divide⟩
instance : Mod Expr := ⟨modulo⟩
instance : Neg Expr := ⟨.unary .neg⟩

def not (e : Expr) : Expr := .unary .not e
def distinct (e : Expr) : Expr := .unary .distinct e
def isNull (e : Expr) : Expr := .unary .isNull e
def isNotNull (e : Expr) : Expr := .unary .isNotNull e

def inList (e : Expr) (items : List Expr) : Expr := .member e items false
def notInList (e : Expr) (items : List Expr) : Expr := .member e items true

end Expr

namespace OrderItem

def asc (e : Expr) : OrderItem := ⟨e, some .asc⟩
def desc (e : Expr) : OrderItem := ⟨e, some .desc⟩

end OrderItem

namespace Select

/-- One step in the growth of a statement. -/
inductive Step where
  | column (e : Expr)
  | columns (es : List Expr)
  | distinct
  | source (x : Source)
  | filter (p : Expr)
  | groupBy (es : List Expr)
  | having (p : Expr)
  | orderBy (o : OrderItem)
  | limit (n : Nat)
  | offset (n : Nat)

/-- A further condition is joined to the one that is there. -/
def conjoin (current? : Option Expr) (p : Expr) : Expr :=
  match current? with
  | none => p
  | some q => q.and p

def step (s : Select) : Step → Select
  | .column e => { s with items := s.items ++ [e] }
  | .columns es => { s with items := s.items ++ es }
  | .distinct => { s with distinct := true }
  | .source x => { s with source? := some x }
  | .filter p => { s with filter? := some (conjoin s.filter? p) }
  | .groupBy es => { s with groups := s.groups ++ es }
  | .having p => { s with having? := some (conjoin s.having? p) }
  | .orderBy o => { s with orders := s.orders ++ [o] }
  | .limit n => { s with limit? := some n }
  | .offset n => { s with offset? := some n }

/-- Takes the steps in order. -/
def grow (s : Select) (steps : List Step) : Select := steps.foldl step s

end Select

namespace Table

/-- Columns, wildcards and statements of a table refer to it by its alias if it has one. -/
def col (t : Table) (name : String) : Expr :=
  .column { name, table? := some t.reference }

/-- A column that the caller knows as `property`. -/
def colAs (t : Table) (name property : String) : Expr :=
  .column { name, table? := some t.reference, property? := some property }

def star (t : Table) : Expr := .wildcard (some t.reference)

def select (t : Table) (items : List Expr) : Select :=
  { items, source? := some (.table t) }

/-- The same table under another alias. -/
def withAlias (t : Table) (a : String) : Table := { t with alias? := some a }

end Table

end SqlTree
