import SqlTree.Query.Draft
import SqlTree.Tree.Basic

/-!
Trees written as SQL, in one pass from left to right. Operators are always parenthesized, so
no dialect's precedence matters. Each clause is written after a lead, its keyword or a comma;
an absent clause writes nothing.
-/

namespace SqlTree

open Write

namespace Render

/-- A name and the dot that ties it to the next one, if there is a name. -/
def qualifier (d : Dialect) : Option String → Write Unit
  | none => pure ()
  | some table => do
    name d .table table
    push "."

def column (d : Dialect) (c : ColumnRef) : Write Unit := do
  qualifier d c.table?
  name d .column c.name

/-- A column in a select list is renamed to the property it is known by. -/
def propertyName (d : Dialect) : Expr → Write Unit
  | .column c =>
    match c.distinctProperty? with
    | none => pure ()
    | some p => do
      push " AS "
      name d .property p
  | _ => pure ()

/-- Two signs in a row would begin a comment in the display. -/
def signGap (d : Dialect) : Expr → Write Unit
  | .literal v => if (d.inline v).toList.head? = some '-' then pad else pure ()
  | _ => pure ()

def table (d : Dialect) (t : Table) : Write Unit := do
  name d .table t.name
  match t.alias? with
  | none => pure ()
  | some a => do
    push " AS "
    name d .aliasName a

/-- An empty select list takes all columns, those of the table if the source is one. -/
def allColumns (d : Dialect) : Option Source → List Expr → Write Unit
  | some (.table t), [] => do
    name d .table t.reference
    push ".*"
  | _, [] => push "*"
  | _, _ :: _ => pure ()

def direction : Option Direction → Write Unit
  | none => pure ()
  | some x => do
    push " "
    push x.token

/-- A number after its keyword. -/
def number (lead : String) : Option Nat → Write Unit
  | none => pure ()
  | some n => push (lead ++ toString n)

end Render

open Render

mutual

def Expr.render (d : Dialect) : Expr → Write Unit
  | .column c => column d c
  | .literal v => value d v
  | .wildcard table? => do
    qualifier d table?
    push "*"
  | .binary op l r => do
    let token ← token d op
    push "("
    l.render d
    push " "
    push token
    push " "
    r.render d
    push ")"
  | .unary .distinct e => do
    push "DISTINCT("
    e.render d
    push ")"
  | .unary .not e => do
    push "(NOT "
    e.render d
    push ")"
  | .unary .neg e => do
    push "(-"
    signGap d e
    e.render d
    push ")"
  | .unary .isNull e => do
    push "("
    e.render d
    push " IS NULL)"
  | .unary .isNotNull e => do
    push "("
    e.render d
    push " IS NOT NULL)"
  | .call f args => do
    require (f != "") (.emptyName .function)
    push f
    push "("
    Expr.renderAll d "" args
    push ")"
  | .aliased e a => do
    e.render d
    push " AS "
    name d .aliasName a
  | .member e items negated => do
    require (!items.isEmpty) .emptyInList
    push "("
    e.render d
    push (if negated then " NOT IN (" else " IN (")
    -- a sub-select that is the only member needs no parentheses of its own
    (match items with
      | [.subquery s] => s.render d
      | items => Expr.renderAll d "" items)
    push "))"
  | .subquery s => do
    push "("
    s.render d
    push ")"

/-- Writes the lead before the first expression and a comma before every other. -/
def Expr.renderAll (d : Dialect) (lead : String) : List Expr → Write Unit
  | [] => pure ()
  | e :: es => do
    push lead
    e.render d
    Expr.renderAll d ", " es

def Expr.renderItems (d : Dialect) (lead : String) : List Expr → Write Unit
  | [] => pure ()
  | e :: es => do
    push lead
    e.render d
    propertyName d e
    Expr.renderItems d ", " es

/-- A condition after its keyword. -/
def Expr.renderOption (d : Dialect) (lead : String) : Option Expr → Write Unit
  | none => pure ()
  | some e => do
    push lead
    e.render d

def Select.render (d : Dialect) : Select → Write Unit
  | ⟨distinct, items, source?, filter?, groups, having?, orders, limit?, offset?⟩ => do
    require (!items.isEmpty || source?.isSome) .emptySelect
    push "SELECT "
    push (if distinct then "DISTINCT " else "")
    allColumns d source? items
    Expr.renderItems d "" items
    Source.renderOption d source?
    Expr.renderOption d " WHERE " filter?
    Expr.renderAll d " GROUP BY " groups
    Expr.renderOption d " HAVING " having?
    OrderItem.renderAll d " ORDER BY " orders
    number " LIMIT " limit?
    number " OFFSET " offset?

def Source.render (d : Dialect) : Source → Write Unit
  | .table t => table d t
  | .subquery s a => do
    push "("
    s.render d
    push ") AS "
    name d .aliasName a

def Source.renderOption (d : Dialect) : Option Source → Write Unit
  | none => pure ()
  | some x => do
    push " FROM "
    x.render d

def OrderItem.renderAll (d : Dialect) (lead : String) : List OrderItem → Write Unit
  | [] => pure ()
  | ⟨e, direction?⟩ :: os => do
    push lead
    e.render d
    direction direction?
    OrderItem.renderAll d ", " os

end

/-! ### Compiling

Each compilation starts from an empty draft, so the same tree always gives the same query; on a
fault nothing of the draft is left but its log.
-/

structure Compilation where
  outcome : Except Fault Query
  events : Array Event

def Root.render (d : Dialect) : Root → Write Unit
  | .expr e => e.render d
  | .select s => s.render d

def Draft.query (draft : Draft) : Query := ⟨draft.text, draft.display, draft.params⟩

def compile (d : Dialect) (root : Root) : Compilation :=
  match root.render d { log := #[.compiling d.name] } with
  | .ok _ draft => ⟨.ok draft.query, draft.log.push (.compiled d.name draft.params.size)⟩
  | .error fault draft => ⟨.error fault, draft.log⟩

/-- The query of a tree, or the first fault met on the way from left to right. -/
def Root.toQuery (root : Root) (d : Dialect) : Except Fault Query := (compile d root).outcome

def Expr.toQuery (e : Expr) (d : Dialect) : Except Fault Query := (Root.expr e).toQuery d

def Select.toQuery (s : Select) (d : Dialect) : Except Fault Query := (Root.select s).toQuery d

end SqlTree
