import SqlTree.Dialect.Builtin
import SqlTree.Proofs.Outcome
import SqlTree.Proofs.Yield
import SqlTree.Tree.Build

/-!
The literals of a tree, and the parameters of its query.

A statement lists its clauses in an order of its own: the select list, the source, the
condition on rows, the groups, the condition on groups and the ordering. Limit and offset are
numbers of the statement and no literals.
-/

namespace SqlTree

mutual

def Expr.literals : Expr → List Value
  | .column _ => []
  | .literal v => [v]
  | .wildcard _ => []
  | .binary _ l r => l.literals ++ r.literals
  | .unary _ e => e.literals
  | .call _ args => Expr.literalsAll args
  | .aliased e _ => e.literals
  | .member e items _ => e.literals ++ Expr.literalsAll items
  | .subquery s => s.literals

def Expr.literalsAll : List Expr → List Value
  | [] => []
  | e :: es => e.literals ++ Expr.literalsAll es

def Expr.literalsOption : Option Expr → List Value
  | none => []
  | some e => e.literals

def Select.literals : Select → List Value
  | ⟨_, items, source?, filter?, groups, having?, orders, _, _⟩ =>
    Expr.literalsAll items ++ (Source.literalsOption source? ++ (Expr.literalsOption filter? ++
      (Expr.literalsAll groups ++ (Expr.literalsOption having? ++
      OrderItem.literalsAll orders))))

def Source.literals : Source → List Value
  | .table _ => []
  | .subquery s _ => s.literals

def Source.literalsOption : Option Source → List Value
  | none => []
  | some x => x.literals

def OrderItem.literalsAll : List OrderItem → List Value
  | [] => []
  | ⟨e, _⟩ :: os => e.literals ++ OrderItem.literalsAll os

end

def Root.literals : Root → List Value
  | .expr e => e.literals
  | .select s => s.literals

namespace Piece

@[simp] lemma values_qualifier (table? : Option String) : values (qualifier table?) = [] := by
  cases table? <;> rfl

@[simp] lemma values_column (c : ColumnRef) : values (column c) = [] := by
  simp [column, values]

@[simp] lemma values_property (e : Expr) : values (property e) = [] := by
  cases e with
  | column c => rw [property]; cases c.distinctProperty? <;> rfl
  | _ => rfl

@[simp] lemma values_table (t : Table) : values (table t) = [] := by
  obtain ⟨n, _ | a⟩ := t <;> rfl

@[simp] lemma values_allColumns (source? : Option Source) (items : List Expr) :
    values (allColumns source? items) = [] := by
  rcases source? with _ | (t | ⟨s, a⟩) <;> cases items <;> rfl

@[simp] lemma values_direction (x? : Option Direction) : values (direction x?) = [] := by
  cases x? <;> rfl

@[simp] lemma values_number (lead : String) (n? : Option Nat) : values (number lead n?) = [] := by
  cases n? <;> rfl

@[simp] lemma values_membership (negated : Bool) (ps : List Piece) :
    values (membership negated :: ps) = values ps := rfl

end Piece

open Piece

namespace Yield

def literals : Yield Value where
  expr := Expr.literals
  exprs := Expr.literalsAll
  items := Expr.literalsAll
  expr? := Expr.literalsOption
  select := Select.literals
  source := Source.literals
  source? := Source.literalsOption
  orders := OrderItem.literalsAll

/-- The literals are what the holes hold. -/
lemma literals_of : literals.Of values := by
  constructor <;> intros <;>
    simp [literals, Expr.literals, Expr.literalsAll, Expr.literalsOption, Select.literals,
      Source.literals, Source.literalsOption, OrderItem.literalsAll, values]

end Yield

namespace Root

lemma values_pieces (root : Root) : values root.pieces = root.literals := by
  cases root with
  | expr e => exact Expr.yield_pieces Yield.literals_of e fun _ _ => rfl
  | select s => exact Select.yield_pieces Yield.literals_of s fun _ _ => rfl

/-- **The parameters are the literals.** If a tree compiles, its parameters are its literals,
each occurrence once and in the order of the tree, and another dialect in which it compiles
has the same parameters for it. -/
theorem params_eq_literals {d : Dialect} {root : Root} {q : Query}
    (h : root.toQuery d = .ok q) :
    q.params.toList = root.literals ∧
      ∀ d' q', root.toQuery d' = .ok q' → q'.params = q.params := by
  have hparams : ∀ d' q', root.toQuery d' = .ok q' → q'.params = root.literals.toArray := by
    intro d' q' h'
    rw [eq_query_of_toQuery h', query, values_pieces]
  refine ⟨by rw [hparams d q h], fun d' q' h' => ?_⟩
  rw [hparams d' q' h', hparams d q h]

/-- A literal in every place where one can stand. -/
theorem params_eq_literals_nested :
    let inner : Select := { items := [.unary .neg (.lit (2 : Int64))], filter? := some (.lit true) }
    let s : Select :=
      { items := [.unary .neg (.lit (1 : Int64)), .subquery inner]
        source? := some (.subquery inner "t")
        filter? := some (.member (.lit "tested") [.subquery inner] true)
        groups := [.call "f" [.lit "arg", .null]]
        having? := some (.binary .gt (.lit "left") (.lit "right"))
        orders := [⟨.lit "order", some .desc⟩]
        limit? := some 3 }
    ∃ q, (Root.select s).toQuery .generic = .ok q ∧
      q.params.toList = [.int 1, .int 2, .bool true, .int 2, .bool true, .text "tested", .int 2,
        .bool true, .text "arg", .null, .text "left", .text "right", .text "order"] := by
  intro inner s
  have hq : (Root.select s).toQuery .generic = .ok ((Root.select s).query .generic) :=
    toQuery_of_sound (by decide)
  exact ⟨_, hq, (params_eq_literals hq).1⟩

end Root

end SqlTree
