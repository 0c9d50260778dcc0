import Mathlib.Tactic.Lemma
import SqlTree.Query.Compile

/-!
A tree as one list of pieces, the same for every dialect.

Rendering decides nothing but how a piece is spelled, so what a query consists of can be said
without a dialect: fragments of SQL that stand as they are, names to be quoted, operators, and
one hole for each literal. A dialect then turns the pieces into the text, with a mark in each
hole, and into the display, with the value in it.
-/

namespace SqlTree

inductive Piece where
  | raw (s : String)
  | name (s : String)
  | op (op : BinaryOp)
  /-- The place of a literal, and whether a minus sign stands directly before it. -/
  | hole (value : Value) (signed : Bool)

namespace Piece

def qualifier : Option String → List Piece
  | none => []
  | some table => [.name table, .raw "."]

def column (c : ColumnRef) : List Piece := qualifier c.table? ++ [.name c.name]

def property : Expr → List Piece
  | .column c =>
    match c.distinctProperty? with
    | none => []
    | some p => [.raw " AS ", .name p]
  | _ => []

def table (t : Table) : List Piece :=
  .name t.name ::
    match t.alias? with
    | none => []
    | some a => [.raw " AS ", .name a]

def allColumns : Option Source → List Expr → List Piece
  | some (.table t), [] => [.name t.reference, .raw ".*"]
  | _, [] => [.raw "*"]
  | _, _ :: _ => []

def direction : Option Direction → List Piece
  | none => []
  | some x => [.raw " ", .raw x.token]

def number (lead : String) : Option Nat → List Piece
  | none => []
  | some n => [.raw (lead ++ toString n)]

def membership (negated : Bool) : Piece := .raw (if negated then " NOT IN (" else " IN (")

end Piece

mutual

/-- The pieces of an expression that stands directly after a minus sign, or does not. -/
def Expr.pieces (signed : Bool) : Expr → List Piece
  | .column c => Piece.column c
  | .literal v => [.hole v signed]
  | .wildcard table? => Piece.qualifier table? ++ [.raw "*"]
  | .binary op l r =>
    .raw "(" :: (l.pieces false ++
      .raw " " :: .op op :: .raw " " :: (r.pieces false ++ [.raw ")"]))
  | .unary .distinct e => .raw "DISTINCT(" :: (e.pieces false ++ [.raw ")"])
  | .unary .not e => .raw "(NOT " :: (e.pieces false ++ [.raw ")"])
  | .unary .neg e => .raw "(-" :: (e.pieces true ++ [.raw ")"])
  | .unary .isNull e => .raw "(" :: (e.pieces false ++ [.raw " IS NULL)"])
  | .unary .isNotNull e => .raw "(" :: (e.pieces false ++ [.raw " IS NOT NULL)"])
  | .call f args => .raw f :: .raw "(" :: (Expr.piecesAll [] args ++ [.raw ")"])
  | .aliased e a => e.pieces false ++ [.raw " AS ", .name a]
  | .member e [.subquery s] negated =>
    .raw "(" :: (e.pieces false ++ Piece.membership negated :: (s.pieces ++ [.raw "))"]))
  | .member e items negated =>
    .raw "(" :: (e.pieces false ++
      Piece.membership negated :: (Expr.piecesAll [] items ++ [.raw "))"]))
  | .subquery s => .raw "(" :: (s.pieces ++ [.raw ")"])

/-- The lead stands before the first expression, a comma before every other. -/
def Expr.piecesAll (lead : List Piece) : List Expr → List Piece
  | [] => []
  | e :: es => lead ++ (e.pieces false ++ Expr.piecesAll [.raw ", "] es)

def Expr.piecesItems (lead : List Piece) : List Expr → List Piece
  | [] => []
  | e :: es => lead ++ (e.pieces false ++ (Piece.property e ++ Expr.piecesItems [.raw ", "] es))

def Expr.piecesOption (lead : String) : Option Expr → List Piece
  | none => []
  | some e => .raw lead :: e.pieces false

def Select.pieces : Select → List Piece
  | ⟨distinct, items, source?, filter?, groups, having?, orders, limit?, offset?⟩ =>
    .raw "SELECT " :: ((if distinct then [.raw "DISTINCT "] else []) ++
      (Piece.allColumns source? items ++ (Expr.piecesItems [] items ++
      (Source.piecesOption source? ++ (Expr.piecesOption " WHERE " filter? ++
      (Expr.piecesAll [.raw " GROUP BY "] groups ++ (Expr.piecesOption " HAVING " having? ++
      (OrderItem.piecesAll [.raw " ORDER BY "] orders ++ (Piece.number " LIMIT " limit? ++
      Piece.number " OFFSET " offset?)))))))))

def Source.pieces : Source → List Piece
  | .table t => Piece.table t
  | .subquery s a => .raw "(" :: (s.pieces ++ [.raw ") AS ", .name a])

def Source.piecesOption : Option Source → List Piece
  | none => []
  | some x => .raw " FROM " :: x.pieces

def OrderItem.piecesAll (lead : List Piece) : List OrderItem → List Piece
  | [] => []
  | ⟨e, direction?⟩ :: os =>
    lead ++ (e.pieces false ++ (Piece.direction direction? ++ OrderItem.piecesAll [.raw ", "] os))

end

def Root.pieces : Root → List Piece
  | .expr e => e.pieces false
  | .select s => s.pieces

/-- What a unary operator writes before its operand. -/
def UnaryOp.opening : UnaryOp → String
  | distinct => "DISTINCT("
  | not => "(NOT "
  | neg => "(-"
  | isNull | isNotNull => "("

/-- What a unary operator writes behind its operand. -/
def UnaryOp.closing : UnaryOp → String
  | distinct | not | neg => ")"
  | isNull => " IS NULL)"
  | isNotNull => " IS NOT NULL)"

lemma Expr.pieces_unary (signed : Bool) (op : UnaryOp) (e : Expr) :
    (Expr.unary op e).pieces signed =
      .raw op.opening :: (e.pieces (op = .neg) ++ [.raw op.closing]) := by
  cases op <;> rfl

/-- A sub-select among several members, or none, keeps its parentheses. -/
lemma Expr.pieces_member {items : List Expr} (h : ∀ s, items ≠ [.subquery s]) (signed : Bool)
    (e : Expr) (negated : Bool) :
    (Expr.member e items negated).pieces signed =
      .raw "(" :: (e.pieces false ++
        Piece.membership negated :: (Expr.piecesAll [] items ++ [.raw "))"])) := by
  rw [Expr.pieces]
  exact h

/-- The members of a list. A sub-select that is the only one has no parentheses of its own. -/
def Expr.piecesMembers : List Expr → List Piece
  | [.subquery s] => s.pieces
  | items => Expr.piecesAll [] items

lemma Expr.piecesMembers_of_ne {items : List Expr} (h : ∀ s, items ≠ [.subquery s]) :
    Expr.piecesMembers items = Expr.piecesAll [] items := by
  rw [Expr.piecesMembers]
  exact h

lemma Expr.pieces_member_eq (signed : Bool) (e : Expr) (items : List Expr) (negated : Bool) :
    (Expr.member e items negated).pieces signed =
      .raw "(" :: (e.pieces false ++
        Piece.membership negated :: (Expr.piecesMembers items ++ [.raw "))"])) := by
  by_cases hs : ∃ s, items = [.subquery s]
  · obtain ⟨s, rfl⟩ := hs
    rfl
  · have hs : ∀ s, items ≠ [.subquery s] := fun s h => hs ⟨s, h⟩
    rw [Expr.pieces_member hs, Expr.piecesMembers_of_ne hs]

/-- What holds of a list of expressions, and goes on to hold when parentheses are taken away, holds
of the members. -/
lemma Expr.piecesMembers_of_all {C : List Piece → Prop}
    (hC : ∀ ps, C (.raw "(" :: (ps ++ [.raw ")"])) → C ps) {items : List Expr}
    (h : C (Expr.piecesAll [] items)) : C (Expr.piecesMembers items) := by
  by_cases hs : ∃ s, items = [.subquery s]
  · obtain ⟨s, rfl⟩ := hs
    rw [Expr.piecesAll, Expr.piecesAll, List.nil_append, List.append_nil, Expr.pieces] at h
    exact hC _ h
  · rwa [Expr.piecesMembers_of_ne fun s h => hs ⟨s, h⟩]

/-- Only a literal is written differently after a minus sign. -/
lemma Expr.pieces_signed {e : Expr} (h : ∀ v, e ≠ .literal v) :
    e.pieces true = e.pieces false := by
  cases e with
  | literal v => exact absurd rfl (h v)
  | unary op e => cases op <;> rfl
  | member e items negated => rw [Expr.pieces_member_eq, Expr.pieces_member_eq]
  | _ => rfl

/-! ### Optional parts

They are empty, or what they begin with is known. -/

def Piece.LedBy (lead : String) (ps : List Piece) : Prop := ps = [] ∨ ∃ qs, ps = .raw lead :: qs

open Piece (LedBy)

lemma Expr.ledBy_piecesAll (lead : String) (es : List Expr) :
    LedBy lead (Expr.piecesAll [.raw lead] es) := by
  cases es with
  | nil => exact .inl (by rw [Expr.piecesAll])
  | cons e es => exact .inr ⟨_, by rw [Expr.piecesAll, List.singleton_append]⟩

lemma Expr.ledBy_piecesItems (lead : String) (es : List Expr) :
    LedBy lead (Expr.piecesItems [.raw lead] es) := by
  cases es with
  | nil => exact .inl (by rw [Expr.piecesItems])
  | cons e es => exact .inr ⟨_, by rw [Expr.piecesItems, List.singleton_append]⟩

lemma Expr.ledBy_piecesOption (lead : String) (e? : Option Expr) :
    LedBy lead (Expr.piecesOption lead e?) := by
  cases e? with
  | none => exact .inl (by rw [Expr.piecesOption])
  | some e => exact .inr ⟨_, by rw [Expr.piecesOption]⟩

lemma Source.ledBy_piecesOption (x? : Option Source) :
    LedBy " FROM " (Source.piecesOption x?) := by
  cases x? with
  | none => exact .inl (by rw [Source.piecesOption])
  | some x => exact .inr ⟨_, by rw [Source.piecesOption]⟩

lemma OrderItem.ledBy_piecesAll (lead : String) (os : List OrderItem) :
    LedBy lead (OrderItem.piecesAll [.raw lead] os) := by
  rcases os with _ | ⟨⟨e, x?⟩, os⟩
  · exact .inl (by rw [OrderItem.piecesAll])
  · exact .inr ⟨_, by rw [OrderItem.piecesAll, List.singleton_append]⟩

/-! A list that is not empty is written behind its lead. -/

lemma Expr.piecesAll_of_ne {es : List Expr} (h : es ≠ []) (lead : String) :
    Expr.piecesAll [.raw lead] es = .raw lead :: Expr.piecesAll [] es := by
  cases es with
  | nil => exact absurd rfl h
  | cons e es => simp only [Expr.piecesAll, List.singleton_append, List.nil_append]

lemma Expr.piecesItems_of_ne {es : List Expr} (h : es ≠ []) (lead : String) :
    Expr.piecesItems [.raw lead] es = .raw lead :: Expr.piecesItems [] es := by
  cases es with
  | nil => exact absurd rfl h
  | cons e es => simp only [Expr.piecesItems, List.singleton_append, List.nil_append]

lemma OrderItem.piecesAll_of_ne {os : List OrderItem} (h : os ≠ []) (lead : String) :
    OrderItem.piecesAll [.raw lead] os = .raw lead :: OrderItem.piecesAll [] os := by
  rcases os with _ | ⟨⟨e, x?⟩, os⟩
  · exact absurd rfl h
  · simp only [OrderItem.piecesAll, List.singleton_append, List.nil_append]

namespace Piece

/-! ### Spelling the pieces out -/

/-- The literals in the holes. -/
def values : List Piece → List Value
  | [] => []
  | .hole v _ :: ps => v :: values ps
  | _ :: ps => values ps

/-- With the marks of the positions from `k` on in the holes. -/
def text (d : Dialect) : Nat → List Piece → String
  | _, [] => ""
  | k, .raw s :: ps => s ++ text d k ps
  | k, .name s :: ps => d.quoteName s ++ text d k ps
  | k, .op o :: ps => (d.token? o).getD "" ++ text d k ps
  | k, .hole _ _ :: ps => d.placeholder.mark k ++ text d (k + 1) ps

/-- A space keeps a minus sign and a value apart that has a sign itself. -/
def gap (signed : Bool) (s : String) : String :=
  if signed ∧ s.toList.head? = some '-' then " " else ""

/-- With the values in the holes. -/
def display (d : Dialect) : List Piece → String
  | [] => ""
  | .raw s :: ps => s ++ display d ps
  | .name s :: ps => d.quoteName s ++ display d ps
  | .op o :: ps => (d.token? o).getD "" ++ display d ps
  | .hole v signed :: ps => gap signed (d.inline v) ++ d.inline v ++ display d ps

@[simp] lemma values_append (ps qs : List Piece) : values (ps ++ qs) = values ps ++ values qs := by
  induction ps with
  | nil => rfl
  | cons p ps ih => cases p <;> simp [values, ih]

@[simp] lemma display_append (d : Dialect) (ps qs : List Piece) :
    display d (ps ++ qs) = display d ps ++ display d qs := by
  induction ps with
  | nil => simp [display]
  | cons p ps ih => cases p <;> simp [display, ih, String.append_assoc]

/-- The marks of the second part go on where those of the first end. -/
lemma text_append (d : Dialect) (k : Nat) (ps qs : List Piece) :
    text d k (ps ++ qs) = text d k ps ++ text d (k + (values ps).length) qs := by
  induction ps generalizing k with
  | nil => simp [text, values]
  | cons p ps ih =>
    cases p <;> simp [text, values, ih, String.append_assoc, Nat.add_assoc, Nat.add_comm 1]

end Piece

end SqlTree
