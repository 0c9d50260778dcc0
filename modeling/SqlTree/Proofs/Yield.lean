import SqlTree.Proofs.Fragments

/-!
What a tree yields, read off its pieces.

A reading of pieces goes from left to right: what it reads in two stretches is read in the whole.
A view of trees, such as their literals or names, is met with in the pieces if every kind of node
has in it what is read in the pieces of its own, with the views of its parts in between. The
induction over trees that ties the two together is the same for all views, and stands here once.
-/

namespace SqlTree

/-- A view of trees that sees a list in each of their parts. -/
structure Yield (α : Type) where
  expr : Expr → List α
  exprs : List Expr → List α
  items : List Expr → List α
  expr? : Option Expr → List α
  select : Select → List α
  source : Source → List α
  source? : Option Source → List α
  orders : List OrderItem → List α

namespace Yield

/-- The fragments that keep two parts of a tree apart. -/
def separators : List String :=
  [" ", ", ", "SELECT ", "DISTINCT ", " FROM ", " WHERE ", " GROUP BY ", " HAVING ", " ORDER BY "]

/-- The view is what is read in the pieces, node by node. Nothing is read in separators, and
neither in the directions and numbers that end a clause. -/
structure Of {α : Type} (read : List Piece → List α) (Y : Yield α) : Prop where
  nil : read [] = []
  append : ∀ ps qs, read (ps ++ qs) = read ps ++ read qs
  separator : ∀ s ∈ separators, read [.raw s] = []
  direction : ∀ x?, read (Piece.direction x?) = []
  limit : ∀ n?, read (Piece.number " LIMIT " n?) = []
  offset : ∀ n?, read (Piece.number " OFFSET " n?) = []
  column : ∀ c, Y.expr (.column c) = read (Piece.column c)
  literal : ∀ v, Y.expr (.literal v) = read [.hole v false]
  wildcard : ∀ table?, Y.expr (.wildcard table?) = read (Piece.qualifier table?) ++ read [.raw "*"]
  binary : ∀ op l r, Y.expr (.binary op l r) =
    read [.raw "("] ++ (Y.expr l ++ (read [.op op] ++ (Y.expr r ++ read [.raw ")"])))
  negative : ∀ v, Y.expr (.unary .neg (.literal v)) =
    read [.raw "(-"] ++ (read [.hole v true] ++ read [.raw ")"])
  unary : ∀ op e, (op = .neg → ∀ v, e ≠ .literal v) → Y.expr (.unary op e) =
    read [.raw op.opening] ++ (Y.expr e ++ read [.raw op.closing])
  call : ∀ f args, read [.raw f] = [] → Y.expr (.call f args) =
    read [.raw "("] ++ (Y.exprs args ++ read [.raw ")"])
  aliased : ∀ e a, Y.expr (.aliased e a) = Y.expr e ++ read [.raw " AS ", .name a]
  member : ∀ e items negated, (∀ s, items ≠ [.subquery s]) → Y.expr (.member e items negated) =
    read [.raw "("] ++
      (Y.expr e ++ (read [Piece.membership negated] ++ (Y.exprs items ++ read [.raw "))"])))
  memberSelect : ∀ e s negated, Y.expr (.member e [.subquery s] negated) =
    read [.raw "("] ++
      (Y.expr e ++ (read [Piece.membership negated] ++ (Y.select s ++ read [.raw "))"])))
  subquery : ∀ s, Y.expr (.subquery s) = read [.raw "("] ++ (Y.select s ++ read [.raw ")"])
  exprs_nil : Y.exprs [] = []
  exprs_cons : ∀ e es, Y.exprs (e :: es) = Y.expr e ++ Y.exprs es
  items_nil : Y.items [] = []
  items_cons : ∀ e es, Y.items (e :: es) = Y.expr e ++ (read (Piece.property e) ++ Y.items es)
  expr?_none : Y.expr? none = []
  expr?_some : ∀ e, Y.expr? (some e) = Y.expr e
  select : ∀ distinct items source? filter? groups having? orders limit? offset?,
    Y.select ⟨distinct, items, source?, filter?, groups, having?, orders, limit?, offset?⟩ =
      read (Piece.allColumns source? items) ++ (Y.items items ++ (Y.source? source? ++
        (Y.expr? filter? ++ (Y.exprs groups ++ (Y.expr? having? ++ Y.orders orders)))))
  table : ∀ t, Y.source (.table t) = read (Piece.table t)
  derived : ∀ s a, Y.source (.subquery s a) =
    read [.raw "("] ++ (Y.select s ++ read [.raw ") AS ", .name a])
  source?_none : Y.source? none = []
  source?_some : ∀ x, Y.source? (some x) = Y.source x
  orders_nil : Y.orders [] = []
  orders_cons : ∀ e x? os, Y.orders (⟨e, x?⟩ :: os) = Y.expr e ++ Y.orders os

end Yield

section

variable {α : Type} {read : List Piece → List α} {Y : Yield α} (H : Y.Of read)

include H

lemma Yield.Of.cons (p : Piece) (ps : List Piece) : read (p :: ps) = read [p] ++ read ps :=
  H.append [p] ps

/-- A separator is passed over. -/
lemma Yield.Of.pass (s : String) (h : s ∈ Yield.separators) (ps : List Piece) :
    read (.raw s :: ps) = read ps := by
  rw [H.cons, H.separator s h, List.nil_append]

mutual

/-- **What is read in the pieces of a tree is what is seen in the tree**, if nothing is read in
the names of the functions. -/
theorem Expr.yield_pieces : ∀ e : Expr, (∀ f ∈ e.functions, read [.raw f] = []) →
    read (e.pieces false) = Y.expr e
  | .column c, _ => by rw [Expr.pieces, H.column]
  | .literal v, _ => by rw [Expr.pieces, H.literal]
  | .wildcard table?, _ => by rw [Expr.pieces, H.append, H.wildcard]
  | .binary op l r, h => by
    rw [Expr.functions, List.forall_mem_append] at h
    rw [Expr.pieces, H.cons, H.append, Expr.yield_pieces l h.1, H.pass " " (by decide),
      H.cons (.op op), H.pass " " (by decide), H.append, Expr.yield_pieces r h.2, H.binary]
  | .unary op e, h => by
    rw [Expr.functions] at h
    rw [Expr.pieces_unary, H.cons, H.append]
    by_cases hv : op = .neg ∧ ∃ v, e = .literal v
    · obtain ⟨rfl, v, rfl⟩ := hv
      rw [H.negative]
      rfl
    · have hother : op = .neg → ∀ v, e ≠ .literal v := fun hop v he => hv ⟨hop, v, he⟩
      have hsigned : e.pieces (op = .neg) = e.pieces false := by
        by_cases hop : op = .neg
        · rw [decide_eq_true hop, Expr.pieces_signed (hother hop)]
        · rw [decide_eq_false hop]
      rw [hsigned, Expr.yield_pieces e h, H.unary op e hother]
  | .call f args, h => by
    rw [Expr.functions, List.forall_mem_cons] at h
    rw [Expr.pieces, H.cons, h.1, List.nil_append, H.cons, H.append,
      Expr.yield_piecesAll [] H.nil args h.2, H.call f args h.1]
  | .aliased e a, h => by
    rw [Expr.functions] at h
    rw [Expr.pieces, H.append, Expr.yield_pieces e h, H.aliased]
  | .member e items negated, h => by
    rw [Expr.functions, List.forall_mem_append] at h
    have he := Expr.yield_pieces e h.1
    have hall := Expr.yield_piecesAll [] H.nil items h.2
    by_cases hs : ∃ s, items = [.subquery s]
    · -- among the members the lone one has parentheses that it does not have here
      obtain ⟨s, rfl⟩ := hs
      have hone : read s.pieces = Y.select s := by
        rw [Expr.piecesAll, Expr.piecesAll, List.nil_append, List.append_nil, Expr.pieces, H.cons,
          H.append, H.exprs_cons, H.exprs_nil, List.append_nil, H.subquery,
          List.append_cancel_left_eq, List.append_cancel_right_eq] at hall
        exact hall
      rw [Expr.pieces, H.cons, H.append, he, H.cons (Piece.membership negated), H.append, hone,
        H.memberSelect]
    · have hs : ∀ s, items ≠ [.subquery s] := fun s h => hs ⟨s, h⟩
      rw [Expr.pieces_member hs, H.cons, H.append, he, H.cons (Piece.membership negated),
        H.append, hall, H.member e items negated hs]
  | .subquery s, h => by
    rw [Expr.functions] at h
    rw [Expr.pieces, H.cons, H.append, Select.yield_pieces s h, H.subquery]

theorem Expr.yield_piecesAll (lead : List Piece) (hlead : read lead = []) :
    ∀ es : List Expr, (∀ f ∈ Expr.functionsAll es, read [.raw f] = []) →
      read (Expr.piecesAll lead es) = Y.exprs es
  | [], _ => by rw [Expr.piecesAll, H.nil, H.exprs_nil]
  | e :: es, h => by
    rw [Expr.functionsAll, List.forall_mem_append] at h
    rw [Expr.piecesAll, H.append, hlead, List.nil_append, H.append, Expr.yield_pieces e h.1,
      Expr.yield_piecesAll [.raw ", "] (H.separator _ (by decide)) es h.2, H.exprs_cons]

theorem Expr.yield_piecesItems (lead : List Piece) (hlead : read lead = []) :
    ∀ es : List Expr, (∀ f ∈ Expr.functionsAll es, read [.raw f] = []) →
      read (Expr.piecesItems lead es) = Y.items es
  | [], _ => by rw [Expr.piecesItems, H.nil, H.items_nil]
  | e :: es, h => by
    rw [Expr.functionsAll, List.forall_mem_append] at h
    rw [Expr.piecesItems, H.append, hlead, List.nil_append, H.append, Expr.yield_pieces e h.1,
      H.append, Expr.yield_piecesItems [.raw ", "] (H.separator _ (by decide)) es h.2,
      H.items_cons]

theorem Expr.yield_piecesOption (lead : String) (hlead : lead ∈ Yield.separators) :
    ∀ e? : Option Expr, (∀ f ∈ Expr.functionsOption e?, read [.raw f] = []) →
      read (Expr.piecesOption lead e?) = Y.expr? e?
  | none, _ => by rw [Expr.piecesOption, H.nil, H.expr?_none]
  | some e, h => by
    rw [Expr.functionsOption] at h
    rw [Expr.piecesOption, H.pass lead hlead, Expr.yield_pieces e h, H.expr?_some]

theorem Select.yield_pieces : ∀ s : Select, (∀ f ∈ s.functions, read [.raw f] = []) →
    read s.pieces = Y.select s
  | ⟨distinct, items, source?, filter?, groups, having?, orders, limit?, offset?⟩, h => by
    simp only [Select.functions, List.forall_mem_append] at h
    obtain ⟨hi, hx, hf, hg, hh, ho⟩ := h
    have hdistinct : read (if distinct then [.raw "DISTINCT "] else []) = [] := by
      cases distinct with
      | false => exact H.nil
      | true => exact H.separator _ (by decide)
    rw [Select.pieces, H.pass "SELECT " (by decide)]
    simp only [H.append]
    rw [hdistinct, Expr.yield_piecesItems [] H.nil items hi, Source.yield_piecesOption source? hx,
      Expr.yield_piecesOption " WHERE " (by decide) filter? hf,
      Expr.yield_piecesAll [.raw " GROUP BY "] (H.separator _ (by decide)) groups hg,
      Expr.yield_piecesOption " HAVING " (by decide) having? hh,
      OrderItem.yield_piecesAll [.raw " ORDER BY "] (H.separator _ (by decide)) orders ho,
      H.limit, H.offset, H.select]
    simp only [List.nil_append, List.append_nil]

theorem Source.yield_pieces : ∀ x : Source, (∀ f ∈ x.functions, read [.raw f] = []) →
    read x.pieces = Y.source x
  | .table t, _ => by rw [Source.pieces, H.table]
  | .subquery s a, h => by
    rw [Source.functions] at h
    rw [Source.pieces, H.cons, H.append, Select.yield_pieces s h, H.derived]

theorem Source.yield_piecesOption : ∀ x? : Option Source,
    (∀ f ∈ Source.functionsOption x?, read [.raw f] = []) →
      read (Source.piecesOption x?) = Y.source? x?
  | none, _ => by rw [Source.piecesOption, H.nil, H.source?_none]
  | some x, h => by
    rw [Source.functionsOption] at h
    rw [Source.piecesOption, H.pass " FROM " (by decide), Source.yield_pieces x h, H.source?_some]

theorem OrderItem.yield_piecesAll (lead : List Piece) (hlead : read lead = []) :
    ∀ os : List OrderItem, (∀ f ∈ OrderItem.functionsAll os, read [.raw f] = []) →
      read (OrderItem.piecesAll lead os) = Y.orders os
  | [], _ => by rw [OrderItem.piecesAll, H.nil, H.orders_nil]
  | ⟨e, x?⟩ :: os, h => by
    rw [OrderItem.functionsAll, List.forall_mem_append] at h
    rw [OrderItem.piecesAll, H.append, hlead, List.nil_append, H.append,
      Expr.yield_pieces e h.1, H.append, H.direction, List.nil_append,
      OrderItem.yield_piecesAll [.raw ", "] (H.separator _ (by decide)) os h.2, H.orders_cons]

end

end

end SqlTree
