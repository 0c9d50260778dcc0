import SqlTree.Proofs.Pieces

/-!
Which fragments a tree can write, and what can stand next to what.

All fragments come from a short list, but for the names of functions and the numbers after
`LIMIT` and `OFFSET`. A quoted name or a parameter mark is always followed by a space, a comma,
a full stop or a closing parenthesis, or by nothing; so a reader sees where it ends.
-/

namespace SqlTree

mutual

/-- The names of the functions that an expression calls. -/
def Expr.functions : Expr → List String
  | .column _ | .literal _ | .wildcard _ => []
  | .binary _ l r => l.functions ++ r.functions
  | .unary _ e => e.functions
  | .call f args => f :: Expr.functionsAll args
  | .aliased e _ => e.functions
  | .member e items _ => e.functions ++ Expr.functionsAll items
  | .subquery s => s.functions

def Expr.functionsAll : List Expr → List String
  | [] => []
  | e :: es => e.functions ++ Expr.functionsAll es

def Expr.functionsOption : Option Expr → List String
  | none => []
  | some e => e.functions

def Select.functions : Select → List String
  | ⟨_, items, source?, filter?, groups, having?, orders, _, _⟩ =>
    Expr.functionsAll items ++ (Source.functionsOption source? ++
      (Expr.functionsOption filter? ++ (Expr.functionsAll groups ++
      (Expr.functionsOption having? ++ OrderItem.functionsAll orders))))

def Source.functions : Source → List String
  | .table _ => []
  | .subquery s _ => s.functions

def Source.functionsOption : Option Source → List String
  | none => []
  | some x => x.functions

def OrderItem.functionsAll : List OrderItem → List String
  | [] => []
  | ⟨e, _⟩ :: os => e.functions ++ OrderItem.functionsAll os

end

def Root.functions : Root → List String
  | .expr e => e.functions
  | .select s => s.functions

namespace Piece

/-- What a name or a mark can be followed by. -/
def stops : List Char := [' ', ')', ',', '.']

/-- The pieces begin with such a character, or there are none. -/
def Stops : List Piece → Prop
  | [] => True
  | .raw s :: _ => s.toList.head?.any stops.contains
  | _ :: _ => False

/-- The fragments are as `P` says, and names and marks come to an end. -/
def Orderly (P : String → Prop) : List Piece → Prop
  | [] => True
  | .raw s :: ps => P s ∧ Orderly P ps
  | .op _ :: ps => Orderly P ps
  | .name _ :: ps | .hole _ _ :: ps => Stops ps ∧ Orderly P ps

@[simp] lemma stops_nil : Stops [] := trivial

lemma LedBy.stops {lead : String} {ps : List Piece} (h : LedBy lead ps)
    (hlead : lead.toList.head?.any stops.contains) : Stops ps := by
  rcases h with rfl | ⟨qs, rfl⟩
  · trivial
  · exact hlead

lemma stops_append {ps qs : List Piece} (hp : Stops ps) (hq : Stops qs) : Stops (ps ++ qs) := by
  cases ps with
  | nil => exact hq
  | cons p ps => cases p <;> exact hp

lemma Stops.of_append {ps qs : List Piece} (h : Stops (ps ++ qs)) : Stops ps := by
  cases ps with
  | nil => trivial
  | cons p ps => cases p <;> exact h

lemma Orderly.mono {P Q : String → Prop} (hPQ : ∀ s, P s → Q s) {ps : List Piece}
    (h : Orderly P ps) : Orderly Q ps := by
  induction ps with
  | nil => trivial
  | cons p ps ih =>
    cases p with
    | raw s => exact ⟨hPQ s h.1, ih h.2⟩
    | op o => exact ih h
    | name s => exact ⟨h.1, ih h.2⟩
    | hole v signed => exact ⟨h.1, ih h.2⟩

lemma orderly_append {P : String → Prop} {ps qs : List Piece} (hq : Stops qs) :
    Orderly P (ps ++ qs) ↔ Orderly P ps ∧ Orderly P qs := by
  have hstops : ∀ rs : List Piece, Stops (rs ++ qs) ↔ Stops rs := fun rs => by
    cases rs with
    | nil => exact iff_of_true hq trivial
    | cons r rs => cases r <;> exact Iff.rfl
  induction ps with
  | nil => simp [Orderly]
  | cons p ps ih => cases p <;> simp [Orderly, ih, hstops, and_assoc]

/-- Any stretch of orderly pieces is orderly. -/
lemma Orderly.of_append {P : String → Prop} {ps qs : List Piece} (h : Orderly P (ps ++ qs)) :
    Orderly P ps ∧ Orderly P qs := by
  induction ps with
  | nil => exact ⟨trivial, h⟩
  | cons p ps ih =>
    cases p with
    | raw s => exact ⟨⟨h.1, (ih h.2).1⟩, (ih h.2).2⟩
    | op o => exact ih h
    | name s => exact ⟨⟨h.1.of_append, (ih h.2).1⟩, (ih h.2).2⟩
    | hole v signed => exact ⟨⟨h.1.of_append, (ih h.2).1⟩, (ih h.2).2⟩

lemma orderly_append_raw {P : String → Prop} {ps qs : List Piece} {s : String}
    (h : s.toList.head?.any stops.contains) :
    Orderly P (ps ++ .raw s :: qs) ↔ Orderly P ps ∧ P s ∧ Orderly P qs := by
  have hq : Stops (.raw s :: qs) := h
  rw [orderly_append hq]
  exact Iff.rfl

/-- Clauses that follow each other. -/
lemma stops_orderly_append {P : String → Prop} {ps qs : List Piece}
    (hp : Stops ps ∧ Orderly P ps) (hq : Stops qs ∧ Orderly P qs) :
    Stops (ps ++ qs) ∧ Orderly P (ps ++ qs) :=
  ⟨stops_append hp.1 hq.1, (orderly_append hq.1).mpr ⟨hp.2, hq.2⟩⟩

/-- The fragments other than function names and numbers. -/
def fragments : List String :=
  [".", "*", ".*", "(", ")", "))", " ", ", ", " AS ", ") AS ", "DISTINCT(", "(NOT ", "(-",
    " IS NULL)", " IS NOT NULL)", " IN (", " NOT IN (", "SELECT ", "DISTINCT ", " FROM ",
    " WHERE ", " GROUP BY ", " HAVING ", " ORDER BY ", "ASC", "DESC"]

/-- A property of all fragments but function names. -/
structure Admits (P : String → Prop) : Prop where
  fixed : ∀ s ∈ fragments, P s
  limit : ∀ n : Nat, P (" LIMIT " ++ toString n)
  offset : ∀ n : Nat, P (" OFFSET " ++ toString n)

lemma Admits.all {P : String → Prop} (A : Admits P) :
    P "." ∧ P "*" ∧ P ".*" ∧ P "(" ∧ P ")" ∧ P "))" ∧ P " " ∧ P ", " ∧ P " AS " ∧ P ") AS " ∧
      P "DISTINCT(" ∧ P "(NOT " ∧ P "(-" ∧ P " IS NULL)" ∧ P " IS NOT NULL)" ∧ P " IN (" ∧
      P " NOT IN (" ∧ P "SELECT " ∧ P "DISTINCT " ∧ P " FROM " ∧ P " WHERE " ∧ P " GROUP BY " ∧
      P " HAVING " ∧ P " ORDER BY " ∧ P "ASC" ∧ P "DESC" := by
  simpa [fragments] using A.fixed

/-! ### The parts of a tree that hold no expression -/

lemma stops_direction (x? : Option Direction) : Stops (direction x?) := by
  cases x? <;> simp [direction, Stops, stops]

lemma stops_property (e : Expr) : Stops (property e) := by
  cases e with
  | column c =>
    rw [property]
    cases c.distinctProperty? <;> simp [Stops, stops]
  | _ => trivial

lemma stops_number {lead : String} (h : lead.toList.head? = some ' ') (n? : Option Nat) :
    Stops (number lead n?) := by
  cases n? <;> simp [number, Stops, stops, h]

variable {P : String → Prop}

lemma orderly_qualifier (A : Admits P) {ps : List Piece} (h : Orderly P ps)
    (table? : Option String) : Orderly P (qualifier table? ++ ps) := by
  cases table? <;> simp [qualifier, Orderly, Stops, stops, A.all, h]

lemma orderly_column (A : Admits P) (c : ColumnRef) : Orderly P (column c) :=
  orderly_qualifier A (by simp [Orderly]) c.table?

lemma orderly_property (A : Admits P) (e : Expr) : Orderly P (property e) := by
  cases e with
  | column c =>
    rw [property]
    cases c.distinctProperty? <;> simp [Orderly, A.all]
  | _ => trivial

lemma orderly_table (A : Admits P) (t : Table) : Orderly P (table t) := by
  obtain ⟨n, _ | a⟩ := t <;> simp [table, Orderly, Stops, stops, A.all]

lemma orderly_allColumns (A : Admits P) (source? : Option Source) (items : List Expr) :
    Orderly P (allColumns source? items) := by
  rcases source? with _ | (t | ⟨s, a⟩) <;> cases items <;>
    simp [allColumns, Orderly, Stops, stops, A.all]

lemma orderly_direction (A : Admits P) (x? : Option Direction) : Orderly P (direction x?) := by
  rcases x? with _ | (_ | _) <;> simp [direction, Orderly, A.all, Direction.token]

lemma orderly_number {lead : String} (h : ∀ n : Nat, P (lead ++ toString n))
    (n? : Option Nat) : Orderly P (number lead n?) := by
  cases n? with
  | none => trivial
  | some n => exact ⟨h n, trivial⟩

end Piece

open Piece (Orderly Stops stops Admits stops_append orderly_append orderly_append_raw
  stops_orderly_append)

/-! ### Trees -/

section

variable {P : String → Prop} (A : Admits P)

include A

/-- The select list, written out or not, before the other clauses. -/
lemma orderly_selectList (source? : Option Source) {items : List Expr} {ps : List Piece}
    (hitems : Orderly P (Expr.piecesItems [] items)) (hstops : Stops ps) (hps : Orderly P ps) :
    Orderly P (Piece.allColumns source? items ++ (Expr.piecesItems [] items ++ ps)) := by
  cases items with
  | nil =>
    rw [Expr.piecesItems]
    exact (orderly_append hstops).mpr ⟨Piece.orderly_allColumns A source? [], hps⟩
  | cons e es =>
    rw [Piece.allColumns]
    exact (orderly_append hstops).mpr ⟨hitems, hps⟩

mutual

theorem Expr.orderly_pieces (signed : Bool) :
    ∀ e : Expr, (∀ f ∈ e.functions, P f) → Orderly P (e.pieces signed)
  | .column c, _ => by
    rw [Expr.pieces]
    exact Piece.orderly_column A c
  | .literal v, _ => by simp [Expr.pieces, Orderly]
  | .wildcard table?, _ => by
    rw [Expr.pieces]
    exact Piece.orderly_qualifier A (by simp [Orderly, A.all]) table?
  | .binary op l r, h => by
    simp only [Expr.functions, List.forall_mem_append] at h
    have hl := Expr.orderly_pieces false l h.1
    have hr := Expr.orderly_pieces false r h.2
    simp [Expr.pieces, orderly_append_raw, Orderly, stops, A.all, hl, hr]
  | .unary op e, h => by
    have he := fun b => Expr.orderly_pieces b e (by simpa only [Expr.functions] using h)
    cases op <;> simp [Expr.pieces, orderly_append_raw, Orderly, stops, A.all, he]
  | .call f args, h => by
    simp only [Expr.functions, List.forall_mem_cons] at h
    have hargs := Expr.orderly_piecesAll [] (fun _ h => h) args h.2
    simp [Expr.pieces, orderly_append_raw, Orderly, stops, A.all, h.1, hargs]
  | .aliased e a, h => by
    have he := Expr.orderly_pieces false e (by simpa only [Expr.functions] using h)
    simp [Expr.pieces, orderly_append_raw, Orderly, stops, A.all, he]
  | .member e items negated, h => by
    simp only [Expr.functions, List.forall_mem_append] at h
    have he := Expr.orderly_pieces false e h.1
    have hmembers := Expr.piecesMembers_of_all
      (by simp [orderly_append_raw, Orderly, stops, A.all])
      (Expr.orderly_piecesAll [] (fun _ h => h) items h.2)
    cases negated <;> simp [Expr.pieces_member_eq, Piece.membership, orderly_append_raw, Orderly,
      stops, A.all, he, hmembers]
  | .subquery s, h => by
    have hs := Select.orderly_pieces s (by simpa only [Expr.functions] using h)
    simp [Expr.pieces, orderly_append_raw, Orderly, stops, A.all, hs]

theorem Expr.orderly_piecesAll (lead : List Piece)
    (hlead : ∀ ps, Orderly P ps → Orderly P (lead ++ ps)) :
    ∀ es : List Expr, (∀ f ∈ Expr.functionsAll es, P f) → Orderly P (Expr.piecesAll lead es)
  | [], _ => by simp [Expr.piecesAll, Orderly]
  | e :: es, h => by
    simp only [Expr.functionsAll, List.forall_mem_append] at h
    have he := Expr.orderly_pieces false e h.1
    have hes := Expr.orderly_piecesAll [.raw ", "] (fun _ h => ⟨A.fixed _ (by decide), h⟩) es h.2
    rw [Expr.piecesAll]
    exact hlead _ ((orderly_append ((Expr.ledBy_piecesAll ", " es).stops rfl)).mpr ⟨he, hes⟩)

theorem Expr.orderly_piecesItems (lead : List Piece)
    (hlead : ∀ ps, Orderly P ps → Orderly P (lead ++ ps)) :
    ∀ es : List Expr, (∀ f ∈ Expr.functionsAll es, P f) → Orderly P (Expr.piecesItems lead es)
  | [], _ => by simp [Expr.piecesItems, Orderly]
  | e :: es, h => by
    simp only [Expr.functionsAll, List.forall_mem_append] at h
    have he := Expr.orderly_pieces false e h.1
    have hes := Expr.orderly_piecesItems [.raw ", "] (fun _ h => ⟨A.fixed _ (by decide), h⟩) es
      h.2
    have hrest := (Expr.ledBy_piecesItems ", " es).stops rfl
    rw [Expr.piecesItems]
    exact hlead _ ((orderly_append (stops_append (Piece.stops_property e) hrest)).mpr
      ⟨he, (orderly_append hrest).mpr ⟨Piece.orderly_property A e, hes⟩⟩)

theorem Expr.orderly_piecesOption (lead : String) (hlead : lead ∈ Piece.fragments) :
    ∀ e? : Option Expr, (∀ f ∈ Expr.functionsOption e?, P f) →
      Orderly P (Expr.piecesOption lead e?)
  | none, _ => by simp [Expr.piecesOption, Orderly]
  | some e, h => by
    rw [Expr.piecesOption]
    exact ⟨A.fixed lead hlead,
      Expr.orderly_pieces false e (by simpa only [Expr.functionsOption] using h)⟩

theorem Select.orderly_pieces :
    ∀ s : Select, (∀ f ∈ s.functions, P f) → Orderly P s.pieces
  | ⟨distinct, items, source?, filter?, groups, having?, orders, limit?, offset?⟩, h => by
    simp only [Select.functions, List.forall_mem_append] at h
    obtain ⟨hi, hx, hf, hg, hh, ho⟩ := h
    have hitems := Expr.orderly_piecesItems [] (fun _ h => h) items hi
    have hsource := Source.orderly_piecesOption source? hx
    have hfilter := Expr.orderly_piecesOption " WHERE " (by decide) filter? hf
    have hgroups := Expr.orderly_piecesAll [.raw " GROUP BY "]
      (fun _ h => ⟨A.fixed _ (by decide), h⟩) groups hg
    have hhaving := Expr.orderly_piecesOption " HAVING " (by decide) having? hh
    have horders := OrderItem.orderly_piecesAll [.raw " ORDER BY "]
      (fun _ h => ⟨A.fixed _ (by decide), h⟩) orders ho
    have hlimit := Piece.orderly_number A.limit limit?
    have hoffset := Piece.orderly_number A.offset offset?
    obtain ⟨hstops, hclauses⟩ :=
      stops_orderly_append ⟨(Source.ledBy_piecesOption _).stops rfl, hsource⟩ <|
      stops_orderly_append ⟨(Expr.ledBy_piecesOption _ _).stops rfl, hfilter⟩ <|
      stops_orderly_append ⟨(Expr.ledBy_piecesAll _ _).stops rfl, hgroups⟩ <|
      stops_orderly_append ⟨(Expr.ledBy_piecesOption _ _).stops rfl, hhaving⟩ <|
      stops_orderly_append ⟨(OrderItem.ledBy_piecesAll _ _).stops rfl, horders⟩ <|
      stops_orderly_append ⟨Piece.stops_number rfl _, hlimit⟩ ⟨Piece.stops_number rfl _, hoffset⟩
    have hlist := orderly_selectList A source? hitems hstops hclauses
    rw [Select.pieces]
    cases distinct with
    | false => exact ⟨A.fixed _ (by decide), hlist⟩
    | true => exact ⟨A.fixed _ (by decide), A.fixed _ (by decide), hlist⟩

theorem Source.orderly_pieces :
    ∀ x : Source, (∀ f ∈ x.functions, P f) → Orderly P x.pieces
  | .table t, _ => by
    rw [Source.pieces]
    exact Piece.orderly_table A t
  | .subquery s a, h => by
    have hs := Select.orderly_pieces s (by simpa only [Source.functions] using h)
    simp [Source.pieces, orderly_append_raw, Orderly, stops, A.all, hs]

theorem Source.orderly_piecesOption :
    ∀ x? : Option Source, (∀ f ∈ Source.functionsOption x?, P f) →
      Orderly P (Source.piecesOption x?)
  | none, _ => by simp [Source.piecesOption, Orderly]
  | some x, h => by
    rw [Source.piecesOption]
    exact ⟨A.fixed _ (by decide),
      Source.orderly_pieces x (by simpa only [Source.functionsOption] using h)⟩

theorem OrderItem.orderly_piecesAll (lead : List Piece)
    (hlead : ∀ ps, Orderly P ps → Orderly P (lead ++ ps)) :
    ∀ os : List OrderItem, (∀ f ∈ OrderItem.functionsAll os, P f) →
      Orderly P (OrderItem.piecesAll lead os)
  | [], _ => by simp [OrderItem.piecesAll, Orderly]
  | ⟨e, direction?⟩ :: os, h => by
    simp only [OrderItem.functionsAll, List.forall_mem_append] at h
    have he := Expr.orderly_pieces false e h.1
    have hos := OrderItem.orderly_piecesAll [.raw ", "] (fun _ h => ⟨A.fixed _ (by decide), h⟩) os
      h.2
    have hrest := (OrderItem.ledBy_piecesAll ", " os).stops rfl
    rw [OrderItem.piecesAll]
    exact hlead _ ((orderly_append (stops_append (Piece.stops_direction _) hrest)).mpr
      ⟨he, (orderly_append hrest).mpr ⟨Piece.orderly_direction A _, hos⟩⟩)

end

theorem Root.orderly_pieces (root : Root) (h : ∀ f ∈ root.functions, P f) :
    Orderly P root.pieces := by
  cases root with
  | expr e => exact Expr.orderly_pieces A false e h
  | select s => exact Select.orderly_pieces A s h

end

end SqlTree
