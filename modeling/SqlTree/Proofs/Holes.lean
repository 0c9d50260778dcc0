import SqlTree.Proofs.Literals

/-!
Text and display are two spellings of one list of pieces.

The list is made from the tree alone. In the text each hole has the mark of its position, in the
display the value of its literal; a hole that a minus sign is applied to may get a space before
a value that has a sign itself, and nothing else tells the two apart.
-/

namespace SqlTree

/-! ### Holes -/

mutual

/-- The literals in order, each with whether it is itself the operand of a minus sign. -/
def Expr.occurrences : Expr → List (Value × Bool)
  | .column _ => []
  | .literal v => [(v, false)]
  | .wildcard _ => []
  | .binary _ l r => l.occurrences ++ r.occurrences
  | .unary .neg (.literal v) => [(v, true)]
  | .unary _ e => e.occurrences
  | .call _ args => Expr.occurrencesAll args
  | .aliased e _ => e.occurrences
  | .member e items _ => e.occurrences ++ Expr.occurrencesAll items
  | .subquery s => s.occurrences

def Expr.occurrencesAll : List Expr → List (Value × Bool)
  | [] => []
  | e :: es => e.occurrences ++ Expr.occurrencesAll es

def Expr.occurrencesOption : Option Expr → List (Value × Bool)
  | none => []
  | some e => e.occurrences

def Select.occurrences : Select → List (Value × Bool)
  | ⟨_, items, source?, filter?, groups, having?, orders, _, _⟩ =>
    Expr.occurrencesAll items ++ (Source.occurrencesOption source? ++
      (Expr.occurrencesOption filter? ++ (Expr.occurrencesAll groups ++
      (Expr.occurrencesOption having? ++ OrderItem.occurrencesAll orders))))

def Source.occurrences : Source → List (Value × Bool)
  | .table _ => []
  | .subquery s _ => s.occurrences

def Source.occurrencesOption : Option Source → List (Value × Bool)
  | none => []
  | some x => x.occurrences

def OrderItem.occurrencesAll : List OrderItem → List (Value × Bool)
  | [] => []
  | ⟨e, _⟩ :: os => e.occurrences ++ OrderItem.occurrencesAll os

end

def Root.occurrences : Root → List (Value × Bool)
  | .expr e => e.occurrences
  | .select s => s.occurrences

/-- Only a literal that the minus sign is applied to is told apart. -/
lemma Expr.occurrences_unary {op : UnaryOp} {e : Expr}
    (h : op = .neg → ∀ v, e ≠ .literal v) :
    (Expr.unary op e).occurrences = e.occurrences := by
  rw [Expr.occurrences]
  exact fun v hop he => h hop v he

namespace Piece

def holes : List Piece → List (Value × Bool)
  | [] => []
  | .hole v signed :: ps => (v, signed) :: holes ps
  | _ :: ps => holes ps

@[simp] lemma holes_append (ps qs : List Piece) : holes (ps ++ qs) = holes ps ++ holes qs := by
  induction ps with
  | nil => rfl
  | cons p ps ih => cases p <;> simp [holes, ih]

/-- The values are what is in the holes. -/
lemma map_fst_holes (ps : List Piece) : (holes ps).map Prod.fst = values ps := by
  induction ps with
  | nil => rfl
  | cons p ps ih => cases p <;> simp [holes, values, ih]

lemma holes_of_values {ps : List Piece} (h : values ps = []) : holes ps = [] := by
  rw [← List.map_eq_nil_iff (f := Prod.fst), map_fst_holes, h]

@[simp] lemma holes_membership (negated : Bool) (ps : List Piece) :
    holes (membership negated :: ps) = holes ps := rfl

end Piece

open Piece

namespace Yield

def occurrences : Yield (Value × Bool) where
  expr := Expr.occurrences
  exprs := Expr.occurrencesAll
  items := Expr.occurrencesAll
  expr? := Expr.occurrencesOption
  select := Select.occurrences
  source := Source.occurrences
  source? := Source.occurrencesOption
  orders := OrderItem.occurrencesAll

/-- The holes are the literals, marked where a minus sign is applied to one. -/
lemma occurrences_of : occurrences.Of holes := by
  constructor
  case unary =>
    intro op e hother
    simp [occurrences, Expr.occurrences_unary hother, holes]
  all_goals
    intros
    simp [occurrences, Expr.occurrences, Expr.occurrencesAll, Expr.occurrencesOption,
      Select.occurrences, Source.occurrences, Source.occurrencesOption, OrderItem.occurrencesAll,
      holes, holes_of_values]

end Yield

lemma Root.holes_pieces (root : Root) : holes root.pieces = root.occurrences := by
  cases root with
  | expr e => exact Expr.yield_pieces Yield.occurrences_of e fun _ _ => rfl
  | select s => exact Select.yield_pieces Yield.occurrences_of s fun _ _ => rfl

/-! ### Operators -/

namespace Piece

/-- The dialect has a token for every operator among the pieces. -/
def Supported (d : Dialect) (ps : List Piece) : Prop := ∀ o, op o ∈ ps → (d.token? o).isSome

variable {d : Dialect}

@[simp] lemma supported_nil : Supported d [] := by simp [Supported]

@[simp] lemma supported_append {ps qs : List Piece} :
    Supported d (ps ++ qs) ↔ Supported d ps ∧ Supported d qs := by
  simp [Supported, or_imp, forall_and]

@[simp] lemma supported_raw {s : String} {ps : List Piece} :
    Supported d (.raw s :: ps) ↔ Supported d ps := by
  simp [Supported]

@[simp] lemma supported_name {s : String} {ps : List Piece} :
    Supported d (.name s :: ps) ↔ Supported d ps := by
  simp [Supported]

@[simp] lemma supported_hole {v : Value} {signed : Bool} {ps : List Piece} :
    Supported d (.hole v signed :: ps) ↔ Supported d ps := by
  simp [Supported]

@[simp] lemma supported_op {o : BinaryOp} {ps : List Piece} :
    Supported d (.op o :: ps) ↔ (d.token? o).isSome ∧ Supported d ps := by
  simp [Supported]

@[simp] lemma supported_membership {negated : Bool} {ps : List Piece} :
    Supported d (membership negated :: ps) ↔ Supported d ps := supported_raw

@[simp] lemma supported_qualifier (table? : Option String) :
    Supported d (qualifier table?) := by
  cases table? <;> simp [qualifier]

@[simp] lemma supported_property (e : Expr) : Supported d (property e) := by
  cases e with
  | column c => rw [property]; cases c.distinctProperty? <;> simp
  | _ => simp [property]

@[simp] lemma supported_table (t : Table) : Supported d (table t) := by
  obtain ⟨n, _ | a⟩ := t <;> simp [table]

@[simp] lemma supported_allColumns (source? : Option Source) (items : List Expr) :
    Supported d (allColumns source? items) := by
  rcases source? with _ | (t | ⟨s, a⟩) <;> cases items <;> simp [allColumns]

@[simp] lemma supported_direction (x? : Option Direction) : Supported d (direction x?) := by
  cases x? <;> simp [direction]

@[simp] lemma supported_number (lead : String) (n? : Option Nat) :
    Supported d (number lead n?) := by
  cases n? <;> simp [number]

end Piece

section

variable {d : Dialect}

mutual

/-- An expression without faults has no operator that the dialect lacks. -/
theorem Expr.supported_pieces (signed : Bool) :
    ∀ e : Expr, e.faults d = [] → Supported d (e.pieces signed)
  | .column c, _ => by simp [Expr.pieces, Piece.column]
  | .literal v, _ => by simp [Expr.pieces]
  | .wildcard table?, _ => by simp [Expr.pieces]
  | .binary o l r, h => by
    simp only [Expr.faults, List.append_eq_nil_iff] at h
    obtain ⟨token, ho⟩ := BinaryOp.token_of_faults h.1
    simp [Expr.pieces, ho, Expr.supported_pieces false l h.2.1,
      Expr.supported_pieces false r h.2.2]
  | .unary o e, h => by
    have he := fun b => Expr.supported_pieces b e (by simpa only [Expr.faults] using h)
    cases o <;> simp [Expr.pieces, he]
  | .call f args, h => by
    simp only [Expr.faults, List.append_eq_nil_iff] at h
    simp [Expr.pieces, Expr.supported_piecesAll [] supported_nil args h.2]
  | .aliased e a, h => by
    simp only [Expr.faults, List.append_eq_nil_iff] at h
    simp [Expr.pieces, Expr.supported_pieces false e h.1]
  | .member e items negated, h => by
    obtain ⟨he, hitems⟩ := Expr.faults_of_member h
    have he := Expr.supported_pieces false e he
    have hmembers := Expr.piecesMembers_of_all (by simp)
      (Expr.supported_piecesAll [] supported_nil items hitems)
    simp [Expr.pieces_member_eq, he, hmembers]
  | .subquery s, h => by
    simp [Expr.pieces, Select.supported_pieces s (by simpa only [Expr.faults] using h)]

theorem Expr.supported_piecesAll (lead : List Piece) (hlead : Supported d lead) :
    ∀ es : List Expr, Expr.faultsAll d es = [] → Supported d (Expr.piecesAll lead es)
  | [], _ => by simp [Expr.piecesAll]
  | e :: es, h => by
    simp only [Expr.faultsAll, List.append_eq_nil_iff] at h
    simp [Expr.piecesAll, hlead, Expr.supported_pieces false e h.1,
      Expr.supported_piecesAll [.raw ", "] (by simp) es h.2]

theorem Expr.supported_piecesItems (lead : List Piece) (hlead : Supported d lead) :
    ∀ es : List Expr, Expr.faultsItems d es = [] → Supported d (Expr.piecesItems lead es)
  | [], _ => by simp [Expr.piecesItems]
  | e :: es, h => by
    simp only [Expr.faultsItems, List.append_eq_nil_iff] at h
    simp [Expr.piecesItems, hlead, Expr.supported_pieces false e h.1,
      Expr.supported_piecesItems [.raw ", "] (by simp) es h.2.2]

theorem Expr.supported_piecesOption (lead : String) :
    ∀ e? : Option Expr, Expr.faultsOption d e? = [] → Supported d (Expr.piecesOption lead e?)
  | none, _ => by simp [Expr.piecesOption]
  | some e, h => by
    simp [Expr.piecesOption,
      Expr.supported_pieces false e (by simpa only [Expr.faultsOption] using h)]

theorem Select.supported_pieces :
    ∀ s : Select, s.faults d = [] → Supported d s.pieces
  | ⟨distinct, items, source?, filter?, groups, having?, orders, limit?, offset?⟩, h => by
    obtain ⟨_, hi, hx, hf, hg, hh, ho⟩ := Select.faults_parts h
    have hdistinct : Supported d (if distinct then [.raw "DISTINCT "] else []) := by
      cases distinct <;> simp
    simp [Select.pieces, hdistinct, Expr.supported_piecesItems [] supported_nil items hi,
      Source.supported_piecesOption source? hx, Expr.supported_piecesOption _ filter? hf,
      Expr.supported_piecesAll [.raw " GROUP BY "] (by simp) groups hg,
      Expr.supported_piecesOption _ having? hh,
      OrderItem.supported_piecesAll [.raw " ORDER BY "] (by simp) orders ho]

theorem Source.supported_pieces :
    ∀ x : Source, x.faults d = [] → Supported d x.pieces
  | .table t, _ => by simp [Source.pieces]
  | .subquery s a, h => by
    simp only [Source.faults, List.append_eq_nil_iff] at h
    simp [Source.pieces, Select.supported_pieces s h.1]

theorem Source.supported_piecesOption :
    ∀ x? : Option Source, Source.faultsOption d x? = [] → Supported d (Source.piecesOption x?)
  | none, _ => by simp [Source.piecesOption]
  | some x, h => by
    simp [Source.piecesOption,
      Source.supported_pieces x (by simpa only [Source.faultsOption] using h)]

theorem OrderItem.supported_piecesAll (lead : List Piece) (hlead : Supported d lead) :
    ∀ os : List OrderItem, OrderItem.faultsAll d os = [] →
      Supported d (OrderItem.piecesAll lead os)
  | [], _ => by simp [OrderItem.piecesAll]
  | ⟨e, direction?⟩ :: os, h => by
    simp only [OrderItem.faultsAll, List.append_eq_nil_iff] at h
    simp [OrderItem.piecesAll, hlead, Expr.supported_pieces false e h.1,
      OrderItem.supported_piecesAll [.raw ", "] (by simp) os h.2]

end

lemma Root.supported_pieces {root : Root} (h : root.faults d = []) :
    Supported d root.pieces := by
  cases root with
  | expr e => exact e.supported_pieces false h
  | select s => exact s.supported_pieces h

end

namespace Root

/-- **Text and display never drift.** They are two spellings of the same pieces, which the
dialect has no part in: marks in the holes of the one, numbered from zero on, and values in
those of the other. The holes are the literals, marked where a minus sign is applied to one,
and every operator among the pieces has a token. -/
theorem spelled_of_toQuery {d : Dialect} {root : Root} {q : Query}
    (h : root.toQuery d = .ok q) :
    q.text = Piece.text d 0 root.pieces ∧ q.display = Piece.display d root.pieces ∧
      q.params.toList = values root.pieces ∧ holes root.pieces = root.occurrences ∧
      ∀ o, .op o ∈ root.pieces → (d.token? o).isSome := by
  have hq : q = root.query d := eq_query_of_toQuery h
  subst hq
  exact ⟨rfl, rfl, rfl, root.holes_pieces, supported_pieces (faults_of_toQuery h)⟩

/-- A minus sign before a literal, and before an alias of one. -/
theorem spelled_of_toQuery_signs :
    let root : Root := .expr <| .binary .sub (.unary .neg (.lit (-5 : Int64))) <|
      .unary .neg (.aliased (.lit (-5 : Int64)) "x")
    ∃ q, root.toQuery .postgres = .ok q ∧
      q.text = Piece.text .postgres 0 root.pieces ∧
      q.display = Piece.display .postgres root.pieces ∧
      holes root.pieces = [(.int (-5), true), (.int (-5), false)] := by
  intro root
  have hq : root.toQuery .postgres = .ok (root.query .postgres) :=
    toQuery_of_sound (by decide)
  obtain ⟨htext, hdisplay, -, hholes, -⟩ := spelled_of_toQuery hq
  exact ⟨_, hq, htext, hdisplay, hholes⟩

end Root

end SqlTree
