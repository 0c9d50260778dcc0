import Mathlib.Combinatorics.Enumerative.DyckWord
import SqlTree.Proofs.Appending
import SqlTree.Proofs.Payloads

/-!
The parentheses of a query.

What a tree opens it closes again, so its parentheses make up a Dyck word, and the word follows
the tree: an operator puts the words of its operands into one pair. Names and values have none
that a reader would count, as those in quotes do not count.
-/

namespace SqlTree

open DyckStep (U D)

/-! ### Parentheses in a text -/

namespace Text

/-- An opening parenthesis leads up, a closing one down. -/
@[simp] def paren? (c : Char) : Option DyckStep :=
  if c = '(' then some U else if c = ')' then some D else none

/-- The parentheses in a text, in order. -/
def parens (s : List Char) : List DyckStep := s.filterMap paren?

/-- Nothing is closed that has not been opened, and everything is closed in the end. -/
def Balanced (s : List Char) : Prop :=
  (∀ p, p <+: s → p.count ')' ≤ p.count '(') ∧ s.count ')' = s.count '('

@[simp] lemma parens_nil : parens [] = [] := rfl

@[simp] lemma parens_cons (c : Char) (s : List Char) :
    parens (c :: s) = (paren? c).toList ++ parens s := by
  rw [parens, List.filterMap_cons]
  cases paren? c <;> rfl

@[simp] lemma parens_append (s t : List Char) : parens (s ++ t) = parens s ++ parens t :=
  List.filterMap_append

lemma parens_of_not_mem {s : List Char} (hopen : '(' ∉ s) (hclose : ')' ∉ s) :
    parens s = [] := by
  rw [parens, List.filterMap_eq_nil_iff]
  intro c hc
  have hU : c ≠ '(' := fun h => hopen (h ▸ hc)
  have hD : c ≠ ')' := fun h => hclose (h ▸ hc)
  rw [paren?, if_neg hU, if_neg hD]

lemma count_parens (s : List Char) :
    (parens s).count U = s.count '(' ∧ (parens s).count D = s.count ')' := by
  induction s with
  | nil => exact ⟨rfl, rfl⟩
  | cons c s ih =>
    by_cases hU : c = '('
    · subst hU
      simpa using ih
    · by_cases hD : c = ')'
      · subst hD
        simpa using ih
      · simpa [hU, hD] using ih

/-- **A text whose parentheses are a Dyck word is balanced.** -/
lemma balanced_of_parens {s : List Char} {w : DyckWord} (h : parens s = w.toList) :
    Balanced s := by
  constructor
  · intro p hp
    have hprefix : parens p <+: w.toList := h ▸ hp.filterMap paren?
    have hle := w.count_D_le_count_U (parens p).length
    rwa [← List.prefix_iff_eq_take.mp hprefix, (count_parens p).1, (count_parens p).2] at hle
  · rw [← (count_parens s).1, ← (count_parens s).2, h, w.count_U_eq_count_D]

lemma count_of_parens {s : List Char} {w : DyckWord} (h : parens s = w.toList) :
    s.count '(' = w.semilength := by
  rw [← (count_parens s).1, h, DyckWord.semilength]

end Text

open Text (parens Balanced)
open Lexeme (outside)

/-! ### Parentheses of a tree -/

mutual

/-- The parentheses of an expression. A sub-select that is the only member of a list shares those
of the list. -/
def Expr.nesting : Expr → DyckWord
  | .column _ | .literal _ | .wildcard _ => 0
  | .binary _ l r => (l.nesting + r.nesting).nest
  | .unary _ e => e.nesting.nest
  | .call _ args => (Expr.nestingAll args).nest
  | .aliased e _ => e.nesting
  | .member e [.subquery s] _ => (e.nesting + s.nesting.nest).nest
  | .member e items _ => (e.nesting + (Expr.nestingAll items).nest).nest
  | .subquery s => s.nesting.nest

def Expr.nestingAll : List Expr → DyckWord
  | [] => 0
  | e :: es => e.nesting + Expr.nestingAll es

def Expr.nestingOption : Option Expr → DyckWord
  | none => 0
  | some e => e.nesting

def Select.nesting : Select → DyckWord
  | ⟨_, items, source?, filter?, groups, having?, orders, _, _⟩ =>
    Expr.nestingAll items + (Source.nestingOption source? + (Expr.nestingOption filter? +
      (Expr.nestingAll groups + (Expr.nestingOption having? + OrderItem.nestingAll orders))))

def Source.nesting : Source → DyckWord
  | .table _ => 0
  | .subquery s _ => s.nesting.nest

def Source.nestingOption : Option Source → DyckWord
  | none => 0
  | some x => x.nesting

def OrderItem.nestingAll : List OrderItem → DyckWord
  | [] => 0
  | ⟨e, _⟩ :: os => e.nesting + OrderItem.nestingAll os

end

mutual

/-- The number of pairs of parentheses: one for an operator, a call and a sub-select, two for a
list of members. -/
def Expr.pairs : Expr → Nat
  | .column _ | .literal _ | .wildcard _ => 0
  | .binary _ l r => l.pairs + r.pairs + 1
  | .unary _ e => e.pairs + 1
  | .call _ args => Expr.pairsAll args + 1
  | .aliased e _ => e.pairs
  | .member e [.subquery s] _ => e.pairs + s.pairs + 2
  | .member e items _ => e.pairs + Expr.pairsAll items + 2
  | .subquery s => s.pairs + 1

def Expr.pairsAll : List Expr → Nat
  | [] => 0
  | e :: es => e.pairs + Expr.pairsAll es

def Expr.pairsOption : Option Expr → Nat
  | none => 0
  | some e => e.pairs

def Select.pairs : Select → Nat
  | ⟨_, items, source?, filter?, groups, having?, orders, _, _⟩ =>
    Expr.pairsAll items + (Source.pairsOption source? + (Expr.pairsOption filter? +
      (Expr.pairsAll groups + (Expr.pairsOption having? + OrderItem.pairsAll orders))))

def Source.pairs : Source → Nat
  | .table _ => 0
  | .subquery s _ => s.pairs + 1

def Source.pairsOption : Option Source → Nat
  | none => 0
  | some x => x.pairs

def OrderItem.pairsAll : List OrderItem → Nat
  | [] => 0
  | ⟨e, _⟩ :: os => e.pairs + OrderItem.pairsAll os

end

def Root.nesting : Root → DyckWord
  | .expr e => e.nesting
  | .select s => s.nesting

def Root.pairs : Root → Nat
  | .expr e => e.pairs
  | .select s => s.pairs

lemma Expr.nesting_member {items : List Expr} (h : ∀ s, items ≠ [.subquery s]) (e : Expr)
    (negated : Bool) :
    (Expr.member e items negated).nesting = (e.nesting + (Expr.nestingAll items).nest).nest := by
  rw [Expr.nesting]
  exact h

lemma Expr.pairs_member {items : List Expr} (h : ∀ s, items ≠ [.subquery s]) (e : Expr)
    (negated : Bool) :
    (Expr.member e items negated).pairs = e.pairs + Expr.pairsAll items + 2 := by
  rw [Expr.pairs]
  exact h

mutual

theorem Expr.semilength_nesting : ∀ e : Expr, e.nesting.semilength = e.pairs
  | .column _ | .literal _ | .wildcard _ => by simp [Expr.nesting, Expr.pairs]
  | .binary _ l r => by
    simp [Expr.nesting, Expr.pairs, Expr.semilength_nesting l, Expr.semilength_nesting r]
  | .unary _ e => by simp [Expr.nesting, Expr.pairs, Expr.semilength_nesting e]
  | .call _ args => by simp [Expr.nesting, Expr.pairs, Expr.semilength_nestingAll args]
  | .aliased e _ => by simp [Expr.nesting, Expr.pairs, Expr.semilength_nesting e]
  | .member e items negated => by
    have he := Expr.semilength_nesting e
    have hall := Expr.semilength_nestingAll items
    by_cases hs : ∃ s, items = [.subquery s]
    · -- among the members the lone one has a pair that it does not have here
      obtain ⟨s, rfl⟩ := hs
      simp only [Expr.nestingAll, Expr.pairsAll, Expr.nesting, Expr.pairs, add_zero,
        DyckWord.semilength_nest, Nat.add_right_cancel_iff] at hall
      simp [Expr.nesting, Expr.pairs, he, hall, Nat.add_assoc]
    · have hs : ∀ s, items ≠ [.subquery s] := fun s h => hs ⟨s, h⟩
      simp [Expr.nesting_member hs, Expr.pairs_member hs, he, hall, Nat.add_assoc]
  | .subquery s => by simp [Expr.nesting, Expr.pairs, Select.semilength_nesting s]

theorem Expr.semilength_nestingAll :
    ∀ es : List Expr, (Expr.nestingAll es).semilength = Expr.pairsAll es
  | [] => by simp [Expr.nestingAll, Expr.pairsAll]
  | e :: es => by
    simp [Expr.nestingAll, Expr.pairsAll, Expr.semilength_nesting e,
      Expr.semilength_nestingAll es]

theorem Expr.semilength_nestingOption :
    ∀ e? : Option Expr, (Expr.nestingOption e?).semilength = Expr.pairsOption e?
  | none => by simp [Expr.nestingOption, Expr.pairsOption]
  | some e => by simp [Expr.nestingOption, Expr.pairsOption, Expr.semilength_nesting e]

theorem Select.semilength_nesting : ∀ s : Select, s.nesting.semilength = s.pairs
  | ⟨_, items, source?, filter?, groups, having?, orders, _, _⟩ => by
    simp [Select.nesting, Select.pairs, Expr.semilength_nestingAll items,
      Source.semilength_nestingOption source?, Expr.semilength_nestingOption filter?,
      Expr.semilength_nestingAll groups, Expr.semilength_nestingOption having?,
      OrderItem.semilength_nestingAll orders]

theorem Source.semilength_nesting : ∀ x : Source, x.nesting.semilength = x.pairs
  | .table _ => by simp [Source.nesting, Source.pairs]
  | .subquery s _ => by simp [Source.nesting, Source.pairs, Select.semilength_nesting s]

theorem Source.semilength_nestingOption :
    ∀ x? : Option Source, (Source.nestingOption x?).semilength = Source.pairsOption x?
  | none => by simp [Source.nestingOption, Source.pairsOption]
  | some x => by simp [Source.nestingOption, Source.pairsOption, Source.semilength_nesting x]

theorem OrderItem.semilength_nestingAll :
    ∀ os : List OrderItem, (OrderItem.nestingAll os).semilength = OrderItem.pairsAll os
  | [] => by simp [OrderItem.nestingAll, OrderItem.pairsAll]
  | ⟨e, _⟩ :: os => by
    simp [OrderItem.nestingAll, OrderItem.pairsAll, Expr.semilength_nesting e,
      OrderItem.semilength_nestingAll os]

end

/-- **The pairs of a tree's parentheses are those that its nodes have.** -/
lemma Root.semilength_nesting (root : Root) : root.nesting.semilength = root.pairs := by
  cases root with
  | expr e => exact e.semilength_nesting
  | select s => exact s.semilength_nesting

/-! ### Parentheses among the pieces -/

namespace Nesting

@[simp] lemma toList_zero : (0 : DyckWord).toList = [] := rfl

@[simp] lemma toList_add (v w : DyckWord) : (v + w).toList = v.toList ++ w.toList := rfl

@[simp] lemma toList_nest (w : DyckWord) : w.nest.toList = U :: (w.toList ++ [D]) := rfl

end Nesting

namespace Piece

/-- Only fragments have parentheses. -/
def parens : Piece → List DyckStep
  | .raw s => Text.parens s.toList
  | _ => []

@[simp] lemma parens_raw (s : String) : parens (.raw s) = Text.parens s.toList := rfl

@[simp] lemma parens_op (o : BinaryOp) : parens (.op o) = [] := rfl

@[simp] lemma parens_name (s : String) : parens (.name s) = [] := rfl

@[simp] lemma parens_hole (v : Value) (signed : Bool) : parens (.hole v signed) = [] := rfl

@[simp] lemma parens_qualifier (table? : Option String) :
    (qualifier table?).flatMap parens = [] := by
  cases table? <;> rfl

@[simp] lemma parens_column (c : ColumnRef) : (column c).flatMap parens = [] := by
  simp [column]

@[simp] lemma parens_property (e : Expr) : (property e).flatMap parens = [] := by
  cases e with
  | column c => rw [property]; cases c.distinctProperty? <;> rfl
  | _ => rfl

@[simp] lemma parens_table (t : Table) : (table t).flatMap parens = [] := by
  obtain ⟨n, _ | a⟩ := t <;> rfl

@[simp] lemma parens_allColumns (source? : Option Source) (items : List Expr) :
    (allColumns source? items).flatMap parens = [] := by
  rcases source? with _ | (t | ⟨s, a⟩) <;> cases items <;> rfl

@[simp] lemma parens_direction (x? : Option Direction) : (direction x?).flatMap parens = [] := by
  rcases x? with _ | (_ | _) <;> rfl

lemma parens_number (lead : String) (h : Text.parens lead.toList = []) (n? : Option Nat) :
    (number lead n?).flatMap parens = [] := by
  cases n? with
  | none => rfl
  | some n =>
    have hdigits : Text.parens (toString n).toList = [] :=
      Text.parens_of_not_mem (not_mem_toString rfl n) (not_mem_toString rfl n)
    rw [number, List.flatMap_singleton, parens_raw, String.toList_append, Text.parens_append, h,
      hdigits, List.append_nil]

@[simp] lemma parens_membership (negated : Bool) : parens (membership negated) = [U] := by
  cases negated <;> rfl

end Piece

namespace Yield

def nesting : Yield DyckStep where
  expr e := e.nesting.toList
  exprs es := (Expr.nestingAll es).toList
  items es := (Expr.nestingAll es).toList
  expr? e? := (Expr.nestingOption e?).toList
  select s := s.nesting.toList
  source x := x.nesting.toList
  source? x? := (Source.nestingOption x?).toList
  orders os := (OrderItem.nestingAll os).toList

/-- What the pieces open and close is the Dyck word of the tree. -/
lemma nesting_of : nesting.Of (List.flatMap Piece.parens) := by
  constructor
  case separator =>
    have hall : ∀ s ∈ separators, parens s.toList = [] := by decide
    intro s hs
    rw [List.flatMap_singleton, Piece.parens_raw, hall s hs]
  case limit => exact Piece.parens_number " LIMIT " rfl
  case offset => exact Piece.parens_number " OFFSET " rfl
  case unary =>
    intro op e _
    cases op <;> simp [nesting, Expr.nesting, UnaryOp.opening, UnaryOp.closing]
  case member =>
    intro e items negated hs
    simp [nesting, Expr.nesting_member hs]
  all_goals
    intros
    simp [nesting, Expr.nesting, Expr.nestingAll, Expr.nestingOption, Select.nesting,
      Source.nesting, Source.nestingOption, OrderItem.nestingAll]

end Yield

lemma Root.parens_pieces {root : Root} (h : ∀ f ∈ root.functions, parens f.toList = []) :
    root.pieces.flatMap Piece.parens = root.nesting.toList := by
  cases root with
  | expr e => exact Expr.yield_pieces Yield.nesting_of e fun f hf => by simp [h f hf]
  | select s => exact Select.yield_pieces Yield.nesting_of s fun f hf => by simp [h f hf]

/-! ### Reading parentheses -/

/-- Of a filling only the fragments show parentheses, if tokens and holes show none. -/
lemma Piece.parens_fillLexemes {d : Dialect} {hole : Nat → Value → Bool → List Lexeme}
    (ht : ∀ o t, d.token? o = some t → Text.parens t.toList = [])
    (h : ∀ k v signed, Text.parens (outside (hole k v signed)) = []) (k : Nat)
    (ps : List Piece) :
    Text.parens (outside (fillLexemes d hole k ps)) = ps.flatMap Piece.parens := by
  induction ps generalizing k with
  | nil => rfl
  | cons p ps ih =>
    cases p with
    | raw s => simp [fillLexemes, ih]
    | name s => simp [fillLexemes, outside, ih]
    | op o =>
      have ho : Text.parens ((d.token? o).getD "").toList = [] := by
        cases hs : d.token? o with
        | none => rfl
        | some t => exact ht o t hs
      simp [fillLexemes, ho, ih]
    | hole v signed => simp [fillLexemes, Lexeme.outside_append, h, ih]

namespace Builtin

lemma parens_token (b : Builtin) (o : BinaryOp) (t : String)
    (h : b.dialect.token? o = some t) : parens t.toList = [] := by
  cases b <;> cases o <;> cases h <;> rfl

lemma parens_mark (b : Builtin) (k : Nat) :
    parens (b.dialect.placeholder.mark k).toList = [] :=
  Text.parens_of_not_mem (b.not_mem_mark (by decide) (by cases b <;> decide) k)
    (b.not_mem_mark (by decide) (by cases b <;> decide) k)

/-- A value shows no parentheses outside of quotes. -/
lemma parens_shown (b : Builtin) (v : Value) (signed : Bool) :
    parens (outside (b.shown v signed)) = [] := by
  have hgap : parens (Piece.gap signed (b.dialect.inline v)).toList = [] := by
    rw [Piece.gap]
    split <;> rfl
  rw [shown, Lexeme.outside_plain, Text.parens_append, hgap, List.nil_append, inlineLexemes]
  cases hp : b.payload? v with
  | some s =>
    dsimp only
    rw [Lexeme.outside_plain, Text.parens_append]
    rcases b.lead_eq v with hv | hv <;> rw [hv] <;> rfl
  | none =>
    obtain ⟨s, hs, hinline⟩ := inline_of_bare hp
    have hbare : parens s = [] :=
      Text.parens_of_not_mem (hs.not_mem (by decide) (by decide))
        (hs.not_mem (by decide) (by decide))
    dsimp only
    rw [Lexeme.outside_map_plain]
    rcases hinline with hinline | hinline <;> simp [hinline, hbare]

/-- No fragment has a quote in it. -/
abbrev Unquoted (b : Builtin) : List Piece → Prop :=
  Piece.Orderly fun s => ∀ c ∈ s.toList, b.quoting.isQuote c = false

/-- A text in parentheses of its own: outside of quotes there is one that opens it, then what is
balanced in itself, and then the one that closes it. -/
def Enclosed (b : Builtin) (s : String) : Prop :=
  ∃ inner : String, s = "(" ++ inner ++ ")" ∧
    b.quoting.scan s.toList =
      .plain '(' :: (b.quoting.scan inner.toList ++ [.plain ')']) ∧
    Balanced (outside (b.quoting.scan inner.toList))

/-- The first text stands in the second and is read there as it is on its own. -/
def StandsIn (b : Builtin) (s t : String) : Prop :=
  ∃ before after : String, t = before ++ s ++ after ∧
    b.quoting.scan t.toList =
      b.quoting.scan before.toList ++ b.quoting.scan s.toList ++ b.quoting.scan after.toList

section

variable {b : Builtin} {hole : Nat → Value → Bool → String}
  {lexemes : Nat → Value → Bool → List Lexeme} (hreads : b.quoting.Reads b.dialect hole lexemes)

include hreads

lemma standsIn_fill {ps qs rs : List Piece} (h : b.Unquoted (ps ++ qs ++ rs)) :
    b.StandsIn (Piece.fill b.dialect hole (Piece.values ps).length qs)
      (Piece.fill b.dialect hole 0 (ps ++ qs ++ rs)) := by
  have hpq := h.of_append.1
  refine ⟨Piece.fill b.dialect hole 0 ps,
    Piece.fill b.dialect hole (Piece.values (ps ++ qs)).length rs, ?_, ?_⟩
  · rw [Piece.fill_append, Piece.fill_append, Nat.zero_add, Nat.zero_add]
  · rw [Piece.scan_fill hreads h, Piece.fillLexemes_append, Piece.fillLexemes_append,
      Piece.scan_fill hreads hpq.of_append.1, Piece.scan_fill hreads hpq.of_append.2,
      Piece.scan_fill hreads h.of_append.2, Nat.zero_add, Nat.zero_add]

variable (hshows : ∀ k v signed, parens (outside (lexemes k v signed)) = [])

include hshows

lemma parens_fill {ps : List Piece} (h : b.Unquoted ps) (k : Nat) :
    parens (outside (b.quoting.scan (Piece.fill b.dialect hole k ps).toList)) =
      ps.flatMap Piece.parens := by
  rw [Piece.scan_fill hreads h, Piece.parens_fillLexemes b.parens_token hshows]

lemma enclosed_fill {ps : List Piece} {w : DyckWord} (hw : ps.flatMap Piece.parens = w.toList)
    (h : b.Unquoted (.raw "(" :: (ps ++ [.raw ")"]))) (k : Nat) :
    b.Enclosed (Piece.fill b.dialect hole k (.raw "(" :: (ps ++ [.raw ")"]))) := by
  have hps := h.2.of_append.1
  refine ⟨Piece.fill b.dialect hole k ps, ?_, ?_, ?_⟩
  · rw [Piece.fill, Piece.fill_append, Piece.fill, Piece.fill, String.append_empty,
      String.append_assoc]
  · rw [Piece.scan_fill hreads h, Piece.scan_fill hreads hps, Piece.fillLexemes,
      Piece.fillLexemes_append]
    rfl
  · exact Text.balanced_of_parens ((parens_fill hreads hshows hps k).trans hw)

/-- An operator in a tree is enclosed at any position, and stands in the whole. -/
lemma binary_fill {root : Root} {op : BinaryOp} {l r : Expr}
    (hpart : Root.Part (.expr (.binary op l r)) root) (horderly : b.Unquoted root.pieces)
    (hf : ∀ f ∈ root.functions, parens f.toList = []) :
    (∀ k, b.Enclosed (Piece.fill b.dialect hole k ((Expr.binary op l r).pieces false))) ∧
      ∃ k, b.StandsIn (Piece.fill b.dialect hole k ((Expr.binary op l r).pieces false))
        (Piece.fill b.dialect hole 0 root.pieces) := by
  obtain ⟨signed, ps, rs, hpieces⟩ := hpart.infix_pieces
  have hsigned : Root.piecesAs signed (.expr (.binary op l r)) =
      (Expr.binary op l r).pieces false := by
    cases signed <;> rfl
  rw [hsigned] at hpieces
  rw [← hpieces] at horderly ⊢
  refine ⟨?_, _, standsIn_fill hreads horderly⟩
  obtain ⟨ms, hms⟩ : ∃ ms, (Expr.binary op l r).pieces false = .raw "(" :: (ms ++ [.raw ")"]) :=
    ⟨l.pieces false ++ .raw " " :: .op op :: .raw " " :: r.pieces false, by simp [Expr.pieces]⟩
  have hparens : ((Expr.binary op l r).pieces false).flatMap Piece.parens =
      (Expr.binary op l r).nesting.toList :=
    Root.parens_pieces fun f hm => hf f (hpart.functions_subset hm)
  have hclosed : ms.flatMap Piece.parens ++ [D] = (l.nesting + r.nesting).toList ++ [D] := by
    simpa [hms, Expr.nesting] using hparens
  rw [hms] at horderly ⊢
  exact enclosed_fill hreads hshows (List.append_cancel_right hclosed)
    horderly.of_append.1.of_append.2

end

/-- **Operators are fully parenthesized.** Outside of quotes the parentheses of a query are
balanced, and there are as many pairs as the nodes of the tree call for. What is written for a
binary operator, wherever it stands in a tree, is enclosed in parentheses of its own. -/
theorem parens_of_toQuery {b : Builtin} {root : Root} {q : Query}
    (h : root.toQuery b.dialect = .ok q)
    (hf : ∀ f ∈ root.functions,
      '(' ∉ f.toList ∧ ')' ∉ f.toList ∧ '\'' ∉ f.toList ∧ b.dialect.quote ∉ f.toList) :
    (∀ s ∈ [q.text, q.display], Balanced (outside (b.quoting.scan s.toList)) ∧
      (outside (b.quoting.scan s.toList)).count '(' = root.pairs) ∧
    ∀ op l r, Root.Part (.expr (.binary op l r)) root →
      ∃ (text : Nat → String) (display : String) (params : Array Value),
        (∀ draft, (Expr.binary op l r).render b.dialect draft = .ok () { draft with
          text := draft.text ++ text draft.params.size
          display := draft.display ++ display
          params := draft.params ++ params }) ∧
        (∀ k, b.Enclosed (text k)) ∧ b.Enclosed display ∧
        (∃ k, b.StandsIn (text k) q.text) ∧ b.StandsIn display q.display := by
  have hparens : ∀ f ∈ root.functions, parens f.toList = [] := fun f hm =>
    Text.parens_of_not_mem (hf f hm).1 (hf f hm).2.1
  have hquotes : ∀ f ∈ root.functions, b.dialect.quote ∉ f.toList ∧ '\'' ∉ f.toList :=
    fun f hm => (hf f hm).2.2.symm
  have horderly : b.Unquoted root.pieces :=
    (root.orderly_pieces b.admits_unquoted hquotes).mono fun _ => forall_isQuote_iff.mpr
  have hmarks : ∀ (k : Nat) (_ : Value) (_ : Bool),
      parens (outside ((b.dialect.placeholder.mark k).toList.map .plain)) = [] := fun k _ _ => by
    rw [Lexeme.outside_map_plain, b.parens_mark]
  have hshown := fun (_ : Nat) => b.parens_shown
  have htext := (parens_fill b.reads_text hmarks horderly 0).trans (Root.parens_pieces hparens)
  have hdisplay := (parens_fill b.reads_display hshown horderly 0).trans
    (Root.parens_pieces hparens)
  have hq : q = ⟨Piece.text b.dialect 0 root.pieces, Piece.display b.dialect root.pieces,
      (Piece.values root.pieces).toArray⟩ := Root.eq_query_of_toQuery h
  subst hq
  rw [← Piece.text_eq_fill] at htext
  rw [← Piece.display_eq_fill] at hdisplay
  refine ⟨?_, fun op l r hpart => ?_⟩
  · simp only [List.forall_mem_cons, List.not_mem_nil, false_implies, implies_true, and_true]
    rw [Text.count_of_parens htext, Text.count_of_parens hdisplay, root.semilength_nesting]
    exact ⟨⟨Text.balanced_of_parens htext, rfl⟩, Text.balanced_of_parens hdisplay, rfl⟩
  · have hsound := hpart.faults_eq_nil (Root.faults_of_toQuery h)
    obtain ⟨htexts, hintext⟩ := binary_fill b.reads_text hmarks hpart horderly hparens
    obtain ⟨hdisplays, k, hindisplay⟩ := binary_fill b.reads_display hshown hpart horderly hparens
    simp only [← Piece.text_eq_fill] at htexts hintext
    simp only [← Piece.display_eq_fill] at hdisplays hindisplay
    let ps := (Expr.binary op l r).pieces false
    exact ⟨fun k => Piece.text b.dialect k ps, Piece.display b.dialect ps,
      (Piece.values ps).toArray, Root.render_of_sound hsound, htexts, hdisplays 0, hintext,
      hindisplay⟩

/-- Names and texts full of parentheses and quotes, and a sub-select that shares the parentheses
of a list of members. -/
theorem parens_of_toQuery_mixed :
    let sum : Expr :=
      .binary .add (.aliased (.lit "\\')(") "a)`(") (.unary .neg (.lit (-5 : Int64)))
    let root : Root := .expr <| .member (.call "f" [.column { name := "((" }, sum]) [.subquery {
      items := [.unary .distinct (.column { name := ")" })]
      source? := some (.subquery { source? := some (.table ⟨"(", some "'"⟩) } ")") }] true
    root.pairs = 7 ∧ ∃ q, root.toQuery mysql.dialect = .ok q ∧
      (∀ s ∈ [q.text, q.display], Balanced (outside (mysql.quoting.scan s.toList)) ∧
        (outside (mysql.quoting.scan s.toList)).count '(' = 7) ∧
      ∃ text display, mysql.Enclosed text ∧ mysql.StandsIn text q.text ∧
        mysql.Enclosed display ∧ mysql.StandsIn display q.display := by
  intro sum root
  have hq : root.toQuery mysql.dialect = .ok (root.query mysql.dialect) :=
    Root.toQuery_of_sound (by decide)
  have hpart : Root.Part (.expr sum) root :=
    .head (.argument "f" (by simp)) (.single (.tested _ _ _))
  obtain ⟨hbalanced, hparts⟩ := parens_of_toQuery hq (by decide)
  obtain ⟨text, display, _, -, htext, hdisplay, ⟨k, htexts⟩, hdisplays⟩ := hparts _ _ _ hpart
  exact ⟨rfl, _, hq, hbalanced, text k, display, htext k, htexts, hdisplay, hdisplays⟩

end Builtin

end SqlTree
