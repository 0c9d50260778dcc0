import SqlTree.Proofs.Holes
import SqlTree.Proofs.Inlined

/-!
Where a query begins a comment.

Two minus signs in a row begin a comment, unless they stand in quotes. One sign is written for a
negation, and a second one can only be that of a value inline. The space that keeps the two apart
is written for a literal that is itself negated. A literal under an alias is the first thing that
an alias writes, so if the alias is negated, its sign comes directly after the other. This is the
only way in which a comment begins, and only a display can have it.
-/

namespace SqlTree

/-! ### Signs next to each other -/

namespace Lexeme

/-- Two minus signs in a row outside of quotes. -/
def OpensComment (ls : List Lexeme) : Prop := [plain '-', plain '-'] <:+: ls

instance (ls : List Lexeme) : Decidable (OpensComment ls) :=
  inferInstanceAs (Decidable ([plain '-', plain '-'] <:+: ls))

/-- Two signs meet, the first of which may be what stood before. -/
def meets : Bool → List Lexeme → Bool
  | _, [] => false
  | after, l :: ls => (after && l == .plain '-') || meets (l == .plain '-') ls

/-- The last lexeme, or what stood before, is a sign. -/
def endsInSign : Bool → List Lexeme → Bool
  | after, [] => after
  | _, l :: ls => endsInSign (l == .plain '-') ls

@[simp] lemma plain_beq (c d : Char) : (plain c == plain d) = (c == d) := by
  rw [Bool.eq_iff_iff]
  simp

@[simp] lemma quoted_beq (q : Char) (s : List Char) (c : Char) :
    (quoted q s == plain c) = false := by
  rw [beq_eq_false_iff_ne]
  exact nofun

lemma meets_append (after : Bool) (ls ms : List Lexeme) :
    meets after (ls ++ ms) = (meets after ls || meets (endsInSign after ls) ms) := by
  induction ls generalizing after with
  | nil => simp [meets, endsInSign]
  | cons l ls ih => simp [meets, endsInSign, ih, Bool.or_assoc]

lemma meets_true (ls : List Lexeme) :
    meets true ls = (ls.head? == some (.plain '-') || meets false ls) := by
  cases ls <;> simp [meets]

theorem opensComment_iff {ls : List Lexeme} : OpensComment ls ↔ meets false ls = true := by
  induction ls with
  | nil => simp [OpensComment, meets]
  | cons l ls ih =>
    rw [OpensComment, List.infix_cons_iff, ← OpensComment, ih, List.cons_prefix_cons, meets,
      Bool.false_and, Bool.false_or]
    by_cases hl : l = .plain '-'
    · have hhead : [plain '-'] <+: ls ↔ ls.head? = some (.plain '-') := by
        cases ls <;> simp [eq_comm]
      rw [hl, hhead, beq_self_eq_true, meets_true]
      simp
    · have hne : (l == .plain '-') = false := by simpa using hl
      simp [hne, Ne.symm hl]

/-! Characters that are no signs. -/

lemma meets_plain {s : List Char} (h : '-' ∉ s) (after : Bool) :
    meets after (s.map .plain) = false := by
  induction s generalizing after with
  | nil => rfl
  | cons c s ih =>
    rw [List.mem_cons, not_or] at h
    simp [meets, ih h.2, Ne.symm h.1]

lemma endsInSign_plain {s : List Char} (h : '-' ∉ s) (hs : s ≠ []) (after : Bool) :
    endsInSign after (s.map .plain) = false := by
  induction s generalizing after with
  | nil => exact absurd rfl hs
  | cons c s ih =>
    rw [List.mem_cons, not_or] at h
    rw [List.map_cons, endsInSign]
    cases s with
    | nil => simp [endsInSign, Ne.symm h.1]
    | cons c' s => exact ih h.2 (by simp) _

end Lexeme

open Lexeme (meets endsInSign)

namespace Piece

/-- The operators and unguarded holes that come directly after a sign. -/
def behindSign : Bool → List Piece → List Piece
  | _, [] => []
  | after, .raw s :: ps => behindSign (endsInSign after (s.toList.map .plain)) ps
  | _, .name _ :: ps => behindSign false ps
  | after, .op o :: ps => (if after then [.op o] else []) ++ behindSign (o == .sub) ps
  | after, .hole v signed :: ps =>
    (if after && !signed then [.hole v signed] else []) ++ behindSign false ps

lemma behindSign_stops {ps : List Piece} (h : Stops ps) (after : Bool) :
    behindSign after ps = behindSign false ps := by
  match ps, h with
  | [], _ => rfl
  | .raw s :: ps, h =>
    have h : s.toList.head?.any stops.contains = true := h
    rw [behindSign, behindSign]
    cases hs : s.toList with
    | nil => simp [hs] at h
    | cons c cs => rfl

lemma behindSign_append {ps qs : List Piece} (h : Stops qs) (after : Bool) :
    behindSign after (ps ++ qs) = behindSign after ps ++ behindSign false qs := by
  induction ps generalizing after with
  | nil => exact behindSign_stops h after
  | cons p ps ih => cases p <;> simp [behindSign, ih]

lemma behindSign_append_raw {ps qs : List Piece} {s : String}
    (h : s.toList.head?.any stops.contains) (after : Bool) :
    behindSign after (ps ++ .raw s :: qs) =
      behindSign after ps ++ behindSign false (.raw s :: qs) := by
  have hq : Stops (.raw s :: qs) := h
  exact behindSign_append hq after

/-- Holes that no minus sign is applied to. -/
def bare (vs : List Value) : List Piece := vs.map (.hole · false)

@[simp] lemma bare_nil : bare [] = [] := rfl

@[simp] lemma bare_append (vs ws : List Value) : bare (vs ++ ws) = bare vs ++ bare ws := by
  simp [bare]

/-! The parts of a tree that hold no expression. -/

@[simp] lemma behindSign_column (after : Bool) (c : ColumnRef) :
    behindSign after (column c) = [] := by
  obtain ⟨name, _ | table, property?⟩ := c <;> rfl

@[simp] lemma behindSign_wildcard (after : Bool) (table? : Option String) :
    behindSign after (qualifier table? ++ [.raw "*"]) = [] := by
  cases table? <;> rfl

@[simp] lemma behindSign_property (after : Bool) (e : Expr) :
    behindSign after (property e) = [] := by
  cases e with
  | column c => rw [property]; cases c.distinctProperty? <;> rfl
  | _ => rfl

@[simp] lemma behindSign_table (after : Bool) (t : Table) :
    behindSign after (table t) = [] := by
  obtain ⟨n, _ | a⟩ := t <;> rfl

@[simp] lemma behindSign_allColumns (after : Bool) (source? : Option Source)
    (items : List Expr) : behindSign after (allColumns source? items) = [] := by
  rcases source? with _ | (t | ⟨s, a⟩) <;> cases items <;> rfl

@[simp] lemma behindSign_direction (after : Bool) (x? : Option Direction) :
    behindSign after (direction x?) = [] := by
  cases x? <;> rfl

@[simp] lemma behindSign_number (after : Bool) (lead : String) (n? : Option Nat) :
    behindSign after (number lead n?) = [] := by
  cases n? <;> rfl

end Piece

/-! ### Negated aliases -/

/-- The literal that an expression begins with: it is one, or an alias of one. -/
def Expr.front : Expr → List Value
  | .literal v => [v]
  | .aliased e _ => e.front
  | _ => []

/-- The literal that an alias begins with. -/
def Expr.underAlias : Expr → List Value
  | .aliased e _ => e.front
  | _ => []

mutual

/-- The literals under aliases to which a minus sign is applied. -/
def Expr.unguarded : Expr → List Value
  | .column _ => []
  | .literal _ => []
  | .wildcard _ => []
  | .binary _ l r => l.unguarded ++ r.unguarded
  | .unary .neg e => e.underAlias ++ e.unguarded
  | .unary _ e => e.unguarded
  | .call _ args => Expr.unguardedAll args
  | .aliased e _ => e.unguarded
  | .member e items _ => e.unguarded ++ Expr.unguardedAll items
  | .subquery s => s.unguarded

def Expr.unguardedAll : List Expr → List Value
  | [] => []
  | e :: es => e.unguarded ++ Expr.unguardedAll es

def Expr.unguardedOption : Option Expr → List Value
  | none => []
  | some e => e.unguarded

def Select.unguarded : Select → List Value
  | ⟨_, items, source?, filter?, groups, having?, orders, _, _⟩ =>
    Expr.unguardedAll items ++ (Source.unguardedOption source? ++
      (Expr.unguardedOption filter? ++ (Expr.unguardedAll groups ++
      (Expr.unguardedOption having? ++ OrderItem.unguardedAll orders))))

def Source.unguarded : Source → List Value
  | .table _ => []
  | .subquery s _ => s.unguarded

def Source.unguardedOption : Option Source → List Value
  | none => []
  | some x => x.unguarded

def OrderItem.unguardedAll : List OrderItem → List Value
  | [] => []
  | ⟨e, _⟩ :: os => e.unguarded ++ OrderItem.unguardedAll os

end

def Root.unguarded : Root → List Value
  | .expr e => e.unguarded
  | .select s => s.unguarded

lemma Expr.unguarded_unary {o : UnaryOp} (h : o ≠ .neg) (e : Expr) :
    (Expr.unary o e).unguarded = e.unguarded := by
  rw [Expr.unguarded]
  exact h

open Piece (Stops stops stops_append behindSign bare behindSign_append behindSign_append_raw)

/-- The operand of a minus sign, given what an expression writes elsewhere. -/
lemma behindSign_operand {e : Expr}
    (he : ∀ after, behindSign after (e.pieces false) =
      bare (if after then e.front else []) ++ bare e.unguarded) :
    behindSign true (e.pieces true) = bare (e.underAlias ++ e.unguarded) := by
  cases e with
  | literal v => rfl
  | _ =>
    rw [Expr.pieces_signed (by simp), he]
    simp [Expr.front, Expr.underAlias]

/-- Clauses that follow each other. -/
lemma stops_behindSign_append {ps qs : List Piece} {vs ws : List Value}
    (hp : Stops ps ∧ behindSign false ps = bare vs)
    (hq : Stops qs ∧ behindSign false qs = bare ws) :
    Stops (ps ++ qs) ∧ behindSign false (ps ++ qs) = bare (vs ++ ws) :=
  ⟨stops_append hp.1 hq.1, by rw [behindSign_append hq.1, hp.2, hq.2, Piece.bare_append]⟩

/-- The select list, written out or not, before the other clauses. -/
lemma behindSign_selectList (source? : Option Source) {items : List Expr} {ps : List Piece}
    {vs ws : List Value} (hitems : behindSign false (Expr.piecesItems [] items) = bare vs)
    (hstops : Stops ps) (hps : behindSign false ps = bare ws) :
    behindSign false (Piece.allColumns source? items ++ (Expr.piecesItems [] items ++ ps)) =
      bare (vs ++ ws) := by
  cases items with
  | nil =>
    rw [Expr.piecesItems] at hitems ⊢
    rw [List.nil_append, behindSign_append hstops, Piece.behindSign_allColumns, hps,
      Piece.bare_append, ← hitems]
    rfl
  | cons e es =>
    rw [Piece.allColumns, List.nil_append, behindSign_append hstops, hitems, hps,
      Piece.bare_append]

mutual

/-- Directly after a sign stands what an expression begins with, if the sign was there before,
and inside the expression what is under negated aliases. -/
theorem Expr.behindSign_pieces : ∀ (e : Expr) (after : Bool),
    behindSign after (e.pieces false) =
      bare (if after then e.front else []) ++ bare e.unguarded
  | .column c, after => by simp [Expr.pieces, Expr.front, Expr.unguarded]
  | .literal v, after => by
    cases after <;> simp [Expr.pieces, Expr.front, Expr.unguarded, behindSign, bare]
  | .wildcard table?, after => by simp [Expr.pieces, Expr.front, Expr.unguarded]
  | .binary o l r, after => by
    have hl := Expr.behindSign_pieces l
    have hr := Expr.behindSign_pieces r
    simp [Expr.pieces, Expr.front, Expr.unguarded, behindSign_append_raw, behindSign, endsInSign,
      stops, hl, hr]
  | .unary o e, after => by
    have he := Expr.behindSign_pieces e
    by_cases ho : o = .neg
    · subst ho
      simp [Expr.pieces, Expr.front, Expr.unguarded, behindSign_append_raw, behindSign,
        endsInSign, stops, behindSign_operand he]
    · rw [Expr.unguarded_unary ho]
      cases o <;> simp [Expr.pieces, Expr.front, behindSign_append_raw, behindSign, endsInSign,
        stops, he] at ho ⊢
  | .call f args, after => by
    have hargs := Expr.behindSign_piecesAll [] (fun _ => rfl) args
    simp [Expr.pieces, Expr.front, Expr.unguarded, behindSign_append_raw, behindSign, endsInSign,
      stops, hargs]
  | .aliased e a, after => by
    have he := Expr.behindSign_pieces e
    simp [Expr.pieces, Expr.front, Expr.unguarded, behindSign_append_raw, behindSign, stops, he]
  | .member e items negated, after => by
    have he := Expr.behindSign_pieces e
    have hmembers := Expr.piecesMembers_of_all
      (C := fun ps => behindSign false ps = bare (Expr.unguardedAll items))
      (by simp [behindSign_append_raw, behindSign, endsInSign, stops])
      (Expr.behindSign_piecesAll [] (fun _ => rfl) items)
    cases negated <;> simp [Expr.pieces_member_eq, Expr.front, Expr.unguarded, Piece.membership,
      behindSign_append_raw, behindSign, endsInSign, stops, he, hmembers]
  | .subquery s, after => by
    have hs := Select.behindSign_pieces s
    simp [Expr.pieces, Expr.front, Expr.unguarded, behindSign_append_raw, behindSign, endsInSign,
      stops, hs]

theorem Expr.behindSign_piecesAll (lead : List Piece)
    (hlead : ∀ ps, behindSign false (lead ++ ps) = behindSign false ps) :
    ∀ es : List Expr,
      behindSign false (Expr.piecesAll lead es) = bare (Expr.unguardedAll es)
  | [] => by simp [Expr.piecesAll, Expr.unguardedAll, behindSign]
  | e :: es => by
    have hes := Expr.behindSign_piecesAll [.raw ", "] (fun _ => rfl) es
    rw [Expr.piecesAll, hlead, behindSign_append ((Expr.ledBy_piecesAll ", " es).stops rfl),
      Expr.behindSign_pieces e, hes]
    simp [Expr.unguardedAll]

theorem Expr.behindSign_piecesItems (lead : List Piece)
    (hlead : ∀ ps, behindSign false (lead ++ ps) = behindSign false ps) :
    ∀ es : List Expr,
      behindSign false (Expr.piecesItems lead es) = bare (Expr.unguardedAll es)
  | [] => by simp [Expr.piecesItems, Expr.unguardedAll, behindSign]
  | e :: es => by
    have hes := Expr.behindSign_piecesItems [.raw ", "] (fun _ => rfl) es
    have hrest := (Expr.ledBy_piecesItems ", " es).stops rfl
    rw [Expr.piecesItems, hlead, behindSign_append (stops_append (Piece.stops_property e) hrest),
      Expr.behindSign_pieces e, behindSign_append hrest, hes]
    simp [Expr.unguardedAll]

theorem Expr.behindSign_piecesOption (lead : String)
    (hlead : endsInSign false (lead.toList.map .plain) = false) :
    ∀ e? : Option Expr,
      behindSign false (Expr.piecesOption lead e?) = bare (Expr.unguardedOption e?)
  | none => by simp [Expr.piecesOption, Expr.unguardedOption, behindSign]
  | some e => by
    simp [Expr.piecesOption, Expr.unguardedOption, behindSign, hlead, Expr.behindSign_pieces e]

theorem Select.behindSign_pieces : ∀ s : Select,
    behindSign false s.pieces = bare s.unguarded
  | ⟨distinct, items, source?, filter?, groups, having?, orders, limit?, offset?⟩ => by
    have hitems := Expr.behindSign_piecesItems [] (fun _ => rfl) items
    have hsource := Source.behindSign_piecesOption source?
    have hfilter := Expr.behindSign_piecesOption " WHERE " rfl filter?
    have hgroups := Expr.behindSign_piecesAll [.raw " GROUP BY "] (fun _ => rfl) groups
    have hhaving := Expr.behindSign_piecesOption " HAVING " rfl having?
    have horders := OrderItem.behindSign_piecesAll [.raw " ORDER BY "] (fun _ => rfl) orders
    have hlimit : behindSign false (Piece.number " LIMIT " limit?) = bare [] := by simp
    have hoffset : behindSign false (Piece.number " OFFSET " offset?) = bare [] := by simp
    obtain ⟨hstops, hclauses⟩ :=
      stops_behindSign_append ⟨(Source.ledBy_piecesOption _).stops rfl, hsource⟩ <|
      stops_behindSign_append ⟨(Expr.ledBy_piecesOption _ _).stops rfl, hfilter⟩ <|
      stops_behindSign_append ⟨(Expr.ledBy_piecesAll _ _).stops rfl, hgroups⟩ <|
      stops_behindSign_append ⟨(Expr.ledBy_piecesOption _ _).stops rfl, hhaving⟩ <|
      stops_behindSign_append ⟨(OrderItem.ledBy_piecesAll _ _).stops rfl, horders⟩ <|
      stops_behindSign_append ⟨Piece.stops_number rfl limit?, hlimit⟩
        ⟨Piece.stops_number rfl offset?, hoffset⟩
    have hlist := behindSign_selectList source? hitems hstops hclauses
    rw [List.append_nil, List.append_nil] at hlist
    rw [Select.pieces, Select.unguarded]
    cases distinct with
    | false => exact hlist
    | true => exact hlist

theorem Source.behindSign_pieces : ∀ x : Source,
    behindSign false x.pieces = bare x.unguarded
  | .table t => by simp [Source.pieces, Source.unguarded]
  | .subquery s a => by
    have hs := Select.behindSign_pieces s
    simp [Source.pieces, Source.unguarded, behindSign_append_raw, behindSign, endsInSign, stops,
      hs]

theorem Source.behindSign_piecesOption : ∀ x? : Option Source,
    behindSign false (Source.piecesOption x?) = bare (Source.unguardedOption x?)
  | none => by simp [Source.piecesOption, Source.unguardedOption, behindSign]
  | some x => by
    simp [Source.piecesOption, Source.unguardedOption, behindSign, endsInSign,
      Source.behindSign_pieces x]

theorem OrderItem.behindSign_piecesAll (lead : List Piece)
    (hlead : ∀ ps, behindSign false (lead ++ ps) = behindSign false ps) :
    ∀ os : List OrderItem,
      behindSign false (OrderItem.piecesAll lead os) = bare (OrderItem.unguardedAll os)
  | [] => by simp [OrderItem.piecesAll, OrderItem.unguardedAll, behindSign]
  | ⟨e, direction?⟩ :: os => by
    have hos := OrderItem.behindSign_piecesAll [.raw ", "] (fun _ => rfl) os
    have hrest := (OrderItem.ledBy_piecesAll ", " os).stops rfl
    rw [OrderItem.piecesAll, hlead,
      behindSign_append (stops_append (Piece.stops_direction direction?) hrest),
      Expr.behindSign_pieces e, behindSign_append hrest, hos]
    simp [OrderItem.unguardedAll]

end

lemma Root.behindSign_pieces (root : Root) :
    behindSign false root.pieces = bare root.unguarded := by
  cases root with
  | expr e => exact e.behindSign_pieces false
  | select s => exact s.behindSign_pieces

/-! ### Signs in a filling -/

namespace Piece

/-- The fragments with a sign: there is one, and it ends in it. -/
def Dashed (s : String) : Prop := s = "(-" ∨ '-' ∉ s.toList

lemma Dashed.meets {s : String} (h : Dashed s) (after : Bool) :
    meets after (s.toList.map .plain) = false := by
  rcases h with rfl | h
  · cases after <;> rfl
  · exact Lexeme.meets_plain h after

lemma admits_dashed : Admits Dashed := by
  have hlimit : Admits fun s => s = "(-" ∨ '-' ∉ s.toList := by
    refine ⟨by decide, fun n => .inr ?_, fun n => .inr ?_⟩
    all_goals
      rw [String.toList_append, List.mem_append, not_or]
      exact ⟨by decide, not_mem_toString rfl n⟩
  exact hlimit

/-- What makes two signs out of one, if it comes directly after it: a subtraction, or a value
with a sign. -/
def hasSign (signed : Value → Bool) : Piece → Bool
  | .op o => o == .sub
  | .hole v _ => signed v
  | _ => false

@[simp] lemma any_bare (signs : Value → Bool) (vs : List Value) :
    (bare vs).any (hasSign signs) = vs.any signs := by
  rw [bare, List.any_map]
  rfl

/-- **Two signs meet where a piece with a sign comes directly after one.** -/
theorem meets_fillLexemes {d : Dialect} {hole : Nat → Value → Bool → List Lexeme}
    {signs : Value → Bool}
    (htoken : ∀ o t after, d.token? o = some t →
      meets after (t.toList.map .plain) = (after && o == .sub) ∧
        endsInSign after (t.toList.map .plain) = (o == .sub))
    (hhole : ∀ k v signed after,
      meets after (hole k v signed) = (after && !signed && signs v) ∧
        endsInSign after (hole k v signed) = false)
    {ps : List Piece} (h : Orderly Dashed ps) (hs : Supported d ps) (after : Bool) (k : Nat) :
    meets after (fillLexemes d hole k ps) = (behindSign after ps).any (hasSign signs) := by
  induction ps generalizing after k with
  | nil => rfl
  | cons p ps ih =>
    cases p with
    | raw s =>
      rw [fillLexemes, Lexeme.meets_append, h.1.meets, Bool.false_or, behindSign,
        ih h.2 (supported_raw.mp hs)]
    | name s =>
      rw [fillLexemes, meets, behindSign, ih h.2 (supported_name.mp hs)]
      simp
    | op o =>
      obtain ⟨ho, hs⟩ := supported_op.mp hs
      obtain ⟨t, ht⟩ := Option.isSome_iff_exists.mp ho
      obtain ⟨hmeets, hends⟩ := htoken o t after ht
      rw [fillLexemes, ht, Option.getD_some, Lexeme.meets_append, hmeets, hends, behindSign,
        List.any_append, ih h hs]
      cases after <;> simp [hasSign]
    | hole v signed =>
      obtain ⟨hmeets, hends⟩ := hhole k v signed after
      rw [fillLexemes, Lexeme.meets_append, hmeets, hends, behindSign, List.any_append,
        ih h.2 (supported_hole.mp hs)]
      cases after <;> cases signed <;> simp [hasSign]

end Piece

namespace Builtin

open Lexeme (OpensComment)

lemma sign_of_token (b : Builtin) (o : BinaryOp) (t : String) (after : Bool)
    (h : b.dialect.token? o = some t) :
    meets after (t.toList.map .plain) = (after && o == .sub) ∧
      endsInSign after (t.toList.map .plain) = (o == .sub) := by
  revert after
  cases b <;> cases o <;> cases h <;> decide

lemma sign_of_mark (b : Builtin) (k : Nat) (after : Bool) :
    meets after ((b.dialect.placeholder.mark k).toList.map .plain) = false ∧
      endsInSign after ((b.dialect.placeholder.mark k).toList.map .plain) = false := by
  have hmark : '-' ∉ (b.dialect.placeholder.mark k).toList ∧
      (b.dialect.placeholder.mark k).toList ≠ [] := by
    cases b with
    | generic | mysql => simp [dialect, Dialect.generic, Dialect.mysql, Placeholder.mark]
    | postgres | sqlite =>
      refine ⟨not_mem_mark_numbered (by decide) (by decide) 1 k, ?_⟩
      simp [dialect, Dialect.postgres, Dialect.sqlite, Placeholder.mark]
  exact ⟨Lexeme.meets_plain hmark.1 after, Lexeme.endsInSign_plain hmark.1 hmark.2 after⟩

/-- A value written inline begins with a sign. -/
def negative (b : Builtin) (v : Value) : Bool := (b.dialect.inline v).toList.head? == some '-'

/-- A value has no sign but at its beginning. -/
lemma sign_of_inline (b : Builtin) (v : Value) (after : Bool) :
    meets after (b.inlineLexemes v) = (after && b.negative v) ∧
      endsInSign after (b.inlineLexemes v) = false := by
  rw [inlineLexemes]
  cases hp : b.payload? v with
  | some s =>
    have hnegative : b.negative v = false := by
      rcases b.lead_eq v with hv | hv <;>
        simp [negative, inline_of_payload hp, hv, quoteText]
    rw [hnegative, Bool.and_false]
    rcases b.lead_eq v with hv | hv <;> simp [hv, meets, endsInSign]
  | none =>
    obtain ⟨s, hs, hinline⟩ := inline_of_bare hp
    have hdash : '-' ∉ s := hs.not_mem rfl (by decide)
    have hends := Lexeme.endsInSign_plain hdash hs.1
    rcases hinline with hinline | hinline
    · have hnegative : b.negative v = false := by
        rw [negative, hinline, beq_eq_false_iff_ne]
        exact fun hhead => hdash (List.mem_of_mem_head? hhead)
      rw [hinline, Lexeme.meets_plain hdash, hends, hnegative, Bool.and_false]
      exact ⟨rfl, rfl⟩
    · have hnegative : b.negative v = true := by simp [negative, hinline]
      rw [hinline, List.map_cons, meets, endsInSign, Lexeme.meets_plain hdash, hends, hnegative]
      simp

/-- The gap parts the sign of a value from the one before. -/
lemma sign_of_shown (b : Builtin) (v : Value) (signed after : Bool) :
    meets after (b.shown v signed) = (after && !signed && b.negative v) ∧
      endsInSign after (b.shown v signed) = false := by
  obtain ⟨hmeets, hends⟩ := b.sign_of_inline v after
  by_cases hgap : signed ∧ (b.dialect.inline v).toList.head? = some '-'
  · have hspace := b.sign_of_inline v false
    rw [shown, Piece.gap, if_pos hgap]
    simp [meets, endsInSign, hspace, hgap.1]
  · rw [shown, Piece.gap, if_neg hgap]
    refine ⟨?_, by simpa using hends⟩
    cases signed with
    | false => simpa using hmeets
    | true =>
      have hnegative : b.negative v = false := by simpa [negative] using hgap
      simpa [hnegative] using hmeets

/-- **Where comments begin.** A text has none, and a display has one exactly if a minus sign is
applied to an alias that stands, perhaps through other aliases, for a value with a sign. -/
theorem comments_of_toQuery {b : Builtin} {root : Root} {q : Query}
    (h : root.toQuery b.dialect = .ok q)
    (hf : ∀ f ∈ root.functions, '-' ∉ f.toList ∧ '\'' ∉ f.toList ∧ b.dialect.quote ∉ f.toList) :
    ¬OpensComment (b.quoting.scan q.text.toList) ∧
      (OpensComment (b.quoting.scan q.display.toList) ↔
        ∃ v ∈ root.unguarded, (b.dialect.inline v).toList.head? = some '-') := by
  have hquotes : ∀ f ∈ root.functions, b.dialect.quote ∉ f.toList ∧ '\'' ∉ f.toList :=
    fun f hm => ⟨(hf f hm).2.2, (hf f hm).2.1⟩
  have hdashed := root.orderly_pieces Piece.admits_dashed fun f hm => .inr (hf f hm).1
  have hsupported := Root.supported_pieces (Root.faults_of_toQuery h)
  have htext : meets false (Piece.lexemes b.dialect 0 root.pieces) = false := by
    have hmark : ∀ (k : Nat) (v : Value) (signed after : Bool),
        meets after ((b.dialect.placeholder.mark k).toList.map .plain) =
            (after && !signed && (fun _ => false) v) ∧
          endsInSign after ((b.dialect.placeholder.mark k).toList.map .plain) = false :=
      fun k _ _ after => by simpa using b.sign_of_mark k after
    rw [Piece.lexemes_eq_fillLexemes, Piece.meets_fillLexemes b.sign_of_token hmark hdashed
      hsupported, root.behindSign_pieces, Piece.any_bare]
    simp
  have hdisplay : meets false (Piece.fillLexemes b.dialect (fun _ => b.shown) 0 root.pieces) =
      root.unguarded.any b.negative := by
    rw [Piece.meets_fillLexemes b.sign_of_token (fun _ => b.sign_of_shown) hdashed hsupported,
      root.behindSign_pieces, Piece.any_bare]
  rw [read_text h hquotes, read_display h hquotes, Lexeme.opensComment_iff,
    Lexeme.opensComment_iff, htext, hdisplay]
  simp [negative]

/-- Negated literals with a sign and negated aliases without one. -/
theorem comments_of_toQuery_apart :
    let root : Root := .expr <| .call "least" [.unary .neg (.lit (-5 : Int64)),
      .unary .neg (.aliased (.lit "--") "-"), .unary .neg (.unary .neg (.lit (-5 : Int64)))]
    ∃ q, root.toQuery mysql.dialect = .ok q ∧
      ¬OpensComment (mysql.quoting.scan q.text.toList) ∧
      ¬OpensComment (mysql.quoting.scan q.display.toList) := by
  intro root
  have hq : root.toQuery mysql.dialect = .ok (root.query mysql.dialect) :=
    Root.toQuery_of_sound (by decide)
  obtain ⟨htext, hdisplay⟩ := comments_of_toQuery hq (by decide)
  refine ⟨_, hq, htext, fun hcomment => ?_⟩
  have hunguarded : root.unguarded = [.text "--"] := rfl
  rw [hunguarded] at hdisplay
  obtain ⟨v, hv, hsign⟩ := hdisplay.mp hcomment
  obtain rfl := List.mem_singleton.mp hv
  revert hsign
  decide

/-- A sign before an alias of a negative number begins a comment in the display. -/
theorem comment_behind_alias :
    ¬∀ (b : Builtin) (root : Root) (q : Query), root.toQuery b.dialect = .ok q →
      (∀ f ∈ root.functions, '-' ∉ f.toList ∧ '\'' ∉ f.toList ∧ b.dialect.quote ∉ f.toList) →
      ¬OpensComment (b.quoting.scan q.text.toList) ∧
        ¬OpensComment (b.quoting.scan q.display.toList) := by
  intro h
  let root : Root := .expr (.unary .neg (.aliased (.lit (-5 : Int64)) "x"))
  have hq : root.toQuery postgres.dialect = .ok (root.query postgres.dialect) :=
    Root.toQuery_of_sound (by decide)
  have hdisplay : (root.query postgres.dialect).display = "(--5 AS \"x\")" := rfl
  refine (h postgres root _ hq (by decide)).2 ?_
  rw [hdisplay]
  decide +kernel

end Builtin

end SqlTree
