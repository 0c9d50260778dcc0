import SqlTree.Proofs.Grammar
import SqlTree.Proofs.Normal

/-!
How the reader takes the pieces of an expression, a list and the clauses of a statement off a
tape, given that it takes those of the parts.

A clause that is absent leaves no trace, so a reader finds out by what comes next whether it is
there: each begins with a keyword of its own, and so does whatever can come next instead.
-/

namespace SqlTree

open Tape (put putName write put_append)

namespace Read

variable {b : Builtin} {d : Dialect} {k m n : Nat} {t : Tape}

/-! ### Lists -/

/-- Either nothing is written, or a lead and behind it what the reader takes. -/
def TakesLed {α : Type} (d : Dialect) (lead : String) (p : Read (List α)) (ps : List Piece)
    (as : List α) (t : Tape) : Prop :=
  (ps = [] ∧ as = []) ∨ ∃ qs, ps = .raw lead :: qs ∧ ∀ k, Takes p (write d k qs t) as t

lemma takesLed_exprs {es : List Expr} {p : Read (List Expr)} (lead : String)
    (h : es ≠ [] → ∀ k, Takes p (write d k (Expr.piecesAll [] es) t) (Expr.normalAll es) t) :
    TakesLed d lead p (Expr.piecesAll [.raw lead] es) (Expr.normalAll es) t := by
  by_cases hes : es = []
  · exact .inl ⟨by rw [hes, Expr.piecesAll], by rw [hes, Expr.normalAll]⟩
  · exact .inr ⟨_, Expr.piecesAll_of_ne hes lead, h hes⟩

lemma takesLed_items {es : List Expr} {p : Read (List Expr)} (lead : String)
    (h : es ≠ [] → ∀ k, Takes p (write d k (Expr.piecesItems [] es) t) (Expr.normalItems es) t) :
    TakesLed d lead p (Expr.piecesItems [.raw lead] es) (Expr.normalItems es) t := by
  by_cases hes : es = []
  · exact .inl ⟨by rw [hes, Expr.piecesItems], by rw [hes, Expr.normalItems]⟩
  · exact .inr ⟨_, Expr.piecesItems_of_ne hes lead, h hes⟩

lemma takesLed_orders {os : List OrderItem} {p : Read (List OrderItem)} (lead : String)
    (h : os ≠ [] → ∀ k, Takes p (write d k (OrderItem.piecesAll [] os) t)
      (OrderItem.normalAll os) t) :
    TakesLed d lead p (OrderItem.piecesAll [.raw lead] os) (OrderItem.normalAll os) t := by
  by_cases hos : os = []
  · exact .inl ⟨by rw [hos, OrderItem.piecesAll], by rw [hos, OrderItem.normalAll]⟩
  · exact .inr ⟨_, OrderItem.piecesAll_of_ne hos lead, h hos⟩

/-- A list, from its first element and those behind it. -/
lemma takes_elements {α : Type} {p : Read α} {ps qs : List Piece} {a : α} {as : List α}
    (ht : Starts closers t)
    (hp : ∀ k u, Starts (", " :: closers) u → Takes p (write d k ps u) a u)
    (hmore : TakesLed d ", " (list p n) qs as t) (k : Nat) :
    Takes (list p (n + 1)) (write d k (ps ++ qs) t) (a :: as) t := by
  rw [Tape.write_append]
  rcases hmore with ⟨rfl, rfl⟩ | ⟨rs, rfl, hlist⟩
  · rw [Tape.write_nil]
    exact takes_list (hp k t (ht.mono fun _ h => .tail _ h)) (takes_more_nil (ht.refuses rfl) _)
  · rw [Tape.write_raw]
    exact takes_list (hp k _ ((starts_put ", " _).mono (by simp))) (takes_more (hlist _))

lemma takes_listClause_led {α : Type} {p : Read α} {lead : String} {ps : List Piece} {as : List α}
    (hlead : Refuses (skip lead) t) (h : TakesLed d lead (list p n) ps as t) (k : Nat) :
    Takes (listClause lead p n) (write d k ps t) as t := by
  rcases h with ⟨rfl, rfl⟩ | ⟨qs, rfl, hlist⟩
  · exact refuses_listClause hlead
  · rw [Tape.write_raw]
    exact takes_listClause (hlist k)

lemma takes_closed_pieces {close : String} {es : List Expr} (hclose : foreign close = true)
    (hw : ∀ f ∈ Expr.functionsAll es, isWord f = true)
    (h : es ≠ [] → ∀ k, Takes (list (expr b m) n)
      (write b.dialect k (Expr.piecesAll [] es) (put close t)) (Expr.normalAll es) (put close t))
    (k : Nat) :
    Takes (closed close (expr b m) n)
      (write b.dialect k (Expr.piecesAll [] es) (put close t)) (Expr.normalAll es) t := by
  by_cases hes : es = []
  · subst hes
    rw [Expr.piecesAll, Expr.normalAll]
    exact takes_closed_nil close n t
  · exact takes_closed ((begins_piecesAll hes hw k _).refuses hclose) (h hes k)

/-! ### Expressions -/

/-- The reader takes the pieces of an expression together with all the names behind them: a name
belongs to the expression only if nothing closes that before. -/
def Reads (b : Builtin) (n : Nat) (e : Expr) : Prop :=
  ∀ signed k t, Cut t → expr b n (write b.dialect k (e.pieces signed) t) = aliases e.normal t

lemma Reads.takes {e : Expr} (h : Reads b n e) (signed : Bool) (k : Nat) (ht : Ends t) :
    Takes (expr b n) (write b.dialect k (e.pieces signed) t) e.normal t :=
  takes_expr (h signed k t ht.cut) ht

lemma reads_column (c : ColumnRef) : Reads b (n + 1) (.column c) := by
  intro signed k t ht
  rw [Expr.pieces, Expr.normal]
  exact expr_of_primary (takes_column c ht)

lemma reads_literal (v : Value) : Reads b (n + 1) (.literal v) := by
  intro signed k t ht
  rw [Expr.pieces, Expr.normal, Tape.write_hole, Tape.write_nil]
  exact expr_of_primary (takes_primary_hole k v ht)

lemma reads_wildcard (table? : Option String) : Reads b (n + 1) (.wildcard table?) := by
  intro signed k t _
  rw [Expr.pieces, Expr.normal]
  exact expr_of_primary (takes_wildcard table? t)

/-- A group that begins with an operand. -/
lemma expr_of_reads {l e : Expr} {x : Suffix} {s : String} {u w : Tape}
    (hx : x.text? b.dialect = some s) (hw : ∀ f ∈ l.functions, isWord f = true)
    (hl : Reads b n l) (h : Takes (afterOperand (expr b n) (select b n) n l.normal x) u e w)
    (k : Nat) :
    expr b (n + 1) (put "(" (write b.dialect k (l.pieces false) (put s u))) = aliases e w :=
  expr_of_operand hx (begins_pieces false l k _ hw) (hl.takes false k (ends_suffix hx u)) h

lemma reads_binary {op : BinaryOp} {l r : Expr} (hop : op.faults b.dialect = [])
    (hw : ∀ f ∈ l.functions, isWord f = true) (hl : Reads b n l) (hr : Reads b n r) :
    Reads b (n + 1) (.binary op l r) := by
  intro signed k t _
  obtain ⟨token, htoken⟩ := BinaryOp.token_of_faults hop
  have hx : (Suffix.op op).text? b.dialect = some (" " ++ token ++ " ") := by
    simp [Suffix.text?, htoken]
  have hclose : Ends (put ")" t) := ends_put rfl rfl t
  rw [Expr.pieces, Expr.normal]
  simp only [Tape.write_raw, Tape.write_append, Tape.write_op, Tape.write_nil, htoken,
    Option.getD_some, ← put_append, ← String.append_assoc]
  exact expr_of_reads hx hw hl ((hr.takes false _ hclose).close (Expr.binary op l.normal)) k

lemma reads_unary (op : UnaryOp) {e : Expr} (hw : ∀ f ∈ e.functions, isWord f = true)
    (he : Reads b n e) : Reads b (n + 1) (.unary op e) := by
  intro signed k t _
  have hclose : Ends (put ")" t) := ends_put rfl rfl t
  rw [Expr.pieces_unary, Tape.write_raw, Tape.write_append, Tape.write_raw, Tape.write_nil]
  cases op with
  | distinct =>
    -- what is read is a call, and the operand is its only argument
    have hlist := takes_list (he.takes false k hclose) (takes_more_nil (refuses_skip rfl t) n)
    have hbegins := begins_pieces (b := b) false e k (put ")" t) hw
    rw [Expr.normal, UnaryOp.opening, show "DISTINCT(" = "DISTINCT" ++ "(" from rfl, put_append]
    exact expr_of_primary (takes_primary_call (by decide) (isWordChar_of_isWord rfl)
      (takes_closed (hbegins.refuses rfl) hlist))
  | not =>
    rw [Expr.normal_unary .not e (by decide), UnaryOp.opening,
      show "(NOT " = "(" ++ "NOT " from rfl, put_append]
    exact expr_of_primary (takes_primary_group (takes_group_not (he.takes false k hclose)))
  | neg =>
    rw [Expr.normal_unary .neg e (by decide), UnaryOp.opening,
      show "(-" = "(" ++ "-" from rfl, put_append]
    exact expr_of_primary (takes_primary_group (takes_group_neg (he.takes true k hclose)))
  | isNull =>
    have hx : Suffix.isNull.text? b.dialect = some " IS NULL)" := rfl
    rw [Expr.normal_unary .isNull e (by decide)]
    exact expr_of_reads hx hw he (takes_pure _ t) k
  | isNotNull =>
    have hx : Suffix.isNotNull.text? b.dialect = some " IS NOT NULL)" := rfl
    rw [Expr.normal_unary .isNotNull e (by decide)]
    exact expr_of_reads hx hw he (takes_pure _ t) k

lemma reads_call {f : String} {args : List Expr} (hf : isWord f = true)
    (hargs : ∀ k t, Takes (closed ")" (expr b n) n)
      (write b.dialect k (Expr.piecesAll [] args) (put ")" t)) (Expr.normalAll args) t) :
    Reads b (n + 1) (.call f args) := by
  intro signed k t _
  rw [Expr.pieces, Expr.normal]
  simp only [Tape.write_raw, Tape.write_append, Tape.write_nil]
  exact expr_of_primary (takes_primary_call (ne_empty_of_isWord hf) (isWordChar_of_isWord hf)
    (hargs _ t))

lemma reads_aliased {e : Expr} (he : Reads b n e) (a : String) : Reads b n (.aliased e a) := by
  intro signed k t _
  have hcut : Cut (put " AS " (putName b.dialect.quote a t)) := (starts_put _ _).cut rfl
  rw [Expr.pieces, Expr.normal, Tape.write_append, Tape.write_raw, Tape.write_name, Tape.write_nil,
    he false k _ hcut, aliases_put]

/-- A statement alone in the list stands without parentheses of its own. -/
lemma takes_membersPieces {items : List Expr} (hw : ∀ f ∈ Expr.functionsAll items, isWord f = true)
    (hone : ∀ s, items = [.subquery s] → ∀ k, Takes (select b n)
      (write b.dialect k s.pieces (put "))" t)) s.normal (put "))" t))
    (hall : items ≠ [] → ∀ k, Takes (list (expr b n) n)
      (write b.dialect k (Expr.piecesAll [] items) (put "))" t)) (Expr.normalAll items)
      (put "))" t)) (k : Nat) :
    Takes (members (expr b n) (select b n) n)
      (write b.dialect k (Expr.piecesMembers items) (put "))" t)) (Expr.normalAll items) t := by
  by_cases hs : ∃ s, items = [.subquery s]
  · obtain ⟨s, rfl⟩ := hs
    rw [Expr.piecesMembers, Expr.normalAll, Expr.normalAll, Expr.normal]
    exact takes_members_subquery (hone s rfl k)
  · rw [Expr.piecesMembers_of_ne fun s h => hs ⟨s, h⟩]
    refine takes_members (refuses_select ?_ b n) (takes_closed_pieces rfl hw hall k)
    by_cases hne : items = []
    · rw [hne, Expr.piecesAll, Tape.write_nil]
      exact refuses_skip rfl t
    · exact (begins_piecesAll hne hw k _).refuses rfl

lemma reads_member {e : Expr} {items : List Expr} (negated : Bool)
    (hw : ∀ f ∈ e.functions, isWord f = true) (he : Reads b n e)
    (hitems : ∀ k t, Takes (members (expr b n) (select b n) n)
      (write b.dialect k (Expr.piecesMembers items) (put "))" t)) (Expr.normalAll items) t) :
    Reads b (n + 1) (.member e items negated) := by
  intro signed k t _
  have hx : (Suffix.member negated).text? b.dialect =
    some (if negated then " NOT IN (" else " IN (") := rfl
  rw [Expr.pieces_member_eq, Expr.normal]
  simp only [Tape.write_raw, Tape.write_append, Tape.write_nil, Piece.membership]
  exact expr_of_reads hx hw he ((hitems _ t).return (Expr.member e.normal · negated)) k

lemma reads_subquery {s : Select} (hs : ∀ k t, Takes (select b n)
      (write b.dialect k s.pieces (put ")" t)) s.normal (put ")" t)) :
    Reads b (n + 1) (.subquery s) := by
  intro signed k t _
  -- what tells a statement from a grouped expression is the keyword it starts with
  obtain ⟨u, hu⟩ := write_select s b.dialect k (put ")" t)
  have hs := hs k t
  rw [hu] at hs
  rw [Expr.pieces, Expr.normal, Tape.write_raw, Tape.write_append, Tape.write_raw,
    Tape.write_nil, hu]
  exact expr_of_primary (takes_primary_group (takes_group_subquery hs))

/-! ### Clauses -/

/-- A property after a column in a select list is read as its alias. -/
lemma takes_item {e : Expr} (h : Reads b n e) (k : Nat) (ht : Ends t) :
    Takes (expr b n) (write b.dialect k (e.pieces false ++ Piece.property e) t)
      (Normal.item e e.normal) t := by
  rw [Tape.write_append]
  cases e with
  | column c =>
    rw [Piece.property, Normal.item]
    cases c.distinctProperty? with
    | none => exact h.takes false k ht
    | some a =>
      have hcut : Cut (put " AS " (putName b.dialect.quote a t)) := (starts_put _ _).cut rfl
      rw [Tape.write_raw, Tape.write_name, Tape.write_nil]
      refine (h false k _ hcut).trans ?_
      rw [aliases_put]
      exact takes_aliases _ ht.noName
  | _ => exact h.takes false k ht

lemma takes_direction (x? : Option Direction) (h : Starts (", " :: closers) t) (k : Nat) :
    Takes (opt direction) (write d k (Piece.direction x?) t) x? t := by
  rcases x? with _ | _ | _
  · have hasc : Refuses (skip " ASC") t := h.refuses rfl
    have hdesc : Refuses (skip " DESC") t := h.refuses rfl
    exact refuses_opt (hasc.bind.or hdesc.bind)
  · refine takes_opt (Takes.orElse ?_)
    exact (takes_skip " ASC" t).return fun _ => Direction.asc
  · have hasc : Refuses (skip " ASC") (put " DESC" t) := refuses_skip rfl t
    exact takes_opt (hasc.bind.orElse ((takes_skip " DESC" t).return fun _ => Direction.desc))

lemma ends_direction (x? : Option Direction) (h : Starts (", " :: closers) t) (k : Nat) :
    Ends (write d k (Piece.direction x?) t) := by
  rcases x? with _ | _ | _
  · exact ends_of_starts h
  · exact (ends_put rfl rfl t : Ends (put " ASC" t))
  · exact (ends_put rfl rfl t : Ends (put " DESC" t))

lemma takes_orderItem {e : Expr} (he : Reads b n e) (x? : Option Direction) (k : Nat)
    (ht : Starts (", " :: closers) t) :
    Takes (orderItem (expr b n)) (write b.dialect k (e.pieces false ++ Piece.direction x?) t)
      ⟨e.normal, x?⟩ t := by
  rw [Tape.write_append]
  exact (he.takes false k (ends_direction x? ht _)).bind
    ((takes_direction x? ht _).return (OrderItem.mk e.normal))

lemma takes_clauseNumber {lead : String} {leads : List String} (ht : Starts leads t)
    (hlead : clashes lead leads = true) (hcut : Cut t) (n? : Option Nat) (k : Nat) :
    Takes (clause lead number) (write d k (Piece.number lead n?) t) n? t := by
  cases n? with
  | none => exact refuses_clause (ht.refuses hlead)
  | some n =>
    rw [Piece.number, Tape.write_raw, put_append]
    exact takes_clause (takes_number n hcut)

lemma starts_number {leads : List String} (ht : Starts leads t) (lead : String)
    (n? : Option Nat) (k : Nat) : Starts (lead :: leads) (write d k (Piece.number lead n?) t) := by
  cases n? with
  | none => exact ht.mono fun _ h => .tail _ h
  | some n =>
    rw [Piece.number, Tape.write_raw, put_append]
    exact .inr ⟨lead, by simp, _, rfl⟩

/-- The reader takes the clauses that the pieces make up, and these begin with one of the
leads or the end of the statement. -/
def TakesClauses {α : Type} (d : Dialect) (leads : List String) (p : Read α) (ps : List Piece)
    (a : α) : Prop :=
  ∀ k t, Starts [")"] t → Takes p (write d k ps t) a t ∧ Starts leads (write d k ps t)

lemma TakesClauses.cons {α β : Type} {leads : List String} {lead : String} {p : Read α} {a : α}
    {f : α → Read β} {x : β} {ps qs : List Piece} (h : TakesClauses d leads (f a) qs x)
    (hp : ∀ k t, Starts leads t → Takes p (write d k ps t) a t)
    (hs : ∀ k t, Starts leads t → Starts (lead :: leads) (write d k ps t)) :
    TakesClauses d (lead :: leads) (p >>= f) (ps ++ qs) x := by
  intro k t ht
  obtain ⟨htakes, hstarts⟩ := h (k + (Piece.values ps).length) t ht
  rw [Tape.write_append]
  exact ⟨(hp k _ hstarts).bind htakes, hs k _ hstarts⟩

/-! ### Statements -/

/-- An empty select list is written as the wildcard that it stands for. -/
lemma write_allColumns {source? : Option Source} (h : source? ≠ none) (d : Dialect) (k : Nat)
    (t : Tape) :
    ∃ table?, Normal.wildcards source? [] = [.wildcard table?] ∧
      write d k (Piece.allColumns source? []) t =
        write d k (Piece.qualifier table? ++ [.raw "*"]) t := by
  rcases source? with _ | (x | ⟨s, a⟩)
  · exact absurd rfl h
  · exact ⟨some x.reference, rfl, rfl⟩
  · exact ⟨none, rfl, rfl⟩

lemma begins_selectList {source? : Option Source} {items : List Expr}
    (hsource : items ≠ [] ∨ source? ≠ none)
    (h : ∀ f ∈ Expr.functionsAll items, isWord f = true) (b : Builtin) (k : Nat) (t : Tape) :
    Begins (write b.dialect k (Piece.allColumns source? items ++ Expr.piecesItems [] items) t) := by
  cases items with
  | cons e es =>
    rw [Expr.functionsAll, List.forall_mem_append] at h
    rw [Piece.allColumns, Expr.piecesItems, List.nil_append, List.nil_append, Tape.write_append]
    exact begins_pieces false e k _ h.1
  | nil =>
    obtain ⟨table?, -, hwrite⟩ := write_allColumns (by simpa using hsource) b.dialect k t
    rw [Expr.piecesItems, List.append_nil, hwrite]
    exact begins_pieces false (.wildcard table?) k t (by simp [Expr.functions])

/-- The select list, written out or not. -/
lemma takes_selectList {source? : Option Source} {items : List Expr}
    (hsource : items ≠ [] ∨ source? ≠ none)
    (h : items ≠ [] → ∀ k, Takes (list (expr b (m + 1)) n)
      (write b.dialect k (Expr.piecesItems [] items) t) (Expr.normalItems items) t)
    (ht : Starts closers t) (k : Nat) :
    Takes (list (expr b (m + 1)) n)
      (write b.dialect k (Piece.allColumns source? items ++ Expr.piecesItems [] items) t)
      (Normal.wildcards source? items ++ Expr.normalItems items) t := by
  cases items with
  | cons e es =>
    rw [Piece.allColumns, Normal.wildcards]
    exact h (by simp) k
  | nil =>
    obtain ⟨table?, hnormal, hwrite⟩ := write_allColumns (by simpa using hsource) b.dialect k t
    have hends : Ends t := ends_of_starts (ht.mono fun _ h => .tail _ h)
    rw [Expr.piecesItems, List.append_nil, Expr.normalItems, List.append_nil, hnormal, hwrite]
    exact takes_list (takes_expr (expr_of_primary (takes_wildcard table? t)) hends)
      (takes_more_nil (ht.refuses rfl) n)

lemma takes_statement {E : Read Expr} {S : Read Select} {distinct : Bool} {items : List Expr}
    {ps qs : List Piece} {s : Select} (hbegins : ∀ k t, Begins (write d k ps t))
    (hitems : ∀ k t, Starts closers t → Takes (list E n) (write d k ps t) items t)
    (hclauses : TakesClauses d closers (clauses E S n distinct items) qs s) (k : Nat)
    (ht : Starts [")"] t) :
    Takes (statement E S n) (put "SELECT "
      (write d k ((if distinct then [.raw "DISTINCT "] else []) ++ (ps ++ qs)) t)) s t := by
  obtain ⟨htakes, hstarts⟩ := hclauses (k + (Piece.values ps).length) t ht
  refine (takes_skip _ _).bind ?_
  cases distinct with
  | false =>
    rw [if_neg (by decide), List.nil_append, Tape.write_append]
    exact (refuses_opt ((hbegins _ _).refuses rfl)).bind ((hitems _ _ hstarts).bind htakes)
  | true =>
    rw [if_pos rfl, List.singleton_append, Tape.write_raw, Tape.write_append]
    exact (takes_opt (takes_skip _ _)).bind ((hitems _ _ hstarts).bind htakes)

end Read

end SqlTree
