import SqlTree.Proofs.Reading

/-!
How the reader takes one node of an expression off a tape, given that it takes the parts of it.

An expression begins in a way that no keyword does, and what can follow it does not go on with
it. These two facts tell the reader at every point which way to go.
-/

namespace SqlTree

open Tape (put putName putHole write put_append)

namespace Read

variable {b : Builtin} {d : Dialect} {E : Read Expr} {S : Read Select} {e : Expr} {k n : Nat}
  {t u w : Tape}

lemma ne_empty_of_isWord {f : String} (h : isWord f = true) : f ≠ "" := by
  rintro rfl
  cases h

lemma isWordChar_of_isWord {f : String} (h : isWord f = true) :
    ∀ c ∈ f.toList, isWordChar c = true := by
  unfold isWord at h
  cases hf : f.toList with
  | nil => simp
  | cons c cs =>
    simp only [hf, Bool.and_eq_true, List.all_eq_true] at h
    rw [List.forall_mem_cons]
    refine ⟨?_, h.2⟩
    have hc := h.1
    simp only [isWordChar, Char.isAlphanum, Bool.or_eq_true] at hc ⊢
    exact hc.imp_left .inl

/-! ### Where expressions begin and end -/

/-- Nothing goes on with an expression here. -/
structure Ends (t : Tape) : Prop where
  cut : Cut t
  noName : Refuses (skip " AS ") t

/-- What can follow a list. -/
def closers : List String :=
  [" FROM ", " WHERE ", " GROUP BY ", " HAVING ", " ORDER BY ", " LIMIT ", " OFFSET ", ")"]

lemma ends_put {s : String} (hcut : s.toList.head?.any fun c => c != '.' && !c.isDigit)
    (hname : clash " AS ".toList s.toList = true) (t : Tape) : Ends (put s t) where
  cut := (starts_put s t).cut (by simp [hcut])
  noName := refuses_skip hname t

/-- An element of a list ends where the list does, or before a comma. -/
lemma ends_of_starts (h : Starts (", " :: closers) t) : Ends t where
  cut := h.cut rfl
  noName := h.refuses rfl

lemma starts_close (t : Tape) : Starts closers (put ")" t) :=
  .inr ⟨")", by simp [closers], t, rfl⟩

lemma write_qualifier (table : String) (ps : List Piece) :
    write d k (Piece.qualifier (some table) ++ ps) t =
      putName d.quote table (put "." (write d k ps t)) := by
  simp [Piece.qualifier]

/-- Whatever an expression begins with, it is no keyword. -/
theorem begins_pieces (signed : Bool) : ∀ (e : Expr) (k : Nat) (t : Tape),
    (∀ f ∈ e.functions, isWord f = true) → Begins (write b.dialect k (e.pieces signed) t)
  | .column ⟨name, none, _⟩, k, t, _ => by
    rw [Expr.pieces]
    exact .name _ _ _
  | .column ⟨name, some table, _⟩, k, t, _ => by
    rw [Expr.pieces, Piece.column, write_qualifier]
    exact .name _ _ _
  | .literal v, k, t, _ => by
    rw [Expr.pieces, Tape.write_hole]
    exact begins_putHole b k v _
  | .wildcard none, k, t, _ => by
    rw [Expr.pieces]
    exact .sign (by decide) _ _
  | .wildcard (some table), k, t, _ => by
    rw [Expr.pieces, write_qualifier]
    exact .name _ _ _
  | .binary .., k, t, _ | .subquery _, k, t, _ => by
    rw [Expr.pieces, Tape.write_raw]
    exact begins_put ⟨_, rfl⟩ _
  | .unary .distinct e, k, t, _ => by
    rw [Expr.pieces, Tape.write_raw, show "DISTINCT(" = "DISTINCT" ++ "(" from rfl, put_append]
    exact .call (isWordChar_of_isWord (f := "DISTINCT") rfl) _
  | .unary .not e, k, t, _ | .unary .neg e, k, t, _ | .unary .isNull e, k, t, _
  | .unary .isNotNull e, k, t, _ => by
    rw [Expr.pieces, Tape.write_raw]
    exact begins_put ⟨_, rfl⟩ _
  | .call f args, k, t, h => by
    rw [Expr.functions, List.forall_mem_cons] at h
    rw [Expr.pieces, Tape.write_raw, Tape.write_raw]
    exact .call (isWordChar_of_isWord h.1) _
  | .aliased e a, k, t, h => by
    rw [Expr.pieces, Tape.write_append]
    exact begins_pieces false e k _ (by simpa only [Expr.functions] using h)
  | .member e items negated, k, t, _ => by
    rw [Expr.pieces_member_eq, Tape.write_raw]
    exact begins_put ⟨_, rfl⟩ _

lemma begins_piecesAll {es : List Expr} (hes : es ≠ [])
    (h : ∀ f ∈ Expr.functionsAll es, isWord f = true) (k : Nat) (t : Tape) :
    Begins (write b.dialect k (Expr.piecesAll [] es) t) := by
  cases es with
  | nil => exact absurd rfl hes
  | cons e es =>
    rw [Expr.functionsAll, List.forall_mem_append] at h
    rw [Expr.piecesAll, List.nil_append, Tape.write_append]
    exact begins_pieces false e k _ h.1

lemma write_select (s : Select) (d : Dialect) (k : Nat) (t : Tape) :
    ∃ u, write d k s.pieces t = put "SELECT " u := by
  cases s
  exact ⟨_, by rw [Select.pieces, Tape.write_raw]⟩

/-- The operand of a group ends before the suffix. -/
lemma ends_suffix {x : Suffix} {s : String} (h : x.text? b.dialect = some s) (t : Tape) :
    Ends (put s t) := by
  have hall : ∀ x ∈ Suffix.all, ∀ s ∈ x.text? b.dialect,
      (s.toList.head?.any fun c => c != '.' && !c.isDigit) = true ∧
        clash " AS ".toList s.toList = true := by
    cases b <;> decide +kernel
  obtain ⟨hcut, hname⟩ := hall x x.mem_all s h
  exact ends_put hcut hname t

/-! ### Nodes -/

lemma takes_afterName (s : String) (h : Cut t) : Takes (afterName s) t (.column { name := s }) t :=
  h.1.bind.orElse (takes_pure _ t)

lemma takes_afterName_column (s c : String) (t : Tape) (q : Char) :
    Takes (afterName s) (put "." (putName q c t)) (.column { name := c, table? := some s }) t := by
  have hstar : Refuses (skip "*") (putName q c t) := rfl
  refine Takes.orElse ((takes_skip "." _).bind ?_)
  exact hstar.bind.orElse
    ((takes_quoted q c t).return fun c => Expr.column { name := c, table? := some s })

lemma takes_afterName_wildcard (s : String) (t : Tape) :
    Takes (afterName s) (put "." (put "*" t)) (.wildcard (some s)) t := by
  refine Takes.orElse ((takes_skip "." _).bind ?_)
  exact ((takes_skip "*" t).return fun _ => Expr.wildcard (some s)).orElse

lemma takes_primary_name {c : Char} {s : String} {e : Expr} (h : Takes (afterName s) t e u) :
    Takes (primary b E S n) (putName c s t) e u := by
  refine (takes_next _ _ _).bind ?_
  simpa using h

lemma takes_primary_star (t : Tape) : Takes (primary b E S n) (put "*" t) (.wildcard none) t :=
  (takes_next _ _ _).bind (takes_pure _ t)

lemma takes_primary_hole (k : Nat) (v : Value) (h : Cut t) :
    Takes (primary b E S n) (putHole b.dialect k v t) (.literal v) t := by
  obtain ⟨ds, hmark, hds⟩ := mark_eq b k
  have hsigil : b.sigil ≠ '*' ∧ b.sigil ≠ '(' := by cases b <;> decide
  rw [putHole, hmark]
  refine (takes_next _ _ _).bind ?_
  simp only [if_neg hsigil.1, if_neg hsigil.2, if_pos]
  exact (takes_span (t := ⟨t.lexemes, v :: t.values⟩) hds h.2).bind rfl

lemma takes_primary_group {e : Expr} (h : Takes (group b E S n) t e u) :
    Takes (primary b E S n) (put "(" t) e u :=
  (takes_next _ _ _).bind h

lemma takes_primary_call {f : String} {args : List Expr} (hf : f ≠ "")
    (hword : ∀ c ∈ f.toList, isWordChar c = true) (h : Takes (closed ")" E n) t args u) :
    Takes (primary b E S n) (put f (put "(" t)) (.call f args) u := by
  obtain ⟨c, cs, hc⟩ : ∃ c cs, f.toList = c :: cs := by
    cases hc : f.toList with
    | nil => exact absurd (String.toList_eq_nil_iff.mp hc) hf
    | cons c cs => exact ⟨c, cs, rfl⟩
  rw [hc, List.forall_mem_cons] at hword
  have hne : ∀ x, isWordChar x = false → c ≠ x := by
    rintro x hx rfl
    rw [hword.1] at hx
    cases hx
  have hsigil : c ≠ b.sigil := hne _ (by cases b <;> decide)
  rw [put, hc]
  refine (takes_next _ _ _).bind ?_
  simp only [if_neg (hne '*' (by decide)), if_neg (hne '(' (by decide)), if_neg hsigil]
  refine (takes_span (t := put "(" t) hword.2 rfl).bind ((takes_skip "(" t).bind ?_)
  rw [← hc, String.ofList_toList]
  exact h.return (Expr.call f ·)

lemma takes_group_neg {e : Expr} (h : Takes E t e (put ")" u)) :
    Takes (group b E S n) (put "-" t) (.unary .neg e) u :=
  ((takes_skip "-" t).bind (h.close (Expr.unary .neg))).orElse

lemma takes_group_not {e : Expr} (h : Takes E t e (put ")" u)) :
    Takes (group b E S n) (put "NOT " t) (.unary .not e) u := by
  have hneg : Refuses (skip "-") (put "NOT " t) := refuses_skip rfl t
  exact hneg.bind.orElse ((takes_skip "NOT " t).bind (h.close (Expr.unary .not))).orElse

lemma takes_group_subquery {s : Select} (h : Takes S (put "SELECT " t) s (put ")" u)) :
    Takes (group b E S n) (put "SELECT " t) (.subquery s) u := by
  have hneg : Refuses (skip "-") (put "SELECT " t) := refuses_skip rfl t
  have hnot : Refuses (skip "NOT ") (put "SELECT " t) := refuses_skip rfl t
  exact hneg.bind.orElse (hnot.bind.orElse (h.close Expr.subquery).orElse)

/-- A group that begins with an operand. -/
lemma takes_group_operand {l e : Expr} {x : Suffix} {s : String} (hx : x.text? b.dialect = some s)
    (ht : Begins t) (hS : Refuses S t) (hl : Takes E t l (put s u))
    (h : Takes (afterOperand E S n l x) u e w) : Takes (group b E S n) t e w := by
  have hneg : Refuses (skip "-") t := ht.refuses rfl
  have hnot : Refuses (skip "NOT ") t := ht.refuses rfl
  exact hneg.bind.orElse (hnot.bind.orElse (hS.bind.orElse
    (hl.bind ((takes_suffix hx u).bind h))))

lemma takes_members_subquery {s : Select} (h : Takes S t s (put "))" u)) :
    Takes (members E S n) t [.subquery s] u :=
  (h.close fun s => [Expr.subquery s]).orElse

lemma takes_members {es : List Expr} (hS : Refuses S t) (h : Takes (closed "))" E n) t es u) :
    Takes (members E S n) t es u :=
  hS.bind.orElse h

lemma takes_column (c : ColumnRef) (h : Cut t) :
    Takes (primary b E S n) (write b.dialect k (Piece.column c) t)
      (.column { c with property? := none }) t := by
  obtain ⟨name, _ | table, property?⟩ := c
  · exact takes_primary_name (takes_afterName name h)
  · rw [Piece.column, write_qualifier]
    exact takes_primary_name (takes_afterName_column table name t b.dialect.quote)

lemma takes_wildcard (table? : Option String) (t : Tape) :
    Takes (primary b E S n) (write b.dialect k (Piece.qualifier table? ++ [.raw "*"]) t)
      (.wildcard table?) t := by
  cases table? with
  | none => exact takes_primary_star t
  | some table =>
    rw [write_qualifier, Tape.write_raw, Tape.write_nil]
    exact takes_primary_name (takes_afterName_wildcard table t)

/-- The names behind an expression are taken together with it. -/
lemma expr_of_primary (h : Takes (primary b (expr b n) (select b n) n) t e u) :
    expr b (n + 1) t = aliases e u := by
  change (primary b (expr b n) (select b n) n t).bind _ = _
  rw [h]
  rfl

lemma takes_expr (h : expr b n t = aliases e u) (hu : Ends u) : Takes (expr b n) t e u :=
  h.trans (takes_aliases e hu.noName)

lemma refuses_select (h : Refuses (skip "SELECT ") t) (b : Builtin) (n : Nat) :
    Refuses (select b n) t := by
  cases n with
  | zero => rfl
  | succ n => exact h.bind

lemma expr_of_operand {l : Expr} {x : Suffix} {s : String} (hx : x.text? b.dialect = some s)
    (ht : Begins t) (hl : Takes (expr b n) t l (put s u))
    (h : Takes (afterOperand (expr b n) (select b n) n l x) u e w) :
    expr b (n + 1) (put "(" t) = aliases e w :=
  expr_of_primary (takes_primary_group
    (takes_group_operand hx ht (refuses_select (ht.refuses rfl) b n) hl h))

end Read

end SqlTree
