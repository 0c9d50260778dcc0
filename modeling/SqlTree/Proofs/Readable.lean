import SqlTree.Proofs.Clauses
import SqlTree.Proofs.Literals

/-!
Unique readability.

The reader finds the normal form of a tree in its query. So two trees have the same query only
if they have the same normal form: nothing of the structure of a tree is lost when it is
written, neither its grouping nor an operator, a clause, a name or a literal.
-/

namespace SqlTree

open Read
open Tape (put putName write put_append)

/-! ### Trees

The induction is on the tree, and any bound of its size is fuel enough. -/

section

variable (b : Builtin)

mutual

theorem Expr.read_pieces : ∀ (e : Expr) (n : Nat), (∀ f ∈ e.functions, isWord f = true) →
    e.faults b.dialect = [] → sizeOf e ≤ n → Reads b n e
  | .column c, n, _, _, hn => by
    rw [Expr.column.sizeOf_spec] at hn
    obtain ⟨m, rfl⟩ := Nat.exists_eq_add_one_of_ne_zero (n := n) (by omega)
    exact reads_column c
  | .literal v, n, _, _, hn => by
    rw [Expr.literal.sizeOf_spec] at hn
    obtain ⟨m, rfl⟩ := Nat.exists_eq_add_one_of_ne_zero (n := n) (by omega)
    exact reads_literal v
  | .wildcard table?, n, _, _, hn => by
    rw [Expr.wildcard.sizeOf_spec] at hn
    obtain ⟨m, rfl⟩ := Nat.exists_eq_add_one_of_ne_zero (n := n) (by omega)
    exact reads_wildcard table?
  | .binary op l r, n, hw, hf, hn => by
    rw [Expr.functions, List.forall_mem_append] at hw
    rw [Expr.faults, List.append_eq_nil_iff, List.append_eq_nil_iff] at hf
    rw [Expr.binary.sizeOf_spec] at hn
    obtain ⟨m, rfl⟩ := Nat.exists_eq_add_one_of_ne_zero (n := n) (by omega)
    have hl : Reads b m l := Expr.read_pieces l m hw.1 hf.2.1 (by omega)
    have hr : Reads b m r := Expr.read_pieces r m hw.2 hf.2.2 (by omega)
    exact reads_binary hf.1 hw.1 hl hr
  | .unary op e, n, hw, hf, hn => by
    rw [Expr.functions] at hw
    rw [Expr.faults] at hf
    rw [Expr.unary.sizeOf_spec] at hn
    obtain ⟨m, rfl⟩ := Nat.exists_eq_add_one_of_ne_zero (n := n) (by omega)
    exact reads_unary op hw (Expr.read_pieces e m hw hf (by omega))
  | .call f args, n, hw, hf, hn => by
    rw [Expr.functions, List.forall_mem_cons] at hw
    rw [Expr.faults, List.append_eq_nil_iff] at hf
    rw [Expr.call.sizeOf_spec] at hn
    obtain ⟨m, rfl⟩ := Nat.exists_eq_add_one_of_ne_zero (n := n) (by omega)
    refine reads_call hw.1 fun k t => takes_closed_pieces rfl hw.2 (fun hne k => ?_) k
    exact Expr.read_piecesAll args m m k _ hne hw.2 hf.2 (by omega) (by omega) (starts_close t)
  | .aliased e a, n, hw, hf, hn => by
    rw [Expr.functions] at hw
    rw [Expr.faults, List.append_eq_nil_iff] at hf
    rw [Expr.aliased.sizeOf_spec] at hn
    exact reads_aliased (Expr.read_pieces e n hw hf.1 (by omega)) a
  | .member e items negated, n, hw, hf, hn => by
    rw [Expr.functions, List.forall_mem_append] at hw
    obtain ⟨hfe, hfi⟩ := Expr.faults_of_member hf
    rw [Expr.member.sizeOf_spec] at hn
    obtain ⟨m, rfl⟩ := Nat.exists_eq_add_one_of_ne_zero (n := n) (by omega)
    refine reads_member negated hw.1 (Expr.read_pieces e m hw.1 hfe (by omega)) fun k t => ?_
    have hclose : put "))" t = put ")" (put ")" t) := put_append t ")" ")"
    refine takes_membersPieces hw.2 (fun s hs k => ?ofOne) (fun hne k => ?ofAll) k
    case ofOne =>
      match items, hs, hw, hfi, hn with
      | [.subquery s'], hs, hw, hfi, hn =>
        obtain rfl : s' = s := by simpa using hs
        simp only [Expr.functionsAll, Expr.functions, List.append_nil] at hw
        simp only [Expr.faultsAll, Expr.faults, List.append_nil] at hfi
        simp only [List.cons.sizeOf_spec, Expr.subquery.sizeOf_spec] at hn
        refine Select.read_pieces s' m k _ hw.2 hfi (by omega) ?_
        rw [hclose]
        exact starts_put ")" _
    case ofAll =>
      refine Expr.read_piecesAll items m m k _ hne hw.2 hfi (by omega) (by omega) ?_
      rw [hclose]
      exact starts_close _
  | .subquery s, n, hw, hf, hn => by
    rw [Expr.functions] at hw
    rw [Expr.faults] at hf
    rw [Expr.subquery.sizeOf_spec] at hn
    obtain ⟨m, rfl⟩ := Nat.exists_eq_add_one_of_ne_zero (n := n) (by omega)
    exact reads_subquery fun k t => Select.read_pieces s m k _ hw hf (by omega) (starts_put _ _)

theorem Expr.read_piecesAll : ∀ (es : List Expr) (m n k : Nat) (t : Tape), es ≠ [] →
    (∀ f ∈ Expr.functionsAll es, isWord f = true) → Expr.faultsAll b.dialect es = [] →
      sizeOf es ≤ m → sizeOf es ≤ n → Starts closers t →
        Takes (list (Read.expr b m) n) (write b.dialect k (Expr.piecesAll [] es) t)
          (Expr.normalAll es) t
  | [], _, _, _, _, h, _, _, _, _, _ => absurd rfl h
  | e :: es, m, n, k, t, _, hw, hf, hm, hn, ht => by
    simp only [Expr.functionsAll, List.forall_mem_append] at hw
    simp only [Expr.faultsAll, List.append_eq_nil_iff] at hf
    simp only [List.cons.sizeOf_spec] at hm hn
    obtain ⟨n, rfl⟩ := Nat.exists_eq_add_one_of_ne_zero (n := n) (by omega)
    have he : Reads b m e := Expr.read_pieces e m hw.1 hf.1 (by omega)
    rw [Expr.piecesAll, List.nil_append, Expr.normalAll]
    refine takes_elements ht (fun k u hu => he.takes false k (ends_of_starts hu)) ?_ k
    exact takesLed_exprs ", " fun hes k =>
      Expr.read_piecesAll es m n k t hes hw.2 hf.2 (by omega) (by omega) ht

theorem Expr.read_piecesItems : ∀ (es : List Expr) (m n k : Nat) (t : Tape), es ≠ [] →
    (∀ f ∈ Expr.functionsAll es, isWord f = true) → Expr.faultsItems b.dialect es = [] →
      sizeOf es ≤ m → sizeOf es ≤ n → Starts closers t →
        Takes (list (Read.expr b m) n) (write b.dialect k (Expr.piecesItems [] es) t)
          (Expr.normalItems es) t
  | [], _, _, _, _, h, _, _, _, _, _ => absurd rfl h
  | e :: es, m, n, k, t, _, hw, hf, hm, hn, ht => by
    simp only [Expr.functionsAll, List.forall_mem_append] at hw
    simp only [Expr.faultsItems, List.append_eq_nil_iff] at hf
    simp only [List.cons.sizeOf_spec] at hm hn
    obtain ⟨n, rfl⟩ := Nat.exists_eq_add_one_of_ne_zero (n := n) (by omega)
    have he : Reads b m e := Expr.read_pieces e m hw.1 hf.1 (by omega)
    rw [Expr.piecesItems, List.nil_append, ← List.append_assoc, Expr.normalItems]
    refine takes_elements ht (fun k u hu => takes_item he k (ends_of_starts hu)) ?_ k
    exact takesLed_items ", " fun hes k =>
      Expr.read_piecesItems es m n k t hes hw.2 hf.2.2 (by omega) (by omega) ht

theorem Expr.read_piecesOption (lead : String) : ∀ (e? : Option Expr) (n k : Nat) (t : Tape),
    (∀ f ∈ Expr.functionsOption e?, isWord f = true) →
      Expr.faultsOption b.dialect e? = [] → sizeOf e? ≤ n → Ends t → Refuses (skip lead) t →
        Takes (clause lead (Read.expr b n)) (write b.dialect k (Expr.piecesOption lead e?) t)
          (Expr.normalOption e?) t
  | none, _, _, _, _, _, _, _, hlead => by
    rw [Expr.piecesOption, Expr.normalOption]
    exact refuses_clause hlead
  | some e, n, k, t, hw, hf, hn, ht, _ => by
    rw [Expr.functionsOption] at hw
    rw [Expr.faultsOption] at hf
    rw [Option.some.sizeOf_spec] at hn
    rw [Expr.piecesOption, Expr.normalOption, Tape.write_raw]
    exact takes_clause ((Expr.read_pieces e n hw hf (by omega)).takes false k ht)

theorem Select.read_pieces : ∀ (s : Select) (n k : Nat) (t : Tape),
    (∀ f ∈ s.functions, isWord f = true) → s.faults b.dialect = [] → sizeOf s ≤ n →
      Starts [")"] t → Takes (Read.select b n) (write b.dialect k s.pieces t) s.normal t
  | ⟨distinct, items, source?, filter?, groups, having?, orders, limit?, offset?⟩, n, k, t, hw, hf,
    hn, ht => by
    simp only [Select.functions, List.forall_mem_append] at hw
    obtain ⟨hwi, hwx, hwf, hwg, hwh, hwo⟩ := hw
    obtain ⟨hsource, hfi, hfx, hff, hfg, hfh, hfo⟩ := Select.faults_parts hf
    simp only [Select.mk.sizeOf_spec] at hn
    have hpos : 0 < sizeOf items := by
      cases items <;> simp only [List.nil.sizeOf_spec, List.cons.sizeOf_spec] <;> omega
    obtain ⟨m, rfl⟩ : ∃ m, n = m + 1 + 1 := ⟨n - 2, by omega⟩
    have hitems : ∀ k u, Starts closers u → Takes (list (Read.expr b (m + 1)) (m + 1))
        (write b.dialect k (Piece.allColumns source? items ++ Expr.piecesItems [] items) u)
        (Normal.wildcards source? items ++ Expr.normalItems items) u := fun k u hu =>
      takes_selectList hsource (fun hne k =>
        Expr.read_piecesItems items (m + 1) (m + 1) k u hne hwi hfi (by omega) (by omega) hu) hu k
    -- the clauses behind the select list, each with what can follow it
    have hclauses : TakesClauses b.dialect closers
        (clauses (Read.expr b (m + 1)) (Read.select b (m + 1)) (m + 1) distinct
          (Normal.wildcards source? items ++ Expr.normalItems items))
        (Source.piecesOption source? ++ (Expr.piecesOption " WHERE " filter? ++
          (Expr.piecesAll [.raw " GROUP BY "] groups ++ (Expr.piecesOption " HAVING " having? ++
          (OrderItem.piecesAll [.raw " ORDER BY "] orders ++ (Piece.number " LIMIT " limit? ++
          (Piece.number " OFFSET " offset? ++ [])))))))
        (Select.normal
          ⟨distinct, items, source?, filter?, groups, having?, orders, limit?, offset?⟩) := by
      rw [Select.normal]
      refine .cons (.cons (.cons (.cons (.cons (.cons (.cons (fun _ _ h => ⟨rfl, h⟩)
        ?ofOffset ?_) ?ofLimit ?_) ?ofOrders ?_) ?ofHaving ?_) ?ofGroups ?_) ?ofFilter ?_)
        ?ofSource ?_
      case ofSource =>
        exact fun k t h => Source.read_piecesOption source? (m + 1) k t hwx hfx (by omega)
          (ends_of_starts (h.mono (by decide))) (h.refuses rfl)
      case ofFilter =>
        exact fun k t h => Expr.read_piecesOption " WHERE " filter? (m + 1) k t hwf hff (by omega)
          (ends_of_starts (h.mono (by decide))) (h.refuses rfl)
      case ofGroups =>
        exact fun k t h => takes_listClause_led (h.refuses rfl) (takesLed_exprs _ fun hne k =>
          Expr.read_piecesAll groups (m + 1) (m + 1) k t hne hwg hfg (by omega) (by omega)
            (h.mono (by decide))) k
      case ofHaving =>
        exact fun k t h => Expr.read_piecesOption " HAVING " having? (m + 1) k t hwh hfh (by omega)
          (ends_of_starts (h.mono (by decide))) (h.refuses rfl)
      case ofOrders =>
        exact fun k t h => takes_listClause_led (h.refuses rfl) (takesLed_orders _ fun hne k =>
          OrderItem.read_piecesAll orders (m + 1) (m + 1) k t hne hwo hfo (by omega) (by omega)
            (h.mono (by decide))) k
      case ofLimit => exact fun k t h => takes_clauseNumber h rfl (h.cut rfl) limit? k
      case ofOffset => exact fun k t h => takes_clauseNumber h rfl (h.cut rfl) offset? k
      · exact fun k t h => starts_number h _ _ k
      · exact fun k t h => starts_number h _ _ k
      · exact fun k t h => h.write (OrderItem.ledBy_piecesAll _ _) _ k
      · exact fun k t h => h.write (Expr.ledBy_piecesOption _ _) _ k
      · exact fun k t h => h.write (Expr.ledBy_piecesAll _ _) _ k
      · exact fun k t h => h.write (Expr.ledBy_piecesOption _ _) _ k
      · exact fun k t h => h.write (Source.ledBy_piecesOption _) _ k
    rw [Read.select, Select.pieces, ← List.append_nil (Piece.number " OFFSET " offset?),
      ← List.append_assoc (Piece.allColumns source? items), Tape.write_raw]
    exact takes_statement (begins_selectList hsource hwi b) hitems hclauses k ht

theorem Source.read_pieces : ∀ (x : Source) (n k : Nat) (t : Tape),
    (∀ f ∈ x.functions, isWord f = true) → x.faults b.dialect = [] → sizeOf x ≤ n → Ends t →
      Takes (source (Read.select b n)) (write b.dialect k x.pieces t) x.normal t
  | .table ⟨name, alias?⟩, n, k, t, _, _, _, ht => by
    rw [Source.pieces, Source.normal, Piece.table, Tape.write_name]
    refine Refuses.orElse (Refuses.bind rfl) ((takes_quoted _ _ _).bind ?_)
    cases alias? with
    | none => exact (refuses_clause ht.noName).return fun a? => Source.table ⟨name, a?⟩
    | some a =>
      rw [Tape.write_raw, Tape.write_name, Tape.write_nil]
      exact (takes_clause (takes_quoted _ a t)).return fun a? => Source.table ⟨name, a?⟩
  | .subquery s a, n, k, t, hw, hf, hn, ht => by
    simp only [Source.functions] at hw
    simp only [Source.faults, List.append_eq_nil_iff] at hf
    simp only [Source.subquery.sizeOf_spec] at hn
    have hs : ∀ u, Takes (Read.select b n) (write b.dialect k s.pieces (put ") AS " u)) s.normal
        (put ") AS " u) := by
      intro u
      refine Select.read_pieces s n k _ hw hf.1 (by omega) ?_
      rw [show ") AS " = ")" ++ " AS " from rfl, put_append]
      exact starts_put _ _
    rw [Source.pieces, Source.normal]
    simp only [Tape.write_raw, Tape.write_append, Tape.write_name, Tape.write_nil]
    exact Takes.orElse ((takes_skip "(" _).bind ((hs _).bind
      ((takes_skip ") AS " _).bind ((takes_quoted _ a t).return (Source.subquery s.normal)))))

theorem Source.read_piecesOption : ∀ (x? : Option Source) (n k : Nat) (t : Tape),
    (∀ f ∈ Source.functionsOption x?, isWord f = true) →
      Source.faultsOption b.dialect x? = [] → sizeOf x? ≤ n → Ends t → Refuses (skip " FROM ") t →
        Takes (clause " FROM " (source (Read.select b n)))
          (write b.dialect k (Source.piecesOption x?) t) (Source.normalOption x?) t
  | none, _, _, _, _, _, _, _, hlead => by
    rw [Source.piecesOption, Source.normalOption]
    exact refuses_clause hlead
  | some x, n, k, t, hw, hf, hn, ht, _ => by
    rw [Source.functionsOption] at hw
    rw [Source.faultsOption] at hf
    rw [Option.some.sizeOf_spec] at hn
    rw [Source.piecesOption, Source.normalOption, Tape.write_raw]
    exact takes_clause (Source.read_pieces x n k t hw hf (by omega) ht)

theorem OrderItem.read_piecesAll : ∀ (os : List OrderItem) (m n k : Nat) (t : Tape), os ≠ [] →
    (∀ f ∈ OrderItem.functionsAll os, isWord f = true) →
      OrderItem.faultsAll b.dialect os = [] → sizeOf os ≤ m → sizeOf os ≤ n → Starts closers t →
        Takes (list (orderItem (Read.expr b m)) n)
          (write b.dialect k (OrderItem.piecesAll [] os) t) (OrderItem.normalAll os) t
  | [], _, _, _, _, h, _, _, _, _, _ => absurd rfl h
  | ⟨e, x?⟩ :: os, m, n, k, t, _, hw, hf, hm, hn, ht => by
    simp only [OrderItem.functionsAll, List.forall_mem_append] at hw
    simp only [OrderItem.faultsAll, List.append_eq_nil_iff] at hf
    simp only [List.cons.sizeOf_spec, OrderItem.mk.sizeOf_spec] at hm hn
    obtain ⟨n, rfl⟩ := Nat.exists_eq_add_one_of_ne_zero (n := n) (by omega)
    have he : Reads b m e := Expr.read_pieces e m hw.1 hf.1 (by omega)
    rw [OrderItem.piecesAll, List.nil_append, ← List.append_assoc, OrderItem.normalAll]
    refine takes_elements ht (fun k u hu => takes_orderItem he x? k hu) ?_ k
    exact takesLed_orders ", " fun hos k =>
      OrderItem.read_piecesAll os m n k t hos hw.2 hf.2 (by omega) (by omega) ht

end

end

namespace Root

variable {b : Builtin} {root : Root}

lemma read_pieces {n : Nat} (hw : ∀ f ∈ root.functions, isWord f = true)
    (hf : root.faults b.dialect = []) (hn : sizeOf root ≤ n) :
    Takes (Read.root b n) (write b.dialect 0 root.pieces ⟨[], []⟩) root.normal ⟨[], []⟩ := by
  have hend : ∀ leads, Starts leads ⟨[], []⟩ := fun _ => .inl rfl
  cases root with
  | select s =>
    rw [Root.select.sizeOf_spec] at hn
    have hs := Select.read_pieces b s n 0 ⟨[], []⟩ hw hf (by omega) (hend _)
    exact (hs.return Root.select).orElse
  | expr e =>
    rw [Root.expr.sizeOf_spec] at hn
    have hends : Ends ⟨[], []⟩ := ends_of_starts (hend _)
    have he := (Expr.read_pieces b e n hw hf (by omega)).takes false 0 hends
    have hselect := refuses_select ((begins_pieces (b := b) false e 0 ⟨[], []⟩ hw).refuses rfl) b n
    exact hselect.bind.orElse (he.return Root.expr)

/-- **A query tells its tree**, up to trees that are written alike. -/
theorem read_of_toQuery {q : Query} (h : root.toQuery b.dialect = .ok q)
    (hw : ∀ f ∈ root.functions, isWord f = true) {n : Nat} (hn : sizeOf root ≤ n) :
    Read.root b n ⟨b.scan q.text, q.params.toList⟩ = some (root.normal, ⟨[], []⟩) := by
  have hquote : ∀ f ∈ root.functions, b.dialect.quote ∉ f.toList := by
    intro f hf hq
    have hword := isWordChar_of_isWord (hw f hf) _ hq
    cases b <;> revert hword <;> decide
  have hvalues : q.params.toList = Piece.values root.pieces := by
    rw [eq_query_of_toQuery h, query]
  have htakes := read_pieces (b := b) hw (faults_of_toQuery h) hn
  rw [Builtin.scan_text h hquote, hvalues]
  simpa [write, Takes] using htakes

/-- **Unique readability.** Two trees with the same text and the same parameters have the same
normal form, if the names of functions are words. -/
theorem normal_eq_of_query_eq {x y : Root} {p q : Query} (hx : x.toQuery b.dialect = .ok p)
    (hy : y.toQuery b.dialect = .ok q) (hwx : ∀ f ∈ x.functions, isWord f = true)
    (hwy : ∀ f ∈ y.functions, isWord f = true) (htext : p.text = q.text)
    (hparams : p.params = q.params) : x.normal = y.normal := by
  have hreadx := read_of_toQuery hx hwx (Nat.le_add_right (sizeOf x) (sizeOf y))
  have hready := read_of_toQuery hy hwy (Nat.le_add_left (sizeOf y) (sizeOf x))
  rw [htext, hparams, hready] at hreadx
  simpa using hreadx.symm

/-- Two statements that are written alike. -/
theorem normal_eq_of_query_eq_alike :
    let table : Source := .table ⟨"orders", some "o"⟩
    let x : Root := .select
      { source? := some table, filter? := some (.unary .distinct (.lit "$1")) }
    let y : Root := .select
      { items := [.wildcard (some "o")], source? := some table
        filter? := some (.call "DISTINCT" [.lit "$1"]) }
    ∃ p q, x.toQuery .postgres = .ok p ∧ y.toQuery .postgres = .ok q ∧ p.text = q.text ∧
      x.normal = y.normal := by
  intro table x y
  have hx : x.toQuery Builtin.postgres.dialect = .ok (x.query .postgres) :=
    toQuery_of_sound (by decide)
  have hy : y.toQuery Builtin.postgres.dialect = .ok (y.query .postgres) :=
    toQuery_of_sound (by decide)
  have htext : (x.query .postgres).text = (y.query .postgres).text := by decide
  exact ⟨_, _, hx, hy, htext,
    normal_eq_of_query_eq hx hy (by decide) (by decide) htext rfl⟩

end Root

end SqlTree
