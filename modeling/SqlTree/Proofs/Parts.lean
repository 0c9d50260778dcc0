import Mathlib.Logic.Relation
import SqlTree.Proofs.Fragments
import SqlTree.Proofs.Outcome

/-!
The parts of a tree.

What is written for an expression or a statement inside a tree stands as one stretch in what is
written for the tree. So a part can be looked at on its own, wherever it stands; and a part of a
tree without faults has none.
-/

namespace SqlTree

namespace Root

/-- The first is written as a whole where the second is written. A sub-select that is the only
member of a list is not written itself; the statement in it is. -/
inductive Child : Root → Root → Prop
  | left (op : BinaryOp) (l r : Expr) : Child (.expr l) (.expr (.binary op l r))
  | right (op : BinaryOp) (l r : Expr) : Child (.expr r) (.expr (.binary op l r))
  | operand (op : UnaryOp) (e : Expr) : Child (.expr e) (.expr (.unary op e))
  | argument {e : Expr} (f : String) {args : List Expr} (h : e ∈ args) :
      Child (.expr e) (.expr (.call f args))
  | aliased (e : Expr) (a : String) : Child (.expr e) (.expr (.aliased e a))
  | tested (e : Expr) (items : List Expr) (negated : Bool) :
      Child (.expr e) (.expr (.member e items negated))
  | member (e : Expr) {x : Expr} {items : List Expr} (negated : Bool) (h : x ∈ items)
      (hs : ∀ s, items ≠ [.subquery s]) : Child (.expr x) (.expr (.member e items negated))
  | onlyMember (e : Expr) (s : Select) (negated : Bool) :
      Child (.select s) (.expr (.member e [.subquery s] negated))
  | subquery (s : Select) : Child (.select s) (.expr (.subquery s))
  | item {e : Expr} {s : Select} (h : e ∈ s.items) : Child (.expr e) (.select s)
  | source {s x : Select} {a : String} (h : s.source? = some (.subquery x a)) :
      Child (.select x) (.select s)
  | filter {e : Expr} {s : Select} (h : s.filter? = some e) : Child (.expr e) (.select s)
  | group {e : Expr} {s : Select} (h : e ∈ s.groups) : Child (.expr e) (.select s)
  | having {e : Expr} {s : Select} (h : s.having? = some e) : Child (.expr e) (.select s)
  | order {o : OrderItem} {s : Select} (h : o ∈ s.orders) : Child (.expr o.expr) (.select s)

/-- The tree itself, or a part of a child. -/
def Part : Root → Root → Prop := Relation.ReflTransGen Child

end Root

/-! ### Pieces of lists and options -/

lemma Expr.infix_piecesAll {e : Expr} {es : List Expr} (h : e ∈ es) (lead : List Piece) :
    e.pieces false <:+: Expr.piecesAll lead es := by
  induction es generalizing lead with
  | nil => simp at h
  | cons x es ih =>
    rw [Expr.piecesAll]
    refine List.infix_append_of_infix_right ?_
    rcases List.mem_cons.mp h with rfl | h
    · exact List.infix_append_left
    · exact List.infix_append_of_infix_right (ih h _)

lemma Expr.infix_piecesItems {e : Expr} {es : List Expr} (h : e ∈ es) (lead : List Piece) :
    e.pieces false <:+: Expr.piecesItems lead es := by
  induction es generalizing lead with
  | nil => simp at h
  | cons x es ih =>
    rw [Expr.piecesItems]
    refine List.infix_append_of_infix_right ?_
    rcases List.mem_cons.mp h with rfl | h
    · exact List.infix_append_left
    · exact List.infix_append_of_infix_right (List.infix_append_of_infix_right (ih h _))

lemma OrderItem.infix_piecesAll {o : OrderItem} {os : List OrderItem} (h : o ∈ os)
    (lead : List Piece) : o.expr.pieces false <:+: OrderItem.piecesAll lead os := by
  induction os generalizing lead with
  | nil => simp at h
  | cons x os ih =>
    obtain ⟨e, direction?⟩ := x
    rw [OrderItem.piecesAll]
    refine List.infix_append_of_infix_right ?_
    rcases List.mem_cons.mp h with rfl | h
    · exact List.infix_append_left
    · exact List.infix_append_of_infix_right (List.infix_append_of_infix_right (ih h _))

lemma Expr.infix_piecesOption {e : Expr} {e? : Option Expr} (h : e? = some e) (lead : String) :
    e.pieces false <:+: Expr.piecesOption lead e? := by
  rw [h, Expr.piecesOption]
  exact List.infix_cons List.infix_rfl

lemma Source.infix_piecesOption {s : Select} {a : String} {x? : Option Source}
    (h : x? = some (.subquery s a)) : s.pieces <:+: Source.piecesOption x? := by
  rw [h, Source.piecesOption, Source.pieces]
  exact List.infix_cons (List.infix_cons List.infix_append_left)

/-- What a statement consists of, in the order in which it is written. -/
def Select.clauses (s : Select) : List (List Piece) :=
  [[.raw "SELECT "], if s.distinct then [.raw "DISTINCT "] else [],
    Piece.allColumns s.source? s.items, Expr.piecesItems [] s.items,
    Source.piecesOption s.source?, Expr.piecesOption " WHERE " s.filter?,
    Expr.piecesAll [.raw " GROUP BY "] s.groups, Expr.piecesOption " HAVING " s.having?,
    OrderItem.piecesAll [.raw " ORDER BY "] s.orders, Piece.number " LIMIT " s.limit?,
    Piece.number " OFFSET " s.offset?]

lemma Select.flatten_clauses (s : Select) : s.clauses.flatten = s.pieces := by
  obtain ⟨distinct, items, source?, filter?, groups, having?, orders, limit?, offset?⟩ := s
  simp [Select.clauses, Select.pieces]

lemma Select.infix_pieces {ps clause : List Piece} {s : Select} (h : ps <:+: clause)
    (hclause : clause ∈ s.clauses) : ps <:+: s.pieces := by
  rw [← s.flatten_clauses]
  exact h.trans (List.infix_of_mem_flatten hclause)

namespace Root

/-! ### Pieces of parts -/

/-- The pieces of a tree that stands directly after a minus sign, or does not. -/
def piecesAs (signed : Bool) : Root → List Piece
  | .expr e => e.pieces signed
  | .select s => s.pieces

lemma piecesAs_false (root : Root) : root.piecesAs false = root.pieces := by
  cases root <;> rfl

variable {t r root : Root}

/-- Only a literal is written differently after a minus sign. -/
lemma piecesAs_of_ne (h : ∀ v, t ≠ .expr (.literal v)) (signed : Bool) :
    t.piecesAs signed = t.pieces := by
  cases t with
  | select s => rfl
  | expr e =>
    cases signed with
    | false => rfl
    | true => exact Expr.pieces_signed fun v he => h v (congrArg Root.expr he)

/-- A literal has no parts. -/
lemma Child.piecesAs (h : Child t r) (signed : Bool) : r.piecesAs signed = r.pieces := by
  apply piecesAs_of_ne
  rintro v rfl
  cases h

/-- **A child is written as one stretch.** -/
lemma Child.infix_pieces (h : Child t r) : ∃ signed, t.piecesAs signed <:+: r.pieces := by
  cases h with
  | left op l r =>
    refine ⟨false, ?_⟩
    simp only [Root.piecesAs, Root.pieces, Expr.pieces]
    exact List.infix_cons List.infix_append_left
  | right op l r =>
    refine ⟨false, ?_⟩
    simp only [Root.piecesAs, Root.pieces, Expr.pieces]
    exact List.infix_cons (List.infix_append_of_infix_right
      (List.infix_cons (List.infix_cons (List.infix_cons List.infix_append_left))))
  | operand op e =>
    cases op with
    | neg => exact ⟨true, List.infix_cons List.infix_append_left⟩
    | _ => exact ⟨false, List.infix_cons List.infix_append_left⟩
  | argument f h =>
    refine ⟨false, ?_⟩
    simp only [Root.piecesAs, Root.pieces, Expr.pieces]
    exact List.infix_cons (List.infix_cons
      (List.infix_append_of_infix_left (Expr.infix_piecesAll h [])))
  | aliased e a =>
    refine ⟨false, ?_⟩
    simp only [Root.piecesAs, Root.pieces, Expr.pieces]
    exact List.infix_append_left
  | tested e items negated =>
    refine ⟨false, ?_⟩
    simp only [Root.piecesAs, Root.pieces, Expr.pieces_member_eq]
    exact List.infix_cons List.infix_append_left
  | member e negated h hs =>
    refine ⟨false, ?_⟩
    simp only [Root.piecesAs, Root.pieces, Expr.pieces_member hs]
    exact List.infix_cons (List.infix_append_of_infix_right
      (List.infix_cons (List.infix_append_of_infix_left (Expr.infix_piecesAll h []))))
  | onlyMember e s negated =>
    refine ⟨false, ?_⟩
    simp only [Root.piecesAs, Root.pieces, Expr.pieces]
    exact List.infix_cons (List.infix_append_of_infix_right
      (List.infix_cons List.infix_append_left))
  | subquery s =>
    refine ⟨false, ?_⟩
    simp only [Root.piecesAs, Root.pieces, Expr.pieces]
    exact List.infix_cons List.infix_append_left
  | item h =>
    have hclause := Expr.infix_piecesItems h []
    exact ⟨false, Select.infix_pieces hclause (by simp [Select.clauses])⟩
  | source h =>
    have hclause := Source.infix_piecesOption h
    exact ⟨false, Select.infix_pieces hclause (by simp [Select.clauses])⟩
  | filter h =>
    have hclause := Expr.infix_piecesOption h " WHERE "
    exact ⟨false, Select.infix_pieces hclause (by simp [Select.clauses])⟩
  | group h =>
    have hclause := Expr.infix_piecesAll h [.raw " GROUP BY "]
    exact ⟨false, Select.infix_pieces hclause (by simp [Select.clauses])⟩
  | having h =>
    have hclause := Expr.infix_piecesOption h " HAVING "
    exact ⟨false, Select.infix_pieces hclause (by simp [Select.clauses])⟩
  | order h =>
    have hclause := OrderItem.infix_piecesAll h [.raw " ORDER BY "]
    exact ⟨false, Select.infix_pieces hclause (by simp [Select.clauses])⟩

/-- **A part is written as one stretch**, at any depth. -/
lemma Part.infix_pieces (h : Part t root) : ∃ signed, t.piecesAs signed <:+: root.pieces := by
  induction h using Relation.ReflTransGen.head_induction_on with
  | refl => exact ⟨false, root.piecesAs_false ▸ List.infix_rfl⟩
  | head hchild _ ih =>
    obtain ⟨signed, hstretch⟩ := hchild.infix_pieces
    obtain ⟨_, hrest⟩ := ih
    rw [hchild.piecesAs] at hrest
    exact ⟨signed, hstretch.trans hrest⟩

end Root

/-! ### Functions and faults of parts -/

lemma Expr.functions_subset {e : Expr} {es : List Expr} (h : e ∈ es) :
    e.functions ⊆ Expr.functionsAll es := by
  induction es with
  | nil => simp at h
  | cons x es ih =>
    rw [Expr.functionsAll]
    rcases List.mem_cons.mp h with rfl | h
    · exact List.subset_append_left _ _
    · exact List.subset_append_of_subset_right _ (ih h)

lemma OrderItem.functions_subset {o : OrderItem} {os : List OrderItem} (h : o ∈ os) :
    o.expr.functions ⊆ OrderItem.functionsAll os := by
  induction os with
  | nil => simp at h
  | cons x os ih =>
    obtain ⟨e, direction?⟩ := x
    rw [OrderItem.functionsAll]
    rcases List.mem_cons.mp h with rfl | h
    · exact List.subset_append_left _ _
    · exact List.subset_append_of_subset_right _ (ih h)

section

variable {d : Dialect}

lemma Expr.faults_of_mem {e : Expr} {es : List Expr} (hnil : Expr.faultsAll d es = [])
    (h : e ∈ es) : e.faults d = [] := by
  induction es with
  | nil => simp at h
  | cons x es ih =>
    rw [Expr.faultsAll, List.append_eq_nil_iff] at hnil
    rcases List.mem_cons.mp h with rfl | h
    · exact hnil.1
    · exact ih hnil.2 h

lemma Expr.faults_of_mem_items {e : Expr} {es : List Expr} (hnil : Expr.faultsItems d es = [])
    (h : e ∈ es) : e.faults d = [] := by
  induction es with
  | nil => simp at h
  | cons x es ih =>
    rw [Expr.faultsItems, List.append_eq_nil_iff, List.append_eq_nil_iff] at hnil
    rcases List.mem_cons.mp h with rfl | h
    · exact hnil.1
    · exact ih hnil.2.2 h

lemma OrderItem.faults_of_mem {o : OrderItem} {os : List OrderItem}
    (hnil : OrderItem.faultsAll d os = []) (h : o ∈ os) : o.expr.faults d = [] := by
  induction os with
  | nil => simp at h
  | cons x os ih =>
    obtain ⟨e, direction?⟩ := x
    rw [OrderItem.faultsAll, List.append_eq_nil_iff] at hnil
    rcases List.mem_cons.mp h with rfl | h
    · exact hnil.1
    · exact ih hnil.2 h

end

namespace Root

variable {t r root : Root}

lemma Child.functions_subset (h : Child t r) : t.functions ⊆ r.functions := by
  intro f hf
  cases r with
  | expr r =>
    cases h with
    | left op l r => exact List.mem_append_left _ hf
    | right op l r => exact List.mem_append_right _ hf
    | operand op e => simpa only [functions, Expr.functions] using hf
    | argument g h => exact .tail g (Expr.functions_subset h hf)
    | aliased e a => simpa only [functions, Expr.functions] using hf
    | tested e items negated => exact List.mem_append_left _ hf
    | member e negated h hs => exact List.mem_append_right _ (Expr.functions_subset h hf)
    | onlyMember e s negated =>
      refine List.mem_append_right _ ?_
      simpa only [functions, Expr.functionsAll, Expr.functions, List.append_nil] using hf
    | subquery s => simpa only [functions, Expr.functions] using hf
  | select s =>
    obtain ⟨distinct, items, source?, filter?, groups, having?, orders, limit?, offset?⟩ := s
    have hclause : f ∈ Expr.functionsAll items ∨ f ∈ Source.functionsOption source? ∨
        f ∈ Expr.functionsOption filter? ∨ f ∈ Expr.functionsAll groups ∨
        f ∈ Expr.functionsOption having? ∨ f ∈ OrderItem.functionsAll orders := by
      cases h with
      | item h => exact .inl (Expr.functions_subset h hf)
      | source h =>
        obtain rfl := h
        exact .inr (.inl (by rwa [Source.functionsOption, Source.functions]))
      | filter h =>
        obtain rfl := h
        exact .inr (.inr (.inl (by rwa [Expr.functionsOption])))
      | group h => exact .inr (.inr (.inr (.inl (Expr.functions_subset h hf))))
      | having h =>
        obtain rfl := h
        exact .inr (.inr (.inr (.inr (.inl (by rwa [Expr.functionsOption])))))
      | order h => exact .inr (.inr (.inr (.inr (.inr (OrderItem.functions_subset h hf)))))
    simpa only [functions, Select.functions, List.mem_append] using hclause

/-- **A child of a tree without faults has none.** -/
lemma Child.faults_eq_nil {d : Dialect} (h : Child t r) (hr : r.faults d = []) :
    t.faults d = [] := by
  cases r with
  | expr r =>
    cases h with
    | left op l r =>
      simp only [faults, Expr.faults, List.append_eq_nil_iff] at hr
      exact hr.2.1
    | right op l r =>
      simp only [faults, Expr.faults, List.append_eq_nil_iff] at hr
      exact hr.2.2
    | operand op e => simpa only [faults, Expr.faults] using hr
    | argument f h =>
      simp only [faults, Expr.faults, List.append_eq_nil_iff] at hr
      exact Expr.faults_of_mem hr.2 h
    | aliased e a =>
      simp only [faults, Expr.faults, List.append_eq_nil_iff] at hr
      exact hr.1
    | tested e items negated => exact (Expr.faults_of_member hr).1
    | member e negated h hs => exact Expr.faults_of_mem (Expr.faults_of_member hr).2 h
    | onlyMember e s negated =>
      have hall := (Expr.faults_of_member hr).2
      simpa only [faults, Expr.faultsAll, Expr.faults, List.append_nil] using hall
    | subquery s => simpa only [faults, Expr.faults] using hr
  | select s =>
    obtain ⟨distinct, items, source?, filter?, groups, having?, orders, limit?, offset?⟩ := s
    obtain ⟨-, hitems, hsource, hfilter, hgroups, hhaving, horders⟩ := Select.faults_parts hr
    cases h with
    | item h => exact Expr.faults_of_mem_items hitems h
    | source h =>
      obtain rfl := h
      rw [Source.faultsOption, Source.faults, List.append_eq_nil_iff] at hsource
      exact hsource.1
    | filter h =>
      obtain rfl := h
      simpa only [faults, Expr.faultsOption] using hfilter
    | group h => exact Expr.faults_of_mem hgroups h
    | having h =>
      obtain rfl := h
      simpa only [faults, Expr.faultsOption] using hhaving
    | order h => exact OrderItem.faults_of_mem horders h

lemma Part.functions_subset (h : Part t root) : t.functions ⊆ root.functions := by
  induction h using Relation.ReflTransGen.head_induction_on with
  | refl => exact List.Subset.refl _
  | head hchild _ ih => exact List.Subset.trans hchild.functions_subset ih

lemma Part.faults_eq_nil {d : Dialect} (h : Part t root) (hroot : root.faults d = []) :
    t.faults d = [] := by
  induction h using Relation.ReflTransGen.head_induction_on with
  | refl => exact hroot
  | head hchild _ ih => exact hchild.faults_eq_nil ih

end Root

end SqlTree
