import SqlTree.Proofs.Faults

/-!
The faults of a tree in two dialects.

A dialect takes part in the faults of a tree through its operators alone. A dialect without any
operator therefore finds everything that some dialect could find, and every other dialect finds
the same in the same order, except for the operators that it has. Which of two dialects stops
first, and where, is a question about these lists.
-/

namespace SqlTree

/-- A dialect without operators. -/
def Dialect.mute : Dialect := { name := "mute", token? := fun _ => none }

/-- What is left of a fault where a dialect has its say about the operators. -/
def Fault.under (d : Dialect) : Fault → List Fault
  | .unsupported op _ => op.faults d
  | .malformed defect => [.malformed defect]

section

variable (d : Dialect)

lemma BinaryOp.under_faults (op : BinaryOp) :
    (op.faults .mute).flatMap (Fault.under d) = op.faults d := by
  simp [BinaryOp.faults, Dialect.mute, Fault.under]

/-! Names are the same to all dialects. -/

@[simp] lemma NameRole.under_faults (role : NameRole) (s : String) :
    (role.faults s).flatMap (Fault.under d) = role.faults s := by
  by_cases hs : s = "" <;> simp [NameRole.faults, hs, Fault.under]

namespace Fault

@[simp] lemma under_ofQualifier (table? : Option String) :
    (ofQualifier table?).flatMap (under d) = ofQualifier table? := by
  cases table? <;> simp [ofQualifier]

@[simp] lemma under_ofColumn (c : ColumnRef) : (ofColumn c).flatMap (under d) = ofColumn c := by
  simp [ofColumn]

@[simp] lemma under_ofProperty (e : Expr) : (ofProperty e).flatMap (under d) = ofProperty e := by
  cases e with
  | column c =>
    by_cases h : c.property? = some "" ∧ c.name ≠ "" <;> simp [ofProperty, h, under]
  | _ => rfl

@[simp] lemma under_ofTable (t : Table) : (ofTable t).flatMap (under d) = ofTable t := by
  obtain ⟨n, _ | a⟩ := t <;> simp [ofTable]

@[simp] lemma under_ofAllColumns (source? : Option Source) (items : List Expr) :
    (ofAllColumns source? items).flatMap (under d) = ofAllColumns source? items := by
  rcases source? with _ | (t | ⟨s, a⟩) <;> cases items <;> simp [ofAllColumns]

end Fault

mutual

/-- **Only the operators make a difference.** -/
theorem Expr.under_faults : ∀ e : Expr, (e.faults .mute).flatMap (Fault.under d) = e.faults d
  | .column c => by simp [Expr.faults]
  | .literal v => by simp [Expr.faults]
  | .wildcard table? => by simp [Expr.faults]
  | .binary op l r => by
    simp [Expr.faults, BinaryOp.under_faults, Expr.under_faults l, Expr.under_faults r]
  | .unary op e => by simp [Expr.faults, Expr.under_faults e]
  | .call f args => by simp [Expr.faults, Expr.underAll_faults args]
  | .aliased e a => by simp [Expr.faults, Expr.under_faults e]
  | .member e [] negated => by simp [Expr.faults, Fault.under]
  | .member e (x :: xs) negated => by
    simp [Expr.faults, Expr.under_faults e, Expr.underAll_faults (x :: xs)]
  | .subquery s => by simp [Expr.faults, Select.under_faults s]

theorem Expr.underAll_faults : ∀ es : List Expr,
    (Expr.faultsAll .mute es).flatMap (Fault.under d) = Expr.faultsAll d es
  | [] => by simp [Expr.faultsAll]
  | e :: es => by simp [Expr.faultsAll, Expr.under_faults e, Expr.underAll_faults es]

theorem Expr.underItems_faults : ∀ es : List Expr,
    (Expr.faultsItems .mute es).flatMap (Fault.under d) = Expr.faultsItems d es
  | [] => by simp [Expr.faultsItems]
  | e :: es => by simp [Expr.faultsItems, Expr.under_faults e, Expr.underItems_faults es]

theorem Expr.underOption_faults : ∀ e? : Option Expr,
    (Expr.faultsOption .mute e?).flatMap (Fault.under d) = Expr.faultsOption d e?
  | none => by simp [Expr.faultsOption]
  | some e => by simp [Expr.faultsOption, Expr.under_faults e]

theorem Select.under_faults : ∀ s : Select,
    (s.faults .mute).flatMap (Fault.under d) = s.faults d
  | ⟨distinct, items, source?, filter?, groups, having?, orders, limit?, offset?⟩ => by
    by_cases hempty : items = [] ∧ source? = none
    · obtain ⟨rfl, rfl⟩ := hempty
      simp [Select.faults, Fault.under]
    · have hparts : items = [] → source? = none → False := fun hi hs => hempty ⟨hi, hs⟩
      rw [Select.faults, Select.faults]
      · simp [Expr.underItems_faults items, Source.underOption_faults source?,
          Expr.underOption_faults filter?, Expr.underAll_faults groups,
          Expr.underOption_faults having?, OrderItem.underAll_faults orders]
      · exact hparts
      · exact hparts

theorem Source.under_faults : ∀ x : Source,
    (x.faults .mute).flatMap (Fault.under d) = x.faults d
  | .table t => by simp [Source.faults]
  | .subquery s a => by simp [Source.faults, Select.under_faults s]

theorem Source.underOption_faults : ∀ x? : Option Source,
    (Source.faultsOption .mute x?).flatMap (Fault.under d) = Source.faultsOption d x?
  | none => by simp [Source.faultsOption]
  | some x => by simp [Source.faultsOption, Source.under_faults x]

theorem OrderItem.underAll_faults : ∀ os : List OrderItem,
    (OrderItem.faultsAll .mute os).flatMap (Fault.under d) = OrderItem.faultsAll d os
  | [] => by simp [OrderItem.faultsAll]
  | ⟨e, direction?⟩ :: os => by
    simp [OrderItem.faultsAll, Expr.under_faults e, OrderItem.underAll_faults os]

end

lemma Root.under_faults (root : Root) :
    (root.faults .mute).flatMap (Fault.under d) = root.faults d := by
  cases root with
  | expr e => exact e.under_faults d
  | select s => exact s.under_faults d

end

/-! ### Two dialects -/

/-- The other dialect has an operator wherever this one has. -/
def Dialect.Within (d d' : Dialect) : Prop := ∀ op, d'.token? op = none → d.token? op = none

/-- The same fault, met in a dialect of another name. -/
def Fault.renamed (name : String) : Fault → Fault
  | .unsupported op _ => .unsupported op name
  | .malformed defect => .malformed defect

namespace Root

variable {d d' : Dialect} {root : Root}

/-- An operator is rejected by the dialect that lacks it. -/
lemma unsupported_mem_faults {op : BinaryOp} {name : String}
    (h : .unsupported op name ∈ root.faults d) : d.token? op = none ∧ name = d.name := by
  rw [← root.under_faults d, List.mem_flatMap] at h
  obtain ⟨f, -, hf⟩ := h
  cases f with
  | malformed defect => simp [Fault.under] at hf
  | unsupported op' name' =>
    by_cases hop : d.token? op' = none
    · obtain ⟨rfl, rfl⟩ : op = op' ∧ name = d.name := by
        simpa [Fault.under, BinaryOp.faults, hop] using hf
      exact ⟨hop, rfl⟩
    · simp [Fault.under, BinaryOp.faults, hop] at hf

/-- Dialects with the same operators meet the same faults, each under its own name. -/
lemma faults_renamed (h : d.token? = d'.token?) (root : Root) :
    (root.faults d).map (Fault.renamed d'.name) = root.faults d' := by
  have hunder : ∀ f : Fault, (f.under d).map (Fault.renamed d'.name) = f.under d' := by
    intro f
    cases f with
    | malformed defect => rfl
    | unsupported op name =>
      by_cases hop : d'.token? op = none <;>
        simp [Fault.under, BinaryOp.faults, Fault.renamed, h, hop]
  rw [← root.under_faults d, ← root.under_faults d', List.map_flatMap]
  exact congrArg (root.faults .mute).flatMap (funext hunder)

lemma faults_eq_of_token (h : d.token? = d'.token?) (hname : d.name = d'.name) (root : Root) :
    root.faults d = root.faults d' := by
  have hunder : Fault.under d = Fault.under d' := by
    funext f
    cases f <;> simp [Fault.under, BinaryOp.faults, h, hname]
  rw [← root.under_faults d, ← root.under_faults d', hunder]

/-- With more operators there are no further faults. -/
lemma faults_of_within (h : d.Within d') (hnil : root.faults d = []) : root.faults d' = [] := by
  rw [← root.under_faults d, List.flatMap_eq_nil_iff] at hnil
  rw [← root.under_faults d', List.flatMap_eq_nil_iff]
  intro f hf
  cases f with
  | malformed defect => exact absurd (hnil _ hf) (by simp [Fault.under])
  | unsupported op name =>
    have hop : d.token? op ≠ none := by
      simpa [Fault.under, BinaryOp.faults] using hnil _ hf
    have hop' : d'.token? op ≠ none := fun hnone => hop (h op hnone)
    simp [Fault.under, BinaryOp.faults, hop']

/-- A defect that is met before any rejection is met first with more operators as well. -/
lemma malformed_of_within (h : d.Within d') {defect : Defect}
    (hhead : (root.faults d).head? = some (.malformed defect)) :
    (root.faults d').head? = some (.malformed defect) := by
  rw [← root.under_faults d] at hhead
  rw [← root.under_faults d']
  generalize root.faults .mute = fs at hhead ⊢
  induction fs with
  | nil => simp at hhead
  | cons f fs ih =>
    cases f with
    | malformed m => simpa [Fault.under] using hhead
    | unsupported op name =>
      -- the first dialect has the operator, since it gets past it, and so has the second
      by_cases hop : d.token? op = none
      · simp [Fault.under, BinaryOp.faults, hop] at hhead
      · have hop' : d'.token? op ≠ none := fun hnone => hop (h op hnone)
        simp only [List.flatMap_cons, Fault.under, BinaryOp.faults, if_neg hop,
          List.nil_append] at hhead
        simpa [Fault.under, BinaryOp.faults, hop'] using ih hhead

end Root

end SqlTree
