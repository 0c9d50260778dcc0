import SqlTree.Proofs.Literals
import SqlTree.Proofs.Relabel

/-!
What the literals of a tree cannot reach.

The renderer looks at a literal twice: it writes the value into the display, and after a minus
sign it asks how the value begins. Neither leaves a trace in the text, in the number of
parameters, in the faults or in the log. So two trees that differ in the values of their
literals alone compile to the same text, and a value cannot become part of what is executed.
-/

namespace SqlTree

namespace Relabel

variable (f : Value → Value)

@[simp] lemma column_values (c : ColumnRef) : (values f).column c = c := rfl

@[simp] lemma item_values (c : ColumnRef) : (values f).item c = c := rfl

@[simp] lemma name_values (s : String) : (values f).name s = s := rfl

@[simp] lemma map_name_values (s? : Option String) : s?.map (values f).name = s? := by
  cases s? <;> rfl

@[simp] lemma table_values (t : Table) : (values f).table t = t := by
  simp [Relabel.table]

/-- Where only values are replaced, an item of a select list is replaced as any expression. -/
@[simp] lemma listed_values (e : Expr) :
    (values f).listed e (e.relabel (.values f)) = e.relabel (.values f) := by
  cases e <;> simp [Relabel.listed, Expr.relabel]

/-- A reading that sees no values does not notice other ones. -/
lemma unseen_values {α : Type} {F : Piece → List α}
    (h : ∀ v signed, F (.hole (f v) signed) = F (.hole v signed)) : (values f).Unseen F :=
  ⟨fun _ => rfl, fun _ => rfl, fun _ => rfl, h⟩

end Relabel

/-! ### Faults -/

lemma Fault.ofProperty_values (f : Value → Value) (e : Expr) :
    Fault.ofProperty (e.relabel (.values f)) = Fault.ofProperty e := by
  cases e <;> simp [Expr.relabel, Fault.ofProperty]

lemma Fault.ofAllColumns_values (f : Value → Value) (source? : Option Source)
    (items : List Expr) :
    Fault.ofAllColumns (Source.relabelOption (.values f) source?)
        (Expr.relabelItems (.values f) items) =
      Fault.ofAllColumns source? items := by
  rcases source? with _ | (t | ⟨s, a⟩) <;> cases items <;>
    simp [Source.relabelOption, Source.relabel, Expr.relabelItems, Fault.ofAllColumns]

mutual

/-- The faults are the same whatever the values of the literals are. -/
theorem Expr.faults_values (f : Value → Value) (d : Dialect) :
    ∀ e : Expr, (e.relabel (.values f)).faults d = e.faults d
  | .column c => by simp [Expr.relabel, Expr.faults]
  | .literal v => by simp [Expr.relabel, Expr.faults]
  | .wildcard table? => by simp [Expr.relabel, Expr.faults]
  | .binary op l r => by
    simp [Expr.relabel, Expr.faults, Expr.faults_values f d l, Expr.faults_values f d r]
  | .unary op e => by simp [Expr.relabel, Expr.faults, Expr.faults_values f d e]
  | .call g args => by simp [Expr.relabel, Expr.faults, Expr.faultsAll_values f d args]
  | .aliased e a => by simp [Expr.relabel, Expr.faults, Expr.faults_values f d e]
  | .member e [] negated => by simp [Expr.relabel, Expr.relabelAll, Expr.faults]
  | .member e (x :: xs) negated => by
    have hall := Expr.faultsAll_values f d (x :: xs)
    simp only [Expr.relabelAll] at hall
    simp [Expr.relabel, Expr.relabelAll, Expr.faults, Expr.faults_values f d e, hall]
  | .subquery s => by simp [Expr.relabel, Expr.faults, Select.faults_values f d s]

theorem Expr.faultsAll_values (f : Value → Value) (d : Dialect) :
    ∀ es : List Expr, Expr.faultsAll d (Expr.relabelAll (.values f) es) = Expr.faultsAll d es
  | [] => by simp [Expr.relabelAll]
  | e :: es => by
    simp [Expr.relabelAll, Expr.faultsAll, Expr.faults_values f d e,
      Expr.faultsAll_values f d es]

theorem Expr.faultsItems_values (f : Value → Value) (d : Dialect) :
    ∀ es : List Expr,
      Expr.faultsItems d (Expr.relabelItems (.values f) es) = Expr.faultsItems d es
  | [] => by simp [Expr.relabelItems]
  | e :: es => by
    simp [Expr.relabelItems, Expr.faultsItems, Expr.faults_values f d e, Fault.ofProperty_values,
      Expr.faultsItems_values f d es]

theorem Expr.faultsOption_values (f : Value → Value) (d : Dialect) :
    ∀ e? : Option Expr,
      Expr.faultsOption d (Expr.relabelOption (.values f) e?) = Expr.faultsOption d e?
  | none => by simp [Expr.relabelOption]
  | some e => by simp [Expr.relabelOption, Expr.faultsOption, Expr.faults_values f d e]

theorem Select.faults_values (f : Value → Value) (d : Dialect) :
    ∀ s : Select, (s.relabel (.values f)).faults d = s.faults d
  | ⟨distinct, items, source?, filter?, groups, having?, orders, limit?, offset?⟩ => by
    have hall := Fault.ofAllColumns_values f source? items
    have hitems := Expr.faultsItems_values f d items
    have hsource := Source.faultsOption_values f d source?
    have hfilter := Expr.faultsOption_values f d filter?
    have hgroups := Expr.faultsAll_values f d groups
    have hhaving := Expr.faultsOption_values f d having?
    have horders := OrderItem.faultsAll_values f d orders
    rw [Select.relabel]
    by_cases hempty : items = [] ∧ source? = none
    · obtain ⟨rfl, rfl⟩ := hempty
      simp only [Expr.relabelItems, Source.relabelOption, Select.faults]
    · have hempty' : Expr.relabelItems (.values f) items = [] →
          Source.relabelOption (.values f) source? = none → False := by
        cases items <;> cases source? <;>
          simp_all [Expr.relabelItems, Source.relabelOption]
      rw [Select.faults, Select.faults, hall, hitems, hsource, hfilter, hgroups, hhaving, horders]
      · exact fun hi hs => hempty ⟨hi, hs⟩
      · exact hempty'

theorem Source.faults_values (f : Value → Value) (d : Dialect) :
    ∀ x : Source, (x.relabel (.values f)).faults d = x.faults d
  | .table t => by simp [Source.relabel]
  | .subquery s a => by simp [Source.relabel, Source.faults, Select.faults_values f d s]

theorem Source.faultsOption_values (f : Value → Value) (d : Dialect) :
    ∀ x? : Option Source,
      Source.faultsOption d (Source.relabelOption (.values f) x?) = Source.faultsOption d x?
  | none => by simp [Source.relabelOption]
  | some x => by simp [Source.relabelOption, Source.faultsOption, Source.faults_values f d x]

theorem OrderItem.faultsAll_values (f : Value → Value) (d : Dialect) :
    ∀ os : List OrderItem,
      OrderItem.faultsAll d (OrderItem.relabelAll (.values f) os) = OrderItem.faultsAll d os
  | [] => by simp [OrderItem.relabelAll]
  | ⟨e, direction?⟩ :: os => by
    simp [OrderItem.relabelAll, OrderItem.faultsAll, Expr.faults_values f d e,
      OrderItem.faultsAll_values f d os]

end

lemma Root.faults_values (f : Value → Value) (d : Dialect) (root : Root) :
    (root.relabel (.values f)).faults d = root.faults d := by
  cases root with
  | expr e => exact Expr.faults_values f d e
  | select s => exact Select.faults_values f d s

/-! ### Text and parameters -/

namespace Piece

/-- The piece without the value in it. -/
def blank : Piece → Piece
  | .hole _ signed => .hole .null signed
  | p => p

@[simp] lemma text_blank (d : Dialect) (k : Nat) (ps : List Piece) :
    text d k (ps.flatMap fun p => [p.blank]) = text d k ps := by
  induction ps generalizing k with
  | nil => rfl
  | cons p ps ih => cases p <;> simp [text, blank, ← ih]

@[simp] lemma length_values_blank (ps : List Piece) :
    (values (ps.flatMap fun p => [p.blank])).length = (values ps).length := by
  induction ps with
  | nil => rfl
  | cons p ps ih => cases p <;> simp [values, blank, ← ih]

end Piece

namespace Root

/-- The tree with null for every literal. What is left is all but the values. -/
def blank (root : Root) : Root := root.relabel (.values fun _ => .null)

section

variable {f : Value → Value} {a b : Root} (h : a.relabel (.values f) = b.relabel (.values f))

include h

lemma blank_pieces_of_values_eq :
    a.pieces.flatMap (fun p => [p.blank]) = b.pieces.flatMap fun p => [p.blank] :=
  read_of_relabel_eq (Relabel.unseen_values f fun _ _ => rfl) h

lemma faults_of_values_eq (d : Dialect) : a.faults d = b.faults d := by
  rw [← faults_values f d a, h, faults_values]

lemma text_of_values_eq (d : Dialect) : (a.query d).text = (b.query d).text := by
  rw [query, query, ← Piece.text_blank, blank_pieces_of_values_eq h, Piece.text_blank]

end

section

variable {a b : Root} (h : a.blank = b.blank)

include h

lemma faults_of_blank_eq (d : Dialect) : a.faults d = b.faults d := faults_of_values_eq h d

lemma text_of_blank_eq (d : Dialect) : (a.query d).text = (b.query d).text := text_of_values_eq h d

lemma size_of_blank_eq (d : Dialect) : (a.query d).params.size = (b.query d).params.size := by
  rw [query, query, List.size_toArray, List.size_toArray, ← Piece.length_values_blank,
    blank_pieces_of_values_eq h, Piece.length_values_blank]

/-- **Literals do not interfere.** Two trees that are the same but for the values of their
literals log the same events and either fail alike or have the same text, and as many
parameters, which are the literals of each. -/
theorem compile_of_blank_eq (d : Dialect) :
    (compile d a).events = (compile d b).events ∧
      ((∃ f, a.toQuery d = .error f ∧ b.toQuery d = .error f) ∨
        ∃ p q, a.toQuery d = .ok p ∧ b.toQuery d = .ok q ∧ p.text = q.text ∧
          p.params.size = q.params.size ∧ p.params.toList = a.literals ∧
          q.params.toList = b.literals) := by
  have hfaults := faults_of_blank_eq h d
  cases hf : a.faults d with
  | nil =>
    have hb : b.faults d = [] := hfaults ▸ hf
    refine ⟨?_, .inr ⟨_, _, toQuery_of_sound hf, toQuery_of_sound hb, text_of_blank_eq h d,
      size_of_blank_eq h d, ?_, ?_⟩⟩
    · rw [compile_of_sound hf, compile_of_sound hb, size_of_blank_eq h d]
    · rw [query, values_pieces]
    · rw [query, values_pieces]
  | cons f fs =>
    have ha : (a.faults d).head? = some f := by rw [hf]; rfl
    have hb : (b.faults d).head? = some f := hfaults ▸ ha
    refine ⟨?_, .inl ⟨f, toQuery_of_fault ha, toQuery_of_fault hb⟩⟩
    rw [compile_of_fault ha, compile_of_fault hb]

end

/-- Values of other kinds, one of which has a sign and the other a quote. -/
theorem compile_of_blank_eq_hostile :
    let tree : Value → Value → Root := fun v w =>
      .select {
        items := [.unary .neg (.literal v)]
        filter? := some (.member (.literal w) [.subquery { items := [.literal v] }] false) }
    let a := tree (.int (-5)) .null
    let b := tree (.text "' OR 1 = 1 --") (.bool true)
    a.blank = b.blank ∧ (compile .mysql a).events = (compile .mysql b).events ∧
      ∃ p q, a.toQuery .mysql = .ok p ∧ b.toQuery .mysql = .ok q ∧ p.text = q.text ∧
        p.params.toList = a.literals ∧ q.params.toList = b.literals := by
  intro tree a b
  have hblank : a.blank = b.blank := rfl
  obtain ⟨hevents, ⟨f, hfault, -⟩ | ⟨p, q, hp, hq, htext, -, hparams⟩⟩ :=
    compile_of_blank_eq hblank .mysql
  · have hsound : a.faults .mysql = [] := by decide
    rw [toQuery_of_sound hsound] at hfault
    cases hfault
  · exact ⟨hblank, hevents, p, q, hp, hq, htext, hparams⟩

end Root

end SqlTree
