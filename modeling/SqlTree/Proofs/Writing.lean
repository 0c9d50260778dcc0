import SqlTree.Proofs.Faults
import SqlTree.Proofs.Pieces

/-!
What rendering does to a draft.

A step of the renderer has two descriptions: the pieces that it writes and the faults that it
can meet. If there is no fault, the pieces are added to the draft and nothing else changes; if
there is one, the first ends the step, and a rejected operator is all that the log gains. The
two descriptions of a sequence are those of its parts put together, so those of a tree are its
pieces and its faults.
-/

namespace SqlTree

namespace Draft

/-- The draft with further pieces at its end. -/
def add (d : Dialect) (draft : Draft) (ps : List Piece) : Draft :=
  { draft with
    text := draft.text ++ Piece.text d draft.params.size ps
    display := draft.display ++ Piece.display d ps
    params := draft.params ++ (Piece.values ps).toArray }

lemma add_nil (d : Dialect) (draft : Draft) : draft.add d [] = draft := by
  simp [add, Piece.text, Piece.display, Piece.values]

lemma add_add (d : Dialect) (draft : Draft) (ps qs : List Piece) :
    (draft.add d ps).add d qs = draft.add d (ps ++ qs) := by
  simp [add, Piece.text_append, String.append_assoc]

end Draft

/-- What a fault leaves in the log. -/
def Fault.events : Fault → Array Event
  | .unsupported op dialect => #[.rejected op dialect]
  | .malformed _ => #[]

lemma NameRole.faults_eq (role : NameRole) (s : String) :
    role.faults s = if s != "" then [] else [.malformed (.emptyName role)] := by
  by_cases hs : s = "" <;> simp [NameRole.faults, hs]

/-- The step writes the pieces, or ends with the first of the faults. -/
structure Writes (d : Dialect) (m : Write Unit) (ps : List Piece) (fs : List Fault) : Prop where
  done : fs = [] → ∀ draft, m draft = .ok () (draft.add d ps)
  fails : ∀ f, fs.head? = some f → ∀ draft, ∃ left,
    m draft = .error f left ∧ left.log = draft.log ++ f.events

namespace Writes

variable {d : Dialect} {m m' : Write Unit} {ps qs : List Piece} {fs gs : List Fault}

lemma bind_ok {draft next : Draft} {k : Unit → Write Unit} (h : m draft = .ok () next) :
    (m >>= k) draft = k () next := by
  simp only [bind, EStateM.bind, h]

lemma bind_error {α : Type} {x : Write α} {draft left : Draft} {f : Fault}
    {k : α → Write Unit} (h : x draft = .error f left) : (x >>= k) draft = .error f left := by
  simp only [bind, EStateM.bind, h]

/-- A sequence of two steps. -/
lemma seq (h : Writes d m ps fs) (h' : Writes d m' qs gs) :
    Writes d (m >>= fun _ => m') (ps ++ qs) (fs ++ gs) where
  done hnil draft := by
    obtain ⟨hfs, hgs⟩ := List.append_eq_nil_iff.mp hnil
    rw [bind_ok (h.done hfs draft), h'.done hgs, Draft.add_add]
  fails f hf draft := by
    cases fs with
    | nil =>
      obtain ⟨left, hm, hlog⟩ := h'.fails f (by simpa using hf) (draft.add d ps)
      exact ⟨left, by rw [bind_ok (h.done rfl draft), hm], by rw [hlog]; rfl⟩
    | cons g rest =>
      obtain ⟨left, hm, hlog⟩ := h.fails f (by simpa using hf) draft
      exact ⟨left, bind_error hm, hlog⟩

/-- A second step that cannot fail adds no fault. -/
lemma seq_sure (h : Writes d m ps fs) (h' : Writes d m' qs []) :
    Writes d (m >>= fun _ => m') (ps ++ qs) fs := by
  simpa using h.seq h'

/-- What comes after a fault does not matter. -/
lemma seq_of_fault {f : Fault} (h : Writes d m ps [f]) : Writes d (m >>= fun _ => m') qs [f] where
  done hnil := absurd hnil (List.cons_ne_nil _ _)
  fails g hg draft := by
    obtain ⟨left, hm, hlog⟩ := h.fails g hg draft
    exact ⟨left, bind_error hm, hlog⟩

lemma nothing : Writes d (pure ()) [] [] where
  done _ draft := by rw [Draft.add_nil]; rfl
  fails f hf := by simp at hf

lemma raw (s : String) : Writes d (Write.push s) [.raw s] [] where
  done _ draft := by simp [Draft.add, Piece.text, Piece.display, Piece.values]
  fails f hf := by simp at hf

lemma raw_empty : Writes d (Write.push "") [] [] where
  done _ draft := by rw [Draft.add_nil]; simp
  fails f hf := by simp at hf

lemma require (b : Bool) (defect : Defect) :
    Writes d (Write.require b defect) [] (if b then [] else [.malformed defect]) := by
  cases b with
  | true => exact nothing
  | false =>
    refine ⟨fun h => by simp at h, fun f hf draft => ⟨draft, ?_, ?_⟩⟩
    · simp_all
    · obtain rfl : Fault.malformed defect = f := by simpa using hf
      simp [Fault.events]

lemma require_true {b : Bool} (h : b = true) (defect : Defect) :
    Writes d (Write.require b defect) [] [] := by
  subst h
  exact nothing

lemma name (role : NameRole) (s : String) :
    Writes d (Write.name d role s) [.name s] (role.faults s) := by
  have hpush : Writes d (Write.push (d.quoteName s)) [.name s] [] :=
    ⟨fun _ draft => by simp [Draft.add, Piece.text, Piece.display, Piece.values],
      fun f hf => by simp at hf⟩
  rw [NameRole.faults_eq]
  exact (require (s != "") (.emptyName role)).seq_sure hpush

/-- A function's name is not quoted, but must not be empty either. -/
lemma function {f : String} (h : Writes d m ps fs) :
    Writes d (Write.require (f != "") (.emptyName .function) >>= fun _ => m) ps
      (NameRole.function.faults f ++ fs) := by
  rw [NameRole.faults_eq]
  exact (require (f != "") (.emptyName .function)).seq h

lemma value (v : Value) : Writes d (Write.value d v) [.hole v false] [] where
  done _ draft := by simp [Draft.add, Piece.text, Piece.display, Piece.values, Piece.gap]
  fails f hf := by simp at hf

/-- A literal after a minus sign, with the gap that it may need. -/
lemma gap_value (v : Value) :
    Writes d (Render.signGap d (.literal v) >>= fun _ => Write.value d v) [.hole v true] [] where
  done _ draft := by
    by_cases h : (d.inline v).toList.head? = some '-' <;>
      simp [Render.signGap, h, bind, EStateM.bind, pure, EStateM.pure, Draft.add, Piece.text,
        Piece.display, Piece.values, Piece.gap, String.append_assoc]
  fails f hf := by simp at hf

/-- The operand of a minus sign. -/
lemma signed {e : Expr} (h : Writes d (e.render d) (e.pieces false) (e.faults d)) :
    Writes d (Render.signGap d e >>= fun _ => e.render d) (e.pieces true) (e.faults d) := by
  cases e with
  | literal v =>
    rw [Expr.render, Expr.pieces, Expr.faults]
    exact gap_value v
  | _ =>
    rw [Expr.pieces_signed (by simp)]
    exact nothing.seq h

/-- The operator is looked up first, and the token that was found is written later on. -/
lemma token {op : BinaryOp} {k : String → Write Unit}
    (h : ∀ s, d.token? op = some s → Writes d (k s) ps fs) :
    Writes d (Write.token d op >>= k) ps (op.faults d ++ fs) := by
  cases ht : d.token? op with
  | none =>
    have hfaults : op.faults d ++ fs = .unsupported op d.name :: fs := by
      simp [BinaryOp.faults, ht]
    rw [hfaults]
    refine ⟨fun h => by simp at h, fun f hf draft => ?_⟩
    obtain rfl : Fault.unsupported op d.name = f := by simpa using hf
    exact ⟨_, bind_error (Write.token_of_none ht draft), by simp [Fault.events]⟩
  | some s =>
    have hfaults : op.faults d ++ fs = fs := by simp [BinaryOp.faults, ht]
    rw [hfaults, Write.token_of_some ht]
    exact h s ht

lemma op {op : BinaryOp} {s : String} (h : d.token? op = some s) :
    Writes d (Write.push s) [.op op] [] where
  done _ draft := by simp [Draft.add, Piece.text, Piece.display, Piece.values, h]
  fails f hf := by simp at hf

/-! ### The parts of a tree that hold no expression -/

lemma qualifier (table? : Option String) :
    Writes d (Render.qualifier d table?) (Piece.qualifier table?) (Fault.ofQualifier table?) := by
  cases table? with
  | none => exact nothing
  | some t => exact (name .table t).seq_sure (raw ".")

lemma column (c : ColumnRef) :
    Writes d (Render.column d c) (Piece.column c) (Fault.ofColumn c) :=
  (qualifier c.table?).seq (name .column c.name)

lemma ofProperty_column (c : ColumnRef) :
    Fault.ofProperty (.column c) =
      match c.distinctProperty? with
      | none => []
      | some p => NameRole.property.faults p := by
  obtain ⟨name, table?, property?⟩ := c
  rcases property? with _ | p
  · simp [Fault.ofProperty, ColumnRef.distinctProperty?]
  · by_cases hp : p = name
    · subst hp
      simp +contextual [Fault.ofProperty, ColumnRef.distinctProperty?, Option.filter]
    · by_cases he : p = "" <;>
        simp_all [Fault.ofProperty, ColumnRef.distinctProperty?, Option.filter, NameRole.faults]

lemma property (e : Expr) :
    Writes d (Render.propertyName d e) (Piece.property e) (Fault.ofProperty e) := by
  cases e with
  | column c =>
    rw [ofProperty_column, Render.propertyName, Piece.property]
    cases c.distinctProperty? with
    | none => exact nothing
    | some p => exact (raw " AS ").seq (name .property p)
  | _ => exact nothing

lemma table (t : Table) : Writes d (Render.table d t) (Piece.table t) (Fault.ofTable t) := by
  obtain ⟨n, alias?⟩ := t
  refine (name .table n).seq ?_
  cases alias? with
  | none => exact nothing
  | some a => exact (raw " AS ").seq (name .aliasName a)

lemma distinct (b : Bool) :
    Writes d (Write.push (if b then "DISTINCT " else "")) (if b then [.raw "DISTINCT "] else [])
      [] := by
  cases b with
  | false => exact raw_empty
  | true => exact raw "DISTINCT "

lemma allColumns (source? : Option Source) (items : List Expr) :
    Writes d (Render.allColumns d source? items) (Piece.allColumns source? items)
      (Fault.ofAllColumns source? items) := by
  rcases source? with _ | (t | ⟨s, a⟩) <;> rcases items with _ | ⟨e, es⟩
  case some.table.nil =>
    exact (name .table t.reference).seq_sure (raw ".*")
  all_goals first | exact nothing | exact raw "*"

lemma direction (direction? : Option Direction) :
    Writes d (Render.direction direction?) (Piece.direction direction?) [] := by
  cases direction? with
  | none => exact nothing
  | some x => exact (raw " ").seq (raw x.token)

lemma number (lead : String) (n? : Option Nat) :
    Writes d (Render.number lead n?) (Piece.number lead n?) [] := by
  cases n? with
  | none => exact nothing
  | some n => exact raw (lead ++ toString n)

/-- Membership, in a list of expressions or in what a sub-select yields. -/
lemma member {e : Expr} {items : List Expr} {negated : Bool}
    (he : Writes d (e.render d) (e.pieces false) (e.faults d))
    (hall : Writes d (Expr.renderAll d "" items) (Expr.piecesAll [] items)
      (Expr.faultsAll d items))
    (hone : ∀ s, items = [.subquery s] → Writes d (s.render d) s.pieces (s.faults d)) :
    Writes d ((Expr.member e items negated).render d) ((Expr.member e items negated).pieces false)
      ((Expr.member e items negated).faults d) := by
  have hlead := raw (d := d) (if negated then " NOT IN (" else " IN (")
  by_cases hnil : items = []
  · subst hnil
    rw [Expr.render, Expr.faults]
    · exact (require false .emptyInList).seq_of_fault
    · simp
  have hreq : Writes d (Write.require (!items.isEmpty) .emptyInList) [] [] :=
    require_true (by simpa using hnil) _
  by_cases hs : ∃ s, items = [.subquery s]
  · -- the parentheses of the sub-select are those of the list
    obtain ⟨s, rfl⟩ := hs
    have hfaults : Expr.faultsAll d [.subquery s] = s.faults d := by
      simp only [Expr.faultsAll, Expr.faults, List.append_nil]
    rw [Expr.render, Expr.pieces, Expr.faults, hfaults]
    · exact hreq.seq ((raw "(").seq (he.seq (hlead.seq ((hone s rfl).seq_sure (raw "))")))))
    · exact hnil
  · have hs : ∀ s, items ≠ [.subquery s] := fun s h => hs ⟨s, h⟩
    rw [Expr.pieces_member hs, Expr.render, Expr.faults]
    · exact hreq.seq ((raw "(").seq (he.seq (hlead.seq (hall.seq_sure (raw "))")))))
    · exact hnil
    · exact hs

end Writes

/-! ### Trees -/

variable (d : Dialect)

mutual

/-- **Rendering an expression writes its pieces, or ends with the first of its faults.** -/
theorem Expr.render_writes : ∀ e : Expr, Writes d (e.render d) (e.pieces false) (e.faults d)
  | .column c => by
    rw [Expr.render, Expr.pieces, Expr.faults]
    exact .column c
  | .literal v => by
    rw [Expr.render, Expr.pieces, Expr.faults]
    exact .value v
  | .wildcard table? => by
    rw [Expr.render, Expr.pieces, Expr.faults]
    exact (Writes.qualifier table?).seq_sure (.raw "*")
  | .binary op l r => by
    rw [Expr.render, Expr.pieces, Expr.faults]
    have hl := Expr.render_writes l
    have hr := Expr.render_writes r
    refine .token fun s hs => ?_
    exact (Writes.raw "(").seq (hl.seq ((Writes.raw " ").seq ((Writes.op hs).seq
      ((Writes.raw " ").seq (hr.seq_sure (.raw ")"))))))
  | .unary .distinct e => by
    rw [Expr.render, Expr.pieces, Expr.faults]
    exact (Writes.raw "DISTINCT(").seq ((Expr.render_writes e).seq_sure (.raw ")"))
  | .unary .not e => by
    rw [Expr.render, Expr.pieces, Expr.faults]
    exact (Writes.raw "(NOT ").seq ((Expr.render_writes e).seq_sure (.raw ")"))
  | .unary .neg e => by
    rw [Expr.render, Expr.pieces, Expr.faults]
    have h := (Expr.render_writes e).signed.seq_sure (.raw ")")
    rw [bind_assoc] at h
    exact (Writes.raw "(-").seq h
  | .unary .isNull e => by
    rw [Expr.render, Expr.pieces, Expr.faults]
    exact (Writes.raw "(").seq ((Expr.render_writes e).seq_sure (.raw " IS NULL)"))
  | .unary .isNotNull e => by
    rw [Expr.render, Expr.pieces, Expr.faults]
    exact (Writes.raw "(").seq ((Expr.render_writes e).seq_sure (.raw " IS NOT NULL)"))
  | .call f args => by
    rw [Expr.render, Expr.pieces, Expr.faults]
    have h := (Writes.raw f).seq ((Writes.raw "(").seq
      ((Expr.renderAll_writes .raw_empty args).seq_sure (.raw ")")))
    exact Writes.function h
  | .aliased e a => by
    rw [Expr.render, Expr.pieces, Expr.faults]
    exact (Expr.render_writes e).seq ((Writes.raw " AS ").seq (.name .aliasName a))
  | .member e items negated => by
    have he := Expr.render_writes e
    have hall := Expr.renderAll_writes .raw_empty items
    have hone : ∀ s, items = [.subquery s] → Writes d (s.render d) s.pieces (s.faults d) := by
      intro s h
      match items, h with
      | [.subquery t], h =>
        obtain rfl : t = s := by simpa using h
        exact Select.render_writes t
    exact .member he hall hone
  | .subquery s => by
    rw [Expr.render, Expr.pieces, Expr.faults]
    exact (Writes.raw "(").seq ((Select.render_writes s).seq_sure (.raw ")"))

theorem Expr.renderAll_writes {lead : String} {ps : List Piece}
    (hlead : Writes d (Write.push lead) ps []) :
    ∀ es : List Expr, Writes d (Expr.renderAll d lead es) (Expr.piecesAll ps es)
      (Expr.faultsAll d es)
  | [] => by
    rw [Expr.renderAll, Expr.piecesAll, Expr.faultsAll]
    exact .nothing
  | e :: es => by
    rw [Expr.renderAll, Expr.piecesAll, Expr.faultsAll]
    exact hlead.seq ((Expr.render_writes e).seq (Expr.renderAll_writes (.raw ", ") es))

theorem Expr.renderItems_writes {lead : String} {ps : List Piece}
    (hlead : Writes d (Write.push lead) ps []) :
    ∀ es : List Expr, Writes d (Expr.renderItems d lead es) (Expr.piecesItems ps es)
      (Expr.faultsItems d es)
  | [] => by
    rw [Expr.renderItems, Expr.piecesItems, Expr.faultsItems]
    exact .nothing
  | e :: es => by
    rw [Expr.renderItems, Expr.piecesItems, Expr.faultsItems]
    exact hlead.seq ((Expr.render_writes e).seq ((Writes.property e).seq
      (Expr.renderItems_writes (.raw ", ") es)))

theorem Expr.renderOption_writes (lead : String) :
    ∀ e? : Option Expr, Writes d (Expr.renderOption d lead e?) (Expr.piecesOption lead e?)
      (Expr.faultsOption d e?)
  | none => by
    rw [Expr.renderOption, Expr.piecesOption, Expr.faultsOption]
    exact .nothing
  | some e => by
    rw [Expr.renderOption, Expr.piecesOption, Expr.faultsOption]
    exact (Writes.raw lead).seq (Expr.render_writes e)

theorem Select.render_writes : ∀ s : Select, Writes d (s.render d) s.pieces (s.faults d)
  | ⟨distinct, items, source?, filter?, groups, having?, orders, limit?, offset?⟩ => by
    rw [Select.render, Select.pieces]
    have h := (Writes.raw "SELECT ").seq ((Writes.distinct distinct).seq
      ((Writes.allColumns source? items).seq ((Expr.renderItems_writes .raw_empty items).seq
      ((Source.renderOption_writes source?).seq ((Expr.renderOption_writes " WHERE " filter?).seq
      ((Expr.renderAll_writes (.raw " GROUP BY ") groups).seq
      ((Expr.renderOption_writes " HAVING " having?).seq
      ((OrderItem.renderAll_writes (.raw " ORDER BY ") orders).seq
      ((Writes.number " LIMIT " limit?).seq (.number " OFFSET " offset?))))))))))
    by_cases hempty : items = [] ∧ source? = none
    · obtain ⟨rfl, rfl⟩ := hempty
      rw [Select.faults]
      exact (Writes.require false .emptySelect).seq_of_fault
    · rw [Select.faults]
      · have hreq : (!items.isEmpty || source?.isSome) = true := by
          cases items <;> cases source? <;> simp_all
        simpa using (Writes.require_true hreq .emptySelect).seq h
      · exact fun hi hs => hempty ⟨hi, hs⟩

theorem Source.render_writes : ∀ x : Source, Writes d (x.render d) x.pieces (x.faults d)
  | .table t => by
    rw [Source.render, Source.pieces, Source.faults]
    exact .table t
  | .subquery s a => by
    rw [Source.render, Source.pieces, Source.faults]
    exact (Writes.raw "(").seq ((Select.render_writes s).seq
      ((Writes.raw ") AS ").seq (.name .aliasName a)))

theorem Source.renderOption_writes :
    ∀ x? : Option Source, Writes d (Source.renderOption d x?) (Source.piecesOption x?)
      (Source.faultsOption d x?)
  | none => by
    rw [Source.renderOption, Source.piecesOption, Source.faultsOption]
    exact .nothing
  | some x => by
    rw [Source.renderOption, Source.piecesOption, Source.faultsOption]
    exact (Writes.raw " FROM ").seq (Source.render_writes x)

theorem OrderItem.renderAll_writes {lead : String} {ps : List Piece}
    (hlead : Writes d (Write.push lead) ps []) :
    ∀ os : List OrderItem, Writes d (OrderItem.renderAll d lead os) (OrderItem.piecesAll ps os)
      (OrderItem.faultsAll d os)
  | [] => by
    rw [OrderItem.renderAll, OrderItem.piecesAll, OrderItem.faultsAll]
    exact .nothing
  | ⟨e, direction?⟩ :: os => by
    rw [OrderItem.renderAll, OrderItem.piecesAll, OrderItem.faultsAll]
    exact hlead.seq ((Expr.render_writes e).seq ((Writes.direction direction?).seq
      (OrderItem.renderAll_writes (.raw ", ") os)))

end

end SqlTree
