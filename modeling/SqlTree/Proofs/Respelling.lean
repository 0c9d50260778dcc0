import Mathlib.Logic.Relation
import Mathlib.Tactic.Lemma
import SqlTree.Dialect.Builtin
import SqlTree.Function
import SqlTree.Query.Compile
import SqlTree.Tree.Build

/-!
Trees that are spelled in different ways and compile alike.

Some trees say the same: `DISTINCT` of an expression and a call of the function of that name, an
empty select list and the wildcard that it stands for, a property in a select list and an alias,
a property elsewhere and none. The renderer looks at more than a node in a few places, at a sign
before a literal, at the only member of a list, at a column in a select list, so that it has to
be shown of each place that it cannot tell one spelling from the other there. What is shown is
that it takes the same steps, whatever was written before; so faults and events are the same too.
-/

namespace SqlTree

/-! ### Spellings -/

/-- Two spellings of an expression that does not stand in a select list itself. -/
inductive Expr.Respelling : Expr → Expr → Prop
  | distinct (e : Expr) : Respelling e.distinct (SqlFunction.distinct.call [e])
  | property (c : ColumnRef) : Respelling (.column c) (.column { c with property? := none })

/-- Two spellings of an item of a select list. -/
inductive Expr.ItemRespelling : Expr → Expr → Prop
  | aliased {c : ColumnRef} {p : String} (h : c.property? = some p) (hp : p ≠ "")
      (hname : p ≠ c.name) :
      ItemRespelling (.column c) (.aliased (.column { c with property? := none }) p)
  | property {c : ColumnRef} (h : c.property? = some c.name) :
      ItemRespelling (.column c) (.column { c with property? := none })

/-- Two spellings of a statement that takes all columns of its source. -/
inductive Select.Respelling : Select → Select → Prop
  | table {s : Select} {t : Table} (hitems : s.items = []) (hsource : s.source? = some (.table t)) :
      Respelling s { s with items := [t.star] }
  | subquery {s x : Select} {a : String} (hitems : s.items = [])
      (hsource : s.source? = some (.subquery x a)) : Respelling s { s with items := [Expr.star] }

namespace Root

/-- One place of the tree, at any depth, is spelled in another way. A column that is an item of
a select list has the spellings of an item and no others. -/
inductive Respelled : Root → Root → Prop
  | expr {e e' : Expr} (h : e.Respelling e') : Respelled (.expr e) (.expr e')
  | select {s s' : Select} (h : s.Respelling s') : Respelled (.select s) (.select s')
  | item (s : Select) (before after : List Expr) {e e' : Expr} (h : e.ItemRespelling e') :
      Respelled (.select { s with items := before ++ e :: after })
        (.select { s with items := before ++ e' :: after })
  | left (op : BinaryOp) (r : Expr) {l l' : Expr} (h : Respelled (.expr l) (.expr l')) :
      Respelled (.expr (.binary op l r)) (.expr (.binary op l' r))
  | right (op : BinaryOp) (l : Expr) {r r' : Expr} (h : Respelled (.expr r) (.expr r')) :
      Respelled (.expr (.binary op l r)) (.expr (.binary op l r'))
  | operand (op : UnaryOp) {e e' : Expr} (h : Respelled (.expr e) (.expr e')) :
      Respelled (.expr (.unary op e)) (.expr (.unary op e'))
  | argument (f : String) (before after : List Expr) {e e' : Expr}
      (h : Respelled (.expr e) (.expr e')) :
      Respelled (.expr (.call f (before ++ e :: after)))
        (.expr (.call f (before ++ e' :: after)))
  | aliased (a : String) {e e' : Expr} (h : Respelled (.expr e) (.expr e')) :
      Respelled (.expr (.aliased e a)) (.expr (.aliased e' a))
  | tested (items : List Expr) (negated : Bool) {e e' : Expr}
      (h : Respelled (.expr e) (.expr e')) :
      Respelled (.expr (.member e items negated)) (.expr (.member e' items negated))
  | member (x : Expr) (before after : List Expr) (negated : Bool) {e e' : Expr}
      (h : Respelled (.expr e) (.expr e')) :
      Respelled (.expr (.member x (before ++ e :: after) negated))
        (.expr (.member x (before ++ e' :: after) negated))
  | subquery {s s' : Select} (h : Respelled (.select s) (.select s')) :
      Respelled (.expr (.subquery s)) (.expr (.subquery s'))
  | listed (s : Select) (before after : List Expr) {e e' : Expr} (hcolumn : ∀ c, e ≠ .column c)
      (h : Respelled (.expr e) (.expr e')) :
      Respelled (.select { s with items := before ++ e :: after })
        (.select { s with items := before ++ e' :: after })
  | source (s : Select) (a : String) {x x' : Select} (h : Respelled (.select x) (.select x')) :
      Respelled (.select { s with source? := some (.subquery x a) })
        (.select { s with source? := some (.subquery x' a) })
  | filter (s : Select) {e e' : Expr} (h : Respelled (.expr e) (.expr e')) :
      Respelled (.select { s with filter? := some e }) (.select { s with filter? := some e' })
  | group (s : Select) (before after : List Expr) {e e' : Expr}
      (h : Respelled (.expr e) (.expr e')) :
      Respelled (.select { s with groups := before ++ e :: after })
        (.select { s with groups := before ++ e' :: after })
  | having (s : Select) {e e' : Expr} (h : Respelled (.expr e) (.expr e')) :
      Respelled (.select { s with having? := some e }) (.select { s with having? := some e' })
  | order (s : Select) (before after : List OrderItem) (x? : Option Direction) {e e' : Expr}
      (h : Respelled (.expr e) (.expr e')) :
      Respelled (.select { s with orders := before ++ ⟨e, x?⟩ :: after })
        (.select { s with orders := before ++ ⟨e', x?⟩ :: after })

end Root

/-! ### Steps of the renderer -/

namespace Write

@[simp] lemma push_empty : push "" = pure () := by
  funext draft
  simp [pure, EStateM.pure]

lemma push_push (s t : String) : (push s >>= fun _ => push t) = push (s ++ t) := by
  funext draft
  simp [bind, EStateM.bind, String.append_assoc]

end Write

namespace Render

variable {d : Dialect}

/-- An item of a select list, with the name that its property gives it. -/
def item (d : Dialect) (e : Expr) : Write Unit := do
  e.render d
  propertyName d e

/-- What stands between the inner parentheses of a membership. -/
def members (d : Dialect) : List Expr → Write Unit
  | [.subquery s] => s.render d
  | items => Expr.renderAll d "" items

lemma members_of_ne {items : List Expr} (h : ∀ s, items ≠ [.subquery s]) :
    members d items = Expr.renderAll d "" items := by
  rw [members]
  exact h

end Render

open Render

variable {d : Dialect}

lemma Expr.render_member (d : Dialect) (e : Expr) (items : List Expr) (negated : Bool) :
    (Expr.member e items negated).render d = (do
      Write.require (!items.isEmpty) .emptyInList
      Write.push "("
      e.render d
      Write.push (if negated then " NOT IN (" else " IN (")
      members d items
      Write.push "))") := by
  by_cases hs : ∃ s, items = [.subquery s]
  · obtain ⟨s, rfl⟩ := hs
    rw [Expr.render, members]
  · have hs : ∀ s, items ≠ [.subquery s] := fun s h => hs ⟨s, h⟩
    rw [members_of_ne hs, Expr.render]
    exact hs

lemma Expr.renderItems_cons (d : Dialect) (lead : String) (e : Expr) (es : List Expr) :
    Expr.renderItems d lead (e :: es) = (do
      Write.push lead
      item d e
      Expr.renderItems d ", " es) := by
  rw [Expr.renderItems, item]
  simp only [bind_assoc]

lemma Expr.renderAll_singleton (d : Dialect) (e : Expr) : Expr.renderAll d "" [e] = e.render d := by
  rw [Expr.renderAll, Expr.renderAll, Write.push_empty, pure_bind, bind_pure_unit]

lemma Expr.renderAll_congr {e e' : Expr} (h : e.render d = e'.render d) (lead : String)
    (before after : List Expr) :
    Expr.renderAll d lead (before ++ e :: after) =
      Expr.renderAll d lead (before ++ e' :: after) := by
  induction before generalizing lead with
  | nil => rw [List.nil_append, List.nil_append, Expr.renderAll, Expr.renderAll, h]
  | cons x before ih =>
    rw [List.cons_append, List.cons_append, Expr.renderAll, Expr.renderAll, ih]

lemma Expr.renderItems_congr {e e' : Expr} (h : item d e = item d e') (lead : String)
    (before after : List Expr) :
    Expr.renderItems d lead (before ++ e :: after) =
      Expr.renderItems d lead (before ++ e' :: after) := by
  induction before generalizing lead with
  | nil => rw [List.nil_append, List.nil_append, renderItems_cons, renderItems_cons, h]
  | cons x before ih =>
    rw [List.cons_append, List.cons_append, renderItems_cons, renderItems_cons, ih]

lemma Expr.renderOption_congr {e e' : Expr} (h : e.render d = e'.render d) (lead : String) :
    Expr.renderOption d lead (some e) = Expr.renderOption d lead (some e') := by
  rw [Expr.renderOption, Expr.renderOption, h]

lemma Source.renderOption_congr {s s' : Select} (h : s.render d = s'.render d) (a : String) :
    Source.renderOption d (some (.subquery s a)) =
      Source.renderOption d (some (.subquery s' a)) := by
  rw [Source.renderOption, Source.renderOption, Source.render, Source.render, h]

lemma OrderItem.renderAll_congr {e e' : Expr} (h : e.render d = e'.render d) (lead : String)
    (x? : Option Direction) (before after : List OrderItem) :
    OrderItem.renderAll d lead (before ++ ⟨e, x?⟩ :: after) =
      OrderItem.renderAll d lead (before ++ ⟨e', x?⟩ :: after) := by
  induction before generalizing lead with
  | nil => rw [List.nil_append, List.nil_append, OrderItem.renderAll, OrderItem.renderAll, h]
  | cons o before ih =>
    obtain ⟨x, x?⟩ := o
    rw [List.cons_append, List.cons_append, OrderItem.renderAll, OrderItem.renderAll, ih]

/-- All columns, or the items. -/
def Render.selectList (d : Dialect) (source? : Option Source) (items : List Expr) : Write Unit := do
  allColumns d source? items
  Expr.renderItems d "" items

lemma Render.selectList_of_ne {items : List Expr} (h : items ≠ []) (source? : Option Source) :
    selectList d source? items = Expr.renderItems d "" items := by
  have hall : allColumns d source? items = pure () := by
    cases items with
    | nil => exact absurd rfl h
    | cons e es => rcases source? with _ | _ | _ <;> rfl
  rw [selectList, hall, pure_bind]

lemma Render.selectList_nil (d : Dialect) (source? : Option Source) :
    selectList d source? [] = allColumns d source? [] := by
  rw [selectList, Expr.renderItems, bind_pure_unit]

lemma Render.selectList_wildcard (d : Dialect) (source? : Option Source) (table? : Option String) :
    selectList d source? [.wildcard table?] = (do
      qualifier d table?
      Write.push "*") := by
  rw [selectList_of_ne (by simp), Expr.renderItems_cons, Expr.renderItems, item, Expr.render,
    Write.push_empty, pure_bind, bind_pure_unit]
  exact bind_pure_unit

lemma Render.selectList_congr {e e' : Expr} (h : item d e = item d e') (source? : Option Source)
    (before after : List Expr) :
    selectList d source? (before ++ e :: after) = selectList d source? (before ++ e' :: after) := by
  rw [selectList_of_ne (by simp), selectList_of_ne (by simp), Expr.renderItems_congr h]

/-! ### Trees that are rendered alike -/

/-- The renderer cannot tell the two apart, wherever they stand. Whether an item of a select list
is a column makes a difference there, so a column is left out of that. -/
structure Expr.Alike (e e' : Expr) : Prop where
  render (d : Dialect) : e.render d = e'.render d
  operand (d : Dialect) : signGap d e = signGap d e'
  only (d : Dialect) : members d [e] = members d [e']
  listed (d : Dialect) (h : ∀ c, e ≠ .column c) : item d e = item d e'

/-- Nothing but the node itself depends on which node it is. -/
def Expr.plain : Expr → Bool
  | .column _ | .literal _ | .subquery _ => false
  | _ => true

section

variable {e : Expr} (h : e.plain = true)

include h

lemma Render.signGap_of_plain : signGap d e = pure () := by
  cases e <;> first | rfl | cases h

lemma Render.item_of_plain : item d e = e.render d := by
  have hname : propertyName d e = pure () := by
    cases e <;> first | rfl | cases h
  rw [item, hname, bind_pure_unit]

lemma Render.members_of_plain : members d [e] = e.render d := by
  have honly : ∀ s, [e] ≠ [.subquery s] := by
    rintro s hs
    obtain rfl := List.singleton_inj.mp hs
    cases h
  rw [members_of_ne honly, Expr.renderAll_singleton]

end

lemma Expr.Alike.of_plain {e e' : Expr} (he : e.plain = true) (he' : e'.plain = true)
    (h : ∀ d, e.render d = e'.render d) : e.Alike e' where
  render := h
  operand d := by rw [signGap_of_plain he, signGap_of_plain he']
  only d := by rw [members_of_plain he, members_of_plain he', h]
  listed d _ := by rw [item_of_plain he, item_of_plain he', h]

/-- The only member of a list stands for itself, and others are written one by one. -/
lemma Render.members_congr {e e' : Expr} (h : e.render d = e'.render d)
    (honly : members d [e] = members d [e']) (before after : List Expr) :
    members d (before ++ e :: after) = members d (before ++ e' :: after) := by
  by_cases hone : before = [] ∧ after = []
  · obtain ⟨rfl, rfl⟩ := hone
    exact honly
  · have hmany : ∀ x s, before ++ x :: after ≠ [.subquery s] := by
      intro x s hs
      have hlength := congrArg List.length hs
      simp only [List.length_append, List.length_cons, List.length_nil] at hlength
      exact hone ⟨List.length_eq_zero_iff.mp (by omega), List.length_eq_zero_iff.mp (by omega)⟩
    rw [members_of_ne (hmany e), members_of_ne (hmany e'), Expr.renderAll_congr h]

/-- The two spellings of a column differ in nothing that is written. -/
lemma ColumnRef.render_property (d : Dialect) (c : ColumnRef) (p? : Option String) :
    (Expr.column { c with property? := p? }).render d = (Expr.column c).render d := by
  rw [Expr.render, Expr.render, Render.column, Render.column]

lemma Expr.Respelling.alike {e e' : Expr} (h : e.Respelling e') : e.Alike e' := by
  cases h with
  | distinct e =>
    refine .of_plain rfl rfl fun d => ?_
    have hname : (SqlFunction.distinct.name != "") = true := by decide
    have hword : SqlFunction.distinct.name ++ "(" = "DISTINCT(" := by decide
    rw [Expr.distinct, SqlFunction.call, Expr.render, Expr.render, Expr.renderAll_singleton, hname,
      ← hword, ← Write.push_push, Write.require_true, pure_bind, bind_assoc]
  | property c =>
    have hrender := fun d => (ColumnRef.render_property d c none).symm
    exact ⟨hrender, fun d => rfl, fun d => Expr.renderAll_congr (hrender d) "" [] [],
      fun d hcolumn => absurd rfl (hcolumn c)⟩

lemma Expr.ItemRespelling.item_eq {e e' : Expr} (h : e.ItemRespelling e') (d : Dialect) :
    item d e = item d e' := by
  cases h with
  | @aliased c p h hp hname =>
    have hdistinct : c.distinctProperty? = some p :=
      ColumnRef.distinctProperty?_eq_some_iff.mpr ⟨h, hname⟩
    have hproperty : propertyName d (.column c) = (do
        Write.push " AS "
        Write.name d .property p) := by
      rw [propertyName, hdistinct]
    have halias : (Expr.aliased (.column { c with property? := none }) p).render d = (do
        (Expr.column c).render d
        Write.push " AS "
        Write.name d .aliasName p) := by
      rw [← ColumnRef.render_property d c none, Expr.render]
      rfl
    rw [item, hproperty, item_of_plain rfl, halias, Write.name_of_ne hp, Write.name_of_ne hp]
  | @property c h =>
    have hdistinct : c.distinctProperty? = none := by
      simp [ColumnRef.distinctProperty?, h]
    rw [item, item, ColumnRef.render_property, propertyName, propertyName, hdistinct]
    rfl

/-- Two select lists for one statement that come to the same. -/
lemma Select.render_items_congr (s : Select) {items : List Expr}
    (hsome : (!s.items.isEmpty || s.source?.isSome) = (!items.isEmpty || s.source?.isSome))
    (h : selectList d s.source? s.items = selectList d s.source? items) :
    s.render d = ({ s with items } : Select).render d := by
  have hassoc : ∀ (es : List Expr) (m : Write Unit),
      (allColumns d s.source? es >>= fun _ => Expr.renderItems d "" es >>= fun _ => m) =
        selectList d s.source? es >>= fun _ => m := by
    intro es m
    rw [selectList, bind_assoc]
  obtain ⟨distinct, items', source?, filter?, groups, having?, orders, limit?, offset?⟩ := s
  simp only at hassoc hsome h
  rw [Select.render, Select.render, hassoc, hassoc, hsome, h]

lemma Select.Respelling.render_eq {s s' : Select} (h : s.Respelling s') (d : Dialect) :
    s.render d = s'.render d := by
  cases h with
  | @table t hitems hsource =>
    refine Select.render_items_congr s (by simp [hsource]) ?_
    have hstar : ".*" = "." ++ "*" := by decide
    rw [hitems, hsource, Table.star, selectList_wildcard, selectList_nil, allColumns, qualifier,
      hstar, bind_assoc, Write.push_push]
  | @subquery x a hitems hsource =>
    refine Select.render_items_congr s (by simp [hsource]) ?_
    rw [hitems, hsource, Expr.star, selectList_wildcard, selectList_nil, qualifier, pure_bind]
    rfl

namespace Root

/-- The renderer cannot tell the two apart. -/
def Alike : Root → Root → Prop
  | .expr e, .expr e' => e.Alike e'
  | .select s, .select s' => ∀ d, s.render d = s'.render d
  | _, _ => False

variable {a b : Root}

theorem Respelled.alike (h : Respelled a b) : a.Alike b := by
  induction h with
  | expr h => exact h.alike
  | select h => exact h.render_eq
  | item s before after h =>
    intro d
    refine Select.render_items_congr { s with items := _ } (by cases before <;> rfl) ?_
    exact selectList_congr (h.item_eq d) _ before after
  | left op r _ ih => exact .of_plain rfl rfl fun d => by rw [Expr.render, Expr.render, ih.render]
  | right op l _ ih => exact .of_plain rfl rfl fun d => by rw [Expr.render, Expr.render, ih.render]
  | operand op _ ih =>
    refine .of_plain rfl rfl fun d => ?_
    cases op with
    | neg => rw [Expr.render, Expr.render, ih.render, ih.operand]
    | _ => rw [Expr.render, Expr.render, ih.render]
  | argument f before after _ ih =>
    exact .of_plain rfl rfl fun d => by
      rw [Expr.render, Expr.render, Expr.renderAll_congr (ih.render d)]
  | aliased a _ ih => exact .of_plain rfl rfl fun d => by rw [Expr.render, Expr.render, ih.render]
  | tested items negated _ ih =>
    exact .of_plain rfl rfl fun d => by rw [Expr.render_member, Expr.render_member, ih.render]
  | @member x before after negated e e' _ ih =>
    refine .of_plain rfl rfl fun d => ?_
    have hempty : (before ++ e :: after).isEmpty = (before ++ e' :: after).isEmpty := by
      cases before <;> rfl
    rw [Expr.render_member, Expr.render_member, members_congr (ih.render d) (ih.only d), hempty]
  | @subquery s s' _ ih =>
    have hrender : ∀ d, (Expr.subquery s).render d = (Expr.subquery s').render d := fun d => by
      rw [Expr.render, Expr.render, ih d]
    refine ⟨hrender, fun d => rfl, ih, fun d _ => ?_⟩
    rw [Render.item, Render.item, hrender d]
    rfl
  | listed s before after hcolumn _ ih =>
    intro d
    refine Select.render_items_congr { s with items := _ } (by cases before <;> rfl) ?_
    exact selectList_congr (ih.listed d hcolumn) _ before after
  | source s a _ ih =>
    intro d
    rw [Select.render, Select.render, Source.renderOption_congr (ih d)]
    cases s.items <;> rfl
  | filter s _ ih =>
    intro d
    rw [Select.render, Select.render, Expr.renderOption_congr (ih.render d)]
  | group s before after _ ih =>
    intro d
    rw [Select.render, Select.render, Expr.renderAll_congr (ih.render d)]
  | having s _ ih =>
    intro d
    rw [Select.render, Select.render, Expr.renderOption_congr (ih.render d)]
  | order s before after x? _ ih =>
    intro d
    rw [Select.render, Select.render, OrderItem.renderAll_congr (ih.render d)]

lemma compile_of_alike (h : a.Alike b) (d : Dialect) : compile d a = compile d b := by
  have hrender : a.render d = b.render d := by
    cases a <;> cases b
    case expr.expr => exact Expr.Alike.render h d
    case select.select => exact h d
    all_goals exact absurd h id
  rw [compile, compile, hrender]

/-- **Spelling makes no difference.** However often and in whatever places of it a tree is spelled
in another way, it compiles to the same text, display and parameters or fails with the same
fault, and logs the same events. -/
theorem compile_of_respelled (h : Relation.EqvGen Respelled a b) (d : Dialect) :
    compile d a = compile d b := by
  induction h with
  | rel a b h => exact compile_of_alike h.alike d
  | refl a => rfl
  | symm a b _ ih => exact ih.symm
  | trans a b c _ _ ih ih' => exact ih.trans ih'

/-- Four places, one of them in a statement inside the condition. -/
theorem compile_of_respelled_nested :
    let tree (item tested : Expr) (users : Select) : Root := .select
      { items := [item], filter? := some (.member tested [.subquery users] true) }
    let users : Select := { source? := some (.table ⟨"users", some "u"⟩) }
    let a := tree (.column ⟨"name", some "u", some "label"⟩)
      (.unary .distinct (.column ⟨"id", none, some "key"⟩)) users
    let b := tree (.aliased (.column ⟨"name", some "u", none⟩) "label")
      (.call "DISTINCT" [.column ⟨"id", none, none⟩]) { users with items := [.wildcard (some "u")] }
    Relation.EqvGen Respelled a b ∧ compile .postgres a = compile .postgres b := by
  intro tree users a b
  have hitem {e e' : Expr} (h : e.ItemRespelling e') (t : Expr) (s : Select) :
      Relation.EqvGen Respelled (tree e t s) (tree e' t s) :=
    .rel _ _ (.item { filter? := some (.member t [.subquery s] true) } [] [] h)
  have htested {t t' : Expr} (h : Respelled (.expr t) (.expr t')) (e : Expr) (s : Select) :
      Relation.EqvGen Respelled (tree e t s) (tree e t' s) :=
    .rel _ _ (.filter { items := [e] } (.tested _ _ h))
  have hstatement {s s' : Select} (h : s.Respelling s') (e t : Expr) :
      Relation.EqvGen Respelled (tree e t s) (tree e t s') :=
    .rel _ _ (.filter { items := [e] } (.member t [] [] true (.subquery (.select h))))
  have husers : users.Respelling { users with items := [.wildcard (some "u")] } :=
    .table (s := users) (t := ⟨"users", some "u"⟩) rfl rfl
  have h : Relation.EqvGen Respelled a b :=
    .trans _ _ _ (hitem (.aliased rfl (by decide) (by decide)) _ _) <|
      .trans _ _ _ (htested (.expr (.distinct _)) _ _) <|
        .trans _ _ _ (htested (.argument _ [] [] (.expr (.property _))) _ _) <|
          hstatement husers _ _
  exact ⟨h, compile_of_respelled h .postgres⟩

end Root

end SqlTree
