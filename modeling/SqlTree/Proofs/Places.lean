import Mathlib.Tactic.Lemma
import SqlTree.Tree.Basic

/-!
The places of expressions in a tree.

A place is what stands there and the tree around it, which says what the tree becomes when
something else is put there. With what stands there the tree is as it was; with another expression
it has the same place, and the other expression stands there.
-/

namespace SqlTree

/-- An expression in something, and what is around it. -/
structure Place (α : Type) where
  expr : Expr
  around : Expr → α

namespace Place

variable {α β : Type}

/-- The whole expression is a place in itself. -/
def top (e : Expr) : Place Expr := ⟨e, id⟩

/-- The same place, seen from further out. -/
def inside (g : α → β) (x : Place α) : Place β := ⟨x.expr, fun e => g (x.around e)⟩

end Place

open Place

mutual

def Expr.places : Expr → List (Place Expr)
  | .column c => [top (.column c)]
  | .literal v => [top (.literal v)]
  | .wildcard table? => [top (.wildcard table?)]
  | .binary op l r =>
    top (.binary op l r) :: (l.places.map (inside fun l => .binary op l r) ++
      r.places.map (inside fun r => .binary op l r))
  | .unary op e => top (.unary op e) :: e.places.map (inside fun e => .unary op e)
  | .call f args =>
    top (.call f args) :: (Expr.placesAll args).map (inside fun args => .call f args)
  | .aliased e a => top (.aliased e a) :: e.places.map (inside fun e => .aliased e a)
  | .member e items negated =>
    top (.member e items negated) :: (e.places.map (inside fun e => .member e items negated) ++
      (Expr.placesAll items).map (inside fun items => .member e items negated))
  | .subquery s => top (.subquery s) :: s.places.map (inside fun s => .subquery s)

def Expr.placesAll : List Expr → List (Place (List Expr))
  | [] => []
  | e :: es => e.places.map (inside fun e => e :: es) ++
      (Expr.placesAll es).map (inside fun es => e :: es)

def Expr.placesOption : Option Expr → List (Place (Option Expr))
  | none => []
  | some e => e.places.map (inside some)

def Select.places : Select → List (Place Select)
  | ⟨distinct, items, source?, filter?, groups, having?, orders, limit?, offset?⟩ =>
    (Expr.placesAll items).map (inside fun items =>
      ⟨distinct, items, source?, filter?, groups, having?, orders, limit?, offset?⟩) ++
    ((Source.placesOption source?).map (inside fun source? =>
      ⟨distinct, items, source?, filter?, groups, having?, orders, limit?, offset?⟩) ++
    ((Expr.placesOption filter?).map (inside fun filter? =>
      ⟨distinct, items, source?, filter?, groups, having?, orders, limit?, offset?⟩) ++
    ((Expr.placesAll groups).map (inside fun groups =>
      ⟨distinct, items, source?, filter?, groups, having?, orders, limit?, offset?⟩) ++
    ((Expr.placesOption having?).map (inside fun having? =>
      ⟨distinct, items, source?, filter?, groups, having?, orders, limit?, offset?⟩) ++
    (OrderItem.placesAll orders).map (inside fun orders =>
      ⟨distinct, items, source?, filter?, groups, having?, orders, limit?, offset?⟩)))))

def Source.places : Source → List (Place Source)
  | .table _ => []
  | .subquery s a => s.places.map (inside fun s => .subquery s a)

def Source.placesOption : Option Source → List (Place (Option Source))
  | none => []
  | some x => x.places.map (inside some)

def OrderItem.placesAll : List OrderItem → List (Place (List OrderItem))
  | [] => []
  | ⟨e, direction?⟩ :: os => e.places.map (inside fun e => ⟨e, direction?⟩ :: os) ++
      (OrderItem.placesAll os).map (inside fun os => ⟨e, direction?⟩ :: os)

end

def Root.places : Root → List (Place Root)
  | .expr e => e.places.map (inside .expr)
  | .select s => s.places.map (inside .select)

/-! ### Putting something at a place -/

namespace Place

variable {α β : Type} {places : α → List (Place α)} {places' : β → List (Place β)} {a : α}

/-- With what stands at the place, what is around it is `a`; with anything else the place is
still there, and that stands at it. -/
structure Fits (places : α → List (Place α)) (a : α) (x : Place α) : Prop where
  eq : x.around x.expr = a
  mem : ∀ e, ⟨e, x.around⟩ ∈ places (x.around e)

/-- Places that fit in a part fit in the whole if the whole has them. -/
lemma fits_inside (h : ∀ x ∈ places a, x.Fits places a) {g : α → β}
    (hg : ∀ a, (places a).map (inside g) ⊆ places' (g a)) :
    ∀ x ∈ (places a).map (inside g), x.Fits places' (g a) := by
  intro x hx
  obtain ⟨y, hy, rfl⟩ := List.mem_map.mp hx
  exact ⟨congrArg g (h y hy).eq, fun e => hg _ (List.mem_map_of_mem ((h y hy).mem e))⟩

lemma fits_top (e : Expr) : (top e).Fits Expr.places e := by
  refine ⟨rfl, fun e' => ?_⟩
  change top e' ∈ e'.places
  cases e' <;> simp [Expr.places]

end Place

mutual

theorem Expr.fits_places : ∀ e : Expr, ∀ x ∈ e.places, x.Fits Expr.places e
  | .column c => by simpa only [Expr.places, List.forall_mem_singleton] using fits_top _
  | .literal v => by simpa only [Expr.places, List.forall_mem_singleton] using fits_top _
  | .wildcard table? => by simpa only [Expr.places, List.forall_mem_singleton] using fits_top _
  | .binary op l r => by
    simp only [Expr.places, List.forall_mem_cons, List.forall_mem_append]
    refine ⟨fits_top _, fits_inside (Expr.fits_places l) fun l x hx => ?_,
      fits_inside (Expr.fits_places r) fun r x hx => ?_⟩
    · exact .tail _ (List.mem_append_left _ hx)
    · exact .tail _ (List.mem_append_right _ hx)
  | .unary op e => by
    simp only [Expr.places, List.forall_mem_cons]
    exact ⟨fits_top _, fits_inside (Expr.fits_places e) fun e x hx => .tail _ hx⟩
  | .call f args => by
    simp only [Expr.places, List.forall_mem_cons]
    exact ⟨fits_top _, fits_inside (Expr.fits_placesAll args) fun args x hx => .tail _ hx⟩
  | .aliased e a => by
    simp only [Expr.places, List.forall_mem_cons]
    exact ⟨fits_top _, fits_inside (Expr.fits_places e) fun e x hx => .tail _ hx⟩
  | .member e items negated => by
    simp only [Expr.places, List.forall_mem_cons, List.forall_mem_append]
    refine ⟨fits_top _, fits_inside (Expr.fits_places e) fun e x hx => ?_,
      fits_inside (Expr.fits_placesAll items) fun items x hx => ?_⟩
    · exact .tail _ (List.mem_append_left _ hx)
    · exact .tail _ (List.mem_append_right _ hx)
  | .subquery s => by
    simp only [Expr.places, List.forall_mem_cons]
    exact ⟨fits_top _, fits_inside (Select.fits_places s) fun s x hx => .tail _ hx⟩

theorem Expr.fits_placesAll : ∀ es : List Expr,
    ∀ x ∈ Expr.placesAll es, x.Fits Expr.placesAll es
  | [] => by simp [Expr.placesAll]
  | e :: es => by
    simp only [Expr.placesAll, List.forall_mem_append]
    refine ⟨fits_inside (Expr.fits_places e) fun e x hx => ?_,
      fits_inside (Expr.fits_placesAll es) fun es x hx => ?_⟩
    · exact List.mem_append_left _ hx
    · exact List.mem_append_right _ hx

theorem Expr.fits_placesOption : ∀ e? : Option Expr,
    ∀ x ∈ Expr.placesOption e?, x.Fits Expr.placesOption e?
  | none => by simp [Expr.placesOption]
  | some e => fits_inside (Expr.fits_places e) fun e x hx => hx

theorem Select.fits_places : ∀ s : Select, ∀ x ∈ s.places, x.Fits Select.places s
  | ⟨distinct, items, source?, filter?, groups, having?, orders, limit?, offset?⟩ => by
    simp only [Select.places, List.forall_mem_append]
    refine ⟨fits_inside (Expr.fits_placesAll items) fun items x hx => ?_,
      fits_inside (Source.fits_placesOption source?) fun source? x hx => ?_,
      fits_inside (Expr.fits_placesOption filter?) fun filter? x hx => ?_,
      fits_inside (Expr.fits_placesAll groups) fun groups x hx => ?_,
      fits_inside (Expr.fits_placesOption having?) fun having? x hx => ?_,
      fits_inside (OrderItem.fits_placesAll orders) fun orders x hx => ?_⟩
    all_goals simp only [Select.places, List.mem_append, hx, true_or, or_true]

theorem Source.fits_places : ∀ x : Source, ∀ y ∈ x.places, y.Fits Source.places x
  | .table t => by simp [Source.places]
  | .subquery s a => fits_inside (Select.fits_places s) fun s x hx => hx

theorem Source.fits_placesOption : ∀ x? : Option Source,
    ∀ y ∈ Source.placesOption x?, y.Fits Source.placesOption x?
  | none => by simp [Source.placesOption]
  | some x => fits_inside (Source.fits_places x) fun x y hy => hy

theorem OrderItem.fits_placesAll : ∀ os : List OrderItem,
    ∀ x ∈ OrderItem.placesAll os, x.Fits OrderItem.placesAll os
  | [] => by simp [OrderItem.placesAll]
  | ⟨e, direction?⟩ :: os => by
    simp only [OrderItem.placesAll, List.forall_mem_append]
    refine ⟨fits_inside (Expr.fits_places e) fun e x hx => ?_,
      fits_inside (OrderItem.fits_placesAll os) fun os x hx => ?_⟩
    · exact List.mem_append_left _ hx
    · exact List.mem_append_right _ hx

end

/-- **What stands at a place can be replaced.** With the same expression the tree is as it was,
and any other stands at the place instead. -/
theorem Root.fits_places (root : Root) : ∀ x ∈ root.places, x.Fits Root.places root := by
  cases root with
  | expr e => exact Place.fits_inside (Expr.fits_places e) fun e x hx => hx
  | select s => exact Place.fits_inside (Select.fits_places s) fun s x hx => hx

end SqlTree
