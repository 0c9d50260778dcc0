import SqlTree.Proofs.Faults
import SqlTree.Proofs.Pieces

/-!
Trees that are alike but for their names and values.

A relabelling puts other names and other values in the place of those that a tree has, and
leaves everything else as it is. Two trees differ in nothing but what it replaces if it makes
them the same. A reading of the pieces that does not notice what is replaced is the same for
the two.
-/

namespace SqlTree

/-- What is put in the place of names and values. A column is replaced as a whole, and in a
select list, where its property counts, on its own terms. -/
structure Relabel where
  column : ColumnRef → ColumnRef := id
  item : ColumnRef → ColumnRef := id
  name : String → String := id
  value : Value → Value := id

namespace Relabel

/-- Other values, and the names as they were. -/
def values (f : Value → Value) : Relabel := { value := f }

def listed (m : Relabel) (e relabelled : Expr) : Expr :=
  match e with
  | .column c => .column (m.item c)
  | _ => relabelled

def table (m : Relabel) (t : Table) : Table := ⟨m.name t.name, t.alias?.map m.name⟩

end Relabel

mutual

def Expr.relabel (m : Relabel) : Expr → Expr
  | .column c => .column (m.column c)
  | .literal v => .literal (m.value v)
  | .wildcard table? => .wildcard (table?.map m.name)
  | .binary op l r => .binary op (l.relabel m) (r.relabel m)
  | .unary op e => .unary op (e.relabel m)
  | .call f args => .call f (Expr.relabelAll m args)
  | .aliased e a => .aliased (e.relabel m) (m.name a)
  | .member e items negated => .member (e.relabel m) (Expr.relabelAll m items) negated
  | .subquery s => .subquery (s.relabel m)

def Expr.relabelAll (m : Relabel) : List Expr → List Expr
  | [] => []
  | e :: es => e.relabel m :: Expr.relabelAll m es

def Expr.relabelItems (m : Relabel) : List Expr → List Expr
  | [] => []
  | e :: es => m.listed e (e.relabel m) :: Expr.relabelItems m es

def Expr.relabelOption (m : Relabel) : Option Expr → Option Expr
  | none => none
  | some e => some (e.relabel m)

def Select.relabel (m : Relabel) : Select → Select
  | ⟨distinct, items, source?, filter?, groups, having?, orders, limit?, offset?⟩ =>
    ⟨distinct, Expr.relabelItems m items, Source.relabelOption m source?,
      Expr.relabelOption m filter?, Expr.relabelAll m groups, Expr.relabelOption m having?,
      OrderItem.relabelAll m orders, limit?, offset?⟩

def Source.relabel (m : Relabel) : Source → Source
  | .table t => .table (m.table t)
  | .subquery s a => .subquery (s.relabel m) (m.name a)

def Source.relabelOption (m : Relabel) : Option Source → Option Source
  | none => none
  | some x => some (x.relabel m)

def OrderItem.relabelAll (m : Relabel) : List OrderItem → List OrderItem
  | [] => []
  | ⟨e, direction?⟩ :: os => ⟨e.relabel m, direction?⟩ :: OrderItem.relabelAll m os

end

def Root.relabel (m : Relabel) : Root → Root
  | .expr e => .expr (e.relabel m)
  | .select s => .select (s.relabel m)

/-- A member that stands alone stands alone before and after. -/
lemma Expr.relabelAll_ne_subquery {items : List Expr} (h : ∀ s, items ≠ [.subquery s])
    (m : Relabel) : ∀ s, Expr.relabelAll m items ≠ [.subquery s] := by
  intro s hs
  rcases items with _ | ⟨e, _ | ⟨e', es⟩⟩
  · simp [Expr.relabelAll] at hs
  · cases e with
    | subquery t => exact h t rfl
    | _ => simp [Expr.relabelAll, Expr.relabel] at hs
  · simp [Expr.relabelAll] at hs

/-! ### Readings -/

/-- A reading of pieces does not notice what the relabelling replaces. -/
structure Relabel.Unseen {α : Type} (m : Relabel) (F : Piece → List α) : Prop where
  column : ∀ c, (Piece.column (m.column c)).flatMap F = (Piece.column c).flatMap F
  item : ∀ c, (Piece.column (m.item c)).flatMap F ++
      (Piece.property (.column (m.item c))).flatMap F =
    (Piece.column c).flatMap F ++ (Piece.property (.column c)).flatMap F
  name : ∀ s, F (.name (m.name s)) = F (.name s)
  value : ∀ v signed, F (.hole (m.value v) signed) = F (.hole v signed)

namespace Relabel.Unseen

variable {α : Type} {m : Relabel} {F : Piece → List α} (hm : m.Unseen F)

include hm

lemma qualifier (table? : Option String) :
    (Piece.qualifier (table?.map m.name)).flatMap F = (Piece.qualifier table?).flatMap F := by
  cases table? <;> simp [Piece.qualifier, hm.name]

lemma table (t : Table) :
    (Piece.table (m.table t)).flatMap F = (Piece.table t).flatMap F := by
  obtain ⟨n, _ | a⟩ := t <;> simp [Piece.table, Relabel.table, hm.name]

/-- The implicit wildcard has the name that the table goes by. -/
lemma reference (t : Table) : F (.name (m.table t).reference) = F (.name t.reference) := by
  obtain ⟨n, _ | a⟩ := t <;> simp [Relabel.table, hm.name]

lemma allColumns (source? : Option Source) (items : List Expr) :
    (Piece.allColumns (Source.relabelOption m source?) (Expr.relabelItems m items)).flatMap F =
      (Piece.allColumns source? items).flatMap F := by
  rcases source? with _ | (t | ⟨s, a⟩) <;> cases items <;>
    simp [Source.relabelOption, Source.relabel, Expr.relabelItems, Piece.allColumns,
      hm.reference]

/-- An item of a select list and its property, before the other items. -/
lemma listed {e : Expr}
    (he : ((e.relabel m).pieces false).flatMap F = (e.pieces false).flatMap F) (rest : List α) :
    ((m.listed e (e.relabel m)).pieces false).flatMap F ++
        ((Piece.property (m.listed e (e.relabel m))).flatMap F ++ rest) =
      (e.pieces false).flatMap F ++ ((Piece.property e).flatMap F ++ rest) := by
  rw [← List.append_assoc, ← List.append_assoc]
  congr 1
  cases e with
  | column c => simpa only [Relabel.listed, Expr.pieces] using hm.item c
  | _ => simpa [Relabel.listed, Expr.relabel, Piece.property] using he

end Relabel.Unseen

variable {α : Type} {m : Relabel} {F : Piece → List α}

mutual

/-- **A reading that does not notice a relabelling reads the same after it.** -/
theorem Expr.read_relabel (hm : m.Unseen F) (signed : Bool) : ∀ e : Expr,
    ((e.relabel m).pieces signed).flatMap F = (e.pieces signed).flatMap F
  | .column c => by
    simpa only [Expr.relabel, Expr.pieces] using hm.column c
  | .literal v => by simp [Expr.relabel, Expr.pieces, hm.value]
  | .wildcard table? => by simp [Expr.relabel, Expr.pieces, hm.qualifier]
  | .binary op l r => by
    simp [Expr.relabel, Expr.pieces, Expr.read_relabel hm false l, Expr.read_relabel hm false r]
  | .unary op e => by
    have he := fun b => Expr.read_relabel hm b e
    cases op <;> simp [Expr.relabel, Expr.pieces, he]
  | .call f args => by simp [Expr.relabel, Expr.pieces, Expr.read_relabelAll hm [] args]
  | .aliased e a => by simp [Expr.relabel, Expr.pieces, Expr.read_relabel hm false e, hm.name]
  | .member e items negated => by
    have he := Expr.read_relabel hm false e
    have hall := Expr.read_relabelAll hm [] items
    by_cases hs : ∃ s, items = [.subquery s]
    · -- the pieces of the lone member have its parentheses around them
      obtain ⟨s, rfl⟩ := hs
      have hone : (s.relabel m).pieces.flatMap F = s.pieces.flatMap F := by
        simpa [Expr.relabelAll, Expr.relabel, Expr.piecesAll, Expr.pieces] using hall
      simp [Expr.relabel, Expr.relabelAll, Expr.pieces, he, hone]
    · have hs : ∀ s, items ≠ [.subquery s] := fun s h => hs ⟨s, h⟩
      rw [Expr.relabel, Expr.pieces_member hs,
        Expr.pieces_member (Expr.relabelAll_ne_subquery hs m)]
      simp [he, hall]
  | .subquery s => by simp [Expr.relabel, Expr.pieces, Select.read_relabel hm s]

theorem Expr.read_relabelAll (hm : m.Unseen F) (lead : List Piece) : ∀ es : List Expr,
    (Expr.piecesAll lead (Expr.relabelAll m es)).flatMap F = (Expr.piecesAll lead es).flatMap F
  | [] => by simp [Expr.relabelAll, Expr.piecesAll]
  | e :: es => by
    simp [Expr.relabelAll, Expr.piecesAll, Expr.read_relabel hm false e,
      Expr.read_relabelAll hm [.raw ", "] es]

theorem Expr.read_relabelItems (hm : m.Unseen F) (lead : List Piece) : ∀ es : List Expr,
    (Expr.piecesItems lead (Expr.relabelItems m es)).flatMap F =
      (Expr.piecesItems lead es).flatMap F
  | [] => by simp [Expr.relabelItems, Expr.piecesItems]
  | e :: es => by
    have he := hm.listed (Expr.read_relabel hm false e)
    simp [Expr.relabelItems, Expr.piecesItems, he, Expr.read_relabelItems hm [.raw ", "] es]

theorem Expr.read_relabelOption (hm : m.Unseen F) (lead : String) : ∀ e? : Option Expr,
    (Expr.piecesOption lead (Expr.relabelOption m e?)).flatMap F =
      (Expr.piecesOption lead e?).flatMap F
  | none => by simp [Expr.relabelOption, Expr.piecesOption]
  | some e => by simp [Expr.relabelOption, Expr.piecesOption, Expr.read_relabel hm false e]

theorem Select.read_relabel (hm : m.Unseen F) : ∀ s : Select,
    (s.relabel m).pieces.flatMap F = s.pieces.flatMap F
  | ⟨distinct, items, source?, filter?, groups, having?, orders, limit?, offset?⟩ => by
    simp [Select.relabel, Select.pieces, hm.allColumns, Expr.read_relabelItems hm [] items,
      Source.read_relabelOption hm source?, Expr.read_relabelOption hm _ filter?,
      Expr.read_relabelAll hm [.raw " GROUP BY "] groups, Expr.read_relabelOption hm _ having?,
      OrderItem.read_relabelAll hm [.raw " ORDER BY "] orders]

theorem Source.read_relabel (hm : m.Unseen F) : ∀ x : Source,
    (x.relabel m).pieces.flatMap F = x.pieces.flatMap F
  | .table t => by simpa only [Source.relabel, Source.pieces] using hm.table t
  | .subquery s a => by
    simp [Source.relabel, Source.pieces, Select.read_relabel hm s, hm.name]

theorem Source.read_relabelOption (hm : m.Unseen F) : ∀ x? : Option Source,
    (Source.piecesOption (Source.relabelOption m x?)).flatMap F =
      (Source.piecesOption x?).flatMap F
  | none => by simp [Source.relabelOption, Source.piecesOption]
  | some x => by simp [Source.relabelOption, Source.piecesOption, Source.read_relabel hm x]

theorem OrderItem.read_relabelAll (hm : m.Unseen F) (lead : List Piece) : ∀ os : List OrderItem,
    (OrderItem.piecesAll lead (OrderItem.relabelAll m os)).flatMap F =
      (OrderItem.piecesAll lead os).flatMap F
  | [] => by simp [OrderItem.relabelAll, OrderItem.piecesAll]
  | ⟨e, direction?⟩ :: os => by
    simp [OrderItem.relabelAll, OrderItem.piecesAll, Expr.read_relabel hm false e,
      OrderItem.read_relabelAll hm [.raw ", "] os]

end

lemma Root.read_relabel (hm : m.Unseen F) (root : Root) :
    (root.relabel m).pieces.flatMap F = root.pieces.flatMap F := by
  cases root with
  | expr e => exact Expr.read_relabel hm false e
  | select s => exact Select.read_relabel hm s

lemma Root.read_of_relabel_eq (hm : m.Unseen F) {a b : Root} (h : a.relabel m = b.relabel m) :
    a.pieces.flatMap F = b.pieces.flatMap F := by
  rw [← Root.read_relabel hm a, h, Root.read_relabel hm]

end SqlTree
