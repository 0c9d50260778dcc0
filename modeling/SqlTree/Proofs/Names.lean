import SqlTree.Proofs.Marks
import SqlTree.Proofs.Relabel
import SqlTree.Proofs.Yield

/-!
The names of a tree, and the quoted regions of its query.

A name may hold any character, and quotes above all. A reader of the text, who knows nothing but
the quote of the dialect, still finds exactly the names in quotes, in the order of the tree, and
what is outside of quotes depends on the shape of the tree alone.
-/

namespace SqlTree

namespace Names

def ofColumn (c : ColumnRef) : List String := c.table?.toList ++ [c.name]

/-- A property is written in a select list only, and only if it is not the name itself. -/
def ofProperty : Expr → List String
  | .column c => c.distinctProperty?.toList
  | _ => []

def ofTable (t : Table) : List String := t.name :: t.alias?.toList

/-- An empty select list refers to the table by name. -/
def ofAllColumns : Option Source → List Expr → List String
  | some (.table t), [] => [t.reference]
  | _, _ => []

end Names

mutual

def Expr.names : Expr → List String
  | .column c => Names.ofColumn c
  | .literal _ => []
  | .wildcard table? => table?.toList
  | .binary _ l r => l.names ++ r.names
  | .unary _ e => e.names
  | .call _ args => Expr.namesAll args
  | .aliased e a => e.names ++ [a]
  | .member e items _ => e.names ++ Expr.namesAll items
  | .subquery s => s.names

def Expr.namesAll : List Expr → List String
  | [] => []
  | e :: es => e.names ++ Expr.namesAll es

def Expr.namesItems : List Expr → List String
  | [] => []
  | e :: es => e.names ++ (Names.ofProperty e ++ Expr.namesItems es)

def Expr.namesOption : Option Expr → List String
  | none => []
  | some e => e.names

def Select.names : Select → List String
  | ⟨_, items, source?, filter?, groups, having?, orders, _, _⟩ =>
    Names.ofAllColumns source? items ++ (Expr.namesItems items ++ (Source.namesOption source? ++
      (Expr.namesOption filter? ++ (Expr.namesAll groups ++ (Expr.namesOption having? ++
      OrderItem.namesAll orders)))))

def Source.names : Source → List String
  | .table t => Names.ofTable t
  | .subquery s a => s.names ++ [a]

def Source.namesOption : Option Source → List String
  | none => []
  | some x => x.names

def OrderItem.namesAll : List OrderItem → List String
  | [] => []
  | ⟨e, _⟩ :: os => e.names ++ OrderItem.namesAll os

end

def Root.names : Root → List String
  | .expr e => e.names
  | .select s => s.names

/-! ### Names among the pieces -/

namespace Piece

def names : List Piece → List String
  | [] => []
  | .name s :: ps => s :: names ps
  | _ :: ps => names ps

@[simp] lemma names_append (ps qs : List Piece) : names (ps ++ qs) = names ps ++ names qs := by
  induction ps with
  | nil => rfl
  | cons p ps ih => cases p <;> simp [names, ih]

@[simp] lemma names_qualifier (table? : Option String) :
    names (qualifier table?) = table?.toList := by
  cases table? <;> rfl

@[simp] lemma names_column (c : ColumnRef) : names (column c) = Names.ofColumn c := by
  simp [column, Names.ofColumn, names]

@[simp] lemma names_property (e : Expr) : names (property e) = Names.ofProperty e := by
  cases e with
  | column c => rw [property, Names.ofProperty]; cases c.distinctProperty? <;> rfl
  | _ => rfl

@[simp] lemma names_table (t : Table) : names (table t) = Names.ofTable t := by
  obtain ⟨n, _ | a⟩ := t <;> rfl

@[simp] lemma names_allColumns (source? : Option Source) (items : List Expr) :
    names (allColumns source? items) = Names.ofAllColumns source? items := by
  rcases source? with _ | (t | ⟨s, a⟩) <;> cases items <;> rfl

@[simp] lemma names_direction (x? : Option Direction) : names (direction x?) = [] := by
  cases x? <;> rfl

@[simp] lemma names_number (lead : String) (n? : Option Nat) : names (number lead n?) = [] := by
  cases n? <;> rfl

@[simp] lemma names_membership (negated : Bool) (ps : List Piece) :
    names (membership negated :: ps) = names ps := rfl

end Piece

open Piece

namespace Yield

def names : Yield String where
  expr := Expr.names
  exprs := Expr.namesAll
  items := Expr.namesItems
  expr? := Expr.namesOption
  select := Select.names
  source := Source.names
  source? := Source.namesOption
  orders := OrderItem.namesAll

/-- The names of a tree are those among its pieces. -/
lemma names_of : names.Of Piece.names := by
  constructor <;> intros <;>
    simp [names, Expr.names, Expr.namesAll, Expr.namesItems, Expr.namesOption, Select.names,
      Source.names, Source.namesOption, OrderItem.namesAll, Piece.names]

end Yield

lemma Root.names_pieces (root : Root) : Piece.names root.pieces = root.names := by
  cases root with
  | expr e => exact Expr.yield_pieces Yield.names_of e fun _ _ => rfl
  | select s => exact Select.yield_pieces Yield.names_of s fun _ _ => rfl

/-! ### Inside and outside of quotes -/

namespace Lexeme

/-- What stands in the quoted regions. -/
def regions : List Lexeme → List (List Char)
  | [] => []
  | .quoted _ s :: ls => s :: regions ls
  | _ :: ls => regions ls

/-- The characters outside of all regions. -/
def outside : List Lexeme → List Char
  | [] => []
  | .plain c :: ls => c :: outside ls
  | _ :: ls => outside ls

@[simp] lemma regions_plain (s : List Char) (ls : List Lexeme) :
    regions (s.map .plain ++ ls) = regions ls := by
  induction s with
  | nil => rfl
  | cons c s ih => rw [List.map_cons, List.cons_append, regions, ih]; simp

@[simp] lemma outside_plain (s : List Char) (ls : List Lexeme) :
    outside (s.map .plain ++ ls) = s ++ outside ls := by
  induction s with
  | nil => rfl
  | cons c s ih => rw [List.map_cons, List.cons_append, outside, ih]; rfl

end Lexeme

namespace Piece

open Lexeme

/-- No region is left open. -/
lemma unclosed_notMem_lexemes (d : Dialect) (k : Nat) (ps : List Piece) (c : Char)
    (s : List Char) : Lexeme.unclosed c s ∉ lexemes d k ps := by
  induction ps generalizing k with
  | nil => simp [lexemes]
  | cons p ps ih => cases p <;> simp [lexemes, ih]

lemma regions_lexemes (d : Dialect) (k : Nat) (ps : List Piece) :
    regions (lexemes d k ps) = (names ps).map String.toList := by
  induction ps generalizing k with
  | nil => rfl
  | cons p ps ih => cases p <;> simp [lexemes, names, regions, ih]

/-- What the characters outside of quotes depend on: nothing of a name, and nothing of a value
but its place. -/
def frame : Piece → List Piece
  | .name _ => []
  | .hole _ signed => [.hole .null signed]
  | p => [p]

lemma outside_frame (d : Dialect) (k : Nat) (ps : List Piece) :
    outside (lexemes d k (ps.flatMap frame)) = outside (lexemes d k ps) := by
  induction ps generalizing k with
  | nil => rfl
  | cons p ps ih => cases p <;> simp [frame, lexemes, outside, ih]

end Piece

/-! ### Trees of one shape -/

namespace Relabel

/-- One name for all names and null for all values. A property stays where it is written. -/
def skeleton : Relabel where
  column c := { name := "column", table? := c.table?.map fun _ => "table" }
  item c :=
    { name := "column"
      table? := c.table?.map fun _ => "table"
      property? := c.distinctProperty?.map fun _ => "property" }
  name _ := "name"
  value _ := .null

lemma frame_column (c : ColumnRef) :
    (Piece.column (skeleton.column c)).flatMap Piece.frame =
      (Piece.column c).flatMap Piece.frame := by
  obtain ⟨name, _ | table, property?⟩ := c <;>
    simp [skeleton, Piece.column, Piece.qualifier, Piece.frame]

/-- A property that is written in the one is written in the other. -/
lemma frame_property (c : ColumnRef) :
    (Piece.property (.column (skeleton.item c))).flatMap Piece.frame =
      (Piece.property (.column c)).flatMap Piece.frame := by
  rw [Piece.property, Piece.property]
  cases h : c.distinctProperty? with
  | none =>
    have hs : (skeleton.item c).distinctProperty? = none := by
      simp only [skeleton, h]
      rfl
    rw [hs]
  | some p =>
    have hs : (skeleton.item c).distinctProperty? = some "property" := by
      rw [ColumnRef.distinctProperty?_eq_some_iff]
      simp [skeleton, h]
    rw [hs]
    rfl

lemma unseen_skeleton : skeleton.Unseen Piece.frame where
  column := frame_column
  item c := by
    have hcolumn : Piece.column (skeleton.item c) = Piece.column (skeleton.column c) := rfl
    rw [hcolumn, frame_column, frame_property]
  name _ := rfl
  value _ _ := rfl

end Relabel

/-- What is left of a tree without its names and values. -/
def Root.skeleton (root : Root) : Root := root.relabel .skeleton

namespace Builtin

/-- **Names stay in their quotes.** The regions that a reader of the text finds are closed and
hold the names of the tree, in order and as they were; outside of them two trees of the same
shape read the same. -/
theorem regions_of_toQuery {b : Builtin} {root : Root} {q : Query}
    (h : root.toQuery b.dialect = .ok q)
    (hf : ∀ f ∈ root.functions, b.dialect.quote ∉ f.toList) :
    (∀ c s, .unclosed c s ∉ b.scan q.text) ∧
      Lexeme.regions (b.scan q.text) = root.names.map String.toList ∧
      ∀ (root' : Root) (q' : Query), root'.toQuery b.dialect = .ok q' →
        (∀ f ∈ root'.functions, b.dialect.quote ∉ f.toList) →
        root'.skeleton = root.skeleton →
        Lexeme.outside (b.scan q'.text) = Lexeme.outside (b.scan q.text) := by
  rw [scan_text h hf]
  refine ⟨Piece.unclosed_notMem_lexemes _ _ _, ?_, fun root' q' h' hf' hshape => ?_⟩
  · rw [Piece.regions_lexemes, Root.names_pieces]
  · have hframe : root'.pieces.flatMap Piece.frame = root.pieces.flatMap Piece.frame := by
      rw [← Root.read_relabel Relabel.unseen_skeleton root',
        ← Root.read_relabel Relabel.unseen_skeleton root]
      exact congrArg (fun r => r.pieces.flatMap Piece.frame) hshape
    rw [scan_text h' hf', ← Piece.outside_frame, hframe, Piece.outside_frame]

/-- Names that begin with, end with and consist of quotes, and plain ones in their place. -/
theorem regions_of_toQuery_quotes :
    let tree : String → String → String → Value → Root := fun t c p v =>
      .select {
        items := [.column { name := c, table? := some t, property? := some p }, .literal v]
        source? := some (.subquery { source? := some (.table ⟨t, some p⟩) } c) }
    let root := tree "\"" "a\"" "\"\"b" (.text "\"")
    let plain := tree "t" "c" "p" .null
    ∃ q q', root.toQuery postgres.dialect = .ok q ∧ plain.toQuery postgres.dialect = .ok q' ∧
      Lexeme.regions (postgres.scan q.text) =
        ["\"", "a\"", "\"\"b", "\"\"b", "\"", "\"\"b", "a\""].map String.toList ∧
      Lexeme.outside (postgres.scan q'.text) = Lexeme.outside (postgres.scan q.text) := by
  intro tree root plain
  have hq : root.toQuery postgres.dialect = .ok (root.query postgres.dialect) :=
    Root.toQuery_of_sound (by decide)
  have hq' : plain.toQuery postgres.dialect = .ok (plain.query postgres.dialect) :=
    Root.toQuery_of_sound (by decide)
  obtain ⟨-, hregions, houtside⟩ := regions_of_toQuery hq (by decide)
  exact ⟨_, _, hq, hq', hregions, houtside plain _ hq' (by decide) rfl⟩

end Builtin

end SqlTree
