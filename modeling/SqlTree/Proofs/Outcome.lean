import Mathlib.Data.List.Nodup
import SqlTree.Proofs.Rejections
import SqlTree.Proofs.Writing

/-!
What a compilation comes to: the query made of the pieces of the tree if the tree has no fault
in the dialect, and its first fault otherwise.
-/

namespace SqlTree

/-- The query that the pieces of a tree make up. -/
def Root.query (d : Dialect) (root : Root) : Query where
  text := Piece.text d 0 root.pieces
  display := Piece.display d root.pieces
  params := (Piece.values root.pieces).toArray

lemma Root.render_writes (d : Dialect) (root : Root) :
    Writes d (root.render d) root.pieces (root.faults d) := by
  cases root with
  | expr e => exact e.render_writes d
  | select s => exact s.render_writes d

lemma compile_of_sound {d : Dialect} {root : Root} (h : root.faults d = []) :
    compile d root = ⟨.ok (root.query d),
      #[.compiling d.name, .compiled d.name (root.query d).params.size]⟩ := by
  have hrun := (root.render_writes d).done h { log := #[.compiling d.name] }
  simp [compile, hrun, Draft.add, Draft.query, Root.query]

lemma compile_of_fault {d : Dialect} {root : Root} {f : Fault}
    (h : (root.faults d).head? = some f) :
    compile d root = ⟨.error f, #[.compiling d.name] ++ f.events⟩ := by
  obtain ⟨left, hrun, hlog⟩ := (root.render_writes d).fails f h { log := #[.compiling d.name] }
  rw [compile, hrun]
  simp only [hlog]

namespace Root

variable {d : Dialect} {root : Root}

lemma toQuery_of_sound (h : root.faults d = []) : root.toQuery d = .ok (root.query d) := by
  rw [toQuery, compile_of_sound h]

lemma toQuery_of_fault {f : Fault} (h : (root.faults d).head? = some f) :
    root.toQuery d = .error f := by
  rw [toQuery, compile_of_fault h]

lemma faults_of_toQuery {q : Query} (h : root.toQuery d = .ok q) : root.faults d = [] := by
  cases hf : root.faults d with
  | nil => rfl
  | cons f fs =>
    rw [toQuery_of_fault (f := f) (by rw [hf]; rfl)] at h
    cases h

lemma head?_faults_of_toQuery {f : Fault} (h : root.toQuery d = .error f) :
    (root.faults d).head? = some f := by
  cases hf : root.faults d with
  | nil =>
    rw [toQuery_of_sound hf] at h
    cases h
  | cons g fs =>
    rw [toQuery_of_fault (f := g) (by rw [hf]; rfl)] at h
    cases h
    rfl

/-- Whatever query comes out, it is the one that the pieces make up. -/
lemma eq_query_of_toQuery {q : Query} (h : root.toQuery d = .ok q) : q = root.query d := by
  rw [toQuery_of_sound (faults_of_toQuery h)] at h
  cases h
  rfl

/-- Trees with the same faults fail alike or both compile. -/
lemma toQuery_of_faults_eq {a b : Root} (h : a.faults d = b.faults d) :
    (∃ f, a.toQuery d = .error f ∧ b.toQuery d = .error f) ∨
      a.toQuery d = .ok (a.query d) ∧ b.toQuery d = .ok (b.query d) := by
  cases hf : a.faults d with
  | nil => exact .inr ⟨toQuery_of_sound hf, toQuery_of_sound (h ▸ hf)⟩
  | cons f fs =>
    have ha : (a.faults d).head? = some f := by rw [hf]; rfl
    exact .inl ⟨f, toQuery_of_fault ha, toQuery_of_fault (h ▸ ha)⟩

end Root

/-! ### What is said of a fault -/

lemma BinaryOp.nodup_names : (all.map name).Nodup := by decide

lemma BinaryOp.name_injective : Function.Injective name := fun op op' h =>
  List.inj_on_of_nodup_map nodup_names (mem_all op) (mem_all op') h

lemma Defect.message_injective : Function.Injective message := by
  intro a b h
  rcases a with (_ | _ | _ | _ | _) | _ | _ <;> rcases b with (_ | _ | _ | _ | _) | _ | _ <;>
    first
      | rfl
      | exact absurd h (by decide)

/-- The message of a fault that a tree has in a dialect says which fault it is. -/
lemma Fault.eq_of_message_eq {d : Dialect} {root : Root} {f g : Fault} (hf : f ∈ root.faults d)
    (hg : g ∈ root.faults d) (h : f.message = g.message) : f = g := by
  cases f with
  | unsupported op name =>
    obtain ⟨-, rfl⟩ := Root.unsupported_mem_faults hf
    cases g with
    | unsupported op' name' =>
      obtain ⟨-, rfl⟩ := Root.unsupported_mem_faults hg
      have hop : op.name = op'.name := by
        simpa only [message_unsupported, String.append_left_inj, String.append_right_inj] using h
      rw [BinaryOp.name_injective hop]
    | malformed defect => simp [← String.toList_inj] at h
  | malformed defect =>
    cases g with
    | unsupported op' name' => simp [← String.toList_inj] at h
    | malformed defect' =>
      have hdefect : defect.message = defect'.message := by
        simpa only [message_malformed, String.append_right_inj] using h
      rw [Defect.message_injective hdefect]

namespace Root

variable {d : Dialect} {root : Root}

/-- **The first fault wins.** A tree compiles exactly if it has no fault in the dialect, and if
it has faults, the one reported is the first of them, in the order of the text. What is said of a
fault names the operator and the dialect, or the defect, and is said of no other fault. -/
theorem toQuery_error_iff (d : Dialect) (root : Root) :
    (∀ f, root.toQuery d = .error f ↔ (root.faults d).head? = some f) ∧
    ((∃ q, root.toQuery d = .ok q) ↔ root.faults d = []) ∧
    (∀ f ∈ root.faults d,
      match f with
      | .unsupported op name => name = d.name ∧ f.message =
          "operator '" ++ op.name ++ "' is not supported by the " ++ d.name ++ " dialect"
      | .malformed defect => f.message = "malformed tree: " ++ defect.message ∧ defect.message =
          match defect with
          | .emptyName .table => "empty table name"
          | .emptyName .column => "empty column name"
          | .emptyName .aliasName => "empty alias name"
          | .emptyName .property => "empty property name"
          | .emptyName .function => "empty function name"
          | .emptyInList => "IN list is empty"
          | .emptySelect => "SELECT has neither a select list nor a source") ∧
    ∀ f ∈ root.faults d, ∀ g ∈ root.faults d, f.message = g.message → f = g := by
  refine ⟨fun f => ⟨head?_faults_of_toQuery, toQuery_of_fault⟩, ⟨?_, ?_⟩, fun f hf => ?_,
    fun f hf g hg => Fault.eq_of_message_eq hf hg⟩
  · rintro ⟨q, h⟩
    exact faults_of_toQuery h
  · exact fun h => ⟨_, toQuery_of_sound h⟩
  · cases f with
    | unsupported op name =>
      obtain ⟨-, rfl⟩ := unsupported_mem_faults hf
      exact ⟨rfl, rfl⟩
    | malformed defect =>
      refine ⟨rfl, ?_⟩
      rcases defect with (_ | _ | _ | _ | _) | _ | _ <;> rfl

/-- An operator is rejected before its operands are looked at, and an alias after what it names. -/
theorem toQuery_error_iff_several :
    let left : Expr := .column { name := "" }
    let e : Expr := .aliased (.binary .iregex left (.member left [] false)) ""
    let faults : List Fault := [.unsupported .iregex "mysql", .malformed (.emptyName .column),
      .malformed .emptyInList, .malformed (.emptyName .aliasName)]
    (Root.expr e).faults .mysql = faults ∧
      (Root.expr e).toQuery .mysql = .error (.unsupported .iregex "mysql") ∧
      (¬∃ q, (Root.expr e).toQuery .mysql = .ok q) ∧
      (Fault.unsupported .iregex "mysql").message =
        "operator 'iregex' is not supported by the mysql dialect" ∧
      (Fault.malformed (.emptyName .aliasName)).message = "malformed tree: empty alias name" := by
  intro left e faults
  have hfaults : (Root.expr e).faults .mysql = faults := by decide
  obtain ⟨hfirst, hnone, hsaid, -⟩ := toQuery_error_iff .mysql (.expr e)
  rw [hfaults] at hfirst hnone hsaid
  refine ⟨hfaults, (hfirst _).mpr rfl, fun hq => ?_, (hsaid _ (.head _)).2, ?_⟩
  · exact List.cons_ne_nil _ _ (hnone.mp hq)
  · obtain ⟨hmessage, htext⟩ := hsaid (.malformed (.emptyName .aliasName)) (by decide)
    rw [hmessage, htext]
    rfl

end Root

end SqlTree
