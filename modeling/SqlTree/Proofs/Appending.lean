import SqlTree.Proofs.Literals
import SqlTree.Proofs.Parts
import SqlTree.Proofs.Rejections

/-!
Rendering adds to a draft and looks at nothing in it but the number of its parameters.

Whether a tree can be rendered does not depend on the draft, and neither does what is added to
the display and to the parameters. The text depends on the draft through the numbers of the
marks alone, and starting with a higher number has the same effect as a draft that has
parameters already. So a tree reads the same wherever it is used, up to the numbers.
-/

namespace SqlTree

namespace Piece

variable {d : Dialect}

lemma text_of_unnumbered {mark : String} (h : d.placeholder = .unnumbered mark) (j k : Nat)
    (ps : List Piece) : text d j ps = text d k ps := by
  induction ps generalizing j k with
  | nil => rfl
  | cons p ps ih =>
    cases p with
    | hole v signed => rw [text, text, h, ih (j + 1) (k + 1), Placeholder.mark, Placeholder.mark]
    | _ => rw [text, text, ih j k]

/-- Numbers that start later are those of a later position. -/
lemma text_of_numbered {lead : String} {first : Nat} (h : d.placeholder = .numbered lead first)
    (j k : Nat) (ps : List Piece) :
    text { d with placeholder := .numbered lead (first + k) } j ps = text d (k + j) ps := by
  induction ps generalizing j with
  | nil => rfl
  | cons p ps ih =>
    cases p with
    | hole v signed =>
      rw [text, text, ih, h, Placeholder.mark_numbered_add, Nat.add_assoc]
    | _ => rw [text, text, ih]

lemma display_of_placeholder (p : Placeholder) (ps : List Piece) :
    display { d with placeholder := p } ps = display d ps := by
  induction ps with
  | nil => rfl
  | cons q ps ih => cases q <;> rw [display, display, ih]

end Piece

/-! ### A part in the query of the whole -/

namespace Root

variable {d : Dialect} {t root : Root}

lemma text_piecesAs (d : Dialect) (k : Nat) (t : Root) (signed : Bool) :
    Piece.text d k (t.piecesAs signed) = Piece.text d k t.pieces := by
  by_cases ht : ∃ v, t = .expr (.literal v)
  · obtain ⟨v, rfl⟩ := ht
    rfl
  · rw [piecesAs_of_ne (fun v h => ht ⟨v, h⟩) signed]

/-- A gap may come before it. -/
lemma display_piecesAs (d : Dialect) (t : Root) (signed : Bool) :
    ∃ gap, Piece.display d (t.piecesAs signed) = gap ++ Piece.display d t.pieces := by
  by_cases ht : ∃ v, t = .expr (.literal v)
  · obtain ⟨v, rfl⟩ := ht
    refine ⟨Piece.gap signed (d.inline v), ?_⟩
    simp [piecesAs, pieces, Expr.pieces, Piece.display, Piece.gap]
  · refine ⟨"", ?_⟩
    rw [piecesAs_of_ne (fun v h => ht ⟨v, h⟩) signed, String.empty_append]

lemma values_piecesAs (t : Root) (signed : Bool) :
    Piece.values (t.piecesAs signed) = Piece.values t.pieces := by
  by_cases ht : ∃ v, t = .expr (.literal v)
  · obtain ⟨v, rfl⟩ := ht
    rfl
  · rw [piecesAs_of_ne (fun v h => ht ⟨v, h⟩) signed]

/-- The query of a tree contains that of each part, with the marks of a later position. -/
lemma query_of_part (h : Part t root) (d : Dialect) :
    ∃ (front back : Array Value) (before after left right : String),
      (root.query d).text = before ++ Piece.text d front.size t.pieces ++ after ∧
      (root.query d).display = left ++ Piece.display d t.pieces ++ right ∧
      (root.query d).params = front ++ (Piece.values t.pieces).toArray ++ back := by
  obtain ⟨signed, ps, qs, hpieces⟩ := h.infix_pieces
  obtain ⟨gap, hgap⟩ := display_piecesAs d t signed
  have hfront : (Piece.values ps).toArray.size = (Piece.values ps).length := by simp
  refine ⟨(Piece.values ps).toArray, (Piece.values qs).toArray, Piece.text d 0 ps,
    Piece.text d (Piece.values (ps ++ t.piecesAs signed)).length qs,
    Piece.display d ps ++ gap, Piece.display d qs, ?_, ?_, ?_⟩
  · rw [query, ← hpieces, Piece.text_append, Piece.text_append, text_piecesAs, hfront,
      Nat.zero_add, Nat.zero_add]
  · rw [query, ← hpieces, Piece.display_append, Piece.display_append, hgap]
    simp only [String.append_assoc]
  · rw [query, ← hpieces, Piece.values_append, Piece.values_append, values_piecesAs]
    simp

end Root

/-! ### A statement in parentheses -/

def Query.parenthesized (q : Query) : Query where
  text := "(" ++ q.text ++ ")"
  display := "(" ++ q.display ++ ")"
  params := q.params

lemma Select.query_subquery (s : Select) (d : Dialect) :
    (Root.expr (.subquery s)).query d = ((Root.select s).query d).parenthesized := by
  simp [Root.query, Root.pieces, Expr.pieces, Query.parenthesized, Piece.text, Piece.text_append,
    Piece.display, Piece.values, String.append_assoc]

lemma Select.toQuery_subquery (s : Select) (d : Dialect) :
    (Root.expr (.subquery s)).toQuery d =
      ((Root.select s).toQuery d).map Query.parenthesized := by
  have hfaults : (Root.expr (.subquery s)).faults d = (Root.select s).faults d := by
    rw [Root.faults, Expr.faults, Root.faults]
  cases hf : (Root.select s).faults d with
  | nil =>
    rw [Root.toQuery_of_sound hf, Root.toQuery_of_sound (hfaults.trans hf), s.query_subquery]
    rfl
  | cons f fs =>
    have hhead : ((Root.select s).faults d).head? = some f := by rw [hf]; rfl
    rw [Root.toQuery_of_fault hhead, Root.toQuery_of_fault (hfaults ▸ hhead)]
    rfl

namespace Root

lemma render_of_sound {d : Dialect} {t : Root} (h : t.faults d = []) (draft : Draft) :
    t.render d draft = .ok () (draft.add d t.pieces) :=
  (t.render_writes d).done h draft

/-- Later numbers instead of the first ones, and nothing else. -/
lemma toQuery_of_numbered {d : Dialect} {t : Root} (h : t.faults d = []) {lead : String}
    {first : Nat} (hplaceholder : d.placeholder = .numbered lead first) (k : Nat) :
    t.toQuery { d with placeholder := .numbered lead (first + k) } =
      .ok ⟨Piece.text d k t.pieces, Piece.display d t.pieces, (Piece.values t.pieces).toArray⟩ := by
  have hfaults : t.faults { d with placeholder := .numbered lead (first + k) } = t.faults d :=
    faults_eq_of_token (by rfl) (by rfl) t
  rw [toQuery_of_sound (hfaults.trans h), query, Piece.text_of_numbered hplaceholder,
    Piece.display_of_placeholder, Nat.add_zero]

/-- **Rendering appends.** A tree fails in every draft, with the same fault, or in none. If it
does not fail, what is added to the display and to the parameters is the same for all drafts,
and what is added to the text depends on the number of parameters alone: not at all if marks are
not numbered, and otherwise as if the numbers began so much later. The query of a larger tree
contains what is added for each of its parts. A statement in parentheses is the statement and
the parentheses. -/
theorem render_appends (d : Dialect) (t : Root) :
    ((∃ f, t.toQuery d = .error f ∧ ∀ draft, ∃ left, t.render d draft = .error f left) ∨
      ∃ (text : Nat → String) (display : String) (params : Array Value),
        t.toQuery d = .ok ⟨text 0, display, params⟩ ∧
        (∀ draft, t.render d draft = .ok () { draft with
          text := draft.text ++ text draft.params.size
          display := draft.display ++ display
          params := draft.params ++ params }) ∧
        (∀ mark, d.placeholder = .unnumbered mark → ∀ k, text k = text 0) ∧
        (∀ lead first k, d.placeholder = .numbered lead first →
          t.toQuery { d with placeholder := .numbered lead (first + k) } =
            .ok ⟨text k, display, params⟩) ∧
        ∀ root q, Part t root → root.toQuery d = .ok q →
          ∃ front back before after left right,
            q.text = before ++ text front.size ++ after ∧ q.display = left ++ display ++ right ∧
            q.params = front ++ params ++ back) ∧
    ∀ s, t = .select s → (Expr.subquery s).toQuery d = (t.toQuery d).map Query.parenthesized := by
  refine ⟨?_, fun s hs => by rw [hs]; exact s.toQuery_subquery d⟩
  cases hf : t.faults d with
  | cons f fs =>
    have hhead : (t.faults d).head? = some f := by rw [hf]; rfl
    refine .inl ⟨f, toQuery_of_fault hhead, fun draft => ?_⟩
    obtain ⟨left, hrun, -⟩ := (t.render_writes d).fails f hhead draft
    exact ⟨left, hrun⟩
  | nil =>
    refine .inr ⟨fun k => Piece.text d k t.pieces, Piece.display d t.pieces,
      (Piece.values t.pieces).toArray, toQuery_of_sound hf, render_of_sound hf,
      fun mark h k => Piece.text_of_unnumbered h k 0 t.pieces,
      fun lead first k h => toQuery_of_numbered hf h k, fun root q hpart hq => ?_⟩
    obtain ⟨front, back, before, after, left, right, hstands⟩ := query_of_part hpart d
    rw [← eq_query_of_toQuery hq] at hstands
    exact ⟨front, back, before, after, left, right, hstands⟩

end Root

end SqlTree
