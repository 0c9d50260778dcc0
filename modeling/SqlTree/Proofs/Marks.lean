import SqlTree.Proofs.Lexemes
import SqlTree.Proofs.Outcome
import SqlTree.Tree.Build

/-!
The parameter marks that a driver finds in a query.

A driver looks for marks outside of quotes, and does not know which of the characters there were
written as marks. A number after a sigil goes on as long as there are digits; it ends where its
mark ends, since a mark is never followed by a digit.
-/

namespace SqlTree

namespace Lexeme

/-- The characters at the front that `p` holds of, and what comes after them. -/
def spanWhile (p : Char → Bool) : List Lexeme → List Char × List Lexeme
  | .plain c :: ls =>
    if p c then (c :: (spanWhile p ls).1, (spanWhile p ls).2) else ([], .plain c :: ls)
  | ls => ([], ls)

/-- The number that digits spell, if there are any. -/
def number? : List Char → Option Nat
  | [] => none
  | c :: cs => some (Nat.ofDigitChars 10 (c :: cs) 0)

/-- The run of digits after each sigil outside of quotes, read as a number. -/
def numbersAfter (sigil : Char) : List Lexeme → List (Option Nat)
  | [] => []
  | l :: ls =>
    if l = .plain sigil then number? (spanWhile Char.isDigit ls).1 :: numbersAfter sigil ls
    else numbersAfter sigil ls

lemma number?_toString (n : Nat) : number? (toString n).toList = some n := by
  have hread : Nat.ofDigitChars 10 (toString n).toList 0 = n := by
    rw [Nat.toString_eq_repr, Nat.toList_repr, Nat.ofDigitChars_ten_toDigits]
  have hne : (toString n).toList ≠ [] := by
    rw [Nat.toString_eq_repr, Nat.toList_repr]
    exact Nat.toDigits_ne_nil
  cases hs : (toString n).toList with
  | nil => exact absurd hs hne
  | cons c cs => rw [number?, ← hs, hread]

/-- A run ends where it was meant to if nothing follows that would go on with it. -/
lemma spanWhile_append {p : Char → Bool} {s : List Char} (hs : ∀ c ∈ s, p c = true)
    {ls : List Lexeme} (h : (spanWhile p ls).1 = []) :
    spanWhile p (s.map .plain ++ ls) = (s, ls) := by
  induction s with
  | nil =>
    rcases ls with _ | ⟨c | _ | _, ls⟩
    · rfl
    · by_cases hc : p c
      · simp [spanWhile, hc] at h
      · simp [spanWhile, hc]
    · rfl
    · rfl
  | cons c s ih =>
    rw [List.forall_mem_cons] at hs
    simp [spanWhile, hs.1, ih hs.2]

lemma numbersAfter_append {sigil : Char} {s : List Char} (h : sigil ∉ s) (ls : List Lexeme) :
    numbersAfter sigil (s.map .plain ++ ls) = numbersAfter sigil ls := by
  induction s with
  | nil => rfl
  | cons c s ih =>
    rw [List.mem_cons, not_or] at h
    have hc : Lexeme.plain c ≠ .plain sigil := fun hc => h.1 (Lexeme.plain.inj hc).symm
    rw [List.map_cons, List.cons_append, numbersAfter, if_neg hc, ih h.2]

lemma count_append {sigil : Char} {s : List Char} (h : sigil ∉ s) (ls : List Lexeme) :
    (s.map Lexeme.plain ++ ls).count (.plain sigil) = ls.count (.plain sigil) := by
  have hs : Lexeme.plain sigil ∉ s.map Lexeme.plain := by simpa using h
  rw [List.count_append, List.count_eq_zero_of_not_mem hs, Nat.zero_add]

end Lexeme

namespace Piece

open Lexeme

/-- No digit follows where names and marks end. -/
lemma spanWhile_lexemes {ps : List Piece} (h : Stops ps) (d : Dialect) (k : Nat) :
    (spanWhile Char.isDigit (lexemes d k ps)).1 = [] := by
  match ps, h with
  | [], _ => rfl
  | .raw s :: ps, h =>
    have h : s.toList.head?.any stops.contains = true := h
    rw [lexemes]
    cases hs : s.toList with
    | nil => simp [hs] at h
    | cons c cs =>
      have hc : c ∈ stops := by simpa [hs] using h
      have hall : stops.all (fun c => !c.isDigit) = true := rfl
      have hdigit := List.all_eq_true.mp hall c hc
      rw [Bool.not_eq_true'] at hdigit
      simp [spanWhile, hdigit]

lemma not_mem_token {d : Dialect} {sigil : Char}
    (h : ∀ op t, d.token? op = some t → sigil ∉ t.toList) (op : BinaryOp) :
    sigil ∉ ((d.token? op).getD "").toList := by
  cases ht : d.token? op with
  | none => simp
  | some t => exact h op t ht

section

variable {d : Dialect} {sigil : Char} {ps : List Piece}
  (ht : ∀ op t, d.token? op = some t → sigil ∉ t.toList)
  (h : Orderly (fun s => sigil ∉ s.toList) ps)

include ht h

/-- Numbered marks count the holes, from the position of the first one on. -/
lemma numbersAfter_lexemes {first : Nat}
    (hd : d.placeholder = .numbered (String.singleton sigil) first)
    (hsigil : sigil.isDigit = false) (k : Nat) :
    numbersAfter sigil (lexemes d k ps) =
      (List.range' (first + k) (values ps).length).map some := by
  induction ps generalizing k with
  | nil => rfl
  | cons p ps ih =>
    cases p with
    | raw s =>
      rw [lexemes, numbersAfter_append h.1]
      exact ih h.2 k
    | name s =>
      rw [lexemes, numbersAfter, if_neg (by simp)]
      exact ih h.2 k
    | op o =>
      rw [lexemes, numbersAfter_append (not_mem_token ht o)]
      exact ih h k
    | hole v signed =>
      have hmark : (d.placeholder.mark k).toList = sigil :: (toString (first + k)).toList := by
        simp [hd, Placeholder.mark]
      -- the run of digits is cut off by what follows the hole
      have hspan := spanWhile_append (p := Char.isDigit)
        (fun _ => isDigit_of_mem_toString (n := first + k)) (spanWhile_lexemes h.1 d (k + 1))
      rw [lexemes, hmark, List.map_cons, List.cons_append, numbersAfter, if_pos rfl, hspan,
        number?_toString, numbersAfter_append (not_mem_toString hsigil _), ih h.2, values,
        List.length_cons, List.range'_succ, List.map_cons, Nat.add_assoc]

/-- There are as many unnumbered marks as holes. -/
lemma count_lexemes (hd : d.placeholder = .unnumbered (String.singleton sigil)) (k : Nat) :
    (lexemes d k ps).count (.plain sigil) = (values ps).length := by
  induction ps generalizing k with
  | nil => rfl
  | cons p ps ih =>
    cases p with
    | raw s =>
      rw [lexemes, count_append h.1]
      exact ih h.2 k
    | name s =>
      rw [lexemes, List.count_cons_of_ne (by simp)]
      exact ih h.2 k
    | op o =>
      rw [lexemes, count_append (not_mem_token ht o)]
      exact ih h k
    | hole v signed =>
      have hmark : (d.placeholder.mark k).toList = [sigil] := by simp [hd, Placeholder.mark]
      rw [lexemes, hmark, List.map_singleton, List.singleton_append, List.count_cons_self,
        ih h.2, values, List.length_cons]

end

end Piece

/-- A character that is no digit and in no fixed fragment. -/
lemma Piece.admits_not_mem {c : Char} (hc : c.isDigit = false)
    (hf : ∀ s ∈ fragments, c ∉ s.toList) (hl : c ∉ " LIMIT ".toList)
    (ho : c ∉ " OFFSET ".toList) : Admits fun s => c ∉ s.toList where
  fixed := hf
  limit n := by
    rw [String.toList_append, List.mem_append, not_or]
    exact ⟨hl, not_mem_toString hc n⟩
  offset n := by
    rw [String.toList_append, List.mem_append, not_or]
    exact ⟨ho, not_mem_toString hc n⟩

namespace Builtin

/-- The character that marks begin with. -/
def sigil : Builtin → Char
  | generic | mysql => '?'
  | postgres | sqlite => '$'

/-- Only its sigil and digits occur in a mark. -/
lemma not_mem_mark (b : Builtin) {c : Char} (h : c.isDigit = false) (hc : c ≠ b.sigil) (k : Nat) :
    c ∉ (b.dialect.placeholder.mark k).toList := by
  cases b with
  | generic | mysql =>
    simpa [dialect, Dialect.generic, Dialect.mysql, Placeholder.mark, sigil] using hc
  | postgres | sqlite =>
    have hlead : c ∉ "$".toList := by simpa [sigil] using hc
    exact not_mem_mark_numbered h hlead 1 k

lemma sigil_not_mem_token (b : Builtin) (op : BinaryOp) (t : String)
    (h : b.dialect.token? op = some t) : b.sigil ∉ t.toList := by
  obtain ⟨_, hdollar, hquestion⟩ := b.token_chars h
  cases b with
  | generic | mysql => exact hquestion
  | postgres | sqlite => exact hdollar

lemma admits_quote (b : Builtin) : Piece.Admits fun s => b.dialect.quote ∉ s.toList := by
  cases b <;> exact Piece.admits_not_mem (by decide) (by decide) (by decide) (by decide)

lemma admits_sigil (b : Builtin) : Piece.Admits fun s => b.sigil ∉ s.toList := by
  cases b <;> exact Piece.admits_not_mem (by decide) (by decide) (by decide) (by decide)

/-- What a reader makes of a text that was compiled. -/
def scan (b : Builtin) (text : String) : List Lexeme :=
  (Quoting.single b.dialect.quote).scan text.toList

lemma scan_text {b : Builtin} {root : Root} {q : Query} (h : root.toQuery b.dialect = .ok q)
    (hf : ∀ f ∈ root.functions, b.dialect.quote ∉ f.toList) :
    b.scan q.text = Piece.lexemes b.dialect 0 root.pieces := by
  have htext : q.text = Piece.text b.dialect 0 root.pieces := by
    rw [Root.eq_query_of_toQuery h, Root.query]
  rw [scan, htext, Piece.scan_text b.legible (root.orderly_pieces b.admits_quote hf)]

/-- **A driver finds the marks.** Outside of quotes there is one mark for each parameter and
nothing that could be taken for another, whatever the names and the literals are. Where marks
are numbered, the numbers are read as one, two, three and so on. -/
theorem marks_of_toQuery {b : Builtin} {root : Root} {q : Query}
    (h : root.toQuery b.dialect = .ok q)
    (hf : ∀ f ∈ root.functions, b.dialect.quote ∉ f.toList ∧ b.sigil ∉ f.toList) :
    ((b = .postgres ∨ b = .sqlite) →
      Lexeme.numbersAfter '$' (b.scan q.text) = (List.range' 1 q.params.size).map some) ∧
    ((b = .generic ∨ b = .mysql) → (b.scan q.text).count (.plain '?') = q.params.size) := by
  have hsigil := root.orderly_pieces b.admits_sigil fun f hm => (hf f hm).2
  have hparams : q.params.size = (Piece.values root.pieces).length := by
    rw [Root.eq_query_of_toQuery h, Root.query, List.size_toArray]
  rw [scan_text h fun f hm => (hf f hm).1, hparams]
  refine ⟨?_, ?_⟩
  · rintro (rfl | rfl)
    · exact Piece.numbersAfter_lexemes (sigil_not_mem_token _) hsigil rfl rfl 0
    · exact Piece.numbersAfter_lexemes (sigil_not_mem_token _) hsigil rfl rfl 0
  · rintro (rfl | rfl)
    · exact Piece.count_lexemes (sigil_not_mem_token _) hsigil rfl 0
    · exact Piece.count_lexemes (sigil_not_mem_token _) hsigil rfl 0

/-- A name that looks like a mark, and one with a quote in it. -/
theorem marks_beside_names :
    let root : Root := .expr <| .binary .eq (.column { name := "$1\"", table? := some "$2" }) <|
      .call "LEAST" [.lit "$7", .null]
    ∃ q, root.toQuery postgres.dialect = .ok q ∧
      Lexeme.numbersAfter '$' (postgres.scan q.text) = [some 1, some 2] := by
  intro root
  have hq : root.toQuery postgres.dialect = .ok (root.query postgres.dialect) :=
    Root.toQuery_of_sound (by decide)
  exact ⟨_, hq, (marks_of_toQuery hq (by decide)).1 (.inl rfl)⟩

end Builtin

end SqlTree
