import SqlTree.Proofs.Fragments
import SqlTree.Proofs.Scan

/-!
Pieces with something in the holes.

Text and display are written alike but for the holes, and a reader finds the same in both but for
what is in the holes. What is said here of any filling is therefore said of both.
-/

namespace SqlTree

namespace Piece

/-- Something in each hole, which depends on its position, its value and the sign before it. -/
def fill (d : Dialect) (hole : Nat → Value → Bool → String) : Nat → List Piece → String
  | _, [] => ""
  | k, .raw s :: ps => s ++ fill d hole k ps
  | k, .name s :: ps => d.quoteName s ++ fill d hole k ps
  | k, .op o :: ps => (d.token? o).getD "" ++ fill d hole k ps
  | k, .hole v signed :: ps => hole k v signed ++ fill d hole (k + 1) ps

/-- The lexemes of a filling: a region for each name, and in the holes those given. -/
def fillLexemes (d : Dialect) (hole : Nat → Value → Bool → List Lexeme) :
    Nat → List Piece → List Lexeme
  | _, [] => []
  | k, .raw s :: ps => s.toList.map .plain ++ fillLexemes d hole k ps
  | k, .name s :: ps => .quoted d.quote s.toList :: fillLexemes d hole k ps
  | k, .op o :: ps => ((d.token? o).getD "").toList.map .plain ++ fillLexemes d hole k ps
  | k, .hole v signed :: ps => hole k v signed ++ fillLexemes d hole (k + 1) ps

lemma text_eq_fill (d : Dialect) (k : Nat) (ps : List Piece) :
    text d k ps = fill d (fun k _ _ => d.placeholder.mark k) k ps := by
  induction ps generalizing k with
  | nil => rfl
  | cons p ps ih => cases p <;> simp [text, fill, ih]

lemma display_eq_fill (d : Dialect) (k : Nat) (ps : List Piece) :
    display d ps = fill d (fun _ v signed => gap signed (d.inline v) ++ d.inline v) k ps := by
  induction ps generalizing k with
  | nil => rfl
  | cons p ps ih => cases p <;> simp only [display, fill, ← ih]

section

variable (d : Dialect) (k : Nat) (ps qs : List Piece)

lemma fill_append (hole : Nat → Value → Bool → String) :
    fill d hole k (ps ++ qs) = fill d hole k ps ++ fill d hole (k + (values ps).length) qs := by
  induction ps generalizing k with
  | nil => simp [fill, values]
  | cons p ps ih =>
    cases p <;> simp [fill, values, ih, String.append_assoc, Nat.add_assoc, Nat.add_comm 1]

lemma fillLexemes_append (hole : Nat → Value → Bool → List Lexeme) :
    fillLexemes d hole k (ps ++ qs) =
      fillLexemes d hole k ps ++ fillLexemes d hole (k + (values ps).length) qs := by
  induction ps generalizing k with
  | nil => simp [fillLexemes, values]
  | cons p ps ih => cases p <;> simp [fillLexemes, values, ih, Nat.add_assoc, Nat.add_comm 1]

end

/-- A list of characters that a name or a mark can be followed by. -/
def Stopped (r : List Char) : Prop := ∀ c, r.head? = some c → c ∈ stops

lemma Stopped.head?_ne {r : List Char} (h : Stopped r) {q : Char} (hq : q ∉ stops) :
    r.head? ≠ some q := fun hr => hq (h q hr)

lemma stopped_fill {d : Dialect} {hole : Nat → Value → Bool → String} {k : Nat}
    {ps : List Piece} (h : Stops ps) : Stopped (fill d hole k ps).toList := by
  intro c hc
  match ps, h with
  | [], _ => simp [fill] at hc
  | .raw s :: ps, h =>
    have h : s.toList.head?.any stops.contains = true := h
    rw [fill, String.toList_append, List.head?_append] at hc
    cases hs : s.toList.head? with
    | none => simp [hs] at h
    | some x =>
      obtain rfl : x = c := by simpa [hs] using hc
      simpa [hs] using h

end Piece

/-- Names, tokens and what is in the holes are read as they were meant, whatever follows that
can follow. -/
structure Quoting.Reads (Q : Quoting) (d : Dialect) (hole : Nat → Value → Bool → String)
    (lexemes : Nat → Value → Bool → List Lexeme) : Prop where
  name : ∀ s r, Piece.Stopped r →
    Q.scan ((d.quoteName s).toList ++ r) = .quoted d.quote s.toList :: Q.scan r
  token : ∀ o t, d.token? o = some t → ∀ c ∈ t.toList, Q.isQuote c = false
  hole : ∀ k v signed r, Piece.Stopped r →
    Q.scan ((hole k v signed).toList ++ r) = lexemes k v signed ++ Q.scan r

/-- **A reader finds the pieces in a filling**, as long as no fragment holds a quote. -/
theorem Piece.scan_fill {Q : Quoting} {d : Dialect} {hole : Nat → Value → Bool → String}
    {lexemes : Nat → Value → Bool → List Lexeme} (hQ : Q.Reads d hole lexemes)
    {ps : List Piece} (h : Orderly (fun s => ∀ c ∈ s.toList, Q.isQuote c = false) ps) (k : Nat) :
    Q.scan (fill d hole k ps).toList = fillLexemes d lexemes k ps := by
  induction ps generalizing k with
  | nil => simp [fill, fillLexemes, Scan.scan_nil]
  | cons p ps ih =>
    cases p with
    | raw s => rw [fill, fillLexemes, String.toList_append, Scan.scan_append h.1, ih h.2]
    | name s =>
      rw [fill, fillLexemes, String.toList_append, hQ.name s _ (stopped_fill h.1), ih h.2]
    | op o =>
      have ho : ∀ c ∈ ((d.token? o).getD "").toList, Q.isQuote c = false := by
        cases ht : d.token? o with
        | none => simp
        | some t => simpa using hQ.token o t ht
      rw [fill, fillLexemes, String.toList_append, Scan.scan_append ho, ih h]
    | hole v signed =>
      rw [fill, fillLexemes, String.toList_append, hQ.hole k v signed _ (stopped_fill h.1),
        ih h.2]

end SqlTree
