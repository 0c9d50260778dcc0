import SqlTree.Dialect.Builtin
import SqlTree.Proofs.Filling

/-!
The lexemes of a query.

A reader who knows only the quote of a dialect finds in the text what was written: every name
is one quoted region, with its content as it was before, and everything else stands outside of
quotes. The built-in dialects are made so that this works, whatever the names are.
-/

namespace SqlTree

namespace Piece

/-- The lexemes of the text, with the marks of the positions from `k` on in the holes. -/
def lexemes (d : Dialect) : Nat → List Piece → List Lexeme
  | _, [] => []
  | k, .raw s :: ps => s.toList.map .plain ++ lexemes d k ps
  | k, .name s :: ps => .quoted d.quote s.toList :: lexemes d k ps
  | k, .op o :: ps => ((d.token? o).getD "").toList.map .plain ++ lexemes d k ps
  | k, .hole _ _ :: ps => (d.placeholder.mark k).toList.map .plain ++ lexemes d (k + 1) ps

lemma lexemes_append (d : Dialect) (k : Nat) (ps qs : List Piece) :
    lexemes d k (ps ++ qs) = lexemes d k ps ++ lexemes d (k + (values ps).length) qs := by
  induction ps generalizing k with
  | nil => simp [lexemes, values]
  | cons p ps ih => cases p <;> simp [lexemes, values, ih, Nat.add_assoc, Nat.add_comm 1]

lemma lexemes_eq_fillLexemes (d : Dialect) (k : Nat) (ps : List Piece) :
    lexemes d k ps =
      fillLexemes d (fun k _ _ => (d.placeholder.mark k).toList.map .plain) k ps := by
  induction ps generalizing k with
  | nil => rfl
  | cons p ps ih => cases p <;> simp [lexemes, fillLexemes, ih]

end Piece

/-- A dialect whose names can be read back: it quotes in the usual way, and the quote stands
nowhere else. -/
structure Dialect.Legible (d : Dialect) : Prop where
  quoteName : d.quoteName = Text.enclose d.quote
  token : ∀ op t, d.token? op = some t → d.quote ∉ t.toList
  mark : ∀ k, d.quote ∉ (d.placeholder.mark k).toList
  stops : d.quote ∉ Piece.stops

lemma Dialect.Legible.scan_name {d : Dialect} (hd : d.Legible) {Q : Quoting}
    (hq : Q.isQuote d.quote = true) (he : Q.escapes d.quote = false) (s : String)
    {r : List Char} (h : Piece.Stopped r) :
    Q.scan ((d.quoteName s).toList ++ r) = .quoted d.quote s.toList :: Q.scan r := by
  rw [hd.quoteName]
  exact Scan.scan_enclose hq he s (h.head?_ne hd.stops)

/-- **A reader finds the pieces in the text**, as long as no fragment holds a quote. -/
theorem Piece.scan_text {d : Dialect} (hd : d.Legible) {ps : List Piece}
    (h : Orderly (fun s => d.quote ∉ s.toList) ps) (k : Nat) :
    (Quoting.single d.quote).scan (text d k ps).toList = lexemes d k ps := by
  have hplain : ∀ {s : List Char}, d.quote ∉ s →
      ∀ c ∈ s, (Quoting.single d.quote).isQuote c = false := by
    intro s hs c hc
    have : c ≠ d.quote := fun hcq => hs (hcq ▸ hc)
    simpa [Quoting.single] using this
  rw [text_eq_fill, lexemes_eq_fillLexemes]
  refine scan_fill ⟨fun s r hr => ?_, fun o t ht => hplain (hd.token o t ht),
    fun k _ _ r _ => Scan.scan_append (hplain (hd.mark k)) r⟩ (h.mono fun s => hplain) k
  exact hd.scan_name (by simp [Quoting.single]) rfl s hr

/-- Only digits occur in a number. -/
lemma isDigit_of_mem_toString {n : Nat} {c : Char} (h : c ∈ (toString n).toList) :
    c.isDigit = true := by
  rw [Nat.toString_eq_repr, Nat.toList_repr] at h
  exact Nat.isDigit_of_mem_toDigits (by omega) (by omega) h

lemma not_mem_toString {c : Char} (h : c.isDigit = false) (n : Nat) :
    c ∉ (toString n).toList := by
  intro hc
  rw [isDigit_of_mem_toString hc] at h
  cases h

/-- Only the lead of a mark and digits occur in it. -/
lemma not_mem_mark_numbered {c : Char} {lead : String} (h : c.isDigit = false)
    (hlead : c ∉ lead.toList) (first k : Nat) :
    c ∉ (Placeholder.mark (.numbered lead first) k).toList := by
  rw [Placeholder.mark, String.toList_append, List.mem_append]
  rintro (hc | hc)
  · exact hlead hc
  · exact not_mem_toString h _ hc

/-- The tokens of a built-in dialect are words or signs. -/
lemma Builtin.token_chars (b : Builtin) {op : BinaryOp} {t : String}
    (h : b.dialect.token? op = some t) :
    b.dialect.quote ∉ t.toList ∧ '$' ∉ t.toList ∧ '?' ∉ t.toList := by
  cases b <;> cases op <;> cases h <;> decide

theorem Builtin.legible (b : Builtin) : b.dialect.Legible where
  quoteName := by cases b <;> rfl
  token _ _ h := (b.token_chars h).1
  mark k := by
    cases b with
    | generic | mysql =>
      simp [Builtin.dialect, Dialect.generic, Dialect.mysql, Placeholder.mark]
    | postgres | sqlite => exact not_mem_mark_numbered (by decide) (by decide) 1 k
  stops := by cases b <;> decide

end SqlTree
