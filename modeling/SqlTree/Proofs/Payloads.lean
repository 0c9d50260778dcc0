import SqlTree.Proofs.Independence
import SqlTree.Proofs.Inlined
import SqlTree.Proofs.Names

/-!
The values of a tree, and the quoted regions of its display.

Two kinds of quotes meet in a display: those of names, and the apostrophes around texts, blobs
and floats that have no digits. Each may stand inside the other. A reader who knows both kinds
still finds the names where the text has them, and between apostrophes what the values hold;
what a text says never shows outside of its quotes.
-/

namespace SqlTree

/-! ### Regions of one quote -/

namespace Lexeme

def contentIn? (q : Char) : Lexeme → Option (List Char)
  | .quoted c s => if c = q then some s else none
  | _ => none

/-- What stands in the regions of the quote `q`. -/
def regionsIn (q : Char) (ls : List Lexeme) : List (List Char) := ls.filterMap (contentIn? q)

@[simp] lemma regionsIn_nil (q : Char) : regionsIn q [] = [] := rfl

@[simp] lemma regionsIn_append (q : Char) (ls ms : List Lexeme) :
    regionsIn q (ls ++ ms) = regionsIn q ls ++ regionsIn q ms :=
  List.filterMap_append

@[simp] lemma regionsIn_plain (q : Char) (s : List Char) : regionsIn q (s.map .plain) = [] := by
  simp [regionsIn, contentIn?]

@[simp] lemma regionsIn_cons_self (q : Char) (s : List Char) (ls : List Lexeme) :
    regionsIn q (.quoted q s :: ls) = s :: regionsIn q ls := by
  simp [regionsIn, contentIn?]

lemma regionsIn_cons_of_ne {c q : Char} (h : c ≠ q) (s : List Char) (ls : List Lexeme) :
    regionsIn q (.quoted c s :: ls) = regionsIn q ls := by
  simp [regionsIn, contentIn?, h]

lemma outside_append (ls ms : List Lexeme) : outside (ls ++ ms) = outside ls ++ outside ms := by
  induction ls with
  | nil => rfl
  | cons l ls ih => cases l <;> simp [outside, ih]

lemma outside_map_plain (s : List Char) : outside (s.map .plain) = s := by
  simpa [outside] using outside_plain s []

end Lexeme

open Lexeme (regionsIn regionsIn_cons_of_ne outside)

namespace Piece

variable {d : Dialect} {hole : Nat → Value → Bool → List Lexeme}

/-- No region is left open by a filling if none is in a hole. -/
lemma unclosed_notMem_fillLexemes {c : Char} {s : List Char}
    (h : ∀ k v signed, Lexeme.unclosed c s ∉ hole k v signed) (k : Nat) (ps : List Piece) :
    Lexeme.unclosed c s ∉ fillLexemes d hole k ps := by
  induction ps generalizing k with
  | nil => simp [fillLexemes]
  | cons p ps ih => cases p <;> simp [fillLexemes, ih, h]

/-- The regions of the dialect's quote are the names if there are none in the holes. -/
lemma regionsIn_quote_fillLexemes (h : ∀ k v signed, regionsIn d.quote (hole k v signed) = [])
    (k : Nat) (ps : List Piece) :
    regionsIn d.quote (fillLexemes d hole k ps) = (names ps).map String.toList := by
  induction ps generalizing k with
  | nil => rfl
  | cons p ps ih => cases p <;> simp [fillLexemes, names, ih, h]

/-- The regions of any other quote are those in the holes. -/
lemma regionsIn_fillLexemes {q : Char} (hq : d.quote ≠ q)
    {content? : Value → Option (List Char)}
    (h : ∀ k v signed, regionsIn q (hole k v signed) = (content? v).toList) (k : Nat)
    (ps : List Piece) :
    regionsIn q (fillLexemes d hole k ps) = (values ps).filterMap content? := by
  induction ps generalizing k with
  | nil => rfl
  | cons p ps ih =>
    cases p with
    | hole v signed => cases hv : content? v <;> simp [fillLexemes, values, ih, h, hv]
    | _ => simp [fillLexemes, values, ih, regionsIn_cons_of_ne hq]

end Piece

/-! ### Values in a display -/

namespace Builtin

lemma quote_ne_apostrophe (b : Builtin) : b.dialect.quote ≠ '\'' := by
  cases b <;> decide

lemma unclosed_notMem_shown (b : Builtin) (v : Value) (signed : Bool) (c : Char)
    (s : List Char) : Lexeme.unclosed c s ∉ b.shown v signed := by
  rw [shown, inlineLexemes]
  cases b.payload? v <;> simp

lemma regionsIn_apostrophe_shown (b : Builtin) (v : Value) (signed : Bool) :
    regionsIn '\'' (b.shown v signed) = ((b.payload? v).map String.toList).toList := by
  rw [shown, inlineLexemes]
  cases b.payload? v <;> simp

lemma regionsIn_quote_shown (b : Builtin) (v : Value) (signed : Bool) :
    regionsIn b.dialect.quote (b.shown v signed) = [] := by
  rw [shown, inlineLexemes]
  cases b.payload? v <;> simp [regionsIn_cons_of_ne b.quote_ne_apostrophe.symm]

end Builtin

/-! ### Trees that differ in their texts -/

/-- The value without what a text says. -/
def Value.emptyText : Value → Value
  | .text _ => .text ""
  | v => v

/-- The tree with nothing in its texts. What is left is all but what they say. -/
def Root.emptyTexts (root : Root) : Root := root.relabel (.values Value.emptyText)

namespace Piece

def emptyText : Piece → Piece
  | .hole v signed => .hole v.emptyText signed
  | p => p

lemma orderly_emptyText {P : String → Prop} {ps : List Piece} :
    Orderly P (ps.flatMap fun p => [p.emptyText]) ↔ Orderly P ps := by
  have hstops : ∀ ps : List Piece, Stops (ps.flatMap fun p => [p.emptyText]) ↔ Stops ps := by
    intro ps
    rcases ps with _ | ⟨p, ps⟩
    · exact Iff.rfl
    · cases p <;> exact Iff.rfl
  induction ps with
  | nil => exact Iff.rfl
  | cons p ps ih =>
    cases p with
    | raw s => exact and_congr_right fun _ => ih
    | op o => exact ih
    | name s => exact and_congr (hstops ps) ih
    | hole v signed => exact and_congr (hstops ps) ih

end Piece

namespace Builtin

/-- A value in quotes has no sign before them, so it needs no gap. -/
lemma gap_of_payload {b : Builtin} {v : Value} {s : String} (h : b.payload? v = some s)
    (signed : Bool) : Piece.gap signed (b.dialect.inline v) = "" := by
  have hhead : (b.dialect.inline v).toList.head? ≠ some '-' := by
    rcases b.lead_eq v with hv | hv <;> simp [inline_of_payload h, hv, quoteText]
  rw [Piece.gap, if_neg fun h => hhead h.2]

/-- Of a text nothing shows outside of its quotes. -/
lemma outside_shown_text (b : Builtin) (s : String) (signed : Bool) :
    outside (b.shown (.text s) signed) = [] := by
  rw [shown, gap_of_payload (v := .text s) rfl]
  rfl

lemma outside_shown_emptyText (b : Builtin) (v : Value) (signed : Bool) :
    outside (b.shown v.emptyText signed) = outside (b.shown v signed) := by
  cases v with
  | text s => rw [Value.emptyText, outside_shown_text, outside_shown_text]
  | _ => rfl

end Builtin

lemma Piece.outside_emptyText (b : Builtin) (k : Nat) (ps : List Piece) :
    outside (fillLexemes b.dialect (fun _ => b.shown) k (ps.flatMap fun p => [p.emptyText])) =
      outside (fillLexemes b.dialect (fun _ => b.shown) k ps) := by
  induction ps generalizing k with
  | nil => rfl
  | cons p ps ih =>
    cases p <;> simp [emptyText, fillLexemes, Lexeme.outside_append, outside,
      Builtin.outside_shown_emptyText, ← ih]

namespace Root

section

variable {a c : Root} (h : a.emptyTexts = c.emptyTexts)

include h

lemma read_of_emptyTexts_eq :
    a.pieces.flatMap (fun p => [p.emptyText]) = c.pieces.flatMap fun p => [p.emptyText] :=
  read_of_relabel_eq (Relabel.unseen_values _ fun v _ => by cases v <;> rfl) h

lemma faults_of_emptyTexts_eq (d : Dialect) : a.faults d = c.faults d := faults_of_values_eq h d

end

end Root

/-! ### Reading a display -/

namespace Builtin

/-- **Values stay in their quotes.** The regions that a reader of the display finds are closed.
Those in apostrophes hold what the values of the tree have in quotes, in order and as it was;
those in the quotes of names are the regions of the text. Outside of them a tree reads the same
whatever its texts say. -/
theorem quotations_of_toQuery {b : Builtin} {root : Root} {q : Query}
    (h : root.toQuery b.dialect = .ok q)
    (hf : ∀ f ∈ root.functions, '\'' ∉ f.toList ∧ b.dialect.quote ∉ f.toList) :
    (∀ c s, .unclosed c s ∉ b.quoting.scan q.display.toList) ∧
      regionsIn '\'' (b.quoting.scan q.display.toList) =
        (root.literals.filterMap b.payload?).map String.toList ∧
      regionsIn b.dialect.quote (b.quoting.scan q.display.toList) =
        Lexeme.regions (b.scan q.text) ∧
      ∀ root' : Root, root'.emptyTexts = root.emptyTexts →
        ∃ q', root'.toQuery b.dialect = .ok q' ∧
          outside (b.quoting.scan q'.display.toList) =
            outside (b.quoting.scan q.display.toList) := by
  have hquotes : ∀ f ∈ root.functions, b.dialect.quote ∉ f.toList ∧ '\'' ∉ f.toList :=
    fun f hm => (hf f hm).symm
  refine ⟨?_, ?_, ?_, ?_⟩
  · intro c s
    rw [read_display h hquotes]
    exact Piece.unclosed_notMem_fillLexemes (fun _ v signed => b.unclosed_notMem_shown v signed c s)
      0 root.pieces
  · rw [read_display h hquotes, Piece.regionsIn_fillLexemes b.quote_ne_apostrophe
      (fun _ => b.regionsIn_apostrophe_shown), Root.values_pieces, List.map_filterMap]
  · rw [read_display h hquotes, Piece.regionsIn_quote_fillLexemes
      (fun _ => b.regionsIn_quote_shown), scan_text h fun f hm => (hf f hm).2,
      Piece.regions_lexemes]
  · intro root' hroot
    have hsound : root'.faults b.dialect = [] := by
      rw [Root.faults_of_emptyTexts_eq hroot, Root.faults_of_toQuery h]
    have hread := Root.read_of_emptyTexts_eq hroot
    have horderly := root.orderly_pieces b.admits_unquoted hquotes
    rw [← Piece.orderly_emptyText, ← hread, Piece.orderly_emptyText] at horderly
    refine ⟨_, Root.toQuery_of_sound hsound, ?_⟩
    rw [Root.query, quoting_scan_display horderly 0, read_display h hquotes,
      ← Piece.outside_emptyText, hread, Piece.outside_emptyText]

/-- A text that ends in a backslash, one with quotes of both kinds, and the same tree with other
texts in their place. -/
theorem quotations_of_toQuery_mixed :
    let tree : String → String → Root := fun s t =>
      .expr <| .call "f" [.binary .eq (.column { name := "it's`" }) (.lit s),
        .unary .neg (.lit (-5 : Int64)), .literal (.blob ⟨#[10, 255]⟩),
        .literal (.float ⟨0xFFF0000000000000⟩), .aliased (.lit t) "'"]
    let root := tree "''\\" "`' OR 1 = 1 --"
    ∃ q, root.toQuery mysql.dialect = .ok q ∧
      regionsIn '\'' (mysql.quoting.scan q.display.toList) =
        ["''\\", "0AFF", "-Infinity", "`' OR 1 = 1 --"].map String.toList ∧
      regionsIn '`' (mysql.quoting.scan q.display.toList) = Lexeme.regions (mysql.scan q.text) ∧
      ∃ q', (tree "a" "b").toQuery mysql.dialect = .ok q' ∧
        outside (mysql.quoting.scan q'.display.toList) =
          outside (mysql.quoting.scan q.display.toList) := by
  intro tree root
  have hq : root.toQuery mysql.dialect = .ok (root.query mysql.dialect) :=
    Root.toQuery_of_sound (by decide)
  obtain ⟨-, hvalues, hnames, htexts⟩ := quotations_of_toQuery hq (by decide)
  exact ⟨_, hq, hvalues, hnames, htexts (tree "a" "b") rfl⟩

end Builtin

end SqlTree
