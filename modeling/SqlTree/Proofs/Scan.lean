import Mathlib.Tactic.Lemma
import SqlTree.Text

/-!
Reading SQL text, one character after the other, as far as quotes go.

A quote opens a region, and inside it everything stands for itself but the quote: two of them
stand for one, and one alone ends the region. Whether a quote stands alone shows only in the
character after it. In some regions a backslash takes the next character with it.
-/

namespace SqlTree

/-- A character outside quotes, a quoted region with its content, or a region without end. -/
inductive Lexeme where
  | plain (c : Char)
  | quoted (quote : Char) (content : List Char)
  | unclosed (quote : Char) (content : List Char)
  deriving DecidableEq

/-- The characters that open a region, and those of them whose regions know escapes. -/
structure Quoting where
  isQuote : Char → Bool
  escapes : Char → Bool := fun _ => false

/-- One quote, without escapes. -/
def Quoting.single (q : Char) : Quoting := ⟨(· == q), fun _ => false⟩

namespace Scan

inductive State where
  | outside
  | inside (quote : Char) (content : List Char)
  | escaped (quote : Char) (content : List Char)
  /-- After a quote that either ends the region or is the first of two. -/
  | closing (quote : Char) (content : List Char)

/-- The character that a backslash and the given one stand for. -/
def unescape : Char → Char
  | '0' => '\x00'
  | 'b' => '\x08'
  | 'n' => '\n'
  | 'r' => '\r'
  | 't' => '\t'
  | 'Z' => '\x1a'
  | c => c

variable (Q : Quoting)

def enter (c : Char) : List Lexeme × State :=
  if Q.isQuote c then ([], .inside c []) else ([.plain c], .outside)

def step : State → Char → List Lexeme × State
  | .outside, c => enter Q c
  | .inside q s, c =>
    if c = q then ([], .closing q s)
    else if Q.escapes q ∧ c = '\\' then ([], .escaped q s)
    else ([], .inside q (s ++ [c]))
  | .escaped q s, c => ([], .inside q (s ++ [unescape c]))
  | .closing q s, c =>
    if c = q then ([], .inside q (s ++ [c]))
    else (.quoted q s :: (enter Q c).1, (enter Q c).2)

def finish : State → List Lexeme
  | .outside => []
  | .inside q s | .escaped q s => [.unclosed q s]
  | .closing q s => [.quoted q s]

def run : State → List Char → List Lexeme
  | σ, [] => finish σ
  | σ, c :: cs => (step Q σ c).1 ++ run (step Q σ c).2 cs

end Scan

/-- The lexemes of a text. -/
def Quoting.scan (Q : Quoting) (cs : List Char) : List Lexeme := Scan.run Q .outside cs

namespace Scan

variable {Q : Quoting}

lemma run_cons (σ : State) (c : Char) (cs : List Char) :
    run Q σ (c :: cs) = (step Q σ c).1 ++ run Q (step Q σ c).2 cs := rfl

lemma scan_nil : Q.scan [] = [] := rfl

lemma scan_cons {c : Char} (h : Q.isQuote c = false) (r : List Char) :
    Q.scan (c :: r) = .plain c :: Q.scan r := by
  simp [Quoting.scan, run_cons, step, enter, h]

/-- Text without quotes is read as it stands. -/
lemma scan_append {s : List Char} (h : ∀ c ∈ s, Q.isQuote c = false) (r : List Char) :
    Q.scan (s ++ r) = s.map .plain ++ Q.scan r := by
  induction s with
  | nil => rfl
  | cons c s ih =>
    rw [List.cons_append, scan_cons (h c List.mem_cons_self), ih fun x hx => h x (.tail c hx)]
    rfl

/-- The text leads from one state to another, and no lexeme ends on the way. -/
inductive Leads (Q : Quoting) : State → List Char → State → Prop
  | refl (σ : State) : Leads Q σ [] σ
  | cons {σ σ' τ : State} {c : Char} {t : List Char} (hstep : step Q σ c = ([], σ'))
      (h : Leads Q σ' t τ) : Leads Q σ (c :: t) τ

lemma Leads.run {σ τ : State} {t : List Char} (h : Leads Q σ t τ) (r : List Char) :
    run Q σ (t ++ r) = run Q τ r := by
  induction h with
  | refl σ => rfl
  | cons hstep _ ih => rw [List.cons_append, run_cons, hstep, List.nil_append, ih]

/-- Inside a region the reader takes back the doubling of the quote. -/
lemma leads_double {q : Char} (h : Q.escapes q = false) (s t : List Char) :
    Leads Q (.inside q s) (Text.double q t) (.inside q (s ++ t)) := by
  induction t generalizing s with
  | nil =>
    rw [List.append_nil]
    exact .refl _
  | cons c t ih =>
    have hrest : Leads Q (.inside q (s ++ [c])) (Text.double q t) (.inside q (s ++ c :: t)) := by
      simpa using ih (s ++ [c])
    by_cases hc : c = q
    · subst hc
      have hcloses : step Q (.inside c s) c = ([], .closing c s) := by simp [step]
      rw [Text.double_cons_self]
      exact .cons hcloses (.cons (by simp [step]) hrest)
    · rw [Text.double_cons_of_ne hc]
      exact .cons (by simp [step, hc, h]) hrest

/-- Where a backslash takes the next character with it, it takes back the doubling of both. -/
lemma leads_double_escaped {q : Char} (h : Q.escapes q = true) (hq : q ≠ '\\')
    (s t : List Char) :
    Leads Q (.inside q s) (Text.double q (Text.double '\\' t)) (.inside q (s ++ t)) := by
  have hbackslash : '\\' ≠ q := fun h => hq h.symm
  induction t generalizing s with
  | nil =>
    rw [List.append_nil]
    exact .refl _
  | cons c t ih =>
    have hrest : Leads Q (.inside q (s ++ [c])) (Text.double q (Text.double '\\' t))
        (.inside q (s ++ c :: t)) := by
      simpa using ih (s ++ [c])
    by_cases hc : c = '\\'
    · subst hc
      have hescapes : step Q (.inside q s) '\\' = ([], .escaped q s) := by
        simp [step, hbackslash, h]
      rw [Text.double_cons_self, Text.double_cons_of_ne hbackslash,
        Text.double_cons_of_ne hbackslash]
      exact .cons hescapes (.cons (by simp [step, unescape]) hrest)
    · rw [Text.double_cons_of_ne hc]
      by_cases hcq : c = q
      · subst hcq
        have hcloses : step Q (.inside c s) c = ([], .closing c s) := by simp [step]
        rw [Text.double_cons_self]
        exact .cons hcloses (.cons (by simp [step]) hrest)
      · rw [Text.double_cons_of_ne hcq]
        exact .cons (by simp [step, hcq, hc]) hrest

/-- After a quote that stands alone the reader is outside again. -/
lemma run_closing {q : Char} {r : List Char} (h : r.head? ≠ some q) (s : List Char) :
    run Q (.closing q s) r = .quoted q s :: Q.scan r := by
  cases r with
  | nil => rfl
  | cons c r =>
    have hc : c ≠ q := by simpa using h
    simp [Quoting.scan, run_cons, step, hc]

/-- What stands between two quotes is read as one region, unless the closing quote runs into
another. -/
lemma scan_of_leads {q : Char} (hq : Q.isQuote q = true) {s t : List Char}
    (ht : Leads Q (.inside q []) t (.inside q s)) {r : List Char} (h : r.head? ≠ some q) :
    Q.scan (q :: (t ++ [q]) ++ r) = .quoted q s :: Q.scan r := by
  have hopen : Q.scan (q :: (t ++ [q]) ++ r) = run Q (.inside q []) (t ++ q :: r) := by
    simp [Quoting.scan, run_cons, step, enter, hq]
  have hclose : step Q (.inside q s) q = ([], .closing q s) := by simp [step]
  rw [hopen, ht.run, run_cons, hclose, List.nil_append, run_closing h]

/-- **An enclosed text is read as one region that holds the text**, unless its closing quote
runs into another. -/
lemma scan_enclose {q : Char} (hq : Q.isQuote q = true) (he : Q.escapes q = false) (s : String)
    {r : List Char} (h : r.head? ≠ some q) :
    Q.scan ((Text.enclose q s).toList ++ r) = .quoted q s.toList :: Q.scan r := by
  rw [Text.toList_enclose]
  exact scan_of_leads hq (leads_double he [] s.toList) h

/-- An enclosed text whose backslashes are doubled, where they are escapes. -/
lemma scan_enclose_escaped {q : Char} (hq : Q.isQuote q = true) (he : Q.escapes q = true)
    (hne : q ≠ '\\') (s : String) {r : List Char} (h : r.head? ≠ some q) :
    Q.scan ((Text.enclose q (String.ofList (Text.double '\\' s.toList))).toList ++ r) =
      .quoted q s.toList :: Q.scan r := by
  rw [Text.toList_enclose, String.toList_ofList]
  exact scan_of_leads hq (leads_double_escaped he hne [] s.toList) h

end Scan

end SqlTree
