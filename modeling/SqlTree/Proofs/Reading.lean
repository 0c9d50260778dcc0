import SqlTree.Proofs.Reader

/-!
What the parts of the reader do with a tape on which pieces were written.

A reader takes a part off if it is what was written at the front, and it leaves the tape as it
was if something else stands there. Fixed text refuses other fixed text as soon as the two
differ in one place.
-/

namespace SqlTree

namespace Tape

def put (s : String) (t : Tape) : Tape := ⟨s.toList.map .plain ++ t.lexemes, t.values⟩

def putName (q : Char) (s : String) (t : Tape) : Tape :=
  ⟨.quoted q s.toList :: t.lexemes, t.values⟩

def putHole (d : Dialect) (k : Nat) (v : Value) (t : Tape) : Tape :=
  ⟨(d.placeholder.mark k).toList.map .plain ++ t.lexemes, v :: t.values⟩

/-- Pieces in front of what is there, with the marks of the positions from `k` on. -/
def write (d : Dialect) (k : Nat) (ps : List Piece) (t : Tape) : Tape :=
  ⟨Piece.lexemes d k ps ++ t.lexemes, Piece.values ps ++ t.values⟩

variable (d : Dialect) (k : Nat) (ps qs : List Piece) (t : Tape)

@[simp] lemma write_nil : write d k [] t = t := rfl

@[simp] lemma write_raw (s : String) : write d k (.raw s :: ps) t = put s (write d k ps t) := by
  simp [write, put, Piece.lexemes, Piece.values]

@[simp] lemma write_name (s : String) :
    write d k (.name s :: ps) t = putName d.quote s (write d k ps t) := rfl

@[simp] lemma write_op (o : BinaryOp) :
    write d k (.op o :: ps) t = put ((d.token? o).getD "") (write d k ps t) := by
  simp [write, put, Piece.lexemes, Piece.values]

@[simp] lemma write_hole (v : Value) (signed : Bool) :
    write d k (.hole v signed :: ps) t = putHole d k v (write d (k + 1) ps t) := by
  simp [write, putHole, Piece.lexemes, Piece.values]

@[simp] lemma write_append :
    write d k (ps ++ qs) t = write d k ps (write d (k + (Piece.values ps).length) qs t) := by
  simp [write, Piece.lexemes_append]

lemma put_append (s s' : String) : put (s ++ s') t = put s (put s' t) := by
  simp [put]

end Tape

open Tape (put putName putHole write put_append)

namespace Read

open Lexeme (spanWhile)

variable {α β : Type} {p q : Read α} {f : α → Read β} {a : α} {x : β} {t u w : Tape}

/-- The reader takes `a` off the tape, and `u` is left of it. -/
def Takes (p : Read α) (t : Tape) (a : α) (u : Tape) : Prop := p t = some (a, u)

def Refuses (p : Read α) (t : Tape) : Prop := p t = none

lemma Takes.bind (hp : Takes p t a u) (hf : Takes (f a) u x w) : Takes (p >>= f) t x w := by
  change (p t).bind _ = _
  rw [hp]
  exact hf

lemma takes_pure (a : α) (t : Tape) : Takes (pure a) t a t := rfl

lemma Takes.return (hp : Takes p t a u) (g : α → β) :
    Takes (do return g (← p)) t (g a) u := hp.bind (takes_pure _ _)

lemma Takes.orElse (hp : Takes p t a u) : Takes (p <|> q) t a u := by
  change (p t <|> q t) = _
  rw [hp]
  rfl

lemma Refuses.orElse (hp : Refuses p t) (hq : Takes q t a u) : Takes (p <|> q) t a u := by
  change (p t <|> q t) = _
  rw [hp]
  exact hq

lemma Refuses.or (hp : Refuses p t) (hq : Refuses q t) : Refuses (p <|> q) t := by
  change (p t <|> q t) = _
  rw [hp]
  exact hq

lemma Refuses.bind (hp : Refuses p t) : Refuses (p >>= f) t := by
  change (p t).bind _ = _
  rw [hp]
  rfl

/-! ### Fixed text -/

/-- The two differ where both have a character. -/
def clash : List Char → List Char → Bool
  | c :: cs, x :: xs => c != x || clash cs xs
  | _, _ => false

lemma strip_append (s : List Char) (ls : List Lexeme) : strip s (s.map .plain ++ ls) = some ls := by
  induction s with
  | nil => rfl
  | cons c s ih => simp [strip, ih]

lemma strip_of_clash {s x : List Char} (h : clash s x = true) (ls : List Lexeme) :
    strip s (x.map .plain ++ ls) = none := by
  induction s generalizing x with
  | nil => simp [clash] at h
  | cons c s ih =>
    cases x with
    | nil => simp [clash] at h
    | cons y x =>
      rw [List.map_cons, List.cons_append, strip]
      by_cases hc : c = y
      · subst hc
        rw [if_pos rfl]
        exact ih (by simpa [clash] using h)
      · rw [if_neg hc]

lemma takes_skip (s : String) (t : Tape) : Takes (skip s) (put s t) () t := by
  simp [Takes, skip, put, strip_append]

/-- The text after a part closes it. -/
lemma Takes.close {s : String} (h : Takes p t a (put s u)) (g : α → β) :
    Takes (do let a ← p; skip s; return g a) t (g a) u :=
  h.bind ((takes_skip s u).bind (f := fun _ => pure (g a)) (takes_pure _ u))

lemma refuses_skip_iff {s : String} : Refuses (skip s) t ↔ strip s.toList t.lexemes = none := by
  rw [Refuses, skip]
  cases strip s.toList t.lexemes with
  | none => exact iff_of_true rfl rfl
  | some ls => exact iff_of_false (by rintro ⟨⟩) (by rintro ⟨⟩)

lemma refuses_skip {s x : String} (h : clash s.toList x.toList = true) (t : Tape) :
    Refuses (skip s) (put x t) :=
  refuses_skip_iff.mpr (strip_of_clash h t.lexemes)

/-- The tape begins with one of the leads, or nothing is left on it. -/
def Starts (leads : List String) (t : Tape) : Prop :=
  t.lexemes = [] ∨ ∃ s ∈ leads, ∃ u, t = put s u

/-- The text is not empty and clashes with all leads. -/
def clashes (s : String) (leads : List String) : Bool :=
  !s.toList.isEmpty && leads.all fun x => clash s.toList x.toList

lemma Starts.refuses {leads : List String} (ht : Starts leads t) {s : String}
    (h : clashes s leads = true) : Refuses (skip s) t := by
  simp only [clashes, Bool.and_eq_true, List.all_eq_true] at h
  obtain ⟨hs, hleads⟩ := h
  rcases ht with hnil | ⟨x, hx, u, rfl⟩
  · apply refuses_skip_iff.mpr
    rw [hnil]
    cases hc : s.toList with
    | nil => simp [hc] at hs
    | cons c cs => rfl
  · exact refuses_skip (hleads x hx) u

lemma starts_put (s : String) (t : Tape) : Starts [s] (put s t) := .inr ⟨s, by simp, t, rfl⟩

lemma Starts.mono {leads more : List String} (ht : Starts leads t) (h : ∀ s ∈ leads, s ∈ more) :
    Starts more t :=
  ht.imp_right fun ⟨s, hs, hu⟩ => ⟨s, h s hs, hu⟩

/-- What an optional part can begin with, and what follows it. -/
lemma Starts.write {leads : List String} (ht : Starts leads t) {lead : String} {ps : List Piece}
    (hps : Piece.LedBy lead ps) (d : Dialect) (k : Nat) :
    Starts (lead :: leads) (Tape.write d k ps t) := by
  rcases hps with rfl | ⟨qs, rfl⟩
  · rcases ht with hnil | ⟨s, hs, u, rfl⟩
    · exact .inl hnil
    · exact .inr ⟨s, .tail _ hs, u, rfl⟩
  · exact .inr ⟨lead, by simp, Tape.write d k qs t, by simp⟩

/-- Neither a name nor a number goes on here. -/
def Cut (t : Tape) : Prop :=
  Refuses (skip ".") t ∧ (spanWhile Char.isDigit t.lexemes).1 = []

lemma Starts.cut {leads : List String} (ht : Starts leads t)
    (h : leads.all (fun s => s.toList.head?.any fun c => c != '.' && !c.isDigit) = true) :
    Cut t := by
  rcases ht with hnil | ⟨s, hs, u, rfl⟩
  · refine ⟨refuses_skip_iff.mpr ?_, ?_⟩ <;> rw [hnil] <;> rfl
  · have hhead := List.all_eq_true.mp h s hs
    cases hc : s.toList with
    | nil => simp [hc] at hhead
    | cons c cs =>
      simp only [hc, List.head?_cons, Option.any_some, Bool.and_eq_true, bne_iff_ne,
        Bool.not_eq_true'] at hhead
      refine ⟨refuses_skip_iff.mpr ?_, ?_⟩
      · simp [put, hc, strip, hhead.1.symm]
      · simp [put, hc, spanWhile, hhead.2]

/-! ### Names, numbers and marks -/

lemma takes_next (l : Lexeme) (ls : List Lexeme) (vs : List Value) :
    Takes next ⟨l :: ls, vs⟩ l ⟨ls, vs⟩ := rfl

lemma takes_quoted (c : Char) (s : String) (t : Tape) : Takes quoted (putName c s t) s t := by
  refine (takes_next _ _ _).bind ?_
  change Takes (pure (String.ofList s.toList)) t s t
  rw [String.ofList_toList]
  exact takes_pure s t

lemma takes_span {r : Char → Bool} {s : List Char} (hs : ∀ c ∈ s, r c = true)
    (ht : (spanWhile r t.lexemes).1 = []) :
    Takes (span r) ⟨s.map .plain ++ t.lexemes, t.values⟩ s t := by
  rw [Takes, span, Lexeme.spanWhile_append hs ht]

lemma takes_number (n : Nat) (ht : Cut t) : Takes number (put (toString n) t) n t := by
  refine (takes_span (fun _ => isDigit_of_mem_toString (n := n)) ht.2).bind ?_
  rw [Lexeme.number?_toString]
  rfl

/-- The names behind an expression are its aliases, up to the last one. -/
lemma aliases_put (e : Expr) (c : Char) (s : String) (t : Tape) :
    aliases e (put " AS " (putName c s t)) = aliases (.aliased e s) t := by
  simp [aliases, put, putName, names]

lemma names_of_strip (e : Expr) {ls : List Lexeme} (h : strip " AS ".toList ls = none) :
    names e ls = (e, ls) := by
  unfold names
  split
  · simp [strip] at h
  · rfl

lemma takes_aliases (e : Expr) (h : Refuses (skip " AS ") t) : Takes (aliases e) t e t := by
  rw [Takes, aliases, names_of_strip e (refuses_skip_iff.mp h)]

/-! ### Optional parts and lists -/

lemma takes_opt (h : Takes p t a u) : Takes (opt p) t (some a) u := (h.return some).orElse

lemma refuses_opt (h : Refuses p t) : Takes (opt p) t none t := h.bind.orElse (takes_pure _ _)

lemma takes_clause {lead : String} (h : Takes p t a u) :
    Takes (clause lead p) (put lead t) (some a) u :=
  takes_opt ((takes_skip lead t).bind h)

lemma refuses_clause {lead : String} (h : Refuses (skip lead) t) :
    Takes (clause lead p) t none t :=
  refuses_opt h.bind

lemma takes_more_nil (h : Refuses (skip ", ") t) (n : Nat) : Takes (more p n) t [] t := by
  cases n with
  | zero => rfl
  | succ n => exact h.bind.orElse (takes_pure _ _)

lemma takes_more {n : Nat} {as : List α} (h : Takes (list p n) t as u) :
    Takes (more p (n + 1)) (put ", " t) as u :=
  ((takes_skip ", " t).bind h).orElse

lemma takes_list {n : Nat} {as : List α} (hp : Takes p t a u) (hm : Takes (more p n) u as w) :
    Takes (list p n) t (a :: as) w :=
  hp.bind (hm.return (a :: ·))

lemma takes_listClause {lead : String} {n : Nat} {as : List α} (h : Takes (list p n) t as u) :
    Takes (listClause lead p n) (put lead t) as u :=
  ((takes_skip lead t).bind h).orElse

lemma refuses_listClause {lead : String} {n : Nat} (h : Refuses (skip lead) t) :
    Takes (listClause lead p n) t [] t :=
  h.bind.orElse (takes_pure _ _)

lemma takes_closed_nil (close : String) (n : Nat) (t : Tape) :
    Takes (closed close p n) (put close t) [] t :=
  ((takes_skip close t).bind (takes_pure [] t)).orElse

lemma takes_closed {close : String} {n : Nat} {as : List α} (h : Refuses (skip close) t)
    (hl : Takes (list p n) t as (put close u)) : Takes (closed close p n) t as u :=
  h.bind.orElse (hl.close id)

/-! ### The front of an expression -/

def signs : List Char := ['(', '*', '$', '?']

/-- What an expression can begin with: a name, a sign, or the name of a function. -/
inductive Begins : Tape → Prop
  | name (c : Char) (s : String) (t : Tape) : Begins (putName c s t)
  | sign {c : Char} (h : c ∈ signs) (ls : List Lexeme) (vs : List Value) :
    Begins ⟨.plain c :: ls, vs⟩
  | call {f : String} (h : ∀ c ∈ f.toList, isWordChar c = true) (t : Tape) :
    Begins (put f (put "(" t))

/-- The text holds none of the signs, and something that is in no function name. -/
def foreign (s : String) : Bool :=
  (s.toList.all fun c => !signs.contains c) && s.toList.any fun c => !isWordChar c

lemma strip_word {s w : List Char} (hsign : '(' ∉ s) (hs : ∃ c ∈ s, isWordChar c = false)
    (hw : ∀ c ∈ w, isWordChar c = true) (ls : List Lexeme) :
    strip s (w.map .plain ++ .plain '(' :: ls) = none := by
  induction w generalizing s with
  | nil =>
    cases s with
    | nil => simp at hs
    | cons c s =>
      have hc : c ≠ '(' := fun h => hsign (by simp [h])
      simp [strip, hc]
  | cons a w ih =>
    rw [List.forall_mem_cons] at hw
    cases s with
    | nil => simp at hs
    | cons c s =>
      rw [List.map_cons, List.cons_append, strip]
      by_cases hc : c = a
      · subst hc
        rw [if_pos rfl]
        refine ih (fun h => hsign (.tail _ h)) ?_ hw.2
        simpa [hw.1] using hs
      · rw [if_neg hc]

lemma Begins.refuses (ht : Begins t) {s : String} (h : foreign s = true) :
    Refuses (skip s) t := by
  simp only [foreign, Bool.and_eq_true, List.all_eq_true, List.any_eq_true, Bool.not_eq_true',
    List.contains_eq_mem, decide_eq_false_iff_not] at h
  obtain ⟨hsign, hother⟩ := h
  apply refuses_skip_iff.mpr
  cases ht with
  | name c x t =>
    cases hc : s.toList with
    | nil => simp [hc] at hother
    | cons y ys => rfl
  | @sign c hmem ls vs =>
    cases hc : s.toList with
    | nil => simp [hc] at hother
    | cons y ys =>
      have hy : y ≠ c := fun hyc => hsign y (by simp [hc]) (hyc ▸ hmem)
      change (if y = c then _ else none) = none
      rw [if_neg hy]
  | call hf t => exact strip_word (fun hp => hsign _ hp (by decide)) hother hf t.lexemes

lemma mark_eq (b : Builtin) (k : Nat) :
    ∃ ds, (b.dialect.placeholder.mark k).toList = b.sigil :: ds ∧ ∀ c ∈ ds, c.isDigit = true := by
  cases b with
  | generic | mysql =>
    refine ⟨[], ?_, by simp⟩
    simp [Builtin.dialect, Dialect.generic, Dialect.mysql, Placeholder.mark, Builtin.sigil]
  | postgres | sqlite =>
    refine ⟨(toString (1 + k)).toList, ?_, fun _ => isDigit_of_mem_toString⟩
    simp [Builtin.dialect, Dialect.postgres, Dialect.sqlite, Placeholder.mark, Builtin.sigil]

lemma begins_putHole (b : Builtin) (k : Nat) (v : Value) (t : Tape) :
    Begins (putHole b.dialect k v t) := by
  obtain ⟨ds, hmark, -⟩ := mark_eq b k
  rw [putHole, hmark]
  exact .sign (by cases b <;> decide) _ _

lemma begins_put {s : String} (h : ∃ cs, s.toList = '(' :: cs) (t : Tape) : Begins (put s t) := by
  obtain ⟨cs, hs⟩ := h
  rw [put, hs]
  exact .sign (by decide) _ _

end Read

namespace Suffix

lemma mem_all (x : Suffix) : x ∈ all := by
  cases x with
  | isNull | isNotNull => simp [all]
  | member negated => cases negated <;> simp [all]
  | op o => simp [all, BinaryOp.mem_all]

/-- No suffix can be taken for another one. -/
lemma clash_text? (b : Builtin) :
    ∀ x ∈ all, ∀ y ∈ all, x ≠ y → ∀ s ∈ x.text? b.dialect, ∀ r ∈ y.text? b.dialect,
      Read.clash s.toList r.toList = true := by
  cases b <;> decide +kernel

end Suffix

namespace Read

lemma takes_suffix {b : Builtin} {x : Suffix} {s : String} (h : x.text? b.dialect = some s)
    (t : Tape) : Takes (suffix b.dialect) (put s t) x t := by
  obtain ⟨xs, ys, hall, hx⟩ := List.eq_append_cons_of_mem x.mem_all
  refine List.findSome?_eq_some_iff.mpr ⟨xs, x, ys, hall, ?_, fun y hy => ?_⟩
  · have hskip : skip s (put s t) = some ((), t) := takes_skip s t
    simp only [h, hskip, Option.map_some]
  · have hne : y ≠ x := fun hyx => hx (hyx ▸ hy)
    cases hr : y.text? b.dialect with
    | none => rfl
    | some r =>
      have hskip : skip r (put s t) = none :=
        refuses_skip (Suffix.clash_text? b y y.mem_all x x.mem_all hne r hr s h) t
      simp only [hskip, Option.map_none]

end Read

end SqlTree
