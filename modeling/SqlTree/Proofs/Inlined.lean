import SqlTree.Proofs.Marks

/-!
The lexemes of a query with its values inline.

A value is written in single quotes or as a bare word or number, perhaps with a minus sign before
it. In quotes stands a text, the digits of a blob or the name of a float that has no digits. The
quotes of a dialect and the escapes that its texts know are such that a reader finds what was put
into them.
-/

namespace SqlTree

/-! ### Bare words and numbers -/

namespace Text

/-- Letters, digits and points, at least one. -/
def Bare (s : List Char) : Prop := s ≠ [] ∧ ∀ c ∈ s, c.isAlphanum ∨ c = '.'

instance (s : List Char) : Decidable (Bare s) :=
  decidable_of_iff (s ≠ [] ∧ s.all fun c => c.isAlphanum || c == '.') (by simp [Bare])

lemma Bare.not_mem {s : List Char} (h : Bare s) {c : Char} (hc : c.isAlphanum = false)
    (hpoint : c ≠ '.') : c ∉ s := by
  intro hm
  rcases h.2 c hm with ha | rfl
  · rw [hc] at ha
    cases ha
  · exact hpoint rfl

end Text

open Text (Bare)

lemma isAlphanum_of_mem_toDigits {n : Nat} {c : Char} (h : c ∈ Nat.toDigits 10 n) :
    c.isAlphanum = true := by
  have hdigit : c.isDigit = true := Nat.isDigit_of_mem_toDigits (by omega) (by omega) h
  simp [Char.isAlphanum, hdigit]

lemma bare_toString (n : Nat) : Bare (toString n).toList := by
  rw [Nat.toString_eq_repr, Nat.toList_repr]
  exact ⟨Nat.toDigits_ne_nil, fun c hc => .inl (isAlphanum_of_mem_toDigits hc)⟩

/-- A decimal in positional notation. -/
lemma Decimal.bare_positional (d : Decimal) : Bare (d.positional false) := by
  have hdigits : ∀ c ∈ Nat.toDigits 10 d.digits, c.isAlphanum ∨ c = '.' :=
    fun c hc => .inl (isAlphanum_of_mem_toDigits hc)
  have hzeros : ∀ k, ∀ c ∈ List.replicate k '0', c.isAlphanum ∨ c = '.' := by
    intro k c hc
    obtain rfl : c = '0' := List.eq_of_mem_replicate hc
    exact .inl (by decide)
  rw [Decimal.positional]
  cases d.scale with
  | ofNat k =>
    refine ⟨fun h => Nat.toDigits_ne_nil (List.append_eq_nil_iff.mp h).1, fun c hc => ?_⟩
    simp only [Bool.false_eq_true, if_false, List.append_nil, List.mem_append] at hc
    exact hc.elim (hdigits c) (hzeros k c)
  | negSucc k =>
    dsimp only
    split
    · refine ⟨by simp, fun c hc => ?_⟩
      rcases List.mem_append.mp hc with hc | hc
      · exact hdigits c (List.mem_of_mem_take hc)
      · rcases List.mem_cons.mp hc with rfl | hc
        · exact .inr rfl
        · exact hdigits c (List.mem_of_mem_drop hc)
    · refine ⟨by simp, fun c hc => ?_⟩
      simp only [List.mem_cons, List.mem_append] at hc
      rcases hc with rfl | rfl | hc | hc
      · exact .inl (by decide)
      · exact .inr rfl
      · exact hzeros _ c hc
      · exact hdigits c hc

lemma Hex.digit_of_mem_encode {bytes : ByteArray} {c : Char} (h : c ∈ (encode bytes).toList) :
    ∃ n < 16, c = digit n := by
  rw [toList_encode, List.mem_flatMap] at h
  obtain ⟨b, -, hb⟩ := h
  have hlt : b.toNat < 256 := b.toNat_lt
  simp only [ofByte, List.mem_cons, List.not_mem_nil, or_false] at hb
  rcases hb with rfl | rfl
  · exact ⟨_, by omega, rfl⟩
  · exact ⟨_, by omega, rfl⟩

lemma Hex.not_mem_encode {c : Char} (h : ∀ n : Fin 16, c ≠ digit n) (bytes : ByteArray) :
    c ∉ (encode bytes).toList := by
  intro hc
  obtain ⟨n, hn, hd⟩ := digit_of_mem_encode hc
  exact h ⟨n, hn⟩ hd

namespace Builtin

/-! ### Values in quotes -/

/-- What a value has in quotes, if it is written with quotes. -/
def payload? (b : Builtin) : Value → Option String
  | .text s => some s
  | .blob bytes =>
    some (match b with
      | postgres => "\\x" ++ Hex.encode bytes
      | _ => Hex.encode bytes)
  | .float x =>
    if x.isNaN then some "NaN"
    else if x.isInfinite then some (if x.negative then "-Infinity" else "Infinity")
    else none
  | _ => none

/-- What stands before the quotes. -/
def lead (b : Builtin) : Value → String
  | .blob _ => if b = postgres then "" else "X"
  | _ => ""

/-- What becomes of a text inside quotes, apart from the quotes in it. -/
def escape (b : Builtin) (s : String) : String :=
  if b = mysql then String.ofList (Text.double '\\' s.toList) else s

/-- Nothing becomes of a text without a backslash. -/
lemma escape_eq {s : String} (h : '\\' ∉ s.toList) (b : Builtin) : b.escape s = s := by
  rw [escape, Text.double_of_not_mem h, String.ofList_toList, ite_self]

lemma lead_eq (b : Builtin) (v : Value) : b.lead v = "" ∨ b.lead v = "X" := by
  cases v with
  | blob bytes => by_cases hb : b = postgres <;> simp [lead, hb]
  | _ => exact .inl rfl

/-- The dialects differ in truth values, texts and blobs only. -/
lemma inline_float (b : Builtin) (x : Binary64) : b.dialect.inline (.float x) = inlineFloat x := by
  cases b <;> rfl

lemma inline_of_payload {b : Builtin} {v : Value} {s : String} (h : b.payload? v = some s) :
    b.dialect.inline v = b.lead v ++ quoteText (b.escape s) := by
  cases v with
  | null | bool _ | int _ => cases h
  | text t =>
    cases h
    cases b <;> simp [dialect, Dialect.generic, Dialect.postgres, Dialect.mysql, Dialect.sqlite,
      Value.inline, lead, escape]
  | blob bytes =>
    have hhex : '\\' ∉ (Hex.encode bytes).toList := Hex.not_mem_encode (by decide) bytes
    cases b with
    | generic | sqlite =>
      obtain rfl : Hex.encode bytes = s := by simpa [payload?] using h
      simp [dialect, Dialect.generic, Dialect.sqlite, Value.inline, lead, escape]
    | postgres =>
      obtain rfl : "\\x" ++ Hex.encode bytes = s := by simpa [payload?] using h
      simp [dialect, Dialect.postgres, lead, escape]
    | mysql =>
      obtain rfl : Hex.encode bytes = s := by simpa [payload?] using h
      rw [escape_eq hhex]
      simp [dialect, Dialect.mysql, Value.inline, lead]
  | float x =>
    rw [payload?] at h
    rw [inline_float, inlineFloat, lead, String.empty_append]
    · by_cases hnan : x.isNaN
      · obtain rfl : "NaN" = s := by simpa [hnan] using h
        rw [if_pos hnan, escape_eq (by decide)]
      · by_cases hinf : x.isInfinite
        · obtain rfl : (if x.negative then "-Infinity" else "Infinity") = s := by
            simpa [hnan, hinf] using h
          rw [if_neg hnan, if_pos hinf, escape_eq (by cases x.negative <;> decide)]
        · simp [hnan, hinf] at h
    · simp

/-- Without quotes a value is a bare word or number, with a sign or not. -/
lemma inline_of_bare {b : Builtin} {v : Value} (h : b.payload? v = none) :
    ∃ s, Bare s ∧
      ((b.dialect.inline v).toList = s ∨ (b.dialect.inline v).toList = '-' :: s) := by
  cases v with
  | null =>
    have hinline : b.dialect.inline .null = "NULL" := by cases b <;> rfl
    exact ⟨_, by rw [hinline]; decide, .inl rfl⟩
  | bool x => exact ⟨_, by cases b <;> cases x <;> decide, .inl rfl⟩
  | int n =>
    have hinline : b.dialect.inline (.int n) = toString n.toInt := by cases b <;> rfl
    rw [hinline]
    cases n.toInt with
    | ofNat k => exact ⟨_, bare_toString k, .inl rfl⟩
    | negSucc k =>
      have hsign : toString (Int.negSucc k) = "-" ++ toString (k + 1) := rfl
      exact ⟨_, bare_toString (k + 1), .inr (by rw [hsign, String.toList_append]; rfl)⟩
  | float x =>
    rw [payload?] at h
    have hnan : ¬x.isNaN := fun hnan => by simp [hnan] at h
    have hinf : ¬x.isInfinite := fun hinf => by simp [hnan, hinf] at h
    rw [inline_float, inlineFloat, if_neg hnan, if_neg hinf, Binary64.format]
    refine ⟨_, Decimal.bare_positional (x.shortest plainNumber.tie), ?_⟩
    cases x.negative with
    | false => exact .inl (by simp [Decimal.write, plainNumber])
    | true => exact .inr (by simp [Decimal.write, plainNumber])
  | text s => cases h
  | blob bytes => cases h

/-! ### Reading values -/

/-- Identifiers and texts are quoted, each with quotes of its own; in some dialects a backslash
is an escape in a text. -/
def quoting (b : Builtin) : Quoting where
  isQuote c := c == b.dialect.quote || c == '\''
  escapes q := b == mysql && q == '\''

def inlineLexemes (b : Builtin) (v : Value) : List Lexeme :=
  match b.payload? v with
  | some s => (b.lead v).toList.map .plain ++ [.quoted '\'' s.toList]
  | none => (b.dialect.inline v).toList.map .plain

lemma isQuote_eq_false {b : Builtin} {c : Char} :
    b.quoting.isQuote c = false ↔ c ≠ b.dialect.quote ∧ c ≠ '\'' := by
  simp [quoting]

lemma forall_isQuote_iff {b : Builtin} {s : List Char} :
    (∀ c ∈ s, b.quoting.isQuote c = false) ↔ b.dialect.quote ∉ s ∧ '\'' ∉ s := by
  simp only [isQuote_eq_false]
  exact ⟨fun h => ⟨fun hq => (h _ hq).1 rfl, fun hq => (h _ hq).2 rfl⟩,
    fun h c hc => ⟨fun hq => h.1 (hq ▸ hc), fun hq => h.2 (hq ▸ hc)⟩⟩

lemma scan_quoteText (b : Builtin) (s : String) {r : List Char} (h : r.head? ≠ some '\'') :
    b.quoting.scan ((quoteText (b.escape s)).toList ++ r) =
      .quoted '\'' s.toList :: b.quoting.scan r := by
  by_cases hb : b = mysql
  · subst hb
    exact Scan.scan_enclose_escaped rfl rfl (by decide) s h
  · rw [escape, if_neg hb]
    refine Scan.scan_enclose (by simp [quoting]) ?_ s h
    simp [quoting, hb]

/-- **A reader finds the value** that was written inline, unless its closing quote runs into
another. -/
theorem scan_inline (b : Builtin) (v : Value) {r : List Char} (h : r.head? ≠ some '\'') :
    b.quoting.scan ((b.dialect.inline v).toList ++ r) =
      b.inlineLexemes v ++ b.quoting.scan r := by
  rw [inlineLexemes]
  cases hp : b.payload? v with
  | some s =>
    have hlead : ∀ c ∈ (b.lead v).toList, b.quoting.isQuote c = false := by
      rw [forall_isQuote_iff]
      rcases b.lead_eq v with hv | hv <;> rw [hv] <;> cases b <;> decide
    rw [inline_of_payload hp, String.toList_append, List.append_assoc, Scan.scan_append hlead,
      scan_quoteText b s h, List.append_assoc, List.singleton_append]
  | none =>
    obtain ⟨s, hs, hinline⟩ := inline_of_bare hp
    have hplain : ∀ c ∈ (b.dialect.inline v).toList, b.quoting.isQuote c = false := by
      intro c hc
      have hquote : ∀ c, c.isAlphanum = true ∨ c = '.' ∨ c = '-' →
          b.quoting.isQuote c = false := by
        intro c hc
        rw [isQuote_eq_false]
        constructor
        · rintro rfl
          cases b <;> revert hc <;> decide
        · rintro rfl
          revert hc
          decide
      rcases hinline with hinline | hinline
      · rw [hinline] at hc
        exact hquote c ((hs.2 c hc).imp_right .inl)
      · rw [hinline, List.mem_cons] at hc
        rcases hc with rfl | hc
        · exact hquote _ (.inr (.inr rfl))
        · exact hquote c ((hs.2 c hc).imp_right .inl)
    exact Scan.scan_append hplain r

/-! ### Reading text and display -/

lemma apostrophe_not_mem_token (b : Builtin) {o : BinaryOp} {t : String}
    (h : b.dialect.token? o = some t) : '\'' ∉ t.toList := by
  cases b <;> cases o <;> cases h <;> decide

lemma apostrophe_not_mem_mark (b : Builtin) (k : Nat) :
    '\'' ∉ (b.dialect.placeholder.mark k).toList :=
  b.not_mem_mark (by decide) (by cases b <;> decide) k

/-- Names and tokens are read as they were meant, so it is the holes that count. -/
lemma reads (b : Builtin) {hole : Nat → Value → Bool → String}
    {lexemes : Nat → Value → Bool → List Lexeme}
    (h : ∀ k v signed r, Piece.Stopped r →
      b.quoting.scan ((hole k v signed).toList ++ r) =
        lexemes k v signed ++ b.quoting.scan r) :
    b.quoting.Reads b.dialect hole lexemes where
  name s r hr := by
    refine b.legible.scan_name (by simp [quoting]) ?_ s hr
    cases b <;> decide
  token o t ht := forall_isQuote_iff.mpr ⟨b.legible.token o t ht, b.apostrophe_not_mem_token ht⟩
  hole := h

/-- What a reader finds in the display where a hole was. -/
def shown (b : Builtin) (v : Value) (signed : Bool) : List Lexeme :=
  (Piece.gap signed (b.dialect.inline v)).toList.map .plain ++ b.inlineLexemes v

lemma scan_shown (b : Builtin) (v : Value) (signed : Bool) {r : List Char}
    (h : Piece.Stopped r) :
    b.quoting.scan ((Piece.gap signed (b.dialect.inline v) ++ b.dialect.inline v).toList ++ r) =
      b.shown v signed ++ b.quoting.scan r := by
  have hgap : ∀ c ∈ (Piece.gap signed (b.dialect.inline v)).toList,
      b.quoting.isQuote c = false := by
    rw [forall_isQuote_iff, Piece.gap]
    split
    · cases b <;> decide
    · simp
  rw [String.toList_append, List.append_assoc, Scan.scan_append hgap,
    scan_inline b v (h.head?_ne (by decide)), shown, List.append_assoc]

lemma admits_unquoted (b : Builtin) :
    Piece.Admits fun s => b.dialect.quote ∉ s.toList ∧ '\'' ∉ s.toList := by
  have hapostrophe : Piece.Admits fun s => '\'' ∉ s.toList :=
    Piece.admits_not_mem (by decide) (by decide) (by decide) (by decide)
  exact ⟨fun s hs => ⟨b.admits_quote.fixed s hs, hapostrophe.fixed s hs⟩,
    fun n => ⟨b.admits_quote.limit n, hapostrophe.limit n⟩,
    fun n => ⟨b.admits_quote.offset n, hapostrophe.offset n⟩⟩

/-- The marks in the text are read as they stand. -/
lemma reads_text (b : Builtin) :
    b.quoting.Reads b.dialect (fun k _ _ => b.dialect.placeholder.mark k)
      fun k _ _ => (b.dialect.placeholder.mark k).toList.map .plain :=
  b.reads fun k _ _ r _ => Scan.scan_append
    (forall_isQuote_iff.mpr ⟨b.legible.mark k, b.apostrophe_not_mem_mark k⟩) r

lemma reads_display (b : Builtin) :
    b.quoting.Reads b.dialect
      (fun _ v signed => Piece.gap signed (b.dialect.inline v) ++ b.dialect.inline v)
      fun _ => b.shown :=
  b.reads fun _ v signed _ hr => b.scan_shown v signed hr

section

variable {b : Builtin} {ps : List Piece}
  (h : Piece.Orderly (fun s => b.dialect.quote ∉ s.toList ∧ '\'' ∉ s.toList) ps) (k : Nat)

include h

/-- Outside of names the text has no quotes of either kind. -/
lemma quoting_scan_text :
    b.quoting.scan (Piece.text b.dialect k ps).toList = Piece.lexemes b.dialect k ps := by
  rw [Piece.text_eq_fill, Piece.lexemes_eq_fillLexemes]
  exact Piece.scan_fill b.reads_text (h.mono fun _ => forall_isQuote_iff.mpr) k

/-- **A reader finds the pieces in the display**, and in the holes the values. -/
lemma quoting_scan_display :
    b.quoting.scan (Piece.display b.dialect ps).toList =
      Piece.fillLexemes b.dialect (fun _ => b.shown) k ps := by
  rw [Piece.display_eq_fill b.dialect k]
  exact Piece.scan_fill b.reads_display (h.mono fun _ => forall_isQuote_iff.mpr) k

end

section

variable {b : Builtin} {root : Root} {q : Query} (h : root.toQuery b.dialect = .ok q)
  (hf : ∀ f ∈ root.functions, b.dialect.quote ∉ f.toList ∧ '\'' ∉ f.toList)

include h hf

lemma read_text :
    b.quoting.scan q.text.toList = Piece.lexemes b.dialect 0 root.pieces := by
  rw [Root.eq_query_of_toQuery h, Root.query,
    quoting_scan_text (root.orderly_pieces b.admits_unquoted hf)]

lemma read_display :
    b.quoting.scan q.display.toList =
      Piece.fillLexemes b.dialect (fun _ => b.shown) 0 root.pieces := by
  rw [Root.eq_query_of_toQuery h, Root.query,
    quoting_scan_display (root.orderly_pieces b.admits_unquoted hf)]

end

end Builtin

end SqlTree
