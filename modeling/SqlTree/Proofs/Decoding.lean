import Mathlib.Logic.Function.Basic
import SqlTree.Proofs.Inlined

/-!
Quoted text and digits, read back from the front.

A reader that stands before a quote takes one region off: it gives what the region holds and
what comes after it. The quote may stand in the text any number of times, and last as well, and
still the reader finds the end, as long as what comes after does not begin with another quote.
So what is put in quotes is lost nowhere, and no two texts look the same in quotes.
-/

namespace SqlTree

namespace Scan

/-- Goes on to the end of the region: what the region holds, and what is left. -/
def close? (Q : Quoting) : State → List Char → Option (List Char × List Char)
  | .closing _ s, [] => some (s, [])
  | .closing q s, c :: cs =>
    if c = q then close? Q (.inside q (s ++ [c])) cs else some (s, c :: cs)
  | _, [] => none
  | σ, c :: cs => close? Q (step Q σ c).2 cs

end Scan

/-- Takes a region of the quote `q` off the front: what the region holds, and what is left. -/
def Quoting.region? (Q : Quoting) (q : Char) : List Char → Option (List Char × List Char)
  | [] => none
  | c :: cs => if c = q then Scan.close? Q (.inside q []) cs else none

namespace Scan

variable {Q : Quoting}

/-- A step with which no lexeme ends does not end the region. -/
lemma close?_of_step {σ τ : State} {c : Char} (h : step Q σ c = ([], τ)) (r : List Char) :
    close? Q σ (c :: r) = close? Q τ r := by
  cases σ with
  | closing q s =>
    by_cases hc : c = q
    · have hτ : τ = .inside q (s ++ [c]) := by simpa [step, hc, eq_comm] using h
      rw [close?, if_pos hc, hτ]
    · simp [step, hc] at h
  | _ => simp [close?, h]

lemma Leads.close? {σ τ : State} {t : List Char} (h : Leads Q σ t τ) (r : List Char) :
    close? Q σ (t ++ r) = close? Q τ r := by
  induction h with
  | refl σ => rfl
  | cons hstep _ ih => rw [List.cons_append, close?_of_step hstep, ih]

/-- Two quotes in a row belong to the text, so the one that ends it stands before something
else. -/
lemma close?_closing {q : Char} {r : List Char} (h : r.head? ≠ some q) (s : List Char) :
    Scan.close? Q (.closing q s) r = some (s, r) := by
  cases r with
  | nil => rfl
  | cons c r =>
    have hc : c ≠ q := by simpa using h
    rw [Scan.close?, if_neg hc]

lemma region?_of_leads {q : Char} {s t : List Char}
    (ht : Leads Q (.inside q []) t (.inside q s)) {r : List Char} (h : r.head? ≠ some q) :
    Q.region? q (q :: (t ++ [q]) ++ r) = some (s, r) := by
  have hclose : step Q (.inside q s) q = ([], .closing q s) := by simp [step]
  have hbody : q :: (t ++ [q]) ++ r = q :: (t ++ q :: r) := by simp
  rw [hbody, Quoting.region?, if_pos rfl, ht.close?, close?_of_step hclose, close?_closing h]

/-- **An enclosed text is taken off as it was**, and what follows it is left. -/
lemma region?_enclose {q : Char} (he : Q.escapes q = false) (s : String) {r : List Char}
    (h : r.head? ≠ some q) :
    Q.region? q ((Text.enclose q s).toList ++ r) = some (s.toList, r) := by
  rw [Text.toList_enclose]
  exact region?_of_leads (leads_double he [] s.toList) h

end Scan

namespace Text

lemma enclose_injective (q : Char) : Function.Injective (enclose q) := by
  intro s t h
  have hread : ∀ u : String,
      (Quoting.single q).region? q ((enclose q u).toList ++ []) = some (u.toList, []) :=
    fun u => Scan.region?_enclose rfl u (by simp)
  have hst : some (s.toList, ([] : List Char)) = some (t.toList, []) := by
    rw [← hread s, h, hread t]
  simpa [String.toList_inj] using hst

lemma length_double (c : Char) (s : List Char) : (double c s).length = s.length + s.count c := by
  induction s with
  | nil => rfl
  | cons d s ih =>
    by_cases hd : d = c
    · subst hd
      rw [double_cons_self, List.count_cons_self, List.length_cons, List.length_cons,
        List.length_cons]
      omega
    · rw [double_cons_of_ne hd, List.count_cons_of_ne hd, List.length_cons, List.length_cons]
      omega

/-- Two quotes around the text, and one more for each quote in it. -/
lemma length_enclose (q : Char) (s : String) :
    (enclose q s).length = s.length + (2 + s.toList.count q) := by
  rw [← String.length_toList, toList_enclose, List.length_cons, List.length_append, length_double,
    String.length_toList, List.length_singleton]
  omega

end Text

/-! ### Names -/

/-- **Names are read back.** In a dialect that writes names in the usual way, as the built-in ones
do, a reader who knows the quote takes a name off the front as it was, whatever follows but
another quote. So no two names are written alike, and writing a name costs two characters and one
more for each quote in it. -/
theorem Dialect.quoteName_read_back :
    (∀ b : Builtin, b.dialect.quoteName = Text.enclose b.dialect.quote) ∧
      ∀ d : Dialect, d.quoteName = Text.enclose d.quote →
        (∀ (name : String) (r : List Char), r.head? ≠ some d.quote →
          (Quoting.single d.quote).region? d.quote ((d.quoteName name).toList ++ r) =
            some (name.toList, r)) ∧
        Function.Injective d.quoteName ∧
        ∀ name : String,
          (d.quoteName name).length = name.length + (2 + name.toList.count d.quote) := by
  refine ⟨fun b => b.legible.quoteName, fun d hd => ?_⟩
  rw [hd]
  exact ⟨fun name r hr => Scan.region?_enclose rfl name hr, Text.enclose_injective d.quote,
    Text.length_enclose d.quote⟩

/-- A dialect of its own with a quote of its own: a name of quotes only, the empty name, and one
that begins and ends with the quote. -/
theorem Dialect.quoteName_read_back_own :
    let d : Dialect := { name := "own", quote := 'é' }
    d.quoteName = Text.enclose d.quote ∧
      (Quoting.single 'é').region? 'é' ((d.quoteName "ééé").toList ++ ".é".toList) =
        some ("ééé".toList, ".é".toList) ∧
      (Quoting.single 'é').region? 'é' ((d.quoteName "").toList ++ []) = some ([], []) ∧
      (d.quoteName "éaé").length = 3 + (2 + 2) := by
  intro d
  obtain ⟨-, hown⟩ := quoteName_read_back
  obtain ⟨hread, -, hlength⟩ := hown d rfl
  exact ⟨rfl, hread "ééé" ".é".toList (by decide), hread "" [] (by decide), hlength "éaé"⟩

/-! ### Texts and bytes -/

namespace Hex

lemma encode_injective : Function.Injective encode := by
  intro x y h
  have hread : some x = some y := by rw [← decode?_encode x, h, decode?_encode y]
  exact Option.some.inj hread

lemma mem_digits_of_mem_encode {bytes : ByteArray} {c : Char} (h : c ∈ (encode bytes).toList) :
    c ∈ "0123456789ABCDEF".toList := by
  have hdigits : ∀ n : Fin 16, digit n ∈ "0123456789ABCDEF".toList := by decide
  obtain ⟨n, hn, rfl⟩ := digit_of_mem_encode h
  exact hdigits ⟨n, hn⟩

end Hex

namespace Builtin

lemma region?_quoteText (b : Builtin) (s : String) {r : List Char} (h : r.head? ≠ some '\'') :
    b.quoting.region? '\'' ((quoteText (b.escape s)).toList ++ r) = some (s.toList, r) := by
  rw [quoteText, escape]
  by_cases hb : b = mysql
  · subst hb
    rw [if_pos rfl, Text.toList_enclose, String.toList_ofList]
    exact Scan.region?_of_leads (Scan.leads_double_escaped rfl (by decide) [] s.toList) h
  · have hescapes : b.quoting.escapes '\'' = false := by simp [quoting, hb]
    rw [if_neg hb]
    exact Scan.region?_enclose hescapes s h

lemma inline_text (b : Builtin) (s : String) :
    b.dialect.inline (.text s) = quoteText (b.escape s) := by
  have hlead : b.lead (.text s) = "" := rfl
  rw [inline_of_payload (v := .text s) rfl, hlead, String.empty_append]

lemma quoteText_of_not_mem {s : String} (h : '\'' ∉ s.toList) : quoteText s = "'" ++ s ++ "'" := by
  rw [← String.toList_inj, quoteText, Text.toList_enclose, Text.double_of_not_mem h]
  simp

lemma inline_blob (b : Builtin) (bytes : ByteArray) :
    b.dialect.inline (.blob bytes) =
      (if b = postgres then "'\\x" else "X'") ++ Hex.encode bytes ++ "'" := by
  have hdigits : '\'' ∉ (Hex.encode bytes).toList := Hex.not_mem_encode (by decide) bytes
  have hstandard : "X" ++ quoteText (Hex.encode bytes) = "X'" ++ Hex.encode bytes ++ "'" := by
    rw [quoteText_of_not_mem hdigits, ← String.append_assoc, ← String.append_assoc]
    rfl
  have hescaped : quoteText ("\\x" ++ Hex.encode bytes) = "'\\x" ++ Hex.encode bytes ++ "'" := by
    have hpayload : '\'' ∉ ("\\x" ++ Hex.encode bytes).toList := by
      rw [String.toList_append, List.mem_append]
      exact not_or.mpr ⟨by decide, hdigits⟩
    rw [quoteText_of_not_mem hpayload, ← String.append_assoc]
    rfl
  cases b with
  | postgres => exact hescaped
  | _ => exact hstandard

/-- Bytes are told from their inline form, whichever dialects wrote it. -/
lemma eq_of_inline_blob_eq {b c : Builtin} {x y : ByteArray}
    (h : b.dialect.inline (.blob x) = c.dialect.inline (.blob y)) : x = y := by
  rw [inline_blob, inline_blob, ← String.toList_inj] at h
  simp only [String.toList_append] at h
  have hdigits : (Hex.encode x).toList = (Hex.encode y).toList := by
    by_cases hb : b = postgres
    · by_cases hc : c = postgres
      · simpa [hb, hc] using h
      · simp [hb, hc] at h
    · by_cases hc : c = postgres
      · simp [hb, hc] at h
      · simpa [hb, hc] using h
  exact Hex.encode_injective (String.toList_inj.mp hdigits)

/-- **Texts and bytes are read back.** A reader who knows the escapes of the dialect takes a text
off its inline form as it was, whatever follows but another apostrophe. Bytes are written with two
digits each, from which they can be read again, and no two of them have the same inline form. -/
theorem inline_read_back (b : Builtin) :
    (∀ (s : String) (r : List Char), r.head? ≠ some '\'' →
      b.quoting.region? '\'' ((b.dialect.inline (.text s)).toList ++ r) = some (s.toList, r)) ∧
    (∀ bytes : ByteArray, (Hex.encode bytes).length = 2 * bytes.size ∧
      (∀ c ∈ (Hex.encode bytes).toList, c ∈ "0123456789ABCDEF".toList) ∧
      Hex.decode? (Hex.encode bytes) = some bytes ∧
      b.dialect.inline (.blob bytes) =
        (if b = postgres then "'\\x" else "X'") ++ Hex.encode bytes ++ "'") ∧
    ∀ (c : Builtin) (x y : ByteArray), x ≠ y →
      b.dialect.inline (.blob x) ≠ c.dialect.inline (.blob y) := by
  refine ⟨fun s r hr => ?_, fun bytes => ?_, fun c x y hne h => ?_⟩
  · rw [inline_text]
    exact b.region?_quoteText s hr
  · exact ⟨Hex.length_encode bytes, fun c => Hex.mem_digits_of_mem_encode,
      Hex.decode?_encode bytes, b.inline_blob bytes⟩
  · exact hne (eq_of_inline_blob_eq h)

/-- A text with quotes and backslashes in a row that ends in a backslash, where a backslash is an
escape and where it is not, and bytes in two orders. -/
theorem inline_read_back_backslashes :
    let s := "\\'\\n''\\"
    mysql.quoting.region? '\'' ((mysql.dialect.inline (.text s)).toList ++ ")".toList) =
        some (s.toList, ")".toList) ∧
      sqlite.quoting.region? '\'' ((sqlite.dialect.inline (.text s)).toList ++ []) =
        some (s.toList, []) ∧
      mysql.dialect.inline (.blob ⟨#[10, 255]⟩) ≠ sqlite.dialect.inline (.blob ⟨#[255, 10]⟩) := by
  intro s
  obtain ⟨hmysql, -, hbytes⟩ := inline_read_back mysql
  obtain ⟨hsqlite, -, -⟩ := inline_read_back sqlite
  exact ⟨hmysql s _ (by decide), hsqlite s _ (by decide), hbytes sqlite _ _ (by decide)⟩

end Builtin

end SqlTree
