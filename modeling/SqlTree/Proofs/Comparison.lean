import SqlTree.Proofs.Holes
import SqlTree.Proofs.Rejections

/-!
One tree in the built-in dialects.

Postgres has every operator, and those of the others that it shares with them it mostly spells
alike. So it compiles whatever one of the others compiles, and where another finds a defect in a
tree, it finds the same one. Generic and sqlite have the same operators and part company over
marks and truth values only.
-/

namespace SqlTree

/-! ### One list of pieces in two dialects -/

/-- The other dialect writes names like this one, and the operators that this one has. -/
structure Dialect.Alike (d d' : Dialect) : Prop where
  quoteName : d.quoteName = d'.quoteName
  token : ∀ op t, d.token? op = some t → d'.token? op = some t

namespace Piece

variable {d d' : Dialect}

lemma text_congr (h : d.Alike d') (hmark : d.placeholder = d'.placeholder) {ps : List Piece}
    (hs : Supported d ps) (k : Nat) : text d k ps = text d' k ps := by
  induction ps generalizing k with
  | nil => rfl
  | cons p ps ih =>
    cases p with
    | raw s => rw [text, text, ih (supported_raw.mp hs)]
    | name s => rw [text, text, ih (supported_name.mp hs), h.quoteName]
    | op o =>
      obtain ⟨ho, hs⟩ := supported_op.mp hs
      obtain ⟨t, ht⟩ := Option.isSome_iff_exists.mp ho
      rw [text, text, ih hs, ht, h.token o t ht]
    | hole v signed => rw [text, text, ih (supported_hole.mp hs), hmark]

lemma display_congr (h : d.Alike d') {ps : List Piece} (hs : Supported d ps)
    (hinline : ∀ v ∈ values ps, d.inline v = d'.inline v) : display d ps = display d' ps := by
  induction ps with
  | nil => rfl
  | cons p ps ih =>
    cases p with
    | raw s => rw [display, display, ih (supported_raw.mp hs) hinline]
    | name s => rw [display, display, ih (supported_name.mp hs) hinline, h.quoteName]
    | op o =>
      obtain ⟨ho, hs⟩ := supported_op.mp hs
      obtain ⟨t, ht⟩ := Option.isSome_iff_exists.mp ho
      rw [display, display, ih hs hinline, ht, h.token o t ht]
    | hole v signed =>
      rw [values, List.forall_mem_cons] at hinline
      rw [display, display, ih (supported_hole.mp hs) hinline.2, hinline.1]

end Piece

namespace Root

variable {d d' : Dialect} {root : Root} {q : Query}

lemma toQuery_of_within (h : d.Within d') (hq : root.toQuery d = .ok q) :
    root.toQuery d' = .ok (root.query d') :=
  toQuery_of_sound (faults_of_within h (faults_of_toQuery hq))

end Root

/-! ### The built-in dialects -/

namespace Dialect

lemma token?_postgres_ne_none (op : BinaryOp) : postgres.token? op ≠ none := by
  cases op <;> simp [postgres, BinaryOp.standardToken?]

lemma within_postgres (d : Dialect) : d.Within postgres :=
  fun op h => absurd h (token?_postgres_ne_none op)

/-- Sqlite and generic have the standard operators, and postgres spells them so too. -/
lemma token?_postgres_of_standard {op : BinaryOp} {t : String}
    (h : op.standardToken? = some t) : postgres.token? op = some t := by
  cases op <;> simp_all [postgres, BinaryOp.standardToken?]

lemma alike_sqlite_postgres : sqlite.Alike postgres :=
  ⟨rfl, fun _ _ => token?_postgres_of_standard⟩

lemma inline_sqlite_eq_postgres {v : Value} (hbool : ∀ b, v ≠ .bool b)
    (hblob : ∀ bytes, v ≠ .blob bytes) : sqlite.inline v = postgres.inline v := by
  cases v with
  | bool b => exact absurd rfl (hbool b)
  | blob bytes => exact absurd rfl (hblob bytes)
  | _ => rfl

end Dialect

namespace Root

open Dialect (generic postgres mysql sqlite)

variable {root : Root} {q : Query}

/-- Sqlite and postgres differ in how they show truth values and blobs. -/
lemma postgres_of_sqlite (h : root.toQuery sqlite = .ok q) :
    ∃ p, root.toQuery postgres = .ok p ∧ p.text = q.text ∧ p.params = q.params ∧
      ((∀ v ∈ root.literals, (∀ b, v ≠ .bool b) ∧ ∀ bytes, v ≠ .blob bytes) →
        p.display = q.display) := by
  have hs := supported_pieces (faults_of_toQuery h)
  obtain rfl := eq_query_of_toQuery h
  refine ⟨_, toQuery_of_within sqlite.within_postgres h, ?_, rfl, fun hplain => ?_⟩
  · exact (Piece.text_congr Dialect.alike_sqlite_postgres rfl hs 0).symm
  · refine (Piece.display_congr Dialect.alike_sqlite_postgres hs fun v hv => ?_).symm
    rw [values_pieces] at hv
    exact Dialect.inline_sqlite_eq_postgres (hplain v hv).1 (hplain v hv).2

/-- Generic is postgres with another mark, but for the operators that it lacks. -/
lemma text_generic {p : Query} (h : root.toQuery generic = .ok p) :
    ∃ r, root.toQuery { postgres with placeholder := .unnumbered "?" } = .ok r ∧
      p.text = r.text := by
  have hs := supported_pieces (faults_of_toQuery h)
  have hwithin : generic.Within { postgres with placeholder := .unnumbered "?" } :=
    generic.within_postgres
  have halike : generic.Alike { postgres with placeholder := .unnumbered "?" } :=
    ⟨rfl, fun _ _ => Dialect.token?_postgres_of_standard⟩
  obtain rfl := eq_query_of_toQuery h
  exact ⟨_, toQuery_of_within hwithin h, Piece.text_congr halike rfl hs 0⟩

/-- Sqlite and generic fail alike, each under its own name. -/
lemma generic_of_sqlite_error {f : Fault} (h : root.toQuery sqlite = .error f) :
    root.toQuery generic = .error (f.renamed generic.name) := by
  have htoken : sqlite.token? = generic.token? := rfl
  have hfaults := faults_renamed htoken root
  refine toQuery_of_fault ?_
  rw [← hfaults, List.head?_map, head?_faults_of_toQuery h]
  rfl

/-- **How the built-in dialects are related.** Postgres rejects no operator. It compiles what
sqlite compiles to the same text and parameters, and to the same display where the two show
values alike. Generic compiles what sqlite compiles, with the same parameters, to the text that
postgres would have with its marks, and fails as sqlite does. What mysql compiles has the same
parameters in postgres. A defect that any of them reports, postgres reports. -/
theorem outcomes_of_builtins (root : Root) :
    (∀ op name, root.toQuery postgres ≠ .error (.unsupported op name)) ∧
    (∀ q, root.toQuery sqlite = .ok q →
      ∃ p, root.toQuery postgres = .ok p ∧ p.text = q.text ∧ p.params = q.params ∧
        ((∀ v ∈ root.literals, (∀ b, v ≠ .bool b) ∧ ∀ bytes, v ≠ .blob bytes) →
          p.display = q.display)) ∧
    (((∃ p, root.toQuery generic = .ok p) ↔ ∃ q, root.toQuery sqlite = .ok q) ∧
      (∀ p q, root.toQuery generic = .ok p → root.toQuery sqlite = .ok q →
        p.params = q.params ∧
          ∃ r, root.toQuery { postgres with placeholder := .unnumbered "?" } = .ok r ∧
            p.text = r.text) ∧
      ∀ f, root.toQuery sqlite = .error f →
        root.toQuery generic = .error (f.renamed generic.name)) ∧
    (∀ q, root.toQuery mysql = .ok q →
      ∃ p, root.toQuery postgres = .ok p ∧ p.params = q.params) ∧
    ∀ (b : Builtin) (defect : Defect), root.toQuery b.dialect = .error (.malformed defect) →
      root.toQuery postgres = .error (.malformed defect) := by
  refine ⟨?_, fun q h => postgres_of_sqlite h, ⟨?_, ?_, ?_⟩, ?_, ?_⟩
  · intro op name h
    have hmem := List.mem_of_mem_head? (head?_faults_of_toQuery h)
    exact Dialect.token?_postgres_ne_none op (unsupported_mem_faults hmem).1
  · have hgeneric : generic.Within sqlite := fun _ h => h
    have hsqlite : sqlite.Within generic := fun _ h => h
    exact ⟨fun ⟨p, h⟩ => ⟨_, toQuery_of_within hgeneric h⟩,
      fun ⟨q, h⟩ => ⟨_, toQuery_of_within hsqlite h⟩⟩
  · intro p q hp hq
    refine ⟨?_, text_generic hp⟩
    rw [eq_query_of_toQuery hp, eq_query_of_toQuery hq]
    rfl
  · exact fun f h => generic_of_sqlite_error h
  · intro q h
    refine ⟨_, toQuery_of_within mysql.within_postgres h, ?_⟩
    rw [eq_query_of_toQuery h]
    rfl
  · intro b defect h
    exact toQuery_of_fault
      (malformed_of_within b.dialect.within_postgres (head?_faults_of_toQuery h))

end Root

end SqlTree
