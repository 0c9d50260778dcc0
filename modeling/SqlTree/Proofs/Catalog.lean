import Mathlib.Data.List.Nodup
import SqlTree.Dialect.Builtin
import SqlTree.Function
import SqlTree.Proofs.Places
import SqlTree.Query.Compile
import SqlTree.Tree.Build

/-!
The catalog of functions, and functions declared by name.

The names in the catalog are written in capitals and differ from each other, so a name fits at
most one of them, and the one that it fits is the name in capitals. A function that is declared
under that name is the same function. Which of the two was called cannot be seen in a tree.
-/

namespace SqlTree

namespace Text

lemma map_toLower_eq_iff {s t : List Char} :
    s.map Char.toLower = t.map Char.toLower ↔ s.map Char.toUpper = t.map Char.toUpper := by
  induction s generalizing t with
  | nil => simp
  | cons c s ih => cases t <;> simp [toLower_eq_iff, ih]

/-- Texts that differ in the case of letters only are the same in capitals. -/
lemma sameIgnoringCase_iff_upper {s t : String} :
    sameIgnoringCase s t = true ↔ upper s = upper t := by
  rw [sameIgnoringCase_iff, map_toLower_eq_iff, ← String.toList_inj, toList_upper, toList_upper]

/-- Only letters of ASCII have capitals. -/
lemma mem_upper_of_not_ascii {s : String} {c : Char} (hc : c ∈ s.toList) (h : 128 ≤ c.toNat) :
    c ∈ (upper s).toList := by
  have hupper : c.toUpper = c := by
    rw [← Char.toNat_inj, toNat_toUpper, if_neg (by omega)]
  rw [toList_upper, List.mem_map]
  exact ⟨c, hc, hupper⟩

end Text

namespace SqlFunction

variable {f : SqlFunction} {n : String}

lemma upper_name (h : f ∈ catalog) : Text.upper f.name = f.name := by
  have hall : ∀ g ∈ catalog, Text.upper g.name = g.name := by decide
  exact hall f h

lemma ascii_name (h : f ∈ catalog) : ∀ c ∈ f.name.toList, c.toNat < 128 := by
  have hall : ∀ g ∈ catalog, g.name.toList.all (fun c => c.toNat < 128) = true := by decide
  simpa using hall f h

lemma nodup_names : (catalog.map name).Nodup := by decide

/-- A name fits an entry of the catalog if in capitals it is the name of the entry. -/
lemma fits_iff (h : f ∈ catalog) :
    Text.sameIgnoringCase f.name n = true ↔ f.name = Text.upper n := by
  rw [Text.sameIgnoringCase_iff_upper, upper_name h]

lemma eq_of_name_eq {g : SqlFunction} (h : f.name = g.name) : f = g :=
  congrArg SqlFunction.mk h

lemma lookup?_eq_some_iff : lookup? n = some f ↔ f ∈ catalog ∧ f.name = Text.upper n := by
  have hfound : ∀ {g}, lookup? n = some g → g ∈ catalog ∧ g.name = Text.upper n := by
    intro g hg
    have hmem : g ∈ catalog := List.mem_of_find?_eq_some hg
    have hfits : Text.sameIgnoringCase g.name n = true := by
      rw [lookup?] at hg
      simpa using List.find?_some hg
    exact ⟨hmem, (fits_iff hmem).mp hfits⟩
  refine ⟨hfound, fun ⟨hmem, hname⟩ => ?_⟩
  cases hl : lookup? n with
  | none =>
    have hmiss := List.find?_eq_none.mp hl f hmem
    exact absurd ((fits_iff hmem).mpr hname) hmiss
  | some g =>
    obtain ⟨-, hg⟩ := hfound hl
    rw [eq_of_name_eq (hname.trans hg.symm)]

/-- No other entry fits the name, and the entry stands in the catalog once. -/
lemma filter_of_lookup? (h : lookup? n = some f) :
    catalog.filter (fun g => Text.sameIgnoringCase g.name n) = [f] := by
  obtain ⟨hmem, hname⟩ := lookup?_eq_some_iff.mp h
  have hfits : ∀ g ∈ catalog, Text.sameIgnoringCase g.name n = (g == f) := by
    intro g hg
    rw [Bool.eq_iff_iff, fits_iff hg, beq_iff_eq]
    constructor
    · exact fun hgn => eq_of_name_eq (hgn.trans hname.symm)
    · rintro rfl
      exact hname
  rw [List.filter_congr hfits, List.filter_beq,
    List.count_eq_one_of_mem (nodup_names.of_map name) hmem]
  rfl

lemma lookup?_of_upper_eq {m : String} (h : Text.upper m = Text.upper n) :
    lookup? m = lookup? n := by
  ext f
  rw [lookup?_eq_some_iff, lookup?_eq_some_iff, h]

lemma lookup?_of_not_ascii {c : Char} (hc : c ∈ n.toList) (h : 128 ≤ c.toNat) :
    lookup? n = none := by
  rw [Option.eq_none_iff_forall_ne_some]
  intro f hf
  obtain ⟨hmem, hname⟩ := lookup?_eq_some_iff.mp hf
  have hascii : c.toNat < 128 := by
    apply ascii_name hmem
    rw [hname]
    exact Text.mem_upper_of_not_ascii hc h
  omega

/-- The catalog's function of a name is the one that is declared under the name in capitals. -/
lemma declare_of_lookup? (h : lookup? n = some f) : declare (Text.upper n) = f :=
  eq_of_name_eq (lookup?_eq_some_iff.mp h).2.symm

/-- **The catalog and declarations agree.** A name is found in the catalog if in capitals it is the
name of an entry; that entry is found, and no other fits. The case of letters makes no difference,
and no name is found that has a character outside of ASCII. Wherever in a tree the function that
was found is called, the call can be replaced by one of the function declared under the name in
capitals: it is the same tree, and it compiles alike in all dialects. -/
theorem lookup?_agrees_with_declare (n : String) :
    (∀ f, lookup? n = some f ↔ f ∈ catalog ∧ f.name = Text.upper n) ∧
    (∀ f, lookup? n = some f →
      catalog.filter (fun g => Text.sameIgnoringCase g.name n) = [f]) ∧
    (∀ m, Text.upper m = Text.upper n → lookup? m = lookup? n) ∧
    (∀ c ∈ n.toList, 128 ≤ c.toNat → lookup? n = none) ∧
    ∀ f args root, lookup? n = some f → ∀ x ∈ root.places, x.expr = f.call args →
      x.Fits Root.places root ∧
      x.around ((declare (Text.upper n)).call args) = root ∧
      ∀ d, compile d (x.around ((declare (Text.upper n)).call args)) = compile d root := by
  refine ⟨fun f => lookup?_eq_some_iff, fun f => filter_of_lookup?, fun m => lookup?_of_upper_eq,
    fun c => lookup?_of_not_ascii, fun f args root hf x hx hcall => ?_⟩
  have hfits : x.Fits Root.places root := root.fits_places x hx
  have hsame : x.around ((declare (Text.upper n)).call args) = root := by
    rw [declare_of_lookup? hf, ← hcall, hfits.eq]
  exact ⟨hfits, hsame, fun d => by rw [hsame]⟩

/-- A name in mixed case, and a call of its function in a sub-select that an ordering holds. -/
theorem lookup?_agrees_with_declare_nested :
    let args : List Expr := [.column { name := "a" }, .lit "none"]
    let tree : Expr → Root := fun e => .select
      { items := [.wildcard none]
        orders := [⟨.subquery { items := [.literal .null, .unary .neg e] }, some .desc⟩] }
    lookup? "cOaLesce" = some coalesce ∧
      catalog.filter (fun g => Text.sameIgnoringCase g.name "cOaLesce") = [coalesce] ∧
      lookup? "coaLESCE" = some coalesce ∧ lookup? "coaleſce" = none ∧
      tree ((declare "COALESCE").call args) = tree (coalesce.call args) ∧
      compile .sqlite (tree ((declare "COALESCE").call args)) =
        compile .sqlite (tree (coalesce.call args)) := by
  intro args tree
  obtain ⟨hfound, hothers, hcase, hascii, hcalls⟩ := lookup?_agrees_with_declare "cOaLesce"
  have hf : lookup? "cOaLesce" = some coalesce := (hfound coalesce).mpr (by decide)
  have hplace : (⟨coalesce.call args, tree⟩ : Place Root) ∈ (tree (coalesce.call args)).places := by
    simp [tree, Root.places, Select.places, OrderItem.placesAll, Expr.places, Expr.placesAll,
      SqlFunction.call, Place.inside, Place.top]
  obtain ⟨-, hsame, hcompile⟩ := hcalls coalesce args _ hf _ hplace rfl
  refine ⟨hf, hothers coalesce hf, (hcase "coaLESCE" (by decide)).trans hf, ?_, hsame,
    hcompile .sqlite⟩
  obtain ⟨-, -, -, hforeign, -⟩ := lookup?_agrees_with_declare "coaleſce"
  exact hforeign 'ſ' (by decide) (by decide)

end SqlFunction

end SqlTree
