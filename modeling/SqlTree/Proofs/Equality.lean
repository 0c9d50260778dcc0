import Mathlib.Data.List.Forall2
import Mathlib.Tactic.Tauto
import SqlTree.Proofs.Independence
import SqlTree.Tree.Equality

/-!
What it means that two trees are equal, and what equal trees have in common.

Equality of trees rests on equality of values, which is no equivalence: a NaN is not equal to
itself, and two zeros are equal that are printed in different ways. To settle a value is to take
the sign from a zero. Then two values are equal if they settle to the same one and are no NaN,
and what is so of values is so of trees, wherever a literal stands in them. Settling is a
relabelling of values, so all that is known of trees that differ in their values holds here too.
-/

namespace SqlTree

/-! ### Values -/

namespace Binary64

variable {x y : Binary64}

/-- One zero for the two. -/
def settle (x : Binary64) : Binary64 := if x.isZero then ⟨0⟩ else x

lemma settle_of_isZero (h : x.isZero = true) : x.settle = ⟨0⟩ := by
  simp [settle, h]

lemma settle_of_not_isZero (h : x.isZero = false) : x.settle = x := by
  simp [settle, h]

@[simp] lemma isZero_settle (x : Binary64) : x.settle.isZero = x.isZero := by
  cases hx : x.isZero with
  | true => rw [settle_of_isZero hx]; rfl
  | false => rw [settle_of_not_isZero hx, hx]

lemma isNaN_of_isZero (h : x.isZero = true) : x.isNaN = false := by
  simp only [isZero, Bool.and_eq_true, beq_iff_eq] at h
  simp [isNaN, h]

@[simp] lemma isNaN_settle (x : Binary64) : x.settle.isNaN = x.isNaN := by
  cases hx : x.isZero with
  | true => rw [isNaN_of_isZero hx, isNaN_of_isZero (by rw [isZero_settle, hx])]
  | false => rw [settle_of_not_isZero hx]

@[simp] lemma settle_settle (x : Binary64) : x.settle.settle = x.settle := by
  cases hx : x.isZero with
  | true => rw [settle_of_isZero hx]; rfl
  | false => rw [settle_of_not_isZero hx, settle_of_not_isZero hx]

/-- But for its sign, a zero has no bits. -/
lemma toNat_bits_of_isZero (h : x.isZero = true) :
    x.bits.toNat = if x.negative then Nat.pow 2 63 else 0 := by
  have hlt := x.bits.toNat_lt
  simp only [isZero, exponentField, fractionField, Bool.and_eq_true, beq_iff_eq, Nat.pow_eq] at h
  simp only [negative, decide_eq_true_eq, Nat.pow_eq]
  split <;> omega

lemma eq_of_isZero (hx : x.isZero = true) (hy : y.isZero = true)
    (hsign : x.negative = y.negative) : x = y := by
  have h : x.bits = y.bits := by
    rw [← UInt64.toNat_inj, toNat_bits_of_isZero hx, toNat_bits_of_isZero hy, hsign]
  exact congrArg Binary64.mk h

/-- Numbers that settle to the same one differ in the sign of a zero if they differ at all. -/
lemma eq_or_of_settle_eq (h : x.settle = y.settle) :
    x = y ∨ x.isZero = true ∧ y.isZero = true ∧ x.negative ≠ y.negative := by
  have hzero : x.isZero = y.isZero := by rw [← isZero_settle, h, isZero_settle]
  cases hx : x.isZero with
  | true =>
    have hy : y.isZero = true := hzero ▸ hx
    by_cases hsign : x.negative = y.negative
    · exact .inl (eq_of_isZero hx hy hsign)
    · exact .inr ⟨rfl, hy, hsign⟩
  | false =>
    rw [settle_of_not_isZero hx, settle_of_not_isZero (hzero ▸ hx)] at h
    exact .inl h

lemma beq_iff : (x == y) = true ↔ x.settle = y.settle ∧ x.isNaN = false := by
  have hbits : (x.bits == y.bits) = true ↔ x = y := by
    rw [beq_iff_eq]
    exact ⟨congrArg Binary64.mk, congrArg bits⟩
  rw [beq_def, Bool.or_eq_true, Bool.and_eq_true, Bool.and_eq_true, hbits, Bool.not_eq_true']
  constructor
  · rintro (⟨rfl, hnan⟩ | ⟨hx, hy⟩)
    · exact ⟨rfl, hnan⟩
    · exact ⟨(settle_of_isZero hx).trans (settle_of_isZero hy).symm, isNaN_of_isZero hx⟩
  · rintro ⟨h, hnan⟩
    obtain rfl | ⟨hx, hy, -⟩ := eq_or_of_settle_eq h
    · exact .inl ⟨rfl, hnan⟩
    · exact .inr ⟨hx, hy⟩

end Binary64

namespace Value

variable {v w : Value}

def isNaN : Value → Bool
  | .float x => x.isNaN
  | _ => false

def settle : Value → Value
  | .float x => .float x.settle
  | v => v

/-- Zeros that differ in their signs. -/
def OppositeZeros (v w : Value) : Prop :=
  ∃ x y, v = .float x ∧ w = .float y ∧ x.isZero = true ∧ y.isZero = true ∧
    x.negative ≠ y.negative

@[simp] lemma isNaN_settle (v : Value) : v.settle.isNaN = v.isNaN := by
  cases v <;> simp [settle, isNaN]

@[simp] lemma settle_settle (v : Value) : v.settle.settle = v.settle := by
  cases v <;> simp [settle]

/-- Values are equal if they settle to the same one, which is no NaN. -/
lemma beq_iff : (v == w) = true ↔ v.settle = w.settle ∧ v.isNaN = false := by
  have hblob : ∀ a b : ByteArray, (a == b) = true ↔ a = b := by
    intro a b
    rw [ByteArray.ext_iff]
    exact beq_iff_eq (a := a.data)
  change v.equal w = true ↔ _
  cases v <;> cases w <;> simp [equal, settle, isNaN, hblob, Binary64.beq_iff]

/-- The sign of a zero is all that equality does not see. -/
lemma eq_or_oppositeZeros (h : (v == w) = true) : v = w ∨ OppositeZeros v w := by
  obtain ⟨hsettle, -⟩ := beq_iff.mp h
  cases v with
  | float x =>
    cases w with
    | float y =>
      obtain rfl | ⟨hx, hy, hsign⟩ := Binary64.eq_or_of_settle_eq (Value.float.inj hsettle)
      · exact .inl rfl
      · exact .inr ⟨x, y, rfl, rfl, hx, hy, hsign⟩
    | _ => cases hsettle
  | _ => cases w <;> first | exact .inl hsettle | cases hsettle

/-- Values are equal if they are the same one, which is no NaN, or the two zeros. -/
lemma beq_iff_eq_or_oppositeZeros :
    (v == w) = true ↔ v = w ∧ v.isNaN = false ∨ OppositeZeros v w := by
  constructor
  · intro h
    rcases eq_or_oppositeZeros h with heq | hzeros
    · exact .inl ⟨heq, (beq_iff.mp h).2⟩
    · exact .inr hzeros
  · rintro (⟨rfl, hnan⟩ | ⟨x, y, rfl, rfl, hx, hy, -⟩)
    · exact beq_iff.mpr ⟨rfl, hnan⟩
    · refine beq_iff.mpr ⟨?_, Binary64.isNaN_of_isZero hx⟩
      rw [settle, settle, Binary64.settle_of_isZero hx, Binary64.settle_of_isZero hy]

variable {vs ws : List Value}

lemma forall₂_beq_iff : List.Forall₂ (fun v w => (v == w) = true) vs ws ↔
    vs.map settle = ws.map settle ∧ ∀ v ∈ vs, v.isNaN = false := by
  induction vs generalizing ws with
  | nil => cases ws <;> simp
  | cons v vs ih =>
    cases ws with
    | nil => simp
    | cons w ws =>
      rw [List.forall₂_cons, ih, beq_iff, List.map_cons, List.map_cons, List.cons.injEq,
        List.forall_mem_cons, and_and_and_comm]

lemma eq_or_exists_oppositeZeros (h : List.Forall₂ (fun v w => (v == w) = true) vs ws) :
    vs = ws ∨ ∃ pair ∈ vs.zip ws, OppositeZeros pair.1 pair.2 := by
  induction h with
  | nil => exact .inl rfl
  | @cons v w vs ws hvw _ ih =>
    rcases eq_or_oppositeZeros hvw with rfl | hzeros
    · rcases ih with rfl | ⟨pair, hmem, hzeros⟩
      · exact .inl rfl
      · exact .inr ⟨pair, List.mem_cons_of_mem _ hmem, hzeros⟩
    · exact .inr ⟨(v, w), List.mem_cons_self, hzeros⟩

end Value

/-! ### Trees -/

/-- Every literal settled, and the names as they were. -/
abbrev Relabel.settle : Relabel := .values Value.settle

lemma Expr.relabelItems_values (f : Value → Value) (es : List Expr) :
    Expr.relabelItems (.values f) es = Expr.relabelAll (.values f) es := by
  induction es with
  | nil => rw [relabelItems, relabelAll]
  | cons e es ih => rw [relabelItems, relabelAll, ih, Relabel.listed_values]

mutual

/-- Expressions are equal if they settle to the same one and there is no NaN in them. -/
theorem Expr.equal_iff : ∀ e e' : Expr, e.equal e' = true ↔
    e.relabel .settle = e'.relabel .settle ∧ ∀ v ∈ e.literals, v.isNaN = false
  | .column c, e' => by cases e' <;> simp [Expr.equal, Expr.relabel, Expr.literals]
  | .literal v, e' => by
    cases e' <;> simp [Expr.equal, Expr.relabel, Expr.literals, Relabel.values, Value.beq_iff]
  | .wildcard table?, e' => by cases e' <;> simp [Expr.equal, Expr.relabel, Expr.literals]
  | .binary op l r, e' => by
    cases e' with
    | binary op' l' r' =>
      simp only [Expr.equal, Expr.relabel, Expr.literals, Bool.and_eq_true, beq_iff_eq,
        Expr.equal_iff l, Expr.equal_iff r, List.forall_mem_append, Expr.binary.injEq]
      tauto
    | _ => simp [Expr.equal, Expr.relabel]
  | .unary op e, e' => by
    cases e' <;> simp [Expr.equal, Expr.relabel, Expr.literals, Expr.equal_iff e, and_assoc]
  | .call f args, e' => by
    cases e' <;>
      simp [Expr.equal, Expr.relabel, Expr.literals, Expr.equalAll_iff args, and_assoc]
  | .aliased e a, e' => by
    cases e' with
    | aliased x b =>
      simp only [Expr.equal, Expr.relabel, Expr.literals, Bool.and_eq_true, beq_iff_eq,
        Expr.equal_iff e, Relabel.name_values, Expr.aliased.injEq, and_right_comm]
    | _ => simp [Expr.equal, Expr.relabel]
  | .member e items negated, e' => by
    cases e' with
    | member x items' negated' =>
      simp only [Expr.equal, Expr.relabel, Expr.literals, Bool.and_eq_true, beq_iff_eq,
        Expr.equal_iff e, Expr.equalAll_iff items, List.forall_mem_append, Expr.member.injEq]
      tauto
    | _ => simp [Expr.equal, Expr.relabel]
  | .subquery s, e' => by
    cases e' <;> simp [Expr.equal, Expr.relabel, Expr.literals, Select.equal_iff s]

theorem Expr.equalAll_iff : ∀ es es' : List Expr, Expr.equalAll es es' = true ↔
    Expr.relabelAll .settle es = Expr.relabelAll .settle es' ∧
      ∀ v ∈ Expr.literalsAll es, v.isNaN = false
  | [], es' => by cases es' <;> simp [Expr.equalAll, Expr.relabelAll, Expr.literalsAll]
  | e :: es, es' => by
    cases es' with
    | nil => simp [Expr.equalAll, Expr.relabelAll]
    | cons e' es' =>
      simp only [Expr.equalAll, Expr.relabelAll, Expr.literalsAll, Bool.and_eq_true,
        Expr.equal_iff e, Expr.equalAll_iff es, List.forall_mem_append, List.cons.injEq]
      tauto

theorem Expr.equalOption_iff : ∀ e? e'? : Option Expr, Expr.equalOption e? e'? = true ↔
    Expr.relabelOption .settle e? = Expr.relabelOption .settle e'? ∧
      ∀ v ∈ Expr.literalsOption e?, v.isNaN = false
  | none, e'? => by
    cases e'? <;> simp [Expr.equalOption, Expr.relabelOption, Expr.literalsOption]
  | some e, e'? => by
    cases e'? <;>
      simp [Expr.equalOption, Expr.relabelOption, Expr.literalsOption, Expr.equal_iff e]

theorem Select.equal_iff : ∀ s s' : Select, s.equal s' = true ↔
    s.relabel .settle = s'.relabel .settle ∧ ∀ v ∈ s.literals, v.isNaN = false
  | ⟨distinct, items, source?, filter?, groups, having?, orders, limit?, offset?⟩, s' => by
    obtain ⟨distinct', items', source'?, filter'?, groups', having'?, orders', limit'?,
      offset'?⟩ := s'
    simp only [Select.equal, Select.relabel, Select.literals, Bool.and_eq_true, beq_iff_eq,
      Expr.relabelItems_values, Expr.equalAll_iff items, Source.equalOption_iff source?,
      Expr.equalOption_iff filter?, Expr.equalAll_iff groups, Expr.equalOption_iff having?,
      OrderItem.equalAll_iff orders, List.forall_mem_append, Select.mk.injEq]
    tauto

theorem Source.equal_iff : ∀ x x' : Source, x.equal x' = true ↔
    x.relabel .settle = x'.relabel .settle ∧ ∀ v ∈ x.literals, v.isNaN = false
  | .table t, x' => by cases x' <;> simp [Source.equal, Source.relabel, Source.literals]
  | .subquery s a, x' => by
    cases x' with
    | table t => simp [Source.equal, Source.relabel]
    | subquery s' a' =>
      simp only [Source.equal, Source.relabel, Source.literals, Bool.and_eq_true, beq_iff_eq,
        Select.equal_iff s, Relabel.name_values, Source.subquery.injEq, and_right_comm]

theorem Source.equalOption_iff : ∀ x? x'? : Option Source, Source.equalOption x? x'? = true ↔
    Source.relabelOption .settle x? = Source.relabelOption .settle x'? ∧
      ∀ v ∈ Source.literalsOption x?, v.isNaN = false
  | none, x'? => by
    cases x'? <;> simp [Source.equalOption, Source.relabelOption, Source.literalsOption]
  | some x, x'? => by
    cases x'? <;>
      simp [Source.equalOption, Source.relabelOption, Source.literalsOption, Source.equal_iff x]

theorem OrderItem.equalAll_iff : ∀ os os' : List OrderItem, OrderItem.equalAll os os' = true ↔
    OrderItem.relabelAll .settle os = OrderItem.relabelAll .settle os' ∧
      ∀ v ∈ OrderItem.literalsAll os, v.isNaN = false
  | [], os' => by
    rcases os' with _ | ⟨⟨e', direction'?⟩, os'⟩ <;>
      simp [OrderItem.equalAll, OrderItem.relabelAll, OrderItem.literalsAll]
  | ⟨e, direction?⟩ :: os, os' => by
    rcases os' with _ | ⟨⟨e', direction'?⟩, os'⟩
    · simp [OrderItem.equalAll, OrderItem.relabelAll]
    · simp only [OrderItem.equalAll, OrderItem.equal, OrderItem.relabelAll, OrderItem.literalsAll,
        Bool.and_eq_true, beq_iff_eq, Expr.equal_iff e, OrderItem.equalAll_iff os,
        List.forall_mem_append, List.cons.injEq, OrderItem.mk.injEq]
      tauto

end

namespace Root

/-- Roots are equal if they are of one kind and equal as expressions or as statements. -/
def equal : Root → Root → Bool
  | .expr e, .expr e' => e == e'
  | .select s, .select s' => s == s'
  | _, _ => false

instance : BEq Root := ⟨equal⟩

variable {a b : Root}

lemma beq_iff : (a == b) = true ↔
    a.relabel .settle = b.relabel .settle ∧ ∀ v ∈ a.literals, v.isNaN = false := by
  change a.equal b = true ↔ _
  cases a <;> cases b <;> simp only [equal, relabel, literals, reduceCtorEq, false_and,
    Bool.false_eq_true, Root.expr.injEq, Root.select.injEq]
  · exact Expr.equal_iff _ _
  · exact Select.equal_iff _ _

end Root

/-! ### Compilation -/

namespace Piece

lemma flatMap_values (f : Value → Value) (ps : List Piece) :
    (ps.flatMap fun p => (values [p]).map f) = (values ps).map f := by
  induction ps with
  | nil => rfl
  | cons p ps ih => cases p <;> simp [values, ih]

/-- Pieces are their blanks with values in them. -/
lemma eq_of_blank_eq {ps qs : List Piece}
    (hblank : (ps.flatMap fun p => [p.blank]) = qs.flatMap fun p => [p.blank])
    (hvalues : values ps = values qs) : ps = qs := by
  induction ps generalizing qs with
  | nil => cases qs <;> simp_all
  | cons p ps ih =>
    cases qs with
    | nil => simp at hblank
    | cons q qs =>
      obtain ⟨hp, hps⟩ := List.cons.inj hblank
      have h : p = q ∧ values ps = values qs := by
        cases p <;> cases q <;> simp_all [blank, values]
      rw [h.1, ih hps h.2]

end Piece

namespace Root

variable {a b c : Root}

lemma settle_literals_of_settle_eq (h : a.relabel .settle = b.relabel .settle) :
    a.literals.map Value.settle = b.literals.map Value.settle := by
  have hread := read_of_relabel_eq (F := fun p => (Piece.values [p]).map Value.settle)
    (Relabel.unseen_values _ fun v _ => by simp [Piece.values]) h
  rwa [Piece.flatMap_values, Piece.flatMap_values, values_pieces, values_pieces] at hread

lemma forall₂_literals (h : (a == b) = true) :
    List.Forall₂ (fun v w => (v == w) = true) a.literals b.literals := by
  obtain ⟨hsettle, hnan⟩ := beq_iff.mp h
  exact Value.forall₂_beq_iff.mpr ⟨settle_literals_of_settle_eq hsettle, hnan⟩

lemma beq_symm (h : (a == b) = true) : (b == a) = true := by
  obtain ⟨hsettle, hnan⟩ := beq_iff.mp h
  have hmap : ∀ vs : List Value, (∀ v ∈ vs, v.isNaN = false) ↔
      ∀ v ∈ vs.map Value.settle, v.isNaN = false := by simp
  refine beq_iff.mpr ⟨hsettle.symm, ?_⟩
  rwa [hmap, ← settle_literals_of_settle_eq hsettle, ← hmap]

lemma beq_trans (h : (a == b) = true) (h' : (b == c) = true) : (a == c) = true := by
  obtain ⟨hsettle, hnan⟩ := beq_iff.mp h
  obtain ⟨hsettle', -⟩ := beq_iff.mp h'
  exact beq_iff.mpr ⟨hsettle.trans hsettle', hnan⟩

/-- Trees that settle to the same one and have the same literals have the same pieces. -/
lemma query_eq_of_literals_eq (h : a.relabel .settle = b.relabel .settle)
    (hliterals : a.literals = b.literals) (d : Dialect) : a.query d = b.query d := by
  have hvalues : Piece.values a.pieces = Piece.values b.pieces := by
    rw [values_pieces, values_pieces, hliterals]
  have hpieces : a.pieces = b.pieces :=
    Piece.eq_of_blank_eq (blank_pieces_of_values_eq h) hvalues
  rw [query, query, hpieces]

/-- **Compilation respects equality.** Values are equal if they are the same and no NaN, or the two
zeros. On trees equality is symmetric and transitive, and a tree is equal to itself exactly if no
NaN is in it. Equal trees fail alike or have the same text and equal parameters; and the same
display too, unless a zero stands in one where a zero of the other sign stands in the other. -/
theorem compile_respects_equal :
    (∀ v w : Value, (v == w) = true ↔ v = w ∧ v.isNaN = false ∨ Value.OppositeZeros v w) ∧
      (∀ a b : Root, (a == b) = true → (b == a) = true) ∧
      (∀ a b c : Root, (a == b) = true → (b == c) = true → (a == c) = true) ∧
      (∀ a : Root, (a == a) = true ↔ ∀ v ∈ a.literals, v.isNaN = false) ∧
      ∀ (d : Dialect) (a b : Root), (a == b) = true →
        (∃ f, a.toQuery d = .error f ∧ b.toQuery d = .error f) ∨
          ∃ p q, a.toQuery d = .ok p ∧ b.toQuery d = .ok q ∧ p.text = q.text ∧
            List.Forall₂ (fun v w => (v == w) = true) p.params.toList q.params.toList ∧
            (p.display = q.display ∨
              ∃ pair ∈ a.literals.zip b.literals, Value.OppositeZeros pair.1 pair.2) := by
  refine ⟨fun v w => Value.beq_iff_eq_or_oppositeZeros, fun a b => beq_symm,
    fun a b c => beq_trans, fun a => ?_, fun d a b h => ?_⟩
  · rw [beq_iff, eq_self, true_and]
  · obtain ⟨hsettle, -⟩ := beq_iff.mp h
    have hliterals := forall₂_literals h
    rcases toQuery_of_faults_eq (faults_of_values_eq hsettle d) with hfault | ⟨ha, hb⟩
    · exact .inl hfault
    · refine .inr ⟨_, _, ha, hb, text_of_values_eq hsettle d, ?_, ?_⟩
      · simpa only [query, values_pieces] using hliterals
      · rcases Value.eq_or_exists_oppositeZeros hliterals with hsame | hzeros
        · exact .inl (by rw [query_eq_of_literals_eq hsettle hsame])
        · exact .inr hzeros

/-- A zero of either sign in a sub-select, behind a minus sign, and in the ordering. -/
theorem compile_respects_equal_zeros :
    let tree (zero : Binary64) : Root := .select
      { items := [.subquery { items := [.unary .neg (.literal (.float zero))] }]
        filter? := some (.member (.lit "a") [.literal (.float zero), .null] true)
        orders := [⟨.literal (.float zero), some .desc⟩] }
    let a := tree ⟨0⟩
    let b := tree ⟨0x8000000000000000⟩
    (a == b) = true ∧ (b == a) = true ∧ ∃ p q, a.toQuery .sqlite = .ok p ∧
      b.toQuery .sqlite = .ok q ∧ p.text = q.text ∧
      List.Forall₂ (fun v w => (v == w) = true) p.params.toList q.params.toList ∧
      p.display ≠ q.display := by
  intro tree a b
  have h : (a == b) = true := by decide
  obtain ⟨-, hsymm, -, -, hcompile⟩ := compile_respects_equal
  refine ⟨h, hsymm a b h, ?_⟩
  have ha : a.toQuery .sqlite = .ok (a.query .sqlite) := toQuery_of_sound (by decide)
  rcases hcompile .sqlite a b h with ⟨f, hf, -⟩ | ⟨p, q, hp, hq, htext, hparams, -⟩
  · rw [ha] at hf
    cases hf
  · refine ⟨p, q, hp, hq, htext, hparams, ?_⟩
    rw [eq_query_of_toQuery hp, eq_query_of_toQuery hq]
    decide

end Root

end SqlTree
