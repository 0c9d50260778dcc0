/-!
Texts, apart from what SQL says in them: the case of letters, text between two marks, and bytes
written as digits.
-/

namespace SqlTree

namespace Text

/-! ### Letter case

Only the twenty-six letters of ASCII have two forms; every other character, an accented letter
included, is its own lower and upper form.
-/

def lower (s : String) : String := String.ofList (s.toList.map Char.toLower)

def upper (s : String) : String := String.ofList (s.toList.map Char.toUpper)

/-- Equality of texts that takes the two forms of an ASCII letter for one. -/
def sameIgnoringCase (s t : String) : Bool := lower s == lower t

@[simp] theorem toList_lower (s : String) : (lower s).toList = s.toList.map Char.toLower := by
  simp [lower]

@[simp] theorem toList_upper (s : String) : (upper s).toList = s.toList.map Char.toUpper := by
  simp [upper]

theorem sameIgnoringCase_iff {s t : String} :
    sameIgnoringCase s t = true ↔ s.toList.map Char.toLower = t.toList.map Char.toLower := by
  rw [sameIgnoringCase, beq_iff_eq, ← String.toList_inj, toList_lower, toList_lower]

/-- Capitals stand thirty-two places before the small letters. -/
theorem toNat_toUpper (c : Char) :
    c.toUpper.toNat = if 97 ≤ c.toNat ∧ c.toNat ≤ 122 then c.toNat - 32 else c.toNat := by
  have hrange : 'a'.val ≤ c.val ∧ c.val ≤ 'z'.val ↔ 97 ≤ c.toNat ∧ c.toNat ≤ 122 := by
    rw [UInt32.le_iff_toNat_le, UInt32.le_iff_toNat_le]
    exact Iff.rfl
  by_cases h : 97 ≤ c.toNat ∧ c.toNat ≤ 122
  · have hshift : (c.val + ('A'.val - 'a'.val)).toNat = (c.toNat + (2 ^ 32 - 32)) % 2 ^ 32 :=
      UInt32.toNat_add ..
    have hupper : c.toUpper = ⟨c.val + ('A'.val - 'a'.val), _⟩ := dif_pos (hrange.mpr h)
    rw [if_pos h, hupper]
    exact hshift.trans (by omega)
  · have hsame : c.toUpper = c := dif_neg (mt hrange.mp h)
    rw [if_neg h, hsame]

theorem toNat_toLower (c : Char) :
    c.toLower.toNat = if 65 ≤ c.toNat ∧ c.toNat ≤ 90 then c.toNat + 32 else c.toNat := by
  have hrange : c.val ≥ 'A'.val ∧ c.val ≤ 'Z'.val ↔ 65 ≤ c.toNat ∧ c.toNat ≤ 90 := by
    rw [ge_iff_le, UInt32.le_iff_toNat_le, UInt32.le_iff_toNat_le]
    exact Iff.rfl
  by_cases h : 65 ≤ c.toNat ∧ c.toNat ≤ 90
  · have hshift : (c.val + ('a'.val - 'A'.val)).toNat = (c.toNat + 32) % 2 ^ 32 :=
      UInt32.toNat_add ..
    have hlower : c.toLower = ⟨c.val + ('a'.val - 'A'.val), _⟩ := dif_pos (hrange.mpr h)
    rw [if_pos h, hlower]
    exact hshift.trans (by omega)
  · have hsame : c.toLower = c := dif_neg (mt hrange.mp h)
    rw [if_neg h, hsame]

/-- Two characters have one lower form if and only if they have one upper form. -/
theorem toLower_eq_iff {c d : Char} : c.toLower = d.toLower ↔ c.toUpper = d.toUpper := by
  rw [← Char.toNat_inj, ← Char.toNat_inj, toNat_toLower, toNat_toLower, toNat_toUpper,
    toNat_toUpper]
  split <;> split <;> split <;> split <;> omega

/-! ### Text between two marks

A mark inside the text is written twice, so that a mark standing alone can only be the closing
one. Identifiers and text literals are both written this way and differ in the mark alone.
-/

/-- Writes every `c` twice and all else once. -/
def double (c : Char) : List Char → List Char
  | [] => []
  | d :: r => if d = c then c :: c :: double c r else d :: double c r

/-- The text between two marks `q`, each `q` inside it doubled. -/
def enclose (q : Char) (s : String) : String :=
  String.ofList (q :: (double q s.toList ++ [q]))

@[simp] theorem double_nil (c : Char) : double c [] = [] := rfl

@[simp] theorem double_cons_self (c : Char) (r : List Char) :
    double c (c :: r) = c :: c :: double c r := by
  simp [double]

theorem double_cons_of_ne {c d : Char} (h : d ≠ c) (r : List Char) :
    double c (d :: r) = d :: double c r := by
  simp [double, h]

/-- Text without the character is left as it is. -/
theorem double_of_not_mem {c : Char} {s : List Char} (h : c ∉ s) : double c s = s := by
  induction s with
  | nil => rfl
  | cons d s ih =>
    simp only [List.mem_cons, not_or] at h
    rw [double_cons_of_ne (Ne.symm h.1), ih h.2]

@[simp] theorem toList_enclose (q : Char) (s : String) :
    (enclose q s).toList = q :: (double q s.toList ++ [q]) := by
  simp [enclose]

end Text

namespace Hex

/-! ### Bytes in base sixteen

Two digits a byte, the high one first. Writing uses capital letters; reading takes both cases.
-/

/-- The digit of a number below sixteen. -/
def digit (n : Nat) : Char :=
  if n < 10 then Char.ofNat (48 + n) else Char.ofNat (55 + n)

def ofByte (b : UInt8) : List Char := [digit (b.toNat / 16), digit (b.toNat % 16)]

def encode (bytes : ByteArray) : String := String.ofList (bytes.data.toList.flatMap ofByte)

/-- The number that a digit stands for. -/
def value? (c : Char) : Option Nat :=
  let n := c.toNat
  if 48 ≤ n ∧ n ≤ 57 then some (n - 48)
  else if 65 ≤ n ∧ n ≤ 70 then some (n - 55)
  else if 97 ≤ n ∧ n ≤ 102 then some (n - 87)
  else none

def readBytes? : List Char → Option (List UInt8)
  | [] => some []
  | [_] => none
  | h :: l :: r => do
    let hi ← value? h
    let lo ← value? l
    let rest ← readBytes? r
    return UInt8.ofNat (16 * hi + lo) :: rest

/-- The bytes that a text of digits names; `none` if a digit is missing or not one. -/
def decode? (s : String) : Option ByteArray :=
  (readBytes? s.toList).map fun bytes => ⟨bytes.toArray⟩

@[simp] theorem toList_encode (bytes : ByteArray) :
    (encode bytes).toList = bytes.data.toList.flatMap ofByte := by
  simp [encode]

theorem value?_digit {n : Nat} (h : n < 16) : value? (digit n) = some n := by
  have : ∀ n : Fin 16, value? (digit n) = some n.val := by decide
  exact this ⟨n, h⟩

@[simp] theorem ofByte_append (b : UInt8) (r : List Char) :
    ofByte b ++ r = digit (b.toNat / 16) :: digit (b.toNat % 16) :: r := rfl

/-- Two digits a byte. -/
theorem length_encode (bytes : ByteArray) : (encode bytes).length = 2 * bytes.size := by
  have hlist : ∀ bs : List UInt8, (bs.flatMap ofByte).length = 2 * bs.length := by
    intro bs
    induction bs with
    | nil => rfl
    | cons b bs ih =>
      rw [List.flatMap_cons, ofByte_append, List.length_cons, List.length_cons, List.length_cons]
      omega
  rw [encode, String.length_ofList, hlist, Array.length_toList]
  rfl

/-- Reading the digits of bytes gives the bytes. -/
theorem readBytes?_flatMap (bs : List UInt8) : readBytes? (bs.flatMap ofByte) = some bs := by
  induction bs with
  | nil => rfl
  | cons b bs ih =>
    have hlt : b.toNat < 256 := b.toNat_lt
    have hhigh : value? (digit (b.toNat / 16)) = some (b.toNat / 16) := value?_digit (by omega)
    have hlow : value? (digit (b.toNat % 16)) = some (b.toNat % 16) := value?_digit (by omega)
    have hbyte : 16 * (b.toNat / 16) + b.toNat % 16 = b.toNat := Nat.div_add_mod _ _
    rw [List.flatMap_cons, ofByte_append, readBytes?, hhigh, hlow, ih]
    change some (UInt8.ofNat (16 * (b.toNat / 16) + b.toNat % 16) :: bs) = some (b :: bs)
    rw [hbyte, UInt8.ofNat_toNat]

theorem decode?_encode (bytes : ByteArray) : decode? (encode bytes) = some bytes := by
  rw [decode?, toList_encode, readBytes?_flatMap]
  rfl

end Hex

end SqlTree
