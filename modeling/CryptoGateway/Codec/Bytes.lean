import Mathlib.Algebra.Order.Ring.Nat
import Mathlib.Data.List.Induction

/-!
Numbers and texts as bytes: big-endian words, UTF-8, and fields that carry their length.
-/
namespace Bytes

section BigEndian

/-- A number in so many bytes, the most significant first. Higher digits are cut off. -/
def bigEndian : Nat → Nat → List UInt8
  | 0, _ => []
  | width + 1, n => bigEndian width (n / 256) ++ [UInt8.ofNat n]

/-- The number that bytes stand for, the most significant first. -/
def value (bytes : List UInt8) : Nat := bytes.foldl (fun n byte => n * 256 + byte.toNat) 0

@[simp] theorem length_bigEndian (width n : Nat) : (bigEndian width n).length = width := by
  induction width generalizing n with
  | zero => rfl
  | succ width ih => simp [bigEndian, ih]

theorem value_concat (bytes : List UInt8) (byte : UInt8) :
    value (bytes ++ [byte]) = value bytes * 256 + byte.toNat := by simp [value]

theorem value_bigEndian (width n : Nat) : value (bigEndian width n) = n % 256 ^ width := by
  induction width generalizing n with
  | zero => simp [bigEndian, value, Nat.mod_one]
  | succ width ih =>
    have byte : (UInt8.ofNat n).toNat = n % 256 := UInt8.toNat_ofNat'
    rw [bigEndian, value_concat, ih, byte, Nat.pow_succ 256 width, Nat.mul_comm (256 ^ width),
      Nat.mod_mul]
    omega

theorem value_bigEndian_of_lt {width n : Nat} (fits : n < 256 ^ width) :
    value (bigEndian width n) = n := by rw [value_bigEndian, Nat.mod_eq_of_lt fits]

theorem bigEndian_injOn {width a b : Nat} (fitsA : a < 256 ^ width) (fitsB : b < 256 ^ width)
    (same : bigEndian width a = bigEndian width b) : a = b := by
  rw [← value_bigEndian_of_lt fitsA, ← value_bigEndian_of_lt fitsB, same]

end BigEndian

section Utf8

def utf8 (text : List Char) : List UInt8 := text.flatMap String.utf8EncodeChar

theorem utf8_injective : Function.Injective utf8 := by
  intro a b same
  have encoded : a.utf8Encode = b.utf8Encode := congrArg List.toByteArray same
  rw [← String.toByteArray_ofList, ← String.toByteArray_ofList, String.toByteArray_inj] at encoded
  simpa using congrArg String.toList encoded

theorem length_utf8 (text : List Char) : (utf8 text).length = (text.map Char.utf8Size).sum := by
  simp [utf8, List.length_flatMap, String.length_utf8EncodeChar]

theorem length_utf8_le (text : List Char) : (utf8 text).length ≤ 4 * text.length := by
  induction text with
  | nil => simp [utf8]
  | cons c rest ih =>
    have size := c.utf8Size_le_four
    rw [length_utf8] at ih ⊢
    simp only [List.map_cons, List.sum_cons, List.length_cons]
    omega

end Utf8

section Fields

/-- A field with its length in front, in four bytes; a longer field still says the greatest
    length. -/
def field (bytes : List UInt8) : List UInt8 :=
  bigEndian 4 (min bytes.length (2 ^ 32 - 1)) ++ bytes

def fields (list : List (List UInt8)) : List UInt8 := list.flatMap field

theorem field_append_inj {a b rest rest' : List UInt8} (shortA : a.length < 2 ^ 32)
    (shortB : b.length < 2 ^ 32) (same : field a ++ rest = field b ++ rest') :
    a = b ∧ rest = rest' := by
  simp only [field, List.append_assoc] at same
  obtain ⟨sizes, bodies⟩ := List.append_inj same (by simp)
  have size := bigEndian_injOn (by omega) (by omega) sizes
  exact List.append_inj bodies (by omega)

theorem flatMap_inj {form : List UInt8 → List UInt8} {short : List UInt8 → Prop}
    (some_ : ∀ f, form f ≠ [])
    (split : ∀ {f g rest rest'}, short f → short g → form f ++ rest = form g ++ rest' →
      f = g ∧ rest = rest') {a b : List (List UInt8)} (shortA : ∀ f ∈ a, short f)
    (shortB : ∀ f ∈ b, short f) (same : a.flatMap form = b.flatMap form) : a = b := by
  induction a generalizing b with
  | nil =>
    cases b with
    | nil => rfl
    | cons f rest => simp [some_] at same
  | cons f rest ih =>
    cases b with
    | nil => simp [some_] at same
    | cons g rest' =>
      rw [List.flatMap_cons, List.flatMap_cons] at same
      rw [List.forall_mem_cons] at shortA shortB
      obtain ⟨first, behind⟩ := split shortA.1 shortB.1 same
      rw [first, ih shortA.2 shortB.2 behind]

theorem fields_inj {a b : List (List UInt8)} (shortA : ∀ f ∈ a, f.length < 2 ^ 32)
    (shortB : ∀ f ∈ b, f.length < 2 ^ 32) (same : fields a = fields b) : a = b :=
  flatMap_inj (by simp [field, bigEndian]) field_append_inj shortA shortB same

/-- The same with the length in eight bytes. -/
def wideField (bytes : List UInt8) : List UInt8 := bigEndian 8 bytes.length ++ bytes

theorem wideField_append_inj {a b rest rest' : List UInt8} (shortA : a.length < 2 ^ 64)
    (shortB : b.length < 2 ^ 64) (same : wideField a ++ rest = wideField b ++ rest') :
    a = b ∧ rest = rest' := by
  simp only [wideField, List.append_assoc] at same
  obtain ⟨sizes, bodies⟩ := List.append_inj same (by simp)
  exact List.append_inj bodies (bigEndian_injOn (by omega) (by omega) sizes)

theorem wideFields_inj {a b : List (List UInt8)} (shortA : ∀ f ∈ a, f.length < 2 ^ 64)
    (shortB : ∀ f ∈ b, f.length < 2 ^ 64) (same : a.flatMap wideField = b.flatMap wideField) :
    a = b := flatMap_inj (by simp [wideField, bigEndian]) wideField_append_inj shortA shortB same

end Fields
end Bytes
