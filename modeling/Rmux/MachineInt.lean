import Mathlib.Algebra.Group.Int.Defs
import Mathlib.Algebra.GroupWithZero.Nat
import Mathlib.Algebra.Order.Group.Nat

/-!
# Fixed-width arithmetic on naturals and integers

The values of an unsigned 32-bit type are naturals at most `u32Max`, those of a signed one integers
between `-2 ^ 31` and `2 ^ 31 - 1`. Truncated subtraction of naturals is the saturating one. Each
operation has one lemma that says when it is the exact one.
-/

namespace MachineInt

open List Nat

variable {a b : ℕ}

/-- The largest unsigned 16-bit value. -/
def u16Max : ℕ := 65535

/-- The largest unsigned 32-bit value. -/
def u32Max : ℕ := 4294967295

/-- The largest unsigned 64-bit value. -/
def u64Max : ℕ := 18446744073709551615

/-- The largest signed 64-bit value, which no slice in memory is longer than. -/
def isizeMax : ℕ := 9223372036854775807

/-- The largest signed 32-bit value. -/
def i32Max : ℕ := 2147483647

/-- Unsigned 32-bit addition, wrapping. -/
def wrapAdd (a b : ℕ) : ℕ := (a + b) % 2 ^ 32

/-- Unsigned 32-bit multiplication, wrapping. -/
def wrapMul (a b : ℕ) : ℕ := (a * b) % 2 ^ 32

/-- Unsigned 32-bit addition, saturating. -/
def satAdd (a b : ℕ) : ℕ := min (a + b) u32Max

/-- Unsigned 32-bit multiplication, saturating. -/
def satMul (a b : ℕ) : ℕ := min (a * b) u32Max

/-- An unsigned 32-bit value plus a signed one, saturating at both ends. -/
def satAddSigned (a : ℕ) (k : ℤ) : ℕ := min ((a : ℤ) + k).toNat u32Max

/-- Unsigned 64-bit addition, wrapping. -/
def wrapAdd64 (a b : ℕ) : ℕ := (a + b) % 2 ^ 64

/-- Unsigned 64-bit addition, saturating. -/
def satAdd64 (a b : ℕ) : ℕ := min (a + b) u64Max

/-- The wrapping sum of a list of unsigned 32-bit values. -/
def wrapSum : List ℕ → ℕ := List.foldl wrapAdd 0

/-- Signed 32-bit result of an exact integer, wrapping. -/
def wrapI32 (k : ℤ) : ℤ := (k + 2 ^ 31) % 2 ^ 32 - 2 ^ 31

/-- The signed value with the same 32 bits as an unsigned one. -/
def asI32 (a : ℕ) : ℤ := wrapI32 a

/-- Truncation of an unsigned 32-bit value to 16 bits, after capping it at `u16Max`. -/
def capU16 (a : ℕ) : UInt16 := UInt16.ofNat (min a u16Max)

/-! ## Exactness -/

theorem wrapAdd_eq (h : a + b ≤ u32Max) : wrapAdd a b = a + b :=
  mod_eq_of_lt (by unfold u32Max at h; omega)

theorem wrapMul_eq (h : a * b ≤ u32Max) : wrapMul a b = a * b :=
  mod_eq_of_lt (by unfold u32Max at h; omega)

theorem satAdd_eq (h : a + b ≤ u32Max) : satAdd a b = a + b := min_eq_left h

theorem satMul_eq (h : a * b ≤ u32Max) : satMul a b = a * b := min_eq_left h

theorem wrapAdd64_eq (h : a + b ≤ u64Max) : wrapAdd64 a b = a + b :=
  mod_eq_of_lt (by unfold u64Max at h; omega)

theorem satAdd64_eq (h : a + b ≤ u64Max) : satAdd64 a b = a + b := min_eq_left h

theorem satAddSigned_add {k : ℕ} (h : a + k ≤ u32Max) : satAddSigned a k = a + k := by
  unfold satAddSigned
  omega

theorem satAddSigned_sub (k : ℕ) (h : a ≤ u32Max) : satAddSigned a (-k) = a - k := by
  unfold satAddSigned
  omega

theorem wrapI32_eq {k : ℤ} (hlo : -2 ^ 31 ≤ k) (hhi : k < 2 ^ 31) : wrapI32 k = k := by
  unfold wrapI32
  omega

theorem asI32_eq (h : a ≤ i32Max) : asI32 a = a :=
  wrapI32_eq (by omega) (by unfold i32Max at h; omega)

/-! ## Range -/

theorem wrapAdd_le (a b : ℕ) : wrapAdd a b ≤ u32Max := by
  unfold wrapAdd u32Max
  omega

theorem satAdd_le (a b : ℕ) : satAdd a b ≤ u32Max := min_le_right _ _

theorem satAddSigned_le (a : ℕ) (k : ℤ) : satAddSigned a k ≤ u32Max := min_le_right _ _

theorem foldl_wrapAdd (l : List ℕ) (a : ℕ) (h : a + l.sum ≤ u32Max) :
    l.foldl wrapAdd a = a + l.sum := by
  induction l generalizing a with
  | nil => simp
  | cons b l ih =>
    simp only [sum_cons] at h
    rw [foldl_cons, wrapAdd_eq (by omega), ih _ (by omega), sum_cons, add_assoc]

/-- A wrapping sum whose exact value is in range is exact. -/
theorem wrapSum_eq {l : List ℕ} (h : l.sum ≤ u32Max) : wrapSum l = l.sum := by
  unfold wrapSum
  rw [foldl_wrapAdd l 0 (by omega), zero_add]

theorem foldl_wrapAdd_le (l : List ℕ) (h : a ≤ u32Max) : l.foldl wrapAdd a ≤ u32Max := by
  induction l generalizing a with
  | nil => exact h
  | cons b l ih => exact ih (wrapAdd_le a b)

theorem wrapSum_le (l : List ℕ) : wrapSum l ≤ u32Max := foldl_wrapAdd_le l (zero_le _)

theorem toNat_capU16 (a : ℕ) : (capU16 a).toNat = min a u16Max := by
  unfold capU16 u16Max
  rw [UInt16.toNat_ofNat', mod_eq_of_lt (by omega)]

theorem toNat_capU16_eq (h : a ≤ u16Max) : (capU16 a).toNat = a := by
  rw [toNat_capU16, min_eq_left h]

@[simp] theorem capU16_toNat (a : UInt16) : capU16 a.toNat = a := by
  have h : a.toNat ≤ u16Max := le_of_lt_succ a.toNat_lt
  apply UInt16.toNat_inj.mp
  rw [toNat_capU16_eq h]

end MachineInt
