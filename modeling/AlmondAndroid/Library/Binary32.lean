import Mathlib.Data.Nat.Log
import Mathlib.Tactic.Ring
import Mathlib.Tactic.Linarith

/-!
# Integers as single-precision numbers

The nearest single-precision number of an integer is an integer again: its
significand keeps 24 bits, ties go to the even significand.
-/

namespace AlmondAndroid.Library.Binary32

/-- The low bits of a natural number that a significand of 24 bits cannot hold. -/
def excess (n : Nat) : Nat := n.log2 - 23

def roundsDown (n : Nat) : Prop :=
  2 * (n % 2 ^ excess n) < 2 ^ excess n ∨
    (2 * (n % 2 ^ excess n) = 2 ^ excess n ∧ n / 2 ^ excess n % 2 = 0)

instance : DecidablePred roundsDown := fun _ => inferInstanceAs (Decidable (_ ∨ _))

def nearest (n : Nat) : Nat :=
  (if roundsDown n then n / 2 ^ excess n else n / 2 ^ excess n + 1) * 2 ^ excess n

def ofInt (z : Int) : Int := z.sign * nearest z.natAbs

/-- The conversion back to a 32-bit integer takes the closest one. -/
def toInt32 (z : Int) : Int32 := Int32.ofInt (max (-2 ^ 31) (min z (2 ^ 31 - 1)))

def Exact (n : Nat) : Prop := 2 ^ excess n ∣ n

/-- The number lies right below one with enough zero bits at its end; where it is half-way
between two single-precision numbers, that one has one zero bit more. -/
def BelowExact (n : Nat) : Prop := 0 < excess n ∧ 2 ^ max 2 (excess n) ∣ n + 1

instance : DecidablePred Exact := fun _ => inferInstanceAs (Decidable (_ ∣ _))

instance : DecidablePred BelowExact := fun _ => inferInstanceAs (Decidable (_ ∧ _))

theorem nearest_of_roundsDown {n : Nat} (h : roundsDown n) :
    nearest n + n % 2 ^ excess n = n := by
  rw [nearest, if_pos h]
  exact Nat.div_add_mod' n (2 ^ excess n)

theorem nearest_of_not_roundsDown {n : Nat} (h : ¬ roundsDown n) :
    nearest n + n % 2 ^ excess n = n + 2 ^ excess n := by
  have hdiv := Nat.div_add_mod' n (2 ^ excess n)
  rw [nearest, if_neg h, Nat.add_mul, Nat.one_mul]
  omega

theorem mod_pos_of_not_roundsDown {n : Nat} (h : ¬ roundsDown n) : 0 < n % 2 ^ excess n := by
  have hpos : 0 < 2 ^ excess n := Nat.two_pow_pos _
  have hle : ¬ 2 * (n % 2 ^ excess n) < 2 ^ excess n := fun hlt => h (.inl hlt)
  omega

theorem nearest_eq_self_iff (n : Nat) : nearest n = n ↔ Exact n := by
  rw [Exact, Nat.dvd_iff_mod_eq_zero]
  by_cases h : roundsDown n
  · have hn := nearest_of_roundsDown h
    omega
  · have hn := nearest_of_not_roundsDown h
    have hpos := mod_pos_of_not_roundsDown h
    have hlt : n % 2 ^ excess n < 2 ^ excess n := Nat.mod_lt n (Nat.two_pow_pos _)
    omega

theorem dvd_succ_iff (n m : Nat) (hm : 0 < m) : m ∣ n + 1 ↔ n % m + 1 = m := by
  have hlt := Nat.mod_lt n hm
  constructor
  · intro h
    by_contra hne
    have hsmall : n % m + 1 < m := by omega
    have hmod : (n + 1) % m = n % m + 1 := by
      rw [← Nat.mod_add_mod, Nat.mod_eq_of_lt hsmall]
    have hzero := Nat.mod_eq_zero_of_dvd h
    omega
  · intro h
    rw [Nat.dvd_iff_mod_eq_zero, ← Nat.mod_add_mod, h, Nat.mod_self]

theorem nearest_eq_succ_iff (n : Nat) : nearest n = n + 1 ↔ BelowExact n := by
  have hpos : 0 < 2 ^ excess n := Nat.two_pow_pos _
  have hlt : n % 2 ^ excess n < 2 ^ excess n := Nat.mod_lt n hpos
  have hup : nearest n = n + 1 ↔ ¬ roundsDown n ∧ n % 2 ^ excess n + 1 = 2 ^ excess n := by
    by_cases h : roundsDown n
    · have hn := nearest_of_roundsDown h
      simp only [h, not_true_eq_false, false_and, iff_false]
      omega
    · have hn := nearest_of_not_roundsDown h
      simp only [h, not_false_eq_true, true_and]
      omega
  rw [hup, BelowExact]
  rcases Nat.lt_or_ge (excess n) 2 with hsmall | hlarge
  · rw [max_eq_left hsmall.le]
    rcases Nat.lt_or_ge (excess n) 1 with hzero | hone
    · have he : excess n = 0 := by omega
      have hdown : roundsDown n := .inl (by rw [he]; omega)
      simp only [hdown, he, not_true_eq_false, false_and, lt_irrefl]
    · have he : excess n = 1 := by omega
      simp only [roundsDown, he]
      omega
  · rw [max_eq_right hlarge, dvd_succ_iff n _ hpos]
    have hfour : 2 ^ 2 ≤ 2 ^ excess n := Nat.pow_le_pow_right (by decide) hlarge
    simp only [roundsDown]
    omega

theorem ofInt_natCast (n : Nat) : ofInt n = nearest n := by
  rcases Nat.eq_zero_or_pos n with rfl | hpos
  · rfl
  · rw [ofInt, Int.sign_natCast_of_ne_zero hpos.ne', Int.natAbs_natCast, one_mul]

theorem toInt_toInt32 (z : Int) : (toInt32 z).toInt = max (-2 ^ 31) (min z (2 ^ 31 - 1)) :=
  Int32.toInt_ofInt_of_le (by omega) (by omega)

/-- Back in 32 bits, the largest integer is kept as well. -/
theorem toInt32_ofInt_eq_self_iff {n : Nat} (h : n < 2 ^ 31) :
    (toInt32 (ofInt n)).toInt = n ↔ Exact n ∨ n = 2 ^ 31 - 1 := by
  rw [toInt_toInt32, ofInt_natCast, ← nearest_eq_self_iff]
  by_cases hmax : n = 2 ^ 31 - 1
  · subst hmax
    decide
  · omega

theorem toInt32_ofInt_eq_succ_iff {n : Nat} (h : n < 2 ^ 30) :
    (toInt32 (ofInt n)).toInt = n + 1 ↔ BelowExact n := by
  rw [toInt_toInt32, ofInt_natCast, ← nearest_eq_succ_iff]
  omega

end AlmondAndroid.Library.Binary32
