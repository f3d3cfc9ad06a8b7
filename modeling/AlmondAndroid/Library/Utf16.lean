import Mathlib.Tactic.Common

/-!
# UTF-16

A string of code units is read as characters, with a question mark for a surrogate that is not
of a pair. What is written for characters is read back.
-/

namespace AlmondAndroid.Library.Utf16

def isHigh (u : UInt16) : Bool := 0xd800 ≤ u.toNat && u.toNat ≤ 0xdbff

def isLow (u : UInt16) : Bool := 0xdc00 ≤ u.toNat && u.toNat ≤ 0xdfff

def single (u : UInt16) : Char := if isHigh u || isLow u then '?' else Char.ofNat u.toNat

def pair (high low : UInt16) : Char :=
  Char.ofNat (0x10000 + (high.toNat - 0xd800) * 0x400 + (low.toNat - 0xdc00))

def chars : List UInt16 → List Char
  | [] => []
  | [u] => [single u]
  | u :: v :: rest =>
    if isHigh u && isLow v then pair u v :: chars rest else single u :: chars (v :: rest)

def units (c : Char) : List UInt16 :=
  if c.toNat < 0x10000 then [UInt16.ofNat c.toNat]
  else
    [UInt16.ofNat (0xd800 + (c.toNat - 0x10000) / 0x400),
      UInt16.ofNat (0xdc00 + (c.toNat - 0x10000) % 0x400)]

def ofChars (cs : List Char) : List UInt16 := cs.flatMap units

/-- Unicode's `White_Space`, which has no characters of two code units. -/
def isWhiteSpace (u : UInt16) : Bool :=
  (0x09 ≤ u && u ≤ 0x0d) || u = 0x20 || u = 0x85 || u = 0xa0 || u = 0x1680 ||
    (0x2000 ≤ u && u ≤ 0x200a) || u = 0x2028 || u = 0x2029 || u = 0x202f || u = 0x205f ||
    u = 0x3000

/-- The string is that of some characters: every surrogate is of a pair. -/
def WellFormed (s : List UInt16) : Prop := ∃ cs, s = ofChars cs

theorem toNat_ofNat {n : Nat} (h : n < 0xd800) : (Char.ofNat n).toNat = n := by
  rw [Char.ofNat, dif_pos (.inl h)]
  rfl

theorem toNat_lt (c : Char) : c.toNat < 0x110000 := by
  rcases c.valid with h | h
  · exact Nat.lt_trans h (by decide)
  · exact h.2

theorem not_surrogate (c : Char) : ¬ (0xd800 ≤ c.toNat ∧ c.toNat ≤ 0xdfff) := by
  rintro ⟨hlow, hhigh⟩
  rcases c.valid with h | h
  · exact absurd (Nat.lt_of_le_of_lt hlow h) (by decide)
  · exact absurd (Nat.lt_of_lt_of_le h.1 hhigh) (by decide)

theorem isHigh_eq_false {u : UInt16} (h : ¬ (0xd800 ≤ u.toNat ∧ u.toNat ≤ 0xdfff)) :
    isHigh u = false := by
  rw [isHigh, Bool.and_eq_false_iff, decide_eq_false_iff_not, decide_eq_false_iff_not]
  omega

theorem isLow_eq_false {u : UInt16} (h : ¬ (0xd800 ≤ u.toNat ∧ u.toNat ≤ 0xdfff)) :
    isLow u = false := by
  rw [isLow, Bool.and_eq_false_iff, decide_eq_false_iff_not, decide_eq_false_iff_not]
  omega

theorem single_eq {u : UInt16} (h : ¬ (0xd800 ≤ u.toNat ∧ u.toNat ≤ 0xdfff)) :
    single u = Char.ofNat u.toNat := by
  rw [single, isHigh_eq_false h, isLow_eq_false h]
  rfl

theorem chars_cons {u : UInt16} (h : ¬ (0xd800 ≤ u.toNat ∧ u.toNat ≤ 0xdfff))
    (rest : List UInt16) : chars (u :: rest) = Char.ofNat u.toNat :: chars rest := by
  cases rest with
  | nil => rw [chars, chars, single_eq h]
  | cons v rest =>
    rw [chars, isHigh_eq_false h, Bool.false_and, if_neg Bool.false_ne_true, single_eq h]

theorem chars_append_cons {u : UInt16} (h : ¬ (0xd800 ≤ u.toNat ∧ u.toNat ≤ 0xdfff))
    (s rest : List UInt16) :
    chars (s ++ u :: rest) = chars s ++ Char.ofNat u.toNat :: chars rest := by
  induction s using chars.induct with
  | case1 => exact chars_cons h rest
  | case2 v =>
    change chars (v :: u :: rest) = single v :: Char.ofNat u.toNat :: chars rest
    rw [chars, isLow_eq_false h, Bool.and_false, if_neg Bool.false_ne_true, chars_cons h]
  | case3 v w s hpair ih =>
    rw [List.cons_append, List.cons_append, chars, chars, if_pos hpair, if_pos hpair, ih,
      List.cons_append]
  | case4 v w s hpair ih =>
    rw [List.cons_append] at ih
    rw [List.cons_append, List.cons_append, chars, chars, if_neg hpair, if_neg hpair, ih,
      List.cons_append]

theorem chars_units (c : Char) (rest : List UInt16) :
    chars (units c ++ rest) = c :: chars rest := by
  have hnot := not_surrogate c
  have hlt := toNat_lt c
  rw [units]
  by_cases hsmall : c.toNat < 0x10000
  · have hvalue : (UInt16.ofNat c.toNat).toNat = c.toNat := UInt16.toNat_ofNat_of_lt hsmall
    rw [if_pos hsmall, List.singleton_append, chars_cons (by rw [hvalue]; exact hnot), hvalue,
      Char.ofNat_toNat]
  · have hhigh : (UInt16.ofNat (0xd800 + (c.toNat - 0x10000) / 0x400)).toNat =
        0xd800 + (c.toNat - 0x10000) / 0x400 :=
      UInt16.toNat_ofNat_of_lt (by rw [UInt16.size]; omega)
    have hlow : (UInt16.ofNat (0xdc00 + (c.toNat - 0x10000) % 0x400)).toNat =
        0xdc00 + (c.toNat - 0x10000) % 0x400 :=
      UInt16.toNat_ofNat_of_lt (by rw [UInt16.size]; omega)
    have hvalue : 0x10000 + (0xd800 + (c.toNat - 0x10000) / 0x400 - 0xd800) * 0x400 +
        (0xdc00 + (c.toNat - 0x10000) % 0x400 - 0xdc00) = c.toNat := by omega
    rw [if_neg hsmall, List.cons_append, List.singleton_append, chars, if_pos, pair, hhigh, hlow,
      hvalue, Char.ofNat_toNat]
    rw [isHigh, isLow, hhigh, hlow]
    simp only [Bool.and_eq_true, decide_eq_true_eq]
    omega

theorem chars_ofChars (cs : List Char) : chars (ofChars cs) = cs := by
  induction cs with
  | nil => rfl
  | cons c cs ih =>
    rw [ofChars, List.flatMap_cons, chars_units]
    exact congrArg (c :: ·) ih

theorem wellFormed_iff {s : List UInt16} : WellFormed s ↔ ofChars (chars s) = s := by
  constructor
  · rintro ⟨cs, rfl⟩
    rw [chars_ofChars]
  · intro h
    exact ⟨chars s, h.symm⟩

end AlmondAndroid.Library.Utf16
