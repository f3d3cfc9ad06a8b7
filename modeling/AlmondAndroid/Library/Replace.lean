import Mathlib.Data.List.Infix

/-!
# Replacing a text

All occurrences of a text that is not empty are replaced from left to right, and the search
goes on behind an occurrence. Where no occurrence begins nothing changes. The occurrences that
the search comes to are at least as many as any that do not overlap.
-/

namespace AlmondAndroid.Library.Replace

universe u

variable {α : Type u} [DecidableEq α]

/-- The search leaves out the elements to be skipped. -/
def replaceFrom (p v : List α) : Nat → List α → List α
  | _, [] => []
  | skip + 1, _ :: t => replaceFrom p v skip t
  | 0, c :: t =>
    if p <+: c :: t then v ++ replaceFrom p v (p.length - 1) t else c :: replaceFrom p v 0 t

def replace (p v t : List α) : List α := replaceFrom p v 0 t

/-- How many occurrences are replaced. -/
def countFrom (p : List α) : Nat → List α → Nat
  | _, [] => 0
  | skip + 1, _ :: t => countFrom p skip t
  | 0, c :: t => if p <+: c :: t then countFrom p (p.length - 1) t + 1 else countFrom p 0 t

def count (p t : List α) : Nat := countFrom p 0 t

variable {p v : List α}

theorem replaceFrom_append (a t : List α) : replaceFrom p v a.length (a ++ t) = replace p v t := by
  induction a with
  | nil => rfl
  | cons c a ih => exact ih

theorem replace_append_self (hp : p ≠ []) (t : List α) :
    replace p v (p ++ t) = v ++ replace p v t := by
  cases p with
  | nil => exact absurd rfl hp
  | cons c p =>
    have hprefix : c :: p <+: c :: (p ++ t) := List.prefix_append (c :: p) t
    rw [replace, List.cons_append, replaceFrom, if_pos hprefix]
    exact congrArg (v ++ ·) (replaceFrom_append p t)

/-- No occurrence begins in `a` when `t` follows it. -/
def BeginsNowhere (p a t : List α) : Prop := ∀ k < a.length, ¬ p <+: a.drop k ++ t

instance (p a t : List α) : Decidable (BeginsNowhere p a t) :=
  inferInstanceAs (Decidable (∀ k < a.length, ¬ p <+: a.drop k ++ t))

omit [DecidableEq α] in
theorem BeginsNowhere.tail {c : α} {a t : List α} (h : BeginsNowhere p (c :: a) t) :
    BeginsNowhere p a t :=
  fun k hk => h (k + 1) (Nat.succ_lt_succ hk)

theorem replace_append {a t : List α} (h : BeginsNowhere p a t) :
    replace p v (a ++ t) = a ++ replace p v t := by
  induction a with
  | nil => rfl
  | cons c a ih =>
    have hhead : ¬ p <+: c :: (a ++ t) := h 0 (Nat.succ_pos _)
    rw [replace, List.cons_append, replaceFrom, if_neg hhead]
    exact congrArg (c :: ·) (ih h.tail)

theorem length_replaceFrom (hp : p ≠ []) (t : List α) : ∀ skip, skip ≤ t.length →
    (replaceFrom p v skip t).length + countFrom p skip t * p.length + skip =
      t.length + countFrom p skip t * v.length := by
  induction t with
  | nil =>
    intro skip hskip
    obtain rfl := Nat.le_zero.mp hskip
    rw [replaceFrom, countFrom, Nat.zero_mul, Nat.zero_mul]
  | cons c t ih =>
    intro skip hskip
    cases skip with
    | succ skip =>
      have hrest := ih skip (Nat.le_of_succ_le_succ hskip)
      rw [replaceFrom, countFrom, List.length_cons]
      omega
    | zero =>
      rw [replaceFrom, countFrom]
      split
      · rename_i hprefix
        have hpos : 0 < p.length := List.length_pos_iff.mpr hp
        have hle : p.length ≤ t.length + 1 := hprefix.length_le
        have hrest := ih (p.length - 1) (by omega)
        rw [List.length_append, List.length_cons, Nat.succ_mul, Nat.succ_mul]
        omega
      · have hrest := ih 0 (Nat.zero_le _)
        rw [List.length_cons, List.length_cons]
        omega

theorem length_replace (hp : p ≠ []) (t : List α) :
    (replace p v t).length + count p t * p.length = t.length + count p t * v.length :=
  length_replaceFrom hp t 0 (Nat.zero_le _)

/-! ## The search comes to as many occurrences as there can be -/

theorem countFrom_eq (t : List α) : ∀ skip, countFrom p skip t = count p (t.drop skip) := by
  induction t with
  | nil =>
    intro skip
    rw [List.drop_nil]
    cases skip with
    | zero => rfl
    | succ skip => rfl
  | cons c t ih =>
    intro skip
    cases skip with
    | zero => rfl
    | succ skip => exact ih skip

theorem count_of_prefix {c : α} {t : List α} (hp : p ≠ []) (h : p <+: c :: t) :
    count p (c :: t) = count p ((c :: t).drop p.length) + 1 := by
  rw [count, countFrom, if_pos h, countFrom_eq]
  cases p with
  | nil => exact absurd rfl hp
  | cons d p => rfl

theorem count_of_not_prefix {c : α} {t : List α} (h : ¬ p <+: c :: t) :
    count p (c :: t) = count p t := by
  rw [count, countFrom, if_neg h]
  rfl

/-- A later start loses occurrences, and no more than one for the length of `p`. -/
theorem count_drop (hp : p ≠ []) (t : List α) :
    (∀ d, count p (t.drop d) ≤ count p t) ∧
      ∀ d ≤ p.length, count p t ≤ count p (t.drop d) + 1 := by
  induction hn : t.length using Nat.strong_induction_on generalizing t with
  | _ n ih =>
    cases t with
    | nil =>
      refine ⟨fun d => ?_, fun d _ => ?_⟩
      · rw [List.drop_nil]
      · rw [List.drop_nil]
        exact Nat.le_succ _
    | cons c t =>
      have hshort : ∀ e, ((c :: t).drop (e + 1)).length < n := by
        intro e
        rw [List.length_drop]
        rw [List.length_cons] at hn ⊢
        omega
      by_cases hprefix : p <+: c :: t
      · have hcount := count_of_prefix hp hprefix
        constructor
        · intro d
          cases d with
          | zero => exact Nat.le_refl _
          | succ e =>
            rw [hcount]
            by_cases hle : p.length ≤ e + 1
            · have hpos : 0 < p.length := List.length_pos_iff.mpr hp
              have hrest := (ih _ (hshort (p.length - 1)) _ rfl).1 (e + 1 - p.length)
              rw [Nat.sub_add_cancel hpos, List.drop_drop, Nat.add_sub_cancel' hle] at hrest
              exact Nat.le_succ_of_le hrest
            · have hrest := (ih _ (hshort e) _ rfl).2 (p.length - (e + 1)) (Nat.sub_le ..)
              rw [List.drop_drop, Nat.add_sub_cancel' (Nat.le_of_not_le hle)] at hrest
              exact hrest
        · intro d hd
          cases d with
          | zero => exact Nat.le_succ _
          | succ e =>
            rw [hcount]
            have hrest := (ih _ (hshort e) _ rfl).1 (p.length - (e + 1))
            rw [List.drop_drop, Nat.add_sub_cancel' hd] at hrest
            exact Nat.succ_le_succ hrest
      · have hcount := count_of_not_prefix hprefix
        have hrest := ih _ (hshort 0) _ rfl
        rw [List.drop_succ_cons, List.drop_zero] at hrest
        constructor
        · intro d
          cases d with
          | zero => exact Nat.le_refl _
          | succ e =>
            rw [hcount, List.drop_succ_cons]
            exact hrest.1 e
        · intro d hd
          cases d with
          | zero => exact Nat.le_succ _
          | succ e =>
            rw [hcount, List.drop_succ_cons]
            exact hrest.2 e (Nat.le_of_succ_le hd)

theorem count_append_self (hp : p ≠ []) (t : List α) : count p (p ++ t) = count p t + 1 := by
  cases p with
  | nil => exact absurd rfl hp
  | cons c p =>
    have hprefix : c :: p <+: c :: (p ++ t) := List.prefix_append (c :: p) t
    rw [List.cons_append, count_of_prefix hp hprefix, ← List.cons_append, List.drop_left]

theorem count_le_append (hp : p ≠ []) (a t : List α) : count p t ≤ count p (a ++ t) := by
  have h := (count_drop hp (a ++ t)).1 a.length
  rw [List.drop_left] at h
  exact h

end AlmondAndroid.Library.Replace
