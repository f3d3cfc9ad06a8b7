import Mathlib.Data.List.Induction
import Mathlib.Logic.Function.Basic

/-!
# Tables

A table is a function with optional values, and an update changes one entry. An
entry of the updated table is the new one or an old one at another key. After a list
of assignments the last one to a key is found there.
-/

namespace AlmondAndroid.Library.Table

universe u v w

variable {ι : Type u} {α : Type v} [DecidableEq ι] {table : ι → Option α} {i j : ι}
  {entry : Option α}

theorem update_eq_some {x : α} (h : Function.update table i entry j = some x) :
    (j = i ∧ entry = some x) ∨ (j ≠ i ∧ table j = some x) := by
  by_cases hj : j = i
  · subst hj
    rw [Function.update_self] at h
    exact .inl ⟨rfl, h⟩
  · rw [Function.update_of_ne hj] at h
    exact .inr ⟨hj, h⟩

theorem update_eq_none (h : Function.update table i entry j = none) :
    (j = i ∧ entry = none) ∨ (j ≠ i ∧ table j = none) := by
  by_cases hj : j = i
  · subst hj
    rw [Function.update_self] at h
    exact .inl ⟨rfl, h⟩
  · rw [Function.update_of_ne hj] at h
    exact .inr ⟨hj, h⟩

theorem erase_eq_some_iff {x : α} :
    Function.update table i none j = some x ↔ table j = some x ∧ j ≠ i := by
  constructor
  · intro h
    rcases update_eq_some h with ⟨-, h⟩ | ⟨hj, h⟩
    · cases h
    · exact ⟨h, hj⟩
  · rintro ⟨h, hj⟩
    rw [Function.update_of_ne hj]
    exact h

/-- The assignments are made in order. -/
def assign (table : ι → Option α) (writes : List (ι × α)) : ι → Option α :=
  writes.foldl (fun table w => Function.update table w.1 (some w.2)) table

def lastWrite (writes : List (ι × α)) (i : ι) : Option α :=
  (writes.reverse.find? fun w => w.1 = i).map Prod.snd

theorem assign_append (writes more : List (ι × α)) :
    assign table (writes ++ more) = assign (assign table writes) more :=
  List.foldl_append ..

theorem lastWrite_append_singleton (writes : List (ι × α)) (w : ι × α) (i : ι) :
    lastWrite (writes ++ [w]) i = if w.1 = i then some w.2 else lastWrite writes i := by
  rw [lastWrite, List.reverse_append, List.reverse_singleton, List.singleton_append,
    List.find?_cons]
  by_cases hi : w.1 = i
  · simp [hi]
  · simp [hi, lastWrite]

theorem lastWrite_append (writes more : List (ι × α)) (i : ι) :
    lastWrite (writes ++ more) i = (lastWrite more i).or (lastWrite writes i) := by
  rw [lastWrite, List.reverse_append, List.find?_append, lastWrite, lastWrite]
  cases more.reverse.find? _ with
  | none => rfl
  | some w => rfl

theorem lastWrite_cons (w : ι × α) (writes : List (ι × α)) (i : ι) :
    lastWrite (w :: writes) i =
      (lastWrite writes i).or (if w.1 = i then some w.2 else none) := by
  rw [← List.singleton_append, lastWrite_append]
  congr 1
  exact lastWrite_append_singleton [] w i

theorem assign_apply (writes : List (ι × α)) (i : ι) :
    assign table writes i = (lastWrite writes i).or (table i) := by
  induction writes using List.reverseRecOn with
  | nil => rfl
  | append_singleton writes w ih =>
    rw [assign_append, lastWrite_append_singleton]
    change Function.update (assign table writes) w.1 (some w.2) i = _
    by_cases hi : w.1 = i
    · subst hi
      rw [Function.update_self, if_pos rfl]
      rfl
    · rw [Function.update_of_ne (Ne.symm hi), if_neg hi, ih]

theorem lastWrite_map {β : Type w} (f : α → β) (writes : List (ι × α)) (i : ι) :
    lastWrite (writes.map fun w => (w.1, f w.2)) i = (lastWrite writes i).map f := by
  induction writes using List.reverseRecOn with
  | nil => rfl
  | append_singleton writes w ih =>
    rw [List.map_append, List.map_singleton, lastWrite_append_singleton,
      lastWrite_append_singleton, ih]
    split
    · rfl
    · rfl

theorem lastWrite_filter (q : ι → Bool) (writes : List (ι × α)) (i : ι) :
    lastWrite (writes.filter fun w => q w.1) i = if q i then lastWrite writes i else none := by
  induction writes using List.reverseRecOn with
  | nil => simp [lastWrite]
  | append_singleton writes w ih =>
    rw [List.filter_append, lastWrite_append, lastWrite_append_singleton, ih]
    by_cases hi : w.1 = i
    · subst hi
      cases hq : q w.1 with
      | false => simp [hq, lastWrite]
      | true => simp [hq, lastWrite]
    · cases hq : q w.1 with
      | false => simp [hq, hi, lastWrite]
      | true => simp [hq, hi, lastWrite]

theorem lastWrite_isSome_iff (writes : List (ι × α)) (i : ι) :
    (lastWrite writes i).isSome ↔ ∃ w ∈ writes, w.1 = i := by
  induction writes using List.reverseRecOn with
  | nil => simp [lastWrite]
  | append_singleton writes w ih =>
    rw [lastWrite_append_singleton]
    split
    · rename_i hi
      exact iff_of_true rfl ⟨w, List.mem_append_right _ (List.mem_singleton_self w), hi⟩
    · rename_i hi
      rw [ih]
      constructor
      · rintro ⟨x, hx, hxi⟩
        exact ⟨x, List.mem_append_left _ hx, hxi⟩
      · rintro ⟨x, hx, hxi⟩
        rcases List.mem_append.mp hx with hx | hx
        · exact ⟨x, hx, hxi⟩
        · exact absurd (List.mem_singleton.mp hx ▸ hxi) hi

end AlmondAndroid.Library.Table
