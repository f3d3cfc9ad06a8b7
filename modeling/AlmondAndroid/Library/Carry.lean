import Mathlib

/-!
# Slots filled with a carry

A row of slots is filled as a binary counter counts: what comes takes the first empty slot,
merged with what was in the slots before it, which are emptied. What finds no empty slot
is left over.
-/

namespace AlmondAndroid.Library

universe u v w

namespace Carry

variable {α : Type u} {β : Type v} {γ : Type w}

def carry (merge : β → α → α) (put : α → β) : List (Option β) → α → List (Option β) × Option α
  | [], x => ([], some x)
  | none :: slots, x => (some (put x) :: slots, none)
  | some y :: slots, x =>
      let (slots, left) := carry merge put slots (merge y x)
      (none :: slots, left)

/-- Something is in the slots if it is in what one of them has. -/
def Holds (held : β → γ → Prop) (slots : List (Option β)) (c : γ) : Prop :=
  ∃ y, some y ∈ slots ∧ held y c

/-- Each item counts as one, and the slots are the digits of the count, the lowest first. -/
def count : List (Option β) → Nat
  | [] => 0
  | none :: slots => 2 * count slots
  | some _ :: slots => 2 * count slots + 1

variable (merge : β → α → α) (put : α → β)

theorem carry_empty (slots : List (Option β)) (x : α) :
    carry merge put (none :: slots) x = (some (put x) :: slots, none) := rfl

theorem carry_full (y : β) (slots : List (Option β)) (x : α) :
    carry merge put (some y :: slots) x =
      (none :: (carry merge put slots (merge y x)).1, (carry merge put slots (merge y x)).2) :=
  rfl

@[simp] theorem length_carry (slots : List (Option β)) (x : α) :
    (carry merge put slots x).1.length = slots.length := by
  induction slots generalizing x with
  | nil => rfl
  | cons slot slots ih =>
    cases slot with
    | none => rfl
    | some y => simp [carry_full, ih]

@[simp] theorem count_replicate_none (n : Nat) :
    count (List.replicate n (none : Option β)) = 0 := by
  induction n with
  | zero => rfl
  | succ n ih => rw [List.replicate_succ, count, ih]

/-- What is left over stands for a digit after the last slot. -/
theorem count_carry (slots : List (Option β)) (x : α) :
    count (carry merge put slots x).1 +
        (if (carry merge put slots x).2.isSome then 2 ^ slots.length else 0) =
      count slots + 1 := by
  induction slots generalizing x with
  | nil => rfl
  | cons slot slots ih =>
    cases slot with
    | none => simp [carry_empty, count]
    | some y =>
      have h := ih (merge y x)
      rw [carry_full, count, count, List.length_cons, Nat.pow_succ]
      split at h <;> simp_all <;> omega

theorem carry_fits {slots : List (Option β)} (x : α) (h : count slots + 1 < 2 ^ slots.length) :
    (carry merge put slots x).2 = none ∧
      count (carry merge put slots x).1 = count slots + 1 := by
  have hcount := count_carry merge put slots x
  cases hleft : (carry merge put slots x).2 with
  | none => simpa [hleft] using hcount
  | some z =>
    rw [hleft, Option.isSome_some, if_pos rfl] at hcount
    omega

section Holds

variable {held : β → γ → Prop} {c : γ}

@[simp] theorem holds_nil : ¬ Holds held [] c := by
  rintro ⟨y, hy, -⟩
  cases hy

@[simp] theorem holds_none (slots : List (Option β)) :
    Holds held (none :: slots) c ↔ Holds held slots c := by
  simp [Holds]

@[simp] theorem holds_some (y : β) (slots : List (Option β)) :
    Holds held (some y :: slots) c ↔ held y c ∨ Holds held slots c := by
  simp [Holds, or_and_right, exists_or]

theorem not_holds_replicate (n : Nat) : ¬ Holds held (List.replicate n none) c := by
  rintro ⟨y, hy, -⟩
  cases List.eq_of_mem_replicate hy

/-- Nothing is lost and nothing is made up, provided that merging does neither. -/
theorem holds_carry (held : β → γ → Prop) (carried : α → γ → Prop)
    (hmerge : ∀ y x, carried (merge y x) c ↔ held y c ∨ carried x c)
    (hput : ∀ x, held (put x) c ↔ carried x c) (slots : List (Option β)) (x : α) :
    (Holds held (carry merge put slots x).1 c ∨
        ∃ z, (carry merge put slots x).2 = some z ∧ carried z c) ↔
      Holds held slots c ∨ carried x c := by
  induction slots generalizing x with
  | nil => simp [carry]
  | cons slot slots ih =>
    cases slot with
    | none => simp [carry_empty, hput, or_comm]
    | some y =>
      rw [carry_full, holds_none, holds_some, ih, hmerge]
      simp [or_left_comm, or_assoc]

end Holds

/-- What every slot has and what comes meet stays so if merging keeps it. -/
theorem carry_forall (P : β → Prop) (Q : α → Prop)
    (hmerge : ∀ y x, P y → Q x → Q (merge y x)) (hput : ∀ x, Q x → P (put x))
    {slots : List (Option β)} (hslots : ∀ y, some y ∈ slots → P y) {x : α} (hx : Q x) :
    (∀ y, some y ∈ (carry merge put slots x).1 → P y) ∧
      ∀ z, (carry merge put slots x).2 = some z → Q z := by
  induction slots generalizing x with
  | nil =>
    refine ⟨hslots, ?_⟩
    rintro z ⟨⟩
    exact hx
  | cons slot slots ih =>
    have hrest : ∀ y, some y ∈ slots → P y := fun y hy => hslots y (List.mem_cons_of_mem _ hy)
    cases slot with
    | none =>
      rw [carry_empty]
      refine ⟨fun y hy => ?_, by rintro _ ⟨⟩⟩
      rcases List.mem_cons.mp hy with heq | hy
      · cases heq
        exact hput x hx
      · exact hrest y hy
    | some y =>
      have hmerged := hmerge y x (hslots y (List.mem_cons_self ..)) hx
      rw [carry_full]
      refine ⟨fun z hz => ?_, (ih hrest hmerged).2⟩
      rcases List.mem_cons.mp hz with heq | hz
      · cases heq
      · exact (ih hrest hmerged).1 z hz

end Carry

end AlmondAndroid.Library
