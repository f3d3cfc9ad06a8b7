import Mathlib.Data.List.TakeWhile

/-!
# Matching parts of a text

Literals and runs of a class of characters at the front of a text, and the search for the first
place where a text matches. A run is taken as far as it goes, which is the only way to match
where it is followed by what is not in its class.
-/

namespace AlmondAndroid.Library.Matching

universe u v

variable {α : Type u} {β : Type v}

def literal [DecidableEq α] (l t : List α) : Option (List α) :=
  if l <+: t then some (t.drop l.length) else none

/-- One character of the class at least, and what is left behind them. -/
def many1 (p : α → Bool) (t : List α) : Option (List α × List α) :=
  match t.takeWhile p with
  | [] => none
  | c :: word => some (c :: word, t.dropWhile p)

/-- The result at the first place where there is one. -/
def search (m : List α → Option β) : List α → Option β
  | [] => m []
  | c :: t => (m (c :: t)).or (search m t)

def IsWord (p : α → Bool) (word : List α) : Prop := word ≠ [] ∧ ∀ c ∈ word, p c = true

section

variable [DecidableEq α]

theorem literal_append (l t : List α) : literal l (l ++ t) = some t := by
  rw [literal, if_pos (List.prefix_append l t), List.drop_left]

theorem literal_eq_some_iff {l t rest : List α} : literal l t = some rest ↔ t = l ++ rest := by
  constructor
  · intro h
    rw [literal] at h
    split at h
    · rename_i hprefix
      obtain ⟨more, rfl⟩ := hprefix
      rw [List.drop_left] at h
      cases h
      rfl
    · cases h
  · rintro rfl
    exact literal_append l rest

end

theorem many1_append {p : α → Bool} {word rest : List α} (hword : IsWord p word)
    (hrest : ∀ c ∈ rest.head?, p c = false) : many1 p (word ++ rest) = some (word, rest) := by
  have htake : (word ++ rest).takeWhile p = word := by
    rw [List.takeWhile_append_of_pos hword.2]
    cases rest with
    | nil => exact List.append_nil word
    | cons c rest =>
      rw [List.takeWhile_cons_of_neg (by rw [hrest c rfl]; exact Bool.false_ne_true)]
      exact List.append_nil word
  have hdrop : (word ++ rest).dropWhile p = rest := by
    rw [List.dropWhile_append_of_pos hword.2]
    cases rest with
    | nil => rfl
    | cons c rest =>
      exact List.dropWhile_cons_of_neg (by rw [hrest c rfl]; exact Bool.false_ne_true)
  rw [many1, htake, hdrop]
  cases word with
  | nil => exact absurd rfl hword.1
  | cons c word => rfl

theorem many1_eq_some {p : α → Bool} {t word rest : List α} (h : many1 p t = some (word, rest)) :
    t = word ++ rest ∧ IsWord p word := by
  rw [many1] at h
  split at h
  · cases h
  · rename_i c tail htake
    cases h
    refine ⟨?_, List.cons_ne_nil _ _, fun x hx => ?_⟩
    · rw [← htake, List.takeWhile_append_dropWhile]
    · rw [← htake] at hx
      exact List.mem_takeWhile_imp hx

theorem search_of_match {m : List α → Option β} {t : List α} {result : β}
    (h : m t = some result) : search m t = some result := by
  cases t with
  | nil => exact h
  | cons c t =>
    rw [search, h]
    rfl

theorem search_eq_some {m : List α → Option β} {t : List α} {result : β}
    (h : search m t = some result) : ∃ back, back <:+ t ∧ m back = some result := by
  induction t with
  | nil => exact ⟨[], List.suffix_refl [], h⟩
  | cons c t ih =>
    rw [search] at h
    cases hmatch : m (c :: t) with
    | some other =>
      rw [hmatch] at h
      exact ⟨c :: t, List.suffix_refl _, hmatch.trans h⟩
    | none =>
      rw [hmatch] at h
      obtain ⟨back, hback, hresult⟩ := ih h
      exact ⟨back, hback.trans (List.suffix_cons c t), hresult⟩

theorem search_eq_none {m : List α → Option β} {t : List α}
    (h : ∀ back result, back <:+ t → m back ≠ some result) : search m t = none := by
  cases hsearch : search m t with
  | none => rfl
  | some result =>
    obtain ⟨back, hback, hresult⟩ := search_eq_some hsearch
    exact absurd hresult (h back result hback)

end AlmondAndroid.Library.Matching
