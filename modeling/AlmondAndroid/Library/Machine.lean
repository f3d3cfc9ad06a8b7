import Mathlib.Logic.Function.Basic

/-!
# Labelled machines

A label carries every choice of the environment, so that a step is a partial
function and a run is a list of labels. Reachability is relative to a guard on
steps: the guarded runs are those whose every step meets the guard in the state
it is taken from.
-/

namespace AlmondAndroid.Library

universe u v w x

structure Machine (σ : Type u) (α : Type v) where
  Init : σ → Prop
  step : σ → α → Option σ

namespace Machine

variable {σ : Type u} {α : Type v} {τ : Type w} {β : Type x}

inductive ReachableVia (M : Machine σ α) (guard : σ → α → Prop) : σ → Prop
  | start {s : σ} : M.Init s → ReachableVia M guard s
  | next {s t : σ} {a : α} : ReachableVia M guard s → guard s a → M.step s a = some t →
      ReachableVia M guard t

def Reachable (M : Machine σ α) : σ → Prop := M.ReachableVia fun _ _ => True

def run (M : Machine σ α) : σ → List α → Option σ
  | s, [] => some s
  | s, a :: as => (M.step s a).bind fun t => M.run t as

@[simp] theorem run_nil (M : Machine σ α) (s : σ) : M.run s [] = some s := rfl

@[simp] theorem run_cons (M : Machine σ α) (s : σ) (a : α) (as : List α) :
    M.run s (a :: as) = (M.step s a).bind fun t => M.run t as := rfl

theorem run_append (M : Machine σ α) (s : σ) (as bs : List α) :
    M.run s (as ++ bs) = (M.run s as).bind fun t => M.run t bs := by
  induction as generalizing s with
  | nil => rfl
  | cons a as ih =>
    simp only [List.cons_append, run_cons]
    cases M.step s a with
    | none => rfl
    | some t => exact ih t

theorem run_of_step {M : Machine σ α} {s t : σ} {a : α} (h : M.step s a = some t)
    (as : List α) : M.run s (a :: as) = M.run t as := by
  rw [run_cons, h, Option.bind_some]

theorem run_singleton {M : Machine σ α} {s t : σ} {a : α} (h : M.step s a = some t) :
    M.run s [a] = some t :=
  run_of_step h []

theorem run_of_run {M : Machine σ α} {s t : σ} {as : List α} (h : M.run s as = some t)
    (bs : List α) : M.run s (as ++ bs) = M.run t bs := by
  rw [run_append, h, Option.bind_some]

theorem ReachableVia.invariant {M : Machine σ α} {guard : σ → α → Prop} (I : σ → Prop)
    (init : ∀ s, M.Init s → I s)
    (preserved : ∀ s a t, I s → guard s a → M.step s a = some t → I t)
    {s : σ} (h : M.ReachableVia guard s) : I s := by
  induction h with
  | start hs => exact init _ hs
  | next _ hg hstep ih => exact preserved _ _ _ ih hg hstep

theorem ReachableVia.mono {M : Machine σ α} {guard guard' : σ → α → Prop}
    (hle : ∀ s a, guard s a → guard' s a) {s : σ} (h : M.ReachableVia guard s) :
    M.ReachableVia guard' s := by
  induction h with
  | start hs => exact .start hs
  | next _ hg hstep ih => exact .next ih (hle _ _ hg) hstep

theorem ReachableVia.after {M : Machine σ α} {guard : σ → α → Prop} {s t : σ}
    (h : M.ReachableVia guard s) (a : α) (hguard : guard s a) (hstep : M.step s a = some t) :
    M.ReachableVia guard t :=
  .next h hguard hstep

theorem ReachableVia.reachable {M : Machine σ α} {guard : σ → α → Prop} {s : σ}
    (h : M.ReachableVia guard s) : M.Reachable s :=
  h.mono fun _ _ _ => trivial

theorem Reachable.step {M : Machine σ α} {s t : σ} {a : α} (h : M.Reachable s)
    (hstep : M.step s a = some t) : M.Reachable t :=
  ReachableVia.next h trivial hstep

theorem Reachable.invariant {M : Machine σ α} (I : σ → Prop)
    (init : ∀ s, M.Init s → I s)
    (preserved : ∀ s a t, I s → M.step s a = some t → I t)
    {s : σ} (h : M.Reachable s) : I s :=
  ReachableVia.invariant I init (fun s a t hs _ => preserved s a t hs) h

theorem Reachable.run {M : Machine σ α} {s t : σ} {as : List α} (h : M.Reachable s)
    (hrun : M.run s as = some t) : M.Reachable t := by
  induction as generalizing s with
  | nil => cases hrun; exact h
  | cons a as ih =>
    obtain ⟨r, hr, hrest⟩ := Option.bind_eq_some_iff.mp hrun
    exact ih (h.step hr) hrest

/-- Every step of a run from this state meets the guard. -/
def Meets (M : Machine σ α) (guard : σ → α → Prop) : σ → List α → Prop
  | _, [] => True
  | s, a :: as => guard s a ∧ ∀ t, M.step s a = some t → M.Meets guard t as

theorem Meets.congr {M : Machine σ α} {guard guard' : σ → α → Prop}
    (h : ∀ s a, guard s a ↔ guard' s a) (as : List α) :
    ∀ s : σ, M.Meets guard s as ↔ M.Meets guard' s as := by
  induction as with
  | nil => exact fun _ => Iff.rfl
  | cons a as ih => exact fun s => and_congr (h s a) (forall₂_congr fun t _ => ih t)

theorem Meets.of_forall {M : Machine σ α} {guard : σ → α → Prop} (as : List α) :
    (∀ a ∈ as, ∀ s, guard s a) → ∀ s, M.Meets guard s as := by
  induction as with
  | nil => exact fun _ _ => trivial
  | cons a as ih =>
    intro h s
    exact ⟨h a (List.mem_cons_self ..) s, fun t _ =>
      ih (fun b hb => h b (List.mem_cons_of_mem a hb)) t⟩

theorem Meets.guard {M : Machine σ α} {guard : σ → α → Prop} {a : α} {bs : List α}
    (as : List α) : ∀ {s t : σ}, M.Meets guard s (as ++ a :: bs) → M.run s as = some t →
      guard t a := by
  induction as with
  | nil =>
    intro s t h hrun
    cases hrun
    exact h.1
  | cons b as ih =>
    intro s t h hrun
    obtain ⟨r, hr, hrest⟩ := Option.bind_eq_some_iff.mp hrun
    exact ih (h.2 r hr) hrest

theorem Meets.invariant {M : Machine σ α} {guard : σ → α → Prop} (I : σ → Prop)
    (preserved : ∀ s a t, I s → guard s a → M.step s a = some t → I t) (as : List α) :
    ∀ {s t : σ}, M.Meets guard s as → I s → M.run s as = some t → I t := by
  induction as with
  | nil =>
    intro s t _ hs hrun
    cases hrun
    exact hs
  | cons a as ih =>
    intro s t hmeets hs hrun
    obtain ⟨r, hr, hrest⟩ := Option.bind_eq_some_iff.mp hrun
    exact ih (hmeets.2 r hr) (preserved s a r hs hmeets.1 hr) hrest

/-- Whether every step of a run from this state meets a guard that can be computed. -/
def check (M : Machine σ α) (guard : σ → α → Bool) : σ → List α → Bool
  | _, [] => true
  | s, a :: as => guard s a && ((M.step s a).map fun t => M.check guard t as).getD true

theorem Meets.of_check {M : Machine σ α} {guard : σ → α → Bool} (as : List α) :
    ∀ {s : σ}, M.check guard s as = true → M.Meets (fun s a => guard s a = true) s as := by
  induction as with
  | nil => exact fun _ => trivial
  | cons a as ih =>
    intro s h
    obtain ⟨hguard, hrest⟩ := Bool.and_eq_true_iff.mp h
    refine ⟨hguard, fun t ht => ih ?_⟩
    rw [ht] at hrest
    exact hrest

theorem ReachableVia.run {M : Machine σ α} {guard : σ → α → Prop} (as : List α) {s t : σ}
    (h : M.ReachableVia guard s) (hmeets : M.Meets guard s as) (hrun : M.run s as = some t) :
    M.ReachableVia guard t :=
  Meets.invariant _ (fun _ _ _ hs hguard hstep => .next hs hguard hstep) as hmeets h hrun

/-- A run whose every guarded step is matched by one of the abstract machine, under the
image of its label, is matched as a whole. -/
theorem Meets.simulated {M : Machine σ α} {A : Machine τ β} {guard : σ → α → Prop}
    (R : σ → τ → Prop) (label : α → β)
    (matched : ∀ s x a t, R s x → guard s a → M.step s a = some t →
      ∃ y, A.step x (label a) = some y ∧ R t y) (as : List α) :
    ∀ {s : σ} {x : τ} {t : σ}, R s x → M.Meets guard s as → M.run s as = some t →
      ∃ y, A.run x (as.map label) = some y ∧ R t y := by
  induction as with
  | nil =>
    intro s x t hR _ hrun
    cases hrun
    exact ⟨x, rfl, hR⟩
  | cons a as ih =>
    intro s x t hR hmeets hrun
    obtain ⟨r, hr, hrest⟩ := Option.bind_eq_some_iff.mp hrun
    obtain ⟨y, hy, hRr⟩ := matched s x a r hR hmeets.1 hr
    obtain ⟨z, hz, hRt⟩ := ih hRr (hmeets.2 r hr) hrest
    exact ⟨z, by rw [List.map_cons, run_of_step hy, hz], hRt⟩

/-- A property that a step keeps exactly if it meets the guard, and that does not come
back once it is lost, holds at the end of exactly the runs that meet the guard. -/
theorem run_iff_meets {M : Machine σ α} {guard : σ → α → Prop} (I J : σ → Prop)
    (invariant : ∀ s a t, J s → M.step s a = some t → J t)
    (kept : ∀ s a t, J s → I s → M.step s a = some t → (I t ↔ guard s a))
    (lost : ∀ s a t, J s → ¬ I s → M.step s a = some t → ¬ I t) (as : List α) :
    ∀ {s t : σ}, J s → M.run s as = some t → (I t ↔ I s ∧ M.Meets guard s as) := by
  induction as with
  | nil =>
    intro s t _ hrun
    cases hrun
    exact (and_iff_left trivial).symm
  | cons a as ih =>
    intro s t hJ hrun
    obtain ⟨r, hr, hrest⟩ := Option.bind_eq_some_iff.mp hrun
    rw [ih (invariant s a r hJ hr) hrest]
    constructor
    · rintro ⟨hI, hmeets⟩
      have hs : I s := by
        by_contra hs
        exact lost s a r hJ hs hr hI
      refine ⟨hs, (kept s a r hJ hs hr).mp hI, fun t ht => ?_⟩
      rw [hr] at ht
      cases ht
      exact hmeets
    · rintro ⟨hs, hguard, hmeets⟩
      exact ⟨(kept s a r hJ hs hr).mpr hguard, hmeets r hr⟩

/-- Every step of the concrete machine is a finite run of the abstract one. -/
structure Simulation (M : Machine σ α) (A : Machine τ β) (abs : σ → τ) : Prop where
  init : ∀ s, M.Init s → A.Init (abs s)
  step : ∀ s a t, M.Reachable s → M.step s a = some t → ∃ bs, A.run (abs s) bs = some (abs t)

theorem Simulation.reachable {M : Machine σ α} {A : Machine τ β} {abs : σ → τ}
    (sim : Simulation M A abs) {s : σ} (h : M.Reachable s) : A.Reachable (abs s) := by
  induction h with
  | start hs => exact .start (sim.init _ hs)
  | next hr _ hstep ih =>
    obtain ⟨bs, hbs⟩ := sim.step _ _ _ hr hstep
    exact ih.run hbs

end Machine

end AlmondAndroid.Library
