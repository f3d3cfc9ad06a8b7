import AlmondAndroid.Bridge.JavaInvoker
import Mathlib.Data.List.Nodup

/-!
# The settlement of asynchronous calls

A call whose completion has been handed to `completePromise` is owed one
settlement of its own promise. What keeps the promises apart is that a promise id
is issued once and is, at any time, with the executor, in the native queue or
used up.
-/

namespace AlmondAndroid.Bridge

open Library

/-! ## What a call is owed -/

section Owed

variable (rt : Runtime)

def Marshallable : rt.Object → Prop
  | .json o => ∃ t, rt.toJavaString o = some t
  | .jsonNull => False
  | .other _ => False
  | _ => True

def scriptValue : rt.Object → Option rt.Value
  | .null => some .null
  | .number n => some (.number (rt.doubleValue n))
  | .string s => some (.string s)
  | .boolean b => some (.boolean b)
  | .byteArray bytes => some (.view .buffer bytes)
  | .json o => some (.object (rt.fresh (rt.data o)))
  | .jsonNull => none
  | .other _ => none

end Owed

namespace Outcome

variable {rt : Runtime}

/-- `asyncCallback` gets as far as `completePromise`. -/
def HandedOver : Outcome rt → Prop
  | .returned _ => True
  | .threw e => e.isException = true

def Deliverable : Outcome rt → Prop
  | .returned o => Marshallable rt o
  | .threw e => ∃ m, e.message = some m

def settlement : Outcome rt → Option (PromiseResult rt)
  | .returned o => (scriptValue rt o).map .resolved
  | .threw e => e.message.map fun m => .rejected (exceptionToV8 m)

end Outcome

variable {rt : Runtime}

theorem initFromJava_of_marshallable (hlaw : rt.Lawful) {o : rt.Object}
    (h : Marshallable rt o) (doThrow : Bool) : ∃ value v,
      initFromJava rt doThrow o = .ok (.accepted value) ∧ scriptValue rt o = some v ∧
        toJavaScript rt value = .ok (some v) := by
  cases o with
  | null => exact ⟨_, _, rfl, rfl, rfl⟩
  | number n => exact ⟨_, _, rfl, rfl, rfl⟩
  | string s => exact ⟨_, _, rfl, rfl, rfl⟩
  | boolean b => exact ⟨_, _, rfl, rfl, rfl⟩
  | byteArray bytes => exact ⟨_, _, rfl, rfl, rfl⟩
  | json o =>
    obtain ⟨t, ht⟩ := h
    have hparse := hlaw.toJavaString_parse o t ht
    refine ⟨.json t, _, ?_, rfl, toJavaScript_json hparse⟩
    simp only [initFromJava, jobjectToString, jstringToString, ht, Except.map]
  | jsonNull => exact h.elim
  | other className => exact h.elim

theorem initFromJava_of_not_marshallable {o : rt.Object} (h : ¬ Marshallable rt o) :
    initFromJava rt true o = .ok (.rejected (some invalidArgumentType)) ∨
      initFromJava rt true o = .error .nullString := by
  cases o with
  | json o =>
    have hnone : rt.toJavaString o = none := by
      rw [Option.eq_none_iff_forall_ne_some]
      intro t ht
      exact h ⟨t, ht⟩
    refine .inr ?_
    simp only [initFromJava, jobjectToString, jstringToString, hnone, Except.map]
  | jsonNull => exact .inl rfl
  | other className => exact .inl rfl
  | null => exact absurd trivial h
  | number n => exact absurd trivial h
  | string s => exact absurd trivial h
  | boolean b => exact absurd trivial h
  | byteArray bytes => exact absurd trivial h

def Completion.Settles (x : Completion) (r : PromiseResult rt) : Prop :=
  match x.errorMsg with
  | some m => r = .rejected (exceptionToV8 m)
  | none => ∃ v, toJavaScript rt x.result = .ok (some v) ∧ r = .resolved v

namespace JavaInvoker

/-! ## The property -/

def Drained (s : JavaInvoker rt) : Prop := s.native.pending = []

def Completed (s : JavaInvoker rt) (c : Nat) : Prop :=
  ∃ inv, s.invocations c = some inv ∧ inv.outcome.HandedOver

structure SettledOnce (s : JavaInvoker rt) : Prop where
  own : ∀ c p inv, s.issued c = some p → s.invocations c = some inv → inv.outcome.HandedOver →
    ∃ r, s.settlements c = [r] ∧ ∀ r', inv.outcome.settlement = some r' → r = r'
  atMostOnce : ∀ c, (s.settlements c).length ≤ 1
  table : ∀ p c, s.callbacks p = some c ↔ s.issued c = some p ∧ ¬ s.Completed c

/-! ## The invariant -/

structure Carries (outcome : Outcome rt) (x : Completion) : Prop where
  handedOver : outcome.HandedOver
  deliverable : outcome.Deliverable
  settles : ∃ r, outcome.settlement = some r ∧ x.Settles r

inductive Stage (s : JavaInvoker rt) (c p : Nat) : Prop
  | running (task : Task rt) (htask : s.executor c = some task) (hid : task.promiseId = p)
      (hinv : s.invocations c = none) (hnone : s.settlements c = [])
      (htable : s.callbacks p = some c) (hpending : ∀ x ∈ s.native.pending, x.promiseId ≠ p)
  | queued (inv : Invocation rt) (x : Completion) (htask : s.executor c = none)
      (hinv : s.invocations c = some inv) (hx : x ∈ s.native.pending) (hid : x.promiseId = p)
      (hcarries : Carries inv.outcome x) (hnone : s.settlements c = [])
      (htable : s.callbacks p = some c)
  | settled (inv : Invocation rt) (r : PromiseResult rt) (htask : s.executor c = none)
      (hinv : s.invocations c = some inv) (hhanded : inv.outcome.HandedOver)
      (hdeliverable : inv.outcome.Deliverable) (howed : inv.outcome.settlement = some r)
      (honce : s.settlements c = [r]) (htable : s.callbacks p = none)
      (hpending : ∀ x ∈ s.native.pending, x.promiseId ≠ p)
  | lost (inv : Invocation rt) (htask : s.executor c = none) (hinv : s.invocations c = some inv)
      (hbad : ¬ (inv.outcome.HandedOver ∧ inv.outcome.Deliverable))
      (hnone : s.settlements c = []) (htable : s.callbacks p = some c)
      (hpending : ∀ x ∈ s.native.pending, x.promiseId ≠ p)
  | crashed (f : Fault) (hfault : s.fault = some (c, f)) (htask : s.executor c = none)
      (hinv : s.invocations c = none) (hnone : s.settlements c = [])
      (htable : s.callbacks p = some c) (hpending : ∀ x ∈ s.native.pending, x.promiseId ≠ p)

structure Consistent (s : JavaInvoker rt) : Prop where
  wellFormed : s.native.WellFormed
  opened : s.native.opened = true
  waiting : ∀ i, s.native.waiting i = none
  positive : 0 < s.nextPromiseId
  quiet : ∀ c, s.calls.length ≤ c → s.executor c = none ∧ s.issued c = none ∧
    s.settlements c = [] ∧ s.invocations c = none
  unissued : ∀ c, s.issued c = none → s.executor c = none
  ids : ∀ c p, s.issued c = some p → 0 < p ∧ p < s.nextPromiseId
  injective : ∀ c d p, s.issued c = some p → s.issued d = some p → c = d
  table : ∀ p c, s.callbacks p = some c → s.issued c = some p
  pendingIds : (s.native.pending.map Completion.promiseId).Nodup
  pendingIssued : ∀ x ∈ s.native.pending, ∃ c, s.issued c = some x.promiseId
  stage : ∀ c p, s.issued c = some p → Stage s c p
  atMostOnce : ∀ c, (s.settlements c).length ≤ 1

theorem Consistent.initial : Consistent (initial rt) where
  wellFormed := Mailbox.WellFormed.closed.openUp
  opened := rfl
  waiting _ := rfl
  positive := Nat.one_pos
  quiet _ _ := ⟨rfl, rfl, rfl, rfl⟩
  unissued _ _ := rfl
  ids _ _ h := by cases h
  injective _ _ _ h := by cases h
  table _ _ h := by cases h
  pendingIds := List.nodup_nil
  pendingIssued _ h := by cases h
  stage _ _ h := by cases h
  atMostOnce _ := Nat.zero_le 1

/-! ### Frames -/

structure Frame (s t : JavaInvoker rt) (c p : Nat) : Prop where
  executor : t.executor c = s.executor c
  invocations : t.invocations c = s.invocations c
  settlements : t.settlements c = s.settlements c
  callbacks : t.callbacks p = s.callbacks p
  pending : ∀ x : Completion, x.promiseId = p →
    (x ∈ t.native.pending ↔ x ∈ s.native.pending)

theorem Frame.absent {s t : JavaInvoker rt} {c p : Nat} (hframe : Frame s t c p)
    (h : ∀ x ∈ s.native.pending, x.promiseId ≠ p) : ∀ x ∈ t.native.pending, x.promiseId ≠ p := by
  intro x hx hp
  exact h x ((hframe.pending x hp).mp hx) hp

theorem Stage.frame {s t : JavaInvoker rt} {c p : Nat} (hfault : s.fault = none)
    (hframe : Frame s t c p) (h : Stage s c p) : Stage t c p := by
  cases h with
  | running task htask hid hinv hnone htable hpending =>
    exact .running task (hframe.executor.trans htask) hid (hframe.invocations.trans hinv)
      (hframe.settlements.trans hnone) (hframe.callbacks.trans htable) (hframe.absent hpending)
  | queued inv x htask hinv hx hid hcarries hnone htable =>
    exact .queued inv x (hframe.executor.trans htask) (hframe.invocations.trans hinv)
      ((hframe.pending x hid).mpr hx) hid hcarries (hframe.settlements.trans hnone)
      (hframe.callbacks.trans htable)
  | settled inv r htask hinv hhanded hdeliverable howed honce htable hpending =>
    exact .settled inv r (hframe.executor.trans htask) (hframe.invocations.trans hinv) hhanded
      hdeliverable howed (hframe.settlements.trans honce) (hframe.callbacks.trans htable)
      (hframe.absent hpending)
  | lost inv htask hinv hbad hnone htable hpending =>
    exact .lost inv (hframe.executor.trans htask) (hframe.invocations.trans hinv) hbad
      (hframe.settlements.trans hnone) (hframe.callbacks.trans htable) (hframe.absent hpending)
  | crashed f hcrashed =>
    rw [hfault] at hcrashed
    cases hcrashed

theorem Stage.settlements_length {s : JavaInvoker rt} {c p : Nat} (h : Stage s c p) :
    (s.settlements c).length ≤ 1 := by
  cases h with
  | running _ _ _ _ hnone => simp [hnone]
  | queued _ _ _ _ _ _ _ hnone => simp [hnone]
  | settled _ _ _ _ _ _ _ honce => simp [honce]
  | lost _ _ _ _ hnone => simp [hnone]
  | crashed _ _ _ _ hnone => simp [hnone]

/-! ### Entering a call -/

theorem Consistent.id_lt {s : JavaInvoker rt} (hs : Consistent s) {x : Completion}
    (hx : x ∈ s.native.pending) : x.promiseId < s.nextPromiseId := by
  obtain ⟨c, hc⟩ := hs.pendingIssued x hx
  exact (hs.ids c _ hc).2

theorem Consistent.fresh {s : JavaInvoker rt} (hs : Consistent s) :
    s.callbacks s.nextPromiseId = none := by
  rw [Option.eq_none_iff_forall_ne_some]
  intro c hc
  have hlt := (hs.ids c _ (hs.table _ c hc)).2
  omega

theorem Consistent.issued_lt {s : JavaInvoker rt} (hs : Consistent s) {c p : Nat}
    (hc : s.issued c = some p) : c < s.calls.length := by
  by_contra hge
  rw [(hs.quiet c (by omega)).2.1] at hc
  cases hc

theorem Consistent.entered {s t : JavaInvoker rt} (hs : Consistent s) (hfault : s.fault = none)
    {call : ApiCall rt} (hcalls : t.calls = s.calls ++ [call]) (hnative : t.native = s.native)
    (hexecutor : t.executor = s.executor) (hissued : t.issued = s.issued)
    (hcallbacks : t.callbacks = s.callbacks) (hnext : s.nextPromiseId ≤ t.nextPromiseId)
    (hsettlements : ∀ c, c ≠ s.calls.length → t.settlements c = s.settlements c)
    (hinvocations : ∀ c, c ≠ s.calls.length → t.invocations c = s.invocations c)
    (honce : (t.settlements s.calls.length).length ≤ 1) : Consistent t where
  wellFormed := hnative ▸ hs.wellFormed
  opened := hnative ▸ hs.opened
  waiting := hnative ▸ hs.waiting
  positive := Nat.lt_of_lt_of_le hs.positive hnext
  quiet c hc := by
    rw [hcalls, List.length_append, List.length_singleton] at hc
    have hne : c ≠ s.calls.length := by omega
    obtain ⟨hexec, hid, hset, hinv⟩ := hs.quiet c (by omega)
    rw [hexecutor, hissued, hsettlements c hne, hinvocations c hne]
    exact ⟨hexec, hid, hset, hinv⟩
  unissued c hc := by
    rw [hissued] at hc
    rw [hexecutor]
    exact hs.unissued c hc
  ids c p hc := by
    rw [hissued] at hc
    obtain ⟨hpos, hlt⟩ := hs.ids c p hc
    exact ⟨hpos, by omega⟩
  injective c d p hc hd := by
    rw [hissued] at hc hd
    exact hs.injective c d p hc hd
  table p c hp := by
    rw [hcallbacks] at hp
    rw [hissued]
    exact hs.table p c hp
  pendingIds := hnative ▸ hs.pendingIds
  pendingIssued := by
    rw [hnative, hissued]
    exact hs.pendingIssued
  stage c p hc := by
    rw [hissued] at hc
    have hne : c ≠ s.calls.length := Nat.ne_of_lt (hs.issued_lt hc)
    refine (hs.stage c p hc).frame hfault ⟨?_, hinvocations c hne, hsettlements c hne, ?_, ?_⟩
    · rw [hexecutor]
    · rw [hcallbacks]
    · intro x _
      rw [hnative]
  atMostOnce c := by
    by_cases hne : c = s.calls.length
    · rw [hne]
      exact honce
    · rw [hsettlements c hne]
      exact hs.atMostOnce c

theorem Consistent.issue {s t : JavaInvoker rt} (hs : Consistent s) (hfault : s.fault = none)
    {call : ApiCall rt} (hcalls : t.calls = s.calls ++ [call]) (hnative : t.native = s.native)
    (hexecutor : ∀ c, c ≠ s.calls.length → t.executor c = s.executor c)
    (hissued : t.issued = Function.update s.issued s.calls.length (some s.nextPromiseId))
    (hcallbacks : t.callbacks =
      Function.update s.callbacks s.nextPromiseId (some s.calls.length))
    (hnext : t.nextPromiseId = s.nextPromiseId + 1) (hsettlements : t.settlements = s.settlements)
    (hinvocations : t.invocations = s.invocations)
    (hstage : Stage t s.calls.length s.nextPromiseId) : Consistent t where
  wellFormed := hnative ▸ hs.wellFormed
  opened := hnative ▸ hs.opened
  waiting := hnative ▸ hs.waiting
  positive := by omega
  quiet c hc := by
    rw [hcalls, List.length_append, List.length_singleton] at hc
    have hne : c ≠ s.calls.length := by omega
    obtain ⟨hexec, hid, hset, hinv⟩ := hs.quiet c (by omega)
    rw [hexecutor c hne, hissued, Function.update_of_ne hne, hsettlements, hinvocations]
    exact ⟨hexec, hid, hset, hinv⟩
  unissued c hc := by
    have hne : c ≠ s.calls.length := by
      rintro rfl
      rw [hissued, Function.update_self] at hc
      cases hc
    rw [hissued, Function.update_of_ne hne] at hc
    rw [hexecutor c hne]
    exact hs.unissued c hc
  ids c p hc := by
    have hpos := hs.positive
    rw [hissued] at hc
    rcases Table.update_eq_some hc with ⟨-, hc⟩ | ⟨-, hc⟩
    · cases hc
      omega
    · obtain ⟨hp, hlt⟩ := hs.ids c p hc
      omega
  injective c d p hc hd := by
    rw [hissued] at hc hd
    rcases Table.update_eq_some hc with ⟨hc', hc⟩ | ⟨-, hc⟩
    · rcases Table.update_eq_some hd with ⟨hd', -⟩ | ⟨-, hd⟩
      · rw [hc', hd']
      · cases hc
        have hlt := (hs.ids d _ hd).2
        omega
    · rcases Table.update_eq_some hd with ⟨-, hd⟩ | ⟨-, hd⟩
      · cases hd
        have hlt := (hs.ids c _ hc).2
        omega
      · exact hs.injective c d p hc hd
  table p c hp := by
    rw [hcallbacks] at hp
    rw [hissued]
    rcases Table.update_eq_some hp with ⟨hp', hp⟩ | ⟨-, hp⟩
    · cases hp
      rw [Function.update_self, hp']
    · have hc := hs.table p c hp
      rw [Function.update_of_ne (Nat.ne_of_lt (hs.issued_lt hc))]
      exact hc
  pendingIds := hnative ▸ hs.pendingIds
  pendingIssued x hx := by
    rw [hnative] at hx
    obtain ⟨c, hc⟩ := hs.pendingIssued x hx
    refine ⟨c, ?_⟩
    rw [hissued, Function.update_of_ne (Nat.ne_of_lt (hs.issued_lt hc))]
    exact hc
  stage c p hc := by
    rw [hissued] at hc
    rcases Table.update_eq_some hc with ⟨hc', hc⟩ | ⟨hne, hc⟩
    · cases hc
      rw [hc']
      exact hstage
    · have hlt := (hs.ids c p hc).2
      refine (hs.stage c p hc).frame hfault ⟨hexecutor c hne, ?_, ?_, ?_, ?_⟩
      · rw [hinvocations]
      · rw [hsettlements]
      · rw [hcallbacks, Function.update_of_ne (by omega)]
      · intro x _
        rw [hnative]
  atMostOnce c := by
    rw [hsettlements]
    exact hs.atMostOnce c

theorem Consistent.move {s t : JavaInvoker rt} (hs : Consistent s) (hfault : s.fault = none)
    {c₀ p₀ : Nat} (hc₀ : s.issued c₀ = some p₀) (hcalls : t.calls = s.calls)
    (hissued : t.issued = s.issued) (hnext : t.nextPromiseId = s.nextPromiseId)
    (hwf : t.native.WellFormed) (hopened : t.native.opened = s.native.opened)
    (hwaiting : t.native.waiting = s.native.waiting)
    (hexecutor : ∀ c, c ≠ c₀ → t.executor c = s.executor c)
    (hinvocations : ∀ c, c ≠ c₀ → t.invocations c = s.invocations c)
    (hsettlements : ∀ c, c ≠ c₀ → t.settlements c = s.settlements c)
    (hcallbacks : ∀ p, p ≠ p₀ → t.callbacks p = s.callbacks p)
    (hcallback : ∀ c, t.callbacks p₀ = some c → c = c₀)
    (hpending : ∀ x : Completion, x.promiseId ≠ p₀ →
      (x ∈ t.native.pending ↔ x ∈ s.native.pending))
    (hnodup : (t.native.pending.map Completion.promiseId).Nodup)
    (hstage : Stage t c₀ p₀) : Consistent t where
  wellFormed := hwf
  opened := hopened.trans hs.opened
  waiting := hwaiting ▸ hs.waiting
  positive := hnext ▸ hs.positive
  quiet c hc := by
    rw [hcalls] at hc
    obtain ⟨hexec, hid, hset, hinv⟩ := hs.quiet c hc
    have hne : c ≠ c₀ := by
      rintro rfl
      rw [hid] at hc₀
      cases hc₀
    rw [hexecutor c hne, hissued, hsettlements c hne, hinvocations c hne]
    exact ⟨hexec, hid, hset, hinv⟩
  unissued c hc := by
    rw [hissued] at hc
    have hne : c ≠ c₀ := by
      rintro rfl
      rw [hc] at hc₀
      cases hc₀
    rw [hexecutor c hne]
    exact hs.unissued c hc
  ids c p hc := by
    rw [hissued] at hc
    rw [hnext]
    exact hs.ids c p hc
  injective c d p hc hd := by
    rw [hissued] at hc hd
    exact hs.injective c d p hc hd
  table p c hp := by
    rw [hissued]
    by_cases hne : p = p₀
    · rw [hne] at hp ⊢
      rw [hcallback c hp]
      exact hc₀
    · rw [hcallbacks p hne] at hp
      exact hs.table p c hp
  pendingIds := hnodup
  pendingIssued x hx := by
    rw [hissued]
    by_cases hne : x.promiseId = p₀
    · exact ⟨c₀, hne ▸ hc₀⟩
    · exact hs.pendingIssued x ((hpending x hne).mp hx)
  stage c p hc := by
    rw [hissued] at hc
    by_cases hne : c = c₀
    · rw [hne] at hc ⊢
      rw [hc₀] at hc
      cases hc
      exact hstage
    · have hp : p ≠ p₀ := by
        rintro rfl
        exact hne (hs.injective c c₀ p hc hc₀)
      refine (hs.stage c p hc).frame hfault
        ⟨hexecutor c hne, hinvocations c hne, hsettlements c hne, hcallbacks p hp, ?_⟩
      intro x hx
      exact hpending x (by rw [hx]; exact hp)
  atMostOnce c := by
    by_cases hne : c = c₀
    · rw [hne]
      exact hstage.settlements_length
    · rw [hsettlements c hne]
      exact hs.atMostOnce c

/-! ### Each step -/

theorem Consistent.callSync {s : JavaInvoker rt} (hs : Consistent s) (hfault : s.fault = none)
    (fn : U16String) (args : List rt.Value) (outcome : Outcome rt) :
    Consistent (s.callSync fn args outcome) := by
  have honce : (s.settlements s.calls.length).length ≤ 1 := hs.atMostOnce _
  rw [JavaInvoker.callSync]
  dsimp only
  split
  · exact hs.entered hfault rfl rfl rfl rfl rfl (Nat.le_refl _) (fun _ _ => rfl)
      (fun c hc => Function.update_of_ne hc _ _) honce
  · exact hs.entered hfault rfl rfl rfl rfl rfl (Nat.le_refl _) (fun _ _ => rfl)
      (fun c hc => Function.update_of_ne hc _ _) honce

theorem Consistent.settlements_once {s : JavaInvoker rt} (hs : Consistent s)
    (r : PromiseResult rt) :
    (Function.update s.settlements s.calls.length (s.settlements s.calls.length ++ [r])
      s.calls.length).length ≤ 1 := by
  rw [Function.update_self, (hs.quiet _ (Nat.le_refl _)).2.2.1]
  exact Nat.le_refl 1

theorem Consistent.submit {s t : JavaInvoker rt} (hs : Consistent s) (hfault : s.fault = none)
    (call : ApiCall rt) (callback : Nat) (args : List rt.Object)
    (refusal : Option JavaThrowable)
    (ht : t = (s.enter call).submit s.calls.length callback args refusal) : Consistent t := by
  obtain ⟨hexec, hissued, hnone, hinv⟩ := hs.quiet s.calls.length (Nat.le_refl _)
  have hpending : ∀ x ∈ s.native.pending, x.promiseId ≠ s.nextPromiseId :=
    fun x hx => Nat.ne_of_lt (hs.id_lt hx)
  cases refusal with
  | none =>
    subst ht
    refine hs.issue hfault rfl rfl (fun c hc => Function.update_of_ne hc _ _) rfl rfl rfl rfl rfl ?_
    exact .running _ (Function.update_self ..) rfl hinv hnone (Function.update_self ..) hpending
  | some exception =>
    rw [JavaInvoker.submit] at ht
    cases herror : javaExceptionToV8 exception with
    | error f =>
      rw [herror] at ht
      subst ht
      refine hs.issue hfault rfl rfl (fun _ _ => rfl) rfl rfl rfl rfl rfl ?_
      exact .crashed f rfl hexec hinv hnone (Function.update_self ..) hpending
    | ok e =>
      rw [herror] at ht
      subst ht
      refine hs.entered hfault rfl rfl rfl ?_ ?_ (Nat.le_succ _)
        (fun c hc => Function.update_of_ne hc _ _) (fun _ _ => rfl) (hs.settlements_once _)
      · change Function.update (Function.update s.issued _ _) _ none = s.issued
        rw [Function.update_idem, ← hissued, Function.update_eq_self]
      · change Function.update (Function.update s.callbacks s.nextPromiseId _)
          s.nextPromiseId none = s.callbacks
        rw [Function.update_idem, ← hs.fresh, Function.update_eq_self]

theorem Consistent.callAsync {s : JavaInvoker rt} (hs : Consistent s) (hfault : s.fault = none)
    (fn : U16String) (args : List rt.Value) (refusal : Option JavaThrowable) :
    Consistent (s.callAsync fn args refusal) := by
  have honce : (s.settlements s.calls.length).length ≤ 1 := hs.atMostOnce _
  have hentered : ∀ (f : Nat → Option (ApiResult rt)) (fault : Option (Nat × Fault)),
      Consistent { s.enter ⟨fn, args, s.methods fn, .async refusal⟩ with
        results := f, fault := fault } := fun f fault =>
    hs.entered hfault rfl rfl rfl rfl rfl (Nat.le_refl _) (fun _ _ => rfl) (fun _ _ => rfl) honce
  unfold JavaInvoker.callAsync
  dsimp only
  split
  · exact hentered _ _
  · exact hentered _ _
  · rw [JavaInvoker.invokeAsync]
    split
    · exact hs.entered hfault rfl rfl rfl rfl rfl (Nat.le_refl _)
        (fun c hc => Function.update_of_ne hc _ _) (fun _ _ => rfl) (hs.settlements_once _)
    · split
      · exact hentered _ _
      · exact hs.submit hfault _ _ _ _ rfl

/-- What becomes of a callback that has ended: its completion is in the native
queue, or the process dies. -/
theorem asyncCallback_cases (hlaw : rt.Lawful) {s t : JavaInvoker rt} {c p : Nat}
    {outcome : Outcome rt} (hp : 0 < p)
    (h : s.asyncCallback c p outcome = some t) :
    (∃ x native, x.promiseId = p ∧ Carries outcome x ∧ s.native.offer c x = some native ∧
        t = { s with native := native }) ∨
      (¬ (outcome.HandedOver ∧ outcome.Deliverable) ∧ ∃ f, t = s.crash c f) := by
  have hp : p ≠ 0 := by omega
  cases outcome with
  | returned o =>
    simp only [asyncCallback, hp, if_false, launcherCompletePromise, Option.mapM_none] at h
    by_cases hmarshal : Marshallable rt o
    · obtain ⟨value, v, hinit, hvalue, hscript⟩ := initFromJava_of_marshallable hlaw hmarshal true
      simp only [pure, Except.pure, hinit] at h
      obtain ⟨native, hoffer, rfl⟩ := Option.map_eq_some_iff.mp h
      refine .inl ⟨⟨p, none, value⟩, native, rfl,
        ⟨trivial, hmarshal, .resolved v, ?_, v, hscript, rfl⟩, hoffer, rfl⟩
      rw [Outcome.settlement, hvalue]
      rfl
    · refine .inr ⟨fun hgood => hmarshal hgood.2, ?_⟩
      rcases initFromJava_of_not_marshallable hmarshal with hinit | hinit
      · simp only [pure, Except.pure, hinit] at h
        exact ⟨_, (Option.some.inj h).symm⟩
      · simp only [pure, Except.pure, hinit] at h
        exact ⟨_, (Option.some.inj h).symm⟩
  | threw e =>
    by_cases hexception : e.isException = true
    · simp only [asyncCallback, hexception, if_true, hp, if_false, launcherCompletePromise] at h
      cases hmessage : e.message with
      | none =>
        simp only [Option.mapM_some, hmessage, jstringToString, Functor.map, Except.map] at h
        refine .inr ⟨?_, _, (Option.some.inj h).symm⟩
        rintro ⟨-, m, hm⟩
        rw [hmessage] at hm
        cases hm
      | some m =>
        simp only [Option.mapM_some, hmessage, jstringToString, Functor.map, Except.map,
          initFromJava] at h
        obtain ⟨native, hoffer, rfl⟩ := Option.map_eq_some_iff.mp h
        refine .inl ⟨⟨p, some m, .null⟩, native, rfl,
          ⟨hexception, ⟨m, hmessage⟩, .rejected (exceptionToV8 m), ?_, rfl⟩, hoffer, rfl⟩
        rw [Outcome.settlement, hmessage]
        rfl
    · simp only [asyncCallback, hexception] at h
      exact .inr ⟨fun hgood => hexception hgood.1, _, (Option.some.inj h).symm⟩

def ended (s : JavaInvoker rt) (c : Nat) (inv : Invocation rt) : JavaInvoker rt :=
  { s with
    executor := Function.update s.executor c none
    invocations := Function.update s.invocations c (some inv) }

theorem Consistent.issued_of_executor {s : JavaInvoker rt} (hs : Consistent s) {c : Nat}
    {task : Task rt} (htask : s.executor c = some task) : s.issued c = some task.promiseId := by
  cases hissued : s.issued c with
  | none =>
    rw [hs.unissued c hissued] at htask
    cases htask
  | some p =>
    have hstage := hs.stage c p hissued
    cases hstage with
    | running task' htask' hid =>
      rw [htask] at htask'
      cases htask'
      rw [hid]
    | queued _ _ hnone | settled _ _ hnone | lost _ hnone | crashed _ _ hnone =>
      rw [hnone] at htask
      cases htask

theorem Consistent.running {s : JavaInvoker rt} (hs : Consistent s) {c : Nat} {task : Task rt}
    (htask : s.executor c = some task) : s.settlements c = [] ∧ s.invocations c = none ∧
      s.callbacks task.promiseId = some c ∧
      ∀ x ∈ s.native.pending, x.promiseId ≠ task.promiseId := by
  cases hs.stage c _ (hs.issued_of_executor htask) with
  | running _ _ _ hinv hnone htable hpending => exact ⟨hnone, hinv, htable, hpending⟩
  | queued _ _ hnone | settled _ _ hnone | lost _ hnone | crashed _ _ hnone =>
    rw [hnone] at htask
    cases htask

theorem Consistent.finish (hlaw : rt.Lawful) {s t : JavaInvoker rt} (hs : Consistent s)
    (hfault : s.fault = none) {c : Nat} {outcome : Outcome rt}
    (h : s.finish c outcome = some t) : Consistent t := by
  rw [JavaInvoker.finish] at h
  split at h
  · cases h
  rename_i task htask
  have hissued := hs.issued_of_executor htask
  obtain ⟨hnone, -, htable, hpending⟩ := hs.running htask
  have hpos := (hs.ids c _ hissued).1
  have hcallback : ∀ d, s.callbacks task.promiseId = some d → d = c := by
    intro d hd
    rw [htable] at hd
    cases hd
    rfl
  obtain ⟨x, native, hid, hcarries, hoffer, rfl⟩ | ⟨hbad, f, rfl⟩ :=
    asyncCallback_cases hlaw hpos h
  · obtain ⟨hpend, hopened, hwaiting⟩ := Mailbox.pending_offer hs.opened hoffer
    refine hs.move hfault hissued rfl rfl rfl (hs.wellFormed.offer hoffer)
      (hopened.trans hs.opened.symm) hwaiting (fun d hd => Function.update_of_ne hd _ _)
      (fun d hd => Function.update_of_ne hd _ _) (fun _ _ => rfl) (fun _ _ => rfl) hcallback
      (fun y hy => ?_) ?_ ?_
    · have hne : y ≠ x := by
        rintro rfl
        exact hy hid
      rw [hpend, List.mem_append, List.mem_singleton, or_iff_left hne]
    · change (native.pending.map Completion.promiseId).Nodup
      rw [hpend, List.map_append, List.map_singleton, ← List.concat_eq_append]
      refine hs.pendingIds.concat ?_
      intro hmem
      obtain ⟨y, hy, hyid⟩ := List.mem_map.mp hmem
      exact hpending y hy (hyid.trans hid)
    · refine .queued _ x (Function.update_self ..) (Function.update_self ..) ?_ hid hcarries
        hnone htable
      change x ∈ native.pending
      rw [hpend]
      exact List.mem_append_right _ (List.mem_singleton_self x)
  · refine hs.move hfault hissued rfl rfl rfl hs.wellFormed rfl rfl
      (fun d hd => Function.update_of_ne hd _ _) (fun d hd => Function.update_of_ne hd _ _)
      (fun _ _ => rfl) (fun _ _ => rfl) hcallback (fun _ _ => Iff.rfl) hs.pendingIds ?_
    exact .lost _ (Function.update_self ..) (Function.update_self ..) hbad hnone htable hpending

theorem Consistent.turn {s : JavaInvoker rt} (hs : Consistent s) (hfault : s.fault = none)
    {turn : Mailbox.Turn} {native : Mailbox Nat Completion}
    (h : s.native.turn turn = some native) : Consistent { s with native := native } := by
  obtain ⟨hpending, hopened, hwaiting⟩ := Mailbox.pending_turn h
  exact {
    wellFormed := hs.wellFormed.moves (Mailbox.turn_moves (fun _ => True) h)
    opened := hopened.trans hs.opened
    waiting := hwaiting ▸ hs.waiting
    positive := hs.positive
    quiet := hs.quiet
    unissued := hs.unissued
    ids := hs.ids
    injective := hs.injective
    table := hs.table
    pendingIds := hpending ▸ hs.pendingIds
    pendingIssued := hpending ▸ hs.pendingIssued
    stage := fun c p hc => (hs.stage c p hc).frame hfault
      ⟨rfl, rfl, rfl, rfl, fun x _ => by rw [hpending]⟩
    atMostOnce := hs.atMostOnce }

theorem completePromise_of_settles {s : JavaInvoker rt} {x : Completion} {c : Nat}
    {r : PromiseResult rt} (htable : s.callbacks x.promiseId = some c) (hsettles : x.Settles r) :
    s.completePromise x = (s.erase x.promiseId).settle c r := by
  rw [completePromise]
  rw [Completion.Settles] at hsettles
  rw [htable]
  dsimp only
  cases hmsg : x.errorMsg with
  | some m =>
    rw [hmsg] at hsettles
    subst hsettles
    rfl
  | none =>
    rw [hmsg] at hsettles
    obtain ⟨v, hscript, rfl⟩ := hsettles
    dsimp only
    rw [hscript]

theorem Consistent.queued {s : JavaInvoker rt} (hs : Consistent s) {x : Completion}
    (hx : x ∈ s.native.pending) : ∃ c inv, s.issued c = some x.promiseId ∧
      s.executor c = none ∧ s.invocations c = some inv ∧ Carries inv.outcome x ∧
      s.settlements c = [] ∧ s.callbacks x.promiseId = some c := by
  obtain ⟨c, hissued⟩ := hs.pendingIssued x hx
  cases hs.stage c _ hissued with
  | running _ _ _ _ _ _ hpending => exact absurd rfl (hpending x hx)
  | queued inv y htask hinv hy hid hcarries hnone htable =>
    have hyx : y = x := List.inj_on_of_nodup_map hs.pendingIds hy hx hid
    subst hyx
    exact ⟨c, inv, hissued, htask, hinv, hcarries, hnone, htable⟩
  | settled _ _ _ _ _ _ _ _ _ hpending => exact absurd rfl (hpending x hx)
  | lost _ _ _ _ _ _ hpending => exact absurd rfl (hpending x hx)
  | crashed _ _ _ _ _ _ hpending => exact absurd rfl (hpending x hx)

structure Completing (s t : JavaInvoker rt) (x : Completion) (native : Mailbox Nat Completion)
    (c : Nat) (inv : Invocation rt) (r : PromiseResult rt) : Prop where
  handOver : s.native.handOver = some (x, native)
  issued : s.issued c = some x.promiseId
  executor : s.executor c = none
  invocations : s.invocations c = some inv
  carries : Carries inv.outcome x
  owed : inv.outcome.settlement = some r
  unsettled : s.settlements c = []
  table : s.callbacks x.promiseId = some c
  result : t = ({ s with native := native }.erase x.promiseId).settle c r

theorem Consistent.completing {s t : JavaInvoker rt} (hs : Consistent s)
    (h : s.completeNext = some t) : ∃ x native c inv r, Completing s t x native c inv r := by
  rw [JavaInvoker.completeNext] at h
  split at h
  · cases h
  rename_i x native hhand
  have hx : x ∈ s.native.pending := by
    rw [(Mailbox.pending_handOver hhand).1]
    exact List.mem_cons_self
  obtain ⟨c, inv, hissued, htask, hinv, hcarries, hnone, htable⟩ := hs.queued hx
  obtain ⟨r, howed, hsettles⟩ := hcarries.settles
  have hcomplete : { s with native := native }.completePromise x =
      ({ s with native := native }.erase x.promiseId).settle c r :=
    completePromise_of_settles htable hsettles
  rw [hcomplete] at h
  exact ⟨x, native, c, inv, r, hhand, hissued, htask, hinv, hcarries, howed, hnone, htable,
    (Option.some.inj h).symm⟩

theorem Completing.settlements {s t : JavaInvoker rt} {x : Completion}
    {native : Mailbox Nat Completion} {c : Nat} {inv : Invocation rt} {r : PromiseResult rt}
    (h : Completing s t x native c inv r) : t.settlements c = [r] := by
  rw [h.result]
  change Function.update s.settlements c (s.settlements c ++ [r]) c = [r]
  rw [Function.update_self, h.unsettled]
  rfl

theorem Consistent.completeNext {s t : JavaInvoker rt} (hs : Consistent s)
    (hfault : s.fault = none) (h : s.completeNext = some t) : Consistent t := by
  obtain ⟨x, native, c, inv, r, hstep⟩ := hs.completing h
  have honce := hstep.settlements
  obtain ⟨hhand, hissued, htask, hinv, hcarries, howed, -, -, rfl⟩ := hstep
  obtain ⟨hpending, hopened, hwaiting⟩ := Mailbox.pending_handOver hhand
  have hids := hs.pendingIds
  rw [hpending, List.map_cons, List.nodup_cons] at hids
  refine hs.move hfault hissued rfl rfl rfl (hs.wellFormed.handOver hhand) hopened hwaiting
    (fun _ _ => rfl) (fun _ _ => rfl) (fun d hd => Function.update_of_ne hd _ _)
    (fun p hp => Function.update_of_ne hp _ _) (fun d hd => ?_) (fun y hy => ?_) hids.2 ?_
  · have hd : Function.update s.callbacks x.promiseId none x.promiseId = some d := hd
    rw [Function.update_self] at hd
    cases hd
  · have hne : y ≠ x := by
      rintro rfl
      exact hy rfl
    change y ∈ native.pending ↔ _
    rw [hpending, List.mem_cons, or_iff_right hne]
  · refine .settled inv r htask hinv hcarries.handedOver hcarries.deliverable howed honce
      (Function.update_self ..) ?_
    intro y hy hid
    exact hids.1 (List.mem_map.mpr ⟨y, hy, hid⟩)

theorem Consistent.step (hlaw : rt.Lawful) {s t : JavaInvoker rt} {a : Action rt}
    (hs : Consistent s) (h : s.step a = some t) : Consistent t := by
  unfold JavaInvoker.step at h
  split at h
  · cases h
  rename_i hfault
  cases a with
  | register fn callback =>
    cases h
    exact { hs with
      stage := fun c p hc => (hs.stage c p hc).frame hfault
        ⟨rfl, rfl, rfl, rfl, fun _ _ => Iff.rfl⟩ }
  | callJavaSync fn args outcome =>
    cases h
    exact hs.callSync hfault fn args outcome
  | callJavaAsync fn args refusal =>
    cases h
    exact hs.callAsync hfault fn args refusal
  | finish c outcome => exact hs.finish hlaw hfault h
  | loop turn =>
    obtain ⟨native, hturn, rfl⟩ := Option.map_eq_some_iff.mp h
    exact hs.turn hfault hturn
  | completeNext => exact hs.completeNext hfault h

theorem consistent_of_reachable (hlaw : rt.Lawful) {s : JavaInvoker rt}
    (h : (machine rt).Reachable s) : Consistent s := by
  apply h.invariant Consistent
  · rintro s rfl
    exact .initial
  · intro s a t hs hstep
    exact hs.step hlaw hstep

/-! ## When every call is settled once -/

/-- Every completion handed to `completePromise` carries a marshallable object or
an exception with a message. -/
def AllDeliverable (s : JavaInvoker rt) : Prop :=
  ∀ c p inv, s.issued c = some p → s.invocations c = some inv → inv.outcome.HandedOver →
    inv.outcome.Deliverable

theorem Consistent.table_iff {s : JavaInvoker rt} (hs : Consistent s) (hdrained : s.Drained)
    (hgood : s.AllDeliverable) (p c : Nat) :
    s.callbacks p = some c ↔ s.issued c = some p ∧ ¬ s.Completed c := by
  have hkept : s.issued c = some p → (s.callbacks p = some c ↔ ¬ s.Completed c) := by
    intro hissued
    cases hs.stage c p hissued with
    | running _ _ _ hinv _ htable =>
      simp [htable, Completed, hinv]
    | queued _ x _ _ hx =>
      rw [hdrained] at hx
      cases hx
    | settled inv _ _ hinv hhanded _ _ _ htable =>
      simp [htable, Completed, hinv, hhanded]
    | lost inv _ hinv hbad _ htable =>
      have hnot : ¬ inv.outcome.HandedOver :=
        fun hhanded => hbad ⟨hhanded, hgood c p inv hissued hinv hhanded⟩
      simp [htable, Completed, hinv, hnot]
    | crashed _ _ _ hinv _ htable =>
      simp [htable, Completed, hinv]
  constructor
  · intro hp
    have hissued := hs.table p c hp
    exact ⟨hissued, (hkept hissued).mp hp⟩
  · rintro ⟨hissued, hnot⟩
    exact (hkept hissued).mpr hnot

/-- Whenever the native queue has been drained, every call whose completion was
handed over is settled once, with its own outcome, exactly if these outcomes
could all be delivered. -/
theorem settledOnce_iff (hlaw : rt.Lawful) {s : JavaInvoker rt} (h : (machine rt).Reachable s)
    (hdrained : s.Drained) : s.SettledOnce ↔ s.AllDeliverable := by
  have hs := consistent_of_reachable hlaw h
  constructor
  · intro hsettled c p inv hissued hinv hhanded
    obtain ⟨r, hr, -⟩ := hsettled.own c p inv hissued hinv hhanded
    cases hs.stage c p hissued with
    | settled inv' _ _ hinv' _ hdeliverable =>
      rw [hinv] at hinv'
      cases hinv'
      exact hdeliverable
    | running _ _ _ _ hnone | queued _ _ _ _ _ _ _ hnone | lost _ _ _ _ hnone
    | crashed _ _ _ _ hnone =>
      rw [hnone] at hr
      cases hr
  · intro hgood
    refine ⟨?_, hs.atMostOnce, hs.table_iff hdrained hgood⟩
    intro c p inv hissued hinv hhanded
    cases hs.stage c p hissued with
    | settled inv' r _ hinv' _ _ howed honce =>
      rw [hinv] at hinv'
      cases hinv'
      refine ⟨r, honce, fun r' hr' => ?_⟩
      rw [howed] at hr'
      exact Option.some.inj hr'
    | running _ _ _ hinv' | crashed _ _ _ hinv' =>
      rw [hinv] at hinv'
      cases hinv'
    | queued _ _ _ _ hx =>
      rw [hdrained] at hx
      cases hx
    | lost inv' _ hinv' hbad =>
      rw [hinv] at hinv'
      cases hinv'
      exact absurd ⟨hhanded, hgood c p inv hissued hinv hhanded⟩ hbad

def singleCall (outcome : Outcome Sample.runtime) : List (Action Sample.runtime) :=
  [.register (u16 "f") 7, .callJavaAsync (u16 "f") [.boolean true] none, .finish 0 outcome]

theorem settledOnce_boolean : ∃ s : JavaInvoker Sample.runtime,
    (machine Sample.runtime).run (initial Sample.runtime)
      (singleCall (.returned (.boolean false)) ++ [.loop .deliver, .loop .take, .completeNext]) =
        some s ∧
    s.settlements 0 = [.resolved (.boolean false)] ∧ s.SettledOnce := by
  have hinit : (machine Sample.runtime).Reachable (initial Sample.runtime) := .start rfl
  obtain ⟨s, hs, hsettlements, hdrained, hcalls, hinv⟩ : ∃ s : JavaInvoker Sample.runtime,
      (machine Sample.runtime).run (initial Sample.runtime)
        (singleCall (.returned (.boolean false)) ++ [.loop .deliver, .loop .take, .completeNext]) =
          some s ∧
      s.settlements 0 = [.resolved (.boolean false)] ∧ s.native.pending = [] ∧ s.calls.length = 1 ∧
      s.invocations 0 = some ⟨7, [.boolean true], .returned (.boolean false)⟩ :=
    ⟨_, rfl, rfl, rfl, rfl, rfl⟩
  have hreach := hinit.run hs
  refine ⟨s, hs, hsettlements, (settledOnce_iff Sample.runtime_lawful hreach hdrained).mpr ?_⟩
  intro c p inv hissued hc _
  have hlt := (consistent_of_reachable Sample.runtime_lawful hreach).issued_lt hissued
  have hc0 : c = 0 := by omega
  rw [hc0, hinv] at hc
  cases hc
  trivial

/-- An object that cannot be marshalled, and an exception without a message, take
the process down. -/
theorem not_settledOnce_unmarshallable_or_null_message :
    (∃ s : JavaInvoker Sample.runtime, (machine Sample.runtime).run (initial Sample.runtime)
        (singleCall (.returned (.other (u16 "java.util.ArrayList")))) = some s ∧
      s.Drained ∧ s.fault = some (0, .uncaught) ∧ s.settlements 0 = [] ∧ ¬ s.SettledOnce) ∧
    ∃ s : JavaInvoker Sample.runtime, (machine Sample.runtime).run (initial Sample.runtime)
        (singleCall (.threw ⟨true, none⟩)) = some s ∧
      s.Drained ∧ s.fault = some (0, .nullString) ∧ ¬ s.SettledOnce := by
  constructor
  · refine ⟨_, rfl, rfl, rfl, rfl, fun h => ?_⟩
    obtain ⟨r, hr, -⟩ := h.own 0 1 _ rfl rfl trivial
    cases hr
  · refine ⟨_, rfl, rfl, rfl, fun h => ?_⟩
    obtain ⟨r, hr, -⟩ := h.own 0 1 _ rfl rfl rfl
    cases hr

end JavaInvoker

end AlmondAndroid.Bridge
