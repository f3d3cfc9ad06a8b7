import AlmondAndroid.Bridge.Settlements

/-!
# How the calls to Java stand

What a call does on entering depends on the call alone: its arguments, what its
name is registered to, and what the environment contributes. From then on only
the executor and the native queue act on it, so that every call of a reachable
state stands as its entry left it, up to its own task and its own settlement.
-/

namespace AlmondAndroid.Bridge

open Library

variable {rt : Runtime}

namespace JavaInvoker

section Entry

variable (rt)

inductive Entry
  | crashed (f : Fault)
  | dropped
  | rejected (e : JSError)
  | submitted (callback : Nat) (args : List rt.Object)

/-- What `call_java_async` does with a call, as far as it depends on the call only. -/
def asyncEntry (fn : U16String) (args : List rt.Value) (callback : Option Nat)
    (refusal : Option JavaThrowable) : Entry rt :=
  match scriptArguments rt args with
  | .error f => .crashed f
  | .ok none => .dropped
  | .ok (some arguments) =>
      match callback with
      | none => .rejected (noSuchFunction fn)
      | some callback =>
          match javaArguments rt arguments with
          | .error f => .crashed f
          | .ok args =>
              match refusal with
              | none => .submitted callback args
              | some exception =>
                  match javaExceptionToV8 exception with
                  | .error f => .crashed f
                  | .ok e => .rejected e

end Entry

/-- How a call that was entered so stands at any later time. -/
def Stands (s : JavaInvoker rt) (c : Nat) : Entry rt → Prop
  | .crashed f => s.fault = some (c, f) ∧ s.results c = none ∧ s.invocations c = none
  | .dropped => s.results c = some (.returned .undefined) ∧ s.invocations c = none ∧
      s.issued c = none
  | .rejected e => s.results c = some .promise ∧ s.invocations c = none ∧
      s.issued c = none ∧ s.settlements c = [.rejected e]
  | .submitted callback args => s.results c = some .promise ∧ (∃ p, s.issued c = some p) ∧
      (∀ task, s.executor c = some task → task.callback = callback ∧ task.args = args) ∧
      (∀ inv, s.invocations c = some inv → inv.callback = callback ∧ inv.args = args) ∧
      (s.executor c = none → ∃ inv, s.invocations c = some inv)

/-- How a synchronous call stands once it is over. -/
structure Returned (s : JavaInvoker rt) (c : Nat) (invocation : Option (Invocation rt))
    (result : Except Fault (ApiResult rt)) : Prop where
  invocations : s.invocations c = invocation
  issued : s.issued c = none
  ok : ∀ r, result = .ok r → s.results c = some r
  error : ∀ f, result = .error f → s.results c = none ∧ s.fault = some (c, f)

def Recorded (s : JavaInvoker rt) (c : Nat) (call : ApiCall rt) : Prop :=
  match call.mode with
  | .sync outcome =>
      let (invocation, result) := callJavaSync rt call.fn call.callback call.args outcome
      Returned s c invocation result
  | .async refusal => Stands s c (asyncEntry rt call.fn call.args call.callback refusal)

/-- What a step may change of a call already made: its task ends, and its promise
is settled if it was given an id. -/
structure Kept (s t : JavaInvoker rt) (c : Nat) : Prop where
  results : t.results c = s.results c
  settlements : s.issued c = none → t.settlements c = s.settlements c
  issued : t.issued c = s.issued c
  task : (t.executor c = s.executor c ∧ t.invocations c = s.invocations c) ∨
    ∃ task outcome, s.executor c = some task ∧ t.executor c = none ∧
      t.invocations c = some ⟨task.callback, task.args, outcome⟩

theorem Kept.invocations_of_unissued {s t : JavaInvoker rt} {c : Nat} (hkept : Kept s t c)
    (hs : Consistent s) (hissued : s.issued c = none) : t.invocations c = s.invocations c := by
  rcases hkept.task with ⟨-, h⟩ | ⟨task, outcome, htask, -⟩
  · exact h
  · rw [hs.unissued c hissued] at htask
    cases htask

theorem Stands.kept {s t : JavaInvoker rt} {c : Nat} {entry : Entry rt} (hs : Consistent s)
    (hfault : s.fault = none) (hkept : Kept s t c) (h : Stands s c entry) : Stands t c entry := by
  cases entry with
  | crashed f =>
    obtain ⟨hcrashed, -, -⟩ := h
    rw [hfault] at hcrashed
    cases hcrashed
  | dropped =>
    obtain ⟨hresult, hinv, hissued⟩ := h
    exact ⟨hkept.results.trans hresult, (hkept.invocations_of_unissued hs hissued).trans hinv,
      hkept.issued.trans hissued⟩
  | rejected e =>
    obtain ⟨hresult, hinv, hissued, hsettled⟩ := h
    exact ⟨hkept.results.trans hresult, (hkept.invocations_of_unissued hs hissued).trans hinv,
      hkept.issued.trans hissued, (hkept.settlements hissued).trans hsettled⟩
  | submitted callback args =>
    obtain ⟨hresult, ⟨p, hp⟩, htask, hinv, hended⟩ := h
    refine ⟨hkept.results.trans hresult, ⟨p, hkept.issued.trans hp⟩, ?_⟩
    rcases hkept.task with ⟨hexec, hsame⟩ | ⟨task, outcome, hrunning, hexec, hnew⟩
    · rw [hexec, hsame]
      exact ⟨htask, hinv, hended⟩
    · rw [hexec, hnew]
      refine ⟨fun task' h => ?_, fun inv h => ?_, fun _ => ⟨_, rfl⟩⟩
      · cases h
      · cases h
        exact htask task hrunning

theorem Recorded.kept {s t : JavaInvoker rt} {c : Nat} {call : ApiCall rt} (hs : Consistent s)
    (hfault : s.fault = none) (hkept : Kept s t c) (h : Recorded s c call) :
    Recorded t c call := by
  unfold Recorded at h ⊢
  split at h
  · exact {
      invocations := (hkept.invocations_of_unissued hs h.issued).trans h.invocations
      issued := hkept.issued.trans h.issued
      ok := fun r hr => hkept.results.trans (h.ok r hr)
      error := fun f hf => by
        have hcrashed := (h.error f hf).2
        rw [hfault] at hcrashed
        cases hcrashed }
  · exact Stands.kept hs hfault hkept h

/-! ### The calls already made -/

/-- One call has been added, and nothing changes for the others. -/
structure Entered (s t : JavaInvoker rt) (call : ApiCall rt) : Prop where
  calls : t.calls = s.calls ++ [call]
  results : ∀ c, c ≠ s.calls.length → t.results c = s.results c
  settlements : ∀ c, c ≠ s.calls.length → t.settlements c = s.settlements c
  issued : ∀ c, c ≠ s.calls.length → t.issued c = s.issued c
  executor : ∀ c, c ≠ s.calls.length → t.executor c = s.executor c
  invocations : ∀ c, c ≠ s.calls.length → t.invocations c = s.invocations c

theorem Entered.kept {s t : JavaInvoker rt} {call : ApiCall rt} (h : Entered s t call) {c : Nat}
    (hc : c < s.calls.length) : Kept s t c := by
  have hne : c ≠ s.calls.length := Nat.ne_of_lt hc
  exact ⟨h.results c hne, fun _ => h.settlements c hne, h.issued c hne,
    .inl ⟨h.executor c hne, h.invocations c hne⟩⟩

theorem callSync_entered (s : JavaInvoker rt) (fn : U16String) (args : List rt.Value)
    (outcome : Outcome rt) :
    Entered s (s.callSync fn args outcome) ⟨fn, args, s.methods fn, .sync outcome⟩ := by
  rw [callSync]
  dsimp only
  split
  · exact ⟨rfl, fun _ _ => rfl, fun _ _ => rfl, fun _ _ => rfl, fun _ _ => rfl,
      fun _ hc => Function.update_of_ne hc _ _⟩
  · exact ⟨rfl, fun _ hc => Function.update_of_ne hc _ _, fun _ _ => rfl, fun _ _ => rfl,
      fun _ _ => rfl, fun _ hc => Function.update_of_ne hc _ _⟩

theorem submit_entered (s : JavaInvoker rt) (call : ApiCall rt) (callback : Nat)
    (args : List rt.Object) (refusal : Option JavaThrowable) :
    Entered s ((s.enter call).submit s.calls.length callback args refusal) call := by
  cases refusal with
  | none =>
    exact ⟨rfl, fun _ hc => Function.update_of_ne hc _ _, fun _ _ => rfl,
      fun _ hc => Function.update_of_ne hc _ _, fun _ hc => Function.update_of_ne hc _ _,
      fun _ _ => rfl⟩
  | some exception =>
    rw [submit]
    split
    · exact ⟨rfl, fun _ _ => rfl, fun _ _ => rfl, fun _ hc => Function.update_of_ne hc _ _,
        fun _ _ => rfl, fun _ _ => rfl⟩
    · refine ⟨rfl, fun _ hc => Function.update_of_ne hc _ _,
        fun _ hc => Function.update_of_ne hc _ _, fun c hc => ?_, fun _ _ => rfl, fun _ _ => rfl⟩
      change Function.update (Function.update s.issued _ _) _ none c = s.issued c
      rw [Function.update_of_ne hc, Function.update_of_ne hc]

theorem callAsync_entered (s : JavaInvoker rt) (fn : U16String) (args : List rt.Value)
    (refusal : Option JavaThrowable) :
    Entered s (s.callAsync fn args refusal) ⟨fn, args, s.methods fn, .async refusal⟩ := by
  unfold callAsync
  dsimp only
  split
  · exact ⟨rfl, fun _ _ => rfl, fun _ _ => rfl, fun _ _ => rfl, fun _ _ => rfl, fun _ _ => rfl⟩
  · exact ⟨rfl, fun _ hc => Function.update_of_ne hc _ _, fun _ _ => rfl, fun _ _ => rfl,
      fun _ _ => rfl, fun _ _ => rfl⟩
  · rw [invokeAsync]
    split
    · exact ⟨rfl, fun _ hc => Function.update_of_ne hc _ _,
        fun _ hc => Function.update_of_ne hc _ _, fun _ _ => rfl, fun _ _ => rfl, fun _ _ => rfl⟩
    · split
      · exact ⟨rfl, fun _ _ => rfl, fun _ _ => rfl, fun _ _ => rfl, fun _ _ => rfl,
          fun _ _ => rfl⟩
      · exact submit_entered s _ _ _ _

theorem Kept.of_eq {s t : JavaInvoker rt} {c : Nat} (hresults : t.results = s.results)
    (hsettlements : t.settlements = s.settlements) (hissued : t.issued = s.issued)
    (hexecutor : t.executor = s.executor) (hinvocations : t.invocations = s.invocations) :
    Kept s t c := by
  refine ⟨?_, fun _ => ?_, ?_, .inl ⟨?_, ?_⟩⟩
  · rw [hresults]
  · rw [hsettlements]
  · rw [hissued]
  · rw [hexecutor]
  · rw [hinvocations]

theorem finish_kept (hlaw : rt.Lawful) {s t : JavaInvoker rt} (hs : Consistent s) {c d : Nat}
    {outcome : Outcome rt} (h : s.finish d outcome = some t) :
    Kept s t c ∧ t.calls = s.calls ∧ t.results = s.results := by
  rw [finish] at h
  split at h
  · cases h
  rename_i task htask
  have hpos := (hs.ids d _ (hs.issued_of_executor htask)).1
  have hended : ∀ native fault, Kept s { s.ended d ⟨task.callback, task.args, outcome⟩ with
      native := native, fault := fault } c := by
    intro native fault
    refine ⟨rfl, fun _ => rfl, rfl, ?_⟩
    by_cases hcd : c = d
    · rw [hcd]
      exact .inr ⟨task, outcome, htask, Function.update_self .., Function.update_self ..⟩
    · exact .inl ⟨Function.update_of_ne hcd _ _, Function.update_of_ne hcd _ _⟩
  obtain ⟨x, native, -, -, -, rfl⟩ | ⟨-, f, rfl⟩ := asyncCallback_cases hlaw hpos h
  · exact ⟨hended native s.fault, rfl, rfl⟩
  · exact ⟨hended s.native (some (d, f)), rfl, rfl⟩

theorem completeNext_kept {s t : JavaInvoker rt} (hs : Consistent s) {c : Nat}
    (h : s.completeNext = some t) :
    Kept s t c ∧ t.calls = s.calls ∧ t.results = s.results := by
  obtain ⟨x, native, d, inv, r, hstep⟩ := hs.completing h
  rw [hstep.result]
  refine ⟨⟨rfl, fun hissued => ?_, rfl, .inl ⟨rfl, rfl⟩⟩, rfl, rfl⟩
  have hne : c ≠ d := by
    rintro rfl
    rw [hstep.issued] at hissued
    cases hissued
  exact Function.update_of_ne hne _ _

/-! ### The call just made -/

theorem callSync_recorded {s : JavaInvoker rt} (hs : Consistent s)
    (hquiet : s.results s.calls.length = none) (fn : U16String) (args : List rt.Value)
    (outcome : Outcome rt) : Recorded (s.callSync fn args outcome) s.calls.length
      ⟨fn, args, s.methods fn, .sync outcome⟩ := by
  have hissued := (hs.quiet s.calls.length (Nat.le_refl _)).2.1
  rw [Recorded, callSync]
  dsimp only
  cases hresult : (callJavaSync rt fn (s.methods fn) args outcome).2 with
  | error f =>
    refine ⟨Function.update_self .., hissued, fun r hr => ?_, fun g hg => ?_⟩
    · cases hr
    · cases hg
      exact ⟨hquiet, rfl⟩
  | ok r =>
    refine ⟨Function.update_self .., hissued, fun r' hr => ?_, fun g hg => ?_⟩
    · cases hr
      exact Function.update_self ..
    · cases hg

theorem submit_stands {s : JavaInvoker rt} (hs : Consistent s)
    (hquiet : s.results s.calls.length = none) (call : ApiCall rt) (callback : Nat)
    (args : List rt.Object) (refusal : Option JavaThrowable) :
    Stands ((s.enter call).submit s.calls.length callback args refusal) s.calls.length
      (match refusal with
        | none => .submitted callback args
        | some exception =>
            match javaExceptionToV8 exception with
            | .error f => .crashed f
            | .ok e => .rejected e) := by
  obtain ⟨-, -, hnone, hinv⟩ := hs.quiet s.calls.length (Nat.le_refl _)
  cases refusal with
  | none =>
    refine ⟨Function.update_self .., ⟨_, Function.update_self ..⟩, fun task htask => ?_,
      fun inv h => ?_, fun htask => ?_⟩
    · have htask : Function.update s.executor s.calls.length
          (some ⟨s.nextPromiseId, callback, args⟩) s.calls.length = some task := htask
      rw [Function.update_self] at htask
      cases htask
      exact ⟨rfl, rfl⟩
    · have h : s.invocations s.calls.length = some inv := h
      rw [hinv] at h
      cases h
    · have htask : Function.update s.executor s.calls.length
          (some ⟨s.nextPromiseId, callback, args⟩) s.calls.length = none := htask
      rw [Function.update_self] at htask
      cases htask
  | some exception =>
    rw [submit]
    dsimp only
    cases herror : javaExceptionToV8 exception with
    | error f => exact ⟨rfl, hquiet, hinv⟩
    | ok e =>
      refine ⟨Function.update_self .., hinv, Function.update_self .., ?_⟩
      change Function.update s.settlements _ (s.settlements _ ++ [_]) _ = _
      rw [Function.update_self, hnone]
      rfl

theorem callAsync_recorded {s : JavaInvoker rt} (hs : Consistent s)
    (hquiet : s.results s.calls.length = none) (fn : U16String) (args : List rt.Value)
    (refusal : Option JavaThrowable) : Recorded (s.callAsync fn args refusal) s.calls.length
      ⟨fn, args, s.methods fn, .async refusal⟩ := by
  obtain ⟨-, hissued, hnone, hinv⟩ := hs.quiet s.calls.length (Nat.le_refl _)
  unfold Recorded asyncEntry callAsync
  dsimp only
  cases hargs : scriptArguments rt args with
  | error f => exact ⟨rfl, hquiet, hinv⟩
  | ok arguments =>
    cases arguments with
    | none => exact ⟨Function.update_self .., hinv, hissued⟩
    | some arguments =>
      dsimp only
      rw [invokeAsync]
      change Stands (match s.methods fn with | none => _ | some callback => _) _ _
      cases hcallback : s.methods fn with
      | none =>
        refine ⟨Function.update_self .., hinv, hissued, ?_⟩
        change Function.update s.settlements _ (s.settlements _ ++ [_]) _ = _
        rw [Function.update_self, hnone]
        rfl
      | some callback =>
        dsimp only
        cases hobjects : javaArguments rt arguments with
        | error f => exact ⟨rfl, hquiet, hinv⟩
        | ok objects => exact submit_stands hs hquiet _ callback objects refusal

/-! ### Every reachable state -/

structure Recording (s : JavaInvoker rt) : Prop where
  consistent : Consistent s
  quiet : ∀ c, s.calls.length ≤ c → s.results c = none
  recorded : ∀ c call, s.calls[c]? = some call → Recorded s c call

theorem Recording.enter {s t : JavaInvoker rt} (hs : Recording s) (hfault : s.fault = none)
    (ht : Consistent t) {call : ApiCall rt} (hentered : Entered s t call)
    (hrecorded : Recorded t s.calls.length call) : Recording t where
  consistent := ht
  quiet c hc := by
    rw [hentered.calls, List.length_append, List.length_singleton] at hc
    rw [hentered.results c (by omega)]
    exact hs.quiet c (by omega)
  recorded c call' hcall := by
    rw [hentered.calls] at hcall
    rcases Nat.lt_or_ge c s.calls.length with hlt | hge
    · rw [List.getElem?_append_left hlt] at hcall
      exact (hs.recorded c call' hcall).kept hs.consistent hfault (hentered.kept hlt)
    · rw [List.getElem?_append_right hge, List.getElem?_singleton] at hcall
      split at hcall
      · cases hcall
        have hc : c = s.calls.length := by omega
        rw [hc]
        exact hrecorded
      · cases hcall

theorem Recording.kept {s t : JavaInvoker rt} (hs : Recording s) (hfault : s.fault = none)
    (ht : Consistent t) (hkept : ∀ c, Kept s t c) (hcalls : t.calls = s.calls)
    (hresults : t.results = s.results) : Recording t where
  consistent := ht
  quiet c hc := by
    rw [hcalls] at hc
    rw [hresults]
    exact hs.quiet c hc
  recorded c call hcall := by
    rw [hcalls] at hcall
    exact (hs.recorded c call hcall).kept hs.consistent hfault (hkept c)

theorem Recording.step (hlaw : rt.Lawful) {s t : JavaInvoker rt} {a : Action rt}
    (hs : Recording s) (h : s.step a = some t) : Recording t := by
  have ht : Consistent t := hs.consistent.step hlaw h
  unfold JavaInvoker.step at h
  split at h
  · cases h
  rename_i hfault
  have hquiet := hs.quiet s.calls.length (Nat.le_refl _)
  cases a with
  | register fn callback =>
    cases h
    exact hs.kept hfault ht (fun _ => .of_eq rfl rfl rfl rfl rfl) rfl rfl
  | callJavaSync fn args outcome =>
    cases h
    exact hs.enter hfault ht (callSync_entered s fn args outcome)
      (callSync_recorded hs.consistent hquiet fn args outcome)
  | callJavaAsync fn args refusal =>
    cases h
    exact hs.enter hfault ht (callAsync_entered s fn args refusal)
      (callAsync_recorded hs.consistent hquiet fn args refusal)
  | finish c outcome =>
    have hkept := fun d => finish_kept hlaw hs.consistent (c := d) h
    exact hs.kept hfault ht (fun d => (hkept d).1) (hkept c).2.1 (hkept c).2.2
  | loop turn =>
    obtain ⟨native, -, rfl⟩ := Option.map_eq_some_iff.mp h
    exact hs.kept hfault ht (fun _ => .of_eq rfl rfl rfl rfl rfl) rfl rfl
  | completeNext =>
    have hkept := fun d => completeNext_kept hs.consistent (c := d) h
    exact hs.kept hfault ht (fun d => (hkept d).1) (hkept 0).2.1 (hkept 0).2.2

theorem recording_of_reachable (hlaw : rt.Lawful) {s : JavaInvoker rt}
    (h : (machine rt).Reachable s) : Recording s := by
  apply h.invariant Recording
  · rintro s rfl
    exact ⟨.initial, fun _ _ => rfl, fun c call hc => by cases hc⟩
  · intro s a t hs hstep
    exact hs.step hlaw hstep

end JavaInvoker

end AlmondAndroid.Bridge
