import AlmondAndroid.Bridge.Agreement

/-!
# What a JavaScript caller observes

The objects of `makeJavaAPI` call Java by name, synchronously or through a `Q`
promise. What the caller observes is compared with what became of the callback.
-/

namespace AlmondAndroid.Bridge

open Library

section Api

variable (rt : Runtime)

/-- The methods that `makeJavaAPI` defines. A synchronous method is defined after,
and so over, an asynchronous one of the same name. -/
def makeJavaAPI (klass : U16String) (asyncMethods syncMethods : List U16String)
    (method : U16String) (args : List rt.Value) : Mode rt → Option (JavaInvoker.Action rt)
  | .sync outcome =>
      if method ∈ syncMethods then
        some (.callJavaSync (klass ++ u16 "_" ++ method) args outcome)
      else none
  | .async refusal =>
      if method ∈ asyncMethods ∧ method ∉ syncMethods then
        some (.callJavaAsync (klass ++ u16 "_" ++ method) args refusal)
      else none

inductive Observation
  | pending
  | success (v : rt.Value)
  | failure (e : JSError)

end Api

variable {rt : Runtime}

namespace JavaInvoker

/-- What the caller sees of the result of a call. `Q` follows a native promise and
is fulfilled with anything else. -/
def observe (s : JavaInvoker rt) (c : Nat) : Observation rt :=
  match s.results c with
  | none => .pending
  | some (.returned v) => .success v
  | some (.threw e) => .failure e
  | some .promise =>
      match s.settlements c with
      | [] => .pending
      | .resolved v :: _ => .success v
      | .rejected e :: _ => .failure e

end JavaInvoker

/-! ## No silent success -/

section Arguments

variable (rt)

def Marshalled (args : List rt.Value) (objects : List rt.Object) : Prop :=
  List.Forall₂ (fun v o => ∃ value, initFromJS rt v = .ok (some value) ∧ toJava rt value = some o)
    args objects

/-- Every argument is accepted by `InitFromJS` and, if it gets as far as Java,
converted to a Java object. -/
structure Passes (call : ApiCall rt) : Prop where
  accepted : ∀ v ∈ call.args, ∃ value, initFromJS rt v = .ok (some value)
  converted : call.callback ≠ none → ∀ v ∈ call.args, ∀ value,
    initFromJS rt v = .ok (some value) → ∃ o, toJava rt value = some o

end Arguments

theorem scriptArguments_eq_some (args : List rt.Value) :
    ∀ arguments, scriptArguments rt args = .ok (some arguments) ↔
      List.Forall₂ (fun v value => initFromJS rt v = .ok (some value)) args arguments := by
  induction args with
  | nil =>
    intro arguments
    simp [scriptArguments, eq_comm]
  | cons v vs ih =>
    intro arguments
    rw [scriptArguments]
    rw [List.forall₂_cons_left_iff]
    split
    · rename_i f hv
      simp [hv]
    · rename_i hv
      simp [hv]
    · rename_i value hv
      cases hrest : scriptArguments rt vs with
      | error f =>
        simp only [Except.map, reduceCtorEq, false_iff]
        rintro ⟨value', rest, -, hforall, -⟩
        rw [← ih rest, hrest] at hforall
        cases hforall
      | ok rest =>
        simp only [Except.map, Except.ok.injEq, Option.map_eq_some_iff]
        constructor
        · rintro ⟨rest', rfl, rfl⟩
          exact ⟨value, rest', hv, (ih rest').mp hrest, rfl⟩
        · rintro ⟨value', rest', hv', hforall, rfl⟩
          rw [hv] at hv'
          cases hv'
          rw [← ih rest', hrest] at hforall
          cases hforall
          exact ⟨rest', rfl, rfl⟩

theorem mapM_toJava_eq_some (arguments : List InteropValue) :
    ∀ objects, arguments.mapM (toJava rt) = some objects ↔
      List.Forall₂ (fun value o => toJava rt value = some o) arguments objects := by
  induction arguments with
  | nil =>
    intro objects
    simp [List.mapM_nil, eq_comm]
  | cons value values ih =>
    intro objects
    rw [List.mapM_cons, List.forall₂_cons_left_iff]
    constructor
    · intro h
      obtain ⟨o, ho, h⟩ := Option.bind_eq_some_iff.mp h
      obtain ⟨os, hos, h⟩ := Option.bind_eq_some_iff.mp h
      exact ⟨o, os, ho, (ih os).mp hos, (Option.some.inj h).symm⟩
    · rintro ⟨o, os, ho, hforall, rfl⟩
      rw [ho, (ih os).mpr hforall]
      rfl

theorem javaArguments_eq_ok (arguments : List InteropValue) (objects : List rt.Object) :
    javaArguments rt arguments = .ok objects ↔
      List.Forall₂ (fun value o => toJava rt value = some o) arguments objects := by
  rw [← mapM_toJava_eq_some, javaArguments]
  cases arguments.mapM (toJava rt) <;> simp

theorem accepted_iff (args : List rt.Value) :
    (∀ v ∈ args, ∃ value, initFromJS rt v = .ok (some value)) ↔
      ∃ arguments, scriptArguments rt args = .ok (some arguments) := by
  simp only [scriptArguments_eq_some]
  induction args with
  | nil => exact iff_of_true (fun v hv => by cases hv) ⟨[], .nil⟩
  | cons v vs ih =>
    rw [List.forall_mem_cons, ih]
    constructor
    · rintro ⟨⟨value, hv⟩, arguments, hvs⟩
      exact ⟨value :: arguments, .cons hv hvs⟩
    · rintro ⟨_, hforall⟩
      cases hforall with
      | cons hv hvs => exact ⟨⟨_, hv⟩, _, hvs⟩

theorem converted_iff {args : List rt.Value} {arguments : List InteropValue}
    (h : scriptArguments rt args = .ok (some arguments)) :
    (∀ v ∈ args, ∀ value, initFromJS rt v = .ok (some value) → ∃ o, toJava rt value = some o) ↔
      ∃ objects, javaArguments rt arguments = .ok objects := by
  rw [scriptArguments_eq_some] at h
  simp only [javaArguments_eq_ok]
  induction h with
  | nil => exact iff_of_true (fun v hv => by cases hv) ⟨[], .nil⟩
  | @cons v value vs values hv _ ih =>
    rw [List.forall_mem_cons, ih]
    constructor
    · rintro ⟨hfirst, objects, hobjects⟩
      obtain ⟨o, ho⟩ := hfirst value hv
      exact ⟨o :: objects, .cons ho hobjects⟩
    · rintro ⟨_, hforall⟩
      cases hforall with
      | cons ho hobjects =>
        refine ⟨fun value' hv' => ?_, _, hobjects⟩
        rw [hv] at hv'
        cases hv'
        exact ⟨_, ho⟩

theorem marshalled_of_arguments {args : List rt.Value} {arguments : List InteropValue}
    {objects : List rt.Object} (h : scriptArguments rt args = .ok (some arguments))
    (hjava : javaArguments rt arguments = .ok objects) : Marshalled rt args objects := by
  rw [scriptArguments_eq_some] at h
  rw [javaArguments_eq_ok] at hjava
  induction h generalizing objects with
  | nil =>
    cases hjava
    exact .nil
  | cons hv _ ih =>
    cases hjava with
    | cons ho hobjects => exact .cons ⟨_, hv, ho⟩ (ih hobjects)

def Outcome.HasMessage : Outcome rt → Prop
  | .returned _ => True
  | .threw e => e.message ≠ none

namespace JavaInvoker

/-- The registered callback was invoked with the arguments and returned normally. -/
def Succeeded (s : JavaInvoker rt) (c : Nat) (call : ApiCall rt) : Prop :=
  ∃ callback objects o, call.callback = some callback ∧ Marshalled rt call.args objects ∧
    s.invocations c = some ⟨callback, objects, .returned o⟩

structure NoSilentSuccess (s : JavaInvoker rt) (c : Nat) (call : ApiCall rt) : Prop where
  invoked : ∀ v, s.observe c = .success v → Succeeded s c call
  reported : ¬ Succeeded s c call → ∃ e, s.observe c = .failure e

/-- What the environment contributes to a call of a registered name can be reported:
every throwable has a message, and on the asynchronous path it is an `Exception`. -/
def Reportable (s : JavaInvoker rt) (c : Nat) (call : ApiCall rt) : Prop :=
  match call.mode with
  | .sync outcome => outcome.HasMessage
  | .async refusal => (∀ e, refusal = some e → e.message ≠ none) ∧
      ∀ inv, s.invocations c = some inv → inv.outcome.HandedOver ∧ inv.outcome.HasMessage

theorem NoSilentSuccess.of_succeeded {s : JavaInvoker rt} {c : Nat} {call : ApiCall rt}
    (h : Succeeded s c call) : NoSilentSuccess s c call :=
  ⟨fun _ _ => h, fun hnot => absurd h hnot⟩

theorem NoSilentSuccess.of_failure {s : JavaInvoker rt} {c : Nat} {call : ApiCall rt}
    {e : JSError} (h : s.observe c = .failure e) : NoSilentSuccess s c call := by
  refine ⟨fun v hv => ?_, fun _ => ⟨e, h⟩⟩
  rw [h] at hv
  cases hv

theorem not_noSilentSuccess {s : JavaInvoker rt} {c : Nat} {call : ApiCall rt}
    (hnot : ¬ Succeeded s c call) (h : ∀ e, s.observe c ≠ .failure e) :
    ¬ NoSilentSuccess s c call := by
  intro hsilent
  obtain ⟨e, he⟩ := hsilent.reported hnot
  exact h e he

theorem not_succeeded_of_none {s : JavaInvoker rt} {c : Nat} {call : ApiCall rt}
    (h : s.invocations c = none) : ¬ Succeeded s c call := by
  rintro ⟨callback, objects, o, -, -, hinv⟩
  rw [h] at hinv
  cases hinv

theorem not_succeeded_of_threw {s : JavaInvoker rt} {c : Nat} {call : ApiCall rt}
    {inv : Invocation rt} {e : JavaThrowable} (h : s.invocations c = some inv)
    (hthrew : inv.outcome = .threw e) : ¬ Succeeded s c call := by
  rintro ⟨callback, objects, o, -, -, hinv⟩
  rw [h] at hinv
  cases hinv
  cases hthrew

theorem observe_of_none {s : JavaInvoker rt} {c : Nat} (h : s.results c = none) :
    s.observe c = .pending := by
  rw [observe, h]

theorem observe_of_promise {s : JavaInvoker rt} {c : Nat} (h : s.results c = some .promise) :
    s.observe c = match s.settlements c with
      | [] => .pending
      | .resolved v :: _ => .success v
      | .rejected e :: _ => .failure e := by
  rw [observe, h]

theorem not_noSilentSuccess_of_crash {s : JavaInvoker rt} {c : Nat} {call : ApiCall rt}
    (hresults : s.results c = none) (hinv : s.invocations c = none) :
    ¬ NoSilentSuccess s c call := by
  refine not_noSilentSuccess (not_succeeded_of_none hinv) fun e he => ?_
  rw [observe_of_none hresults] at he
  cases he

theorem not_noSilentSuccess_of_undefined {s : JavaInvoker rt} {c : Nat} {call : ApiCall rt}
    (hresults : s.results c = some (.returned .undefined)) (hinv : s.invocations c = none) :
    ¬ NoSilentSuccess s c call := by
  refine not_noSilentSuccess (not_succeeded_of_none hinv) fun e he => ?_
  rw [observe, hresults] at he
  cases he

end JavaInvoker

theorem not_passes_of_arguments {call : ApiCall rt}
    (h : ∀ arguments, scriptArguments rt call.args ≠ .ok (some arguments)) :
    ¬ Passes rt call := by
  intro hpasses
  obtain ⟨arguments, harguments⟩ := (accepted_iff call.args).mp hpasses.accepted
  exact h arguments harguments

theorem passes_iff {call : ApiCall rt} {arguments : List InteropValue}
    (h : scriptArguments rt call.args = .ok (some arguments)) :
    Passes rt call ↔
      (call.callback ≠ none → ∃ objects, javaArguments rt arguments = .ok objects) := by
  rw [← converted_iff h]
  exact ⟨fun hpasses => hpasses.converted, fun hconverted =>
    ⟨(accepted_iff call.args).mpr ⟨arguments, h⟩, hconverted⟩⟩

theorem Outcome.hasMessage_threw_iff {e : JavaThrowable} :
    (Outcome.threw e : Outcome rt).HasMessage ↔ ∃ m, e.message = some m :=
  Option.ne_none_iff_exists'

namespace JavaInvoker

theorem noSilentSuccess_sync_iff {s : JavaInvoker rt} {c : Nat} {call : ApiCall rt}
    {outcome : Outcome rt} {invocation : Option (Invocation rt)}
    {result : Except Fault (ApiResult rt)}
    (hsync : callJavaSync rt call.fn call.callback call.args outcome = (invocation, result))
    (h : Returned s c invocation result) : NoSilentSuccess s c call ↔
      Passes rt call ∧ (call.callback ≠ none → outcome.HasMessage) := by
  rw [callJavaSync] at hsync
  cases hscript : scriptArguments rt call.args with
  | error f =>
    rw [hscript] at hsync
    cases hsync
    have hnot : ¬ Passes rt call := not_passes_of_arguments (by simp [hscript])
    exact iff_of_false (not_noSilentSuccess_of_crash (h.error f rfl).1 h.invocations)
      fun hgood => hnot hgood.1
  | ok arguments =>
    cases arguments with
    | none =>
      rw [hscript] at hsync
      cases hsync
      have hnot : ¬ Passes rt call := not_passes_of_arguments (by simp [hscript])
      exact iff_of_false (not_noSilentSuccess_of_undefined (h.ok _ rfl) h.invocations)
        fun hgood => hnot hgood.1
    | some arguments =>
      rw [hscript] at hsync
      rw [passes_iff hscript]
      cases hcallback : call.callback with
      | none =>
        rw [hcallback] at hsync
        cases hsync
        have hobserve : s.observe c = .failure (noSuchFunction call.fn) := by
          rw [observe, h.ok _ rfl]
        exact iff_of_true (.of_failure hobserve)
          ⟨fun hne => absurd rfl hne, fun hne => absurd rfl hne⟩
      | some callback =>
        rw [hcallback] at hsync
        simp only [ne_eq, reduceCtorEq, not_false_eq_true, forall_const]
        dsimp only [invokeSync] at hsync
        cases hjava : javaArguments rt arguments with
        | error f =>
          rw [hjava] at hsync
          cases hsync
          refine iff_of_false (not_noSilentSuccess_of_crash (h.error f rfl).1 h.invocations) ?_
          rintro ⟨⟨objects, hobjects⟩, -⟩
          cases hobjects
        | ok objects =>
          rw [hjava] at hsync
          cases hsync
          cases outcome with
          | returned o =>
            refine iff_of_true (.of_succeeded ?_) ⟨⟨objects, rfl⟩, trivial⟩
            exact ⟨callback, objects, o, hcallback, marshalled_of_arguments hscript hjava,
              h.invocations⟩
          | threw e =>
            rw [Outcome.hasMessage_threw_iff]
            cases hm : e.message with
            | some m =>
              have hobserve : s.observe c = .failure (exceptionToV8 m) := by
                rw [observe, h.ok _ (returnFromJava_threw hm)]
              exact iff_of_true (.of_failure hobserve) ⟨⟨objects, rfl⟩, m, rfl⟩
            | none =>
              have hresult : (returnFromJava rt (.threw e)).bind (setReturnValue rt) =
                  .error .nullString := by
                rw [returnFromJava, javaExceptionToV8_of_null hm]
                rfl
              refine iff_of_false (not_noSilentSuccess
                (not_succeeded_of_threw h.invocations rfl) fun e' he' => ?_) ?_
              · rw [observe_of_none (h.error _ hresult).1] at he'
                cases he'
              · rintro ⟨-, m, hnone⟩
                cases hnone

theorem Consistent.noSilentSuccess_iff {s : JavaInvoker rt} (hs : Consistent s) {c p : Nat}
    {call : ApiCall rt} (hissued : s.issued c = some p) (hover : s.Over c)
    (hresult : s.results c = some .promise) {inv : Invocation rt}
    (hinv : s.invocations c = some inv) (hcallback : call.callback = some inv.callback)
    (hargs : Marshalled rt call.args inv.args) :
    NoSilentSuccess s c call ↔ inv.outcome.HandedOver ∧ inv.outcome.HasMessage := by
  obtain ⟨callback, args, outcome⟩ := inv
  cases outcome with
  | returned o =>
    exact iff_of_true (.of_succeeded ⟨callback, args, o, hcallback, hargs, hinv⟩)
      ⟨trivial, trivial⟩
  | threw e =>
    rw [Outcome.hasMessage_threw_iff]
    rcases hs.over hissued hover hinv with ⟨hhanded, hdeliverable, r, howed, honce⟩ | ⟨hbad, hnone⟩
    · refine iff_of_true ?_ ⟨hhanded, hdeliverable⟩
      obtain ⟨m, hm⟩ := hdeliverable
      dsimp only [Outcome.settlement] at howed
      rw [hm] at howed
      cases howed
      have hobserve : s.observe c = .failure (exceptionToV8 m) := by
        rw [observe_of_promise hresult, honce]
      exact .of_failure hobserve
    · refine iff_of_false (not_noSilentSuccess (not_succeeded_of_threw hinv rfl) ?_) hbad
      intro e' he'
      rw [observe_of_promise hresult, hnone] at he'
      cases he'

theorem noSilentSuccess_async_iff {s : JavaInvoker rt} (hs : Consistent s) {c : Nat}
    {call : ApiCall rt} {refusal : Option JavaThrowable} (hover : s.Over c)
    (h : Stands s c (asyncEntry rt call.fn call.args call.callback refusal)) :
    NoSilentSuccess s c call ↔ Passes rt call ∧ (call.callback ≠ none →
      (∀ e, refusal = some e → e.message ≠ none) ∧
        ∀ inv, s.invocations c = some inv → inv.outcome.HandedOver ∧ inv.outcome.HasMessage) := by
  have hrejected : ∀ e, Stands s c (.rejected e) → NoSilentSuccess s c call := by
    rintro e ⟨hresult, -, -, hsettled⟩
    apply NoSilentSuccess.of_failure
    rw [observe_of_promise hresult, hsettled]
  rw [asyncEntry] at h
  cases hscript : scriptArguments rt call.args with
  | error f =>
    rw [hscript] at h
    have hnot : ¬ Passes rt call := not_passes_of_arguments (by simp [hscript])
    exact iff_of_false (not_noSilentSuccess_of_crash h.2.1 h.2.2) fun hgood => hnot hgood.1
  | ok arguments =>
    cases arguments with
    | none =>
      rw [hscript] at h
      have hnot : ¬ Passes rt call := not_passes_of_arguments (by simp [hscript])
      exact iff_of_false (not_noSilentSuccess_of_undefined h.1 h.2.1) fun hgood => hnot hgood.1
    | some arguments =>
      rw [hscript] at h
      rw [passes_iff hscript]
      cases hcallback : call.callback with
      | none =>
        rw [hcallback] at h
        exact iff_of_true (hrejected _ h) ⟨fun hne => absurd rfl hne, fun hne => absurd rfl hne⟩
      | some callback =>
        rw [hcallback] at h
        dsimp only at h
        simp only [ne_eq, reduceCtorEq, not_false_eq_true, forall_const]
        cases hjava : javaArguments rt arguments with
        | error f =>
          rw [hjava] at h
          refine iff_of_false (not_noSilentSuccess_of_crash h.2.1 h.2.2) ?_
          rintro ⟨⟨objects, hobjects⟩, -⟩
          cases hobjects
        | ok objects =>
          rw [hjava] at h
          dsimp only at h
          rw [and_iff_right ⟨objects, rfl⟩]
          cases refusal with
          | none =>
            obtain ⟨hresult, ⟨p, hissued⟩, -, hsame, hended⟩ := h
            obtain ⟨inv, hinv⟩ := hended hover.1
            obtain ⟨rfl, rfl⟩ := hsame inv hinv
            rw [hs.noSilentSuccess_iff hissued hover hresult hinv hcallback
              (marshalled_of_arguments hscript hjava)]
            simp [hinv]
          | some e =>
            dsimp only at h
            cases hm : e.message with
            | some m =>
              rw [javaExceptionToV8_of_message hm] at h
              refine iff_of_true (hrejected _ h) ⟨?_, ?_⟩
              · rintro e' ⟨⟩
                rw [hm]
                exact Option.some_ne_none m
              · rw [h.2.1]
                intro inv hinv
                cases hinv
            | none =>
              rw [javaExceptionToV8_of_null hm] at h
              refine iff_of_false (not_noSilentSuccess_of_crash h.2.1 h.2.2) ?_
              rintro ⟨hmessage, -⟩
              exact hmessage e rfl hm

/-- When a call is over, its caller sees success only of what Java has done, and an
error in every other case, exactly if its arguments pass and its throwables can be
reported. -/
theorem noSilentSuccess_iff (hlaw : rt.Lawful) {s : JavaInvoker rt}
    (h : (machine rt).Reachable s) {c : Nat} {call : ApiCall rt}
    (hcall : s.calls[c]? = some call) (hover : s.Over c) :
    NoSilentSuccess s c call ↔
      Passes rt call ∧ (call.callback ≠ none → Reportable s c call) := by
  have hs := recording_of_reachable hlaw h
  have hrecorded := hs.recorded c call hcall
  cases hmode : call.mode with
  | sync outcome =>
    rw [Recorded, hmode] at hrecorded
    rw [Reportable, hmode]
    exact noSilentSuccess_sync_iff rfl hrecorded
  | async refusal =>
    rw [Recorded, hmode] at hrecorded
    rw [Reportable, hmode]
    exact noSilentSuccess_async_iff hs.consistent hover hrecorded

/-! ### Through the objects of `makeJavaAPI` -/

theorem step_calls (hlaw : rt.Lawful) {s t : JavaInvoker rt} (hs : Consistent s) {a : Action rt}
    (h : s.step a = some t) : s.calls <+: t.calls := by
  unfold JavaInvoker.step at h
  split at h
  · cases h
  cases a with
  | register fn callback =>
    cases h
    exact List.prefix_rfl
  | callJavaSync fn args outcome =>
    cases h
    rw [(callSync_entered s fn args outcome).calls]
    exact List.prefix_append ..
  | callJavaAsync fn args refusal =>
    cases h
    rw [(callAsync_entered s fn args refusal).calls]
    exact List.prefix_append ..
  | finish c outcome =>
    have hcalls : t.calls = s.calls := (finish_kept hlaw hs (c := c) h).2.1
    exact hcalls ▸ List.prefix_rfl
  | loop turn =>
    obtain ⟨native, -, rfl⟩ := Option.map_eq_some_iff.mp h
    exact List.prefix_rfl
  | completeNext =>
    have hcalls : t.calls = s.calls := (completeNext_kept hs (c := 0) h).2.1
    exact hcalls ▸ List.prefix_rfl

theorem run_calls (hlaw : rt.Lawful) (as : List (Action rt)) :
    ∀ {s t : JavaInvoker rt}, (machine rt).Reachable s → (machine rt).run s as = some t →
      s.calls <+: t.calls := by
  induction as with
  | nil =>
    intro s t _ h
    cases h
    exact List.prefix_rfl
  | cons a as ih =>
    intro s t hs h
    obtain ⟨r, hstep, hrun⟩ := Option.bind_eq_some_iff.mp h
    exact (step_calls hlaw (consistent_of_reachable hlaw hs) hstep).trans
      (ih (hs.step hstep) hrun)

theorem makeJavaAPI_calls {s t : JavaInvoker rt} {klass method : U16String}
    {asyncMethods syncMethods : List U16String} {args : List rt.Value} {mode : Mode rt}
    {a : Action rt}
    (hmethod : makeJavaAPI rt klass asyncMethods syncMethods method args mode = some a)
    (hstep : s.step a = some t) : t.calls = s.calls ++
      [⟨klass ++ u16 "_" ++ method, args, s.methods (klass ++ u16 "_" ++ method), mode⟩] := by
  have hfault : s.fault = none := by
    cases hfault : s.fault with
    | none => rfl
    | some f => simp [JavaInvoker.step, hfault] at hstep
  cases mode with
  | sync outcome =>
    dsimp only [makeJavaAPI] at hmethod
    split at hmethod
    · cases hmethod
      rw [JavaInvoker.step, hfault] at hstep
      cases hstep
      exact (callSync_entered s _ args outcome).calls
    · cases hmethod
  | async refusal =>
    dsimp only [makeJavaAPI] at hmethod
    split at hmethod
    · cases hmethod
      rw [JavaInvoker.step, hfault] at hstep
      cases hstep
      exact (callAsync_entered s _ args refusal).calls
    · cases hmethod

/-- No silent success for the calls through the objects made by `makeJavaAPI`. -/
theorem makeJavaAPI_noSilentSuccess_iff (hlaw : rt.Lawful) {s r t : JavaInvoker rt}
    (h : (machine rt).Reachable s) {klass method : U16String}
    {asyncMethods syncMethods : List U16String} {args : List rt.Value} {mode : Mode rt}
    {a : Action rt} {as : List (Action rt)}
    (hmethod : makeJavaAPI rt klass asyncMethods syncMethods method args mode = some a)
    (hstep : (machine rt).step s a = some r) (hrun : (machine rt).run r as = some t)
    (hover : t.Over s.calls.length) {call : ApiCall rt}
    (hcall : call =
      ⟨klass ++ u16 "_" ++ method, args, s.methods (klass ++ u16 "_" ++ method), mode⟩) :
    NoSilentSuccess t s.calls.length call ↔
      Passes rt call ∧ (call.callback ≠ none → Reportable t s.calls.length call) := by
  have hr := h.step hstep
  obtain ⟨rest, hrest⟩ := run_calls hlaw as hr hrun
  have hentered := makeJavaAPI_calls hmethod hstep
  have hget : t.calls[s.calls.length]? = some call := by
    rw [← hrest, hentered, List.append_assoc, List.getElem?_append_right (Nat.le_refl _),
      Nat.sub_self, hcall]
    rfl
  exact noSilentSuccess_iff hlaw (hr.run hrun) hget hover

def Sample.registered : JavaInvoker Sample.runtime :=
  { initial Sample.runtime with
    methods := Function.update (fun _ => none) (u16 "Sms_send") (some 7) }

theorem Sample.registered_reachable : (machine Sample.runtime).Reachable Sample.registered := by
  have hinit : (machine Sample.runtime).Reachable (initial Sample.runtime) := .start rfl
  have hstep : (machine Sample.runtime).step (initial Sample.runtime)
      (.register (u16 "Sms_send") 7) = some Sample.registered := rfl
  exact hinit.step hstep

theorem makeJavaAPI_noSilentSuccess_sync : ∃ t : JavaInvoker Sample.runtime,
    (machine Sample.runtime).step Sample.registered
      (.callJavaSync (u16 "Sms_send") [.null] (.returned (.boolean true))) = some t ∧
    t.observe 0 = .success (.boolean true) ∧
    NoSilentSuccess t 0
      ⟨u16 "Sms_send", [.null], some 7, .sync (.returned (.boolean true))⟩ := by
  refine ⟨_, rfl, rfl, ?_⟩
  have hmethod : makeJavaAPI Sample.runtime (u16 "Sms") [] [u16 "send"] (u16 "send") [.null]
      (.sync (.returned (.boolean true))) =
        some (.callJavaSync (u16 "Sms_send") [.null] (.returned (.boolean true))) := rfl
  refine (makeJavaAPI_noSilentSuccess_iff Sample.runtime_lawful Sample.registered_reachable
    hmethod rfl (Machine.run_nil _ _) ⟨rfl, fun x hx => by cases hx⟩ rfl).mpr ⟨⟨?_, ?_⟩, ?_⟩
  · intro v hv
    rw [List.mem_singleton.mp hv]
    exact ⟨.null, rfl⟩
  · intro _ v hv value hvalue
    rw [List.mem_singleton.mp hv] at hvalue
    cases hvalue
    exact ⟨.null, rfl⟩
  · intro _
    trivial

/-- A symbol among the arguments: the caller sees a promise fulfilled with
undefined, and Java is not called. -/
theorem not_noSilentSuccess_symbol : ∃ t : JavaInvoker Sample.runtime,
    (machine Sample.runtime).step Sample.registered
      (.callJavaAsync (u16 "Sms_send") [.null, .symbol (u16 "s")] none) = some t ∧
    t.observe 0 = .success .undefined ∧ t.invocations 0 = none ∧
    ¬ NoSilentSuccess t 0
      ⟨u16 "Sms_send", [.null, .symbol (u16 "s")], some 7, .async none⟩ := by
  refine ⟨_, rfl, rfl, rfl, fun hsilent => ?_⟩
  obtain ⟨callback, objects, o, -, -, hinv⟩ := hsilent.invoked .undefined rfl
  cases hinv

end JavaInvoker

end AlmondAndroid.Bridge
