import AlmondAndroid.Bridge.CallRecords

/-!
# The synchronous and the asynchronous path

A call is over when neither the executor nor the native queue has anything left
of it; the event loop gets there from any state in which the callback has ended.
The promise of an asynchronous call that is over is compared with the end of the
synchronous call of the same name, arguments and outcome.
-/

namespace AlmondAndroid.Bridge

open Library

variable {rt : Runtime}

namespace JavaInvoker

/-! ## Draining the native queue -/

theorem run_turns {s : JavaInvoker rt} (hfault : s.fault = none) (ts : List Mailbox.Turn) :
    ∀ {m n : Mailbox Nat Completion}, m.turns ts = some n →
      (machine rt).run { s with native := m } (ts.map .loop) = some { s with native := n } := by
  induction ts with
  | nil =>
    intro m n h
    cases h
    rfl
  | cons t ts ih =>
    intro m n h
    obtain ⟨m', hturn, hturns⟩ := Option.bind_eq_some_iff.mp h
    have hstep : (machine rt).step { s with native := m } (.loop t) =
        some { s with native := m' } := by
      simp only [machine, JavaInvoker.step, hfault, hturn, Option.map_some]
    rw [List.map_cons, Machine.run_of_step hstep]
    exact ih hturns

structure Undisturbed (s t : JavaInvoker rt) : Prop where
  calls : t.calls = s.calls
  executor : t.executor = s.executor
  invocations : t.invocations = s.invocations
  fault : t.fault = none

theorem step_completeNext {s : JavaInvoker rt} (hfault : s.fault = none) :
    (machine rt).step s .completeNext = s.completeNext := by
  change s.step .completeNext = s.completeNext
  rw [JavaInvoker.step, hfault]

theorem run_completeNext (hlaw : rt.Lawful) {s : JavaInvoker rt} (h : (machine rt).Reachable s)
    (hfault : s.fault = none) {x : Completion} {rest : List Completion}
    (hpending : s.native.pending = x :: rest) :
    ∃ as t, (machine rt).run s as = some t ∧ t.native.pending = rest ∧ Undisturbed s t := by
  have hs := consistent_of_reachable hlaw h
  obtain ⟨ts, n, n', hturns, hhand⟩ := hs.wellFormed.exists_turns hpending
  have hrun : (machine rt).run s (ts.map .loop) = some { s with native := n } :=
    run_turns hfault ts hturns
  have hrest : n'.pending = rest := by
    have hn := (Mailbox.pending_handOver hhand).1
    rw [Mailbox.pending_turns hturns, hpending] at hn
    exact (List.cons.inj hn).2.symm
  obtain ⟨t, ht⟩ : ∃ t, { s with native := n }.completeNext = some t := by
    simp only [completeNext, hhand]
    exact ⟨_, rfl⟩
  have hstep : (machine rt).step { s with native := n } .completeNext = some t := by
    rw [← ht]
    exact step_completeNext hfault
  refine ⟨ts.map .loop ++ [.completeNext], t, ?_, ?_⟩
  · rw [Machine.run_of_run hrun]
    exact Machine.run_singleton hstep
  · have hn := consistent_of_reachable hlaw (h.run hrun)
    obtain ⟨y, native, d, inv, r, hcompleting⟩ := hn.completing ht
    have hhand' : n.handOver = some (y, native) := hcompleting.handOver
    rw [hhand] at hhand'
    cases hhand'
    rw [hcompleting.result]
    exact ⟨hrest, rfl, rfl, rfl, hfault⟩

/-- The event loop can drain the queue from any state, whatever else is going on. -/
theorem exists_drained (hlaw : rt.Lawful) (n : Nat) :
    ∀ {s : JavaInvoker rt}, (machine rt).Reachable s → s.fault = none →
      s.native.pending.length = n →
      ∃ as t, (machine rt).run s as = some t ∧ t.Drained ∧ Undisturbed s t := by
  induction n with
  | zero =>
    intro s _ hfault hlength
    exact ⟨[], s, rfl, List.length_eq_zero_iff.mp hlength, rfl, rfl, rfl, hfault⟩
  | succ n ih =>
    intro s hs hfault hlength
    obtain ⟨x, rest, hpending⟩ := List.exists_cons_of_length_eq_add_one hlength
    obtain ⟨as, r, hrun, hrest, hr⟩ := run_completeNext hlaw hs hfault hpending
    have hlength : r.native.pending.length = n := by
      rw [hpending, List.length_cons] at hlength
      rw [hrest]
      omega
    obtain ⟨bs, t, hrun', hdrained, ht⟩ := ih (hs.run hrun) hr.fault hlength
    refine ⟨as ++ bs, t, ?_, hdrained, ht.calls.trans hr.calls, ht.executor.trans hr.executor,
      ht.invocations.trans hr.invocations, ht.fault⟩
    rw [Machine.run_append, hrun]
    exact hrun'

/-! ## The two paths agree -/

def Over (s : JavaInvoker rt) (c : Nat) : Prop :=
  s.executor c = none ∧ ∀ x ∈ s.native.pending, s.issued c ≠ some x.promiseId

/-- The promise of the call is settled as the synchronous path would end. -/
structure Agrees (s : JavaInvoker rt) (c : Nat) (result : Except Fault (ApiResult rt)) : Prop where
  returned : ∀ v, result = .ok (.returned v) → s.settlements c = [.resolved v]
  threw : ∀ e, result = .ok (.threw e) → s.settlements c = [.rejected e]

end JavaInvoker

/-- The outcomes that only the synchronous path reports: an object that
`InitFromJava` rejects, and a throwable with a message that is no `Exception`. -/
def Outcome.Unreported : Outcome rt → Prop
  | .returned .jsonNull => True
  | .returned (.other _) => True
  | .returned _ => False
  | .threw e => e.isException = false ∧ e.message ≠ none

theorem callJavaSync_of_arguments {fn : U16String} {callback : Option Nat} {args : List rt.Value}
    {arguments : List InteropValue} {objects : List rt.Object} (outcome : Outcome rt)
    (hscript : scriptArguments rt args = .ok (some arguments))
    (hjava : javaArguments rt arguments = .ok objects) :
    (callJavaSync rt fn callback args outcome).2 = match callback with
      | none => .ok (.threw (noSuchFunction fn))
      | some _ => (returnFromJava rt outcome).bind (setReturnValue rt) := by
  unfold callJavaSync invokeSync
  rw [hscript]
  cases callback with
  | none => rfl
  | some callback =>
    dsimp only
    rw [hjava]

theorem setReturnValue_of_script {value : InteropValue} {v : rt.Value}
    (h : toJavaScript rt value = .ok (some v)) :
    setReturnValue rt (.ok value) = .ok (.returned v) := by
  cases value with
  | null =>
    cases h
    rfl
  | empty | boolean b | string s | number n | json t | buffer bytes =>
    simp only [setReturnValue, h, Except.map, Option.getD_some]

theorem returnFromJava_returned (hlaw : rt.Lawful) {o : rt.Object} (h : Marshallable rt o) :
    ∃ v, scriptValue rt o = some v ∧
      (returnFromJava rt (.returned o)).bind (setReturnValue rt) = .ok (.returned v) := by
  obtain ⟨value, v, hinit, hvalue, hscript⟩ := initFromJava_of_marshallable hlaw h false
  refine ⟨v, hvalue, ?_⟩
  simp only [returnFromJava, hinit, Except.map, Except.bind]
  exact setReturnValue_of_script hscript

theorem returnFromJava_threw {e : JavaThrowable} {m : U16String} (hm : e.message = some m) :
    (returnFromJava rt (.threw e)).bind (setReturnValue rt) = .ok (.threw (exceptionToV8 m)) := by
  rw [returnFromJava, javaExceptionToV8_of_message hm]
  rfl

theorem returnFromJava_of_not_deliverable {outcome : Outcome rt} (h : ¬ outcome.Deliverable) :
    (outcome.Unreported ∧ (returnFromJava rt outcome).bind (setReturnValue rt) =
        .ok (.threw failedToMarshal)) ∨
      (¬ outcome.Unreported ∧
        (returnFromJava rt outcome).bind (setReturnValue rt) = .error .nullString) := by
  cases outcome with
  | returned o =>
    cases o with
    | jsonNull => exact .inl ⟨trivial, rfl⟩
    | other className => exact .inl ⟨trivial, rfl⟩
    | json o =>
      have hnone : rt.toJavaString o = none := by
        rw [Option.eq_none_iff_forall_ne_some]
        intro t ht
        exact h ⟨t, ht⟩
      refine .inr ⟨id, ?_⟩
      simp only [returnFromJava, initFromJava, jobjectToString, jstringToString, hnone,
        Except.map, Except.bind]
    | null | number n | string s | boolean b | byteArray bytes => exact absurd trivial h
  | threw e =>
    have hm : e.message = none := by
      rw [Option.eq_none_iff_forall_ne_some]
      intro m hm
      exact h ⟨m, hm⟩
    refine .inr ⟨fun hun => hun.2 hm, ?_⟩
    rw [returnFromJava, javaExceptionToV8_of_null hm]
    rfl

theorem Outcome.unreported_iff_of_deliverable {outcome : Outcome rt} (h : outcome.Deliverable) :
    outcome.Unreported ↔ ¬ outcome.HandedOver := by
  cases outcome with
  | returned o =>
    cases o with
    | jsonNull => exact h.elim
    | other className => exact h.elim
    | null | number n | string s | boolean b | byteArray bytes | json o =>
      exact ⟨False.elim, fun hnot => hnot trivial⟩
  | threw e =>
    obtain ⟨m, hm⟩ := h
    constructor
    · rintro ⟨hexception, -⟩ hhanded
      have hhanded : e.isException = true := hhanded
      rw [hexception] at hhanded
      cases hhanded
    · intro hnot
      refine ⟨Bool.not_eq_true _ ▸ hnot, ?_⟩
      rw [hm]
      exact Option.some_ne_none m

namespace JavaInvoker

/-- A call that the executor has run is over in one of two ways. -/
theorem Consistent.over {s : JavaInvoker rt} (hs : Consistent s) {c p : Nat}
    (hissued : s.issued c = some p) (hover : s.Over c) {inv : Invocation rt}
    (hinv : s.invocations c = some inv) :
    (inv.outcome.HandedOver ∧ inv.outcome.Deliverable ∧ ∃ r,
        inv.outcome.settlement = some r ∧ s.settlements c = [r]) ∨
      (¬ (inv.outcome.HandedOver ∧ inv.outcome.Deliverable) ∧ s.settlements c = []) := by
  cases hs.stage c p hissued with
  | running task htask =>
    rw [hover.1] at htask
    cases htask
  | crashed _ _ _ hnone =>
    rw [hinv] at hnone
    cases hnone
  | queued _ x _ _ hx hid =>
    rw [← hid] at hissued
    exact absurd hissued (hover.2 x hx)
  | settled inv' r _ hinv' hhanded hdeliverable howed honce =>
    rw [hinv] at hinv'
    cases hinv'
    exact .inl ⟨hhanded, hdeliverable, r, howed, honce⟩
  | lost inv' _ hinv' hbad hnone =>
    rw [hinv] at hinv'
    cases hinv'
    exact .inr ⟨hbad, hnone⟩

theorem Agrees.of_settlement (hlaw : rt.Lawful) {s : JavaInvoker rt} {c : Nat}
    {outcome : Outcome rt} {r : PromiseResult rt} (hdeliverable : outcome.Deliverable)
    (howed : outcome.settlement = some r) (honce : s.settlements c = [r]) :
    Agrees s c ((returnFromJava rt outcome).bind (setReturnValue rt)) := by
  cases outcome with
  | returned o =>
    obtain ⟨v, hvalue, hsync⟩ := returnFromJava_returned hlaw hdeliverable
    rw [Outcome.settlement, hvalue] at howed
    cases howed
    rw [hsync]
    refine ⟨fun v' hv' => ?_, fun e he => ?_⟩
    · cases hv'
      exact honce
    · cases he
  | threw e =>
    obtain ⟨m, hm⟩ := hdeliverable
    rw [Outcome.settlement, hm] at howed
    cases howed
    rw [returnFromJava_threw hm]
    refine ⟨fun v' hv' => ?_, fun e he => ?_⟩
    · cases hv'
    · cases he
      exact honce

theorem Consistent.agrees_iff (hlaw : rt.Lawful) {s : JavaInvoker rt} (hs : Consistent s)
    {c p : Nat} (hissued : s.issued c = some p) (hover : s.Over c) {inv : Invocation rt}
    (hinv : s.invocations c = some inv) :
    Agrees s c ((returnFromJava rt inv.outcome).bind (setReturnValue rt)) ↔
      ¬ inv.outcome.Unreported := by
  by_cases hdeliverable : inv.outcome.Deliverable
  · rw [Outcome.unreported_iff_of_deliverable hdeliverable, not_not]
    rcases hs.over hissued hover hinv with ⟨hhanded, -, r, howed, honce⟩ | ⟨hbad, hnone⟩
    · exact iff_of_true (.of_settlement hlaw hdeliverable howed honce) hhanded
    · have hnot : ¬ inv.outcome.HandedOver := fun hhanded => hbad ⟨hhanded, hdeliverable⟩
      refine iff_of_false (fun hagrees => ?_) hnot
      cases houtcome : inv.outcome with
      | returned o =>
        rw [houtcome] at hnot
        exact hnot trivial
      | threw e =>
        rw [houtcome] at hdeliverable hagrees
        obtain ⟨m, hm⟩ := hdeliverable
        have hsettled := hagrees.threw _ (returnFromJava_threw hm)
        rw [hnone] at hsettled
        cases hsettled
  · have hnone : s.settlements c = [] := by
      rcases hs.over hissued hover hinv with ⟨-, hgood, -⟩ | ⟨-, hnone⟩
      · exact absurd hgood hdeliverable
      · exact hnone
    rcases returnFromJava_of_not_deliverable hdeliverable with ⟨hun, hsync⟩ | ⟨hun, hsync⟩
    · refine iff_of_false (fun hagrees => ?_) (not_not_intro hun)
      have hsettled := hagrees.threw _ hsync
      rw [hnone] at hsettled
      cases hsettled
    · refine iff_of_true ⟨fun v hv => ?_, fun e he => ?_⟩ hun
      · rw [hsync] at hv
        cases hv
      · rw [hsync] at he
        cases he

/-- Once an asynchronous call with marshallable arguments is over, its promise is
settled as the synchronous call would have ended, unless the name is registered
and the outcome is one that the asynchronous path does not report. It is over as
soon as its callback has ended and the native queue has been drained. -/
theorem sync_async_agree_iff (hlaw : rt.Lawful) {s : JavaInvoker rt}
    (h : (machine rt).Reachable s) {c : Nat} {call : ApiCall rt} (hcall : s.calls[c]? = some call)
    (hmode : call.mode = .async none) {arguments : List InteropValue}
    {objects : List rt.Object} (hscript : scriptArguments rt call.args = .ok (some arguments))
    (hjava : javaArguments rt arguments = .ok objects) {outcome : Outcome rt}
    (houtcome : call.callback = none ∨ ∃ inv, s.invocations c = some inv ∧ inv.outcome = outcome) :
    (s.Over c → (Agrees s c (callJavaSync rt call.fn call.callback call.args outcome).2 ↔
      call.callback = none ∨ ¬ outcome.Unreported)) ∧
    (s.fault = none → s.executor c = none → ∃ as t, (machine rt).run s as = some t ∧
      t.Over c ∧ t.calls = s.calls ∧ t.invocations = s.invocations) := by
  constructor
  · intro hover
    have hs := recording_of_reachable hlaw h
    have hrecorded := hs.recorded c call hcall
    unfold Recorded asyncEntry at hrecorded
    rw [hmode] at hrecorded
    dsimp only at hrecorded
    rw [hscript] at hrecorded
    rw [callJavaSync_of_arguments outcome hscript hjava]
    cases hcallback : call.callback with
    | none =>
      rw [hcallback] at hrecorded
      obtain ⟨-, -, -, hsettled⟩ := hrecorded
      refine iff_of_true ⟨fun v hv => ?_, fun e he => ?_⟩ (.inl rfl)
      · cases hv
      · cases he
        exact hsettled
    | some callback =>
      rw [hcallback] at hrecorded houtcome
      dsimp only at hrecorded
      rw [hjava] at hrecorded
      obtain ⟨-, ⟨p, hissued⟩, -⟩ := hrecorded
      obtain ⟨inv, hinv, rfl⟩ := houtcome.resolve_left (Option.some_ne_none callback)
      rw [or_iff_right (Option.some_ne_none callback)]
      exact hs.consistent.agrees_iff hlaw hissued hover hinv
  · intro hfault hexecutor
    obtain ⟨as, t, hrun, hdrained, ht⟩ := exists_drained hlaw _ h hfault rfl
    refine ⟨as, t, hrun, ⟨?_, ?_⟩, ht.calls, ht.invocations⟩
    · rw [ht.executor]
      exact hexecutor
    · intro x hx
      rw [hdrained] at hx
      cases hx

/-- An `Error` is thrown by the synchronous call, and ends the process when the
asynchronous one throws it. -/
theorem not_agrees_error : ∃ s : JavaInvoker Sample.runtime,
    (machine Sample.runtime).run (initial Sample.runtime)
      (singleCall (.threw ⟨false, some (u16 "out of memory")⟩)) = some s ∧
    s.Over 0 ∧ s.fault = some (0, .uncaught) ∧
    ¬ Agrees s 0 (callJavaSync Sample.runtime (u16 "f") (some 7) [.boolean true]
      (.threw ⟨false, some (u16 "out of memory")⟩)).2 := by
  refine ⟨_, rfl, ⟨rfl, fun x hx => by cases hx⟩, rfl, fun hagrees => ?_⟩
  have hsettled := hagrees.threw _ rfl
  cases hsettled

theorem sync_async_agree_boolean : ∃ s : JavaInvoker Sample.runtime,
    (machine Sample.runtime).run (initial Sample.runtime)
      (singleCall (.returned (.boolean false)) ++ [.loop .deliver, .loop .take, .completeNext]) =
        some s ∧
    Agrees s 0 (callJavaSync Sample.runtime (u16 "f") (some 7) [.boolean true]
      (.returned (.boolean false))).2 := by
  have hinit : (machine Sample.runtime).Reachable (initial Sample.runtime) := .start rfl
  obtain ⟨s, hs, hcall, hexecutor, hpending, hinv⟩ : ∃ s : JavaInvoker Sample.runtime,
      (machine Sample.runtime).run (initial Sample.runtime) (singleCall
        (.returned (.boolean false)) ++ [.loop .deliver, .loop .take, .completeNext]) = some s ∧
      s.calls[0]? = some ⟨u16 "f", [.boolean true], some 7, .async none⟩ ∧
      s.executor 0 = none ∧ s.native.pending = [] ∧
      s.invocations 0 = some ⟨7, [.boolean true], .returned (.boolean false)⟩ :=
    ⟨_, rfl, rfl, rfl, rfl, rfl⟩
  have hscript : scriptArguments Sample.runtime [.boolean true] = .ok (some [.boolean true]) := rfl
  have hjava : javaArguments Sample.runtime [.boolean true] = .ok [.boolean true] := rfl
  obtain ⟨hagree, -⟩ := sync_async_agree_iff Sample.runtime_lawful (hinit.run hs) hcall rfl
    hscript hjava (.inr ⟨_, hinv, rfl⟩)
  refine ⟨s, hs, (hagree ⟨hexecutor, fun x hx => ?_⟩).mpr (.inr id)⟩
  rw [hpending] at hx
  cases hx

end JavaInvoker

end AlmondAndroid.Bridge
