import AlmondAndroid.Bridge.Settlements

/-!
# Microtasks and the event loop

Under the explicit policy of node 8 the reactions of promises run in the tick
processing of `node::MakeCallback`, which is skipped when the callback throws, or
in `RunMicrotasks`. The two drain loops are uv callbacks of the node thread; while
one is running, only Java threads take steps. JavaScript is arbitrary: a script is
the list of what it does to the bridge and to the microtask queue.
-/

namespace AlmondAndroid.Bridge

open Library

section Data

variable (rt : Runtime) (Job : Type)

inductive ScriptEffect
  | callJavaSync (fn : U16String) (args : List rt.Value) (outcome : Outcome rt)
  | callJavaAsync (fn : U16String) (args : List rt.Value) (refusal : Option JavaThrowable)
  | attach (call : Nat) (reaction : Job)
  | enqueue (job : Job)

abbrev Script := List (ScriptEffect rt Job)

/-- One call of the receiver: what it does, whether it throws, the scripts of the
microtasks that the tick processing runs, and the reaction that `Then` or `Catch`
enqueues if the promise returned is settled already. -/
structure Handler where
  script : Script rt Job
  threw : Bool
  ticks : List (Script rt Job)
  reaction : Option Job

/-- `reactions` are those attached to the promises of the calls to Java. -/
structure EventLoop where
  invoker : JavaInvoker rt
  reactions : Nat → List Job
  microtasks : List Job

end Data

variable {rt : Runtime} {Job : Type}

namespace EventLoop

def call (s : EventLoop rt Job) (a : JavaInvoker.Action rt) : EventLoop rt Job :=
  match s.invoker.step a with
  | none => s
  | some invoker => { s with invoker := invoker }

def enqueue (s : EventLoop rt Job) (jobs : List Job) : EventLoop rt Job :=
  { s with microtasks := s.microtasks ++ jobs }

/-- A reaction is enqueued at once if the promise is settled. -/
def attach (s : EventLoop rt Job) (call : Nat) (reaction : Job) : EventLoop rt Job :=
  match s.invoker.settlements call with
  | [] => { s with
      reactions := Function.update s.reactions call (s.reactions call ++ [reaction]) }
  | _ :: _ => s.enqueue [reaction]

def exec (s : EventLoop rt Job) : ScriptEffect rt Job → EventLoop rt Job
  | .callJavaSync fn args outcome => s.call (.callJavaSync fn args outcome)
  | .callJavaAsync fn args refusal => s.call (.callJavaAsync fn args refusal)
  | .attach call reaction => s.attach call reaction
  | .enqueue job => s.enqueue [job]

def runScript (s : EventLoop rt Job) (script : Script rt Job) : EventLoop rt Job :=
  script.foldl exec s

/-- `RunMicrotasks` returns when no microtask is left. The scripts are those of the
microtasks it runs, the enqueued and the ones these enqueue. -/
def runMicrotasks (s : EventLoop rt Job) : List (Script rt Job) → Option (EventLoop rt Job)
  | [] =>
      match s.microtasks with
      | [] => some s
      | _ :: _ => none
  | script :: scripts =>
      match s.microtasks with
      | [] => none
      | _ :: rest => runMicrotasks ({ s with microtasks := rest }.runScript script) scripts

def makeCallback (s : EventLoop rt Job) (handler : Handler rt Job) : Option (EventLoop rt Job) :=
  let s := s.runScript handler.script
  if handler.threw then some s else s.runMicrotasks handler.ticks

def invoke (s : EventLoop rt Job) (handler : Handler rt Job) : Option (EventLoop rt Job) :=
  (s.makeCallback handler).map fun s => s.enqueue handler.reaction.toList

def runAllAsyncs (s : EventLoop rt Job) (handlers : List (Handler rt Job))
    (flush : List (Script rt Job)) : Option (EventLoop rt Job) :=
  (handlers.foldlM invoke s).bind fun s => s.runMicrotasks flush

/-- Settling a promise enqueues its reactions. -/
def trigger (s : EventLoop rt Job) : Option Nat → EventLoop rt Job
  | none => s
  | some call =>
      match s.invoker.settlements call with
      | [] => s
      | _ :: _ => { s.enqueue (s.reactions call) with
          reactions := Function.update s.reactions call [] }

/-- One closure of `NativeCallQueue::run_all_asyncs`: a `CompletePromise`. -/
def completeNext (s : EventLoop rt Job) : Option (EventLoop rt Job) :=
  match s.invoker.native.handOver with
  | none => none
  | some (completion, _) =>
      (s.invoker.step .completeNext).map fun invoker =>
        { s with invoker := invoker }.trigger (s.invoker.callbacks completion.promiseId)

def idle (s : EventLoop rt Job) : Bool :=
  match s.invoker.native.consumer with
  | .asleep => true
  | _ => false

inductive Action (rt : Runtime) (Job : Type)
  | register (fn : U16String) (callback : Nat)
  | finish (call : Nat) (outcome : Outcome rt)
  | callQueue (handlers : List (Handler rt Job)) (flush : List (Script rt Job))
  | otherCallback (script : Script rt Job) (ticks : List (Script rt Job))
  | turn (turn : Mailbox.Turn)
  | completeNext

def step (s : EventLoop rt Job) : Action rt Job → Option (EventLoop rt Job)
  | .register fn callback =>
      (s.invoker.step (.register fn callback)).map fun invoker => { s with invoker := invoker }
  | .finish call outcome =>
      (s.invoker.step (.finish call outcome)).map fun invoker => { s with invoker := invoker }
  | .callQueue handlers flush => if s.idle then s.runAllAsyncs handlers flush else none
  | .otherCallback script ticks =>
      if s.idle then s.makeCallback ⟨script, false, ticks, none⟩ else none
  | .turn turn =>
      (s.invoker.step (.loop turn)).map fun invoker => { s with invoker := invoker }
  | .completeNext => s.completeNext

def initial (rt : Runtime) (Job : Type) : EventLoop rt Job where
  invoker := JavaInvoker.initial rt
  reactions _ := []
  microtasks := []

def machine (rt : Runtime) (Job : Type) : Machine (EventLoop rt Job) (Action rt Job) where
  Init s := s = initial rt Job
  step := step

/-! ## The event loop runs the bridge -/

def Follows (s t : EventLoop rt Job) : Prop :=
  ∃ as, (JavaInvoker.machine rt).run s.invoker as = some t.invoker

theorem Follows.refl (s : EventLoop rt Job) : Follows s s := ⟨[], rfl⟩

theorem Follows.trans {s r t : EventLoop rt Job} (h : Follows s r) (h' : Follows r t) :
    Follows s t := by
  obtain ⟨as, has⟩ := h
  obtain ⟨bs, hbs⟩ := h'
  refine ⟨as ++ bs, ?_⟩
  rw [Machine.run_of_run has]
  exact hbs

theorem Follows.of_eq {s t : EventLoop rt Job} (h : t.invoker = s.invoker) : Follows s t :=
  ⟨[], congrArg some h.symm⟩

theorem Follows.of_step {s t : EventLoop rt Job} {a : JavaInvoker.Action rt}
    (h : s.invoker.step a = some t.invoker) : Follows s t :=
  ⟨[a], Machine.run_singleton h⟩

theorem attach_invoker (s : EventLoop rt Job) (call : Nat) (reaction : Job) :
    (s.attach call reaction).invoker = s.invoker := by
  rw [attach]
  split <;> rfl

theorem trigger_invoker (s : EventLoop rt Job) (call : Option Nat) :
    (s.trigger call).invoker = s.invoker := by
  cases call with
  | none => rfl
  | some call =>
    dsimp only [trigger]
    split <;> rfl

theorem call_follows (s : EventLoop rt Job) (a : JavaInvoker.Action rt) :
    Follows s (s.call a) := by
  rw [call]
  split
  · exact .refl s
  · rename_i invoker h
    exact .of_step h

theorem exec_follows (s : EventLoop rt Job) (effect : ScriptEffect rt Job) :
    Follows s (s.exec effect) := by
  cases effect with
  | callJavaSync fn args outcome => exact call_follows s _
  | callJavaAsync fn args refusal => exact call_follows s _
  | attach call reaction => exact .of_eq (attach_invoker s call reaction)
  | enqueue job => exact .of_eq rfl

theorem runScript_follows (script : Script rt Job) :
    ∀ s : EventLoop rt Job, Follows s (s.runScript script) := by
  induction script with
  | nil => exact .refl
  | cons effect script ih =>
    intro s
    exact (exec_follows s effect).trans (ih (s.exec effect))

theorem runMicrotasks_follows (scripts : List (Script rt Job)) :
    ∀ {s t : EventLoop rt Job}, s.runMicrotasks scripts = some t →
      Follows s t ∧ t.microtasks = [] := by
  induction scripts with
  | nil =>
    intro s t h
    rw [runMicrotasks] at h
    split at h
    · rename_i hempty
      cases h
      exact ⟨.refl s, hempty⟩
    · cases h
  | cons script scripts ih =>
    intro s t h
    rw [runMicrotasks] at h
    split at h
    · cases h
    · rename_i job rest hmicrotasks
      obtain ⟨hfollows, hempty⟩ := ih h
      have hscript : Follows s ({ s with microtasks := rest }.runScript script) :=
        runScript_follows script { s with microtasks := rest }
      exact ⟨hscript.trans hfollows, hempty⟩

theorem makeCallback_follows {s t : EventLoop rt Job} {handler : Handler rt Job}
    (h : s.makeCallback handler = some t) :
    Follows s t ∧ (handler.threw = false → t.microtasks = []) := by
  unfold makeCallback at h
  dsimp only at h
  split at h
  · rename_i hthrew
    cases h
    refine ⟨runScript_follows _ s, fun hnot => ?_⟩
    rw [hthrew] at hnot
    cases hnot
  · obtain ⟨hfollows, hempty⟩ := runMicrotasks_follows _ h
    exact ⟨(runScript_follows _ s).trans hfollows, fun _ => hempty⟩

theorem invoke_follows {s t : EventLoop rt Job} {handler : Handler rt Job}
    (h : s.invoke handler = some t) : Follows s t := by
  obtain ⟨r, hr, rfl⟩ := Option.map_eq_some_iff.mp h
  exact (makeCallback_follows hr).1

theorem foldlM_invoke_follows (handlers : List (Handler rt Job)) :
    ∀ {s t : EventLoop rt Job}, handlers.foldlM invoke s = some t → Follows s t := by
  induction handlers with
  | nil =>
    intro s t h
    cases h
    exact .refl s
  | cons handler handlers ih =>
    intro s t h
    obtain ⟨r, hr, h⟩ := Option.bind_eq_some_iff.mp h
    exact (invoke_follows hr).trans (ih h)

theorem runAllAsyncs_follows {s t : EventLoop rt Job} {handlers : List (Handler rt Job)}
    {flush : List (Script rt Job)} (h : s.runAllAsyncs handlers flush = some t) :
    Follows s t ∧ t.microtasks = [] := by
  obtain ⟨r, hr, h⟩ := Option.bind_eq_some_iff.mp h
  obtain ⟨hfollows, hempty⟩ := runMicrotasks_follows flush h
  exact ⟨(foldlM_invoke_follows handlers hr).trans hfollows, hempty⟩

theorem completeNext_eq {s t : EventLoop rt Job} (h : s.completeNext = some t) :
    ∃ x native invoker, s.invoker.native.handOver = some (x, native) ∧
      s.invoker.step .completeNext = some invoker ∧
      t = { s with invoker := invoker }.trigger (s.invoker.callbacks x.promiseId) := by
  rw [completeNext] at h
  split at h
  · cases h
  · rename_i x native hhand
    obtain ⟨invoker, hstep, rfl⟩ := Option.map_eq_some_iff.mp h
    exact ⟨x, native, invoker, hhand, hstep, rfl⟩

theorem step_follows {s t : EventLoop rt Job} {a : Action rt Job} (h : s.step a = some t) :
    Follows s t := by
  cases a with
  | register fn callback =>
    obtain ⟨invoker, hstep, rfl⟩ := Option.map_eq_some_iff.mp h
    exact .of_step hstep
  | finish call outcome =>
    obtain ⟨invoker, hstep, rfl⟩ := Option.map_eq_some_iff.mp h
    exact .of_step hstep
  | callQueue handlers flush =>
    dsimp only [step] at h
    split at h
    · exact (runAllAsyncs_follows h).1
    · cases h
  | otherCallback script ticks =>
    dsimp only [step] at h
    split at h
    · exact (makeCallback_follows h).1
    · cases h
  | turn turn =>
    obtain ⟨invoker, hstep, rfl⟩ := Option.map_eq_some_iff.mp h
    exact .of_step hstep
  | completeNext =>
    obtain ⟨x, native, invoker, -, hstep, rfl⟩ := completeNext_eq h
    apply Follows.of_step
    rw [trigger_invoker]
    exact hstep

/-- The event loop is the bridge with JavaScript around it. -/
theorem refines_invoker (rt : Runtime) (Job : Type) :
    Machine.Simulation (machine rt Job) (JavaInvoker.machine rt) EventLoop.invoker where
  init := by
    rintro s rfl
    rfl
  step _ _ _ _ hstep := step_follows hstep

theorem consistent_of_reachable (hlaw : rt.Lawful) {s : EventLoop rt Job}
    (h : (machine rt Job).Reachable s) : s.invoker.Consistent :=
  JavaInvoker.consistent_of_reachable hlaw ((refines_invoker rt Job).reachable h)

/-! ## What the native queue leaves behind -/

def Unobserved (s : EventLoop rt Job) (x : Completion) : Prop :=
  ∀ call, s.invoker.callbacks x.promiseId = some call → s.reactions call = []

theorem trigger_settled {s : EventLoop rt Job} {call : Nat} {r : PromiseResult rt}
    (h : s.invoker.settlements call = [r]) :
    s.trigger (some call) = { s with
      microtasks := s.microtasks ++ s.reactions call
      reactions := Function.update s.reactions call [] } := by
  dsimp only [trigger]
  rw [h]
  rfl

theorem completeNext_cases {s t : EventLoop rt Job} (hs : s.invoker.Consistent)
    (h : s.completeNext = some t) :
    ∃ x native call, s.invoker.native.handOver = some (x, native) ∧
      s.invoker.callbacks x.promiseId = some call ∧
      t.microtasks = s.microtasks ++ s.reactions call ∧
      t.reactions = Function.update s.reactions call [] ∧
      t.invoker.callbacks = Function.update s.invoker.callbacks x.promiseId none ∧
      t.invoker.native = native := by
  obtain ⟨x, native, invoker, hhand, hstep, rfl⟩ := completeNext_eq h
  have hnext : s.invoker.completeNext = some invoker := by
    rw [JavaInvoker.step] at hstep
    split at hstep
    · cases hstep
    · exact hstep
  obtain ⟨y, native', call, inv, r, hcompleting⟩ := hs.completing hnext
  have hsame := hcompleting.handOver
  rw [hhand] at hsame
  cases hsame
  rw [hcompleting.table, trigger_settled hcompleting.settlements, hcompleting.result]
  exact ⟨x, native, call, hhand, hcompleting.table, rfl, rfl, rfl, rfl⟩

theorem finish_quiet (hlaw : rt.Lawful) {s t : JavaInvoker rt} (hs : s.Consistent) {c : Nat}
    {outcome : Outcome rt} (h : s.finish c outcome = some t) :
    t.callbacks = s.callbacks ∧ t.native.consumer = s.native.consumer := by
  rw [JavaInvoker.finish] at h
  split at h
  · cases h
  rename_i task htask
  have hpos := (hs.ids c _ (hs.issued_of_executor htask)).1
  obtain ⟨x, native, -, -, hoffer, rfl⟩ | ⟨-, f, rfl⟩ :=
    JavaInvoker.asyncCallback_cases hlaw hpos h
  · exact ⟨rfl, Mailbox.offer_consumer hoffer⟩
  · exact ⟨rfl, rfl⟩

structure Quiet (s t : EventLoop rt Job) : Prop where
  microtasks : t.microtasks = s.microtasks
  reactions : t.reactions = s.reactions
  callbacks : t.invoker.callbacks = s.invoker.callbacks
  consumer : t.invoker.native.consumer = s.invoker.native.consumer

theorem Quiet.unobserved_iff {s t : EventLoop rt Job} (h : Quiet s t) (x : Completion) :
    t.Unobserved x ↔ s.Unobserved x := by
  unfold Unobserved
  rw [h.callbacks, h.reactions]

theorem step_draining (hlaw : rt.Lawful) {s t : EventLoop rt Job} {a : Action rt Job}
    (hs : s.invoker.Consistent) {batch : List Completion}
    (hconsumer : s.invoker.native.consumer = .draining batch) (ha : a ≠ .turn .finish)
    (h : s.step a = some t) :
    Quiet s t ∨ ∃ x rest, batch = x :: rest ∧ s.completeNext = some t ∧
      t.invoker.native.consumer = .draining rest := by
  have hbusy : s.idle = false := by
    rw [idle, hconsumer]
  cases a with
  | register fn callback =>
    obtain ⟨invoker, hstep, rfl⟩ := Option.map_eq_some_iff.mp h
    rw [JavaInvoker.step] at hstep
    split at hstep
    · cases hstep
    · cases hstep
      exact .inl ⟨rfl, rfl, rfl, rfl⟩
  | finish call outcome =>
    obtain ⟨invoker, hstep, rfl⟩ := Option.map_eq_some_iff.mp h
    rw [JavaInvoker.step] at hstep
    split at hstep
    · cases hstep
    · obtain ⟨hcallbacks, hsame⟩ := finish_quiet hlaw hs hstep
      exact .inl ⟨rfl, rfl, hcallbacks, hsame⟩
  | callQueue handlers flush =>
    rw [step, hbusy] at h
    cases h
  | otherCallback script ticks =>
    rw [step, hbusy] at h
    cases h
  | turn turn =>
    obtain ⟨invoker, hstep, rfl⟩ := Option.map_eq_some_iff.mp h
    rw [JavaInvoker.step] at hstep
    split at hstep
    · cases hstep
    · obtain ⟨native, hturn, -⟩ := Option.map_eq_some_iff.mp hstep
      cases turn with
      | deliver =>
        obtain ⟨-, hasleep, -⟩ := Mailbox.deliver_eq_some hturn
        rw [hconsumer] at hasleep
        cases hasleep
      | take =>
        obtain ⟨hwoken, -⟩ := Mailbox.take_eq_some hturn
        rw [hconsumer] at hwoken
        cases hwoken
      | finish => exact absurd rfl ha
  | completeNext =>
    obtain ⟨x, native, call, hhand, -, -, -, -, hnative⟩ := completeNext_cases hs h
    obtain ⟨rest, hbatch, rfl⟩ := Mailbox.handOver_eq_some hhand
    rw [hconsumer] at hbatch
    cases hbatch
    exact .inr ⟨x, rest, rfl, h, by rw [hnative]⟩

theorem completeNext_unobserved_iff {s t : EventLoop rt Job} (hs : s.invoker.Consistent)
    {x : Completion} {rest : List Completion}
    (hconsumer : s.invoker.native.consumer = .draining (x :: rest))
    (h : s.completeNext = some t) :
    (t.microtasks = [] ∧ ∀ y ∈ rest, t.Unobserved y) ↔
      s.microtasks = [] ∧ ∀ y ∈ x :: rest, s.Unobserved y := by
  obtain ⟨x', native, call, hhand, htable, hmicrotasks, hreactions, hcallbacks, -⟩ :=
    completeNext_cases hs h
  obtain ⟨rest', hbatch, -⟩ := Mailbox.handOver_eq_some hhand
  rw [hconsumer] at hbatch
  cases hbatch
  have hids := hs.pendingIds
  rw [Mailbox.pending, hconsumer] at hids
  have hdistinct : ∀ y ∈ rest, y.promiseId ≠ x.promiseId := by
    intro y hy hid
    rw [Consumer.batch, List.cons_append, List.map_cons, List.nodup_cons] at hids
    apply hids.1
    rw [← hid]
    exact List.mem_map_of_mem (List.mem_append_left _ hy)
  have hrest : s.reactions call = [] → ∀ y ∈ rest, (t.Unobserved y ↔ s.Unobserved y) := by
    intro hnone y hy
    have hsame : t.reactions = s.reactions := by
      rw [hreactions, ← hnone, Function.update_eq_self]
    unfold Unobserved
    rw [hcallbacks, Function.update_of_ne (hdistinct y hy), hsame]
  have hx : s.Unobserved x ↔ s.reactions call = [] := by
    constructor
    · intro hun
      exact hun call htable
    · intro hnone call' hcall'
      rw [htable] at hcall'
      cases hcall'
      exact hnone
  rw [hmicrotasks, List.append_eq_nil_iff, List.forall_mem_cons, hx]
  constructor
  · rintro ⟨⟨hempty, hnone⟩, hall⟩
    exact ⟨hempty, hnone, fun y hy => (hrest hnone y hy).mp (hall y hy)⟩
  · rintro ⟨hempty, hnone, hall⟩
    exact ⟨⟨hempty, hnone⟩, fun y hy => (hrest hnone y hy).mpr (hall y hy)⟩

/-- A drained batch leaves the microtask queue empty if it was empty before and no
promise that the batch settles has reactions, and only then. -/
theorem run_batch_iff (hlaw : rt.Lawful) (as : List (Action rt Job)) :
    ∀ {s t : EventLoop rt Job}, (machine rt Job).Reachable s → (machine rt Job).run s as = some t →
      (∀ a ∈ as, a ≠ .turn .finish) → ∀ {batch : List Completion},
      s.invoker.native.consumer = .draining batch → t.invoker.native.consumer = .draining [] →
      (t.microtasks = [] ↔ s.microtasks = [] ∧ ∀ x ∈ batch, s.Unobserved x) := by
  induction as with
  | nil =>
    intro s t _ hrun _ batch hconsumer hdone
    cases hrun
    rw [hconsumer] at hdone
    cases hdone
    simp
  | cons a as ih =>
    intro s t hs hrun hno batch hconsumer hdone
    obtain ⟨r, hstep, hrun⟩ := Option.bind_eq_some_iff.mp hrun
    have hstep : s.step a = some r := hstep
    have hr : (machine rt Job).Reachable r := hs.step hstep
    have hconsistent := consistent_of_reachable hlaw hs
    obtain ⟨ha, hno⟩ := List.forall_mem_cons.mp hno
    rcases step_draining hlaw hconsistent hconsumer ha hstep with
      hquiet | ⟨x, rest, rfl, hcomplete, hrest⟩
    · rw [ih hr hrun hno (hquiet.consumer.trans hconsumer) hdone, hquiet.microtasks]
      simp only [hquiet.unobserved_iff]
    · rw [ih hr hrun hno hrest hdone]
      exact completeNext_unobserved_iff hconsistent hconsumer hcomplete

/-- The completions of a run settle no promise that has reactions. -/
def SettlesUnobserved (s : EventLoop rt Job) (a : Action rt Job) : Prop :=
  a = .completeNext → ∀ x native, s.invoker.native.handOver = some (x, native) → s.Unobserved x

theorem microtasks_of_step (hlaw : rt.Lawful) {s t : EventLoop rt Job} {a : Action rt Job}
    (hs : (machine rt Job).Reachable s) (hguard : SettlesUnobserved s a)
    (hempty : s.microtasks = []) (h : s.step a = some t) : t.microtasks = [] := by
  cases a with
  | register fn callback =>
    obtain ⟨invoker, -, rfl⟩ := Option.map_eq_some_iff.mp h
    exact hempty
  | finish call outcome =>
    obtain ⟨invoker, -, rfl⟩ := Option.map_eq_some_iff.mp h
    exact hempty
  | turn turn =>
    obtain ⟨invoker, -, rfl⟩ := Option.map_eq_some_iff.mp h
    exact hempty
  | callQueue handlers flush =>
    dsimp only [step] at h
    split at h
    · exact (runAllAsyncs_follows h).2
    · cases h
  | otherCallback script ticks =>
    dsimp only [step] at h
    split at h
    · exact (makeCallback_follows h).2 rfl
    · cases h
  | completeNext =>
    obtain ⟨x, native, call, hhand, htable, hmicrotasks, -⟩ :=
      completeNext_cases (consistent_of_reachable hlaw hs) h
    rw [hmicrotasks, hempty, hguard rfl x native hhand call htable]
    rfl

/-- The drain loop of `CallQueue` always returns with the microtask queue empty.
That of `NativeCallQueue` does so exactly for the batches that settle no promise
with reactions, and a run with such batches only never leaves a microtask behind. -/
theorem microtasks_flushed_iff (hlaw : rt.Lawful) :
    (∀ (s t : EventLoop rt Job) (handlers : List (Handler rt Job))
      (flush : List (Script rt Job)), s.runAllAsyncs handlers flush = some t →
      t.microtasks = []) ∧
    (∀ (s t : EventLoop rt Job) (as : List (Action rt Job)) (batch : List Completion),
      (machine rt Job).Reachable s → (machine rt Job).run s as = some t →
      (∀ a ∈ as, a ≠ .turn .finish) → s.invoker.native.consumer = .draining batch →
      t.invoker.native.consumer = .draining [] →
      (t.microtasks = [] ↔ s.microtasks = [] ∧ ∀ x ∈ batch, s.Unobserved x)) ∧
    ∀ s : EventLoop rt Job, (machine rt Job).ReachableVia SettlesUnobserved s →
      s.microtasks = [] := by
  refine ⟨fun s t handlers flush h => (runAllAsyncs_follows h).2, ?_, ?_⟩
  · intro s t as batch hs hrun hno hconsumer hdone
    exact run_batch_iff hlaw as hs hrun hno hconsumer hdone
  · intro s hs
    induction hs with
    | start hinit =>
      rw [show _ = initial rt Job from hinit]
      rfl
    | next hs hguard hstep ih =>
      exact microtasks_of_step hlaw hs.reachable hguard ih hstep

def sampleDrain (script : Script Sample.runtime Unit) : List (Action Sample.runtime Unit) :=
  [.register (u16 "f") 7, .otherCallback (.callJavaAsync (u16 "f") [] none :: script) [],
    .finish 0 (.returned .null), .turn .deliver, .turn .take, .completeNext]

theorem microtasks_flushed_unobserved : ∃ s : EventLoop Sample.runtime Unit,
    (machine Sample.runtime Unit).run (initial Sample.runtime Unit)
      ((sampleDrain []).take 5) = some s ∧
    ∃ t, (machine Sample.runtime Unit).run s [.completeNext] = some t ∧
      t.invoker.settlements 0 = [.resolved .null] ∧ t.microtasks = [] := by
  have hinit : (machine Sample.runtime Unit).Reachable (initial Sample.runtime Unit) := .start rfl
  obtain ⟨s, t, hs, ht, hsettled, hconsumer, hdone, hempty, hreactions⟩ :
      ∃ s t : EventLoop Sample.runtime Unit,
        (machine Sample.runtime Unit).run (initial Sample.runtime Unit)
          ((sampleDrain []).take 5) = some s ∧
        (machine Sample.runtime Unit).run s [.completeNext] = some t ∧
        t.invoker.settlements 0 = [.resolved .null] ∧
        s.invoker.native.consumer = .draining [⟨1, none, .null⟩] ∧
        t.invoker.native.consumer = .draining [] ∧ s.microtasks = [] ∧
        s.reactions = fun _ => [] :=
    ⟨_, _, rfl, rfl, rfl, rfl, rfl, rfl, rfl⟩
  have hdrain := (microtasks_flushed_iff Sample.runtime_lawful).2.1 s t [.completeNext]
    [⟨1, none, .null⟩] (hinit.run hs) ht (fun a ha => ?_) hconsumer hdone
  · refine ⟨s, hs, t, ht, hsettled, hdrain.mpr ⟨hempty, fun x _ call _ => ?_⟩⟩
    rw [hreactions]
  · rw [List.mem_singleton.mp ha]
    rintro ⟨⟩

/-- The caller has attached a reaction, which is still waiting when the callback of
the native queue returns to the loop. -/
theorem not_microtasks_flushed : ∃ t : EventLoop Sample.runtime Unit,
    (machine Sample.runtime Unit).run (initial Sample.runtime Unit)
      (sampleDrain [.attach 0 ()] ++ [.turn .finish]) = some t ∧
    t.idle = true ∧ t.microtasks = [()] :=
  ⟨_, rfl, rfl, rfl⟩

end EventLoop

end AlmondAndroid.Bridge
