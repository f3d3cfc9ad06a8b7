import AlmondAndroid.App.Main
import AlmondAndroid.Bridge.CallQueue

/-!
# Calls that come early

The start of the process: Java threads call at any time, the node thread evaluates
`app.js` in one turn up to the first await of `main`, and the queue wakes up the loop
only between turns. The turn is the list of what it has yet to do to the queue and to
the callbacks of `launcher.js`.
-/

namespace AlmondAndroid.App

open Library Bridge

/-- What `AssistantDispatcher.start` registers, in its order. -/
def assistantEvents : List U16String :=
  [u16 "Assistant_onhandlecommand", u16 "Assistant_onhandleparsedcommand",
    u16 "Assistant_onhandlethingtalk", u16 "Assistant_onpresentexample", u16 "Assistant_onready"]

inductive Instruction
  | init
  | setAsyncReceiver
  | registerControl (call : U16String)
  | registerEvent (name : U16String)
  deriving DecidableEq

/-- The script that node is started with initialises the queue and evaluates `app.js`,
which requires the launcher first. The control channel is made in `main`, and the
dispatcher is started after `open` is called and before it is awaited. -/
def firstTurn : List Instruction :=
  .init :: .setAsyncReceiver ::
    (controlMethods.map .registerControl ++ assistantEvents.map .registerEvent)

/-- `turn` is what is left of the first turn. -/
structure Process (rt : Runtime) where
  queue : CallQueue rt
  turn : List Instruction
  callbacks : U16String → Option Callback
  adStopped : Bool

namespace Process

variable {rt : Runtime}

/-- `queue` is a step of a Java thread or of the loop, and `throws` is an exception that
ends the first turn. -/
inductive Action (rt : Runtime)
  | queue (action : CallQueue.Action rt)
  | execute
  | throws
  | dispatch (result : CallbackResult rt.Obj)
  | setEvent (name : U16String) (registered : Bool)
  | adStop

def initial (rt : Runtime) : Process rt where
  queue := CallQueue.initial rt
  turn := firstTurn
  callbacks _ := none
  adStopped := false

def isJava : CallQueue.Action rt → Bool
  | .invokeAsync _ _ _ | .invokeSync _ _ _ | .wake _ => true
  | _ => false

def isLoop : CallQueue.Action rt → Bool
  | .deliver | .moveCalls | .returnToLoop | .settle _ _ | .react _ => true
  | _ => false

def setCallback (s : Process rt) (fn : U16String) (callback : Option Callback) : Process rt :=
  { s with callbacks := Function.update s.callbacks fn callback }

def queueStep (s : Process rt) (action : CallQueue.Action rt) : Option (Process rt) :=
  (s.queue.step action).map fun queue => { s with queue := queue }

def execute (s : Process rt) : Instruction → Option (Process rt)
  | .init => s.queueStep .init
  | .setAsyncReceiver => s.queueStep .setNodeReceiver
  | .registerControl call => some (s.setCallback (controlName call) (some (.control call)))
  | .registerEvent name => some (s.setCallback name (some .event))

/-- The receiver in `launcher.js`; `typeError` makes the error that it throws. -/
def receive (typeError : U16String → rt.Value) (s : Process rt) (fn : U16String)
    (result : CallbackResult rt.Obj) : CallbackResult rt.Obj :=
  match s.callbacks fn with
  | none => .threw (typeError (u16 "No such callback " ++ fn))
  | some _ => result

def dispatch (typeError : U16String → rt.Value) (s : Process rt)
    (result : CallbackResult rt.Obj) : Option (Process rt) :=
  match s.queue.box.handOver with
  | none => none
  | some (call, _) => s.queueStep (.invoke (s.receive typeError call.fn result))

def adStop (s : Process rt) : Process rt :=
  { s with
    callbacks := fun fn => if fn ∈ assistantEvents then none else s.callbacks fn
    adStopped := true }

/-- Past the first turn the code of other events and the end of `main` may come at any
time. No step is left to a process that has faulted. -/
def step (typeError : U16String → rt.Value) (s : Process rt) : Action rt → Option (Process rt)
  | .queue action =>
      if isJava action ∨ (isLoop action ∧ s.turn = []) then s.queueStep action else none
  | .execute =>
      match s.queue.fault, s.turn with
      | none, instruction :: turn => { s with turn := turn }.execute instruction
      | _, _ => none
  | .throws =>
      match s.turn with
      | [] => none
      | _ :: _ => some { s with turn := [] }
  | .dispatch result => if s.turn = [] then s.dispatch typeError result else none
  | .setEvent name registered =>
      if name ∈ apiEvents ∧ name ∉ assistantEvents then
        some (s.setCallback name (if registered then some .event else none))
      else none
  | .adStop => if s.turn = [] then some s.adStop else none

def machine (typeError : U16String → rt.Value) : Machine (Process rt) (Action rt) where
  Init s := s = initial rt
  step := step typeError

def MainAwaits (_ : Process rt) (a : Action rt) : Prop := a ≠ .throws

/-! ## What is registered -/

/-- What the first turn has left behind is registered, each under its own name. -/
structure Registered (s : Process rt) : Prop where
  turn : ∀ name, .registerEvent name ∈ s.turn → name ∈ assistantEvents
  control : ∀ call ∈ controlMethods, .registerControl call ∉ s.turn →
    s.callbacks (controlName call) = some (.control call)
  event : s.adStopped = false → ∀ name ∈ assistantEvents, .registerEvent name ∉ s.turn →
    s.callbacks name = some .event

theorem assistantEvents_subset : ∀ name ∈ assistantEvents, name ∈ apiEvents := by
  decide

theorem controlName_not_mem_assistantEvents (call : U16String) :
    controlName call ∉ assistantEvents :=
  fun hmem => Service.controlName_not_mem_apiEvents call (assistantEvents_subset _ hmem)

theorem Registered.of_eq {s t : Process rt} (h : Registered s) (hturn : t.turn = s.turn)
    (hcallbacks : t.callbacks = s.callbacks) (had : t.adStopped = s.adStopped) :
    Registered t := by
  constructor
  · rw [hturn]
    exact h.turn
  · rw [hturn, hcallbacks]
    exact h.control
  · rw [hturn, hcallbacks, had]
    exact h.event

theorem Registered.queueStep {s t : Process rt} (h : Registered s) {action : CallQueue.Action rt}
    (hstep : s.queueStep action = some t) : Registered t := by
  obtain ⟨queue, -, rfl⟩ := Option.map_eq_some_iff.mp hstep
  exact h.of_eq rfl rfl rfl

theorem Registered.setCallback {s : Process rt} (h : Registered s) {name : U16String}
    (hname : name ∈ apiEvents) (hother : name ∉ assistantEvents) (callback : Option Callback) :
    Registered (s.setCallback name callback) := by
  constructor
  · exact h.turn
  · intro call hcall hturn
    have hne : controlName call ≠ name := fun heq =>
      Service.controlName_not_mem_apiEvents call (heq ▸ hname)
    exact (Function.update_of_ne hne _ _).trans (h.control call hcall hturn)
  · intro had event hevent hturn
    have hne : event ≠ name := fun heq => hother (heq ▸ hevent)
    exact (Function.update_of_ne hne _ _).trans (h.event had event hevent hturn)

theorem Registered.proceed {s : Process rt} (h : Registered s) {instruction : Instruction}
    {turn : List Instruction} (hturn : s.turn = instruction :: turn)
    (hcontrol : ∀ call, .registerControl call ≠ instruction)
    (hevent : ∀ name, .registerEvent name ≠ instruction) : Registered { s with turn := turn } := by
  have hrest : ∀ other, other ≠ instruction → other ∉ turn → other ∉ s.turn := by
    intro other hne hnot
    rw [hturn]
    exact fun hmem => (List.mem_cons.mp hmem).elim hne hnot
  constructor
  · intro name hname
    refine h.turn name ?_
    rw [hturn]
    exact List.mem_cons_of_mem _ hname
  · exact fun call hcall hnot => h.control call hcall (hrest _ (hcontrol call) hnot)
  · exact fun had name hname hnot => h.event had name hname (hrest _ (hevent name) hnot)

theorem Registered.execute {s t : Process rt} (h : Registered s) {instruction : Instruction}
    {turn : List Instruction} (hturn : s.turn = instruction :: turn)
    (hstep : { s with turn := turn }.execute instruction = some t) : Registered t := by
  have hrest : ∀ other, other ≠ instruction → other ∉ turn → other ∉ s.turn := by
    intro other hne hnot
    rw [hturn]
    exact fun hmem => (List.mem_cons.mp hmem).elim hne hnot
  have hleft : ∀ name, .registerEvent name ∈ turn → name ∈ assistantEvents := by
    intro name hname
    refine h.turn name ?_
    rw [hturn]
    exact List.mem_cons_of_mem _ hname
  cases instruction with
  | init => exact (h.proceed hturn nofun nofun).queueStep hstep
  | setAsyncReceiver => exact (h.proceed hturn nofun nofun).queueStep hstep
  | registerControl method =>
    cases hstep
    refine ⟨hleft, ?_, ?_⟩
    · intro call hcall hnot
      by_cases heq : call = method
      · rw [heq]
        exact Function.update_self ..
      · have hne : controlName call ≠ controlName method :=
          fun h => heq (Service.controlName_injective h)
        refine (Function.update_of_ne hne _ _).trans (h.control call hcall (hrest _ ?_ hnot))
        exact fun h => heq (Instruction.registerControl.inj h)
    · intro had name hname hnot
      have hne : name ≠ controlName method := fun heq =>
        controlName_not_mem_assistantEvents method (heq ▸ hname)
      exact (Function.update_of_ne hne _ _).trans (h.event had name hname (hrest _ nofun hnot))
  | registerEvent event =>
    have hevent : event ∈ assistantEvents := by
      refine h.turn event ?_
      rw [hturn]
      exact List.mem_cons_self ..
    cases hstep
    refine ⟨hleft, ?_, ?_⟩
    · intro call hcall hnot
      have hne : controlName call ≠ event := fun heq =>
        controlName_not_mem_assistantEvents call (heq ▸ hevent)
      exact (Function.update_of_ne hne _ _).trans (h.control call hcall (hrest _ nofun hnot))
    · intro had name hname hnot
      by_cases heq : name = event
      · rw [heq]
        exact Function.update_self ..
      · refine (Function.update_of_ne heq _ _).trans (h.event had name hname (hrest _ ?_ hnot))
        exact fun h => heq (Instruction.registerEvent.inj h)

theorem Registered.adStop {s : Process rt} (h : Registered s) : Registered s.adStop := by
  refine ⟨h.turn, fun call hcall hnot => ?_, nofun⟩
  change (if controlName call ∈ assistantEvents then none else s.callbacks (controlName call)) = _
  rw [if_neg (controlName_not_mem_assistantEvents call)]
  exact h.control call hcall hnot

theorem registered_initial : Registered (initial rt) := by
  refine ⟨fun name hname => ?_, fun call hcall hnot => ?_, fun _ name hname hnot => ?_⟩
  · have hname : .registerEvent name ∈ firstTurn := hname
    simpa [firstTurn] using hname
  · have hmem : Instruction.registerControl call ∈ firstTurn := by simp [firstTurn, hcall]
    exact (hnot hmem).elim
  · have hmem : Instruction.registerEvent name ∈ firstTurn := by simp [firstTurn, hname]
    exact (hnot hmem).elim

variable {typeError : U16String → rt.Value} {s t : Process rt}

/-- A dispatch is the step of the queue that invokes the receiver with the next call. -/
inductive Does (typeError : U16String → rt.Value) (s : Process rt) :
    Action rt → Process rt → Prop
  | queue {action : CallQueue.Action rt} {queue : CallQueue rt} :
      s.queue.step action = some queue → Does typeError s (.queue action) { s with queue := queue }
  | execute {instruction : Instruction} {turn : List Instruction} {t : Process rt} :
      s.turn = instruction :: turn → { s with turn := turn }.execute instruction = some t →
      Does typeError s .execute t
  | throws : Does typeError s .throws { s with turn := [] }
  | dispatch {result : CallbackResult rt.Obj} {call : PackagedNodeCall}
      {box : Mailbox Nat PackagedNodeCall} {queue : CallQueue rt} : s.turn = [] →
      s.queue.box.handOver = some (call, box) →
      s.queue.step (.invoke (s.receive typeError call.fn result)) = some queue →
      Does typeError s (.dispatch result) { s with queue := queue }
  | setEvent {name : U16String} {registered : Bool} : name ∈ apiEvents →
      name ∉ assistantEvents → Does typeError s (.setEvent name registered)
        (s.setCallback name (if registered then some .event else none))
  | adStop : Does typeError s .adStop s.adStop

theorem step_does {a : Action rt} (hstep : step typeError s a = some t) :
    Does typeError s a t := by
  cases a with
  | queue action =>
    obtain ⟨-, hstep⟩ := Option.ite_none_right_eq_some.mp hstep
    obtain ⟨queue, hqueue, rfl⟩ := Option.map_eq_some_iff.mp hstep
    exact .queue hqueue
  | execute =>
    rw [step] at hstep
    split at hstep
    · rename_i hturn
      exact .execute hturn hstep
    · cases hstep
  | throws =>
    rw [step] at hstep
    split at hstep
    · cases hstep
    · cases hstep
      exact .throws
  | dispatch result =>
    obtain ⟨hturn, hstep⟩ := Option.ite_none_right_eq_some.mp hstep
    rw [dispatch] at hstep
    split at hstep
    · cases hstep
    · rename_i hhand
      obtain ⟨queue, hqueue, rfl⟩ := Option.map_eq_some_iff.mp hstep
      exact .dispatch hturn hhand hqueue
  | setEvent name registered =>
    obtain ⟨⟨hname, hother⟩, hstep⟩ := Option.ite_none_right_eq_some.mp hstep
    cases hstep
    exact .setEvent hname hother
  | adStop =>
    obtain ⟨-, hstep⟩ := Option.ite_none_right_eq_some.mp hstep
    cases hstep
    exact .adStop

theorem Registered.step {a : Action rt} (h : Registered s) (hawaits : MainAwaits s a)
    (hstep : step typeError s a = some t) : Registered t := by
  cases step_does hstep with
  | queue _ => exact h.of_eq rfl rfl rfl
  | execute hturn hexecute => exact h.execute hturn hexecute
  | throws => exact (hawaits rfl).elim
  | dispatch _ _ _ => exact h.of_eq rfl rfl rfl
  | setEvent hname hother => exact h.setCallback hname hother _
  | adStop => exact h.adStop

theorem registered (hs : (machine typeError).ReachableVia MainAwaits s) : Registered s := by
  refine hs.invariant Registered ?_ fun s a t h hawaits hstep => h.step hawaits hstep
  rintro s rfl
  exact registered_initial

/-! ## The queue and the process -/

theorem step_run {queue queue' : CallQueue rt} {action : CallQueue.Action rt}
    (h : queue.step action = some queue') :
    ∃ bs, (CallQueue.machine rt).run queue bs = some queue' := by
  have hstep : (CallQueue.machine rt).step queue action = some queue' := h
  exact ⟨[action], Machine.run_singleton hstep⟩

theorem execute_run {instruction : Instruction} (h : s.execute instruction = some t) :
    ∃ bs, (CallQueue.machine rt).run s.queue bs = some t.queue := by
  cases instruction with
  | init =>
    obtain ⟨queue, hqueue, rfl⟩ := Option.map_eq_some_iff.mp h
    exact step_run hqueue
  | setAsyncReceiver =>
    obtain ⟨queue, hqueue, rfl⟩ := Option.map_eq_some_iff.mp h
    exact step_run hqueue
  | registerControl call =>
    cases h
    exact ⟨[], rfl⟩
  | registerEvent name =>
    cases h
    exact ⟨[], rfl⟩

/-- For the queue the process is one of its environments. -/
theorem simulation (typeError : U16String → rt.Value) :
    Machine.Simulation (machine typeError) (CallQueue.machine rt) Process.queue where
  init s hs := hs ▸ rfl
  step s a t _ hstep := by
    cases step_does hstep with
    | queue hqueue => exact step_run hqueue
    | @execute instruction turn _ _ hexecute =>
      have hrun := execute_run hexecute
      exact hrun
    | dispatch _ _ hqueue => exact step_run hqueue
    | throws | setEvent | adStop => exact ⟨[], rfl⟩

/-! ## No early call is lost -/

theorem receive_of_some {fn : U16String} {callback : Callback}
    (h : s.callbacks fn = some callback) (result : CallbackResult rt.Obj) :
    s.receive typeError fn result = result := by
  rw [receive, h]

/-- A call of a control method, or of an event of the assistant that has not been stopped,
is dispatched to the callback that is registered for it, and what that does is the result. -/
theorem early_calls_registered (hs : (machine typeError).ReachableVia MainAwaits s)
    {result : CallbackResult rt.Obj} (hstep : step typeError s (.dispatch result) = some t) :
    ∃ call, t.queue.box.handed = s.queue.box.handed ++ [call] ∧
      (∀ method ∈ controlMethods, call.fn = controlName method →
        s.callbacks call.fn = some (.control method) ∧
        s.queue.step (.invoke result) = some t.queue) ∧
      (call.fn ∈ assistantEvents → s.adStopped = false →
        s.callbacks call.fn = some .event ∧ s.queue.step (.invoke result) = some t.queue) := by
  have hregistered := registered hs
  cases step_does hstep with
  | @dispatch _ call box queue hturn hhand hqueue =>
    have hleft : ∀ instruction : Instruction, instruction ∉ s.turn := by
      intro instruction
      rw [hturn]
      exact List.not_mem_nil
    refine ⟨call, ?_, fun method hmethod hfn => ?_, fun hevent had => ?_⟩
    · obtain ⟨next, hnext⟩ := CallQueue.step_invoke_box hqueue
      rw [hhand] at hnext
      cases hnext
      exact Mailbox.handOver_handed hhand
    · have hcallback := hregistered.control method hmethod (hleft _)
      rw [← hfn] at hcallback
      rw [receive_of_some hcallback] at hqueue
      exact ⟨hcallback, hqueue⟩
    · have hcallback := hregistered.event had call.fn hevent (hleft _)
      rw [receive_of_some hcallback] at hqueue
      exact ⟨hcallback, hqueue⟩

/-- A thread calls `stop` before node is started: it waits until the receiver is set. -/
def stopEarly : List (Action Sample.runtime) :=
  .queue (.invokeAsync 0 (controlName (u16 "stop")) []) :: firstTurn.map (fun _ => .execute) ++
    [.queue (.wake 0), .queue .deliver, .queue .moveCalls]

theorem stopEarly_awaits : ∀ a ∈ stopEarly, ∀ s, MainAwaits s a := by
  intro a ha s
  rcases List.mem_append.mp ha with ha | ha
  · rcases List.mem_cons.mp ha with rfl | ha
    · exact nofun
    · obtain ⟨instruction, -, rfl⟩ := List.mem_map.mp ha
      exact nofun
  · rintro rfl
    simp at ha

/-- It is the first call to be dispatched. -/
theorem early_calls_registered_stop : ∃ s t : Process Sample.runtime,
    (machine fun _ => .object (Sample.Obj.plain .emptyObject)).run (initial Sample.runtime)
      stopEarly = some s ∧
    t.queue.box.handed = [⟨controlName (u16 "stop"), [], false, .async⟩] ∧
    s.callbacks (controlName (u16 "stop")) = some (.control (u16 "stop")) ∧
    s.queue.step (.invoke (.returned .undefined)) = some t.queue := by
  have hrun : (machine fun _ => .object (Sample.Obj.plain .emptyObject)).run
      (initial Sample.runtime) stopEarly = some _ := rfl
  have hs := Machine.ReachableVia.run _ (.start rfl)
    (Machine.Meets.of_forall _ stopEarly_awaits _) hrun
  obtain ⟨call, hhanded, hcontrol, -⟩ := early_calls_registered hs
    (rfl : step _ _ (.dispatch (.returned .undefined)) = some _)
  have hcall : ⟨controlName (u16 "stop"), [], false, .async⟩ = call :=
    List.singleton_inj.mp hhanded
  subst hcall
  obtain ⟨hcallback, hinvoke⟩ := hcontrol (u16 "stop") (by decide) rfl
  exact ⟨_, _, hrun, hhanded, hcallback, hinvoke⟩

end Process

end AlmondAndroid.App
