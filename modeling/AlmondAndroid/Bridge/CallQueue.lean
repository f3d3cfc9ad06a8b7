import AlmondAndroid.Library.Mailbox
import AlmondAndroid.Bridge.PackagedNodeCall

/-!
# The Java-to-node call queues

Java threads enter through the JNI functions `invokeAsync` and `invokeSync`; the
node thread drains the queue from the `uv_async_t` callback and runs JavaScript.
A call is known by its position among the appended calls, which is also the
identity of its `std::promise`. The state keeps three histories: the outcomes of
the dispatched handlers, the completions of each `std::promise`, and the lines
logged.
-/

namespace AlmondAndroid.Bridge

open Library

inductive Side
  | node
  | java
  deriving DecidableEq

variable (rt : Runtime)

structure CallQueue where
  inited : Bool
  box : Mailbox Nat PackagedNodeCall
  results : List (CallbackResult rt.Obj)
  answers : Nat → List Answer
  attached : Nat → Option Attachment
  settled : Nat → Option (Settlement rt.Obj)
  log : List U16String
  fault : Option (Side × Fault)

/-- `make_args`: `none` when an argument is rejected, with the exception pending. -/
def makeArgs : List rt.Object → Except Fault (Option (List InteropValue))
  | [] => .ok (some [])
  | o :: os =>
      match initFromJava rt true o with
      | .error f => .error f
      | .ok (.rejected _) => .ok none
      | .ok (.accepted v) => (makeArgs os).map fun rest => rest.map (v :: ·)

namespace CallQueue

inductive Action
  | init
  | setNodeReceiver
  | invokeAsync (thread : Nat) (fn : U16String) (args : List rt.Object)
  | invokeSync (thread : Nat) (fn : U16String) (args : List rt.Object)
  | wake (thread : Nat)
  | deliver
  | moveCalls
  | invoke (result : CallbackResult rt.Obj)
  | returnToLoop
  | settle (p : Nat) (settlement : Settlement rt.Obj)
  | react (call : Nat)

def initial : CallQueue rt where
  inited := false
  box := Mailbox.closed
  results := []
  answers _ := []
  attached _ := none
  settled _ := none
  log := []
  fault := none

variable {rt}

/-- The JNI entry points: convert the arguments, then append under the lock once
the receiver is set. -/
def enqueue (s : CallQueue rt) (thread : Nat) (args : List rt.Object)
    (package : List InteropValue → PackagedNodeCall) : Option (CallQueue rt) :=
  match makeArgs rt args with
  | .error f => some { s with fault := some (.java, f) }
  | .ok none => some s
  | .ok (some values) =>
      (s.box.offer thread (package values)).map fun box => { s with box := box }

def invokeAsync (s : CallQueue rt) (thread : Nat) (fn : U16String) (args : List rt.Object) :
    Option (CallQueue rt) :=
  s.enqueue thread args fun values => .new fn values .async

def invokeSync (s : CallQueue rt) (thread : Nat) (fn : U16String) (args : List rt.Object) :
    Option (CallQueue rt) :=
  s.enqueue thread args fun values => (PackagedNodeCall.new fn values .sync).getReturnValue

def complete (s : CallQueue rt) (call : Nat) : Effect → CallQueue rt
  | .nothing => s
  | .answer a => { s with answers := Function.update s.answers call (s.answers call ++ [a]) }
  | .log message => { s with log := s.log ++ [message] }

def dispatched (s : CallQueue rt) (box : Mailbox Nat PackagedNodeCall)
    (result : CallbackResult rt.Obj) : Except Fault Invoked → CallQueue rt
  | .error f =>
      { s with box := box, results := s.results ++ [result], fault := some (.node, f) }
  | .ok (.done e) =>
      { s with box := box, results := s.results ++ [result] }.complete s.box.handed.length e
  | .ok (.attached a) =>
      { s with
        box := box
        results := s.results ++ [result]
        attached := Function.update s.attached s.box.handed.length (some a) }

/-- One iteration of the loop of `run_all_asyncs`. -/
def invokeNext (s : CallQueue rt) (result : CallbackResult rt.Obj) : Option (CallQueue rt) :=
  match s.box.handOver with
  | none => none
  | some (call, box) => some (s.dispatched box result (call.invoke rt result))

def reacted (s : CallQueue rt) (call : Nat) : Except Fault Effect → CallQueue rt
  | .error f =>
      { s with attached := Function.update s.attached call none, fault := some (.node, f) }
  | .ok e => { s with attached := Function.update s.attached call none }.complete call e

def react (s : CallQueue rt) (call : Nat) : Option (CallQueue rt) :=
  match s.attached call with
  | none => none
  | some a =>
      match s.settled a.promise with
      | none => none
      | some settlement => some (s.reacted call (a.react rt settlement))

def settle (s : CallQueue rt) (p : Nat) (settlement : Settlement rt.Obj) :
    Option (CallQueue rt) :=
  match s.settled p with
  | some _ => none
  | none => some { s with settled := Function.update s.settled p (some settlement) }

/-- No step is left to a process that has faulted. -/
def step (s : CallQueue rt) (a : Action rt) : Option (CallQueue rt) :=
  match s.fault with
  | some _ => none
  | none =>
    match a with
    | .init => if s.inited then none else some { s with inited := true }
    | .setNodeReceiver => if s.inited then some { s with box := s.box.openUp } else none
    | .invokeAsync thread fn args => s.invokeAsync thread fn args
    | .invokeSync thread fn args => s.invokeSync thread fn args
    | .wake thread => (s.box.retry thread).map fun box => { s with box := box }
    | .deliver => s.box.deliver.map fun box => { s with box := box }
    | .moveCalls => s.box.take.map fun box => { s with box := box }
    | .invoke result => s.invokeNext result
    | .returnToLoop => s.box.finish.map fun box => { s with box := box }
    | .settle p settlement => s.settle p settlement
    | .react call => s.react call

variable (rt) in
def machine : Machine (CallQueue rt) (Action rt) where
  Init s := s = initial rt
  step := step

/-! ## What a step can do -/

structure Sound (rt : Runtime) (call : PackagedNodeCall) : Prop where
  useReturn : call.useReturn = true ↔ call.origin = .sync
  decodes : ∃ values, call.argumentsToJS rt = .ok values

theorem toJavaScript_of_initFromJava (hlaw : rt.Lawful) {doThrow : Bool} {o : rt.Object}
    {value : InteropValue} (h : initFromJava rt doThrow o = .ok (.accepted value)) :
    ∃ v, toJavaScript rt value = .ok (some v) := by
  obtain ⟨-, v, hv, -⟩ := roundTripsJava hlaw o doThrow value h
  exact ⟨v, hv⟩

theorem makeArgs_decodes (hlaw : rt.Lawful) (os : List rt.Object) :
    ∀ values, makeArgs rt os = .ok (some values) →
      ∃ vs, values.mapM (toJavaScript rt) = .ok vs := by
  induction os with
  | nil =>
    intro values h
    cases h
    exact ⟨[], rfl⟩
  | cons o os ih =>
    intro values h
    rw [makeArgs] at h
    split at h
    · cases h
    · cases h
    · rename_i v hv
      cases hrest : makeArgs rt os with
      | error f => simp [hrest, Except.map] at h
      | ok rest =>
        rw [hrest] at h
        cases rest with
        | none => simp [Except.map] at h
        | some rest =>
          cases h
          obtain ⟨w, hw⟩ := toJavaScript_of_initFromJava hlaw hv
          obtain ⟨ws, hws⟩ := ih rest hrest
          refine ⟨some w :: ws, ?_⟩
          rw [List.mapM_cons, hw, hws]
          rfl

inductive Steps (s : CallQueue rt) : CallQueue rt → Prop
  | init : Steps s { s with inited := true }
  | rejected : Steps s s
  | javaFault (f : Fault) : Steps s { s with fault := some (.java, f) }
  | box {box : Mailbox Nat PackagedNodeCall} : Mailbox.Moves (Sound rt) s.box box →
      box.handed = s.box.handed → Steps s { s with box := box }
  | invoke {call : PackagedNodeCall} {box : Mailbox Nat PackagedNodeCall}
      (result : CallbackResult rt.Obj) : s.box.handOver = some (call, box) →
      Steps s (s.dispatched box result (call.invoke rt result))
  | settle {p : Nat} (settlement : Settlement rt.Obj) : s.settled p = none →
      Steps s { s with settled := Function.update s.settled p (some settlement) }
  | react {call : Nat} {a : Attachment} {settlement : Settlement rt.Obj} :
      s.attached call = some a → s.settled a.promise = some settlement →
      Steps s (s.reacted call (a.react rt settlement))

theorem enqueue_steps (hlaw : rt.Lawful) {s t : CallQueue rt} {thread : Nat}
    {args : List rt.Object} {package : List InteropValue → PackagedNodeCall}
    (hargs : ∀ values, (package values).args = values)
    (huse : ∀ values, (package values).useReturn = true ↔ (package values).origin = .sync)
    (h : s.enqueue thread args package = some t) : Steps s t := by
  rw [enqueue] at h
  split at h
  · cases h
    exact .javaFault _
  · cases h
    exact .rejected
  · rename_i values hvalues
    obtain ⟨box, hbox, rfl⟩ := Option.map_eq_some_iff.mp h
    have hsound : Sound rt (package values) := by
      refine ⟨huse values, ?_⟩
      rw [PackagedNodeCall.argumentsToJS, hargs]
      exact makeArgs_decodes hlaw args values hvalues
    exact .box (.offer hsound hbox) (Mailbox.offer_handed hbox)

theorem step_cases (hlaw : rt.Lawful) {s t : CallQueue rt} {a : Action rt}
    (h : s.step a = some t) : s.fault = none ∧ Steps s t := by
  unfold step at h
  split at h
  · cases h
  rename_i hfault
  refine ⟨hfault, ?_⟩
  cases a with
  | init =>
    dsimp only at h
    split at h
    · cases h
    · cases h
      exact .init
  | setNodeReceiver =>
    dsimp only at h
    split at h
    · cases h
      exact .box (.openUp _) rfl
    · cases h
  | invokeAsync thread fn args =>
    exact enqueue_steps hlaw (fun _ => rfl) (fun _ => by simp [PackagedNodeCall.new]) h
  | invokeSync thread fn args =>
    exact enqueue_steps hlaw (fun _ => rfl)
      (fun _ => by simp [PackagedNodeCall.new, PackagedNodeCall.getReturnValue]) h
  | wake thread =>
    obtain ⟨box, hbox, rfl⟩ := Option.map_eq_some_iff.mp h
    exact .box (.retry hbox) (Mailbox.retry_handed hbox)
  | deliver =>
    obtain ⟨box, hbox, rfl⟩ := Option.map_eq_some_iff.mp h
    exact .box (.deliver hbox) (Mailbox.deliver_handed hbox)
  | moveCalls =>
    obtain ⟨box, hbox, rfl⟩ := Option.map_eq_some_iff.mp h
    exact .box (.take hbox) (Mailbox.take_handed hbox)
  | invoke result =>
    change s.invokeNext result = some t at h
    rw [invokeNext] at h
    split at h
    · cases h
    · rename_i call box hbox
      cases h
      exact .invoke result hbox
  | returnToLoop =>
    obtain ⟨box, hbox, rfl⟩ := Option.map_eq_some_iff.mp h
    exact .box (.finish hbox) (Mailbox.finish_handed hbox)
  | settle p settlement =>
    change s.settle p settlement = some t at h
    rw [settle] at h
    split at h
    · cases h
    · rename_i hp
      cases h
      exact .settle settlement hp
  | react call =>
    change s.react call = some t at h
    rw [react] at h
    split at h
    · cases h
    · rename_i a ha
      split at h
      · cases h
      · rename_i settlement hsettlement
        cases h
        exact .react ha hsettlement

@[simp] theorem complete_box (s : CallQueue rt) (call : Nat) (e : Effect) :
    (s.complete call e).box = s.box := by
  cases e <;> rfl

@[simp] theorem complete_fault (s : CallQueue rt) (call : Nat) (e : Effect) :
    (s.complete call e).fault = s.fault := by
  cases e <;> rfl

@[simp] theorem dispatched_box (s : CallQueue rt) (box : Mailbox Nat PackagedNodeCall)
    (result : CallbackResult rt.Obj) (i : Except Fault Invoked) :
    (s.dispatched box result i).box = box := by
  rcases i with f | (e | a)
  · rfl
  · exact complete_box _ _ _
  · rfl

theorem step_invoke_box {s t : CallQueue rt} {result : CallbackResult rt.Obj}
    (h : s.step (.invoke result) = some t) : ∃ call, s.box.handOver = some (call, t.box) := by
  unfold step at h
  split at h
  · cases h
  · change s.invokeNext result = some t at h
    rw [invokeNext] at h
    split at h
    · cases h
    · rename_i call box hbox
      cases h
      rw [dispatched_box]
      exact ⟨call, hbox⟩

@[simp] theorem reacted_box (s : CallQueue rt) (call : Nat) (e : Except Fault Effect) :
    (s.reacted call e).box = s.box := by
  cases e with
  | error f => rfl
  | ok e => exact complete_box _ _ _

theorem Steps.moves {s t : CallQueue rt} (h : Steps s t) :
    Mailbox.Moves (Sound rt) s.box t.box := by
  cases h with
  | init => exact .stay _
  | rejected => exact .stay _
  | javaFault f => exact .stay _
  | box hmoves _ => exact hmoves
  | invoke result hhand =>
    rw [dispatched_box]
    exact .handOver hhand
  | settle settlement _ => exact .stay _
  | react _ _ =>
    rw [reacted_box]
    exact .stay _

structure BoxInvariant (s : CallQueue rt) : Prop where
  wellFormed : s.box.WellFormed
  sound : Mailbox.Everywhere (Sound rt) s.box

theorem BoxInvariant.step (hlaw : rt.Lawful) {s t : CallQueue rt} {a : Action rt}
    (hs : BoxInvariant s) (h : s.step a = some t) : BoxInvariant t :=
  have hmoves := (step_cases hlaw h).2.moves
  ⟨hs.wellFormed.moves hmoves, hs.sound.moves hmoves⟩

theorem boxInvariant_of_reachable (hlaw : rt.Lawful) {s : CallQueue rt}
    (h : (machine rt).Reachable s) : BoxInvariant s := by
  apply h.invariant BoxInvariant
  · rintro s rfl
    exact ⟨.closed, .closed _⟩
  · intro s a t hs hstep
    exact hs.step hlaw hstep

/-- The calls handed to the receiver are received from a first-in first-out
channel into which the calls are sent as they are appended. -/
theorem refines_channel (hlaw : rt.Lawful) :
    Machine.Simulation (machine rt) (Channel.machine PackagedNodeCall) fun s => s.box.channel where
  init := by
    rintro s rfl
    exact ⟨rfl, rfl⟩
  step s a t hs hstep :=
    (step_cases hlaw hstep).2.moves.channel (boxInvariant_of_reachable hlaw hs).wellFormed

theorem invoke_threw (hlaw : rt.Lawful) {s : CallQueue rt} (hs : (machine rt).Reachable s)
    {call : PackagedNodeCall} {batch : List PackagedNodeCall}
    (hconsumer : s.box.consumer = .draining (call :: batch)) (hfault : s.fault = none)
    (v : rt.Value) : ∃ t, s.step (.invoke (.threw v)) = some t ∧ t.fault = none ∧
      t.box.consumer = .draining batch ∧ t.box.handed = s.box.handed ++ [call] := by
  have hinv := boxInvariant_of_reachable hlaw hs
  obtain ⟨values, hvalues⟩ :=
    (hinv.sound.appended call (hinv.wellFormed.mem_appended hconsumer)).decodes
  have hinvoke : call.invoke rt (.threw v) = .ok (.done (call.setException rt v)) := by
    simp only [PackagedNodeCall.invoke, hvalues, Except.bind]
  simp only [step, hfault, invokeNext, Mailbox.handOver, hconsumer, hinvoke, dispatched]
  refine ⟨_, rfl, ?_, ?_, ?_⟩
  · rw [complete_fault]
  · rw [complete_box]
  · rw [complete_box]

/-- Handlers that throw leave the rest of the batch to be dispatched. -/
theorem run_invoke_threw (hlaw : rt.Lawful) (vs : List rt.Value) :
    ∀ {s : CallQueue rt}, (machine rt).Reachable s → ∀ {batch : List PackagedNodeCall},
      s.box.consumer = .draining batch → s.fault = none → vs.length ≤ batch.length →
      ∃ t, (machine rt).run s (vs.map fun v => .invoke (.threw v)) = some t ∧ t.fault = none ∧
        t.box.handed = s.box.handed ++ batch.take vs.length ∧
        t.box.consumer = .draining (batch.drop vs.length) := by
  induction vs with
  | nil =>
    intro s _ batch hconsumer hfault _
    exact ⟨s, rfl, hfault, by simp, by simpa using hconsumer⟩
  | cons v vs ih =>
    intro s hs batch hconsumer hfault hle
    cases batch with
    | nil => simp at hle
    | cons call batch =>
      obtain ⟨r, hstep, hrfault, hrconsumer, hrhanded⟩ :=
        invoke_threw hlaw hs hconsumer hfault v
      have hstep : (machine rt).step s (.invoke (.threw v)) = some r := hstep
      have hle : vs.length ≤ batch.length := by simpa using hle
      obtain ⟨t, hrun, htfault, hthanded, htconsumer⟩ :=
        ih (hs.step hstep) hrconsumer hrfault hle
      refine ⟨t, ?_, htfault, ?_, by simpa using htconsumer⟩
      · rw [List.map_cons, Machine.run_of_step hstep]
        exact hrun
      · rw [hthanded, hrhanded, List.append_assoc]
        rfl

end CallQueue

end AlmondAndroid.Bridge
