import AlmondAndroid.App.EarlyCalls
import AlmondAndroid.Assistant.Dispatcher
import AlmondAndroid.Library.Utf16
import Mathlib.Data.List.DropRight
import Mathlib.Data.List.Infix

/-!
# From the user to the assistant

A command of the user is a task of the executor of `AssistantDispatcher`, whose one
thread hands it to the queue of calls through `AssistantAPI`. The loop takes the call to
the callback that `assistant.js` has registered for it. The main thread, the executor's
thread, the other threads of Java and node's interleave.
-/

namespace AlmondAndroid.App

open Library Bridge Assistant

/-- The objects of `org.json`, and what its tokener makes of a line that begins with a
brace. -/
structure OrgJson (rt : Runtime) where
  object : JSONObject Double → rt.Instance
  array : List JavaString → rt.Instance
  readObject : U16String → Option (JSONObject Double)

/-- `\s`, which on Android is Unicode's white space. -/
def isSpace (c : UInt16) : Bool := Utf16.isWhiteSpace c

/-- The pieces between runs of spaces; `inRun` is within a run. -/
def pieces (inRun : Bool) (piece : U16String) : U16String → List U16String
  | [] => [piece]
  | c :: line =>
      match isSpace c, inRun with
      | true, true => pieces true piece line
      | true, false => piece :: pieces true [] line
      | false, _ => pieces false (piece ++ [c]) line

/-- `split("\\s+")`, which leaves out the empty strings at the end. -/
def split (line : U16String) : List U16String :=
  if line.any isSpace then (pieces false [] line).rdropWhile (·.isEmpty) else [line]

variable {rt : Runtime}

/-- What `handleSlashR` asks to be parsed, if anything. -/
def handleSlashR (json : OrgJson rt) (line : U16String) : Option (JSONObject Double) :=
  if u16 "\x7b" <+: line then json.readObject line
  else some [(u16 "code", .array ((split line).map .string)), (u16 "entities", .object [])]

/-- The method of `AssistantAPI` that a task calls, as the event it sends with its value. -/
def event (json : OrgJson rt) : Command → Option (U16String × rt.Object)
  | .ready => some (u16 "Assistant_onready", .null)
  | .handleCommand command => some (u16 "Assistant_onhandlecommand", .string command)
  | .handleParsedCommand parsed =>
      some (u16 "Assistant_onhandleparsedcommand", .json (json.object parsed))
  | .handleThingTalk code => some (u16 "Assistant_onhandlethingtalk", .string code)
  | .presentExample utterance targetCode =>
      some (u16 "Assistant_onpresentexample", .json (json.array [utterance, targetCode]))
  | .slashR line => (handleSlashR json line).map fun parsed =>
      (u16 "Assistant_onhandleparsedcommand", .json (json.object parsed))

/-- The executor's thread, among those that call `invokeAsync`. -/
def executor : Nat := 0

/-- `started` is the number of tasks that the executor has begun, and `received` the calls
for the assistant that reached a callback. -/
structure Commands (rt : Runtime) where
  dispatcher : Assistant.AssistantDispatcher
  started : Nat
  process : Process rt
  received : List PackagedNodeCall

namespace Commands

inductive Action (rt : Runtime)
  | dispatcher (action : Assistant.AssistantDispatcher.Action)
  | execute
  | process (action : Process.Action rt)

def initial (rt : Runtime) : Commands rt where
  dispatcher := .initial
  started := 0
  process := .initial rt
  received := []

/-- Other threads than the executor's do not send the events of the assistant. -/
def isOutside : Process.Action rt → Bool
  | .queue (.invokeAsync thread fn _) | .queue (.invokeSync thread fn _) =>
      thread ≠ executor ∧ fn ∉ assistantEvents
  | _ => true

/-- What the receiver passes on to a callback of the assistant. -/
def receives (process : Process rt) : Process.Action rt → List PackagedNodeCall
  | .dispatch _ =>
      match process.queue.box.handOver with
      | some (call, _) =>
          if call.fn ∈ assistantEvents ∧ process.callbacks call.fn ≠ none then [call] else []
      | none => []
  | _ => []

def execute (typeError : U16String → rt.Value) (json : OrgJson rt) (s : Commands rt)
    (command : Command) : Option (Commands rt) :=
  match event json command with
  | none => some { s with started := s.started + 1 }
  | some (fn, value) =>
      (s.process.step typeError (.queue (.invokeAsync executor fn [.null, value]))).map
        fun process => { s with started := s.started + 1, process := process }

def step (p : Platform) (typeError : U16String → rt.Value) (json : OrgJson rt)
    (s : Commands rt) : Action rt → Option (Commands rt)
  | .dispatcher action =>
      match s.process.queue.fault with
      | some _ => none
      | none => (s.dispatcher.step p action).map fun dispatcher =>
          { s with dispatcher := dispatcher }
  | .execute =>
      match s.process.queue.box.waiting executor, s.dispatcher.async[s.started]? with
      | none, some command => s.execute typeError json command
      | _, _ => none
  | .process action =>
      if isOutside action then
        (s.process.step typeError action).map fun process =>
          { s with process := process, received := s.received ++ receives s.process action }
      else none

def machine (p : Platform) (typeError : U16String → rt.Value) (json : OrgJson rt) :
    Machine (Commands rt) (Action rt) where
  Init s := s = initial rt
  step := step p typeError json

/-- The first turn gets to its end. -/
def MainAwaits (s : Commands rt) : Action rt → Prop
  | .process action => Process.MainAwaits s.process action
  | _ => True

/-! ## The tasks -/

theorem userAction_async (p : Platform) (s : Assistant.AssistantDispatcher)
    (action : UserAction) : s.async <+: (s.userAction p action).async := by
  cases action with
  | location place =>
    rw [Assistant.AssistantDispatcher.userAction, Assistant.AssistantDispatcher.handleLocation]
    split
    · exact List.prefix_append ..
    · exact List.prefix_rfl
  | _ => exact List.prefix_append ..

theorem onTextActivated_async (p : Platform) (s : Assistant.AssistantDispatcher)
    (a : MainActivity) (text : U16String) : s.async <+: (s.onTextActivated p a text).async := by
  rw [Assistant.AssistantDispatcher.onTextActivated]
  split
  · exact List.prefix_rfl
  · split
    · exact List.prefix_append ..
    · rw [Assistant.AssistantDispatcher.handleCommand]
      split
      · exact List.prefix_append ..
      · split
        · exact List.prefix_append ..
        · exact List.prefix_append ..

/-- The executor's tasks are only added to. -/
theorem step_async {p : Platform} {s t : Assistant.AssistantDispatcher}
    {a : Assistant.AssistantDispatcher.Action} (hstep : s.step p a = some t) :
    s.async <+: t.async := by
  cases a with
  | api call =>
    rw [Assistant.AssistantDispatcher.step] at hstep
    split at hstep
    · cases hstep
      exact List.prefix_rfl
    · cases hstep
  | dispatch =>
    rw [Assistant.AssistantDispatcher.step] at hstep
    split at hstep
    · cases hstep
    · cases hstep
      rw [Assistant.AssistantDispatcher.dispatch_eq]
  | handleMessage =>
    rw [Assistant.AssistantDispatcher.step] at hstep
    split at hstep
    · cases hstep
    · cases hstep
      rw [Assistant.AssistantDispatcher.handleMessage_eq]
  | create =>
    cases hstep
    exact List.prefix_rfl
  | setAssistantOutput output =>
    obtain ⟨-, hstep⟩ := Option.ite_none_right_eq_some.mp hstep
    cases hstep
    rw [Assistant.AssistantDispatcher.setAssistantOutput_eq]
  | ready =>
    cases hstep
    exact List.prefix_append ..
  | textActivated activity text =>
    obtain ⟨a, -, rfl⟩ := Option.map_eq_some_iff.mp hstep
    exact onTextActivated_async p s a text
  | user action =>
    cases hstep
    exact userAction_async p s action
  | cleared =>
    rw [Assistant.AssistantDispatcher.step] at hstep
    split at hstep
    · cases hstep
    · cases hstep
      exact List.prefix_rfl

/-! ## The calls -/

/-- The call that a task appends, if its value is accepted. -/
def callOf (json : OrgJson rt) (command : Command) : Option PackagedNodeCall :=
  match event json command with
  | none => none
  | some (fn, value) =>
      match makeArgs rt [.null, value] with
      | .ok (some values) => some (.new fn values .async)
      | _ => none

def isEvent (call : PackagedNodeCall) : Bool := call.fn ∈ assistantEvents

theorem fn_event {json : OrgJson rt} {command : Command} {fn : U16String} {value : rt.Object}
    (h : event json command = some (fn, value)) : fn ∈ assistantEvents := by
  cases command with
  | slashR line =>
    obtain ⟨parsed, -, heq⟩ := Option.map_eq_some_iff.mp h
    cases heq
    decide
  | _ =>
    cases h
    decide

theorem enqueue_box {q q' : CallQueue rt} {thread : Nat} {args : List rt.Object}
    {package : List InteropValue → PackagedNodeCall}
    (h : q.enqueue thread args package = some q') :
    (∃ values, makeArgs rt args = .ok (some values) ∧
      q.box.offer thread (package values) = some q'.box) ∨
    (∀ values, makeArgs rt args ≠ .ok (some values)) ∧ q'.box = q.box := by
  rw [CallQueue.enqueue] at h
  split at h
  · rename_i heq
    cases h
    refine .inr ⟨?_, rfl⟩
    intro values hvalues
    rw [heq] at hvalues
    cases hvalues
  · rename_i heq
    cases h
    refine .inr ⟨?_, rfl⟩
    intro values hvalues
    rw [heq] at hvalues
    cases hvalues
  · rename_i values heq
    obtain ⟨box, hbox, rfl⟩ := Option.map_eq_some_iff.mp h
    exact .inl ⟨values, heq, hbox⟩

/-- What a step of the queue does to its mailbox: a thread appends a call or waits with it,
a thread that waits looks again, node takes a call or its part moves on. -/
inductive BoxStep (q q' : CallQueue rt) : CallQueue.Action rt → Prop
  | invokeAsync {thread : Nat} {fn : U16String} {args : List rt.Object}
      {call : PackagedNodeCall} : call.fn = fn → q.box.offer thread call = some q'.box →
      BoxStep q q' (.invokeAsync thread fn args)
  | invokeSync {thread : Nat} {fn : U16String} {args : List rt.Object}
      {call : PackagedNodeCall} : call.fn = fn → q.box.offer thread call = some q'.box →
      BoxStep q q' (.invokeSync thread fn args)
  | wake {thread : Nat} : q.box.retry thread = some q'.box → BoxStep q q' (.wake thread)
  | invoke {result : CallbackResult rt.Obj} {call : PackagedNodeCall} :
      q.box.handOver = some (call, q'.box) → BoxStep q q' (.invoke result)
  | moves {a : CallQueue.Action rt} : Mailbox.Moves (fun _ => True) q.box q'.box →
      q'.box.appended = q.box.appended → q'.box.waiting = q.box.waiting →
      q'.box.handed = q.box.handed → BoxStep q q' a

theorem boxStep_same {q q' : CallQueue rt} (h : q'.box = q.box) (a : CallQueue.Action rt) :
    BoxStep q q' a := by
  refine .moves ?_ (by rw [h]) (by rw [h]) (by rw [h])
  rw [h]
  exact .stay _

theorem step_box {q q' : CallQueue rt} {a : CallQueue.Action rt} (h : q.step a = some q') :
    BoxStep q q' a := by
  unfold CallQueue.step at h
  split at h
  · cases h
  cases a with
  | init =>
    obtain ⟨-, h⟩ := Option.ite_none_left_eq_some.mp h
    cases h
    exact .moves (.stay _) rfl rfl rfl
  | setNodeReceiver =>
    obtain ⟨-, h⟩ := Option.ite_none_right_eq_some.mp h
    cases h
    exact .moves (.openUp _) rfl rfl rfl
  | invokeAsync thread fn args =>
    obtain ⟨values, -, hbox⟩ | ⟨-, hbox⟩ := enqueue_box h
    · exact .invokeAsync rfl hbox
    · exact boxStep_same hbox _
  | invokeSync thread fn args =>
    obtain ⟨values, -, hbox⟩ | ⟨-, hbox⟩ := enqueue_box h
    · exact .invokeSync rfl hbox
    · exact boxStep_same hbox _
  | wake thread =>
    obtain ⟨box, hbox, rfl⟩ := Option.map_eq_some_iff.mp h
    exact .wake hbox
  | deliver =>
    obtain ⟨box, hbox, rfl⟩ := Option.map_eq_some_iff.mp h
    obtain ⟨-, -, rfl⟩ := Mailbox.deliver_eq_some hbox
    exact .moves (.deliver hbox) rfl rfl rfl
  | moveCalls =>
    obtain ⟨box, hbox, rfl⟩ := Option.map_eq_some_iff.mp h
    obtain ⟨-, rfl⟩ := Mailbox.take_eq_some hbox
    exact .moves (.take hbox) rfl rfl rfl
  | invoke result =>
    change q.invokeNext result = some q' at h
    rw [CallQueue.invokeNext] at h
    split at h
    · cases h
    · rename_i call box hbox
      cases h
      have hhand : q.box.handOver =
          some (call, (q.dispatched box result (call.invoke rt result)).box) := by
        rw [CallQueue.dispatched_box]
        exact hbox
      exact .invoke hhand
  | returnToLoop =>
    obtain ⟨box, hbox, rfl⟩ := Option.map_eq_some_iff.mp h
    obtain ⟨-, rfl⟩ := Mailbox.finish_eq_some hbox
    exact .moves (.finish hbox) rfl rfl rfl
  | settle promise settlement =>
    change q.settle promise settlement = some q' at h
    rw [CallQueue.settle] at h
    split at h
    · cases h
    · cases h
      exact .moves (.stay _) rfl rfl rfl
  | react call =>
    change q.react call = some q' at h
    rw [CallQueue.react] at h
    split at h
    · cases h
    · split at h
      · cases h
      · cases h
        exact boxStep_same (CallQueue.reacted_box ..) _

/-! ## The invariant -/

/-- The mailbox has the calls of the tasks begun, and no other thread waits with one. -/
structure Sent (json : OrgJson rt) (box : Mailbox Nat PackagedNodeCall)
    (begun : List Command) : Prop where
  wellFormed : box.WellFormed
  onlyFrom : box.OnlyFrom isEvent executor
  sentBy : box.sentBy isEvent executor = begun.filterMap (callOf json)

variable {json : OrgJson rt} {q q' : CallQueue rt} {begun : List Command}

theorem Sent.moves (h : Sent json q.box begun)
    (hmoves : Mailbox.Moves (fun _ => True) q.box q'.box)
    (happended : q'.box.appended = q.box.appended) (hwaiting : q'.box.waiting = q.box.waiting) :
    Sent json q'.box begun where
  wellFormed := h.wellFormed.moves hmoves
  onlyFrom := by
    rw [Mailbox.OnlyFrom, hwaiting]
    exact h.onlyFrom
  sentBy := by
    rw [Mailbox.sentBy_congr happended hwaiting]
    exact h.sentBy

theorem Sent.offer (h : Sent json q.box begun) {thread : Nat} {call : PackagedNodeCall}
    (hcall : call.fn ∉ assistantEvents) (hoffer : q.box.offer thread call = some q'.box) :
    Sent json q'.box begun := by
  have hnot : isEvent call = false := decide_eq_false hcall
  obtain ⟨honlyFrom, hsentBy⟩ := h.onlyFrom.offer (fun hevent => by
    rw [hnot] at hevent
    cases hevent) hoffer
  refine ⟨h.wellFormed.offer hoffer, honlyFrom, ?_⟩
  rw [hsentBy, List.filter_singleton, hnot, h.sentBy]
  exact List.append_nil _

theorem Sent.retry (h : Sent json q.box begun) {thread : Nat}
    (hretry : q.box.retry thread = some q'.box) : Sent json q'.box begun := by
  obtain ⟨honlyFrom, hsentBy⟩ := h.onlyFrom.retry hretry
  exact ⟨h.wellFormed.retry hretry, honlyFrom, hsentBy.trans h.sentBy⟩

theorem Sent.handOver (h : Sent json q.box begun) {call : PackagedNodeCall}
    (hhand : q.box.handOver = some (call, q'.box)) : Sent json q'.box begun := by
  obtain ⟨batch, -, hsame⟩ := Mailbox.handOver_eq_some hhand
  exact h.moves (.handOver hhand) (by rw [hsame]) (by rw [hsame])

theorem Sent.step (h : Sent json q.box begun) {a : CallQueue.Action rt}
    (ha : isOutside (.queue a) = true) (hstep : q.step a = some q') :
    Sent json q'.box begun := by
  cases step_box hstep with
  | invokeAsync hfn hoffer => exact h.offer (hfn ▸ (of_decide_eq_true ha).2) hoffer
  | invokeSync hfn hoffer => exact h.offer (hfn ▸ (of_decide_eq_true ha).2) hoffer
  | wake hretry => exact h.retry hretry
  | invoke hhand => exact h.handOver hhand
  | moves hmoves happended hwaiting _ => exact h.moves hmoves happended hwaiting

theorem handed_step {a : CallQueue.Action rt} (ha : ∀ result, a ≠ .invoke result)
    (hstep : q.step a = some q') : q'.box.handed = q.box.handed := by
  cases step_box hstep with
  | invokeAsync _ hoffer => exact Mailbox.offer_handed hoffer
  | invokeSync _ hoffer => exact Mailbox.offer_handed hoffer
  | wake hretry => exact Mailbox.retry_handed hretry
  | invoke _ => exact absurd rfl (ha _)
  | moves _ _ _ hhanded => exact hhanded

/-- A task begun is a call sent, unless it has none. -/
theorem Sent.begin (h : Sent json q.box begun) {command : Command} {fn : U16String}
    {value : rt.Object} (hevent : event json command = some (fn, value))
    (hstep : q.step (.invokeAsync executor fn [.null, value]) = some q') :
    Sent json q'.box (begun ++ [command]) ∧ q'.box.handed = q.box.handed := by
  have hhanded : q'.box.handed = q.box.handed := by
    refine handed_step (fun _ heq => ?_) hstep
    cases heq
  unfold CallQueue.step at hstep
  split at hstep
  · cases hstep
  obtain ⟨values, hvalues, hoffer⟩ | ⟨hvalues, hsame⟩ := enqueue_box hstep
  · have hcall : callOf json command = some (.new fn values .async) := by
      simp only [callOf, hevent, hvalues]
    have hisEvent : isEvent (.new fn values .async) = true := decide_eq_true (fn_event hevent)
    obtain ⟨honlyFrom, hsentBy⟩ := h.onlyFrom.offer (fun _ => rfl) hoffer
    refine ⟨⟨h.wellFormed.offer hoffer, honlyFrom, ?_⟩, hhanded⟩
    rw [hsentBy, h.sentBy, List.filterMap_append, List.filter_singleton, hisEvent]
    simp [hcall]
  · have hcall : callOf json command = none := by
      rw [callOf, hevent]
      dsimp only
      split
      · rename_i values heq
        exact absurd heq (hvalues values)
      · rfl
    refine ⟨⟨hsame ▸ h.wellFormed, hsame ▸ h.onlyFrom, ?_⟩, hhanded⟩
    rw [hsame, h.sentBy, List.filterMap_append]
    simp [hcall]

/-- No callback of the assistant is left once it is stopped. -/
structure Inv (json : OrgJson rt) (s : Commands rt) : Prop where
  sent : Sent json s.process.queue.box (s.dispatcher.async.take s.started)
  started : s.started ≤ s.dispatcher.async.length
  registered : Process.Registered s.process
  received : s.received <+: s.process.queue.box.handed.filter isEvent
  receivedAll : s.process.adStopped = false →
    s.received = s.process.queue.box.handed.filter isEvent
  stopped : s.process.adStopped = true →
    s.process.turn = [] ∧ ∀ name ∈ assistantEvents, s.process.callbacks name = none

namespace Inv

variable {p : Platform} {typeError : U16String → rt.Value} {s t : Commands rt}
  {process : Process rt}

theorem initial : Inv json (initial rt) where
  sent := ⟨.closed, Mailbox.onlyFrom_closed _, rfl⟩
  started := Nat.le_refl _
  registered := Process.registered_initial
  received := List.prefix_rfl
  receivedAll _ := rfl
  stopped := nofun

/-- Where the callbacks stay, and no call is handed over. -/
theorem queue (h : Inv json s) {a : CallQueue.Action rt} (hinvoke : ∀ result, a ≠ .invoke result)
    (ha : isOutside (.queue a) = true) {queue : CallQueue rt}
    (hstep : s.process.queue.step a = some queue) {turn : List Instruction}
    (hregistered : Process.Registered { s.process with queue := queue, turn := turn })
    (hturn : s.process.adStopped = true → turn = []) :
    Inv json { s with process := { s.process with queue := queue, turn := turn } } := by
  have hhanded := handed_step hinvoke hstep
  exact {
    sent := h.sent.step ha hstep
    started := h.started
    registered := hregistered
    received := by
      rw [hhanded]
      exact h.received
    receivedAll := by
      rw [hhanded]
      exact h.receivedAll
    stopped := fun had => ⟨hturn had, (h.stopped had).2⟩ }

theorem dispatch (h : Inv json s) {result : CallbackResult rt.Obj}
    (hstep : s.process.step typeError (.dispatch result) = some process) :
    Inv json { s with
      process := process, received := s.received ++ receives s.process (.dispatch result) } := by
  cases Process.step_does hstep with
  | @dispatch _ call box queue hturn hhand hqueue =>
    obtain ⟨next, hnext⟩ := CallQueue.step_invoke_box hqueue
    rw [hhand] at hnext
    cases hnext
    have hhanded : queue.box.handed.filter isEvent =
        s.process.queue.box.handed.filter isEvent ++ [call].filter isEvent := by
      rw [Mailbox.handOver_handed hhand, List.filter_append]
    have hevent : call.fn ∈ assistantEvents → isEvent call = true := decide_eq_true
    have hreceives : receives s.process (.dispatch result) =
        if call.fn ∈ assistantEvents ∧ s.process.callbacks call.fn ≠ none then [call]
        else [] := by
      simp only [receives, hhand]
    have hall : s.process.adStopped = false →
        receives s.process (.dispatch result) = [call].filter isEvent := by
      intro had
      rw [hreceives, List.filter_singleton]
      by_cases hfn : call.fn ∈ assistantEvents
      · have hcallback := h.registered.event had call.fn hfn (by simp [hturn])
        rw [hevent hfn, if_pos ⟨hfn, by simp [hcallback]⟩]
        rfl
      · have hnot : isEvent call = false := decide_eq_false hfn
        rw [hnot, if_neg fun hboth => hfn hboth.1]
        rfl
    have hnone : s.process.adStopped = true →
        receives s.process (.dispatch result) = [] := by
      intro had
      rw [hreceives]
      exact if_neg fun hboth => hboth.2 ((h.stopped had).2 _ hboth.1)
    exact {
      sent := h.sent.handOver hhand
      started := h.started
      registered := h.registered.of_eq rfl rfl rfl
      received := by
        change s.received ++ receives s.process (.dispatch result) <+:
          queue.box.handed.filter isEvent
        rw [hhanded]
        cases had : s.process.adStopped with
        | false =>
          rw [hall had, h.receivedAll had]
        | true =>
          rw [hnone had, List.append_nil]
          exact h.received.trans (List.prefix_append ..)
      receivedAll := by
        intro had
        change s.received ++ receives s.process (.dispatch result) =
          queue.box.handed.filter isEvent
        rw [hhanded, hall had, h.receivedAll had]
      stopped := h.stopped }

theorem execute (h : Inv json s)
    (hstep : s.process.step typeError .execute = some process) :
    Inv json { s with process := process } := by
  cases Process.step_does hstep with
  | @execute instruction turn _ hturn hexecute =>
    have hregistered := h.registered.execute hturn hexecute
    have had : s.process.adStopped = true → False := by
      intro had
      rw [(h.stopped had).1] at hturn
      cases hturn
    cases instruction with
    | init =>
      obtain ⟨queue, hqueue, rfl⟩ := Option.map_eq_some_iff.mp hexecute
      exact h.queue (by rintro _ ⟨⟩) rfl hqueue hregistered fun hstopped => (had hstopped).elim
    | setAsyncReceiver =>
      obtain ⟨queue, hqueue, rfl⟩ := Option.map_eq_some_iff.mp hexecute
      exact h.queue (by rintro _ ⟨⟩) rfl hqueue hregistered fun hstopped => (had hstopped).elim
    | registerControl call =>
      cases hexecute
      exact ⟨h.sent, h.started, hregistered, h.received, h.receivedAll,
        fun hstopped => (had hstopped).elim⟩
    | registerEvent name =>
      cases hexecute
      exact ⟨h.sent, h.started, hregistered, h.received, h.receivedAll,
        fun hstopped => (had hstopped).elim⟩

theorem processStep (h : Inv json s) {a : Process.Action rt} (ha : isOutside a = true)
    (hawaits : Process.MainAwaits s.process a)
    (hstep : s.process.step typeError a = some process) :
    Inv json { s with process := process, received := s.received ++ receives s.process a } := by
  cases a with
  | queue action =>
    obtain ⟨hcan, hstep⟩ := Option.ite_none_right_eq_some.mp hstep
    have hregistered := h.registered.queueStep hstep
    obtain ⟨queue, hqueue, rfl⟩ := Option.map_eq_some_iff.mp hstep
    have hnone : receives s.process (.queue action) = [] := rfl
    rw [hnone, List.append_nil]
    refine h.queue (fun result heq => ?_) ha hqueue hregistered fun had => (h.stopped had).1
    subst heq
    simp [Process.isJava, Process.isLoop] at hcan
  | execute =>
    have hnone : receives s.process .execute = [] := rfl
    rw [hnone, List.append_nil]
    exact h.execute hstep
  | throws => exact absurd rfl hawaits
  | dispatch result => exact h.dispatch hstep
  | setEvent name registered =>
    obtain ⟨⟨hname, hother⟩, hstep⟩ := Option.ite_none_right_eq_some.mp hstep
    cases hstep
    have hnone : receives s.process (.setEvent name registered) = [] := rfl
    rw [hnone, List.append_nil]
    exact {
      h with
      registered := h.registered.setCallback hname hother _
      stopped := by
        intro had
        refine ⟨(h.stopped had).1, fun event hevent => ?_⟩
        have hne : event ≠ name := fun heq => hother (heq ▸ hevent)
        exact (Function.update_of_ne hne _ _).trans ((h.stopped had).2 event hevent) }
  | adStop =>
    obtain ⟨hturn, hstep⟩ := Option.ite_none_right_eq_some.mp hstep
    cases hstep
    have hnone : receives s.process .adStop = [] := rfl
    rw [hnone, List.append_nil]
    exact {
      sent := h.sent
      started := h.started
      registered := h.registered.adStop
      received := h.received
      receivedAll := nofun
      stopped := fun _ => ⟨hturn, fun event hevent => if_pos hevent⟩ }

theorem dispatcher (h : Inv json s) {dispatcher : Assistant.AssistantDispatcher}
    (hasync : s.dispatcher.async <+: dispatcher.async) :
    Inv json { s with dispatcher := dispatcher } := by
  obtain ⟨rest, hrest⟩ := hasync
  have htake : dispatcher.async.take s.started = s.dispatcher.async.take s.started := by
    rw [← hrest, List.take_append_of_le_length h.started]
  exact {
    h with
    sent := htake ▸ h.sent
    started := by
      rw [← hrest, List.length_append]
      exact Nat.le_trans h.started (Nat.le_add_right ..) }

theorem task (h : Inv json s) {command : Command}
    (hcommand : s.dispatcher.async[s.started]? = some command)
    (hstep : s.execute typeError json command = some t) : Inv json t := by
  have hlt : s.started < s.dispatcher.async.length :=
    (List.getElem?_eq_some_iff.mp hcommand).1
  have htake : s.dispatcher.async.take (s.started + 1) =
      s.dispatcher.async.take s.started ++ [command] := by
    rw [List.take_add_one, hcommand]
    rfl
  rw [Commands.execute] at hstep
  split at hstep
  · rename_i hevent
    cases hstep
    have hcall : callOf json command = none := by rw [callOf, hevent]
    refine { h with sent := ⟨h.sent.wellFormed, h.sent.onlyFrom, ?_⟩, started := hlt }
    rw [htake, List.filterMap_append, h.sent.sentBy]
    simp [hcall]
  · rename_i fn value hevent
    obtain ⟨process, hprocess, rfl⟩ := Option.map_eq_some_iff.mp hstep
    rw [Process.step] at hprocess
    obtain ⟨-, hprocess⟩ := Option.ite_none_right_eq_some.mp hprocess
    have hregistered := h.registered.queueStep hprocess
    obtain ⟨queue, hqueue, rfl⟩ := Option.map_eq_some_iff.mp hprocess
    obtain ⟨hsent, hhanded⟩ := h.sent.begin hevent hqueue
    exact {
      sent := htake ▸ hsent
      started := hlt
      registered := hregistered
      received := by
        rw [hhanded]
        exact h.received
      receivedAll := by
        rw [hhanded]
        exact h.receivedAll
      stopped := h.stopped }

theorem step (h : Inv json s) {a : Action rt} (hawaits : MainAwaits s a)
    (hstep : s.step p typeError json a = some t) : Inv json t := by
  cases a with
  | dispatcher action =>
    rw [Commands.step] at hstep
    split at hstep
    · cases hstep
    · obtain ⟨dispatcher, hdispatcher, rfl⟩ := Option.map_eq_some_iff.mp hstep
      exact h.dispatcher (step_async hdispatcher)
  | execute =>
    rw [Commands.step] at hstep
    split at hstep
    · rename_i command _ hcommand
      exact h.task hcommand hstep
    · cases hstep
  | process action =>
    obtain ⟨ha, hstep⟩ := Option.ite_none_right_eq_some.mp hstep
    obtain ⟨process, hprocess, rfl⟩ := Option.map_eq_some_iff.mp hstep
    exact h.processStep ha hawaits hprocess

end Inv

/-- Every task has been begun, and no call is on its way. -/
def AtRest (s : Commands rt) : Prop :=
  s.started = s.dispatcher.async.length ∧ s.process.queue.box.pending = [] ∧
    s.process.queue.box.waiting executor = none

variable {p : Platform} {typeError : U16String → rt.Value} {s t : Commands rt}

/-- The callbacks of the assistant receive the commands of the user once each and in their
order, and until the assistant is stopped all of them. -/
theorem commands_in_order
    (hs : (machine p typeError json).ReachableVia MainAwaits s) :
    s.received <+: s.dispatcher.async.filterMap (callOf json) ∧
    (s.process.adStopped = false → s.AtRest →
      s.received = s.dispatcher.async.filterMap (callOf json)) := by
  have hinv : Inv json s := by
    refine hs.invariant (Inv json) ?_ fun s a t h hawaits hstep => h.step hawaits hstep
    rintro s rfl
    exact .initial
  constructor
  · have hhanded := hinv.sent.wellFormed.filter_handed_prefix (p := isEvent) executor
    rw [hinv.sent.sentBy] at hhanded
    refine (hinv.received.trans hhanded).trans ?_
    exact (List.take_prefix ..).filterMap _
  · rintro had ⟨hstarted, hpending, hwaiting⟩
    rw [hinv.receivedAll had, hinv.sent.wellFormed.filter_handed_of_rest hpending hwaiting,
      hinv.sent.sentBy, hstarted, List.take_length]

/-- None of the commands of the sample makes an object. -/
def Sample.orgJson : OrgJson Bridge.Sample.runtime := ⟨fun _ => .emptyObject, fun _ => .emptyArray,
  fun _ => none⟩

/-- The user is ready and types before node has started. -/
def Sample.typedEarly : List (Action Bridge.Sample.runtime) :=
  [.dispatcher .ready, .execute, .dispatcher .create, .dispatcher (.textActivated 0 (u16 "hi"))] ++
    firstTurn.map (fun _ => .process .execute) ++
    [.process (.queue (.wake executor)), .execute, .process (.queue .deliver),
      .process (.queue .moveCalls), .process (.dispatch (.returned .undefined)),
      .process (.dispatch (.returned .undefined))]

theorem Sample.typedEarly_awaits : ∀ a ∈ typedEarly, ∀ s, MainAwaits s a := by
  intro a ha s
  cases a with
  | process action =>
    rintro rfl
    simp [typedEarly] at ha
  | _ => trivial

theorem commands_in_order_early : ∃ s,
    (machine .english (fun _ => .object (Bridge.Sample.Obj.plain .emptyObject))
      Sample.orgJson).run (initial _) Sample.typedEarly = some s ∧
    s.AtRest ∧
    s.received = s.dispatcher.async.filterMap (callOf Sample.orgJson) ∧
    s.received.map (·.fn) = [u16 "Assistant_onready", u16 "Assistant_onhandlecommand"] := by
  have hrun : (machine .english (fun _ => .object (Bridge.Sample.Obj.plain .emptyObject))
      Sample.orgJson).run (initial _) Sample.typedEarly = some _ := rfl
  have hs := Machine.ReachableVia.run _ (.start rfl)
    (Machine.Meets.of_forall _ Sample.typedEarly_awaits _) hrun
  exact ⟨_, hrun, ⟨rfl, rfl, rfl⟩, (commands_in_order hs).2 rfl ⟨rfl, rfl, rfl⟩, rfl⟩

end Commands

end AlmondAndroid.App
