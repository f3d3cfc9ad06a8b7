import AlmondAndroid.Library.Mailbox
import AlmondAndroid.Bridge.Values

/-!
# The main program and how it is stopped

`app.js`: the launcher's dispatch by name, the control channel that registers its
methods by reflection, and `main` with its three awaits. A dispatch happens only
between two turns of JavaScript, so each action of `main` runs from one await to
the next. The calls that Java sends arrive through a first-in first-out channel.
-/

namespace AlmondAndroid.App

open Library Bridge

/-! ## Names -/

/-- The own property names of `AppControlChannel.prototype`. -/
def controlMethods : List U16String :=
  [u16 "constructor", u16 "stop", u16 "startOAuth2", u16 "handleOAuth2Callback",
    u16 "createDevice", u16 "deleteDevice", u16 "upgradeDevice", u16 "getDeviceInfos",
    u16 "getDeviceInfo", u16 "checkDeviceAvailable", u16 "getAppInfos", u16 "deleteApp",
    u16 "setCloudId", u16 "setServerAddress", u16 "getAllPermissions", u16 "revokePermission"]

def binderMethods : List U16String :=
  [u16 "setCloudId", u16 "setServerAddress", u16 "handleOAuth2Callback", u16 "startOAuth2",
    u16 "createDevice", u16 "deleteDevice", u16 "upgradeDevice", u16 "getDeviceInfos",
    u16 "getDeviceInfo", u16 "checkDeviceAvailable", u16 "getAppInfos", u16 "deleteApp",
    u16 "getAllPermissions", u16 "revokePermission"]

/-- The events of the APIs made by `makeJavaAPI`, which are also those that the
classes derived from `JavascriptAPI` send. -/
def apiEvents : List U16String :=
  [u16 "Gps_onlocationchanged", u16 "Sms_onsmsreceived", u16 "Bluetooth_ondeviceadded",
    u16 "Bluetooth_ondevicechanged", u16 "Bluetooth_onstatechanged",
    u16 "Bluetooth_ondiscoveryfinished", u16 "Assistant_onready", u16 "Assistant_onhandlecommand",
    u16 "Assistant_onhandleparsedcommand", u16 "Assistant_onhandlethingtalk",
    u16 "Assistant_onpresentexample", u16 "Stream_onstreamdata", u16 "Stream_onstreamerror",
    u16 "Stream_onstreamend"]

def controlName (call : U16String) : U16String := u16 "Control_" ++ call

/-- Who calls `NodeJSLauncher.invokeAsync` or `invokeSync`. -/
inductive JavaCall
  | onDestroy
  | binder (method : U16String)
  | event (name : U16String)
  deriving DecidableEq

namespace JavaCall

def IsSent : JavaCall → Prop
  | .onDestroy => True
  | .binder method => method ∈ binderMethods
  | .event name => name ∈ apiEvents

instance : DecidablePred IsSent
  | .onDestroy => inferInstanceAs (Decidable True)
  | .binder method => inferInstanceAs (Decidable (method ∈ binderMethods))
  | .event name => inferInstanceAs (Decidable (name ∈ apiEvents))

/-- The name a call is sent under; `stopCall` is the one used by `onDestroy`. -/
def fn (stopCall : U16String) : JavaCall → U16String
  | .onDestroy => stopCall
  | .binder method => controlName method
  | .event name => name

end JavaCall

def onDestroyCall : U16String := u16 "stop"

def noSuchCallback (fn : U16String) : JSError :=
  ⟨.typeError, u16 "No such callback " ++ fn⟩

/-! ## The state -/

inductive Callback
  | control (call : U16String)
  | event
  deriving DecidableEq

inductive DispatchResult
  | threw (e : JSError)
  | called (callback : Callback)
  deriving DecidableEq

/-- Where `main` is: not started, at one of its awaits, or past its last line. -/
inductive Phase
  | loading
  | opening
  | running
  | closing
  | cleanedUp
  deriving DecidableEq

/-- `engineStops` and `engineRuns` count the calls of `_engine.stop()` and
`_engine.run()`. -/
structure Service where
  calls : Channel JavaCall
  receiver : Bool
  callbacks : U16String → Option Callback
  phase : Phase
  running : Bool
  stopped : Bool
  engineStops : Nat
  engineRuns : Nat
  results : List DispatchResult

/-- How far the first turn gets: `require('./platform')` or `init` throws, then
anything up to `new AssistantDispatcher`, then `open` or `start`. -/
inductive Startup
  | platformThrows
  | engineThrows
  | openThrows (unwindThrows : Bool)
  | opened

namespace Service

inductive Action
  | script (startup : Startup)
  | openSettled (earlyErrorThrows runThrows unwindThrows : Bool)
  | runSettled (unwindThrows : Bool)
  | closeSettled
  | setEvent (name : U16String) (registered : Bool)
  | invoke (call : JavaCall)
  | dispatch

def initial : Service where
  calls := ⟨[], []⟩
  receiver := false
  callbacks _ := none
  phase := .loading
  running := false
  stopped := false
  engineStops := 0
  engineRuns := 0
  results := []

def registerCallback (s : Service) (fn : U16String) (callback : Callback) : Service :=
  { s with callbacks := Function.update s.callbacks fn (some callback) }

def newControlChannel (s : Service) : Service :=
  controlMethods.foldl (fun s call => s.registerCallback (controlName call) (.control call)) s

/-- The inner `finally`: `_ad.stop()` and the call of `_engine.close()`. -/
def unwind (s : Service) (throws : Bool) : Service :=
  { s with phase := if throws then .cleanedUp else .closing }

def arrive (s : Service) (phase : Phase) : Service :=
  { s with receiver := true, phase := phase }

/-- The first turn of `app.js`, which requires the launcher before anything else. -/
def script (s : Service) : Startup → Service
  | .platformThrows => s.arrive .cleanedUp
  | .engineThrows => s.newControlChannel.arrive .cleanedUp
  | .openThrows throws => (s.newControlChannel.arrive .opening).unwind throws
  | .opened => s.newControlChannel.arrive .opening

/-- From `await _waitReady` to the next await. An error of `open` or `engineReady`
is caught; one of `earlyError` is not. -/
def openSettled (s : Service) (earlyErrorThrows runThrows unwindThrows : Bool) : Service :=
  if earlyErrorThrows then s.unwind unwindThrows
  else if s.stopped then s.unwind unwindThrows
  else
    let s := { s with running := true, engineRuns := s.engineRuns + 1 }
    if runThrows then s.unwind unwindThrows else { s with phase := .running }

def stop (s : Service) : Service :=
  if s.running then { s with engineStops := s.engineStops + 1 }
  else { s with stopped := true }

/-- Of the control methods only `stop` has to do with the end of the engine. -/
def apply (s : Service) : Callback → Service
  | .control call => if call = u16 "stop" then s.stop else s
  | .event => s

/-- The receiver in `launcher.js`. -/
def receive (s : Service) (fn : U16String) : Service :=
  match s.callbacks fn with
  | none => { s with results := s.results ++ [.threw (noSuchCallback fn)] }
  | some callback =>
      { s.apply callback with results := s.results ++ [.called callback] }

def setEvent (s : Service) (name : U16String) (registered : Bool) : Service :=
  { s with
    callbacks := Function.update s.callbacks name (if registered then some .event else none) }

def step (stopCall : U16String) (s : Service) : Action → Option Service
  | .script startup => if s.phase = .loading then some (s.script startup) else none
  | .openSettled earlyErrorThrows runThrows unwindThrows =>
      if s.phase = .opening then some (s.openSettled earlyErrorThrows runThrows unwindThrows)
      else none
  | .runSettled unwindThrows =>
      if s.phase = .running then some (s.unwind unwindThrows) else none
  | .closeSettled => if s.phase = .closing then some { s with phase := .cleanedUp } else none
  | .setEvent name registered =>
      if name ∈ apiEvents then some (s.setEvent name registered) else none
  | .invoke call =>
      if s.receiver = true ∧ call.IsSent then
        some { s with calls := { s.calls with sent := s.calls.sent ++ [call] } }
      else none
  | .dispatch =>
      if s.phase = .loading then none
      else s.calls.sent[s.calls.received.length]?.map fun call =>
        { s with calls := { s.calls with received := s.calls.received ++ [call] } }.receive
          (call.fn stopCall)

def machine (stopCall : U16String) : Machine Service Action where
  Init s := s = initial
  step := step stopCall

/-! ## Names and callbacks -/

/-- The engine has been told to stop: by a call of `stop()` if it was running, and
otherwise by the flag that keeps it from being run. -/
def ToldToStop (s : Service) : Prop :=
  if s.running then 0 < s.engineStops else s.stopped = true

structure Named (s : Service) : Prop where
  control : ∀ fn call, s.callbacks fn = some (.control call) → fn = controlName call
  event : ∀ fn, s.callbacks fn = some .event → fn ∈ apiEvents

theorem controlName_injective {a b : U16String} (h : controlName a = controlName b) : a = b :=
  List.append_cancel_left h

theorem foldl_register (calls : List U16String) : ∀ s : Service, ∃ callbacks,
    calls.foldl (fun s call => s.registerCallback (controlName call) (.control call)) s =
      { s with callbacks := callbacks } ∧
    ∀ fn, (callbacks fn = s.callbacks fn ∧ ∀ call ∈ calls, fn ≠ controlName call) ∨
      ∃ call ∈ calls, fn = controlName call ∧ callbacks fn = some (.control call) := by
  induction calls with
  | nil =>
    intro s
    exact ⟨s.callbacks, rfl, fun fn => .inl ⟨rfl, fun call h => by cases h⟩⟩
  | cons call calls ih =>
    intro s
    obtain ⟨callbacks, heq, hcases⟩ := ih (s.registerCallback (controlName call) (.control call))
    refine ⟨callbacks, heq, fun fn => ?_⟩
    rcases hcases fn with ⟨hsame, hnot⟩ | ⟨call', hmem, hfn, hcallback⟩
    · by_cases hfn : fn = controlName call
      · refine .inr ⟨call, List.mem_cons_self, hfn, ?_⟩
        rw [hsame, hfn]
        exact Function.update_self ..
      · refine .inl ⟨hsame.trans (Function.update_of_ne hfn _ _), ?_⟩
        exact List.forall_mem_cons.mpr ⟨hfn, hnot⟩
    · exact .inr ⟨call', List.mem_cons_of_mem _ hmem, hfn, hcallback⟩

theorem newControlChannel_eq (s : Service) : ∃ callbacks,
    s.newControlChannel = { s with callbacks := callbacks } ∧
    ∀ fn, (callbacks fn = s.callbacks fn ∧ ∀ call ∈ controlMethods, fn ≠ controlName call) ∨
      ∃ call ∈ controlMethods, fn = controlName call ∧ callbacks fn = some (.control call) :=
  foldl_register controlMethods s

theorem Named.newControlChannel {s : Service} (hs : Named s) : Named s.newControlChannel := by
  obtain ⟨callbacks, heq, hcases⟩ := newControlChannel_eq s
  rw [heq]
  constructor
  · intro fn call h
    have h : callbacks fn = some (.control call) := h
    rcases hcases fn with ⟨hsame, -⟩ | ⟨call', -, hfn, hcallback⟩
    · exact hs.control fn call (hsame.symm.trans h)
    · rw [hcallback] at h
      cases h
      exact hfn
  · intro fn h
    have h : callbacks fn = some .event := h
    rcases hcases fn with ⟨hsame, -⟩ | ⟨call', -, -, hcallback⟩
    · exact hs.event fn (hsame.symm.trans h)
    · rw [hcallback] at h
      cases h

theorem Named.of_eq {s t : Service} (hs : Named s) (h : t.callbacks = s.callbacks) : Named t where
  control := h ▸ hs.control
  event := h ▸ hs.event

theorem Named.setEvent {s : Service} (hs : Named s) {name : U16String} (hname : name ∈ apiEvents)
    (registered : Bool) : Named (s.setEvent name registered) where
  control fn call h := by
    rcases Table.update_eq_some h with ⟨-, h⟩ | ⟨-, h⟩
    · cases registered <;> cases h
    · exact hs.control fn call h
  event fn h := by
    rcases Table.update_eq_some h with ⟨hfn, h⟩ | ⟨-, h⟩
    · rw [hfn]
      exact hname
    · exact hs.event fn h

/-- After the engine has opened, `main` is at another await: it has told the engine
to run, if it was not told to stop before. -/
theorem openSettled_eq (s : Service) (earlyErrorThrows runThrows unwindThrows : Bool) :
    ∃ phase running engineRuns, s.openSettled earlyErrorThrows runThrows unwindThrows =
        { s with phase := phase, running := running, engineRuns := engineRuns } ∧
      phase ≠ .loading ∧ (running = s.running ∨ (s.stopped = false ∧ running = true)) := by
  have hunwind : (if unwindThrows then Phase.cleanedUp else Phase.closing) ≠ .loading := by
    cases unwindThrows <;> decide
  rw [openSettled]
  split
  · exact ⟨_, _, _, rfl, hunwind, .inl rfl⟩
  · split
    · exact ⟨_, _, _, rfl, hunwind, .inl rfl⟩
    · rename_i hstopped
      have hstopped : s.stopped = false := Bool.not_eq_true _ ▸ hstopped
      dsimp only
      split
      · exact ⟨_, _, _, rfl, hunwind, .inr ⟨hstopped, rfl⟩⟩
      · exact ⟨_, _, _, rfl, by decide, .inr ⟨hstopped, rfl⟩⟩

theorem stop_eq (s : Service) : ∃ stopped engineStops,
    s.stop = { s with stopped := stopped, engineStops := engineStops } := by
  rw [stop]
  split
  · exact ⟨_, _, rfl⟩
  · exact ⟨_, _, rfl⟩

theorem receive_eq (s : Service) (fn : U16String) : ∃ stopped engineStops results,
    s.receive fn =
      { s with stopped := stopped, engineStops := engineStops, results := results } := by
  rw [receive]
  split
  · exact ⟨_, _, _, rfl⟩
  · rename_i callback _
    cases callback with
    | event => exact ⟨_, _, _, rfl⟩
    | control call =>
      dsimp only [apply]
      split
      · obtain ⟨stopped, engineStops, heq⟩ := stop_eq s
        rw [heq]
        exact ⟨_, _, _, rfl⟩
      · exact ⟨_, _, _, rfl⟩

inductive Does (stopCall : U16String) (s : Service) : Service → Prop
  | script (startup : Startup) : s.phase = .loading → Does stopCall s (s.script startup)
  | openSettled (earlyErrorThrows runThrows unwindThrows : Bool) :
      Does stopCall s (s.openSettled earlyErrorThrows runThrows unwindThrows)
  | unwind (throws : Bool) : Does stopCall s (s.unwind throws)
  | cleanedUp : Does stopCall s { s with phase := .cleanedUp }
  | setEvent {name : U16String} (registered : Bool) : name ∈ apiEvents →
      Does stopCall s (s.setEvent name registered)
  | invoke {call : JavaCall} : call.IsSent →
      Does stopCall s { s with calls := { s.calls with sent := s.calls.sent ++ [call] } }
  | dispatch {call : JavaCall} : s.phase ≠ .loading →
      s.calls.sent[s.calls.received.length]? = some call →
      Does stopCall s ({ s with calls :=
        { s.calls with received := s.calls.received ++ [call] } }.receive (call.fn stopCall))

theorem does_of_step {stopCall : U16String} {s t : Service} {a : Action}
    (h : s.step stopCall a = some t) : Does stopCall s t := by
  cases a with
  | script startup =>
    obtain ⟨hloading, h⟩ := Option.ite_none_right_eq_some.mp h
    cases h
    exact .script startup hloading
  | openSettled earlyErrorThrows runThrows unwindThrows =>
    obtain ⟨-, h⟩ := Option.ite_none_right_eq_some.mp h
    cases h
    exact .openSettled _ _ _
  | runSettled unwindThrows =>
    obtain ⟨-, h⟩ := Option.ite_none_right_eq_some.mp h
    cases h
    exact .unwind unwindThrows
  | closeSettled =>
    obtain ⟨-, h⟩ := Option.ite_none_right_eq_some.mp h
    cases h
    exact .cleanedUp
  | setEvent name registered =>
    obtain ⟨hname, h⟩ := Option.ite_none_right_eq_some.mp h
    cases h
    exact .setEvent registered hname
  | invoke call =>
    obtain ⟨hcall, h⟩ := Option.ite_none_right_eq_some.mp h
    cases h
    exact .invoke hcall.2
  | dispatch =>
    obtain ⟨hphase, h⟩ := Option.ite_none_left_eq_some.mp h
    obtain ⟨call, hcall, rfl⟩ := Option.map_eq_some_iff.mp h
    exact .dispatch hphase hcall

/-! ## The call is never dispatched to `stop` -/

theorem controlName_not_mem_apiEvents (call : U16String) : controlName call ∉ apiEvents := by
  have hheads : ∀ name ∈ apiEvents, name.head? ≠ some 67 := by decide
  exact fun h => hheads _ h rfl

theorem isSent_ne_stop {call : JavaCall} (hsent : call.IsSent) :
    call.fn onDestroyCall ≠ controlName (u16 "stop") := by
  cases call with
  | onDestroy => decide
  | binder method =>
    intro h
    have hmethod : method = u16 "stop" := controlName_injective h
    have hsent : method ∈ binderMethods := hsent
    rw [hmethod] at hsent
    exact absurd hsent (by decide)
  | event name =>
    intro h
    have hname : name = controlName (u16 "stop") := h
    have hsent : name ∈ apiEvents := hsent
    rw [hname] at hsent
    exact controlName_not_mem_apiEvents _ hsent

theorem Named.onDestroyCall {s : Service} (hs : Named s) : s.callbacks onDestroyCall = none := by
  cases h : s.callbacks App.onDestroyCall with
  | none => rfl
  | some callback =>
    cases callback with
    | control call =>
      have hhead : some (115 : UInt16) = some 67 := congrArg List.head? (hs.control _ _ h)
      exact absurd hhead (by decide)
    | event =>
      exact absurd (hs.event _ h) (by decide)

/-- What is true of every state: the call of `onDestroy` has no effect but an
exception. -/
structure Undisturbed (s : Service) : Prop where
  named : Named s
  sent : ∀ call ∈ s.calls.sent, call.IsSent
  stopped : s.stopped = false
  engineStops : s.engineStops = 0
  results_length : s.results.length = s.calls.received.length
  results : ∀ n : Nat, s.calls.received[n]? = some JavaCall.onDestroy →
    s.results[n]? = some (DispatchResult.threw (noSuchCallback onDestroyCall))

theorem Undisturbed.of_eq {s t : Service} (hs : Undisturbed s) (hnamed : Named t)
    (hcalls : t.calls = s.calls) (hstopped : t.stopped = s.stopped)
    (hstops : t.engineStops = s.engineStops) (hresults : t.results = s.results) :
    Undisturbed t where
  named := hnamed
  sent := hcalls ▸ hs.sent
  stopped := hstopped.trans hs.stopped
  engineStops := hstops.trans hs.engineStops
  results_length := by
    rw [hresults, hcalls]
    exact hs.results_length
  results := by
    rw [hresults, hcalls]
    exact hs.results

theorem Undisturbed.unwind {s : Service} (hs : Undisturbed s) (throws : Bool) :
    Undisturbed (s.unwind throws) :=
  hs.of_eq (hs.named.of_eq rfl) rfl rfl rfl rfl

theorem Undisturbed.newControlChannel {s : Service} (hs : Undisturbed s) :
    Undisturbed s.newControlChannel := by
  have hnamed := hs.named.newControlChannel
  obtain ⟨callbacks, heq, -⟩ := newControlChannel_eq s
  rw [heq] at hnamed ⊢
  exact hs.of_eq hnamed rfl rfl rfl rfl

theorem Undisturbed.arrive {s : Service} (hs : Undisturbed s) (phase : Phase) :
    Undisturbed (s.arrive phase) :=
  hs.of_eq (hs.named.of_eq rfl) rfl rfl rfl rfl

theorem Undisturbed.script {s : Service} (hs : Undisturbed s) (startup : Startup) :
    Undisturbed (s.script startup) := by
  cases startup with
  | platformThrows => exact hs.arrive _
  | engineThrows => exact hs.newControlChannel.arrive _
  | openThrows throws => exact (hs.newControlChannel.arrive _).unwind throws
  | opened => exact hs.newControlChannel.arrive _

theorem Undisturbed.openSettled {s : Service} (hs : Undisturbed s)
    (earlyErrorThrows runThrows unwindThrows : Bool) :
    Undisturbed (s.openSettled earlyErrorThrows runThrows unwindThrows) := by
  obtain ⟨phase, running, engineRuns, heq, -⟩ :=
    openSettled_eq s earlyErrorThrows runThrows unwindThrows
  rw [heq]
  exact hs.of_eq (hs.named.of_eq rfl) rfl rfl rfl rfl

theorem receive_of_ne_stop {s : Service} (hs : Named s) {fn : U16String}
    (hfn : fn ≠ controlName (u16 "stop")) :
    ∃ result, s.receive fn = { s with results := s.results ++ [result] } ∧
      (s.callbacks fn = none → result = .threw (noSuchCallback fn)) := by
  rw [receive]
  cases hcallback : s.callbacks fn with
  | none => exact ⟨_, rfl, fun _ => rfl⟩
  | some callback =>
    refine ⟨.called callback, ?_, fun h => by cases h⟩
    cases callback with
    | event => rfl
    | control call =>
      have hcall : call ≠ u16 "stop" := by
        rintro rfl
        exact hfn (hs.control fn _ hcallback)
      dsimp only [apply]
      rw [if_neg hcall]

theorem Undisturbed.dispatch {s : Service} (hs : Undisturbed s) {call : JavaCall}
    (hcall : s.calls.sent[s.calls.received.length]? = some call) :
    Undisturbed ({ s with calls :=
      { s.calls with received := s.calls.received ++ [call] } }.receive
        (call.fn App.onDestroyCall)) := by
  have hsent := hs.sent call (List.mem_of_getElem? hcall)
  have hnamed : Named { s with calls :=
      { s.calls with received := s.calls.received ++ [call] } } := hs.named.of_eq rfl
  obtain ⟨result, heq, hresult⟩ := receive_of_ne_stop hnamed (isSent_ne_stop hsent)
  rw [heq]
  refine ⟨hnamed.of_eq rfl, hs.sent, hs.stopped, hs.engineStops, ?_, fun n hn => ?_⟩
  · simp [hs.results_length]
  · have hn : (s.calls.received ++ [call])[n]? = some JavaCall.onDestroy := hn
    change (s.results ++ [result])[n]? = _
    rcases Nat.lt_trichotomy n s.calls.received.length with hlt | heq | hgt
    · rw [List.getElem?_append_left hlt] at hn
      rw [List.getElem?_append_left (by rw [hs.results_length]; exact hlt)]
      exact hs.results n hn
    · subst heq
      rw [List.getElem?_append_right (Nat.le_refl _), Nat.sub_self] at hn
      rw [← hs.results_length, List.getElem?_append_right (Nat.le_refl _), Nat.sub_self]
      cases hn
      exact congrArg some (hresult hs.named.onDestroyCall)
    · rw [List.getElem?_eq_none (by simp; omega)] at hn
      cases hn

theorem Undisturbed.invoke {s : Service} (hs : Undisturbed s) {call : JavaCall}
    (hcall : call.IsSent) :
    Undisturbed { s with calls := { s.calls with sent := s.calls.sent ++ [call] } } := by
  refine ⟨hs.named.of_eq rfl, fun call' h => ?_, hs.stopped, hs.engineStops,
    hs.results_length, hs.results⟩
  rcases List.mem_append.mp h with h | h
  · exact hs.sent call' h
  · rw [List.mem_singleton.mp h]
    exact hcall

theorem Undisturbed.step {s t : Service} (hs : Undisturbed s)
    (h : Does App.onDestroyCall s t) : Undisturbed t := by
  cases h with
  | script startup _ => exact hs.script startup
  | openSettled earlyErrorThrows runThrows unwindThrows => exact hs.openSettled _ _ _
  | unwind throws => exact hs.unwind throws
  | cleanedUp => exact hs.of_eq (hs.named.of_eq rfl) rfl rfl rfl rfl
  | setEvent registered hname => exact hs.of_eq (hs.named.setEvent hname registered) rfl rfl rfl rfl
  | invoke hcall => exact hs.invoke hcall
  | dispatch _ hcall => exact hs.dispatch hcall

theorem undisturbed_of_reachable {s : Service} (h : (machine onDestroyCall).Reachable s) :
    Undisturbed s := by
  apply h.invariant Undisturbed
  · rintro s rfl
    refine ⟨⟨fun fn call h => ?_, fun fn h => ?_⟩, fun call h => ?_, rfl, rfl, rfl,
      fun n h => ?_⟩
    · cases h
    · cases h
    · cases h
    · cases h
  · intro s a t hs hstep
    exact hs.step (does_of_step hstep)

/-- In no run does the call of `onDestroy` tell the engine to stop: it ends in an
exception of the launcher. -/
theorem onDestroy_never_stops {s : Service} (h : (machine onDestroyCall).Reachable s)
    (n : Nat) (hdispatched : s.calls.received[n]? = some .onDestroy) :
    s.results[n]? = some (.threw (noSuchCallback onDestroyCall)) ∧ ¬ s.ToldToStop := by
  have hs := undisturbed_of_reachable h
  refine ⟨hs.results n hdispatched, ?_⟩
  rw [ToldToStop]
  split
  · rw [hs.engineStops]
    exact Nat.lt_irrefl 0
  · rw [hs.stopped]
    exact Bool.false_ne_true

def destroyedWhileRunning : List Action :=
  [.script .opened, .openSettled false false false, .invoke .onDestroy, .dispatch]

theorem onDestroy_never_stops_running : ∃ s : Service,
    (machine onDestroyCall).run initial destroyedWhileRunning = some s ∧
    s.phase = .running ∧ s.results = [.threw (noSuchCallback (u16 "stop"))] ∧
    ¬ s.ToldToStop := by
  have hinit : (machine onDestroyCall).Reachable initial := .start rfl
  obtain ⟨s, hs, hphase, hresults, hreceived⟩ : ∃ s : Service,
      (machine onDestroyCall).run initial destroyedWhileRunning = some s ∧
      s.phase = .running ∧ s.results = [.threw (noSuchCallback (u16 "stop"))] ∧
      s.calls.received[0]? = some .onDestroy :=
    ⟨_, rfl, rfl, rfl, rfl⟩
  exact ⟨s, hs, hphase, hresults, (onDestroy_never_stops (hinit.run hs) 0 hreceived).2⟩

theorem not_toldToStop_running : ∃ s : Service,
    (machine onDestroyCall).run initial destroyedWhileRunning = some s ∧
    s.calls.received = [.onDestroy] ∧ s.running = true ∧ s.engineStops = 0 ∧
    ¬ s.ToldToStop :=
  ⟨_, rfl, rfl, rfl, rfl, Nat.lt_irrefl 0⟩

/-! ## Under the name of the control method -/

theorem apply_control (s : Service) (call : U16String) :
    s.apply (.control call) = if call = u16 "stop" then s.stop else s := rfl

theorem ToldToStop.stop (s : Service) : s.stop.ToldToStop := by
  rw [ToldToStop, Service.stop]
  by_cases hrunning : s.running = true
  · rw [if_pos hrunning, if_pos hrunning]
    exact Nat.succ_pos _
  · rw [if_neg hrunning, if_neg hrunning]

theorem ToldToStop.of_eq {s t : Service} (hs : s.ToldToStop) (hrunning : t.running = s.running)
    (hstopped : t.stopped = s.stopped) (hstops : t.engineStops = s.engineStops) :
    t.ToldToStop := by
  rw [ToldToStop]
  rw [hrunning, hstopped, hstops]
  exact hs

theorem ToldToStop.receive {s : Service} (hs : s.ToldToStop) (fn : U16String) :
    (s.receive fn).ToldToStop := by
  rw [Service.receive]
  split
  · exact hs.of_eq rfl rfl rfl
  · rename_i callback _
    have happly : (s.apply callback).ToldToStop := by
      cases callback with
      | event => exact hs
      | control call =>
        rw [apply_control]
        split
        · exact .stop s
        · exact hs
    exact happly.of_eq rfl rfl rfl

theorem ToldToStop.openSettled {s : Service} (hs : s.ToldToStop)
    (earlyErrorThrows runThrows unwindThrows : Bool) :
    (s.openSettled earlyErrorThrows runThrows unwindThrows).ToldToStop := by
  obtain ⟨phase, running, engineRuns, heq, -, hrunning⟩ :=
    openSettled_eq s earlyErrorThrows runThrows unwindThrows
  rw [heq]
  rcases hrunning with hsame | ⟨hstopped, rfl⟩
  · exact hs.of_eq hsame rfl rfl
  · have hstops : 0 < s.engineStops := by
      rw [ToldToStop] at hs
      split at hs
      · exact hs
      · rw [hstopped] at hs
        cases hs
    exact hstops

theorem newControlChannel_calls (s : Service) : s.newControlChannel.calls = s.calls := by
  obtain ⟨callbacks, heq, -⟩ := newControlChannel_eq s
  rw [heq]

theorem arrive_calls (s : Service) (phase : Phase) : (s.arrive phase).calls = s.calls := rfl

theorem unwind_calls (s : Service) (throws : Bool) : (s.unwind throws).calls = s.calls := rfl

theorem script_calls (s : Service) (startup : Startup) :
    (s.script startup).calls = s.calls := by
  cases startup with
  | platformThrows => rfl
  | engineThrows => rw [script, arrive_calls, newControlChannel_calls]
  | openThrows throws => rw [script, unwind_calls, arrive_calls, newControlChannel_calls]
  | opened => rw [script, arrive_calls, newControlChannel_calls]

theorem Named.arrive {s : Service} (hs : Named s) (phase : Phase) : Named (s.arrive phase) :=
  hs.of_eq rfl

theorem Named.unwind {s : Service} (hs : Named s) (throws : Bool) : Named (s.unwind throws) :=
  hs.of_eq rfl

theorem Named.script {s : Service} (hs : Named s) (startup : Startup) :
    Named (s.script startup) := by
  cases startup with
  | platformThrows => exact hs.arrive _
  | engineThrows => exact hs.newControlChannel.arrive _
  | openThrows throws => exact (hs.newControlChannel.arrive _).unwind throws
  | opened => exact hs.newControlChannel.arrive _

/-- What would be true if `onDestroy` sent the name of the control method. -/
structure Obedient (s : Service) : Prop where
  named : Named s
  loading : s.phase = .loading → s.calls.received = []
  obeys : .onDestroy ∈ s.calls.received → s.callbacks (controlName (u16 "stop")) ≠ none →
    s.ToldToStop

theorem Named.control_stop {s : Service} (hs : Named s)
    (h : s.callbacks (controlName (u16 "stop")) ≠ none) :
    s.callbacks (controlName (u16 "stop")) = some (.control (u16 "stop")) := by
  obtain ⟨callback, hcallback⟩ := Option.ne_none_iff_exists'.mp h
  rw [hcallback]
  cases callback with
  | event => exact (controlName_not_mem_apiEvents _ (hs.event _ hcallback)).elim
  | control call => rw [controlName_injective (hs.control _ _ hcallback)]

theorem receive_control_stop {s : Service} (hs : Named s)
    (h : s.callbacks (controlName (u16 "stop")) ≠ none) :
    (s.receive (controlName (u16 "stop"))).ToldToStop := by
  rw [Service.receive]
  rw [hs.control_stop h]
  exact (ToldToStop.stop s).of_eq rfl rfl rfl

theorem Obedient.of_eq {s t : Service} (hs : Obedient s) (hcallbacks : t.callbacks = s.callbacks)
    (hreceived : t.calls.received = s.calls.received)
    (hphase : t.phase = .loading → s.phase = .loading)
    (htold : s.ToldToStop → t.ToldToStop) : Obedient t where
  named := hs.named.of_eq hcallbacks
  loading hloading := hreceived.trans (hs.loading (hphase hloading))
  obeys hmem hcallback := by
    rw [hreceived] at hmem
    rw [hcallbacks] at hcallback
    exact htold (hs.obeys hmem hcallback)

theorem Obedient.script {s : Service} (hs : Obedient s) (hloading : s.phase = .loading)
    (startup : Startup) : Obedient (s.script startup) where
  named := hs.named.script startup
  loading _ := by
    rw [script_calls]
    exact hs.loading hloading
  obeys hmem := by
    rw [script_calls, hs.loading hloading] at hmem
    cases hmem

theorem Obedient.openSettled {s : Service} (hs : Obedient s)
    (earlyErrorThrows runThrows unwindThrows : Bool) :
    Obedient (s.openSettled earlyErrorThrows runThrows unwindThrows) := by
  have htold := fun h : s.ToldToStop => h.openSettled earlyErrorThrows runThrows unwindThrows
  obtain ⟨phase, running, engineRuns, heq, hphase, -⟩ :=
    openSettled_eq s earlyErrorThrows runThrows unwindThrows
  rw [heq] at htold ⊢
  exact hs.of_eq rfl rfl (fun hloading => absurd hloading hphase) htold

theorem Obedient.setEvent {s : Service} (hs : Obedient s) {name : U16String}
    (hname : name ∈ apiEvents) (registered : Bool) : Obedient (s.setEvent name registered) where
  named := hs.named.setEvent hname registered
  loading := hs.loading
  obeys hmem hcallback := by
    have hne : controlName (u16 "stop") ≠ name := by
      rintro rfl
      exact controlName_not_mem_apiEvents _ hname
    have hsame : (s.setEvent name registered).callbacks (controlName (u16 "stop")) =
        s.callbacks (controlName (u16 "stop")) := Function.update_of_ne hne _ _
    rw [hsame] at hcallback
    exact (hs.obeys hmem hcallback).of_eq rfl rfl rfl

theorem Obedient.dispatch {s : Service} (hs : Obedient s) (hphase : s.phase ≠ .loading)
    (call : JavaCall) : Obedient ({ s with calls :=
      { s.calls with received := s.calls.received ++ [call] } }.receive
        (call.fn (controlName (u16 "stop")))) := by
  have htold : .onDestroy ∈ s.calls.received ++ [call] →
      s.callbacks (controlName (u16 "stop")) ≠ none →
      ({ s with calls := { s.calls with received := s.calls.received ++ [call] } }.receive
        (call.fn (controlName (u16 "stop")))).ToldToStop := by
    intro hmem hcallback
    rcases List.mem_append.mp hmem with hmem | hmem
    · have htold : ToldToStop { s with calls :=
          { s.calls with received := s.calls.received ++ [call] } } :=
        (hs.obeys hmem hcallback).of_eq rfl rfl rfl
      exact htold.receive _
    · have hcall : call = .onDestroy := (List.mem_singleton.mp hmem).symm
      subst hcall
      exact receive_control_stop (hs.named.of_eq rfl) hcallback
  obtain ⟨stopped, engineStops, results, heq⟩ := receive_eq
    { s with calls := { s.calls with received := s.calls.received ++ [call] } }
    (call.fn (controlName (u16 "stop")))
  rw [heq] at htold ⊢
  exact ⟨hs.named.of_eq rfl, fun hloading => absurd hloading hphase, htold⟩

theorem Obedient.step {s t : Service} (hs : Obedient s)
    (h : Does (controlName (u16 "stop")) s t) : Obedient t := by
  cases h with
  | script startup hloading => exact hs.script hloading startup
  | openSettled earlyErrorThrows runThrows unwindThrows => exact hs.openSettled _ _ _
  | unwind throws =>
    refine hs.of_eq rfl rfl (fun hloading => ?_) fun htold => htold.of_eq rfl rfl rfl
    cases throws <;> cases hloading
  | cleanedUp =>
    refine hs.of_eq rfl rfl (fun hloading => ?_) fun htold => htold.of_eq rfl rfl rfl
    cases hloading
  | setEvent registered hname => exact hs.setEvent hname registered
  | invoke hcall => exact hs.of_eq rfl rfl id fun htold => htold.of_eq rfl rfl rfl
  | dispatch hphase hcall => exact hs.dispatch hphase _

/-- Sent under the name of the control method, the call of `onDestroy` would tell
the engine to stop, at whichever await it finds `main`. -/
theorem toldToStop_of_control_stop {s : Service}
    (h : (machine (controlName (u16 "stop"))).Reachable s)
    (hdispatched : .onDestroy ∈ s.calls.received)
    (hregistered : s.callbacks (controlName (u16 "stop")) ≠ none) : s.ToldToStop := by
  have hs : Obedient s := by
    apply h.invariant Obedient
    · rintro s rfl
      refine ⟨⟨fun fn call h => ?_, fun fn h => ?_⟩, fun _ => rfl, fun hmem => ?_⟩
      · cases h
      · cases h
      · cases hmem
    · intro s a t hs hstep
      exact hs.step (does_of_step hstep)
  exact hs.obeys hdispatched hregistered

end Service

end AlmondAndroid.App
