import AlmondAndroid.App.Main
import AlmondAndroid.Assistant.Message
import AlmondAndroid.Bridge.JavaInvoker

/-!
# Reporting a failed start

When the engine does not open, `main` calls `earlyError`, which sends two texts to Java
by the synchronous bridge. The bridge passes the arguments as they are, and the Java
method reads an icon after the text. The machine is that of `main`, with what is called
in the `catch` block and in the `finally` block carried out.
-/

namespace AlmondAndroid.App

open Library Bridge Assistant

/-! ## The synchronous call of `send` -/

/-- What `'' + error.message` gives, if it does not throw, and the message of an
exception for an object that is no string. -/
structure Texts (rt : Runtime) where
  message : rt.Value → Option U16String
  classCast : rt.Object → Option U16String

section Send

variable {rt : Runtime}

def arrayIndexOutOfBounds (length index : Nat) : JavaThrowable :=
  ⟨true, some (u16 "length=" ++ u16 (toString length) ++ u16 "; index=" ++
    u16 (toString index))⟩

def arrayGet (args : List rt.Object) (index : Nat) : Except JavaThrowable rt.Object :=
  match args[index]? with
  | some o => .ok o
  | none => .error (arrayIndexOutOfBounds args.length index)

def castString (texts : Texts rt) : rt.Object → Except JavaThrowable JavaString
  | .null => .ok none
  | .string s => .ok (some s)
  | o => .error ⟨true, texts.classCast o⟩

/-- The callback that `AssistantAPI` registers for `send`, and what it dispatches. -/
def runSend (texts : Texts rt) (args : List rt.Object) :
    Except JavaThrowable (List AssistantMessage) := do
  let text ← castString texts (← arrayGet args 0)
  let icon ← castString texts (← arrayGet args 1)
  return [.text .fromSabrina icon text]

def outcomeOf : Except JavaThrowable (List AssistantMessage) → Bridge.Outcome rt
  | .ok _ => .returned .null
  | .error e => .threw e

/-- `Assistant_send` is registered before node is launched, here as the callback 0. -/
def callSend (args : List rt.Value) (outcome : Bridge.Outcome rt) :
    Option (Invocation rt) × Except Fault (ApiResult rt) :=
  callJavaSync rt (u16 "Assistant_send") (some 0) args outcome

/-- `AssistantJavaApi.send`, with what is dispatched: the callback runs on the arguments
that the bridge makes of those given. -/
def send (texts : Texts rt) (args : List rt.Value) :
    Except Fault (ApiResult rt) × List AssistantMessage :=
  match (callSend args (.returned .null)).1 with
  | none => ((callSend args (.returned .null)).2, [])
  | some invocation =>
      let result := runSend texts invocation.args
      ((callSend args (outcomeOf result)).2, result.toOption.getD [])

def sorryText : U16String := u16 "Sorry, I failed to start: "

def restartText : U16String := u16 "Please restart the app and try again"

/-- What is dispatched, and whether an exception leaves the `catch` block, which has the
message of the error printed before it calls `earlyError`. -/
def earlyError (texts : Texts rt) (error : rt.Value) :
    Except Fault (List AssistantMessage × Bool) :=
  match texts.message error with
  | none => .ok ([], true)
  | some message =>
      match send texts [.string (sorryText ++ message)] with
      | (.error fault, _) => .error fault
      | (.ok (.threw _), first) => .ok (first, true)
      | (.ok _, first) =>
          match send texts [.string restartText] with
          | (.error fault, _) => .error fault
          | (.ok (.threw _), second) => .ok (first ++ second, true)
          | (.ok _, second) => .ok (first ++ second, false)

end Send

/-! ## `main` -/

/-- How `await _waitReady` and then `engineReady` end. -/
inductive Opened (rt : Runtime)
  | ready
  | engineReadyThrows (error : rt.Value)
  | rejected (error : rt.Value)

/-- `rejected` is what the engine failed to open with, `delivered` what has come to the
dispatcher of Java, and the numbers count the calls of the `finally` block. -/
structure Main (rt : Runtime) where
  service : Service
  rejected : Option rt.Value
  delivered : List AssistantMessage
  adStops : Nat
  engineCloses : Nat

/-- The objects of the small runtime have no property `message`. -/
def Texts.sample : Texts Sample.runtime where
  message
    | .undefined | .null => none
    | _ => some (u16 "undefined")
  classCast _ := none

namespace Main

variable {rt : Runtime}

inductive Action (rt : Runtime)
  | script (startup : Startup)
  | openSettled (opened : Opened rt) (runThrows unwindThrows : Bool)
  | runSettled (unwindThrows : Bool)
  | closeSettled
  | setEvent (name : U16String) (registered : Bool)
  | invoke (call : JavaCall)
  | dispatch

def initial (rt : Runtime) : Main rt where
  service := Service.initial
  rejected := none
  delivered := []
  adStops := 0
  engineCloses := 0

/-- The two calls of the inner `finally`. -/
def unwound (m : Main rt) (service : Service) : Main rt :=
  { m with service := service, adStops := m.adStops + 1, engineCloses := m.engineCloses + 1 }

def script (m : Main rt) (startup : Startup) : Main rt :=
  match startup with
  | .openThrows _ => m.unwound (m.service.script startup)
  | _ => { m with service := m.service.script startup }

/-- After the inner `try`, whose `catch` block may have thrown. -/
def goOn (m : Main rt) (earlyErrorThrows runThrows unwindThrows : Bool) : Main rt :=
  if earlyErrorThrows then m.unwound (m.service.unwind unwindThrows)
  else if m.service.stopped then m.unwound (m.service.unwind unwindThrows)
  else
    let service := { m.service with running := true, engineRuns := m.service.engineRuns + 1 }
    if runThrows then m.unwound (service.unwind unwindThrows)
    else { m with service := { service with phase := .running } }

def catchError (texts : Texts rt) (m : Main rt) (error : rt.Value)
    (runThrows unwindThrows : Bool) : Option (Main rt) :=
  match earlyError texts error with
  | .error _ => none
  | .ok (messages, throws) =>
      some ({ m with delivered := m.delivered ++ messages }.goOn throws runThrows unwindThrows)

def openSettled (texts : Texts rt) (m : Main rt) (runThrows unwindThrows : Bool) :
    Opened rt → Option (Main rt)
  | .ready => some (m.goOn false runThrows unwindThrows)
  | .engineReadyThrows error => m.catchError texts error runThrows unwindThrows
  | .rejected error =>
      { m with rejected := some error }.catchError texts error runThrows unwindThrows

def step (texts : Texts rt) (stopCall : U16String) (m : Main rt) : Action rt → Option (Main rt)
  | .script startup => if m.service.phase = .loading then some (m.script startup) else none
  | .openSettled opened runThrows unwindThrows =>
      if m.service.phase = .opening then m.openSettled texts runThrows unwindThrows opened
      else none
  | .runSettled unwindThrows =>
      (m.service.step stopCall (.runSettled unwindThrows)).map m.unwound
  | .closeSettled =>
      (m.service.step stopCall .closeSettled).map fun service => { m with service := service }
  | .setEvent name registered =>
      (m.service.step stopCall (.setEvent name registered)).map fun service =>
        { m with service := service }
  | .invoke call =>
      (m.service.step stopCall (.invoke call)).map fun service => { m with service := service }
  | .dispatch =>
      (m.service.step stopCall .dispatch).map fun service => { m with service := service }

def machine (texts : Texts rt) (stopCall : U16String) : Machine (Main rt) (Action rt) where
  Init m := m = initial rt
  step := step texts stopCall

/-- The failed start is reported, and `main` goes on as it does without an error. -/
structure Reported (texts : Texts rt) (m : Main rt) (error : rt.Value) : Prop where
  delivered : ∃ message firstIcon secondIcon, texts.message error = some message ∧
    m.delivered = [.text .fromSabrina firstIcon (some (sorryText ++ message)),
      .text .fromSabrina secondIcon (some restartText)]
  engineRuns : m.service.stopped = true ∨ m.service.engineRuns = 1
  cleanedUp : m.service.phase = .cleanedUp → m.adStops = 1 ∧ m.engineCloses = 1

/-! ## The call with one argument -/

section Send

variable (texts : Texts rt)

theorem arrayIndexOutOfBounds_one :
    arrayIndexOutOfBounds 1 1 = ⟨true, some (u16 "length=1; index=1")⟩ := by
  decide

theorem send_text (text : U16String) :
    send texts [.string text] =
      (.ok (.threw (exceptionToV8 (u16 "length=1; index=1"))), []) := by
  have hrun : runSend texts [.string text] = .error (arrayIndexOutOfBounds 1 1) := rfl
  have hargs : (callSend [.string text] (.returned .null : Bridge.Outcome rt)).1 =
      some ⟨0, [.string text], .returned .null⟩ := rfl
  rw [send, hargs]
  dsimp only
  rw [hrun, arrayIndexOutOfBounds_one]
  rfl

/-- The icon may be null, but it has to be there. -/
theorem send_text_null (text : U16String) :
    send texts [.string text, .null] =
      (.ok (.returned .null), [.text .fromSabrina none (some text)]) := by
  rfl

theorem earlyError_throws (error : rt.Value) : earlyError texts error = .ok ([], true) := by
  rw [earlyError]
  cases texts.message error with
  | none => rfl
  | some message =>
    dsimp only
    rw [send_text]

end Send

theorem catchError_eq (texts : Texts rt) (m : Main rt) (error : rt.Value)
    (runThrows unwindThrows : Bool) :
    m.catchError texts error runThrows unwindThrows =
      some (m.unwound (m.service.unwind unwindThrows)) := by
  rw [catchError, earlyError_throws]
  dsimp only
  rw [List.append_nil, goOn, if_pos rfl]

/-! ## `main` is that of the service -/

theorem goOn_service (m : Main rt) (earlyErrorThrows runThrows unwindThrows : Bool) :
    (m.goOn earlyErrorThrows runThrows unwindThrows).service =
      m.service.openSettled earlyErrorThrows runThrows unwindThrows := by
  rw [goOn, Service.openSettled]
  split
  · rfl
  · split
    · rfl
    · dsimp only
      split
      · rfl
      · rfl

theorem script_service (m : Main rt) (startup : Startup) :
    (m.script startup).service = m.service.script startup := by
  cases startup <;> rfl

theorem openSettled_service {texts : Texts rt} {m n : Main rt} {opened : Opened rt}
    {runThrows unwindThrows : Bool}
    (h : m.openSettled texts runThrows unwindThrows opened = some n) :
    ∃ earlyErrorThrows,
      n.service = m.service.openSettled earlyErrorThrows runThrows unwindThrows := by
  cases opened with
  | ready =>
    cases h
    exact ⟨false, goOn_service m false runThrows unwindThrows⟩
  | engineReadyThrows error =>
    rw [openSettled, catchError_eq] at h
    cases h
    exact ⟨true, rfl⟩
  | rejected error =>
    rw [openSettled, catchError_eq] at h
    cases h
    exact ⟨true, rfl⟩

/-- Whatever `earlyError` does, `main` takes one of the steps it was said to take. -/
theorem simulation (texts : Texts rt) (stopCall : U16String) :
    Machine.Simulation (machine texts stopCall) (Service.machine stopCall) Main.service where
  init m hm := hm ▸ rfl
  step m a n _ hstep := by
    have hmap : ∀ {b : Service.Action} {f : Service → Main rt}, (∀ s, (f s).service = s) →
        (m.service.step stopCall b).map f = some n →
        ∃ bs, (Service.machine stopCall).run m.service bs = some n.service := by
      intro b f hf h
      obtain ⟨s, hs, rfl⟩ := Option.map_eq_some_iff.mp h
      refine ⟨[b], ?_⟩
      rw [hf]
      exact Machine.run_singleton hs
    cases a with
    | script startup =>
      obtain ⟨hloading, h⟩ := Option.ite_none_right_eq_some.mp hstep
      cases h
      refine ⟨[.script startup], ?_⟩
      rw [script_service]
      exact Machine.run_singleton (if_pos hloading)
    | openSettled opened runThrows unwindThrows =>
      obtain ⟨hopening, h⟩ := Option.ite_none_right_eq_some.mp hstep
      obtain ⟨earlyErrorThrows, hservice⟩ := openSettled_service h
      refine ⟨[.openSettled earlyErrorThrows runThrows unwindThrows], ?_⟩
      rw [hservice]
      exact Machine.run_singleton (if_pos hopening)
    | runSettled unwindThrows => exact hmap (fun _ => rfl) hstep
    | closeSettled => exact hmap (fun _ => rfl) hstep
    | setEvent name registered => exact hmap (fun _ => rfl) hstep
    | invoke call => exact hmap (fun _ => rfl) hstep
    | dispatch => exact hmap (fun _ => rfl) hstep

/-! ## No run reports a failed start -/

/-- Nothing is ever delivered. What the engine failed to open with is known only past
the `catch` block, from where `main` has gone straight to its end. -/
structure Silent (m : Main rt) : Prop where
  delivered : m.delivered = []
  before : m.service.phase = .loading ∨ m.service.phase = .opening →
    m.rejected = none ∧ m.service.engineRuns = 0 ∧ m.adStops = 0 ∧ m.engineCloses = 0
  running : m.service.phase = .running → m.rejected = none
  rejected : m.rejected ≠ none →
    m.service.engineRuns = 0 ∧ m.adStops = 1 ∧ m.engineCloses = 1

theorem Silent.of_eq {m : Main rt} (h : Silent m) {service : Service}
    (hphase : service.phase = m.service.phase)
    (hruns : service.engineRuns = m.service.engineRuns) :
    Silent { m with service := service } := by
  refine ⟨h.delivered, ?_, ?_, ?_⟩
  · dsimp only
    rw [hphase, hruns]
    exact h.before
  · dsimp only
    rw [hphase]
    exact h.running
  · dsimp only
    rw [hruns]
    exact h.rejected

theorem Silent.of_not_rejected {m : Main rt} (hdelivered : m.delivered = [])
    (hrejected : m.rejected = none)
    (hphase : m.service.phase ≠ .loading ∧ m.service.phase ≠ .opening) : Silent m :=
  ⟨hdelivered, fun h => (h.elim hphase.1 hphase.2).elim, fun _ => hrejected,
    fun h => (h hrejected).elim⟩

theorem unwind_phase (s : Service) (throws : Bool) :
    (s.unwind throws).phase ≠ .loading ∧ (s.unwind throws).phase ≠ .opening := by
  cases throws <;> exact ⟨nofun, nofun⟩

theorem service_script (s : Service) (startup : Startup) :
    (s.script startup).engineRuns = s.engineRuns ∧
    (startup = .opened ∨
      ((s.script startup).phase ≠ .loading ∧ (s.script startup).phase ≠ .opening)) := by
  obtain ⟨callbacks, heq, -⟩ := Service.newControlChannel_eq s
  cases startup with
  | platformThrows => exact ⟨rfl, .inr ⟨nofun, nofun⟩⟩
  | engineThrows =>
    have hscript : s.script .engineThrows = s.newControlChannel.arrive .cleanedUp := rfl
    rw [hscript, heq]
    exact ⟨rfl, .inr ⟨nofun, nofun⟩⟩
  | openThrows throws =>
    have hscript : s.script (.openThrows throws) =
      (s.newControlChannel.arrive .opening).unwind throws := rfl
    rw [hscript, heq]
    exact ⟨rfl, .inr (unwind_phase _ throws)⟩
  | opened =>
    have hscript : s.script .opened = s.newControlChannel.arrive .opening := rfl
    rw [hscript, heq]
    exact ⟨rfl, .inl rfl⟩

theorem Silent.script {m : Main rt} (h : Silent m) (hloading : m.service.phase = .loading)
    (startup : Startup) : Silent (m.script startup) := by
  obtain ⟨hrejected, hruns, hstops, hcloses⟩ := h.before (.inl hloading)
  obtain ⟨hsame, hphase⟩ := service_script m.service startup
  rw [Main.script.eq_def]
  generalize m.service.script startup = service at hsame hphase
  cases startup with
  | opened =>
    exact ⟨h.delivered, fun _ => ⟨hrejected, hsame.trans hruns, hstops, hcloses⟩,
      fun _ => hrejected, fun hne => (hne hrejected).elim⟩
  | _ => exact .of_not_rejected h.delivered hrejected (hphase.resolve_left nofun)

theorem Silent.openSettled {texts : Texts rt} {m n : Main rt} (h : Silent m)
    (hopening : m.service.phase = .opening) {opened : Opened rt} {runThrows unwindThrows : Bool}
    (hstep : m.openSettled texts runThrows unwindThrows opened = some n) : Silent n := by
  obtain ⟨hrejected, hruns, hstops, hcloses⟩ := h.before (.inr hopening)
  cases opened with
  | ready =>
    cases hstep
    rw [goOn, if_neg Bool.false_ne_true]
    split
    · exact .of_not_rejected h.delivered hrejected (unwind_phase _ _)
    · dsimp only
      split
      · exact .of_not_rejected h.delivered hrejected (unwind_phase _ _)
      · exact .of_not_rejected h.delivered hrejected ⟨nofun, nofun⟩
  | engineReadyThrows error =>
    rw [Main.openSettled, catchError_eq] at hstep
    cases hstep
    exact .of_not_rejected h.delivered hrejected (unwind_phase _ _)
  | rejected error =>
    rw [Main.openSettled, catchError_eq] at hstep
    cases hstep
    have hphase := unwind_phase m.service unwindThrows
    refine ⟨h.delivered, fun hp => (hp.elim hphase.1 hphase.2).elim, ?_,
      fun _ => ⟨hruns, ?_, ?_⟩⟩
    · cases unwindThrows <;> exact nofun
    · exact congrArg (· + 1) hstops
    · exact congrArg (· + 1) hcloses

theorem step_keeps {stopCall : U16String} {s t : Service} {a : Service.Action}
    (ha : (∃ name registered, a = .setEvent name registered) ∨ (∃ call, a = .invoke call) ∨
      a = .dispatch) (hstep : s.step stopCall a = some t) :
    t.phase = s.phase ∧ t.engineRuns = s.engineRuns := by
  rcases ha with ⟨name, registered, rfl⟩ | ⟨call, rfl⟩ | rfl
  · obtain ⟨-, h⟩ := Option.ite_none_right_eq_some.mp hstep
    cases h
    exact ⟨rfl, rfl⟩
  · obtain ⟨-, h⟩ := Option.ite_none_right_eq_some.mp hstep
    cases h
    exact ⟨rfl, rfl⟩
  · obtain ⟨-, h⟩ := Option.ite_none_left_eq_some.mp hstep
    obtain ⟨call, -, rfl⟩ := Option.map_eq_some_iff.mp h
    obtain ⟨stopped, engineStops, results, heq⟩ := Service.receive_eq
      { s with calls := { s.calls with received := s.calls.received ++ [call] } }
      (call.fn stopCall)
    rw [heq]
    exact ⟨rfl, rfl⟩

theorem Silent.step {texts : Texts rt} {stopCall : U16String} {m n : Main rt} {a : Action rt}
    (h : Silent m) (hstep : step texts stopCall m a = some n) : Silent n := by
  cases a with
  | script startup =>
    obtain ⟨hloading, hstep⟩ := Option.ite_none_right_eq_some.mp hstep
    cases hstep
    exact h.script hloading startup
  | openSettled opened runThrows unwindThrows =>
    obtain ⟨hopening, hstep⟩ := Option.ite_none_right_eq_some.mp hstep
    exact h.openSettled hopening hstep
  | runSettled unwindThrows =>
    obtain ⟨s, hs, rfl⟩ := Option.map_eq_some_iff.mp hstep
    obtain ⟨hrunning, hs⟩ := Option.ite_none_right_eq_some.mp hs
    cases hs
    exact .of_not_rejected h.delivered (h.running hrunning) (unwind_phase _ _)
  | closeSettled =>
    obtain ⟨s, hs, rfl⟩ := Option.map_eq_some_iff.mp hstep
    obtain ⟨-, hs⟩ := Option.ite_none_right_eq_some.mp hs
    cases hs
    exact ⟨h.delivered, nofun, nofun, h.rejected⟩
  | setEvent name registered =>
    obtain ⟨s, hs, rfl⟩ := Option.map_eq_some_iff.mp hstep
    obtain ⟨hphase, hruns⟩ := step_keeps (.inl ⟨name, registered, rfl⟩) hs
    exact h.of_eq hphase hruns
  | invoke call =>
    obtain ⟨s, hs, rfl⟩ := Option.map_eq_some_iff.mp hstep
    obtain ⟨hphase, hruns⟩ := step_keeps (.inr (.inl ⟨call, rfl⟩)) hs
    exact h.of_eq hphase hruns
  | dispatch =>
    obtain ⟨s, hs, rfl⟩ := Option.map_eq_some_iff.mp hstep
    obtain ⟨hphase, hruns⟩ := step_keeps (.inr (.inr rfl)) hs
    exact h.of_eq hphase hruns

theorem silent {texts : Texts rt} {stopCall : U16String} {m : Main rt}
    (h : (machine texts stopCall).Reachable m) : Silent m := by
  refine h.invariant Silent ?_ fun m a n hm hstep => hm.step hstep
  rintro m rfl
  exact ⟨rfl, fun _ => ⟨rfl, rfl, rfl, rfl⟩, nofun, fun h => (h rfl).elim⟩

/-- Whatever the engine fails to open with, neither text is delivered and the engine is
not run; only the two calls of the `finally` block are made as they should be. -/
theorem early_error_never_reported {texts : Texts rt} {stopCall : U16String} {m : Main rt}
    (h : (machine texts stopCall).Reachable m) {error : rt.Value}
    (hrejected : m.rejected = some error) :
    (m.delivered = [] ∧ m.service.engineRuns = 0 ∧ m.adStops = 1 ∧ m.engineCloses = 1) ∧
    ¬ Reported texts m error := by
  have hsilent := silent h
  have hne : m.rejected ≠ none := hrejected ▸ Option.some_ne_none error
  refine ⟨⟨hsilent.delivered, hsilent.rejected hne⟩, fun hreported => ?_⟩
  obtain ⟨message, firstIcon, secondIcon, -, hdelivered⟩ := hreported.delivered
  rw [hsilent.delivered] at hdelivered
  cases hdelivered

/-- The engine is rejected while no stop has been called for, and `main` ends. -/
theorem early_error_never_reported_object : ∃ m,
    (machine .sample onDestroyCall).run (initial Sample.runtime)
      [.script .opened, .openSettled (.rejected (.object (.plain .emptyObject))) false false,
        .closeSettled] = some m ∧
    (m.delivered = [] ∧ m.service.engineRuns = 0 ∧ m.adStops = 1 ∧ m.engineCloses = 1) ∧
    ¬ Reported .sample m (.object (.plain .emptyObject)) := by
  have hrun : (machine .sample onDestroyCall).run (initial Sample.runtime)
      [.script .opened, .openSettled (.rejected (.object (.plain .emptyObject))) false false,
        .closeSettled] =
    some _ := rfl
  exact ⟨_, hrun, early_error_never_reported (Machine.Reachable.run (.start rfl) hrun) rfl⟩

theorem early_error_lost : ¬ ∀ (m : Main Sample.runtime) (error : Sample.runtime.Value),
    (machine .sample onDestroyCall).Reachable m → m.rejected = some error →
    Reported .sample m error := by
  intro h
  have hrun : (machine .sample onDestroyCall).run (initial Sample.runtime)
      [.script .opened, .openSettled (.rejected (.object (.plain .emptyObject))) false false] =
    some _ := rfl
  obtain ⟨message, firstIcon, secondIcon, -, hdelivered⟩ :=
    (h _ _ (Machine.Reachable.run (.start rfl) hrun) rfl).delivered
  exact nomatch hdelivered

end Main

end AlmondAndroid.App
