import AlmondAndroid.Library.Mailbox
import AlmondAndroid.Bridge.Marshal

/-!
# Calls from JavaScript to Java

`callJavaSync` and `callJavaAsync`, the executor that runs the callbacks of the
asynchronous calls, and the way of a completion back to its promise: JNI
`completePromise`, the native queue, and `CompletePromise` on the node thread. A
call is known by its position among the calls made, and so is the promise it
makes. Promise ids and the callbacks table are those of the code.
-/

namespace AlmondAndroid.Bridge

open Library

section Data

variable (rt : Runtime)

inductive Outcome
  | returned (o : rt.Object)
  | threw (e : JavaThrowable)

/-- What the environment contributes to a call: the outcome of the callback, or
the throwable with which the executor refuses the task. -/
inductive Mode
  | sync (outcome : Outcome rt)
  | async (refusal : Option JavaThrowable)

/-- `callback` is what the name is registered to at the time of the call. -/
structure ApiCall where
  fn : U16String
  args : List rt.Value
  callback : Option Nat
  mode : Mode rt

structure Invocation where
  callback : Nat
  args : List rt.Object
  outcome : Outcome rt

structure Task where
  promiseId : Nat
  callback : Nat
  args : List rt.Object

/-- The arguments bound to `CompletePromise`. -/
structure Completion where
  promiseId : Nat
  errorMsg : Option U16String
  result : InteropValue

inductive ApiResult
  | returned (v : rt.Value)
  | threw (e : JSError)
  | promise

inductive PromiseResult
  | resolved (v : rt.Value)
  | rejected (e : JSError)

end Data

variable (rt : Runtime)

def noSuchFunction (fn : U16String) : JSError :=
  ⟨.typeError, u16 "no such function " ++ fn⟩

def failedToMarshal : JSError :=
  ⟨.typeError, u16 "failed to marshal return value"⟩

def exceptionToV8 (errorMsg : U16String) : JSError :=
  ⟨.error, errorMsg⟩

def javaExceptionToV8 (throwable : JavaThrowable) : Except Fault JSError :=
  (jstringToString throwable.message).map exceptionToV8

theorem javaExceptionToV8_of_message {e : JavaThrowable} {m : U16String}
    (hm : e.message = some m) : javaExceptionToV8 e = .ok (exceptionToV8 m) := by
  rw [javaExceptionToV8, hm]
  rfl

theorem javaExceptionToV8_of_null {e : JavaThrowable} (hm : e.message = none) :
    javaExceptionToV8 e = .error .nullString := by
  rw [javaExceptionToV8, hm]
  rfl

/-- The argument loop of `call_java_async` and `call_java_sync`: `none` when
`InitFromJS` returns false. -/
def scriptArguments : List rt.Value → Except Fault (Option (List InteropValue))
  | [] => .ok (some [])
  | v :: vs =>
      match initFromJS rt v with
      | .error f => .error f
      | .ok none => .ok none
      | .ok (some value) => (scriptArguments vs).map fun rest => rest.map (value :: ·)

def javaArguments (arguments : List InteropValue) : Except Fault (List rt.Object) :=
  match arguments.mapM (toJava rt) with
  | some objects => .ok objects
  | none => .error .pendingException

/-! ## The synchronous path -/

/-- The end of `InvokeSync`. An error is an exception thrown into the isolate. -/
def returnFromJava : Outcome rt → Except Fault (Except JSError InteropValue)
  | .threw e => (javaExceptionToV8 e).map .error
  | .returned o => (initFromJava rt false o).map fun
      | .accepted value => .ok value
      | .rejected _ => .error failedToMarshal

def invokeSync (fn : U16String) (callback : Option Nat) (arguments : List InteropValue)
    (outcome : Outcome rt) :
    Option (Invocation rt) × Except Fault (Except JSError InteropValue) :=
  match callback with
  | none => (none, .ok (.error (noSuchFunction fn)))
  | some callback =>
      match javaArguments rt arguments with
      | .error f => (none, .error f)
      | .ok args => (some ⟨callback, args, outcome⟩, returnFromJava rt outcome)

/-- Setting an empty handle as the return value leaves it undefined. -/
def setReturnValue : Except JSError InteropValue → Except Fault (ApiResult rt)
  | .error e => .ok (.threw e)
  | .ok .null => .ok (.returned .null)
  | .ok value => (toJavaScript rt value).map fun v => .returned (v.getD .undefined)

def callJavaSync (fn : U16String) (callback : Option Nat) (args : List rt.Value)
    (outcome : Outcome rt) : Option (Invocation rt) × Except Fault (ApiResult rt) :=
  match scriptArguments rt args with
  | .error f => (none, .error f)
  | .ok none => (none, .ok (.returned .undefined))
  | .ok (some arguments) =>
      let (invocation, value) := invokeSync rt fn callback arguments outcome
      (invocation, value.bind (setReturnValue rt))

/-! ## The state of the asynchronous path -/

/-- `callbacks` maps a promise id to the promise of the call that was given the
id, and `issued` a call to its id. The fields from `issued` on are histories, by
call; a fault is kept with the call that brought it about. -/
structure JavaInvoker where
  methods : U16String → Option Nat
  callbacks : Nat → Option Nat
  nextPromiseId : Nat
  executor : Nat → Option (Task rt)
  native : Mailbox Nat Completion
  calls : List (ApiCall rt)
  issued : Nat → Option Nat
  results : Nat → Option (ApiResult rt)
  settlements : Nat → List (PromiseResult rt)
  invocations : Nat → Option (Invocation rt)
  fault : Option (Nat × Fault)

namespace JavaInvoker

inductive Action
  | register (fn : U16String) (callback : Nat)
  | callJavaSync (fn : U16String) (args : List rt.Value) (outcome : Outcome rt)
  | callJavaAsync (fn : U16String) (args : List rt.Value) (refusal : Option JavaThrowable)
  | finish (call : Nat) (outcome : Outcome rt)
  | loop (turn : Mailbox.Turn)
  | completeNext

/-- The native queue is initialised before node starts. -/
def initial : JavaInvoker rt where
  methods _ := none
  callbacks _ := none
  nextPromiseId := 1
  executor _ := none
  native := Mailbox.closed.openUp
  calls := []
  issued _ := none
  results _ := none
  settlements _ := []
  invocations _ := none
  fault := none

variable {rt}

def enter (s : JavaInvoker rt) (call : ApiCall rt) : JavaInvoker rt :=
  { s with calls := s.calls ++ [call] }

def crash (s : JavaInvoker rt) (call : Nat) (f : Fault) : JavaInvoker rt :=
  { s with fault := some (call, f) }

def give (s : JavaInvoker rt) (call : Nat) (result : ApiResult rt) : JavaInvoker rt :=
  { s with results := Function.update s.results call (some result) }

def settle (s : JavaInvoker rt) (call : Nat) (result : PromiseResult rt) : JavaInvoker rt :=
  { s with settlements := Function.update s.settlements call (s.settlements call ++ [result]) }

def erase (s : JavaInvoker rt) (promiseId : Nat) : JavaInvoker rt :=
  { s with callbacks := Function.update s.callbacks promiseId none }

def callSync (s : JavaInvoker rt) (fn : U16String) (args : List rt.Value)
    (outcome : Outcome rt) : JavaInvoker rt :=
  let call := s.calls.length
  let (invocation, result) := callJavaSync rt fn (s.methods fn) args outcome
  let s := s.enter ⟨fn, args, s.methods fn, .sync outcome⟩
  let s := { s with invocations := Function.update s.invocations call invocation }
  match result with
  | .error f => s.crash call f
  | .ok result => s.give call result

/-- The new id is entered in the table before the executor gets the task. -/
def issue (s : JavaInvoker rt) (call : Nat) : JavaInvoker rt :=
  { s with
    nextPromiseId := s.nextPromiseId + 1
    callbacks := Function.update s.callbacks s.nextPromiseId (some call)
    issued := Function.update s.issued call (some s.nextPromiseId) }

def execute (s : JavaInvoker rt) (call : Nat) (task : Task rt) : JavaInvoker rt :=
  { s with executor := Function.update s.executor call (some task) }

/-- `InvokeAsync` when the executor throws: the promise is rejected at once, and
the id is no longer that of a call under way. -/
def refuse (s : JavaInvoker rt) (call promiseId : Nat) (e : JSError) : JavaInvoker rt :=
  { (s.settle call (.rejected e)).erase promiseId with
    issued := Function.update s.issued call none }

/-- `InvokeAsync` from the point where the arguments are Java objects. -/
def submit (s : JavaInvoker rt) (call callback : Nat) (args : List rt.Object) :
    Option JavaThrowable → JavaInvoker rt
  | none => ((s.issue call).execute call ⟨s.nextPromiseId, callback, args⟩).give call .promise
  | some exception =>
      match javaExceptionToV8 exception with
      | .error f => (s.issue call).crash call f
      | .ok e => ((s.issue call).refuse call s.nextPromiseId e).give call .promise

def invokeAsync (s : JavaInvoker rt) (call : Nat) (fn : U16String)
    (arguments : List InteropValue) (refusal : Option JavaThrowable) : JavaInvoker rt :=
  match s.methods fn with
  | none => (s.settle call (.rejected (noSuchFunction fn))).give call .promise
  | some callback =>
      match javaArguments rt arguments with
      | .error f => s.crash call f
      | .ok args => s.submit call callback args refusal

def callAsync (s : JavaInvoker rt) (fn : U16String) (args : List rt.Value)
    (refusal : Option JavaThrowable) : JavaInvoker rt :=
  let call := s.calls.length
  let s := s.enter ⟨fn, args, s.methods fn, .async refusal⟩
  match scriptArguments rt args with
  | .error f => s.crash call f
  | .ok none => s.give call (.returned .undefined)
  | .ok (some arguments) => s.invokeAsync call fn arguments refusal

/-! ## Completions -/

/-- JNI `completePromise`, on a thread of the executor. When the result cannot be
marshalled it returns with nothing enqueued, and the exception that it leaves
pending is thrown out of the task. -/
def launcherCompletePromise (s : JavaInvoker rt) (call promiseId : Nat) (result : rt.Object)
    (error : Option JavaThrowable) : Option (JavaInvoker rt) :=
  match error.mapM fun e => jstringToString e.message with
  | .error f => some (s.crash call f)
  | .ok errorMsg =>
      match initFromJava rt true result with
      | .error f => some (s.crash call f)
      | .ok (.rejected none) => some s
      | .ok (.rejected (some _)) => some (s.crash call .uncaught)
      | .ok (.accepted value) =>
          (s.native.offer call ⟨promiseId, errorMsg, value⟩).map fun native =>
            { s with native := native }

/-- The `Runnable` of `asyncCallback`: only an `Exception` is caught, and any other
throwable leaves the task, which ends the process. -/
def asyncCallback (s : JavaInvoker rt) (call promiseId : Nat) :
    Outcome rt → Option (JavaInvoker rt)
  | .returned res =>
      if promiseId = 0 then some s else s.launcherCompletePromise call promiseId res none
  | .threw e =>
      if e.isException then
        if promiseId = 0 then some s else s.launcherCompletePromise call promiseId .null (some e)
      else some (s.crash call .uncaught)

def finish (s : JavaInvoker rt) (call : Nat) (outcome : Outcome rt) : Option (JavaInvoker rt) :=
  match s.executor call with
  | none => none
  | some task =>
      { s with
        executor := Function.update s.executor call none
        invocations := Function.update s.invocations call
          (some ⟨task.callback, task.args, outcome⟩) }.asyncCallback call task.promiseId outcome

/-- `JavaInvoker::CompletePromise`, on the node thread. -/
def completePromise (s : JavaInvoker rt) (completion : Completion) : JavaInvoker rt :=
  match s.callbacks completion.promiseId with
  | none => s
  | some call =>
      match completion.errorMsg with
      | some errorMsg =>
          (s.erase completion.promiseId).settle call (.rejected (exceptionToV8 errorMsg))
      | none =>
          match toJavaScript rt completion.result with
          | .error f => (s.erase completion.promiseId).crash call f
          | .ok none => (s.erase completion.promiseId).crash call .emptyHandle
          | .ok (some v) => (s.erase completion.promiseId).settle call (.resolved v)

def completeNext (s : JavaInvoker rt) : Option (JavaInvoker rt) :=
  match s.native.handOver with
  | none => none
  | some (completion, native) => some ({ s with native := native }.completePromise completion)

def step (s : JavaInvoker rt) (a : Action rt) : Option (JavaInvoker rt) :=
  match s.fault with
  | some _ => none
  | none =>
    match a with
    | .register fn callback =>
        some { s with methods := Function.update s.methods fn (some callback) }
    | .callJavaSync fn args outcome => some (s.callSync fn args outcome)
    | .callJavaAsync fn args refusal => some (s.callAsync fn args refusal)
    | .finish call outcome => s.finish call outcome
    | .loop turn => (s.native.turn turn).map fun native => { s with native := native }
    | .completeNext => s.completeNext

variable (rt) in
def machine : Machine (JavaInvoker rt) (Action rt) where
  Init s := s = initial rt
  step := step

end JavaInvoker

end AlmondAndroid.Bridge
