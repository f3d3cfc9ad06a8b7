import AlmondAndroid.Bridge.Marshal

/-!
# Calls from Java packaged for the node thread

`PackagedNodeCall::Invoke` and the four ways it can answer: `SetReturn`,
`SetException` and the two reactions it attaches to a returned native promise.
Completing a `std::promise` is an `Answer`.
-/

namespace AlmondAndroid.Bridge

inductive Answer
  | value (v : InteropValue)
  | jsException (message : U16String)
  | invalidArgument (what : U16String)
  deriving DecidableEq

/-- Which entry point packaged the call. The code does not store it. -/
inductive Origin
  | async
  | sync
  deriving DecidableEq

structure PackagedNodeCall where
  fn : U16String
  args : List InteropValue
  useReturn : Bool
  origin : Origin
  deriving DecidableEq

/-- What a reaction or a setter does to the `std::promise` of its call. -/
inductive Effect
  | nothing
  | answer (a : Answer)
  | log (message : U16String)
  deriving DecidableEq

inductive Settlement (Obj : Type)
  | fulfilled (v : JSValue Obj)
  | rejected (v : JSValue Obj)

/-- The outcome of `MakeCallback`. Native promises are known by a number. -/
inductive CallbackResult (Obj : Type)
  | threw (v : JSValue Obj)
  | returned (v : JSValue Obj)
  | promise (p : Nat)

/-- The reactions attached to a native promise: `holder` tells whether the
internal field points to a `std::promise`, `hasThen` whether `Then` was called. -/
structure Attachment where
  promise : Nat
  holder : Bool
  hasThen : Bool
  deriving DecidableEq

inductive Invoked
  | done (e : Effect)
  | attached (a : Attachment)
  deriving DecidableEq

def cannotBeMarshalled : U16String := u16 "argument cannot be marshalled"

def lostException (message : U16String) : U16String := u16 "Lost exception " ++ message

variable (rt : Runtime)

/-- The common end of `SetReturn` and `then_promise`. -/
def marshalAnswer (value : rt.Value) : Except Fault Answer :=
  (initFromJS rt value).map fun ret =>
    match ret with
    | some v => .value v
    | none => .invalidArgument cannotBeMarshalled

/-- `then_promise`, with the internal field it leaves behind. -/
def thenPromise (holder : Bool) (info : List rt.Value) : Except Fault (Effect × Bool) :=
  let value := info.head?.getD .undefined
  if holder then (marshalAnswer rt value).map fun a => (.answer a, false)
  else .ok (.nothing, holder)

def catchPromise (holder : Bool) (info : List rt.Value) : Effect × Bool :=
  match info with
  | [] => (.nothing, holder)
  | value :: _ =>
      if holder then (.answer (.jsException (rt.toDetailString value)), false)
      else (.log (lostException (rt.toDetailString value)), holder)

/-- `Then(then)->Catch(_catch)`: the second reaction sees the rejections that
the first one lets through. -/
def Attachment.react (a : Attachment) : Settlement rt.Obj → Except Fault Effect
  | .fulfilled v =>
      if a.hasThen then (thenPromise rt a.holder [v]).map Prod.fst
      else .ok .nothing
  | .rejected v => .ok (catchPromise rt a.holder [v]).1

namespace PackagedNodeCall

def new (fn : U16String) (args : List InteropValue) (origin : Origin) : PackagedNodeCall :=
  ⟨fn, args, false, origin⟩

def getReturnValue (call : PackagedNodeCall) : PackagedNodeCall :=
  { call with useReturn := true }

def argumentsToJS (call : PackagedNodeCall) : Except Fault (List (Option rt.Value)) :=
  call.args.mapM (toJavaScript rt)

def setReturn (call : PackagedNodeCall) (value : rt.Value) : Except Fault Effect :=
  if call.useReturn then (marshalAnswer rt value).map .answer
  else .ok .nothing

def setException (call : PackagedNodeCall) (value : rt.Value) : Effect :=
  let message := rt.toDetailString value
  if call.useReturn then .answer (.jsException message)
  else .log (lostException message)

/-- `result` is what the receiver does once the arguments have been converted. -/
def invoke (call : PackagedNodeCall) (result : CallbackResult rt.Obj) : Except Fault Invoked :=
  (call.argumentsToJS rt).bind fun _ =>
    match result with
    | .threw v => .ok (.done (call.setException rt v))
    | .promise p => .ok (.attached ⟨p, call.useReturn, call.useReturn⟩)
    | .returned v => (call.setReturn rt v).map .done

end PackagedNodeCall

/-! ## The answer a caller is owed -/

def represent : rt.Value → Option InteropValue
  | .undefined => some .null
  | .null => some .null
  | .boolean b => some (.boolean b)
  | .number n => some (.number n)
  | .string s => some (.string s)
  | .symbol _ => none
  | .view kind bytes =>
      if rt.hasInstance kind then some (.buffer bytes)
      else match rt.stringify (.view kind bytes) with
        | .text t => some (.json t)
        | _ => none
  | .object o =>
      match rt.stringify (.object o) with
      | .text t => some (.json t)
      | _ => none

def owedAnswer (v : rt.Value) : Answer :=
  match represent rt v with
  | some value => .value value
  | none => .invalidArgument cannotBeMarshalled

def HasText : rt.Value → Prop
  | .view kind bytes => rt.hasInstance kind = true ∨ ∃ t, rt.stringify (.view kind bytes) = .text t
  | .object o => ∃ t, rt.stringify (.object o) = .text t
  | _ => True

variable {rt}

theorem marshalAnswer_eq_owedAnswer_of_stringify {v : rt.Value}
    (hinit : initFromJS rt v = (stringifyToString rt v).map fun t => some (.json t))
    (howed : represent rt v = match rt.stringify v with
      | .text t => some (.json t)
      | _ => none) :
    marshalAnswer rt v = .ok (owedAnswer rt v) ↔ ∃ t, rt.stringify v = .text t := by
  rw [marshalAnswer, owedAnswer]
  rw [hinit, howed]
  rw [stringifyToString]
  cases rt.stringify v <;> simp [Except.map]

theorem marshalAnswer_eq_owedAnswer_iff (v : rt.Value) :
    marshalAnswer rt v = .ok (owedAnswer rt v) ↔ HasText rt v := by
  cases v with
  | object o => exact marshalAnswer_eq_owedAnswer_of_stringify rfl rfl
  | view kind bytes =>
    by_cases hinst : rt.hasInstance kind = true
    · simp [marshalAnswer, owedAnswer, represent, initFromJS, HasText, hinst, Except.map]
    · rw [marshalAnswer_eq_owedAnswer_of_stringify (by simp [initFromJS, hinst])
        (by simp only [represent, hinst]; rfl)]
      simp [HasText, hinst]
  | _ => exact iff_of_true rfl trivial

end AlmondAndroid.Bridge
