import AlmondAndroid.Library.Machine

/-!
# Interactions with the user

A thread of the engine puts an `InteractionState` into a map under its request code,
posts a message to the main thread and waits. The main thread starts the interaction
if an activity is attached, and the result comes back by request code only.

Requests are numbered in the order of their calls, and each has the state that its
call allocates. `interaction` says what became of the message that the request posted.
-/

namespace AlmondAndroid.Ui

open Library

inductive Api
  | resolveResult
  | startActivity
  | requestPermission
  deriving DecidableEq

structure InteractionState where
  interacting : Bool
  interacted : Bool
  deriving DecidableEq

def InteractionState.new : InteractionState := ⟨true, false⟩

def InteractionState.complete (result : Bool) : InteractionState := ⟨false, result⟩

/-- Where the calling thread is: before `put`, before `sendToTarget`, in `get`, or back. -/
inductive Thread
  | putting
  | sending
  | waiting
  | returned (result : Bool)
  deriving DecidableEq

inductive Interaction
  | notPosted
  | posted
  | started
  | answered (result : Bool)
  | dropped
  deriving DecidableEq

structure Request where
  api : Api
  requestCode : Int
  thread : Thread
  state : InteractionState
  interaction : Interaction
  deriving DecidableEq

structure Message where
  what : Api
  requestCode : Int
  sender : Nat
  deriving DecidableEq

/-- A call of `onActivityResult` or `onRequestPermissionsResult`. -/
inductive Delivery
  | activityResult (resultCode : Int)
  | permissionsResult (grantResults : List Int)

def resultOk : Int := -1

def permissionGranted : Int := 0

def granted : List Int → Bool
  | [] => true
  | grantResult :: grantResults =>
      if grantResult ≠ permissionGranted then false else granted grantResults

def Delivery.result : Delivery → Bool
  | activityResult resultCode => resultCode = resultOk
  | permissionsResult grantResults => granted grantResults

/-- The main activity forwards the answers to the interactions it started for a
request to the callback of the API that the request was made with. -/
def Delivery.Answers : Delivery → Api → Prop
  | activityResult _, .resolveResult => True
  | activityResult _, .startActivity => True
  | permissionsResult _, .requestPermission => True
  | _, _ => False

instance : ∀ delivery api, Decidable (Delivery.Answers delivery api)
  | .activityResult _, .resolveResult => inferInstanceAs (Decidable True)
  | .activityResult _, .startActivity => inferInstanceAs (Decidable True)
  | .activityResult _, .requestPermission => inferInstanceAs (Decidable False)
  | .permissionsResult _, .resolveResult => inferInstanceAs (Decidable False)
  | .permissionsResult _, .startActivity => inferInstanceAs (Decidable False)
  | .permissionsResult _, .requestPermission => inferInstanceAs (Decidable True)

/-- `attached` tells whether `parent` is not null. -/
structure MainServiceConnection where
  attached : Bool
  interacting : Int → Option Nat
  calls : Nat
  requests : Nat → Option Request
  messages : List Message

/-- What the main thread finds when it handles a message: the connection may have been
collected, and `startResolutionForResult` may throw. -/
structure Handling where
  collected : Bool
  throws : Bool

namespace MainServiceConnection

/-- `ownResult` is the result of an interaction that the activity started for itself
and forwards all the same. -/
inductive Action
  | call (api : Api) (requestCode : Int)
  | put (r : Nat)
  | send (r : Nat)
  | get (r : Nat)
  | start
  | stop
  | handleMessage (handling : Handling)
  | answer (r : Nat) (delivery : Delivery)
  | ownResult (requestCode : Int) (delivery : Delivery)

def initial : MainServiceConnection where
  attached := false
  interacting _ := none
  calls := 0
  requests _ := none
  messages := []

def setRequest (s : MainServiceConnection) (r : Nat) (request : Request) :
    MainServiceConnection :=
  { s with requests := Function.update s.requests r (some request) }

def complete (s : MainServiceConnection) (r : Nat) (result : Bool) : MainServiceConnection :=
  match s.requests r with
  | none => s
  | some request => s.setRequest r { request with state := .complete result }

def become (s : MainServiceConnection) (r : Nat) (interaction : Interaction) :
    MainServiceConnection :=
  match s.requests r with
  | none => s
  | some request => s.setRequest r { request with interaction := interaction }

/-- The three handlers, which differ in that only one of them catches an exception. -/
def interact (s : MainServiceConnection) (message : Message) (throws : Bool) :
    MainServiceConnection :=
  match s.interacting message.requestCode with
  | none => s.become message.sender .dropped
  | some state =>
      if s.attached = false ∨ throws = true then
        (s.complete state false).become message.sender (.answered false)
      else s.become message.sender .started

def doResolveResult (s : MainServiceConnection) (message : Message) (throws : Bool) :
    MainServiceConnection :=
  s.interact message throws

def doStartActivity (s : MainServiceConnection) (message : Message) : MainServiceConnection :=
  s.interact message false

def doRequestPermission (s : MainServiceConnection) (message : Message) :
    MainServiceConnection :=
  s.interact message false

def handleMessage (s : MainServiceConnection) (message : Message) (handling : Handling) :
    MainServiceConnection :=
  if handling.collected then s.become message.sender .dropped
  else
    match message.what with
    | .resolveResult => s.doResolveResult message handling.throws
    | .startActivity => s.doStartActivity message
    | .requestPermission => s.doRequestPermission message

def onResult (s : MainServiceConnection) (requestCode : Int) (result : Bool) :
    MainServiceConnection :=
  match s.interacting requestCode with
  | none => s
  | some state =>
      { s with interacting := Function.update s.interacting requestCode none }.complete
        state result

def step (s : MainServiceConnection) : Action → Option MainServiceConnection
  | .call api requestCode =>
      some { s.setRequest s.calls ⟨api, requestCode, .putting, .new, .notPosted⟩ with
        calls := s.calls + 1 }
  | .put r =>
      match s.requests r with
      | some ⟨api, requestCode, .putting, state, interaction⟩ =>
          some { s.setRequest r ⟨api, requestCode, .sending, state, interaction⟩ with
            interacting := Function.update s.interacting requestCode (some r) }
      | _ => none
  | .send r =>
      match s.requests r with
      | some ⟨api, requestCode, .sending, state, _⟩ =>
          some { s.setRequest r ⟨api, requestCode, .waiting, state, .posted⟩ with
            messages := s.messages ++ [⟨api, requestCode, r⟩] }
      | _ => none
  | .get r =>
      match s.requests r with
      | some ⟨api, requestCode, .waiting, ⟨false, interacted⟩, interaction⟩ =>
          some (s.setRequest r
            ⟨api, requestCode, .returned interacted, ⟨false, interacted⟩, interaction⟩)
      | _ => none
  | .start => some { s with attached := true }
  | .stop => some { s with attached := false }
  | .handleMessage handling =>
      match s.messages with
      | [] => none
      | message :: messages =>
          some ({ s with messages := messages }.handleMessage message handling)
  | .answer r delivery =>
      match s.requests r with
      | some ⟨api, requestCode, thread, state, .started⟩ =>
          if delivery.Answers api then
            some ((s.setRequest r
              ⟨api, requestCode, thread, state, .answered delivery.result⟩).onResult
                requestCode delivery.result)
          else none
      | _ => none
  | .ownResult requestCode delivery => some (s.onResult requestCode delivery.result)

def machine : Machine MainServiceConnection Action where
  Init s := s = initial
  step := step

/-! ## What is expected of the answers -/

end MainServiceConnection

/-- The thread waits in `get` for its state to be completed. -/
def Request.IsBlocked (request : Request) : Prop :=
  request.thread = .waiting ∧ request.state.interacting = true

def Request.IsReturned (request : Request) : Prop :=
  ∃ result, request.thread = .returned result

namespace MainServiceConnection

/-- Every blocked thread is still in the map, so that the result of its interaction
completes it, and every thread that is back got the result of its own request. -/
structure AnswersKept (s : MainServiceConnection) : Prop where
  registered : ∀ r request, s.requests r = some request → request.IsBlocked →
    s.interacting request.requestCode = some r
  completes : ∀ r request (delivery : Delivery), s.requests r = some request →
    request.IsBlocked → request.interaction = .started → delivery.Answers request.api →
    ∃ t, machine.run s [.answer r delivery, .get r] = some t ∧
      (t.requests r).map Request.thread = some (.returned delivery.result)
  own : ∀ r request result, s.requests r = some request →
    request.thread = .returned result → request.interaction = .answered result

/-- A request is not put under the code of one that has no answer yet, and a result of
the activity's own does not arrive under the code of one that still needs its answer. -/
def CodesApart (s : MainServiceConnection) : Action → Prop
  | .put r => ∀ request, s.requests r = some request → ∀ r' request',
      s.requests r' = some request' → request'.requestCode = request.requestCode →
      request'.thread ≠ .putting → request'.state.interacting = false
  | .ownResult requestCode delivery => ∀ r request,
      s.interacting requestCode = some r → s.requests r = some request →
      request.state.interacting = false ∧
        (request.IsReturned ∨ request.state.interacted = delivery.result)
  | _ => True

end MainServiceConnection

end AlmondAndroid.Ui
