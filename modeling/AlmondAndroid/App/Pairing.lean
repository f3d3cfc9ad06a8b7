import AlmondAndroid.Library.Machine
import AlmondAndroid.Library.Table
import AlmondAndroid.Bridge.Values

/-!
# Pairing Bluetooth devices

The calls of `BluetoothAPI.pairDevice` wait in one monitor for the changes of the bond state,
which reach `onDeviceChanged` as broadcasts. A call is told of a change through the entry of
the map `pairing` under the address as the caller has spelled it. The first call to return
takes the entry away.
-/

namespace AlmondAndroid.App

open Library Bridge

universe u

variable {Device : Type u}

inductive BondState
  | none
  | bonding
  | bonded
  deriving DecidableEq

/-- `getRemoteDevice` is called with an address in upper case and throws if it is none;
`hwAddress` is the address of a device in lower case. -/
structure BluetoothAdapter (Device : Type u) where
  present : Bool
  getRemoteDevice : U16String → Option Device
  hwAddress : Device → U16String
  getRemoteDevice_hwAddress : ∀ d, getRemoteDevice (hwAddress d) = some d

/-- Where a call is: before `getBondState` and before `synchronized`, then in the loop
before `containsKey`, `createBond` and the two calls of `getBondState`. -/
inductive PairStage
  | calling
  | entering
  | looping
  | creating
  | testing
  | retesting
  | waiting
  | woken
  | returned
  | cancelled
  deriving DecidableEq

namespace PairStage

def holdsLock : PairStage → Bool
  | looping => true
  | creating => true
  | testing => true
  | retesting => true
  | _ => false

def entered (stage : PairStage) : Bool := stage.holdsLock || stage = waiting || stage = woken

def seeksKey : PairStage → Bool
  | entering => true
  | looping => true
  | woken => true
  | _ => false

def hasKey : PairStage → Bool
  | creating => true
  | testing => true
  | retesting => true
  | waiting => true
  | _ => false

def message : PairStage → Option U16String
  | cancelled => some (u16 "User cancelled bonding")
  | _ => none

end PairStage

structure PairCall (Device : Type u) where
  address : U16String
  device : Device
  stage : PairStage

/-- `bonds` are the bond states that `createBond` has been called in. -/
structure Pairing (Device : Type u) where
  bondState : Device → BondState
  broadcasts : List Device
  pairing : U16String → Option Device
  lock : Option Nat
  calls : Nat → Option (PairCall Device)
  bonds : List BondState

namespace Pairing

inductive Action (Device : Type u)
  | pairDevice (i : Nat) (address : U16String)
  | getBondState (i : Nat)
  | acquire (i : Nat)
  | containsKey (i : Nat)
  | createBond (i : Nat) (begins : Bool)
  | wakeUp (i : Nat)
  | bondStateChanged (d : Device) (b : BondState)
  | nameChanged (d : Device)
  | onDeviceChanged (named : Bool)

def initial (bondState : Device → BondState) : Pairing Device :=
  ⟨bondState, [], fun _ => none, none, fun _ => none, []⟩

def setCall (s : Pairing Device) (i : Nat) (call : PairCall Device) : Pairing Device :=
  { s with calls := Function.update s.calls i (some call) }

def wait (s : Pairing Device) (i : Nat) (call : PairCall Device) : Pairing Device :=
  { s.setCall i { call with stage := .waiting } with lock := none }

def leave (s : Pairing Device) (i : Nat) (call : PairCall Device) (stage : PairStage) :
    Pairing Device :=
  { s.setCall i { call with stage := stage } with
    pairing := Function.update s.pairing call.address none
    lock := none }

section

variable [DecidableEq Device]

/-- Every change of a bond state is broadcast. -/
def changeBond (s : Pairing Device) (d : Device) (b : BondState) : Pairing Device :=
  { s with bondState := Function.update s.bondState d b, broadcasts := s.broadcasts ++ [d] }

def notified (call : PairCall Device) : PairCall Device :=
  { call with stage := if call.stage = .waiting then .woken else call.stage }

def notifyAll (s : Pairing Device) : Pairing Device :=
  { s with calls := fun i => (s.calls i).map notified }

def deviceChanged (ad : BluetoothAdapter Device) (s : Pairing Device) (d : Device) :
    Pairing Device :=
  match s.pairing (ad.hwAddress d) with
  | some _ =>
      notifyAll { s with pairing := Function.update s.pairing (ad.hwAddress d) (some d) }
  | none => s

/-- A call of `createBond` that begins to bond has done so when it returns. -/
def createBond (s : Pairing Device) (i : Nat) (call : PairCall Device) (begins : Bool) :
    Option (Pairing Device) :=
  let called := { s with bonds := s.bonds ++ [s.bondState call.device] }
  if begins then
    if s.bondState call.device = .none then
      some ((called.changeBond call.device .bonding).wait i call)
    else none
  else some (called.wait i call)

def getBondState (s : Pairing Device) (i : Nat) (call : PairCall Device) :
    Option (Pairing Device) :=
  match call.stage with
  | .calling =>
      if s.bondState call.device = .bonded then some (s.setCall i { call with stage := .returned })
      else some (s.setCall i { call with stage := .entering })
  | .testing =>
      if s.bondState call.device = .bonded then some (s.leave i call .returned)
      else some (s.setCall i { call with stage := .retesting })
  | .retesting =>
      if s.bondState call.device = .bonding then some (s.wait i call)
      else some (s.leave i call .cancelled)
  | _ => none

def acquire (s : Pairing Device) (i : Nat) (call : PairCall Device) : Option (Pairing Device) :=
  if s.lock = none ∧ (call.stage = .entering ∨ call.stage = .woken) then
    some { s.setCall i { call with stage := .looping } with lock := some i }
  else none

def containsKey (s : Pairing Device) (i : Nat) (call : PairCall Device) : Pairing Device :=
  match s.pairing call.address with
  | none =>
      { s.setCall i { call with stage := .creating } with
        pairing := Function.update s.pairing call.address (some call.device) }
  | some d => s.setCall i { call with device := d, stage := .testing }

/-- A call that throws before it has a device leaves nothing. -/
def pairDevice (ad : BluetoothAdapter Device) (s : Pairing Device) (i : Nat)
    (address : U16String) : Pairing Device :=
  if ad.present then
    match ad.getRemoteDevice address with
    | some d => s.setCall i ⟨address, d, .calling⟩
    | none => s
  else s

/-- Threads may wake up without being notified, and `notifyAll` is also called for those
that read UUIDs. -/
def step (ad : BluetoothAdapter Device) (s : Pairing Device) :
    Action Device → Option (Pairing Device)
  | .pairDevice i address =>
      match s.calls i with
      | none => some (s.pairDevice ad i address)
      | some _ => none
  | .getBondState i => (s.calls i).bind fun call => s.getBondState i call
  | .acquire i => (s.calls i).bind fun call => s.acquire i call
  | .containsKey i =>
      (s.calls i).bind fun call =>
        if call.stage = .looping then some (s.containsKey i call) else none
  | .createBond i begins =>
      (s.calls i).bind fun call =>
        if call.stage = .creating then s.createBond i call begins else none
  | .wakeUp i =>
      (s.calls i).bind fun call =>
        if call.stage = .waiting then some (s.setCall i { call with stage := .woken }) else none
  | .bondStateChanged d b => if s.bondState d = b then none else some (s.changeBond d b)
  | .nameChanged d => some { s with broadcasts := s.broadcasts ++ [d] }
  | .onDeviceChanged named =>
      match s.broadcasts with
      | [] => none
      | d :: rest =>
          if named then
            if s.lock = none then some (deviceChanged ad { s with broadcasts := rest } d) else none
          else some { s with broadcasts := rest }

def machine (ad : BluetoothAdapter Device) : Machine (Pairing Device) (Action Device) where
  Init s := ∃ bondState, s = initial bondState
  step := step ad

/-! ## What a step does -/

def Leaves (s : Pairing Device) (call : PairCall Device) : Prop :=
  (call.stage = .testing ∧ s.bondState call.device = .bonded) ∨
    (call.stage = .retesting ∧ s.bondState call.device ≠ .bonding)

inductive Does (ad : BluetoothAdapter Device) (s : Pairing Device) :
    Action Device → Pairing Device → Prop
  | refused {i : Nat} {address : U16String} : Does ad s (.pairDevice i address) s
  | began {i : Nat} {address : U16String} {d : Device} : s.calls i = none →
      ad.getRemoteDevice address = some d →
      Does ad s (.pairDevice i address) (s.setCall i ⟨address, d, .calling⟩)
  | paired {i : Nat} {call : PairCall Device} : s.calls i = some call →
      Does ad s (.getBondState i) (s.setCall i { call with stage := .returned })
  | passed {i : Nat} {call : PairCall Device} : s.calls i = some call →
      s.bondState call.device ≠ .bonded →
      Does ad s (.getBondState i) (s.setCall i { call with stage := .entering })
  | tested {i : Nat} {call : PairCall Device} : s.calls i = some call → call.stage = .testing →
      Does ad s (.getBondState i) (s.setCall i { call with stage := .retesting })
  | rested {i : Nat} {call : PairCall Device} : s.calls i = some call →
      call.stage = .retesting → s.bondState call.device = .bonding →
      Does ad s (.getBondState i) (s.wait i call)
  | left {i : Nat} {call : PairCall Device} {stage : PairStage} : s.calls i = some call →
      s.Leaves call → stage = .returned ∨ stage = .cancelled →
      Does ad s (.getBondState i) (s.leave i call stage)
  | acquired {i : Nat} {call : PairCall Device} : s.calls i = some call → s.lock = none →
      call.stage = .entering ∨ call.stage = .woken →
      Does ad s (.acquire i) { s.setCall i { call with stage := .looping } with lock := some i }
  | put {i : Nat} {call : PairCall Device} : s.calls i = some call → call.stage = .looping →
      s.pairing call.address = none →
      Does ad s (.containsKey i) { s.setCall i { call with stage := .creating } with
        pairing := Function.update s.pairing call.address (some call.device) }
  | found {i : Nat} {call : PairCall Device} {d : Device} : s.calls i = some call →
      call.stage = .looping → s.pairing call.address = some d →
      Does ad s (.containsKey i) (s.setCall i { call with device := d, stage := .testing })
  | created {i : Nat} {call : PairCall Device} : s.calls i = some call →
      call.stage = .creating →
      Does ad s (.createBond i true)
        (({ s with bonds := s.bonds ++ [s.bondState call.device] }.changeBond call.device
          .bonding).wait i call)
  | notCreated {i : Nat} {call : PairCall Device} : s.calls i = some call →
      call.stage = .creating →
      Does ad s (.createBond i false)
        ({ s with bonds := s.bonds ++ [s.bondState call.device] }.wait i call)
  | wokeUp {i : Nat} {call : PairCall Device} : s.calls i = some call → call.stage = .waiting →
      Does ad s (.wakeUp i) (s.setCall i { call with stage := .woken })
  | changed {d : Device} {b : BondState} : Does ad s (.bondStateChanged d b) (s.changeBond d b)
  | renamed {d : Device} :
      Does ad s (.nameChanged d) { s with broadcasts := s.broadcasts ++ [d] }
  | dropped {d : Device} {rest : List Device} : s.broadcasts = d :: rest →
      Does ad s (.onDeviceChanged false) { s with broadcasts := rest }
  | ignored {d : Device} {rest : List Device} : s.broadcasts = d :: rest →
      s.pairing (ad.hwAddress d) = none →
      Does ad s (.onDeviceChanged true) { s with broadcasts := rest }
  | told {d : Device} {rest : List Device} : s.broadcasts = d :: rest →
      s.pairing (ad.hwAddress d) ≠ none →
      Does ad s (.onDeviceChanged true)
        (notifyAll { s with
          broadcasts := rest
          pairing := Function.update s.pairing (ad.hwAddress d) (some d) })

theorem getBondState_does (ad : BluetoothAdapter Device) {s t : Pairing Device} {i : Nat}
    {call : PairCall Device} (hcall : s.calls i = some call)
    (h : s.getBondState i call = some t) : Does ad s (.getBondState i) t := by
  unfold getBondState at h
  split at h
  case h_1 hstage =>
    split at h
    · cases h
      exact .paired hcall
    · rename_i hbonded
      cases h
      exact .passed hcall hbonded
  case h_2 hstage =>
    split at h
    · rename_i hbonded
      cases h
      exact .left hcall (.inl ⟨hstage, hbonded⟩) (.inl rfl)
    · cases h
      exact .tested hcall hstage
  case h_3 hstage =>
    split at h
    · rename_i hbonding
      cases h
      exact .rested hcall hstage hbonding
    · rename_i hbonding
      cases h
      exact .left hcall (.inr ⟨hstage, hbonding⟩) (.inr rfl)
  case h_4 => cases h

theorem step_does {ad : BluetoothAdapter Device} {s t : Pairing Device} {a : Action Device}
    (h : step ad s a = some t) : Does ad s a t := by
  unfold step at h
  split at h
  case h_1 i address =>
    split at h
    · rename_i hnone
      cases h
      unfold pairDevice
      split
      · split
        · rename_i d hd
          exact .began hnone hd
        · exact .refused
      · exact .refused
    · cases h
  case h_2 i =>
    obtain ⟨call, hcall, h⟩ := Option.bind_eq_some_iff.mp h
    exact getBondState_does ad hcall h
  case h_3 i =>
    obtain ⟨call, hcall, h⟩ := Option.bind_eq_some_iff.mp h
    unfold acquire at h
    split at h
    · rename_i hcan
      cases h
      exact .acquired hcall hcan.1 hcan.2
    · cases h
  case h_4 i =>
    obtain ⟨call, hcall, h⟩ := Option.bind_eq_some_iff.mp h
    split at h
    · rename_i hstage
      cases h
      unfold containsKey
      split
      · rename_i hnone
        exact .put hcall hstage hnone
      · rename_i d hd
        exact .found hcall hstage hd
    · cases h
  case h_5 i begins =>
    obtain ⟨call, hcall, h⟩ := Option.bind_eq_some_iff.mp h
    split at h
    · rename_i hstage
      unfold createBond at h
      dsimp only at h
      split at h
      · rename_i hbegins
        split at h
        · cases h
          rw [hbegins]
          exact .created hcall hstage
        · cases h
      · rename_i hbegins
        cases h
        rw [Bool.not_eq_true _ |>.mp hbegins]
        exact .notCreated hcall hstage
    · cases h
  case h_6 i =>
    obtain ⟨call, hcall, h⟩ := Option.bind_eq_some_iff.mp h
    split at h
    · rename_i hstage
      cases h
      exact .wokeUp hcall hstage
    · cases h
  case h_7 d b =>
    split at h
    · cases h
    · cases h
      exact .changed
  case h_8 d =>
    cases h
    exact .renamed
  case h_9 named =>
    split at h
    · cases h
    · rename_i d rest hbroadcasts
      split at h
      · rename_i hnamed
        rw [hnamed]
        split at h
        · cases h
          unfold deviceChanged
          split
          · rename_i x hx
            exact .told hbroadcasts (by rw [hx]; exact Option.some_ne_none _)
          · rename_i hnone
            exact .ignored hbroadcasts hnone
        · cases h
      · rename_i hnamed
        cases h
        rw [Bool.not_eq_true _ |>.mp hnamed]
        exact .dropped hbroadcasts

end

/-! ## No event is missed -/

/-- A call that waits will be told of the end of the bonding, and nothing is asked of a
device that is bonded. -/
structure NeverMisses (s : Pairing Device) : Prop where
  told : ∀ i call, s.calls i = some call → call.stage = .waiting →
    s.bondState call.device = .bonding ∨ call.device ∈ s.broadcasts
  unbonded : ∀ b ∈ s.bonds, b ≠ .bonded

/-- The call has not found the device bonded and is going to call `createBond`. -/
def Unbound (s : Pairing Device) (call : PairCall Device) : Prop :=
  call.stage = .creating ∨ (call.stage.seeksKey = true ∧ s.pairing call.address = none)

/-- A call enters with the address that the events use. When it leaves, no other with its
address waits, and none is to look for the key if the device is bonded. `createBond` begins to
bond unless the device does so already or is still to be broadcast. The device is not bonded
by others before. The last broadcast that a call waits for comes with a name. -/
def Guard (ad : BluetoothAdapter Device) (s : Pairing Device) : Action Device → Prop
  | .acquire i => ∀ call, s.calls i = some call → call.stage = .entering →
      call.address = ad.hwAddress call.device
  | .getBondState i => ∀ call, s.calls i = some call → s.Leaves call →
      ∀ j other, j ≠ i → s.calls j = some other → other.address = call.address →
        other.stage ≠ .waiting ∧
          (other.stage.seeksKey = true → s.bondState call.device ≠ .bonded)
  | .createBond i begins => begins = true ∨
      ∀ call, s.calls i = some call →
        s.bondState call.device = .bonding ∨ call.device ∈ s.broadcasts
  | .bondStateChanged d b => b = .bonded →
      ∀ i call, s.calls i = some call → call.device = d → ¬ s.Unbound call
  | .onDeviceChanged named => named = true ∨
      ∀ i call, s.calls i = some call → call.stage = .waiting →
        s.broadcasts.head? = some call.device →
          s.bondState call.device = .bonding ∨ call.device ∈ s.broadcasts.tail
  | _ => True

structure CallOk (ad : BluetoothAdapter Device) (s : Pairing Device) (i : Nat)
    (call : PairCall Device) : Prop where
  remote : ad.getRemoteDevice call.address = some call.device
  lowered : call.stage.entered = true → call.address = ad.hwAddress call.device
  owner : call.stage.holdsLock = true → s.lock = some i
  keyed : call.stage.hasKey = true → s.pairing call.address ≠ none
  unbonded : s.Unbound call → s.bondState call.device ≠ .bonded
  covered : call.stage = .waiting →
    s.bondState call.device = .bonding ∨ call.device ∈ s.broadcasts

structure Inv (ad : BluetoothAdapter Device) (s : Pairing Device) : Prop where
  keys : ∀ k d, s.pairing k = some d → ad.getRemoteDevice k = some d
  calls : ∀ i call, s.calls i = some call → CallOk ad s i call
  bonds : ∀ b ∈ s.bonds, b ≠ .bonded

section

variable {ad : BluetoothAdapter Device} {s t : Pairing Device} {i j : Nat}
  {call other new : PairCall Device}

theorem entered_of_holdsLock {stage : PairStage} (h : stage.holdsLock = true) :
    stage.entered = true := by
  rw [PairStage.entered, h]
  rfl

theorem entered_of_hasKey {stage : PairStage} (h : stage.hasKey = true) :
    stage.entered = true := by
  cases stage with
  | creating => rfl
  | testing => rfl
  | retesting => rfl
  | waiting => rfl
  | _ => cases h

/-- The call that holds the lock is the only one with a key that does not wait. -/
theorem waiting_of_hasKey {stage : PairStage} (h : stage.hasKey = true)
    (hlock : stage.holdsLock = false) : stage = .waiting := by
  cases stage with
  | waiting => rfl
  | creating => cases hlock
  | testing => cases hlock
  | retesting => cases hlock
  | _ => cases h

theorem not_unbound_of_stage (h : call.stage ≠ .creating) (hseeks : call.stage.seeksKey = false) :
    ¬ s.Unbound call := by
  rintro (hstage | ⟨hstage, -⟩)
  · exact h hstage
  · rw [hseeks] at hstage
    cases hstage

theorem CallOk.outside (hremote : ad.getRemoteDevice call.address = some call.device)
    (hout : call.stage.entered = false)
    (hbond : s.Unbound call → s.bondState call.device ≠ .bonded) : CallOk ad s i call where
  remote := hremote
  lowered hentered := by
    rw [hout] at hentered
    cases hentered
  owner hholds := by
    rw [entered_of_holdsLock hholds] at hout
    cases hout
  keyed hkey := by
    rw [entered_of_hasKey hkey] at hout
    cases hout
  unbonded := hbond
  covered hstage := by
    rw [hstage] at hout
    cases hout

theorem Inv.of_update (i : Nat) (new : PairCall Device)
    (hcalls : t.calls = Function.update s.calls i (some new))
    (hkeys : ∀ k d, t.pairing k = some d → ad.getRemoteDevice k = some d)
    (hnew : CallOk ad t i new)
    (hothers : ∀ j other, j ≠ i → s.calls j = some other → CallOk ad t j other)
    (hbonds : ∀ b ∈ t.bonds, b ≠ .bonded) : Inv ad t where
  keys := hkeys
  calls := by
    intro j other hj
    rw [hcalls] at hj
    rcases Table.update_eq_some hj with ⟨rfl, heq⟩ | ⟨hne, hj⟩
    · cases heq
      exact hnew
    · exact hothers j other hne hj
  bonds := hbonds

theorem Inv.not_holdsLock (h : Inv ad s) (hi : s.calls i = some call)
    (hholds : call.stage.holdsLock = true) (hj : j ≠ i) (hother : s.calls j = some other) :
    other.stage.holdsLock = false := by
  cases hstage : other.stage.holdsLock with
  | false => rfl
  | true =>
    have hlock := (h.calls j other hother).owner hstage
    rw [(h.calls i call hi).owner hholds] at hlock
    exact absurd (Option.some.inj hlock).symm hj

theorem CallOk.keep (h : CallOk ad s i call)
    (hlock : call.stage.holdsLock = true → t.lock = s.lock)
    (hkeyed : call.stage.hasKey = true → s.pairing call.address ≠ none →
      t.pairing call.address ≠ none)
    (hbond : t.Unbound call → t.bondState call.device ≠ .bonded)
    (hcovered : call.stage = .waiting →
      s.bondState call.device = .bonding ∨ call.device ∈ s.broadcasts →
        t.bondState call.device = .bonding ∨ call.device ∈ t.broadcasts) :
    CallOk ad t i call where
  remote := h.remote
  lowered := h.lowered
  owner hholds := (hlock hholds).trans (h.owner hholds)
  keyed hkey := hkeyed hkey (h.keyed hkey)
  unbonded := hbond
  covered hstage := hcovered hstage (h.covered hstage)

theorem Inv.setCall (h : Inv ad s) (hnew : CallOk ad s i new) : Inv ad (s.setCall i new) := by
  refine Inv.of_update (s := s) i new rfl h.keys ?_ ?_ h.bonds
  · exact hnew.keep (fun _ => rfl) (fun _ => id) hnew.unbonded (fun _ => id)
  · intro j other _ hother
    have hok := h.calls j other hother
    exact hok.keep (fun _ => rfl) (fun _ => id) hok.unbonded (fun _ => id)

theorem Inv.of_calls (h : Inv ad s) (hcalls : t.calls = s.calls) (hpairing : t.pairing = s.pairing)
    (hbonds : t.bonds = s.bonds)
    (hok : ∀ i call, s.calls i = some call → CallOk ad t i call) : Inv ad t where
  keys := by
    rw [hpairing]
    exact h.keys
  calls := by
    rw [hcalls]
    exact hok
  bonds := by
    rw [hbonds]
    exact h.bonds

/-! ### Steps in the monitor -/

theorem Inv.wait (h : Inv ad s) (hi : s.calls i = some call)
    (hholds : call.stage.holdsLock = true) (hkey : call.stage.hasKey = true)
    (hcalls : t.calls = s.calls) (hpairing : t.pairing = s.pairing)
    (hbonds : ∀ b ∈ t.bonds, b ≠ .bonded)
    (hcovered : t.bondState call.device = .bonding ∨ call.device ∈ t.broadcasts)
    (hbond : ∀ d, t.bondState d = s.bondState d ∨ t.bondState d = .bonding)
    (hbroadcasts : ∀ d ∈ s.broadcasts, d ∈ t.broadcasts) : Inv ad (t.wait i call) := by
  have hcall := h.calls i call hi
  refine Inv.of_update (s := s) i { call with stage := .waiting } ?_ ?_ ?_ ?_ hbonds
  · rw [← hcalls]
    rfl
  · intro k d hk
    apply h.keys
    rw [← hpairing]
    exact hk
  · refine ⟨hcall.remote, fun _ => hcall.lowered (entered_of_holdsLock hholds),
      fun hlock => ?_, fun _ => ?_, fun hunbound => ?_, fun _ => hcovered⟩
    · cases hlock
    · change t.pairing call.address ≠ none
      rw [hpairing]
      exact hcall.keyed hkey
    · exact absurd hunbound (not_unbound_of_stage (by simp) rfl)
  · intro j other hj hother
    have hok := h.calls j other hother
    apply hok.keep
    · intro hlock
      rw [h.not_holdsLock hi hholds hj hother] at hlock
      cases hlock
    · intro _ hold
      change t.pairing other.address ≠ none
      rw [hpairing]
      exact hold
    · intro hunbound
      have hold : s.Unbound other := by
        unfold Unbound
        rw [← hpairing]
        exact hunbound
      change t.bondState other.device ≠ .bonded
      rcases hbond other.device with heq | heq
      · rw [heq]
        exact hok.unbonded hold
      · rw [heq]
        simp
    · intro _ hold
      rcases hbond other.device with heq | heq
      · exact hold.imp heq.trans (hbroadcasts _)
      · exact .inl heq

theorem Inv.leave (h : Inv ad s) (hi : s.calls i = some call)
    (hholds : call.stage.holdsLock = true) {stage : PairStage} (hleft : stage.entered = false)
    (hseeks : stage.seeksKey = false)
    (halone : ∀ j other, j ≠ i → s.calls j = some other → other.address = call.address →
      other.stage ≠ .waiting ∧
        (other.stage.seeksKey = true → s.bondState call.device ≠ .bonded)) :
    Inv ad (s.leave i call stage) := by
  have hcall := h.calls i call hi
  refine Inv.of_update (s := s) i { call with stage := stage } rfl ?_ ?_ ?_ h.bonds
  · intro k d hk
    exact h.keys k d (Table.erase_eq_some_iff.mp hk).1
  · refine CallOk.outside hcall.remote hleft fun hunbound => ?_
    refine absurd hunbound (not_unbound_of_stage (fun hstage => ?_) hseeks)
    dsimp only at hstage
    rw [hstage] at hleft
    cases hleft
  · intro j other hj hother
    have hok := h.calls j other hother
    have hlock := h.not_holdsLock hi hholds hj hother
    apply hok.keep
    · intro hholds
      rw [hlock] at hholds
      cases hholds
    · intro hkey hold
      have hne : other.address ≠ call.address := fun haddress =>
        (halone j other hj hother haddress).1 (waiting_of_hasKey hkey hlock)
      change Function.update s.pairing call.address none other.address ≠ none
      rw [Function.update_of_ne hne]
      exact hold
    · rintro (hstage | ⟨hseeks, hnone⟩)
      · exact hok.unbonded (.inl hstage)
      · by_cases haddress : other.address = call.address
        · have hsame : other.device = call.device := by
            have hremote := hok.remote
            rw [haddress, hcall.remote] at hremote
            exact (Option.some.inj hremote).symm
          change s.bondState other.device ≠ .bonded
          rw [hsame]
          exact (halone j other hj hother haddress).2 hseeks
        · refine hok.unbonded (.inr ⟨hseeks, ?_⟩)
          exact (Function.update_of_ne haddress ..).symm.trans hnone
    · exact fun _ => id

theorem Inv.acquire (h : Inv ad s) (hi : s.calls i = some call) (hlock : s.lock = none)
    (hstage : call.stage = .entering ∨ call.stage = .woken)
    (hguard : Guard ad s (.acquire i)) :
    Inv ad { s.setCall i { call with stage := .looping } with lock := some i } := by
  have hcall := h.calls i call hi
  refine Inv.of_update (s := s) i { call with stage := .looping } rfl h.keys ?_ ?_ h.bonds
  · refine ⟨hcall.remote, fun _ => ?_, fun _ => rfl, (fun hkey => by cases hkey),
      fun hunbound => ?_, (fun hwait => by cases hwait)⟩
    · rcases hstage with hstage | hstage
      · exact hguard call hi hstage
      · exact hcall.lowered (by rw [hstage]; rfl)
    · rcases hunbound with heq | ⟨-, hnone⟩
      · cases heq
      · refine hcall.unbonded (.inr ⟨?_, hnone⟩)
        rcases hstage with hstage | hstage
        · rw [hstage]
          rfl
        · rw [hstage]
          rfl
  · intro j other _ hother
    have hok := h.calls j other hother
    refine hok.keep (fun hholds => ?_) (fun _ => id) hok.unbonded (fun _ => id)
    have howner := hok.owner hholds
    rw [hlock] at howner
    cases howner

theorem Inv.put (h : Inv ad s) (hi : s.calls i = some call) (hstage : call.stage = .looping)
    (hnone : s.pairing call.address = none) :
    Inv ad { s.setCall i { call with stage := .creating } with
      pairing := Function.update s.pairing call.address (some call.device) } := by
  have hcall := h.calls i call hi
  have hholds : call.stage.holdsLock = true := by
    rw [hstage]
    rfl
  have hseeks : call.stage.seeksKey = true := by
    rw [hstage]
    rfl
  have hstays : ∀ k, Function.update s.pairing call.address (some call.device) k = none →
      s.pairing k = none := by
    intro k hk
    rcases Table.update_eq_none hk with ⟨-, heq⟩ | ⟨-, hk⟩
    · cases heq
    · exact hk
  refine Inv.of_update (s := s) i { call with stage := .creating } rfl ?_ ?_ ?_ h.bonds
  · intro k d hk
    rcases Table.update_eq_some hk with ⟨rfl, heq⟩ | ⟨-, hk⟩
    · cases heq
      exact hcall.remote
    · exact h.keys k d hk
  · refine ⟨hcall.remote, fun _ => hcall.lowered (entered_of_holdsLock hholds),
      fun _ => hcall.owner hholds, fun _ => ?_, fun _ => hcall.unbonded (.inr ⟨hseeks, hnone⟩),
      fun hwait => by cases hwait⟩
    change Function.update s.pairing call.address (some call.device) call.address ≠ none
    rw [Function.update_self]
    exact Option.some_ne_none _
  · intro j other _ hother
    have hok := h.calls j other hother
    refine hok.keep (fun _ => rfl) (fun _ hold hnew => hold (hstays _ hnew))
      (fun hunbound => hok.unbonded ?_) (fun _ => id)
    exact hunbound.imp_right fun hnew => ⟨hnew.1, hstays _ hnew.2⟩

end

section

variable {ad : BluetoothAdapter Device} {s t : Pairing Device}

theorem notified_entered (call : PairCall Device) :
    (notified call).stage.entered = call.stage.entered := by
  rw [notified]
  split
  · rename_i hstage
    rw [hstage]
    rfl
  · rfl

theorem notified_cases (call : PairCall Device) :
    (call.stage = .waiting ∧ (notified call).stage = .woken) ∨
      (call.stage ≠ .waiting ∧ (notified call).stage = call.stage) := by
  by_cases hstage : call.stage = .waiting
  · exact .inl ⟨hstage, if_pos hstage⟩
  · exact .inr ⟨hstage, if_neg hstage⟩

/-- The key that a call waits with is there when it wakes up. -/
theorem CallOk.notified {i : Nat} {call : PairCall Device} (h : CallOk ad s i call)
    (hcalls : t.lock = s.lock) (hbond : t.bondState = s.bondState)
    (hnone : ∀ k, t.pairing k = none → s.pairing k = none) : CallOk ad t i (notified call) := by
  rcases notified_cases call with ⟨hwaits, hwoken⟩ | ⟨hstays, hsame⟩
  · have hkey := h.keyed (by rw [hwaits]; rfl)
    refine ⟨h.remote, fun hentered => ?_, fun hholds => ?_, fun hhas => ?_, fun hunbound => ?_,
      fun hwaiting => ?_⟩
    · exact h.lowered (by rwa [notified_entered] at hentered)
    · rw [hwoken] at hholds
      cases hholds
    · rw [hwoken] at hhas
      cases hhas
    · rcases hunbound with hstage | ⟨-, hnokey⟩
      · rw [hwoken] at hstage
        cases hstage
      · exact absurd (hnone _ hnokey) hkey
    · rw [hwoken] at hwaiting
      cases hwaiting
  · refine ⟨h.remote, fun hentered => ?_, fun hholds => ?_, fun hhas hnokey => ?_,
      fun hunbound => ?_, fun hwaiting => ?_⟩
    · exact h.lowered (by rwa [notified_entered] at hentered)
    · rw [hsame] at hholds
      exact hcalls.trans (h.owner hholds)
    · rw [hsame] at hhas
      exact h.keyed hhas (hnone _ hnokey)
    · rw [hbond]
      apply h.unbonded
      rw [Unbound, hsame] at hunbound
      exact hunbound.imp_right fun hold => ⟨hold.1, hnone _ hold.2⟩
    · rw [hsame] at hwaiting
      exact absurd hwaiting hstays

theorem Inv.bonds_append (h : Inv ad s) {i : Nat} {call : PairCall Device}
    (hi : s.calls i = some call) (hstage : call.stage = .creating) :
    ∀ b ∈ s.bonds ++ [s.bondState call.device], b ≠ .bonded := by
  intro b hb
  rcases List.mem_append.mp hb with hb | hb
  · exact h.bonds b hb
  · rw [List.mem_singleton.mp hb]
    exact (h.calls _ _ hi).unbonded (.inl hstage)

theorem Inv.told (h : Inv ad s) (d : Device) (rest : List Device) :
    Inv ad (notifyAll { s with
      broadcasts := rest
      pairing := Function.update s.pairing (ad.hwAddress d) (some d) }) where
  keys := by
    intro k d' hk
    rcases Table.update_eq_some hk with ⟨rfl, heq⟩ | ⟨-, hk⟩
    · cases heq
      exact ad.getRemoteDevice_hwAddress d
    · exact h.keys k d' hk
  calls := by
    intro i call hi
    obtain ⟨old, hold, rfl⟩ := Option.map_eq_some_iff.mp hi
    refine (h.calls i old hold).notified rfl rfl fun k hnone => ?_
    rcases Table.update_eq_none hnone with ⟨-, heq⟩ | ⟨-, hnone⟩
    · cases heq
    · exact hnone
  bonds := h.bonds

theorem inv_initial (ad : BluetoothAdapter Device) (bondState : Device → BondState) :
    Inv ad (initial bondState) where
  keys := fun k d hk => by cases hk
  calls := fun i call hi => by cases hi
  bonds := fun b hb => by cases hb

theorem Inv.found (h : Inv ad s) {d : Device} (hi : s.calls i = some call)
    (hstage : call.stage = .looping) (hd : s.pairing call.address = some d) :
    Inv ad (s.setCall i { call with device := d, stage := .testing }) := by
  have hcall := h.calls _ _ hi
  have hholds : call.stage.holdsLock = true := by
    rw [hstage]
    rfl
  have hsame : d = call.device := by
    have hremote := h.keys _ _ hd
    rw [hcall.remote] at hremote
    exact (Option.some.inj hremote).symm
  subst hsame
  refine h.setCall ⟨hcall.remote, fun _ => hcall.lowered (entered_of_holdsLock hholds),
    fun _ => hcall.owner hholds, fun _ hnone => ?_, fun hunbound => ?_,
    fun hwait => by cases hwait⟩
  · rw [hd] at hnone
    cases hnone
  · exact absurd hunbound (not_unbound_of_stage (by simp) rfl)

theorem Inv.wokeUp (h : Inv ad s) (hi : s.calls i = some call) (hstage : call.stage = .waiting) :
    Inv ad (s.setCall i { call with stage := .woken }) := by
  have hcall := h.calls _ _ hi
  have hkey : (PairStage.waiting).hasKey = true := rfl
  rw [← hstage] at hkey
  refine h.setCall ⟨hcall.remote, fun _ => hcall.lowered (entered_of_hasKey hkey),
    (fun hholds => by cases hholds), (fun hhas => by cases hhas), fun hunbound => ?_,
    (fun hwait => by cases hwait)⟩
  rcases hunbound with heq | ⟨-, hnone⟩
  · cases heq
  · exact absurd hnone (hcall.keyed hkey)

theorem Inv.dropped (h : Inv ad s) {d : Device} {rest : List Device}
    (hbroadcasts : s.broadcasts = d :: rest)
    (hcovered : ∀ i call, s.calls i = some call → call.stage = .waiting → d = call.device →
      s.bondState call.device = .bonding ∨ call.device ∈ rest) :
    Inv ad { s with broadcasts := rest } := by
  refine h.of_calls rfl rfl rfl fun i call hi => (h.calls i call hi).keep (fun _ => rfl)
    (fun _ => id) (h.calls i call hi).unbonded (fun hstage hold => ?_)
  rcases hold with hbonding | hmem
  · exact .inl hbonding
  · rw [hbroadcasts] at hmem
    rcases List.mem_cons.mp hmem with heq | hmem
    · exact hcovered i call hi hstage heq.symm
    · exact .inr hmem

variable [DecidableEq Device]

theorem Inv.changeBond (h : Inv ad s) {d : Device} {b : BondState}
    (hbonded : b = .bonded → ∀ i call, s.calls i = some call → call.device = d →
      ¬ s.Unbound call) : Inv ad (s.changeBond d b) := by
  refine h.of_calls rfl rfl rfl fun i call hi => (h.calls i call hi).keep (fun _ => rfl)
    (fun _ => id) (fun hunbound => ?_) (fun _ hcovered => ?_)
  · change Function.update s.bondState d b call.device ≠ .bonded
    by_cases hd : call.device = d
    · rw [hd, Function.update_self]
      exact fun hb => hbonded hb i call hi hd hunbound
    · rw [Function.update_of_ne hd]
      exact (h.calls i call hi).unbonded hunbound
  · by_cases hd : call.device = d
    · exact .inr (List.mem_append_right _ (List.mem_singleton.mpr hd))
    · rcases hcovered with hbonding | hmem
      · exact .inl ((Function.update_of_ne hd ..).trans hbonding)
      · exact .inr (List.mem_append_left _ hmem)

theorem Inv.does (h : Inv ad s) {a : Action Device} (hguard : Guard ad s a)
    (hdoes : Does ad s a t) : Inv ad t := by
  cases hdoes with
  | refused => exact h
  | began _ hd =>
    refine h.setCall (.outside hd rfl fun hunbound => ?_)
    exact absurd hunbound (not_unbound_of_stage (by simp) rfl)
  | paired hi =>
    refine h.setCall (.outside (h.calls _ _ hi).remote rfl fun hunbound => ?_)
    exact absurd hunbound (not_unbound_of_stage (by simp) rfl)
  | passed hi hbonded => exact h.setCall (.outside (h.calls _ _ hi).remote rfl fun _ => hbonded)
  | tested hi hstage =>
    have hcall := h.calls _ _ hi
    have hholds : (PairStage.testing).holdsLock = true := rfl
    have hkey : (PairStage.testing).hasKey = true := rfl
    rw [← hstage] at hholds hkey
    refine h.setCall ⟨hcall.remote, fun _ => hcall.lowered (entered_of_holdsLock hholds),
      fun _ => hcall.owner hholds, fun _ => hcall.keyed hkey, fun hunbound => ?_,
      fun hwait => by cases hwait⟩
    exact absurd hunbound (not_unbound_of_stage (by simp) rfl)
  | rested hi hstage hbonding =>
    exact h.wait hi (by rw [hstage]; rfl) (by rw [hstage]; rfl) rfl rfl h.bonds (.inl hbonding)
      (fun _ => .inl rfl) (fun _ => id)
  | @left i call stage hi hleaves hstage =>
    have hholds : call.stage.holdsLock = true := by
      rcases hleaves with ⟨hcall, -⟩ | ⟨hcall, -⟩
      · rw [hcall]
        rfl
      · rw [hcall]
        rfl
    have halone := hguard call hi hleaves
    rcases hstage with rfl | rfl
    · exact h.leave hi hholds rfl rfl halone
    · exact h.leave hi hholds rfl rfl halone
  | acquired hi hlock hstage => exact h.acquire hi hlock hstage hguard
  | put hi hstage hnone => exact h.put hi hstage hnone
  | found hi hstage hd => exact h.found hi hstage hd
  | @created i call hi hstage =>
    refine h.wait hi (by rw [hstage]; rfl) (by rw [hstage]; rfl) rfl rfl
      (h.bonds_append hi hstage) (.inl (Function.update_self ..)) (fun d => ?_)
      (fun d hd => List.mem_append_left _ hd)
    by_cases hd : d = call.device
    · rw [hd]
      exact .inr (Function.update_self ..)
    · exact .inl (Function.update_of_ne hd ..)
  | @notCreated i call hi hstage =>
    have hcovered : s.bondState call.device = .bonding ∨ call.device ∈ s.broadcasts := by
      rcases hguard with hfalse | hcovered
      · cases hfalse
      · exact hcovered call hi
    exact h.wait hi (by rw [hstage]; rfl) (by rw [hstage]; rfl) rfl rfl
      (h.bonds_append hi hstage) hcovered (fun _ => .inl rfl) (fun _ => id)
  | wokeUp hi hstage => exact h.wokeUp hi hstage
  | changed => exact h.changeBond hguard
  | renamed =>
    refine h.of_calls rfl rfl rfl fun i call hi => (h.calls i call hi).keep (fun _ => rfl)
      (fun _ => id) (h.calls i call hi).unbonded (fun _ hcovered => ?_)
    exact hcovered.imp_right fun hmem => List.mem_append_left _ hmem
  | dropped hbroadcasts =>
    refine h.dropped hbroadcasts fun i call hi hstage hdevice => ?_
    rcases hguard with hfalse | hlater
    · cases hfalse
    · rw [hbroadcasts] at hlater
      exact hlater i call hi hstage (congrArg some hdevice)
  | ignored hbroadcasts hnone =>
    refine h.dropped hbroadcasts fun i call hi hstage hdevice => ?_
    have hcall := h.calls i call hi
    have hkey : call.stage.hasKey = true := by
      rw [hstage]
      rfl
    rw [hdevice, ← hcall.lowered (entered_of_hasKey hkey)] at hnone
    exact absurd hnone (hcall.keyed hkey)
  | @told d rest => exact h.told d rest

/-- In the guarded runs no event is missed. -/
theorem never_misses (ad : BluetoothAdapter Device)
    (h : (machine ad).ReachableVia (Guard ad) s) : s.NeverMisses := by
  have hinv : Inv ad s := by
    apply h.invariant (Inv ad)
    · rintro s ⟨bondState, rfl⟩
      exact inv_initial ad bondState
    · intro s a t hs hguard hstep
      exact hs.does hguard (step_does hstep)
  exact ⟨fun i call hi => (hinv.calls i call hi).covered, hinv.bonds⟩

end

namespace Sample

def adapter : BluetoothAdapter Unit where
  present := true
  getRemoteDevice address :=
    if address = u16 "aa:bb:cc:dd:ee:ff" ∨ address = u16 "AA:BB:CC:DD:EE:FF" then some ()
    else none
  hwAddress _ := u16 "aa:bb:cc:dd:ee:ff"
  getRemoteDevice_hwAddress _ := rfl

def start : Pairing Unit := initial fun _ => .none

def enter (i : Nat) (address : String) : List (Action Unit) :=
  [.pairDevice i (u16 address), .getBondState i, .acquire i, .containsKey i]

/-- The device is not known by the key that the event comes with. -/
def upperCase : List (Action Unit) :=
  enter 0 "AA:BB:CC:DD:EE:FF" ++ [.createBond 0 true, .bondStateChanged () .bonded,
    .onDeviceChanged true, .onDeviceChanged true]

/-- The first of two calls takes the key away, and the second asks again. -/
def secondCaller : List (Action Unit) :=
  enter 0 "aa:bb:cc:dd:ee:ff" ++ [.createBond 0 true] ++ enter 1 "aa:bb:cc:dd:ee:ff" ++
    [.getBondState 1, .getBondState 1, .bondStateChanged () .bonded, .onDeviceChanged true,
      .onDeviceChanged true, .acquire 0, .containsKey 0, .getBondState 0, .acquire 1,
      .containsKey 1, .createBond 1 false]

def notCreated : List (Action Unit) :=
  enter 0 "aa:bb:cc:dd:ee:ff" ++ [.createBond 0 false]

def unnamed : List (Action Unit) :=
  enter 0 "aa:bb:cc:dd:ee:ff" ++ [.createBond 0 true, .bondStateChanged () .none,
    .onDeviceChanged false, .onDeviceChanged false]

/-- The device is bonded by others after the call has looked. -/
def bondedByOthers : List (Action Unit) :=
  [.pairDevice 0 (u16 "aa:bb:cc:dd:ee:ff"), .getBondState 0, .bondStateChanged () .bonded,
    .acquire 0, .containsKey 0, .createBond 0 false]

/-- A call waits, and nothing is left to be delivered. -/
def Missed (s : Pairing Unit) : Prop :=
  s.broadcasts = [] ∧ s.bondState () ≠ .bonding ∧
    ∃ i, (s.calls i).map (fun call => call.stage) = some .waiting

theorem missed_upperCase : ∃ s, (machine adapter).run start upperCase = some s ∧ Missed s :=
  ⟨_, rfl, rfl, by decide, 0, rfl⟩

theorem missed_secondCaller : ∃ s, (machine adapter).run start secondCaller = some s ∧ Missed s :=
  ⟨_, rfl, rfl, by decide, 1, rfl⟩

theorem missed_notCreated : ∃ s, (machine adapter).run start notCreated = some s ∧ Missed s :=
  ⟨_, rfl, rfl, by decide, 0, rfl⟩

theorem missed_unnamed : ∃ s, (machine adapter).run start unnamed = some s ∧ Missed s :=
  ⟨_, rfl, rfl, by decide, 0, rfl⟩

end Sample

/-- A call pairs the device and has been told when it wakes up. -/
theorem never_misses_paired :
    ∃ s : Pairing Unit, s.NeverMisses ∧ s.bondState () = .bonded ∧
      (s.calls 0).map (fun call => call.stage) = some .returned := by
  have h : (machine Sample.adapter).ReachableVia (Guard Sample.adapter) Sample.start :=
    .start ⟨_, rfl⟩
  have hcalled := h.after (.pairDevice 0 (u16 "aa:bb:cc:dd:ee:ff")) trivial rfl
  have hpassed := hcalled.after (.getBondState 0) (by
    intro call hcall hleaves
    cases hcall
    rcases hleaves with ⟨hstage, -⟩ | ⟨hstage, -⟩
    · cases hstage
    · cases hstage) rfl
  have hentered := hpassed.after (.acquire 0) (by
    intro call hcall _
    cases hcall
    rfl) rfl
  have hput := hentered.after (.containsKey 0) trivial rfl
  have hwaits := hput.after (.createBond 0 true) (.inl rfl) rfl
  have hbonded := hwaits.after (.bondStateChanged () .bonded) (by
    intro _ i call hcall _
    cases i with
    | zero =>
      cases hcall
      exact not_unbound_of_stage (by simp) rfl
    | succ n => cases hcall) rfl
  have hfirst := hbonded.after (.onDeviceChanged true) (.inl rfl) rfl
  have hsecond := hfirst.after (.onDeviceChanged true) (.inl rfl) rfl
  have hacquired := hsecond.after (.acquire 0) (by
    intro call hcall hstage
    cases hcall
    cases hstage) rfl
  have hfound := hacquired.after (.containsKey 0) trivial rfl
  have hreturned := hfound.after (.getBondState 0) (by
    intro call _ _ j other hj hother _
    cases j with
    | zero => exact absurd rfl hj
    | succ n => cases hother) rfl
  exact ⟨_, never_misses Sample.adapter hreturned, rfl, rfl⟩

/-- Four ways to miss the end of the bonding, and one to ask a bonded device. -/
theorem misses :
    (∀ actions ∈ [Sample.upperCase, Sample.secondCaller, Sample.notCreated, Sample.unnamed],
      ∃ s, (machine Sample.adapter).Reachable s ∧
        (machine Sample.adapter).run Sample.start actions = some s ∧ Sample.Missed s) ∧
    ∃ s, (machine Sample.adapter).Reachable s ∧
      (machine Sample.adapter).run Sample.start Sample.bondedByOthers = some s ∧
        BondState.bonded ∈ s.bonds := by
  have hstart : (machine Sample.adapter).Reachable Sample.start := .start ⟨_, rfl⟩
  constructor
  · intro actions hactions
    have hrun : ∃ s, (machine Sample.adapter).run Sample.start actions = some s ∧
        Sample.Missed s := by
      simp only [List.mem_cons, List.not_mem_nil, or_false] at hactions
      rcases hactions with rfl | rfl | rfl | rfl
      · exact Sample.missed_upperCase
      · exact Sample.missed_secondCaller
      · exact Sample.missed_notCreated
      · exact Sample.missed_unnamed
    obtain ⟨s, hrun, hmissed⟩ := hrun
    exact ⟨s, hstart.run hrun, hrun, hmissed⟩
  · have hrun : ∃ s, (machine Sample.adapter).run Sample.start Sample.bondedByOthers = some s ∧
        BondState.bonded ∈ s.bonds := ⟨_, rfl, by decide⟩
    obtain ⟨s, hrun, hbonds⟩ := hrun
    exact ⟨s, hstart.run hrun, hrun, hbonds⟩

end Pairing

end AlmondAndroid.App
