import AlmondAndroid.Library.Machine
import AlmondAndroid.Library.Table
import AlmondAndroid.Bridge.Values

/-!
# Discovering Bluetooth devices

`BluetoothAPI.startDiscovery` posts its time-out before it knows whether there will be a
discovery, and nothing takes the time-out back. The time-out ends whatever discovery is under
way when it comes.
-/

namespace AlmondAndroid.App

open Library Bridge

inductive DiscoveryError
  | noAdapter
  | background
  | denied
  deriving DecidableEq

def DiscoveryError.message : DiscoveryError → U16String
  | noAdapter => u16 "This device has no Bluetooth adapter"
  | background => u16 "Bluetooth is disabled and operation is in background"
  | denied => u16 "User denied enabling Bluetooth"

/-- Where a call is: before its first `adapter.startDiscovery`; after one that returned true,
before it sets the flag; after one that returned false; with the dialog open; before the
second `adapter.startDiscovery`. -/
inductive DiscoveryStage
  | starting
  | begun
  | refused
  | asking
  | enabled
  | returned
  | threw (error : DiscoveryError)
  deriving DecidableEq

/-- `due` is the time of the call's own time-out. -/
structure DiscoveryCall where
  due : Nat
  stage : DiscoveryStage

/-- The posted `Runnable` of a call. It has begun when it has cleared the flag and has not
called `adapter.cancelDiscovery` yet. -/
structure DiscoveryTimer where
  due : Nat
  begun : Bool

/-- `current` is the call of the discovery that is under way, `latest` the last call that
succeeded. `cutShort` is set when the time-out of a call ends the discovery of a later one
before that one's own. -/
structure Discovery where
  hasAdapter : Bool
  clock : Nat
  discovering : Bool
  next : Nat
  calls : Nat → Option DiscoveryCall
  timers : Nat → Option DiscoveryTimer
  stops : Nat
  current : Option Nat
  latest : Option Nat
  cutShort : Bool

namespace Discovery

inductive Action
  | startDiscovery (timeout : Int)
  | adapterStarts (i : Nat) (begins : Bool)
  | setDiscovering (i : Nat)
  | getInteractionCallback (i : Nat) (found : Bool)
  | answer (i : Nat) (enabled : Bool)
  | stopDiscovery
  | cancelDiscovery
  | timeout (i : Nat)
  | timeoutCancels (i : Nat)
  | onStateChanged (newState : Int) (begins : Bool)
  | discoveryFinished
  | tick (now : Nat)

def STATE_ON : Int := 12

def initial (hasAdapter : Bool) (clock : Nat) : Discovery :=
  ⟨hasAdapter, clock, false, 0, fun _ => none, fun _ => none, 0, none, none, false⟩

def setCall (s : Discovery) (i : Nat) (call : DiscoveryCall) : Discovery :=
  { s with calls := Function.update s.calls i (some call) }

/-- The discovery under way is one of a later call that is not over yet. -/
def endsEarly (s : Discovery) (i : Nat) : Bool :=
  s.current.any fun j => decide (i < j) && (s.calls j).any fun call => decide (s.clock < call.due)

def startDiscovery (s : Discovery) (timeout : Int) : Discovery :=
  -- a negative delay is none
  let due := s.clock + timeout.toNat
  if s.hasAdapter then
    { s.setCall s.next ⟨due, .starting⟩ with
      timers := Function.update s.timers s.next (some ⟨due, false⟩)
      next := s.next + 1 }
  else { s.setCall s.next ⟨due, .threw .noAdapter⟩ with next := s.next + 1 }

def adapterStarts (s : Discovery) (i : Nat) (begins : Bool) : Option Discovery :=
  match s.calls i with
  | some ⟨due, .starting⟩ =>
    if begins then some { s.setCall i ⟨due, .begun⟩ with current := some i }
    else some (s.setCall i ⟨due, .refused⟩)
  | some ⟨due, .enabled⟩ =>
    if begins then some { s.setCall i ⟨due, .begun⟩ with current := some i }
    else some (s.setCall i ⟨due, .returned⟩)
  | _ => none

def step (s : Discovery) : Action → Option Discovery
  | .startDiscovery timeout => some (startDiscovery s timeout)
  | .adapterStarts i begins => adapterStarts s i begins
  | .setDiscovering i =>
    match s.calls i with
    | some ⟨due, .begun⟩ =>
      some { s.setCall i ⟨due, .returned⟩ with discovering := true, latest := some i }
    | _ => none
  | .getInteractionCallback i found =>
    match s.calls i with
    | some ⟨due, .refused⟩ =>
      some (s.setCall i ⟨due, if found then .asking else .threw .background⟩)
    | _ => none
  | .answer i enabled =>
    match s.calls i with
    | some ⟨due, .asking⟩ => some (s.setCall i ⟨due, if enabled then .enabled else .threw .denied⟩)
    | _ => none
  | .stopDiscovery =>
    some { s with
      discovering := false
      stops := if s.hasAdapter then s.stops + 1 else s.stops }
  | .cancelDiscovery =>
    if s.stops = 0 then none else some { s with stops := s.stops - 1, current := none }
  | .timeout i =>
    match s.timers i with
    | some ⟨due, false⟩ =>
      if due ≤ s.clock then
        some { s with
          discovering := false
          timers := Function.update s.timers i (some ⟨due, true⟩) }
      else none
    | _ => none
  | .timeoutCancels i =>
    match s.timers i with
    | some ⟨_, true⟩ =>
      some { s with
        timers := Function.update s.timers i none
        current := none
        cutShort := s.cutShort || s.endsEarly i }
    | _ => none
  | .onStateChanged newState begins =>
    if s.discovering ∧ newState = STATE_ON ∧ s.hasAdapter ∧ begins then
      some { s with current := s.latest }
    else some s
  | .discoveryFinished => some { s with current := none }
  | .tick now => if now < s.clock then none else some { s with clock := now }

def machine : Machine Discovery Action where
  Init s := ∃ hasAdapter clock, s = initial hasAdapter clock
  step := step

/-- The call's own time-out is over, or no earlier time-out that is left is due before it. -/
def Unthreatened (s : Discovery) (i : Nat) (due : Nat) : Prop :=
  due ≤ s.clock ∨ ∀ k < i, ∀ timer, s.timers k = some timer → due ≤ timer.due

/-- A discovery begins only while no earlier time-out threatens it, and the flag is set only
while the call's own time-out is pending. -/
def Guard (s : Discovery) : Action → Prop
  | .adapterStarts i true => ∀ call, s.calls i = some call → s.Unthreatened i call.due
  | .setDiscovering i => ∃ due, s.timers i = some ⟨due, false⟩
  | _ => True

/-- The call has begun a discovery that no earlier time-out threatens. -/
def Safe (s : Discovery) (i : Nat) : Prop :=
  i < s.next ∧ ∃ call, s.calls i = some call ∧ s.Unthreatened i call.due

structure Inv (s : Discovery) : Prop where
  callsFresh : ∀ i, s.next ≤ i → s.calls i = none
  timersFresh : ∀ i, s.next ≤ i → s.timers i = none
  overdue : ∀ i due, s.timers i = some ⟨due, true⟩ → due ≤ s.clock
  begun : ∀ i due, s.calls i = some ⟨due, .begun⟩ → s.Safe i
  latest : ∀ i, s.latest = some i → s.Safe i
  current : ∀ i, s.current = some i → s.Safe i
  pending : s.discovering = true → ∃ i due, s.latest = some i ∧ s.timers i = some ⟨due, false⟩
  cutShort : s.cutShort = false

variable {s t : Discovery} {i : Nat}

theorem Safe.mono (h : s.Safe i) (hnext : s.next ≤ t.next) (hclock : s.clock ≤ t.clock)
    (hcalls : ∀ j call, s.calls j = some call → ∃ stage, t.calls j = some ⟨call.due, stage⟩)
    (htimers : ∀ k timer, k < s.next → t.timers k = some timer →
      ∃ begun, s.timers k = some ⟨timer.due, begun⟩) : t.Safe i := by
  obtain ⟨hlt, call, hcall, hsafe⟩ := h
  obtain ⟨stage, hcall'⟩ := hcalls i call hcall
  refine ⟨Nat.lt_of_lt_of_le hlt hnext, _, hcall', ?_⟩
  rcases hsafe with hdue | hall
  · exact .inl (Nat.le_trans hdue hclock)
  · right
    intro k hk timer htimer
    obtain ⟨begun, hold⟩ := htimers k timer (Nat.lt_trans hk hlt) htimer
    have hle := hall k hk ⟨timer.due, begun⟩ hold
    exact hle

theorem Inv.initial (hasAdapter : Bool) (clock : Nat) : Inv (initial hasAdapter clock) where
  callsFresh _ _ := rfl
  timersFresh _ _ := rfl
  overdue _ _ h := by cases h
  begun _ _ h := by cases h
  latest _ h := by cases h
  current _ h := by cases h
  pending h := by cases h
  cutShort := rfl

theorem Inv.lt_next (h : Inv s) {call : DiscoveryCall} (hcall : s.calls i = some call) :
    i < s.next := by
  by_contra hle
  rw [h.callsFresh i (Nat.le_of_not_lt hle)] at hcall
  cases hcall

theorem Safe.setCall {j due : Nat} {stage stage' : DiscoveryStage} (h : s.Safe j)
    (hcall : s.calls i = some ⟨due, stage⟩) : (s.setCall i ⟨due, stage'⟩).Safe j := by
  refine h.mono (Nat.le_refl _) (Nat.le_refl _) (fun k call hk => ?_)
    fun k timer _ hk => ⟨timer.begun, hk⟩
  by_cases hki : k = i
  · subst hki
    rw [hcall] at hk
    cases hk
    exact ⟨stage', Function.update_self ..⟩
  · exact ⟨call.stage, (Function.update_of_ne hki _ _).trans hk⟩

theorem Inv.setCall_fresh (h : Inv s) {call call' : DiscoveryCall} (hcall : s.calls i = some call)
    {k : Nat} (hk : s.next ≤ k) : (s.setCall i call').calls k = none := by
  have hne : k ≠ i := Nat.ne_of_gt (Nat.lt_of_lt_of_le (h.lt_next hcall) hk)
  exact (Function.update_of_ne hne _ _).trans (h.callsFresh k hk)

theorem Inv.setCall (h : Inv s) {due : Nat} {stage stage' : DiscoveryStage}
    (hcall : s.calls i = some ⟨due, stage⟩) (hstage : stage' ≠ .begun) :
    Inv (s.setCall i ⟨due, stage'⟩) := by
  refine ⟨fun k hk => h.setCall_fresh hcall hk, h.timersFresh, h.overdue, fun k due' hk => ?_,
    fun k hk => (h.latest k hk).setCall hcall, fun k hk => (h.current k hk).setCall hcall,
    h.pending, h.cutShort⟩
  rcases Table.update_eq_some hk with ⟨-, heq⟩ | ⟨-, hk⟩
  · cases heq
    exact absurd rfl hstage
  · exact (h.begun k due' hk).setCall hcall

theorem Inv.begin (h : Inv s) {due : Nat} {stage : DiscoveryStage}
    (hcall : s.calls i = some ⟨due, stage⟩) (hguard : s.Unthreatened i due) :
    Inv { s.setCall i ⟨due, .begun⟩ with current := some i } := by
  have hsafe : (s.setCall i ⟨due, .begun⟩).Safe i :=
    ⟨h.lt_next hcall, _, Function.update_self .., hguard⟩
  refine ⟨fun k hk => h.setCall_fresh hcall hk, h.timersFresh, h.overdue, fun k due' hk => ?_,
    fun k hk => (h.latest k hk).setCall hcall, fun k hk => ?_, h.pending, h.cutShort⟩
  · rcases Table.update_eq_some hk with ⟨rfl, -⟩ | ⟨-, hk⟩
    · exact hsafe
    · exact (h.begun k due' hk).setCall hcall
  · cases hk
    exact hsafe

theorem Inv.startDiscovery (h : Inv s) (timeout : Int) : Inv (startDiscovery s timeout) := by
  have hcallsNext := h.callsFresh s.next (Nat.le_refl _)
  have hcalls : ∀ call' j call, s.calls j = some call →
      ∃ stage, Function.update s.calls s.next (some call') j = some ⟨call.due, stage⟩ := by
    intro call' j call hj
    have hne : j ≠ s.next := Nat.ne_of_lt (h.lt_next hj)
    exact ⟨call.stage, (Function.update_of_ne hne _ _).trans hj⟩
  have hfresh : ∀ call' k, s.next + 1 ≤ k →
      Function.update s.calls s.next (some call') k = none := by
    intro call' k hk
    have hne : k ≠ s.next := by omega
    exact (Function.update_of_ne hne _ _).trans (h.callsFresh k (by omega))
  unfold Discovery.startDiscovery
  dsimp only
  split
  · have hmono : ∀ j, s.Safe j → Safe
        { s.setCall s.next ⟨s.clock + timeout.toNat, .starting⟩ with
          timers := Function.update s.timers s.next (some ⟨s.clock + timeout.toNat, false⟩)
          next := s.next + 1 } j := by
      intro j hj
      refine hj.mono (Nat.le_succ _) (Nat.le_refl _) (hcalls _) fun k timer hk htimer => ?_
      have hne : k ≠ s.next := Nat.ne_of_lt hk
      dsimp only at htimer
      rw [Function.update_of_ne hne] at htimer
      exact ⟨timer.begun, htimer⟩
    refine ⟨hfresh _, fun k hk => ?_, fun k due hk => ?_, fun k due hk => ?_,
      fun k hk => hmono k (h.latest k hk), fun k hk => hmono k (h.current k hk), fun hd => ?_,
      h.cutShort⟩
    · have hk : s.next + 1 ≤ k := hk
      have hne : k ≠ s.next := by omega
      exact (Function.update_of_ne hne _ _).trans (h.timersFresh k (by omega))
    · rcases Table.update_eq_some hk with ⟨-, heq⟩ | ⟨-, hk⟩
      · cases heq
      · exact h.overdue k due hk
    · rcases Table.update_eq_some hk with ⟨-, heq⟩ | ⟨-, hk⟩
      · cases heq
      · exact hmono k (h.begun k due hk)
    · obtain ⟨k, due, hlatest, htimer⟩ := h.pending hd
      have hne : k ≠ s.next := Nat.ne_of_lt (h.latest k hlatest).1
      exact ⟨k, due, hlatest, (Function.update_of_ne hne _ _).trans htimer⟩
  · have hmono : ∀ j, s.Safe j → Safe
        { s.setCall s.next ⟨s.clock + timeout.toNat, .threw .noAdapter⟩ with
          next := s.next + 1 } j :=
      fun j hj => hj.mono (Nat.le_succ _) (Nat.le_refl _) (hcalls _)
        fun k timer _ htimer => ⟨timer.begun, htimer⟩
    refine ⟨hfresh _, fun k hk => ?_, h.overdue, fun k due hk => ?_,
      fun k hk => hmono k (h.latest k hk), fun k hk => hmono k (h.current k hk), h.pending,
      h.cutShort⟩
    · have hk : s.next + 1 ≤ k := hk
      exact h.timersFresh k (by omega)
    · rcases Table.update_eq_some hk with ⟨-, heq⟩ | ⟨-, hk⟩
      · cases heq
      · exact hmono k (h.begun k due hk)

theorem Inv.stopped (h : Inv s) {current : Option Nat}
    (hcurrent : current = none ∨ current = s.current) (stops : Nat) :
    Inv { s with discovering := false, stops := stops, current := current } := by
  refine ⟨h.callsFresh, h.timersFresh, h.overdue, h.begun, h.latest, fun k hk => ?_,
    (fun hd => by cases hd), h.cutShort⟩
  rcases hcurrent with rfl | rfl
  · cases hk
  · exact h.current k hk

theorem Inv.ended (h : Inv s) (stops : Nat) :
    Inv { s with stops := stops, current := none } :=
  ⟨h.callsFresh, h.timersFresh, h.overdue, h.begun, h.latest, (fun k hk => by cases hk),
    h.pending, h.cutShort⟩

theorem Inv.timeout (h : Inv s) {due : Nat} (htimer : s.timers i = some ⟨due, false⟩)
    (hdue : due ≤ s.clock) :
    Inv { s with
      discovering := false
      timers := Function.update s.timers i (some ⟨due, true⟩) } := by
  have hmono : ∀ j, s.Safe j → Safe
      { s with
        discovering := false
        timers := Function.update s.timers i (some ⟨due, true⟩) } j := by
    intro j hj
    refine hj.mono (Nat.le_refl _) (Nat.le_refl _) (fun k call hk => ⟨call.stage, hk⟩)
      fun k timer _ hk => ?_
    rcases Table.update_eq_some hk with ⟨rfl, heq⟩ | ⟨-, hk⟩
    · cases heq
      exact ⟨false, htimer⟩
    · exact ⟨timer.begun, hk⟩
  refine ⟨h.callsFresh, fun k hk => ?_, fun k due' hk => ?_,
    fun k due' hk => hmono k (h.begun k due' hk), fun k hk => hmono k (h.latest k hk),
    fun k hk => hmono k (h.current k hk), (fun hd => by cases hd), h.cutShort⟩
  · have hne : k ≠ i := by
      rintro rfl
      rw [h.timersFresh k hk] at htimer
      cases htimer
    exact (Function.update_of_ne hne _ _).trans (h.timersFresh k hk)
  · rcases Table.update_eq_some hk with ⟨-, heq⟩ | ⟨-, hk⟩
    · cases heq
      exact hdue
    · exact h.overdue k due' hk

/-- A time-out that is over ends nothing before its own time. -/
theorem Inv.not_endsEarly (h : Inv s) {due : Nat} (htimer : s.timers i = some ⟨due, true⟩) :
    s.endsEarly i = false := by
  unfold endsEarly
  cases hcurrent : s.current with
  | none => rfl
  | some j =>
    obtain ⟨-, call, hcall, hsafe⟩ := h.current j hcurrent
    rw [Option.any_some, hcall, Option.any_some]
    refine Bool.eq_false_iff.mpr fun hearly => ?_
    obtain ⟨hlt, hclock⟩ := Bool.and_eq_true_iff.mp hearly
    have hclock : s.clock < call.due := of_decide_eq_true hclock
    rcases hsafe with hdue | hall
    · omega
    · have hdue : call.due ≤ due := hall i (of_decide_eq_true hlt) _ htimer
      have hover := h.overdue i due htimer
      omega

theorem Inv.timeoutCancels (h : Inv s) {due : Nat} (htimer : s.timers i = some ⟨due, true⟩) :
    Inv { s with
      timers := Function.update s.timers i none
      current := none
      cutShort := s.cutShort || s.endsEarly i } := by
  have hmono : ∀ j, s.Safe j → Safe
      { s with
        timers := Function.update s.timers i none
        current := none
        cutShort := s.cutShort || s.endsEarly i } j :=
    fun j hj => hj.mono (Nat.le_refl _) (Nat.le_refl _) (fun k call hk => ⟨call.stage, hk⟩)
      fun k timer _ hk => ⟨timer.begun, (Table.erase_eq_some_iff.mp hk).1⟩
  refine ⟨h.callsFresh, fun k hk => ?_, fun k due' hk => ?_,
    fun k due' hk => hmono k (h.begun k due' hk), fun k hk => hmono k (h.latest k hk),
    (fun k hk => by cases hk), fun hd => ?_, ?_⟩
  · by_cases hki : k = i
    · subst hki
      exact Function.update_self ..
    · exact (Function.update_of_ne hki _ _).trans (h.timersFresh k hk)
  · exact h.overdue k due' (Table.erase_eq_some_iff.mp hk).1
  · obtain ⟨k, due', hlatest, hpending⟩ := h.pending hd
    refine ⟨k, due', hlatest, Table.erase_eq_some_iff.mpr ⟨hpending, ?_⟩⟩
    rintro rfl
    rw [hpending] at htimer
    cases htimer
  · dsimp only
    rw [h.cutShort, h.not_endsEarly htimer]
    rfl

theorem Inv.tick (h : Inv s) {now : Nat} (hnow : s.clock ≤ now) : Inv { s with clock := now } := by
  have hmono : ∀ j, s.Safe j → Safe { s with clock := now } j :=
    fun j hj => hj.mono (Nat.le_refl _) hnow (fun k call hk => ⟨call.stage, hk⟩)
      fun k timer _ hk => ⟨timer.begun, hk⟩
  exact ⟨h.callsFresh, h.timersFresh, fun k due hk => Nat.le_trans (h.overdue k due hk) hnow,
    fun k due hk => hmono k (h.begun k due hk), fun k hk => hmono k (h.latest k hk),
    fun k hk => hmono k (h.current k hk), h.pending, h.cutShort⟩

theorem Inv.setDiscovering (h : Inv s) {due : Nat} (hcall : s.calls i = some ⟨due, .begun⟩)
    (hpending : ∃ due, s.timers i = some ⟨due, false⟩) :
    Inv { s.setCall i ⟨due, .returned⟩ with discovering := true, latest := some i } := by
  have hset : Inv (s.setCall i ⟨due, .returned⟩) := h.setCall hcall (by decide)
  have hsafe : (s.setCall i ⟨due, .returned⟩).Safe i := by
    obtain ⟨hlt, call, hcall', hguard⟩ := h.begun i due hcall
    rw [hcall] at hcall'
    cases hcall'
    exact ⟨hlt, _, Function.update_self .., hguard⟩
  obtain ⟨due', htimer⟩ := hpending
  refine ⟨hset.callsFresh, hset.timersFresh, hset.overdue, hset.begun, fun k hk => ?_,
    hset.current, fun _ => ⟨i, due', rfl, htimer⟩, hset.cutShort⟩
  cases hk
  exact hsafe

theorem adapterStarts_eq_some {begins : Bool} (h : adapterStarts s i begins = some t) :
    ∃ due stage, s.calls i = some ⟨due, stage⟩ ∧
      (begins = true ∧ t = { s.setCall i ⟨due, .begun⟩ with current := some i } ∨
        begins = false ∧ ∃ stage', stage' ≠ .begun ∧ t = s.setCall i ⟨due, stage'⟩) := by
  unfold Discovery.adapterStarts at h
  split at h
  · rename_i due hcall
    refine ⟨due, _, hcall, ?_⟩
    split at h
    · rename_i hbegins
      exact .inl ⟨hbegins, (Option.some.inj h).symm⟩
    · rename_i hbegins
      exact .inr ⟨eq_false_of_ne_true hbegins, .refused, by decide, (Option.some.inj h).symm⟩
  · rename_i due hcall
    refine ⟨due, _, hcall, ?_⟩
    split at h
    · rename_i hbegins
      exact .inl ⟨hbegins, (Option.some.inj h).symm⟩
    · rename_i hbegins
      exact .inr ⟨eq_false_of_ne_true hbegins, .returned, by decide, (Option.some.inj h).symm⟩
  · cases h

theorem Inv.adapterStarts (h : Inv s) {begins : Bool}
    (hguard : Guard s (.adapterStarts i begins)) (hstep : adapterStarts s i begins = some t) :
    Inv t := by
  obtain ⟨due, stage, hcall, ⟨rfl, rfl⟩ | ⟨rfl, stage', hstage, rfl⟩⟩ :=
    adapterStarts_eq_some hstep
  · exact h.begin hcall (hguard _ hcall)
  · exact h.setCall hcall hstage

theorem Inv.step (h : Inv s) {a : Action} (hguard : Guard s a) (hstep : step s a = some t) :
    Inv t := by
  cases a with
  | startDiscovery timeout =>
    cases hstep
    exact h.startDiscovery timeout
  | adapterStarts i begins => exact h.adapterStarts hguard hstep
  | setDiscovering i =>
    rw [Discovery.step] at hstep
    split at hstep
    · rename_i hcall
      cases hstep
      exact h.setDiscovering hcall hguard
    · cases hstep
  | getInteractionCallback i found =>
    rw [Discovery.step] at hstep
    split at hstep
    · rename_i hcall
      cases hstep
      refine h.setCall hcall ?_
      split
      · decide
      · decide
    · cases hstep
  | answer i enabled =>
    rw [Discovery.step] at hstep
    split at hstep
    · rename_i hcall
      cases hstep
      refine h.setCall hcall ?_
      split
      · decide
      · decide
    · cases hstep
  | stopDiscovery =>
    cases hstep
    exact h.stopped (.inr rfl) _
  | cancelDiscovery =>
    rw [Discovery.step] at hstep
    split at hstep
    · cases hstep
    · cases hstep
      exact h.ended _
  | timeout i =>
    rw [Discovery.step] at hstep
    split at hstep
    · rename_i htimer
      split at hstep
      · rename_i hdue
        cases hstep
        exact h.timeout htimer hdue
      · cases hstep
    · cases hstep
  | timeoutCancels i =>
    rw [Discovery.step] at hstep
    split at hstep
    · rename_i htimer
      cases hstep
      exact h.timeoutCancels htimer
    · cases hstep
  | onStateChanged newState begins =>
    rw [Discovery.step] at hstep
    split at hstep
    · cases hstep
      exact ⟨h.callsFresh, h.timersFresh, h.overdue, h.begun, h.latest, h.latest, h.pending,
        h.cutShort⟩
    · cases hstep
      exact h
  | discoveryFinished =>
    cases hstep
    exact h.ended _
  | tick now =>
    rw [Discovery.step] at hstep
    split at hstep
    · cases hstep
    · rename_i hnow
      cases hstep
      exact h.tick (Nat.le_of_not_lt hnow)

/-- No time-out of an earlier call ends a discovery before its own time-out, and while the flag
is set the time-out of the last call that succeeded is pending. -/
theorem timeouts_own (hs : machine.ReachableVia Guard s) :
    s.cutShort = false ∧
      (s.discovering = true → ∃ i due, s.latest = some i ∧ s.timers i = some ⟨due, false⟩) := by
  have h : Inv s := by
    refine hs.invariant Inv (fun s hinit => ?_) fun _ _ _ h hguard hstep => h.step hguard hstep
    obtain ⟨hasAdapter, clock, rfl⟩ := hinit
    exact .initial hasAdapter clock
  exact ⟨h.cutShort, h.pending⟩

theorem reachable_initial {guard : Discovery → Action → Prop} :
    machine.ReachableVia guard (initial true 0) :=
  .start ⟨true, 0, rfl⟩

/-- A call succeeds, and is stopped by its own time-out. -/
theorem timeouts_own_begun : ∃ s, machine.ReachableVia Guard s ∧ s.discovering = true ∧
    s.cutShort = false ∧ ∃ i due, s.latest = some i ∧ s.timers i = some ⟨due, false⟩ := by
  have hposted : machine.ReachableVia Guard _ :=
    reachable_initial.after (.startDiscovery 5) trivial rfl
  have hbegun : machine.ReachableVia Guard _ :=
    hposted.after (.adapterStarts 0 true)
      (fun call _ => .inr fun k hk => absurd hk (Nat.not_lt_zero k)) rfl
  have hset : machine.ReachableVia Guard _ :=
    hbegun.after (.setDiscovering 0) ⟨5, rfl⟩ rfl
  exact ⟨_, hset, rfl, (timeouts_own hset).1, (timeouts_own hset).2 rfl⟩

/-- The time-out of a discovery that was stopped ends the next one, and a call that waited
for the dialog succeeds after its time-out. -/
theorem timeouts_stray :
    (∃ s, machine.Reachable s ∧ s.cutShort = true) ∧
      ∃ s, machine.Reachable s ∧ s.discovering = true ∧ s.latest = some 0 ∧
        s.timers 0 = none := by
  constructor
  · obtain ⟨s, hrun, hcut⟩ : ∃ s, machine.run (initial true 0)
        [.startDiscovery 5, .adapterStarts 0 true, .setDiscovering 0, .stopDiscovery,
          .cancelDiscovery, .startDiscovery 50, .adapterStarts 1 true, .setDiscovering 1,
          .tick 5, .timeout 0, .timeoutCancels 0] = some s ∧ s.cutShort = true :=
      ⟨_, rfl, rfl⟩
    exact ⟨s, Machine.Reachable.run reachable_initial hrun, hcut⟩
  · obtain ⟨s, hrun, hstate⟩ : ∃ s, machine.run (initial true 0)
        [.startDiscovery 5, .adapterStarts 0 false, .getInteractionCallback 0 true,
          .tick 5, .timeout 0, .timeoutCancels 0, .answer 0 true, .adapterStarts 0 true,
          .setDiscovering 0] = some s ∧ s.discovering = true ∧ s.latest = some 0 ∧
        s.timers 0 = none :=
      ⟨_, rfl, rfl, rfl, rfl⟩
    exact ⟨s, Machine.Reachable.run reachable_initial hrun, hstate⟩

theorem adapterStarts_begins {call : DiscoveryCall} (hcall : s.calls i = some call)
    (h : adapterStarts s i true = some t) :
    t = { s.setCall i ⟨call.due, .begun⟩ with current := some i } := by
  obtain ⟨due, stage, hcall', ⟨-, ht⟩ | ⟨hfalse, -⟩⟩ := adapterStarts_eq_some h
  · rw [hcall] at hcall'
    cases hcall'
    exact ht
  · cases hfalse

theorem endsEarly_of_lt {k : Nat} {call : DiscoveryCall} (hcurrent : s.current = some i)
    (hcall : s.calls i = some call) (hk : k < i) (hclock : s.clock < call.due) :
    s.endsEarly k = true := by
  rw [endsEarly, hcurrent, Option.any_some, hcall, Option.any_some, decide_eq_true hk,
    decide_eq_true hclock]
  rfl

theorem exists_timeoutCancels {k due : Nat} {call : DiscoveryCall}
    (htimer : s.timers k = some ⟨due, true⟩) (hcurrent : s.current = some i)
    (hcall : s.calls i = some call) (hk : k < i) (hclock : s.clock < call.due) :
    ∃ u, machine.step s (.timeoutCancels k) = some u ∧ u.cutShort = true := by
  have hstep : machine.step s (.timeoutCancels k) = some
      { s with
        timers := Function.update s.timers k none
        current := none
        cutShort := s.cutShort || s.endsEarly k } := by
    change step s (.timeoutCancels k) = _
    rw [step, htimer]
  refine ⟨_, hstep, ?_⟩
  dsimp only
  rw [endsEarly_of_lt hcurrent hcall hk hclock, Bool.or_true]

/-- A discovery that begins with an earlier time-out to come can be cut short. -/
theorem exists_cutShort {call : DiscoveryCall} (hcall : s.calls i = some call)
    (hguard : ¬ s.Unthreatened i call.due) (hstep : step s (.adapterStarts i true) = some t) :
    ∃ as u, machine.run t as = some u ∧ u.cutShort = true := by
  have ht := adapterStarts_begins hcall hstep
  have hclock : s.clock < call.due := Nat.lt_of_not_le fun hle => hguard (.inl hle)
  obtain ⟨k, hk, timer, htimer, hdue⟩ : ∃ k < i, ∃ timer, s.timers k = some timer ∧
      timer.due < call.due := by
    by_contra hnone
    refine hguard (.inr fun k hk timer htimer => Nat.le_of_not_lt fun hdue => ?_)
    exact hnone ⟨k, hk, timer, htimer, hdue⟩
  have hcall' : t.calls i = some ⟨call.due, .begun⟩ := by
    rw [ht]
    exact Function.update_self ..
  have hcurrent : t.current = some i := by rw [ht]
  have htimer' : t.timers k = some timer := by
    rw [ht]
    exact htimer
  have hclock' : t.clock < call.due := by
    rw [ht]
    exact hclock
  obtain ⟨due, begun⟩ := timer
  cases begun with
  | true =>
    obtain ⟨u, hu, hcut⟩ := exists_timeoutCancels htimer' hcurrent hcall' hk hclock'
    exact ⟨_, u, Machine.run_singleton hu, hcut⟩
  | false =>
    -- the clock comes to the time-out, which runs
    have hlater : max t.clock due < call.due := Nat.max_lt.mpr ⟨hclock', hdue⟩
    have htick : machine.step t (.tick (max t.clock due)) =
        some { t with clock := max t.clock due } :=
      if_neg (Nat.not_lt.mpr (Nat.le_max_left ..))
    have htimeout : machine.step { t with clock := max t.clock due } (.timeout k) =
        some { t with
          clock := max t.clock due
          discovering := false
          timers := Function.update t.timers k (some ⟨due, true⟩) } := by
      change step _ (.timeout k) = _
      rw [step]
      dsimp only
      rw [htimer']
      exact if_pos (Nat.le_max_right ..)
    obtain ⟨u, hu, hcut⟩ := exists_timeoutCancels (s :=
      { t with
        clock := max t.clock due
        discovering := false
        timers := Function.update t.timers k (some ⟨due, true⟩) })
      (Function.update_self ..) hcurrent hcall' hk hlater
    exact ⟨[.tick (max t.clock due), .timeout k, .timeoutCancels k], u,
      (Machine.run_of_step htick _).trans
        ((Machine.run_of_step htimeout _).trans (Machine.run_singleton hu)), hcut⟩

end Discovery

end AlmondAndroid.App
