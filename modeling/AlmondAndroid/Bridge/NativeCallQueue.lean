import AlmondAndroid.Bridge.CallQueue

/-!
# The native queue, and the order kept by both queues

`NativeCallQueue` carries closures from any thread to the node thread. It is
initialised before node starts, and its drain loop runs closures where that of
`CallQueue` calls the receiver; the rest of the two classes is the same.
-/

namespace AlmondAndroid.Bridge

open Library

namespace NativeCallQueue

inductive Action (α : Type)
  | init
  | invokeAsync (thread : Nat) (call : α)
  | wake (thread : Nat)
  | deliver
  | moveCalls
  | run
  | returnToLoop

def step {α : Type} (m : Mailbox Nat α) : Action α → Option (Mailbox Nat α)
  | .init => some m.openUp
  | .invokeAsync thread call => m.offer thread call
  | .wake thread => m.retry thread
  | .deliver => m.deliver
  | .moveCalls => m.take
  | .run => m.handOver.map Prod.snd
  | .returnToLoop => m.finish

def machine (α : Type) : Machine (Mailbox Nat α) (Action α) where
  Init m := m = Mailbox.closed
  step := step

theorem step_moves {α : Type} {m n : Mailbox Nat α} {a : Action α} (h : step m a = some n) :
    Mailbox.Moves (fun _ => True) m n := by
  cases a with
  | init =>
    cases h
    exact .openUp m
  | invokeAsync thread call => exact .offer trivial h
  | wake thread => exact .retry h
  | deliver => exact .deliver h
  | moveCalls => exact .take h
  | run =>
    obtain ⟨⟨call, box⟩, hhand, rfl⟩ := Option.map_eq_some_iff.mp h
    exact .handOver hhand
  | returnToLoop => exact .finish h

theorem wellFormed_of_reachable {α : Type} {m : Mailbox Nat α}
    (h : (machine α).Reachable m) : m.WellFormed := by
  apply h.invariant Mailbox.WellFormed
  · rintro m rfl
    exact .closed
  · intro m a n hm hstep
    exact hm.moves (step_moves hstep)

theorem refines_channel (α : Type) :
    Machine.Simulation (machine α) (Channel.machine α) Mailbox.channel where
  init := by
    rintro m rfl
    exact ⟨rfl, rfl⟩
  step _ _ _ hm hstep := (step_moves hstep).channel (wellFormed_of_reachable hm)

end NativeCallQueue

/-- A wake-up is pending while the flag is up and, once the loop has lowered it,
until its callback has taken the calls. -/
structure Orderly {α : Type} (m : Mailbox Nat α) : Prop where
  ordered : m.handed <+: m.appended
  nothingLost : m.appended = m.handed ++ m.consumer.batch ++ m.queue
  initialized : m.handed ≠ [] → m.opened = true
  wakeUpPending : m.queue ≠ [] → m.wake = true ∨ m.consumer = .woken

theorem orderly_of_wellFormed {α : Type} {m : Mailbox Nat α} (h : m.WellFormed)
    (hchannel : (Channel.machine α).Reachable m.channel) : Orderly m where
  ordered := Channel.prefix_of_reachable hchannel
  nothingLost := h.partition
  initialized hhanded := by
    apply h.opened
    rw [h.partition]
    simp [hhanded]
  wakeUpPending := h.awake

/-- Neither queue loses, duplicates or reorders a call. -/
theorem queues_keep_order :
    (∀ rt : Runtime, rt.Lawful → ∀ s, (CallQueue.machine rt).Reachable s →
      Orderly s.box ∧
      (∀ call ∈ s.box.handed, call.origin = .sync → call.useReturn = true) ∧
      ∀ batch, s.box.consumer = .draining batch → s.fault = none →
        ∀ vs : List rt.Value, vs.length ≤ batch.length →
          ∃ t, (CallQueue.machine rt).run s (vs.map fun v => .invoke (.threw v)) = some t ∧
            t.fault = none ∧ t.box.handed = s.box.handed ++ batch.take vs.length ∧
            t.box.consumer = .draining (batch.drop vs.length)) ∧
    ∀ (α : Type) (m : Mailbox Nat α), (NativeCallQueue.machine α).Reachable m → Orderly m := by
  constructor
  · intro rt hlaw s hs
    have hinv := CallQueue.boxInvariant_of_reachable hlaw hs
    refine ⟨orderly_of_wellFormed hinv.wellFormed ((CallQueue.refines_channel hlaw).reachable hs),
      ?_, ?_⟩
    · intro call hcall hsync
      have happended : call ∈ s.box.appended := by
        rw [hinv.wellFormed.partition]
        simp [hcall]
      exact (hinv.sound.appended call happended).useReturn.mpr hsync
    · intro batch hconsumer hfault vs hle
      exact CallQueue.run_invoke_threw hlaw vs hs hconsumer hfault hle
  · intro α m hm
    exact orderly_of_wellFormed (NativeCallQueue.wellFormed_of_reachable hm)
      ((NativeCallQueue.refines_channel α).reachable hm)

/-- A synchronous and an asynchronous call, moved out in one batch. -/
def Sample.batch : List (CallQueue.Action Sample.runtime) :=
  [.init, .setNodeReceiver, .invokeSync 0 (u16 "a") [.null], .invokeAsync 1 (u16 "b") [],
    .deliver, .moveCalls]

theorem queues_keep_order_batch : ∃ s t : CallQueue Sample.runtime,
    (CallQueue.machine Sample.runtime).run (CallQueue.initial Sample.runtime) Sample.batch =
      some s ∧
    Orderly s.box ∧ s.box.appended.length = 2 ∧
    (CallQueue.machine Sample.runtime).run s [.invoke (.threw .null)] = some t ∧
    t.box.consumer = .draining [⟨u16 "b", [], false, .async⟩] := by
  obtain ⟨s, hs, happended, hconsumer, hfault⟩ : ∃ s : CallQueue Sample.runtime,
      (CallQueue.machine Sample.runtime).run (CallQueue.initial Sample.runtime) Sample.batch =
        some s ∧ s.box.appended.length = 2 ∧ s.box.consumer = .draining
          [⟨u16 "a", [.null], true, .sync⟩, ⟨u16 "b", [], false, .async⟩] ∧ s.fault = none :=
    ⟨_, rfl, rfl, rfl, rfl⟩
  have hinit : (CallQueue.machine Sample.runtime).Reachable (CallQueue.initial Sample.runtime) :=
    .start rfl
  obtain ⟨horderly, -, hthrows⟩ :=
    queues_keep_order.1 Sample.runtime Sample.runtime_lawful s (hinit.run hs)
  obtain ⟨t, hrun, -, -, ht⟩ := hthrows _ hconsumer hfault [.null] (by decide)
  exact ⟨s, t, hs, horderly, happended, hrun, ht⟩

end AlmondAndroid.Bridge
