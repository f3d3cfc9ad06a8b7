import AlmondAndroid.Library.Machine
import AlmondAndroid.Library.Table
import Mathlib.Data.List.Basic

/-!
# Batching mailboxes

Any number of producers append under a lock; a producer that finds the mailbox
closed waits on a condition variable with its item. One consumer is woken by a
flag that coalesces the sends, moves the whole queue out under the lock and
hands the moved batch over element by element while producers go on appending.

Every locked section is one operation. `appended` and `handed` are histories.
The mailbox implements a first-in first-out channel whose messages are the
appended items.
-/

namespace AlmondAndroid.Library

universe u v

/-! ## The channel -/

structure Channel (α : Type v) where
  sent : List α
  received : List α

namespace Channel

variable {α : Type v}

inductive Action (α : Type v)
  | send (x : α)
  | receive

def step (c : Channel α) : Action α → Option (Channel α)
  | .send x => some { c with sent := c.sent ++ [x] }
  | .receive => c.sent[c.received.length]?.map fun x => { c with received := c.received ++ [x] }

def machine (α : Type v) : Machine (Channel α) (Action α) where
  Init c := c.sent = [] ∧ c.received = []
  step := step

/-! ### The two halves of a step, for machines made of several channels -/

def send (c : Channel α) (x : α) : Channel α :=
  { c with sent := c.sent ++ [x] }

def next (c : Channel α) : Option α :=
  c.sent[c.received.length]?

def receive (c : Channel α) (x : α) : Channel α :=
  { c with received := c.received ++ [x] }

theorem sent_of_next {c : Channel α} (h : c.received <+: c.sent) {x : α}
    (hnext : c.next = some x) : ∃ rest, c.sent = c.received ++ x :: rest := by
  obtain ⟨rest, hrest⟩ := h
  rw [next, ← hrest, List.getElem?_append_right (Nat.le_refl _), Nat.sub_self] at hnext
  cases rest with
  | nil => cases hnext
  | cons y rest =>
    cases hnext
    exact ⟨rest, hrest.symm⟩

theorem received_of_next {c : Channel α} (h : c.received <+: c.sent) (hnext : c.next = none) :
    c.received = c.sent := by
  apply h.eq_of_length
  have hle := h.length_le
  have hge := List.getElem?_eq_none_iff.mp hnext
  omega

theorem prefix_send {c : Channel α} (h : c.received <+: c.sent) (x : α) :
    (c.send x).received <+: (c.send x).sent :=
  h.trans (List.prefix_append c.sent [x])

theorem prefix_receive {c : Channel α} (h : c.received <+: c.sent) {x : α}
    (hnext : c.next = some x) : (c.receive x).received <+: (c.receive x).sent := by
  obtain ⟨rest, hrest⟩ := sent_of_next h hnext
  refine ⟨rest, ?_⟩
  change c.received ++ [x] ++ rest = c.sent
  rw [hrest, List.append_assoc]
  rfl

theorem prefix_step {c d : Channel α} {a : Action α} (h : c.received <+: c.sent)
    (hstep : c.step a = some d) : d.received <+: d.sent := by
  cases a with
  | send x =>
    cases hstep
    exact prefix_send h x
  | receive =>
    obtain ⟨x, hx, rfl⟩ := Option.map_eq_some_iff.mp hstep
    exact prefix_receive h hx

theorem prefix_of_reachable {c : Channel α} (h : (machine α).Reachable c) :
    c.received <+: c.sent := by
  apply h.invariant fun c => c.received <+: c.sent
  · intro c hc
    exact ⟨c.sent, by rw [hc.2, List.nil_append]⟩
  · intro c a d hc hstep
    exact prefix_step hc hstep

end Channel

/-! ## The mailbox -/

inductive Consumer (α : Type v)
  | asleep
  | woken
  | draining (batch : List α)

def Consumer.batch {α : Type v} : Consumer α → List α
  | .asleep => []
  | .woken => []
  | .draining batch => batch

structure Mailbox (ι : Type u) (α : Type v) where
  opened : Bool
  waiting : ι → Option α
  queue : List α
  wake : Bool
  consumer : Consumer α
  appended : List α
  handed : List α

namespace Mailbox

variable {ι : Type u} {α : Type v}

def closed : Mailbox ι α where
  opened := false
  waiting _ := none
  queue := []
  wake := false
  consumer := .asleep
  appended := []
  handed := []

def append (m : Mailbox ι α) (x : α) : Mailbox ι α :=
  { m with queue := m.queue ++ [x], wake := true, appended := m.appended ++ [x] }

def openUp (m : Mailbox ι α) : Mailbox ι α :=
  { m with opened := true }

def deliver (m : Mailbox ι α) : Option (Mailbox ι α) :=
  match m.wake, m.consumer with
  | true, .asleep => some { m with wake := false, consumer := .woken }
  | _, _ => none

def take (m : Mailbox ι α) : Option (Mailbox ι α) :=
  match m.consumer with
  | .woken => some { m with queue := [], consumer := .draining m.queue }
  | _ => none

def handOver (m : Mailbox ι α) : Option (α × Mailbox ι α) :=
  match m.consumer with
  | .draining (x :: batch) =>
      some (x, { m with consumer := .draining batch, handed := m.handed ++ [x] })
  | _ => none

def finish (m : Mailbox ι α) : Option (Mailbox ι α) :=
  match m.consumer with
  | .draining [] => some { m with consumer := .asleep }
  | _ => none

variable [DecidableEq ι]

def offer (m : Mailbox ι α) (i : ι) (x : α) : Option (Mailbox ι α) :=
  match m.waiting i with
  | some _ => none
  | none =>
      if m.opened then some (m.append x)
      else some { m with waiting := Function.update m.waiting i (some x) }

/-- A waiting producer wakes up, for whatever reason, and checks again. -/
def retry (m : Mailbox ι α) (i : ι) : Option (Mailbox ι α) :=
  match m.waiting i with
  | none => none
  | some x =>
      if m.opened then
        some { m.append x with waiting := Function.update m.waiting i none }
      else some m

/-! ### What each operation does -/

omit [DecidableEq ι] in
theorem deliver_eq_some {m n : Mailbox ι α} (h : m.deliver = some n) :
    m.wake = true ∧ m.consumer = .asleep ∧ n = { m with wake := false, consumer := .woken } := by
  rw [deliver] at h
  split at h
  · rename_i hwake hconsumer
    exact ⟨hwake, hconsumer, (Option.some.inj h).symm⟩
  · cases h

omit [DecidableEq ι] in
theorem take_eq_some {m n : Mailbox ι α} (h : m.take = some n) :
    m.consumer = .woken ∧ n = { m with queue := [], consumer := .draining m.queue } := by
  rw [take] at h
  split at h
  · rename_i hconsumer
    exact ⟨hconsumer, (Option.some.inj h).symm⟩
  · cases h

omit [DecidableEq ι] in
theorem handOver_eq_some {m n : Mailbox ι α} {x : α} (h : m.handOver = some (x, n)) :
    ∃ batch, m.consumer = .draining (x :: batch) ∧
      n = { m with consumer := .draining batch, handed := m.handed ++ [x] } := by
  rw [handOver] at h
  split at h
  · rename_i y batch hconsumer
    cases h
    exact ⟨batch, hconsumer, rfl⟩
  · cases h

omit [DecidableEq ι] in
theorem finish_eq_some {m n : Mailbox ι α} (h : m.finish = some n) :
    m.consumer = .draining [] ∧ n = { m with consumer := .asleep } := by
  rw [finish] at h
  split at h
  · rename_i hconsumer
    exact ⟨hconsumer, (Option.some.inj h).symm⟩
  · cases h

theorem offer_eq_some {m n : Mailbox ι α} {i : ι} {x : α} (h : m.offer i x = some n) :
    m.waiting i = none ∧
      ((m.opened = true ∧ n = m.append x) ∨
        (m.opened = false ∧ n = { m with waiting := Function.update m.waiting i (some x) })) := by
  rw [offer] at h
  split at h
  · cases h
  · rename_i hwaiting
    refine ⟨hwaiting, ?_⟩
    split at h
    · rename_i hopened
      exact .inl ⟨hopened, (Option.some.inj h).symm⟩
    · rename_i hopened
      exact .inr ⟨Bool.not_eq_true _ ▸ hopened, (Option.some.inj h).symm⟩

theorem retry_eq_some {m n : Mailbox ι α} {i : ι} (h : m.retry i = some n) :
    ∃ x, m.waiting i = some x ∧
      ((m.opened = true ∧
          n = { m.append x with waiting := Function.update m.waiting i none }) ∨
        (m.opened = false ∧ n = m)) := by
  rw [retry] at h
  split at h
  · cases h
  · rename_i x hwaiting
    refine ⟨x, hwaiting, ?_⟩
    split at h
    · rename_i hopened
      exact .inl ⟨hopened, (Option.some.inj h).symm⟩
    · rename_i hopened
      exact .inr ⟨Bool.not_eq_true _ ▸ hopened, (Option.some.inj h).symm⟩

omit [DecidableEq ι] in
theorem deliver_handed {m n : Mailbox ι α} (h : m.deliver = some n) : n.handed = m.handed := by
  obtain ⟨-, -, rfl⟩ := deliver_eq_some h
  rfl

omit [DecidableEq ι] in
theorem take_handed {m n : Mailbox ι α} (h : m.take = some n) : n.handed = m.handed := by
  obtain ⟨-, rfl⟩ := take_eq_some h
  rfl

omit [DecidableEq ι] in
theorem handOver_handed {m n : Mailbox ι α} {x : α} (h : m.handOver = some (x, n)) :
    n.handed = m.handed ++ [x] := by
  obtain ⟨batch, -, rfl⟩ := handOver_eq_some h
  rfl

omit [DecidableEq ι] in
theorem finish_handed {m n : Mailbox ι α} (h : m.finish = some n) : n.handed = m.handed := by
  obtain ⟨-, rfl⟩ := finish_eq_some h
  rfl

theorem offer_handed {m n : Mailbox ι α} {i : ι} {x : α} (h : m.offer i x = some n) :
    n.handed = m.handed := by
  obtain ⟨-, ⟨-, rfl⟩ | ⟨-, rfl⟩⟩ := offer_eq_some h <;> rfl

theorem retry_handed {m n : Mailbox ι α} {i : ι} (h : m.retry i = some n) :
    n.handed = m.handed := by
  obtain ⟨x, -, ⟨-, rfl⟩ | ⟨-, rfl⟩⟩ := retry_eq_some h <;> rfl

/-! ### The invariant -/

structure WellFormed (m : Mailbox ι α) : Prop where
  partition : m.appended = m.handed ++ m.consumer.batch ++ m.queue
  awake : m.queue ≠ [] → m.wake = true ∨ m.consumer = .woken
  opened : m.appended ≠ [] → m.opened = true
  active : m.wake = true ∨ m.consumer ≠ .asleep → m.opened = true

namespace WellFormed

omit [DecidableEq ι] in
theorem closed : (closed : Mailbox ι α).WellFormed := by
  constructor <;> simp [Mailbox.closed, Consumer.batch]

omit [DecidableEq ι] in
theorem append {m : Mailbox ι α} (h : m.WellFormed) (hopened : m.opened = true) (x : α) :
    (m.append x).WellFormed where
  partition := by simp [Mailbox.append, h.partition]
  awake _ := .inl rfl
  opened _ := hopened
  active _ := hopened

omit [DecidableEq ι] in
theorem congr_waiting {m : Mailbox ι α} (h : m.WellFormed) (waiting : ι → Option α) :
    { m with waiting := waiting }.WellFormed :=
  ⟨h.partition, h.awake, h.opened, h.active⟩

omit [DecidableEq ι] in
theorem openUp {m : Mailbox ι α} (h : m.WellFormed) : m.openUp.WellFormed where
  partition := h.partition
  awake := h.awake
  opened _ := rfl
  active _ := rfl

theorem offer {m n : Mailbox ι α} (h : m.WellFormed) {i : ι} {x : α}
    (hoffer : m.offer i x = some n) : n.WellFormed := by
  obtain ⟨-, ⟨hopened, rfl⟩ | ⟨-, rfl⟩⟩ := offer_eq_some hoffer
  · exact h.append hopened x
  · exact h.congr_waiting _

theorem retry {m n : Mailbox ι α} (h : m.WellFormed) {i : ι}
    (hretry : m.retry i = some n) : n.WellFormed := by
  obtain ⟨x, -, ⟨hopened, rfl⟩ | ⟨-, rfl⟩⟩ := retry_eq_some hretry
  · exact (h.append hopened x).congr_waiting _
  · exact h

omit [DecidableEq ι] in
theorem deliver {m n : Mailbox ι α} (h : m.WellFormed) (hdeliver : m.deliver = some n) :
    n.WellFormed := by
  obtain ⟨hwake, hconsumer, rfl⟩ := deliver_eq_some hdeliver
  exact {
    partition := by simpa [hconsumer, Consumer.batch] using h.partition
    awake := fun _ => .inr rfl
    opened := h.opened
    active := fun _ => h.active (.inl hwake) }

omit [DecidableEq ι] in
theorem take {m n : Mailbox ι α} (h : m.WellFormed) (htake : m.take = some n) :
    n.WellFormed := by
  obtain ⟨hconsumer, rfl⟩ := take_eq_some htake
  exact {
    partition := by simpa [hconsumer, Consumer.batch] using h.partition
    awake := fun hqueue => absurd rfl hqueue
    opened := h.opened
    active := fun _ => h.active (.inr (by simp [hconsumer])) }

omit [DecidableEq ι] in
theorem handOver {m n : Mailbox ι α} (h : m.WellFormed) {x : α}
    (hhand : m.handOver = some (x, n)) : n.WellFormed := by
  obtain ⟨batch, hconsumer, rfl⟩ := handOver_eq_some hhand
  exact {
    partition := by simpa [hconsumer, Consumer.batch] using h.partition
    awake := fun hqueue => by simpa [hconsumer] using h.awake hqueue
    opened := h.opened
    active := fun _ => h.active (.inr (by simp [hconsumer])) }

omit [DecidableEq ι] in
theorem finish {m n : Mailbox ι α} (h : m.WellFormed) (hfinish : m.finish = some n) :
    n.WellFormed := by
  obtain ⟨hconsumer, rfl⟩ := finish_eq_some hfinish
  exact {
    partition := by simpa [hconsumer, Consumer.batch] using h.partition
    awake := fun hqueue => by simpa [hconsumer] using h.awake hqueue
    opened := h.opened
    active := fun _ => h.active (.inr (by simp [hconsumer])) }

end WellFormed

/-! ### One step of a mailbox -/

/-- Any operation, or none; the items offered satisfy `P`. -/
inductive Moves (P : α → Prop) : Mailbox ι α → Mailbox ι α → Prop
  | stay (m : Mailbox ι α) : Moves P m m
  | openUp (m : Mailbox ι α) : Moves P m m.openUp
  | offer {m n : Mailbox ι α} {i : ι} {x : α} : P x → m.offer i x = some n → Moves P m n
  | retry {m n : Mailbox ι α} {i : ι} : m.retry i = some n → Moves P m n
  | deliver {m n : Mailbox ι α} : m.deliver = some n → Moves P m n
  | take {m n : Mailbox ι α} : m.take = some n → Moves P m n
  | handOver {m n : Mailbox ι α} {x : α} : m.handOver = some (x, n) → Moves P m n
  | finish {m n : Mailbox ι α} : m.finish = some n → Moves P m n

theorem WellFormed.moves {P : α → Prop} {m n : Mailbox ι α} (h : m.WellFormed)
    (hmoves : Moves P m n) : n.WellFormed := by
  cases hmoves with
  | stay => exact h
  | openUp => exact h.openUp
  | offer _ hoffer => exact h.offer hoffer
  | retry hretry => exact h.retry hretry
  | deliver hdeliver => exact h.deliver hdeliver
  | take htake => exact h.take htake
  | handOver hhand => exact h.handOver hhand
  | finish hfinish => exact h.finish hfinish

structure Everywhere (P : α → Prop) (m : Mailbox ι α) : Prop where
  appended : ∀ x ∈ m.appended, P x
  waiting : ∀ i x, m.waiting i = some x → P x

omit [DecidableEq ι] in
theorem Everywhere.closed (P : α → Prop) : Everywhere P (Mailbox.closed : Mailbox ι α) where
  appended _ hx := absurd hx List.not_mem_nil
  waiting _ _ h := by cases h

omit [DecidableEq ι] in
theorem Everywhere.append {P : α → Prop} {m : Mailbox ι α} (h : Everywhere P m) {x : α}
    (hx : P x) : Everywhere P (m.append x) where
  appended y hy := by
    rcases List.mem_append.mp hy with hy | hy
    · exact h.appended y hy
    · rw [List.mem_singleton.mp hy]
      exact hx
  waiting := h.waiting

theorem Everywhere.moves {P : α → Prop} {m n : Mailbox ι α} (h : Everywhere P m)
    (hmoves : Moves P m n) : Everywhere P n := by
  cases hmoves with
  | stay => exact h
  | openUp => exact ⟨h.appended, h.waiting⟩
  | @offer _ i x hx hoffer =>
    obtain ⟨-, ⟨-, rfl⟩ | ⟨-, rfl⟩⟩ := offer_eq_some hoffer
    · exact h.append hx
    · refine ⟨h.appended, fun j y hy => ?_⟩
      rcases Table.update_eq_some hy with ⟨-, hy⟩ | ⟨-, hy⟩
      · cases hy
        exact hx
      · exact h.waiting j y hy
  | @retry _ i hretry =>
    obtain ⟨x, hx, ⟨-, rfl⟩ | ⟨-, rfl⟩⟩ := retry_eq_some hretry
    · refine ⟨(h.append (h.waiting i x hx)).appended, fun j y hy => ?_⟩
      rcases Table.update_eq_some hy with ⟨-, hy⟩ | ⟨-, hy⟩
      · cases hy
      · exact h.waiting j y hy
    · exact h
  | deliver hdeliver =>
    obtain ⟨-, -, rfl⟩ := deliver_eq_some hdeliver
    exact ⟨h.appended, h.waiting⟩
  | take htake =>
    obtain ⟨-, rfl⟩ := take_eq_some htake
    exact ⟨h.appended, h.waiting⟩
  | handOver hhand =>
    obtain ⟨batch, -, rfl⟩ := handOver_eq_some hhand
    exact ⟨h.appended, h.waiting⟩
  | finish hfinish =>
    obtain ⟨-, rfl⟩ := finish_eq_some hfinish
    exact ⟨h.appended, h.waiting⟩

omit [DecidableEq ι] in
theorem WellFormed.mem_appended {m : Mailbox ι α} (h : m.WellFormed) {x : α} {batch : List α}
    (hconsumer : m.consumer = .draining (x :: batch)) : x ∈ m.appended := by
  rw [h.partition, hconsumer]
  simp [Consumer.batch]

/-! ### What is still to be handed over -/

def pending (m : Mailbox ι α) : List α :=
  m.consumer.batch ++ m.queue

theorem pending_offer {m n : Mailbox ι α} {i : ι} {x : α} (hopened : m.opened = true)
    (hoffer : m.offer i x = some n) :
    n.pending = m.pending ++ [x] ∧ n.opened = true ∧ n.waiting = m.waiting := by
  obtain ⟨-, ⟨-, rfl⟩ | ⟨hclosed, -⟩⟩ := offer_eq_some hoffer
  · refine ⟨?_, hopened, rfl⟩
    rw [pending, pending, List.append_assoc]
    rfl
  · rw [hopened] at hclosed
    cases hclosed

theorem offer_consumer {m n : Mailbox ι α} {i : ι} {x : α} (hoffer : m.offer i x = some n) :
    n.consumer = m.consumer := by
  obtain ⟨-, ⟨-, rfl⟩ | ⟨-, rfl⟩⟩ := offer_eq_some hoffer <;> rfl

omit [DecidableEq ι] in
theorem pending_handOver {m n : Mailbox ι α} {x : α} (hhand : m.handOver = some (x, n)) :
    m.pending = x :: n.pending ∧ n.opened = m.opened ∧ n.waiting = m.waiting := by
  obtain ⟨batch, hconsumer, rfl⟩ := handOver_eq_some hhand
  refine ⟨?_, rfl, rfl⟩
  rw [pending, hconsumer]
  rfl

/-- What the consumer's loop does besides handing items over. -/
inductive Turn
  | deliver
  | take
  | finish

def turn (m : Mailbox ι α) : Turn → Option (Mailbox ι α)
  | .deliver => m.deliver
  | .take => m.take
  | .finish => m.finish

theorem turn_moves (P : α → Prop) {m n : Mailbox ι α} {t : Turn} (h : m.turn t = some n) :
    Moves P m n := by
  cases t with
  | deliver => exact .deliver h
  | take => exact .take h
  | finish => exact .finish h

omit [DecidableEq ι] in
theorem pending_turn {m n : Mailbox ι α} {t : Turn} (h : m.turn t = some n) :
    n.pending = m.pending ∧ n.opened = m.opened ∧ n.waiting = m.waiting := by
  cases t with
  | deliver =>
    obtain ⟨-, hconsumer, rfl⟩ := deliver_eq_some h
    refine ⟨?_, rfl, rfl⟩
    rw [pending, pending, hconsumer]
    rfl
  | take =>
    obtain ⟨hconsumer, rfl⟩ := take_eq_some h
    refine ⟨?_, rfl, rfl⟩
    rw [pending, pending, hconsumer]
    exact List.append_nil _
  | finish =>
    obtain ⟨hconsumer, rfl⟩ := finish_eq_some h
    refine ⟨?_, rfl, rfl⟩
    rw [pending, pending, hconsumer]
    rfl

def turns (m : Mailbox ι α) : List Turn → Option (Mailbox ι α)
  | [] => some m
  | t :: ts => (m.turn t).bind fun n => n.turns ts

omit [DecidableEq ι] in
theorem pending_turns {ts : List Turn} :
    ∀ {m n : Mailbox ι α}, m.turns ts = some n → n.pending = m.pending := by
  induction ts with
  | nil =>
    intro m n h
    cases h
    rfl
  | cons t ts ih =>
    intro m n h
    obtain ⟨m', hturn, hturns⟩ := Option.bind_eq_some_iff.mp h
    exact (ih hturns).trans (pending_turn hturn).1

omit [DecidableEq ι] in
theorem handOver_enabled {m : Mailbox ι α} {x : α} {batch : List α}
    (hconsumer : m.consumer = .draining (x :: batch)) :
    m.handOver =
      some (x, { m with consumer := .draining batch, handed := m.handed ++ [x] }) := by
  rw [handOver, hconsumer]

omit [DecidableEq ι] in
theorem turns_of_woken {m : Mailbox ι α} {x : α} {rest : List α} (hpending : m.pending = x :: rest)
    (hconsumer : m.consumer = .woken) :
    ∃ n n', m.turns [.take] = some n ∧ n.handOver = some (x, n') := by
  rw [pending, hconsumer] at hpending
  have hqueue : m.queue = x :: rest := hpending
  have htake : m.turns [.take] =
      some { m with queue := [], consumer := .draining (x :: rest) } := by
    rw [turns, turn, take, hconsumer, hqueue]
    rfl
  exact ⟨_, _, htake, handOver_enabled rfl⟩

theorem WellFormed.exists_turns {m : Mailbox ι α} (h : m.WellFormed) {x : α} {rest : List α}
    (hpending : m.pending = x :: rest) :
    ∃ ts n n', m.turns ts = some n ∧ n.handOver = some (x, n') := by
  have hasleep : ∀ m : Mailbox ι α, m.WellFormed → m.pending = x :: rest →
      m.consumer = .asleep → ∃ ts n n', m.turns ts = some n ∧ n.handOver = some (x, n') := by
    intro m hm hpending hconsumer
    have hqueue : m.queue ≠ [] := by
      intro hqueue
      rw [pending, hconsumer, hqueue] at hpending
      cases hpending
    have hwake : m.wake = true := by
      rcases hm.awake hqueue with hwake | hwoken
      · exact hwake
      · rw [hconsumer] at hwoken
        cases hwoken
    have hdeliver : m.turn .deliver = some { m with wake := false, consumer := .woken } := by
      rw [turn, Mailbox.deliver, hwake, hconsumer]
    have hnext := (pending_turn hdeliver).1.trans hpending
    obtain ⟨n, n', hn, hn'⟩ := turns_of_woken hnext rfl
    refine ⟨[.deliver, .take], n, n', ?_, hn'⟩
    rw [turns, hdeliver]
    exact hn
  cases hconsumer : m.consumer with
  | asleep => exact hasleep m h hpending hconsumer
  | woken =>
    obtain ⟨n, n', hn, hn'⟩ := turns_of_woken hpending hconsumer
    exact ⟨[.take], n, n', hn, hn'⟩
  | draining batch =>
    cases batch with
    | cons y batch =>
      rw [pending, hconsumer] at hpending
      cases hpending
      exact ⟨[], m, _, rfl, handOver_enabled hconsumer⟩
    | nil =>
      have hfinish : m.turn .finish = some { m with consumer := .asleep } := by
        rw [turn, Mailbox.finish, hconsumer]
      have hwf : WellFormed { m with consumer := .asleep } :=
        h.moves (turn_moves (fun _ => True) hfinish)
      obtain ⟨ts, n, n', hn, hn'⟩ := hasleep _ hwf ((pending_turn hfinish).1.trans hpending) rfl
      refine ⟨.finish :: ts, n, n', ?_, hn'⟩
      rw [turns, hfinish]
      exact hn

/-! ### The items of one producer -/

/-- What producer `i` has offered among the items that meet `p`, in the order of its offers. -/
def sentBy (m : Mailbox ι α) (p : α → Bool) (i : ι) : List α :=
  m.appended.filter p ++ (m.waiting i).toList.filter p

/-- The items that meet `p` are waited with by one producer only. -/
def OnlyFrom (m : Mailbox ι α) (p : α → Bool) (i : ι) : Prop :=
  ∀ j x, m.waiting j = some x → p x = true → j = i

variable {p : α → Bool}

omit [DecidableEq ι] in
theorem onlyFrom_closed (i : ι) : (closed : Mailbox ι α).OnlyFrom p i := by
  intro j x hx
  cases hx

theorem OnlyFrom.offer {m n : Mailbox ι α} {i j : ι} {x : α} (h : m.OnlyFrom p i)
    (hx : p x = true → j = i) (hoffer : m.offer j x = some n) :
    n.OnlyFrom p i ∧ n.sentBy p i = m.sentBy p i ++ [x].filter p := by
  obtain ⟨hnone, ⟨-, rfl⟩ | ⟨-, rfl⟩⟩ := offer_eq_some hoffer
  · refine ⟨h, ?_⟩
    cases hpx : p x with
    | true =>
      rw [hx hpx] at hnone
      simp [sentBy, Mailbox.append, hnone, hpx]
    | false => simp [sentBy, Mailbox.append, hpx]
  · constructor
    · intro k y hy hpy
      rcases Table.update_eq_some hy with ⟨hkj, hy⟩ | ⟨-, hy⟩
      · cases hy
        exact hkj.trans (hx hpy)
      · exact h k y hy hpy
    · by_cases hij : i = j
      · subst hij
        simp [sentBy, hnone]
      · have hpx : p x = false := by
          cases hpx : p x with
          | false => rfl
          | true => exact absurd (hx hpx).symm hij
        simp [sentBy, Function.update_of_ne hij, hpx]

theorem OnlyFrom.retry {m n : Mailbox ι α} {i j : ι} (h : m.OnlyFrom p i)
    (hretry : m.retry j = some n) : n.OnlyFrom p i ∧ n.sentBy p i = m.sentBy p i := by
  obtain ⟨x, hx, ⟨-, rfl⟩ | ⟨-, rfl⟩⟩ := retry_eq_some hretry
  · constructor
    · intro k y hy hpy
      rcases Table.update_eq_some hy with ⟨-, hy⟩ | ⟨-, hy⟩
      · cases hy
      · exact h k y hy hpy
    · by_cases hij : i = j
      · subst hij
        simp [sentBy, Mailbox.append, hx]
      · have hpx : p x = false := by
          cases hpx : p x with
          | false => rfl
          | true => exact absurd (h j x hx hpx).symm hij
        simp [sentBy, Mailbox.append, Function.update_of_ne hij, hpx]
  · exact ⟨h, rfl⟩

omit [DecidableEq ι] in
theorem sentBy_congr {m n : Mailbox ι α} (happended : n.appended = m.appended)
    (hwaiting : n.waiting = m.waiting) (i : ι) : n.sentBy p i = m.sentBy p i := by
  rw [sentBy, sentBy, happended, hwaiting]

omit [DecidableEq ι] in
theorem WellFormed.filter_handed_prefix {m : Mailbox ι α} (h : m.WellFormed) (i : ι) :
    m.handed.filter p <+: m.sentBy p i := by
  rw [sentBy, h.partition, List.append_assoc, List.filter_append, List.append_assoc]
  exact List.prefix_append ..

omit [DecidableEq ι] in
theorem WellFormed.filter_handed_of_rest {m : Mailbox ι α} (h : m.WellFormed)
    (hpending : m.pending = []) {i : ι} (hwaiting : m.waiting i = none) :
    m.handed.filter p = m.sentBy p i := by
  have happended : m.appended = m.handed := by
    rw [h.partition, List.append_assoc]
    exact (congrArg (m.handed ++ ·) hpending).trans (List.append_nil _)
  rw [sentBy, happended, hwaiting]
  exact (List.append_nil _).symm

/-! ### The mailbox implements the channel -/

def channel (m : Mailbox ι α) : Channel α :=
  ⟨m.appended, m.handed⟩

theorem Moves.channel {P : α → Prop} {m n : Mailbox ι α} (hwf : m.WellFormed)
    (hmoves : Moves P m n) : ∃ bs, (Channel.machine α).run m.channel bs = some n.channel := by
  cases hmoves with
  | stay => exact ⟨[], rfl⟩
  | openUp => exact ⟨[], rfl⟩
  | @offer _ i x _ hoffer =>
    obtain ⟨-, ⟨-, rfl⟩ | ⟨-, rfl⟩⟩ := offer_eq_some hoffer
    · exact ⟨[.send x], rfl⟩
    · exact ⟨[], rfl⟩
  | retry hretry =>
    obtain ⟨x, -, ⟨-, rfl⟩ | ⟨-, rfl⟩⟩ := retry_eq_some hretry
    · exact ⟨[.send x], rfl⟩
    · exact ⟨[], rfl⟩
  | deliver hdeliver =>
    obtain ⟨-, -, rfl⟩ := deliver_eq_some hdeliver
    exact ⟨[], rfl⟩
  | take htake =>
    obtain ⟨-, rfl⟩ := take_eq_some htake
    exact ⟨[], rfl⟩
  | @handOver _ x hhand =>
    obtain ⟨batch, hconsumer, rfl⟩ := handOver_eq_some hhand
    have hnext : m.appended[m.handed.length]? = some x := by
      rw [hwf.partition, hconsumer, List.append_assoc,
        List.getElem?_append_right (Nat.le_refl _)]
      simp [Consumer.batch]
    refine ⟨[.receive], ?_⟩
    simp [Channel.machine, Channel.step, Mailbox.channel, hnext]
  | finish hfinish =>
    obtain ⟨-, rfl⟩ := finish_eq_some hfinish
    exact ⟨[], rfl⟩

end Mailbox

end AlmondAndroid.Library
