import AlmondAndroid.Assistant.Message
import Mathlib.Data.List.DropRight

/-!
# The history of the conversation

`AssistantHistoryModel` tells its listeners of every change with the index at which
it happens. `notifications` is what a listener has been told so far.
-/

namespace AlmondAndroid.Assistant

inductive Notification
  | added (msg : AssistantMessage) (idx : Nat)
  | removed (msg : AssistantMessage) (idx : Nat)
  | clear

structure AssistantHistoryModel where
  store : List AssistantMessage
  notifications : List Notification

namespace AssistantHistoryModel

def empty : AssistantHistoryModel := ⟨[], []⟩

def notify (m : AssistantHistoryModel) (n : Notification) : AssistantHistoryModel :=
  { m with notifications := m.notifications ++ [n] }

def add (m : AssistantHistoryModel) (msg : AssistantMessage) : AssistantHistoryModel × Bool :=
  if msg.isFiltered then (m, false)
  else ({ m with store := m.store ++ [msg] }.notify (.added msg m.store.length), true)

/-- The loop of `removeButtons`; the number is the cursor of the list iterator. -/
def removeButtonsFrom (m : AssistantHistoryModel) : Nat → AssistantHistoryModel
  | 0 => m
  | idx + 1 =>
      match m.store[idx]? with
      | none => m
      | some msg =>
          if msg.isInteraction then
            ({ m with store := m.store.eraseIdx idx }.notify (.removed msg idx)).removeButtonsFrom
              idx
          else m

def removeButtons (m : AssistantHistoryModel) : AssistantHistoryModel :=
  m.removeButtonsFrom m.store.length

def clear (m : AssistantHistoryModel) : AssistantHistoryModel :=
  { m with store := [] }.notify .clear

inductive Operation
  | add (msg : AssistantMessage)
  | removeButtons
  | clear

def apply (m : AssistantHistoryModel) : Operation → AssistantHistoryModel
  | .add msg => (m.add msg).1
  | .removeButtons => m.removeButtons
  | .clear => m.clear

/-! ## What a listener does -/

/-- A copy of the list takes a notification whose index is valid for it. -/
inductive Replays : List AssistantMessage → Notification → List AssistantMessage → Prop
  | added {copy : List AssistantMessage} {msg : AssistantMessage} {idx : Nat} :
      idx ≤ copy.length → Replays copy (.added msg idx) (copy.insertIdx idx msg)
  | removed {copy : List AssistantMessage} {msg : AssistantMessage} {idx : Nat} :
      copy[idx]? = some msg → Replays copy (.removed msg idx) (copy.eraseIdx idx)
  | clear {copy : List AssistantMessage} : Replays copy .clear []

inductive ReplaysAll : List AssistantMessage → List Notification → List AssistantMessage → Prop
  | nil {copy : List AssistantMessage} : ReplaysAll copy [] copy
  | cons {copy next last : List AssistantMessage} {n : Notification} {ns : List Notification} :
      Replays copy n next → ReplaysAll next ns last → ReplaysAll copy (n :: ns) last

/-- The copy equals the store, and after each operation it does so again, once it has
taken what the operation has notified. -/
def Mirrors (m : AssistantHistoryModel) (copy : List AssistantMessage) : List Operation → Prop
  | [] => copy = m.store
  | op :: ops => copy = m.store ∧ ∃ ns next,
      (m.apply op).notifications = m.notifications ++ ns ∧ ReplaysAll copy ns next ∧
      (m.apply op).Mirrors next ops

/-! ## Adding and removing -/

theorem add_of_isFiltered (m : AssistantHistoryModel) {msg : AssistantMessage}
    (h : msg.isFiltered = true) : m.add msg = (m, false) := by
  rw [add, if_pos h]

theorem add_of_not_isFiltered (m : AssistantHistoryModel) {msg : AssistantMessage}
    (h : msg.isFiltered = false) : m.add msg =
      (⟨m.store ++ [msg], m.notifications ++ [.added msg m.store.length]⟩, true) := by
  rw [add, h]
  rfl

theorem removeButtonsFrom_spec (store : List AssistantMessage) :
    ∀ told : List Notification, ∃ ns,
      removeButtonsFrom ⟨store, told⟩ store.length =
        ⟨store.rdropWhile AssistantMessage.isInteraction, told ++ ns⟩ ∧
      ReplaysAll store ns (store.rdropWhile AssistantMessage.isInteraction) := by
  induction store using List.reverseRecOn with
  | nil =>
    intro told
    exact ⟨[], by rw [List.append_nil]; rfl, .nil⟩
  | append_singleton store msg ih =>
    intro told
    have hget : (store ++ [msg])[store.length]? = some msg := by
      rw [List.getElem?_append_right (Nat.le_refl _), Nat.sub_self]
      rfl
    have herase : (store ++ [msg]).eraseIdx store.length = store := by
      rw [List.eraseIdx_append_of_length_le (Nat.le_refl _), Nat.sub_self]
      exact List.append_nil store
    rw [List.length_append, List.length_singleton, removeButtonsFrom]
    dsimp only
    rw [hget]
    dsimp only
    cases hmsg : msg.isInteraction with
    | true =>
      obtain ⟨ns, heq, hreplays⟩ := ih (told ++ [.removed msg store.length])
      rw [List.rdropWhile_concat_pos _ _ _ hmsg, if_pos rfl, herase]
      refine ⟨.removed msg store.length :: ns, ?_, ?_⟩
      · rw [notify]
        dsimp only
        rw [heq, List.append_assoc]
        rfl
      · have hfirst := Replays.removed hget
        rw [herase] at hfirst
        exact .cons hfirst hreplays
    | false =>
      rw [List.rdropWhile_concat_neg _ _ _ (by rw [hmsg]; exact Bool.false_ne_true),
        if_neg Bool.false_ne_true]
      exact ⟨[], by rw [List.append_nil], .nil⟩

theorem removeButtons_spec (m : AssistantHistoryModel) : ∃ ns,
    m.removeButtons =
      ⟨m.store.rdropWhile AssistantMessage.isInteraction, m.notifications ++ ns⟩ ∧
    ReplaysAll m.store ns (m.store.rdropWhile AssistantMessage.isInteraction) :=
  removeButtonsFrom_spec m.store m.notifications

@[simp] theorem removeButtons_store (m : AssistantHistoryModel) :
    m.removeButtons.store = m.store.rdropWhile AssistantMessage.isInteraction := by
  obtain ⟨ns, heq, -⟩ := removeButtons_spec m
  rw [heq]

theorem removeButtons_suffix (m : AssistantHistoryModel) :
    (∃ suffix, m.store = m.removeButtons.store ++ suffix ∧
      ∀ msg ∈ suffix, msg.isInteraction = true) ∧
    ∀ msg ∈ m.removeButtons.store.getLast?, msg.isInteraction = false := by
  rw [removeButtons_store]
  constructor
  · exact ⟨m.store.rtakeWhile AssistantMessage.isInteraction,
      List.rdropWhile_append_rtakeWhile.symm, fun msg hmsg => List.mem_rtakeWhile_imp hmsg⟩
  · intro msg hmsg
    obtain ⟨hne, hlast⟩ := List.mem_getLast?_eq_getLast hmsg
    rw [hlast]
    exact Bool.eq_false_iff.mpr (List.rdropWhile_last_not _ _ hne)

/-! ## Every operation, and every sequence of them -/

theorem apply_replays (m : AssistantHistoryModel) (op : Operation) : ∃ ns,
    (m.apply op).notifications = m.notifications ++ ns ∧
    ReplaysAll m.store ns (m.apply op).store := by
  cases op with
  | add msg =>
    rw [apply]
    cases hmsg : msg.isFiltered with
    | true =>
      rw [add_of_isFiltered m hmsg]
      exact ⟨[], (List.append_nil _).symm, .nil⟩
    | false =>
      rw [add_of_not_isFiltered m hmsg]
      refine ⟨[.added msg m.store.length], rfl, ?_⟩
      have hadded : Replays m.store (.added msg m.store.length)
          (m.store.insertIdx m.store.length msg) := .added (Nat.le_refl _)
      rw [List.insertIdx_length_self] at hadded
      exact .cons hadded .nil
  | removeButtons =>
    obtain ⟨ns, heq, hreplays⟩ := removeButtons_spec m
    rw [apply, heq]
    exact ⟨ns, rfl, hreplays⟩
  | clear => exact ⟨[.clear], rfl, .cons .clear .nil⟩

theorem mirrors (ops : List Operation) :
    ∀ m : AssistantHistoryModel, m.Mirrors m.store ops := by
  induction ops with
  | nil =>
    intro m
    rfl
  | cons op ops ih =>
    intro m
    obtain ⟨ns, hnotified, hreplays⟩ := apply_replays m op
    exact ⟨rfl, ns, (m.apply op).store, hnotified, hreplays, ih (m.apply op)⟩

/-- A listener that starts from a copy stays one through any operations; only the
interactions at the end are removed, and a filtered message is not noticed at all. -/
theorem listeners_mirror (m : AssistantHistoryModel) :
    (∀ ops, m.Mirrors m.store ops) ∧
    ((∃ suffix, m.store = m.removeButtons.store ++ suffix ∧
      ∀ msg ∈ suffix, msg.isInteraction = true) ∧
      ∀ msg ∈ m.removeButtons.store.getLast?, msg.isInteraction = false) ∧
    ∀ msg : AssistantMessage, msg.isFiltered = true → m.add msg = (m, false) :=
  ⟨fun ops => mirrors ops m, removeButtons_suffix m, fun _ h => add_of_isFiltered m h⟩

end AssistantHistoryModel

end AlmondAndroid.Assistant
