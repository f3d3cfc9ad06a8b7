import AlmondAndroid.Library.Machine

/-!
# The conversation of the assistant

The dispatcher of `assistant.js` after `start()`. Every entry point but two creates the
conversation if there is none; `_onUIReady` and `engineReady` do so when both sides are
ready. Each of them is one turn, and the conversation itself is not part of this code.
-/

namespace AlmondAndroid.App

open Library

universe u

inductive Request (Data : Type u)
  | notify (data : List Data)
  | notifyError (data : List Data)
  | handleParsedCommand (json : Data)
  | handleCommand (text : Data)
  | handleThingTalk (code : Data)
  | presentExample (utterance targetCode : Data)

/-- How `new Almond` and the call of `start` end, if it comes to them. -/
inductive Creating
  | constructorThrows
  | startThrows
  | starts
  deriving DecidableEq

/-- `created` has an entry for each conversation that was created and started: whether
`engineReady()` had been called. `asked` is what it was asked. -/
structure AssistantDispatcher (Data : Type u) where
  engineReady : Bool
  uiReady : Bool
  conversation : Option Nat
  created : List Bool
  asked : List (Request Data)

namespace AssistantDispatcher

variable {Data : Type u}

inductive Action (Data : Type u)
  | notifyAll (data : List Data) (creating : Creating)
  | notifyErrorAll (data : List Data) (creating : Creating)
  | getConversation (creating : Creating)
  | onUIReady (creating : Creating)
  | engineReady (creating : Creating)
  | onHandleParsedCommand (json : Data) (creating : Creating)
  | onHandleCommand (text : Data) (creating : Creating)
  | onHandleThingTalk (code : Data) (creating : Creating)
  | onPresentExample (utterance targetCode : Data) (creating : Creating)

def initial : AssistantDispatcher Data where
  engineReady := false
  uiReady := false
  conversation := none
  created := []
  asked := []

/-- The state, and whether the call returns. A conversation that does not start is kept. -/
def ensureConversation (s : AssistantDispatcher Data) (creating : Creating) :
    AssistantDispatcher Data × Bool :=
  match s.conversation with
  | some _ => (s, true)
  | none =>
      match creating with
      | .constructorThrows => (s, false)
      | .startThrows | .starts =>
          ({ s with
            conversation := some s.created.length
            created := s.created ++ [s.engineReady] }, creating = .starts)

def ask (s : AssistantDispatcher Data) (creating : Creating) (request : Request Data) :
    AssistantDispatcher Data :=
  match s.ensureConversation creating with
  | (s, true) => { s with asked := s.asked ++ [request] }
  | (s, false) => s

def ensureIfReady (s : AssistantDispatcher Data) (creating : Creating) :
    AssistantDispatcher Data :=
  if s.engineReady ∧ s.uiReady then (s.ensureConversation creating).1 else s

def step (s : AssistantDispatcher Data) : Action Data → Option (AssistantDispatcher Data)
  | .notifyAll data creating => some (s.ask creating (.notify data))
  | .notifyErrorAll data creating => some (s.ask creating (.notifyError data))
  | .getConversation creating => some (s.ensureConversation creating).1
  | .onUIReady creating => some ({ s with uiReady := true }.ensureIfReady creating)
  | .engineReady creating => some ({ s with engineReady := true }.ensureIfReady creating)
  | .onHandleParsedCommand json creating => some (s.ask creating (.handleParsedCommand json))
  | .onHandleCommand text creating => some (s.ask creating (.handleCommand text))
  | .onHandleThingTalk code creating => some (s.ask creating (.handleThingTalk code))
  | .onPresentExample utterance targetCode creating =>
      some (s.ask creating (.presentExample utterance targetCode))

variable (Data) in
def machine : Machine (AssistantDispatcher Data) (Action Data) where
  Init s := s = initial
  step := step

/-! ## What a step does -/

/-- An entry point that does not look at the flags, and how its creating would end. -/
def Action.unguarded : Action Data → Option Creating
  | .notifyAll _ creating | .notifyErrorAll _ creating | .getConversation creating
  | .onHandleParsedCommand _ creating | .onHandleCommand _ creating
  | .onHandleThingTalk _ creating | .onPresentExample _ _ creating => some creating
  | .onUIReady _ | .engineReady _ => none

/-- A step ensures the conversation after it may have set a flag, and when it has set one
only if both are set. Beyond that it only asks. -/
inductive Does (s : AssistantDispatcher Data) : Action Data → AssistantDispatcher Data → Prop
  | ensures {a : Action Data} {creating : Creating} {asked : List (Request Data)} :
      a.unguarded = some creating →
      Does s a { (s.ensureConversation creating).1 with asked := asked }
  | flags {a : Action Data} {engineReady uiReady : Bool} :
      a.unguarded = none → (s.engineReady = true → engineReady = true) →
      Does s a { s with engineReady := engineReady, uiReady := uiReady }
  | bothReady {a : Action Data} {creating : Creating} :
      a.unguarded = none →
      Does s a ({ s with engineReady := true, uiReady := true }.ensureConversation creating).1

/-- The dispatcher is kept in step: it has the one conversation that was created, if any. -/
structure Once (s : AssistantDispatcher Data) : Prop where
  created : s.created.length = if s.conversation = none then 0 else 1
  engineReady : true ∈ s.created → s.engineReady = true

/-- An unguarded entry point is called after `engineReady()`, unless the constructor throws. -/
def CommandsAfterReady (s : AssistantDispatcher Data) (a : Action Data) : Prop :=
  ∀ creating ∈ a.unguarded, creating ≠ .constructorThrows → s.engineReady = true

def CreatedReady (s : AssistantDispatcher Data) : Prop :=
  ∀ ready ∈ s.created, ready = true

variable {s t : AssistantDispatcher Data}

theorem ask_eq (s : AssistantDispatcher Data) (creating : Creating) (request : Request Data) :
    ∃ asked, s.ask creating request =
      { (s.ensureConversation creating).1 with asked := asked } := by
  rw [ask]
  split
  · rename_i r heq
    rw [heq]
    exact ⟨_, rfl⟩
  · rename_i r heq
    rw [heq]
    exact ⟨_, rfl⟩

theorem step_does {a : Action Data} (hstep : step s a = some t) : Does s a t := by
  have hask : ∀ {creating : Creating} {request : Request Data}, a.unguarded = some creating →
      Does s a (s.ask creating request) := by
    intro creating request ha
    obtain ⟨asked, heq⟩ := ask_eq s creating request
    rw [heq]
    exact .ensures ha
  cases a with
  | getConversation creating =>
    cases hstep
    exact .ensures rfl
  | onUIReady creating =>
    cases hstep
    rw [ensureIfReady]
    split
    · rename_i hready
      have hready : s.engineReady = true := hready.1
      have heq : { s with uiReady := true } =
          { s with engineReady := true, uiReady := true } := by rw [← hready]
      rw [heq]
      exact .bothReady rfl
    · exact .flags rfl id
  | engineReady creating =>
    cases hstep
    rw [ensureIfReady]
    split
    · rename_i hready
      have hready : s.uiReady = true := hready.2
      have heq : { s with engineReady := true } =
          { s with engineReady := true, uiReady := true } := by rw [← hready]
      rw [heq]
      exact .bothReady rfl
    · exact .flags rfl fun _ => rfl
  | _ =>
    cases hstep
    exact hask rfl

theorem ensureConversation_of_some {creating : Creating} (h : s.conversation ≠ none) :
    s.ensureConversation creating = (s, true) := by
  obtain ⟨id, hid⟩ := Option.ne_none_iff_exists'.mp h
  rw [ensureConversation.eq_def, hid]

theorem ensureConversation_of_none {creating : Creating} (h : s.conversation = none) :
    (s.ensureConversation creating).1 =
      if creating = .constructorThrows then s
      else { s with
        conversation := some s.created.length
        created := s.created ++ [s.engineReady] } := by
  rw [ensureConversation.eq_def, h]
  cases creating <;> rfl

theorem Once.created_eq_nil (h : Once s) (hnone : s.conversation = none) : s.created = [] := by
  have hlength := h.created
  rw [if_pos hnone] at hlength
  exact List.eq_nil_of_length_eq_zero hlength

theorem Once.ensureConversation (h : Once s) (creating : Creating) :
    Once (s.ensureConversation creating).1 := by
  by_cases hnone : s.conversation = none
  · rw [ensureConversation_of_none hnone]
    split
    · exact h
    · rw [h.created_eq_nil hnone]
      exact ⟨rfl, fun hmem => (List.mem_singleton.mp hmem).symm⟩
  · rw [ensureConversation_of_some hnone]
    exact h

theorem once_step {a : Action Data} (h : Once s) (hstep : step s a = some t) : Once t := by
  cases step_does hstep with
  | @ensures creating asked _ =>
    have h := h.ensureConversation creating
    exact ⟨h.created, h.engineReady⟩
  | flags _ hready => exact ⟨h.created, fun hmem => hready (h.engineReady hmem)⟩
  | bothReady _ =>
    apply Once.ensureConversation
    exact ⟨h.created, fun _ => rfl⟩

/-- Only the conversation that there is not yet can be one that was not waited for. -/
theorem ensureConversation_createdReady (h : Once s) (hs : CreatedReady s) (creating : Creating) :
    CreatedReady (s.ensureConversation creating).1 ↔
      (creating ≠ .constructorThrows → s.engineReady = true) := by
  by_cases hnone : s.conversation = none
  · rw [ensureConversation_of_none hnone]
    split
    · rename_i hthrows
      exact iff_of_true hs fun hne => (hne hthrows).elim
    · rename_i hcreated
      rw [CreatedReady, h.created_eq_nil hnone]
      constructor
      · exact fun hall _ => hall _ (List.mem_singleton_self _)
      · intro hready b hb
        rw [List.mem_singleton.mp hb]
        exact hready hcreated
  · rw [ensureConversation_of_some hnone]
    refine iff_of_true hs fun _ => h.engineReady ?_
    have hlength := h.created
    rw [if_neg hnone] at hlength
    obtain ⟨ready, hready⟩ := List.length_eq_one_iff.mp hlength
    have hmem : ready ∈ s.created := hready ▸ List.mem_singleton_self ready
    exact hs ready hmem ▸ hmem

theorem kept_step {a : Action Data} (h : Once s) (hs : CreatedReady s)
    (hstep : step s a = some t) : CreatedReady t ↔ CommandsAfterReady s a := by
  cases step_does hstep with
  | @ensures creating asked ha =>
    rw [CommandsAfterReady, ha]
    refine (ensureConversation_createdReady h hs creating).trans ?_
    exact ⟨fun hready creating' hcreating' => Option.some.inj hcreating' ▸ hready,
      fun hready => hready creating rfl⟩
  | flags ha _ =>
    rw [CommandsAfterReady, ha]
    exact iff_of_true hs fun creating hcreating => nomatch hcreating
  | @bothReady creating ha =>
    rw [CommandsAfterReady, ha]
    refine iff_of_true ?_ fun creating hcreating => nomatch hcreating
    have honce : Once { s with engineReady := true, uiReady := true } :=
      ⟨h.created, fun _ => rfl⟩
    exact (ensureConversation_createdReady honce hs creating).mpr fun _ => rfl

theorem ensureConversation_created (s : AssistantDispatcher Data) (creating : Creating) :
    ∃ more, (s.ensureConversation creating).1.created = s.created ++ more := by
  by_cases hnone : s.conversation = none
  · rw [ensureConversation_of_none hnone]
    split
    · exact ⟨[], (List.append_nil _).symm⟩
    · exact ⟨[s.engineReady], rfl⟩
  · rw [ensureConversation_of_some hnone]
    exact ⟨[], (List.append_nil _).symm⟩

theorem mem_ensureConversation_created (creating : Creating) {ready : Bool}
    (hready : ready ∈ s.created) : ready ∈ (s.ensureConversation creating).1.created := by
  obtain ⟨more, heq⟩ := ensureConversation_created s creating
  rw [heq]
  exact List.mem_append_left more hready

theorem lost_step {a : Action Data} (hs : ¬ CreatedReady s) (hstep : step s a = some t) :
    ¬ CreatedReady t := by
  refine fun ht => hs fun ready hready => ht ready ?_
  cases step_does hstep with
  | @ensures creating asked _ => exact mem_ensureConversation_created creating hready
  | flags _ _ => exact hready
  | @bothReady creating _ => exact mem_ensureConversation_created creating hready

theorem once_initial : Once (initial : AssistantDispatcher Data) :=
  ⟨rfl, fun h => nomatch h⟩

theorem createdReady_initial : CreatedReady (initial : AssistantDispatcher Data) :=
  fun _ h => nomatch h

/-- No run creates two conversations, and all that a run creates are created after
`engineReady()` exactly if no unguarded entry point is called before it. -/
theorem conversation_once_iff {actions : List (Action Data)}
    (hrun : (machine Data).run initial actions = some t) :
    t.created.length ≤ 1 ∧
    (CreatedReady t ↔ (machine Data).Meets CommandsAfterReady initial actions) := by
  constructor
  · have ht : Once t := (Machine.Reachable.run (.start rfl) hrun).invariant Once
      (by rintro s rfl; exact once_initial) fun s a t h hstep => once_step h hstep
    rw [ht.created]
    split
    · exact Nat.zero_le 1
    · exact Nat.le_refl 1
  · have hiff := Machine.run_iff_meets CreatedReady Once (fun s a t => once_step)
      (fun s a t => kept_step) (fun s a t _ => lost_step) actions once_initial hrun
    rw [hiff]
    exact and_iff_right createdReady_initial

/-- The user is ready before the engine, and types after it. -/
theorem conversation_once_iff_typed : ∃ t : AssistantDispatcher Unit,
    (machine Unit).run initial [.onUIReady .starts, .engineReady .starts,
      .onHandleCommand () .starts] = some t ∧
    t.created.length ≤ 1 ∧
    (CreatedReady t ↔ (machine Unit).Meets CommandsAfterReady initial
      [.onUIReady .starts, .engineReady .starts, .onHandleCommand () .starts]) :=
  ⟨_, rfl, conversation_once_iff rfl⟩

/-- A command that comes before `engineReady()`. -/
theorem conversation_before_ready :
    ¬ ∀ (actions : List (Action Unit)) (t : AssistantDispatcher Unit),
      (machine Unit).run initial actions = some t → t.created.length ≤ 1 ∧ CreatedReady t := by
  intro h
  have hready := (h [.onHandleCommand () .starts] _ rfl).2
  exact nomatch hready false (List.mem_singleton_self _)

end AssistantDispatcher

end AlmondAndroid.App
