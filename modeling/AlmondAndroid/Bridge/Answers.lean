import AlmondAndroid.Bridge.NativeCallQueue

/-!
# The answers to synchronous calls

A synchronous call is owed one completion of its `std::promise`: the marshalled
value on return or fulfilment, the detail string on a throw or a rejection, and
`invalid_argument` for a value that no interop value represents.
-/

namespace AlmondAndroid.Bridge

namespace CallQueue

variable {rt : Runtime}

def settlementAnswer (rt : Runtime) : Settlement rt.Obj → Answer
  | .fulfilled v => owedAnswer rt v
  | .rejected v => .jsException (rt.toDetailString v)

/-- The call has been answered as it should, or waits for a native promise whose
reaction will run. -/
def Owed (s : CallQueue rt) (n : Nat) : CallbackResult rt.Obj → Prop
  | .threw v => s.answers n = [.jsException (rt.toDetailString v)]
  | .returned v => s.answers n = [owedAnswer rt v]
  | .promise p =>
      (s.attached n ≠ none ∧ s.answers n = [] ∧ ∀ settlement, s.settled p = some settlement →
        s.fault = none → ∃ t, s.step (.react n) = some t) ∨
      ∃ settlement, s.settled p = some settlement ∧
        s.answers n = [settlementAnswer rt settlement]

structure AnsweredOnce (s : CallQueue rt) : Prop where
  noFault : ∀ f, s.fault ≠ some (.node, f)
  owed : ∀ n call r, s.box.handed[n]? = some call → call.origin = .sync →
    s.results[n]? = some r → Owed s n r
  early : ∀ n, s.box.handed.length ≤ n → s.answers n = []

def Delivered (s : CallQueue rt) (n : Nat) (v : rt.Value) : Prop :=
  s.results[n]? = some (.returned v) ∨
    ∃ p, s.results[n]? = some (.promise p) ∧ s.attached n = none ∧
      s.settled p = some (.fulfilled v)

/-! ## What the bridge really answers -/

def Completes (s : CallQueue rt) (n : Nat) (v : rt.Value) : Prop :=
  match marshalAnswer rt v with
  | .ok a => s.answers n = [a]
  | .error f => s.fault = some (.node, f)

def Tracks (s : CallQueue rt) (n : Nat) : CallbackResult rt.Obj → Prop
  | .threw v => s.attached n = none ∧ s.answers n = [.jsException (rt.toDetailString v)]
  | .returned v => s.attached n = none ∧ Completes s n v
  | .promise p =>
      (s.attached n = some ⟨p, true, true⟩ ∧ s.answers n = []) ∨
      (s.attached n = none ∧
        ((∃ v, s.settled p = some (.fulfilled v) ∧ Completes s n v) ∨
          ∃ v, s.settled p = some (.rejected v) ∧
            s.answers n = [.jsException (rt.toDetailString v)]))

def Unanswered (s : CallQueue rt) (n : Nat) : Prop :=
  s.answers n = [] ∧ ∀ a, s.attached n = some a → a.holder = false ∧ a.hasThen = false

structure Tracked (s : CallQueue rt) : Prop where
  results_length : s.results.length = s.box.handed.length
  tracks : ∀ n call r, s.box.handed[n]? = some call → s.results[n]? = some r →
    call.useReturn = true → Tracks s n r
  unanswered : ∀ n call, s.box.handed[n]? = some call → call.useReturn = false → Unanswered s n
  quiet : ∀ n, s.box.handed.length ≤ n → s.answers n = [] ∧ s.attached n = none
  faulted : ∀ f, s.fault = some (.node, f) → ∃ n call v, s.box.handed[n]? = some call ∧
    call.useReturn = true ∧ Delivered s n v ∧ marshalAnswer rt v = .error f

structure Frame (s t : CallQueue rt) (n : Nat) : Prop where
  answers : t.answers n = s.answers n
  attached : t.attached n = s.attached n
  settled : ∀ p settlement, s.settled p = some settlement → t.settled p = some settlement

theorem Completes.frame {s t : CallQueue rt} {n : Nat} {v : rt.Value} (hfault : s.fault = none)
    (hframe : Frame s t n) (h : Completes s n v) : Completes t n v := by
  unfold Completes at h ⊢
  split at h
  · rw [hframe.answers]
    exact h
  · rw [hfault] at h
    cases h

theorem Tracks.frame {s t : CallQueue rt} {n : Nat} {r : CallbackResult rt.Obj}
    (hfault : s.fault = none) (hframe : Frame s t n) (h : Tracks s n r) : Tracks t n r := by
  cases r with
  | threw v => exact ⟨hframe.attached.trans h.1, hframe.answers.trans h.2⟩
  | returned v => exact ⟨hframe.attached.trans h.1, h.2.frame hfault hframe⟩
  | promise p =>
    rcases h with ⟨hattached, hanswers⟩ | ⟨hattached, ⟨v, hp, hv⟩ | ⟨v, hp, hanswers⟩⟩
    · exact .inl ⟨hframe.attached.trans hattached, hframe.answers.trans hanswers⟩
    · exact .inr ⟨hframe.attached.trans hattached,
        .inl ⟨v, hframe.settled _ _ hp, hv.frame hfault hframe⟩⟩
    · exact .inr ⟨hframe.attached.trans hattached,
        .inr ⟨v, hframe.settled _ _ hp, hframe.answers.trans hanswers⟩⟩

theorem Unanswered.frame {s t : CallQueue rt} {n : Nat} (hframe : Frame s t n)
    (h : Unanswered s n) : Unanswered t n :=
  ⟨hframe.answers.trans h.1, fun a ha => h.2 a (hframe.attached ▸ ha)⟩

theorem Tracked.of_frame {s t : CallQueue rt} (hs : Tracked s) (hfault : s.fault = none)
    (hhanded : t.box.handed = s.box.handed) (hresults : t.results = s.results)
    (hnode : ∀ f, t.fault ≠ some (.node, f)) (hframe : ∀ n, Frame s t n) : Tracked t where
  results_length := by
    rw [hresults, hhanded]
    exact hs.results_length
  tracks n call r hcall hr huse := by
    rw [hhanded] at hcall
    rw [hresults] at hr
    exact (hs.tracks n call r hcall hr huse).frame hfault (hframe n)
  unanswered n call hcall huse := by
    rw [hhanded] at hcall
    exact (hs.unanswered n call hcall huse).frame (hframe n)
  quiet n hn := by
    rw [hhanded] at hn
    obtain ⟨hanswers, hattached⟩ := hs.quiet n hn
    exact ⟨(hframe n).answers.trans hanswers, (hframe n).attached.trans hattached⟩
  faulted f hf := absurd hf (hnode f)

/-! ### Dispatching a call -/

@[simp] theorem complete_results (s : CallQueue rt) (n : Nat) (e : Effect) :
    (s.complete n e).results = s.results := by
  cases e <;> rfl

@[simp] theorem complete_attached (s : CallQueue rt) (n : Nat) (e : Effect) :
    (s.complete n e).attached = s.attached := by
  cases e <;> rfl

@[simp] theorem complete_settled (s : CallQueue rt) (n : Nat) (e : Effect) :
    (s.complete n e).settled = s.settled := by
  cases e <;> rfl

theorem complete_answers_of_ne (s : CallQueue rt) {m n : Nat} (e : Effect) (h : m ≠ n) :
    (s.complete n e).answers m = s.answers m := by
  cases e with
  | nothing => rfl
  | answer a => exact Function.update_of_ne h _ _
  | log message => rfl

theorem complete_answer_answers (s : CallQueue rt) (n : Nat) (a : Answer) :
    (s.complete n (.answer a)).answers n = s.answers n ++ [a] :=
  Function.update_self ..

@[simp] theorem dispatched_results (s : CallQueue rt) (box : Library.Mailbox Nat PackagedNodeCall)
    (result : CallbackResult rt.Obj) (i : Except Fault Invoked) :
    (s.dispatched box result i).results = s.results ++ [result] := by
  rcases i with f | (e | a)
  · rfl
  · exact complete_results _ _ _
  · rfl

theorem dispatched_frame (s : CallQueue rt) (box : Library.Mailbox Nat PackagedNodeCall)
    (result : CallbackResult rt.Obj) (i : Except Fault Invoked) {n : Nat}
    (hn : n ≠ s.box.handed.length) : Frame s (s.dispatched box result i) n := by
  rcases i with f | (e | a)
  · exact ⟨rfl, rfl, fun _ _ h => h⟩
  · refine ⟨complete_answers_of_ne _ _ hn, ?_, ?_⟩
    · rw [dispatched, complete_attached]
    · intro p settlement h
      rw [dispatched, complete_settled]
      exact h
  · exact ⟨rfl, Function.update_of_ne hn _ _, fun _ _ h => h⟩

theorem invoke_eq {call : PackagedNodeCall} (hcall : Sound rt call)
    (result : CallbackResult rt.Obj) :
    call.invoke rt result = match result with
      | .threw v => .ok (.done (call.setException rt v))
      | .promise p => .ok (.attached ⟨p, call.useReturn, call.useReturn⟩)
      | .returned v => (call.setReturn rt v).map .done := by
  obtain ⟨values, hvalues⟩ := hcall.decodes
  unfold PackagedNodeCall.invoke
  rw [hvalues]
  rfl

theorem invoke_error {call : PackagedNodeCall} (hcall : Sound rt call)
    {result : CallbackResult rt.Obj} {f : Fault} (h : call.invoke rt result = .error f) :
    ∃ v, result = .returned v ∧ call.useReturn = true ∧ marshalAnswer rt v = .error f := by
  rw [invoke_eq hcall] at h
  cases result with
  | threw v => cases h
  | promise p => cases h
  | returned v =>
    cases huse : call.useReturn with
    | false => simp [PackagedNodeCall.setReturn, huse, Except.map] at h
    | true =>
      cases hmarshal : marshalAnswer rt v with
      | ok a => simp [PackagedNodeCall.setReturn, huse, hmarshal, Except.map] at h
      | error g =>
        simp only [PackagedNodeCall.setReturn, huse, hmarshal, Except.map, if_true] at h
        cases h
        exact ⟨v, rfl, rfl, hmarshal⟩

theorem dispatched_fault {s : CallQueue rt} (hfault : s.fault = none)
    {box : Library.Mailbox Nat PackagedNodeCall} {result : CallbackResult rt.Obj}
    {i : Except Fault Invoked} {f : Fault}
    (h : (s.dispatched box result i).fault = some (.node, f)) : i = .error f := by
  rcases i with g | (e | a)
  · cases h
    rfl
  · rw [dispatched, complete_fault, hfault] at h
    cases h
  · rw [dispatched, hfault] at h
    cases h

theorem dispatched_tracks {s : CallQueue rt} {call : PackagedNodeCall} (hcall : Sound rt call)
    (box : Library.Mailbox Nat PackagedNodeCall) (result : CallbackResult rt.Obj)
    (huse : call.useReturn = true) (hanswers : s.answers s.box.handed.length = [])
    (hattached : s.attached s.box.handed.length = none) :
    Tracks (s.dispatched box result (call.invoke rt result)) s.box.handed.length result := by
  rw [invoke_eq hcall]
  cases result with
  | threw v =>
    simp only [PackagedNodeCall.setException, huse, if_true, dispatched]
    refine ⟨?_, ?_⟩
    · rw [complete_attached]
      exact hattached
    · rw [complete_answer_answers]
      simp only [hanswers, List.nil_append]
  | promise p =>
    rw [huse]
    exact .inl ⟨Function.update_self .., hanswers⟩
  | returned v =>
    simp only [PackagedNodeCall.setReturn, huse, if_true]
    cases hmarshal : marshalAnswer rt v with
    | error f =>
      refine ⟨hattached, ?_⟩
      simp only [Completes, hmarshal]
      rfl
    | ok a =>
      simp only [Except.map, dispatched]
      refine ⟨?_, ?_⟩
      · rw [complete_attached]
        exact hattached
      · simp only [Completes, hmarshal]
        rw [complete_answer_answers]
        simp only [hanswers, List.nil_append]

theorem dispatched_unanswered {s : CallQueue rt} {call : PackagedNodeCall} (hcall : Sound rt call)
    (box : Library.Mailbox Nat PackagedNodeCall) (result : CallbackResult rt.Obj)
    (huse : call.useReturn = false) (hanswers : s.answers s.box.handed.length = [])
    (hattached : s.attached s.box.handed.length = none) :
    Unanswered (s.dispatched box result (call.invoke rt result)) s.box.handed.length := by
  rw [invoke_eq hcall]
  cases result with
  | threw v =>
    simp only [PackagedNodeCall.setException, huse, dispatched]
    refine ⟨hanswers, fun a ha => ?_⟩
    rw [complete_attached, hattached] at ha
    cases ha
  | promise p =>
    refine ⟨hanswers, fun a ha => ?_⟩
    have ha : Function.update s.attached s.box.handed.length
        (some ⟨p, call.useReturn, call.useReturn⟩) s.box.handed.length = some a := ha
    rw [Function.update_self] at ha
    cases ha
    exact ⟨huse, huse⟩
  | returned v =>
    simp only [PackagedNodeCall.setReturn, huse, dispatched]
    refine ⟨hanswers, fun a ha => ?_⟩
    have ha : s.attached s.box.handed.length = some a := ha
    rw [hattached] at ha
    cases ha

theorem getElem?_append_singleton {α : Type} (l : List α) (x : α) (n : Nat) :
    (l ++ [x])[n]? = if n = l.length then some x else l[n]? := by
  split
  · rename_i h
    rw [h, List.getElem?_append_right (Nat.le_refl _), Nat.sub_self]
    rfl
  · rename_i h
    rcases Nat.lt_or_gt_of_ne h with hlt | hgt
    · exact List.getElem?_append_left hlt
    · rw [List.getElem?_eq_none (by simp; omega), List.getElem?_eq_none (by omega)]

theorem Tracked.dispatched {s : CallQueue rt} (hs : Tracked s) (hfault : s.fault = none)
    {call : PackagedNodeCall} {box : Library.Mailbox Nat PackagedNodeCall}
    (hcall : Sound rt call) (hhanded : box.handed = s.box.handed ++ [call])
    (result : CallbackResult rt.Obj) :
    Tracked (s.dispatched box result (call.invoke rt result)) where
  results_length := by
    rw [dispatched_results, dispatched_box, hhanded]
    simp [hs.results_length]
  tracks n call' r hcall' hr huse := by
    rw [dispatched_box, hhanded, getElem?_append_singleton] at hcall'
    rw [dispatched_results, getElem?_append_singleton, hs.results_length] at hr
    by_cases hn : n = s.box.handed.length
    · subst hn
      rw [if_pos rfl] at hcall' hr
      cases hcall'
      cases hr
      obtain ⟨hanswers, hattached⟩ := hs.quiet _ (Nat.le_refl _)
      exact dispatched_tracks hcall box result huse hanswers hattached
    · rw [if_neg hn] at hcall' hr
      exact (hs.tracks n call' r hcall' hr huse).frame hfault (dispatched_frame s box result _ hn)
  unanswered n call' hcall' huse := by
    rw [dispatched_box, hhanded, getElem?_append_singleton] at hcall'
    by_cases hn : n = s.box.handed.length
    · subst hn
      rw [if_pos rfl] at hcall'
      cases hcall'
      obtain ⟨hanswers, hattached⟩ := hs.quiet _ (Nat.le_refl _)
      exact dispatched_unanswered hcall box result huse hanswers hattached
    · rw [if_neg hn] at hcall'
      exact (hs.unanswered n call' hcall' huse).frame (dispatched_frame s box result _ hn)
  quiet n hn := by
    rw [dispatched_box, hhanded, List.length_append, List.length_singleton] at hn
    have hframe := dispatched_frame s box result (call.invoke rt result)
      (show n ≠ s.box.handed.length by omega)
    obtain ⟨hanswers, hattached⟩ := hs.quiet n (by omega)
    exact ⟨hframe.answers.trans hanswers, hframe.attached.trans hattached⟩
  faulted f hf := by
    obtain ⟨v, rfl, huse, hmarshal⟩ := invoke_error hcall (dispatched_fault hfault hf)
    refine ⟨s.box.handed.length, call, v, ?_, huse, .inl ?_, hmarshal⟩
    · rw [dispatched_box, hhanded, getElem?_append_singleton, if_pos rfl]
    · rw [dispatched_results, getElem?_append_singleton, hs.results_length, if_pos rfl]

/-! ### Running a reaction -/

theorem reacted_frame (s : CallQueue rt) (call : Nat) (e : Except Fault Effect) {n : Nat}
    (hn : n ≠ call) : Frame s (s.reacted call e) n := by
  cases e with
  | error f => exact ⟨rfl, Function.update_of_ne hn _ _, fun _ _ h => h⟩
  | ok e =>
    refine ⟨complete_answers_of_ne _ _ hn, ?_, ?_⟩
    · rw [reacted, complete_attached]
      exact Function.update_of_ne hn _ _
    · intro p settlement h
      rw [reacted, complete_settled]
      exact h

@[simp] theorem reacted_results (s : CallQueue rt) (call : Nat) (e : Except Fault Effect) :
    (s.reacted call e).results = s.results := by
  cases e with
  | error f => rfl
  | ok e => exact complete_results _ _ _

@[simp] theorem reacted_settled (s : CallQueue rt) (call : Nat) (e : Except Fault Effect) :
    (s.reacted call e).settled = s.settled := by
  cases e with
  | error f => rfl
  | ok e => exact complete_settled _ _ _

theorem reacted_attached (s : CallQueue rt) (call : Nat) (e : Except Fault Effect) :
    (s.reacted call e).attached call = none := by
  cases e with
  | error f => exact Function.update_self ..
  | ok e =>
    rw [reacted, complete_attached]
    exact Function.update_self ..

theorem react_sync (p : Nat) (settlement : Settlement rt.Obj) :
    (⟨p, true, true⟩ : Attachment).react rt settlement = match settlement with
      | .fulfilled v => (marshalAnswer rt v).map .answer
      | .rejected v => .ok (.answer (.jsException (rt.toDetailString v))) := by
  cases settlement with
  | fulfilled v =>
    simp only [Attachment.react, thenPromise, if_true, List.head?_cons, Option.getD_some]
    cases marshalAnswer rt v <;> rfl
  | rejected v => rfl

theorem react_async {a : Attachment} (hholder : a.holder = false) (hthen : a.hasThen = false)
    (settlement : Settlement rt.Obj) : a.react rt settlement = match settlement with
      | .fulfilled _ => .ok .nothing
      | .rejected v => .ok (.log (lostException (rt.toDetailString v))) := by
  cases settlement with
  | fulfilled v => simp [Attachment.react, hthen]
  | rejected v => simp [Attachment.react, catchPromise, hholder]

theorem Tracks.promise_of_attached {s : CallQueue rt} {n : Nat} {r : CallbackResult rt.Obj}
    {a : Attachment} (h : Tracks s n r) (ha : s.attached n = some a) :
    ∃ p, r = .promise p ∧ a = ⟨p, true, true⟩ ∧ s.answers n = [] := by
  cases r with
  | threw v =>
    rw [h.1] at ha
    cases ha
  | returned v =>
    rw [h.1] at ha
    cases ha
  | promise p =>
    rcases h with ⟨hattached, hanswers⟩ | ⟨hattached, -⟩
    · rw [hattached] at ha
      cases ha
      exact ⟨p, rfl, rfl, hanswers⟩
    · rw [hattached] at ha
      cases ha

theorem reacted_tracks {s : CallQueue rt} {n p : Nat} {settlement : Settlement rt.Obj}
    (hanswers : s.answers n = []) (hsettled : s.settled p = some settlement) :
    Tracks (s.reacted n ((⟨p, true, true⟩ : Attachment).react rt settlement)) n (.promise p) := by
  refine .inr ⟨reacted_attached _ _ _, ?_⟩
  rw [react_sync, reacted_settled]
  cases settlement with
  | fulfilled v =>
    refine .inl ⟨v, hsettled, ?_⟩
    cases hmarshal : marshalAnswer rt v with
    | error f =>
      simp only [Completes, hmarshal]
      rfl
    | ok a =>
      simp only [Completes, hmarshal, Except.map, reacted]
      rw [complete_answer_answers]
      simp only [hanswers, List.nil_append]
  | rejected v =>
    refine .inr ⟨v, hsettled, ?_⟩
    simp only [reacted]
    rw [complete_answer_answers]
    simp only [hanswers, List.nil_append]

theorem reacted_unanswered {s : CallQueue rt} {n : Nat} {a : Attachment}
    (hun : Unanswered s n) (ha : s.attached n = some a) (settlement : Settlement rt.Obj) :
    Unanswered (s.reacted n (a.react rt settlement)) n := by
  obtain ⟨hholder, hthen⟩ := hun.2 a ha
  refine ⟨?_, fun b hb => ?_⟩
  · rw [react_async hholder hthen]
    cases settlement <;> exact hun.1
  · rw [reacted_attached] at hb
    cases hb

theorem Tracked.reacted {s : CallQueue rt} (hs : Tracked s) (hfault : s.fault = none) {n : Nat}
    {a : Attachment} {settlement : Settlement rt.Obj} (ha : s.attached n = some a)
    (hsettled : s.settled a.promise = some settlement) :
    Tracked (s.reacted n (a.react rt settlement)) where
  results_length := by
    rw [reacted_results, reacted_box]
    exact hs.results_length
  tracks m call r hcall hr huse := by
    rw [reacted_box] at hcall
    rw [reacted_results] at hr
    have htracks := hs.tracks m call r hcall hr huse
    by_cases hm : m = n
    · subst hm
      obtain ⟨p, rfl, rfl, hanswers⟩ := htracks.promise_of_attached ha
      exact reacted_tracks hanswers hsettled
    · exact htracks.frame hfault (reacted_frame s n _ hm)
  unanswered m call hcall huse := by
    rw [reacted_box] at hcall
    have hun := hs.unanswered m call hcall huse
    by_cases hm : m = n
    · subst hm
      exact reacted_unanswered hun ha settlement
    · exact hun.frame (reacted_frame s n _ hm)
  quiet m hm := by
    rw [reacted_box] at hm
    obtain ⟨hanswers, hattached⟩ := hs.quiet m hm
    have hne : m ≠ n := by
      rintro rfl
      rw [hattached] at ha
      cases ha
    have hframe := reacted_frame s n (a.react rt settlement) hne
    exact ⟨hframe.answers.trans hanswers, hframe.attached.trans hattached⟩
  faulted f hf := by
    have hlt : n < s.box.handed.length := by
      by_contra hge
      rw [(hs.quiet n (by omega)).2] at ha
      cases ha
    have hcall : s.box.handed[n]? = some s.box.handed[n] := List.getElem?_eq_getElem hlt
    have hltr : n < s.results.length := by
      rw [hs.results_length]
      exact hlt
    have hr : s.results[n]? = some s.results[n] := List.getElem?_eq_getElem hltr
    cases huse : s.box.handed[n].useReturn with
    | false =>
      obtain ⟨hholder, hthen⟩ := (hs.unanswered n _ hcall huse).2 a ha
      rw [react_async hholder hthen] at hf
      cases settlement <;> simp [CallQueue.reacted, hfault] at hf
    | true =>
      obtain ⟨p, hp, rfl, -⟩ := (hs.tracks n _ _ hcall hr huse).promise_of_attached ha
      rw [react_sync] at hf ⊢
      cases settlement with
      | rejected v => simp [CallQueue.reacted, hfault] at hf
      | fulfilled v =>
        cases hmarshal : marshalAnswer rt v with
        | ok b => simp [CallQueue.reacted, hmarshal, Except.map, hfault] at hf
        | error g =>
          dsimp only at hf
          rw [hmarshal] at hf
          cases hf
          refine ⟨n, _, v, ?_, huse, .inr ⟨p, ?_, reacted_attached _ _ _, ?_⟩, hmarshal⟩
          · rw [reacted_box]
            exact hcall
          · rw [reacted_results, ← hp]
            exact hr
          · rw [reacted_settled]
            exact hsettled

/-! ### Every reachable state -/

theorem Tracked.initial : Tracked (initial rt) where
  results_length := rfl
  tracks _ _ _ h := by simp [CallQueue.initial, Library.Mailbox.closed] at h
  unanswered _ _ h := by simp [CallQueue.initial, Library.Mailbox.closed] at h
  quiet _ _ := ⟨rfl, rfl⟩
  faulted _ h := by cases h

theorem Tracked.step {s t : CallQueue rt} (hs : Tracked s) (hbox : BoxInvariant s)
    (hfault : s.fault = none) (h : Steps s t) : Tracked t := by
  have hnode : ∀ f, s.fault ≠ some (.node, f) := by
    rw [hfault]
    rintro f ⟨⟩
  have hsame : ∀ n, Frame s s n := fun n => ⟨rfl, rfl, fun _ _ h => h⟩
  cases h with
  | init => exact hs.of_frame hfault rfl rfl hnode fun n => ⟨rfl, rfl, fun _ _ h => h⟩
  | rejected => exact hs
  | javaFault f =>
    refine hs.of_frame hfault rfl rfl ?_ fun n => ⟨rfl, rfl, fun _ _ h => h⟩
    rintro g ⟨⟩
  | box _ hhanded => exact hs.of_frame hfault hhanded rfl hnode fun n => ⟨rfl, rfl, fun _ _ h => h⟩
  | invoke result hhand =>
    obtain ⟨batch, hconsumer, -⟩ := Library.Mailbox.handOver_eq_some hhand
    have hcall := hbox.sound.appended _ (hbox.wellFormed.mem_appended hconsumer)
    exact hs.dispatched hfault hcall (Library.Mailbox.handOver_handed hhand) result
  | @settle p settlement hp =>
    refine hs.of_frame hfault rfl rfl hnode fun n => ⟨rfl, rfl, fun q st hq => ?_⟩
    have hne : q ≠ p := by
      rintro rfl
      rw [hp] at hq
      cases hq
    exact (Function.update_of_ne hne _ _).trans hq
  | react ha hsettled => exact hs.reacted hfault ha hsettled

theorem tracked_of_reachable (hlaw : rt.Lawful) {s : CallQueue rt}
    (h : (machine rt).Reachable s) : Tracked s := by
  induction h with
  | start hs =>
    rw [show _ = initial rt from hs]
    exact .initial
  | next hr _ hstep ih =>
    obtain ⟨hfault, hsteps⟩ := step_cases hlaw hstep
    exact ih.step (boxInvariant_of_reachable hlaw hr) hfault hsteps

/-! ## When every answer is right -/

/-- Every value delivered as the answer of a synchronous call has a text, if it
has to go through `JSON.stringify`. -/
def TextsDelivered (s : CallQueue rt) : Prop :=
  ∀ n call v, s.box.handed[n]? = some call → call.origin = .sync → Delivered s n v → HasText rt v

theorem react_enabled {s : CallQueue rt} {n : Nat} {a : Attachment}
    {settlement : Settlement rt.Obj} (ha : s.attached n = some a)
    (hsettled : s.settled a.promise = some settlement) (hfault : s.fault = none) :
    ∃ t, s.step (.react n) = some t := by
  refine ⟨s.reacted n (a.react rt settlement), ?_⟩
  simp only [CallQueue.step, hfault, react, ha, hsettled]

theorem Completes.eq_owedAnswer {s : CallQueue rt} {n : Nat} {v : rt.Value}
    (h : Completes s n v) (hv : HasText rt v) : s.answers n = [owedAnswer rt v] := by
  rw [Completes, (marshalAnswer_eq_owedAnswer_iff v).mpr hv] at h
  exact h

theorem Completes.hasText {s : CallQueue rt} {n : Nat} {v : rt.Value} (h : Completes s n v)
    (hfault : ∀ f, s.fault ≠ some (.node, f)) (hanswers : s.answers n = [owedAnswer rt v]) :
    HasText rt v := by
  rw [← marshalAnswer_eq_owedAnswer_iff]
  rw [Completes] at h
  split at h
  · rename_i a ha
    rw [hanswers] at h
    cases h
    exact ha
  · exact absurd h (hfault _)

theorem Tracks.owed {s : CallQueue rt} {n : Nat} {r : CallbackResult rt.Obj} (h : Tracks s n r)
    (hr : s.results[n]? = some r) (htext : ∀ v, Delivered s n v → HasText rt v) : Owed s n r := by
  cases r with
  | threw v => exact h.2
  | returned v => exact h.2.eq_owedAnswer (htext v (.inl hr))
  | promise p =>
    rcases h with ⟨hattached, hanswers⟩ | ⟨hattached, ⟨v, hp, hv⟩ | ⟨v, hp, hanswers⟩⟩
    · refine .inl ⟨by simp [hattached], hanswers, fun settlement hsettled hfault => ?_⟩
      exact react_enabled hattached hsettled hfault
    · exact .inr ⟨_, hp, hv.eq_owedAnswer (htext v (.inr ⟨p, hr, hattached, hp⟩))⟩
    · exact .inr ⟨_, hp, hanswers⟩

theorem Tracks.hasText {s : CallQueue rt} {n : Nat} {r : CallbackResult rt.Obj} {v : rt.Value}
    (h : Tracks s n r) (hr : s.results[n]? = some r) (hfault : ∀ f, s.fault ≠ some (.node, f))
    (howed : Owed s n r) (hv : Delivered s n v) : HasText rt v := by
  rcases hv with hv | ⟨p, hv, hattached, hsettled⟩
  · rw [hv] at hr
    cases hr
    exact h.2.hasText hfault howed
  · rw [hv] at hr
    cases hr
    rcases howed with ⟨hne, -, -⟩ | ⟨settlement, hsettlement, hanswers⟩
    · exact absurd hattached hne
    · rw [hsettled] at hsettlement
      cases hsettlement
      rcases h with ⟨hattached', -⟩ | ⟨-, ⟨w, hw, hcompletes⟩ | ⟨w, hw, -⟩⟩
      · rw [hattached] at hattached'
        cases hattached'
      · rw [hsettled] at hw
        cases hw
        exact hcompletes.hasText hfault hanswers
      · rw [hsettled] at hw
        cases hw

theorem Tracked.result_exists {s : CallQueue rt} (hs : Tracked s) {n : Nat}
    {call : PackagedNodeCall} (hcall : s.box.handed[n]? = some call) :
    ∃ r, s.results[n]? = some r := by
  obtain ⟨hlt, -⟩ := List.getElem?_eq_some_iff.mp hcall
  rw [← hs.results_length] at hlt
  exact ⟨_, List.getElem?_eq_getElem hlt⟩

/-- Every synchronous call gets the one answer it is owed exactly as long as the
values delivered have a text. -/
theorem answeredOnce_iff (hlaw : rt.Lawful) {s : CallQueue rt} (h : (machine rt).Reachable s) :
    AnsweredOnce s ↔ TextsDelivered s := by
  have hs := tracked_of_reachable hlaw h
  have hbox := boxInvariant_of_reachable hlaw h
  have huse : ∀ (n : Nat) (call : PackagedNodeCall), s.box.handed[n]? = some call →
      (call.useReturn = true ↔ call.origin = .sync) := by
    intro n call hcall
    refine (hbox.sound.appended call ?_).useReturn
    rw [hbox.wellFormed.partition]
    simp [List.mem_of_getElem? hcall]
  constructor
  · intro hanswered n call v hcall hsync hv
    obtain ⟨r, hr⟩ := hs.result_exists hcall
    have htracks := hs.tracks n call r hcall hr ((huse n call hcall).mpr hsync)
    exact htracks.hasText hr hanswered.noFault (hanswered.owed n call r hcall hsync hr) hv
  · intro htext
    refine ⟨fun f hf => ?_, fun n call r hcall hsync hr => ?_, fun n hn => (hs.quiet n hn).1⟩
    · obtain ⟨n, call, v, hcall, hreturn, hv, herror⟩ := hs.faulted f hf
      have hv := htext n call v hcall ((huse n call hcall).mp hreturn) hv
      rw [(marshalAnswer_eq_owedAnswer_iff v).mpr hv] at herror
      cases herror
    · have htracks := hs.tracks n call r hcall hr ((huse n call hcall).mpr hsync)
      exact htracks.owed hr fun v hv => htext n call v hcall hsync hv

def singleCall (result : CallbackResult Sample.Obj) : List (Action Sample.runtime) :=
  [.init, .setNodeReceiver, .invokeSync 0 (u16 "f") [.null], .deliver, .moveCalls, .invoke result]

theorem answeredOnce_symbol : ∃ s : CallQueue Sample.runtime,
    (machine Sample.runtime).run (initial Sample.runtime)
      (singleCall (.returned (.symbol (u16 "s")))) = some s ∧
    s.answers 0 = [.invalidArgument cannotBeMarshalled] ∧ AnsweredOnce s := by
  have hinit : (machine Sample.runtime).Reachable (initial Sample.runtime) := .start rfl
  obtain ⟨s, hs, hanswers, hhanded, hresults⟩ : ∃ s : CallQueue Sample.runtime,
      (machine Sample.runtime).run (initial Sample.runtime)
        (singleCall (.returned (.symbol (u16 "s")))) = some s ∧
      s.answers 0 = [.invalidArgument cannotBeMarshalled] ∧ s.box.handed.length = 1 ∧
      s.results = [.returned (.symbol (u16 "s"))] := ⟨_, rfl, rfl, rfl, rfl⟩
  refine ⟨s, hs, hanswers, (answeredOnce_iff Sample.runtime_lawful (hinit.run hs)).mpr ?_⟩
  intro n call v hcall _ hv
  obtain ⟨hn, -⟩ := List.getElem?_eq_some_iff.mp hcall
  have hn : n = 0 := by omega
  subst hn
  rcases hv with hv | ⟨p, hv, -⟩
  · rw [hresults] at hv
    cases hv
    trivial
  · rw [hresults] at hv
    cases hv

/-- A cyclic object takes the node thread down, and a function becomes a text
that is no JSON. -/
theorem not_answeredOnce_cyclic_or_function :
    (∃ s : CallQueue Sample.runtime, (machine Sample.runtime).run (initial Sample.runtime)
        (singleCall (.returned (.object .cyclic))) = some s ∧
      s.fault = some (.node, .emptyHandle) ∧ ¬ AnsweredOnce s) ∧
    ∃ s : CallQueue Sample.runtime, (machine Sample.runtime).run (initial Sample.runtime)
        (singleCall (.returned (.object .function))) = some s ∧
      s.answers 0 = [.value (.json (u16 "undefined"))] ∧ ¬ AnsweredOnce s := by
  constructor
  · refine ⟨_, rfl, rfl, fun h => ?_⟩
    exact h.noFault .emptyHandle rfl
  · refine ⟨_, rfl, rfl, fun h => ?_⟩
    have howed := h.owed 0 ⟨u16 "f", [.null], true, .sync⟩ (.returned (.object .function))
      rfl rfl rfl
    cases howed

end CallQueue

end AlmondAndroid.Bridge
