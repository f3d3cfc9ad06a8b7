import AlmondAndroid.Storage.Database

/-!
# The order of the calls of a statement

A statement has at most one ticket: its preparation waits in the queue of the database,
or one of its works is in the pool, or that work is being ended. Whoever holds the ticket
keeps the statement locked, and `pending` counts the tickets that left the queue.
-/

namespace AlmondAndroid.Storage

open Library

/-! ## Counting -/

theorem countP_eraseIdx {α : Type} (p : α → Bool) {x : α} (xs : List α) (k : Nat)
    (h : xs[k]? = some x) : (xs.eraseIdx k).countP p + (if p x then 1 else 0) = xs.countP p := by
  induction xs generalizing k with
  | nil => cases h
  | cons y ys ih =>
    cases k with
    | zero =>
      cases h
      rw [List.eraseIdx_cons_zero, List.countP_cons]
    | succ k =>
      have hk := ih k h
      rw [List.eraseIdx_cons_succ, List.countP_cons, List.countP_cons]
      omega

theorem countP_set_of_eq {α : Type} (p : α → Bool) {x y : α} (xs : List α) (k : Nat)
    (h : xs[k]? = some x) (hp : p y = p x) : (xs.set k y).countP p = xs.countP p := by
  induction xs generalizing k with
  | nil => cases h
  | cons z zs ih =>
    cases k with
    | zero =>
      cases h
      rw [List.set_cons_zero, List.countP_cons, List.countP_cons, hp]
    | succ k => rw [List.set_cons_succ, List.countP_cons, List.countP_cons, ih k h]

/-! ## Tickets -/

def Job.statement? : Job → Option Nat
  | .prepare i => some i
  | .operate i _ => some i
  | _ => none

def Work.counted (work : Work) : Bool := work.job.statement?.isSome

def Work.isOf (i : Nat) (work : Work) : Bool := work.job.statement? = some i

def Database.Call.prepares (i : Nat) (call : Database.Call) : Bool :=
  call.baton.work = .prepare i

namespace Frame

def isEnd : Frame → Bool
  | statementEnd _ _ => true
  | _ => false

def ends (i : Nat) : Frame → Bool
  | statementEnd j _ => j = i
  | _ => false

def cleans (i : Nat) : Frame → Bool
  | cleanLoop j _ => j = i
  | _ => false

/-- The frames of `STATEMENT_END` and of the loop that it starts. -/
def ofStatement : Frame → Bool
  | statementEnd _ _ => true
  | statementProcess _ => true
  | statementLoop _ => true
  | _ => false

def statement? : Frame → Option Nat
  | statementEnd i _ => some i
  | statementProcess i => some i
  | statementLoop i => some i
  | cleanLoop i _ => some i
  | afterError i => some i
  | deleteBaton i => some i
  | _ => none

/-- Frames that belong to no statement. -/
def Plain (frames : List Frame) : Prop := ∀ f ∈ frames, f.statement? = none

@[simp] theorem plain_nil : Plain [] := nofun

@[simp] theorem plain_cons {f : Frame} {frames : List Frame} :
    Plain (f :: frames) ↔ f.statement? = none ∧ Plain frames :=
  List.forall_mem_cons

@[simp] theorem plain_append {frames more : List Frame} :
    Plain (frames ++ more) ↔ Plain frames ∧ Plain more :=
  List.forall_mem_append

attribute [simp] statement?

theorem ends_le_isEnd {i : Nat} {f : Frame} (h : f.ends i = true) : f.isEnd = true := by
  cases f with
  | statementEnd _ _ => rfl
  | _ => cases h

theorem not_ends {i : Nat} {f : Frame} (h : f.ofStatement = false) : f.ends i = false := by
  cases f with
  | statementEnd _ _ => cases h
  | _ => rfl

theorem not_isEnd {f : Frame} (h : f.ofStatement = false) : f.isEnd = false := by
  cases f with
  | statementEnd _ _ => cases h
  | _ => rfl

theorem not_ofStatement {f : Frame} (h : f.statement? = none) : f.ofStatement = false := by
  cases f with
  | statementEnd _ _ => cases h
  | statementProcess _ => cases h
  | statementLoop _ => cases h
  | _ => rfl

theorem statement?_of_cleans {f : Frame} {i : Nat} (h : f.cleans i = true) :
    f.statement? = some i := by
  cases f with
  | cleanLoop j _ => exact congrArg some (of_decide_eq_true h)
  | _ => cases h

/-- `STATEMENT_END` is never reached from the loop that cleans the queue of a statement. -/
def Apart (f g : Frame) : Prop := f.ofStatement = true → ∀ i, g.cleans i = false

end Frame

/-- The batons that were scheduled are in order: first those that were begun, then those
that were deleted, which there are only once the statement is finalized. -/
structure Statement.Ordered (st : Statement) (batons : Nat) : Prop where
  order : st.made = st.begun ++ st.ended ++ st.queue.map fun call => call.baton.id
  increasing : st.made.Pairwise (· < ·)
  bound : ∀ id ∈ st.made, id < batons
  ended : st.ended ≠ [] → st.finalized = true

def Statement.Waiting (st : Statement) : Prop :=
  st.queue ≠ [] ∧ st.prepared = true ∧ st.locked = false ∧ st.finalized = false

theorem Statement.Ordered.mono {st : Statement} {m n : Nat} (h : st.Ordered m) (hle : m ≤ n) :
    st.Ordered n :=
  { h with bound := fun id hid => Nat.lt_of_lt_of_le (h.bound id hid) hle }

theorem Statement.ordered_new (n : Nat) : Statement.new.Ordered n where
  order := rfl
  increasing := .nil
  bound := nofun
  ended h := absurd rfl h

/-- A new baton is the largest. -/
theorem Statement.Ordered.make {st : Statement} {n : Nat} (h : st.Ordered n)
    {call : Statement.Call} (hid : call.baton.id = n) :
    ({ st with made := st.made ++ [call.baton.id], queue := st.queue ++ [call] } :
      Statement).Ordered (n + 1) where
  order := by
    change st.made ++ [call.baton.id] = _
    rw [h.order, List.map_append, ← List.append_assoc]
    rfl
  increasing := by
    refine List.pairwise_append.mpr ⟨h.increasing, List.pairwise_singleton .., ?_⟩
    intro id hmade new hnew
    rw [List.mem_singleton.mp hnew, hid]
    exact h.bound id hmade
  bound id hmem := by
    rcases List.mem_append.mp hmem with hmade | hnew
    · exact Nat.lt_succ_of_lt (h.bound id hmade)
    · rw [List.mem_singleton.mp hnew, hid]
      exact Nat.lt_succ_self n
  ended := h.ended

/-- The first call of the queue is begun. -/
theorem Statement.Ordered.start {st : Statement} {n : Nat} {call : Statement.Call}
    (h : ({ st with queue := call :: st.queue } : Statement).Ordered n)
    (hfinalized : st.finalized = false) :
    ({ st with begun := st.begun ++ [call.baton.id] } : Statement).Ordered n where
  order := by
    have hended : st.ended = [] := by
      by_contra hne
      exact Bool.false_ne_true (hfinalized.symm.trans (h.ended hne))
    have horder := h.order
    change st.made = st.begun ++ st.ended ++ (call :: st.queue).map _ at horder
    change st.made = st.begun ++ [call.baton.id] ++ st.ended ++ st.queue.map _
    rw [horder, hended, List.append_nil, List.append_nil, List.map_cons, List.append_assoc]
    rfl
  increasing := h.increasing
  bound := h.bound
  ended := h.ended

/-- The first call of the queue is deleted. -/
theorem Statement.Ordered.delete {st : Statement} {n : Nat} {call : Statement.Call}
    {rest : List Statement.Call} (h : st.Ordered n) (hqueue : st.queue = call :: rest)
    (hfinalized : st.finalized = true) :
    ({ st with queue := rest, ended := st.ended ++ [call.baton.id] } : Statement).Ordered n where
  order := by
    change st.made = st.begun ++ (st.ended ++ [call.baton.id]) ++ rest.map _
    rw [h.order, hqueue, List.map_cons]
    simp only [List.append_assoc, List.singleton_append]
  increasing := h.increasing
  bound := h.bound
  ended _ := hfinalized

theorem Statement.Ordered.deleteAll {st : Statement} {n : Nat} (h : st.Ordered n)
    (hfinalized : st.finalized = true) :
    ({ st with
      queue := []
      ended := st.ended ++ st.queue.map fun call => call.baton.id } : Statement).Ordered n where
  order := by
    change st.made = st.begun ++ (st.ended ++ st.queue.map _) ++ []
    rw [h.order, List.append_nil, List.append_assoc]
  increasing := h.increasing
  bound := h.bound
  ended _ := hfinalized

namespace Database

def tickets (db : Database) (i : Nat) : Nat :=
  db.queue.countP (Call.prepares i) + db.works.countP (Work.isOf i) +
    db.stack.countP (Frame.ends i)

def Cleaning (db : Database) (i : Nat) : Prop := ∃ f ∈ db.stack, f.cleans i = true

def Fault.Excluded (fault : Fault) : Prop :=
  fault = .beginPrepare ∨ fault = .statementBegin ∨ fault = .statementEnd

/-- Once a statement is prepared only a ticket keeps it locked. -/
def Held (db : Database) (i : Nat) : Prop :=
  (db.statements i).prepared = true → (db.statements i).locked = true → 0 < db.tickets i

/-- What holds between two steps. In the middle of a step one statement may be exempt
from the order of its calls, from being cleaned and from being unlocked. -/
structure Accounted (db : Database) (exempt : Option Nat) : Prop where
  held : ∀ i, exempt ≠ some i → db.Held i
  unprepared : ∀ call ∈ db.queue, ∀ i, call.prepares i = true →
    (db.statements i).prepared = false
  ordered : ∀ i, exempt ≠ some i → (db.statements i).Ordered db.batons
  cleaned : ∀ i, exempt ≠ some i → (db.statements i).finalized = true →
    (db.statements i).queue ≠ [] → db.Cleaning i
  finalized : ∀ i, db.Cleaning i → (db.statements i).finalized = true
  ticket : ∀ i, db.tickets i ≤ 1
  locked : ∀ i, 0 < db.tickets i → (db.statements i).locked = true
  fresh : ∀ i, db.created ≤ i → db.tickets i = 0
  known : ∀ f ∈ db.stack, ∀ i, f.statement? = some i → i < db.created
  pending : db.pending = db.works.countP Work.counted + db.stack.countP Frame.isEnd
  apart : db.stack.Pairwise Frame.Apart
  sound : ∀ fault, db.fault = some fault → ¬ Fault.Excluded fault

@[simp] theorem update_self (db : Database) (i : Nat) (f : Statement → Statement) :
    (db.update i f).statements i = f (db.statements i) :=
  Function.update_self ..

@[simp] theorem statements_push (db : Database) (frames : List Frame) :
    (db.push frames).statements = db.statements :=
  rfl

@[simp] theorem statements_queueWork (db : Database) (job : Job) (callback : Bool) :
    (db.queueWork job callback).statements = db.statements :=
  rfl

theorem update_of_ne (db : Database) {i j : Nat} (f : Statement → Statement) (h : j ≠ i) :
    (db.update i f).statements j = db.statements j :=
  Function.update_of_ne h ..

@[simp] theorem plain_javascript (called : Bool) : Frame.Plain (javascript called) := by
  cases called with
  | true => simp [javascript]
  | false => simp [javascript]

namespace Accounted

variable {db : Database} {exempt : Option Nat} {i : Nat}

theorem weaken (h : Accounted db none) (i : Nat) : Accounted db (some i) :=
  { h with
    held := fun j _ => h.held j nofun
    ordered := fun j _ => h.ordered j nofun
    cleaned := fun j _ => h.cleaned j nofun }

theorem restore (h : Accounted db (some i)) (hordered : (db.statements i).Ordered db.batons)
    (hcleaned : (db.statements i).finalized = true → (db.statements i).queue ≠ [] →
      db.Cleaning i) (hheld : db.Held i) : Accounted db none :=
  { h with
    held := by
      intro j _
      by_cases hj : i = j
      · subst hj
        exact hheld
      · exact h.held j fun heq => hj (Option.some.inj heq)
    ordered := by
      intro j _
      by_cases hj : i = j
      · subst hj
        exact hordered
      · exact h.ordered j fun heq => hj (Option.some.inj heq)
    cleaned := by
      intro j _
      by_cases hj : i = j
      · subst hj
        exact hcleaned
      · exact h.cleaned j fun heq => hj (Option.some.inj heq) }

theorem flags (h : Accounted db exempt) (isOpen closing locked serialize handle : Bool) :
    Accounted { db with
      isOpen := isOpen, closing := closing, locked := locked, serialize := serialize,
      handle := handle } exempt :=
  ⟨h.held, h.unprepared, h.ordered, h.cleaned, h.finalized, h.ticket, h.locked, h.fresh,
    h.known, h.pending, h.apart, h.sound⟩

theorem callbacks (h : Accounted db exempt) (trace profile : Bool) :
    Accounted { db with trace := trace, profile := profile } exempt :=
  ⟨h.held, h.unprepared, h.ordered, h.cleaned, h.finalized, h.ticket, h.locked, h.fresh,
    h.known, h.pending, h.apart, h.sound⟩

theorem fail (h : Accounted db exempt) {fault : Fault} (hfault : ¬ Fault.Excluded fault) :
    Accounted (db.fail fault) exempt where
  held := h.held
  unprepared := h.unprepared
  ordered := h.ordered
  cleaned := h.cleaned
  finalized := h.finalized
  ticket := h.ticket
  locked := h.locked
  fresh := h.fresh
  known := h.known
  pending := h.pending
  apart := h.apart
  sound := by
    rintro _ ⟨⟩
    exact hfault

theorem number (h : Accounted db exempt) : Accounted { db with batons := db.batons + 1 } exempt :=
  { h with ordered := fun j hj => (h.ordered j hj).mono (Nat.le_succ _) }

/-! ### The stack -/

/-- Tickets are given up, moved, or given to locked statements that have none. -/
theorem regrant (h : Accounted db exempt) (pending : Nat) (queue : List Call) (works : List Work)
    (stack : List Frame)
    (htickets : ∀ j, queue.countP (Call.prepares j) + works.countP (Work.isOf j) +
        stack.countP (Frame.ends j) ≤ db.tickets j ∨
      queue.countP (Call.prepares j) + works.countP (Work.isOf j) +
        stack.countP (Frame.ends j) ≤ 1 ∧ (db.statements j).locked = true ∧ j < db.created)
    (hheld : ∀ j, exempt ≠ some j → (db.statements j).prepared = true → 0 < db.tickets j →
      0 < queue.countP (Call.prepares j) + works.countP (Work.isOf j) +
        stack.countP (Frame.ends j))
    (hunprepared : ∀ call ∈ queue, ∀ j, call.prepares j = true →
      (db.statements j).prepared = false)
    (hpending : pending = works.countP Work.counted + stack.countP Frame.isEnd)
    (hcleaned : ∀ j, exempt ≠ some j → (db.statements j).queue ≠ [] → db.Cleaning j →
      ∃ f ∈ stack, f.cleans j = true)
    (hfinalized : ∀ f ∈ stack, ∀ j, f.cleans j = true → (db.statements j).finalized = true)
    (hknown : ∀ f ∈ stack, ∀ j, f.statement? = some j → j < db.created)
    (hapart : stack.Pairwise Frame.Apart) :
    Accounted { db with pending := pending, queue := queue, works := works, stack := stack }
      exempt where
  held j hj hprepared hlocked := hheld j hj hprepared (h.held j hj hprepared hlocked)
  unprepared := hunprepared
  ordered := h.ordered
  cleaned j hj hfinalized hqueue := hcleaned j hj hqueue (h.cleaned j hj hfinalized hqueue)
  finalized := by
    rintro j ⟨f, hf, hclean⟩
    exact hfinalized f hf j hclean
  ticket j := by
    rcases htickets j with hle | ⟨hle, -, -⟩
    · exact Nat.le_trans hle (h.ticket j)
    · exact hle
  locked j hpos := by
    rcases htickets j with hle | ⟨-, hlocked, -⟩
    · exact h.locked j (Nat.lt_of_lt_of_le hpos hle)
    · exact hlocked
  fresh j hj := by
    rcases htickets j with hle | ⟨-, -, hlt⟩
    · exact Nat.le_zero.mp (h.fresh j hj ▸ hle)
    · exact absurd hlt (Nat.not_lt.mpr hj)
  known := hknown
  pending := hpending
  apart := hapart
  sound := h.sound

/-- A stack that ends the same works and cleans the same statements. -/
theorem restack (h : Accounted db exempt) {stack : List Frame}
    (hends : ∀ j, stack.countP (Frame.ends j) = db.stack.countP (Frame.ends j))
    (hisEnd : stack.countP Frame.isEnd = db.stack.countP Frame.isEnd)
    (hcleaned : ∀ j, exempt ≠ some j → (db.statements j).queue ≠ [] → db.Cleaning j →
      ∃ f ∈ stack, f.cleans j = true)
    (hfinalized : ∀ f ∈ stack, ∀ j, f.cleans j = true → (db.statements j).finalized = true)
    (hknown : ∀ f ∈ stack, ∀ j, f.statement? = some j → j < db.created)
    (hapart : stack.Pairwise Frame.Apart) : Accounted { db with stack := stack } exempt := by
  apply h.regrant db.pending db.queue db.works stack _ _ h.unprepared _ hcleaned hfinalized hknown
    hapart
  · intro j
    rw [hends j]
    exact .inl (Nat.le_refl _)
  · intro j _ _ hpos
    rw [hends j]
    exact hpos
  · rw [hisEnd]
    exact h.pending

theorem push (h : Accounted db exempt) {frames : List Frame}
    (hplain : ∀ f ∈ frames, f.ofStatement = false)
    (hfinalized : ∀ f ∈ frames, ∀ j, f.cleans j = true → (db.statements j).finalized = true)
    (hknown : ∀ f ∈ frames, ∀ j, f.statement? = some j → j < db.created) :
    Accounted (db.push frames) exempt := by
  have hnone : ∀ p : Frame → Bool, (∀ f, f.ofStatement = false → p f = false) →
      (frames ++ db.stack).countP p = db.stack.countP p := by
    intro p hp
    rw [List.countP_append, List.countP_eq_zero.mpr, Nat.zero_add]
    intro f hf
    rw [hp f (hplain f hf)]
    exact Bool.false_ne_true
  apply h.restack
  · exact fun j => hnone _ fun _ => Frame.not_ends
  · exact hnone _ fun _ => Frame.not_isEnd
  · rintro j - - ⟨f, hf, hclean⟩
    exact ⟨f, List.mem_append_right _ hf, hclean⟩
  · intro f hf j hclean
    rcases List.mem_append.mp hf with hf | hf
    · exact hfinalized f hf j hclean
    · exact h.finalized j ⟨f, hf, hclean⟩
  · intro f hf
    exact (List.mem_append.mp hf).elim (hknown f) (h.known f)
  · refine List.pairwise_append.mpr ⟨?_, h.apart, ?_⟩
    · refine List.pairwise_of_forall_mem_list fun f hf g _ hstatement => ?_
      exact absurd ((hplain f hf).symm.trans hstatement) Bool.false_ne_true
    · intro f hf g _ hstatement
      exact absurd ((hplain f hf).symm.trans hstatement) Bool.false_ne_true

theorem push_plain (h : Accounted db exempt) {frames : List Frame}
    (hplain : Frame.Plain frames) : Accounted (db.push frames) exempt := by
  apply h.push
  · exact fun f hf => Frame.not_ofStatement (hplain f hf)
  · intro f hf j hclean
    have hnone := hplain f hf
    rw [Frame.statement?_of_cleans hclean] at hnone
    cases hnone
  · intro f hf j hsome
    rw [hplain f hf] at hsome
    cases hsome

/-- Below the frames of a statement nothing cleans a queue. -/
theorem push_apart (h : Accounted db exempt) (frames : List Frame)
    (hframes : ∀ f ∈ frames, f.isEnd = false ∧ (∀ j, f.cleans j = false) ∧
      ∀ j, f.statement? = some j → j < db.created)
    (hstack : ∀ f ∈ db.stack, ∀ j, f.cleans j = false) : Accounted (db.push frames) exempt := by
  have hnone : ∀ p : Frame → Bool, (∀ f, f.isEnd = false → p f = false) →
      (frames ++ db.stack).countP p = db.stack.countP p := by
    intro p hp
    rw [List.countP_append, List.countP_eq_zero.mpr, Nat.zero_add]
    intro f hf
    rw [hp f (hframes f hf).1]
    exact Bool.false_ne_true
  have hcleans : ∀ f ∈ frames ++ db.stack, ∀ j, f.cleans j = false := by
    intro f hf
    exact (List.mem_append.mp hf).elim (fun hf => (hframes f hf).2.1) (hstack f)
  apply h.restack
  · refine fun j => hnone _ fun f hf => ?_
    cases hj : f.ends j with
    | false => rfl
    | true => exact absurd (hf.symm.trans (Frame.ends_le_isEnd hj)) Bool.false_ne_true
  · exact hnone _ fun _ hf => hf
  · rintro j - - ⟨f, hf, hclean⟩
    exact absurd ((hstack f hf j).symm.trans hclean) Bool.false_ne_true
  · intro f hf j hclean
    exact absurd ((hcleans f hf j).symm.trans hclean) Bool.false_ne_true
  · intro f hf
    exact (List.mem_append.mp hf).elim (fun hf => (hframes f hf).2.2) (h.known f)
  · exact List.pairwise_of_forall_mem_list fun _ _ g hg _ => hcleans g hg

theorem pop (h : Accounted db exempt) {f : Frame} {rest : List Frame}
    (hstack : db.stack = f :: rest) (hend : f.isEnd = false)
    (hcleans : ∀ j, f.cleans j = true → exempt = some j ∨ (db.statements j).queue = []) :
    Accounted { db with stack := rest } exempt := by
  have hnone : ∀ p : Frame → Bool, p f = false → rest.countP p = db.stack.countP p := by
    intro p hp
    rw [hstack, List.countP_cons_of_neg]
    rw [hp]
    exact Bool.false_ne_true
  apply h.restack
  · intro j
    apply hnone
    cases hj : f.ends j with
    | false => rfl
    | true => exact absurd (hend.symm.trans (Frame.ends_le_isEnd hj)) Bool.false_ne_true
  · exact hnone _ hend
  · rintro j hj hqueue ⟨g, hg, hclean⟩
    rw [hstack] at hg
    rcases List.mem_cons.mp hg with rfl | hg
    · exact ((hcleans j hclean).elim hj hqueue).elim
    · exact ⟨g, hg, hclean⟩
  · intro g hg j hclean
    exact h.finalized j ⟨g, hstack ▸ List.mem_cons_of_mem f hg, hclean⟩
  · intro g hg
    exact h.known g (hstack ▸ List.mem_cons_of_mem f hg)
  · have hapart := h.apart
    rw [hstack] at hapart
    exact hapart.of_cons

/-! ### The statements, the queue and the pool -/

theorem not_prepares (h : Accounted db exempt) (hprepared : (db.statements i).prepared = true) :
    ∀ call ∈ db.queue, call.prepares i = false := by
  intro call hcall
  cases hi : call.prepares i with
  | false => rfl
  | true => exact absurd ((h.unprepared call hcall i hi).symm.trans hprepared) Bool.false_ne_true

theorem update (h : Accounted db (some i)) {f : Statement → Statement}
    (hfinalized : (db.statements i).finalized = true → (f (db.statements i)).finalized = true)
    (hlocked : 0 < db.tickets i → (f (db.statements i)).locked = true)
    (hprepared : (f (db.statements i)).prepared = true →
      ∀ call ∈ db.queue, call.prepares i = false) :
    Accounted (db.update i f) (some i) where
  held j hj := by
    rw [Held, update_of_ne _ _ fun heq => hj (congrArg some heq.symm)]
    exact h.held j hj
  unprepared call hcall j hj := by
    by_cases heq : j = i
    · subst heq
      rw [update_self]
      by_contra hne
      have hnot := hprepared ((Bool.not_eq_false _).mp hne) call hcall
      exact Bool.false_ne_true (hnot.symm.trans hj)
    · rw [update_of_ne _ _ heq]
      exact h.unprepared call hcall j hj
  ordered j hj := by
    rw [update_of_ne _ _ fun heq => hj (congrArg some heq.symm)]
    exact h.ordered j hj
  cleaned j hj := by
    rw [update_of_ne _ _ fun heq => hj (congrArg some heq.symm)]
    exact h.cleaned j hj
  finalized j hj := by
    by_cases heq : j = i
    · subst heq
      rw [update_self]
      exact hfinalized (h.finalized j hj)
    · rw [update_of_ne _ _ heq]
      exact h.finalized j hj
  ticket := h.ticket
  locked j hpos := by
    by_cases hj : j = i
    · subst hj
      rw [update_self]
      exact hlocked hpos
    · rw [update_of_ne _ _ hj]
      exact h.locked j hpos
  fresh := h.fresh
  known := h.known
  pending := h.pending
  apart := h.apart
  sound := h.sound

/-- An update of the queue or of what is recorded. -/
theorem touch (h : Accounted db (some i)) {f : Statement → Statement}
    (hsame : ∀ st, (f st).finalized = st.finalized ∧ (f st).locked = st.locked ∧
      (f st).prepared = st.prepared) : Accounted (db.update i f) (some i) := by
  obtain ⟨hfinalized, hlocked, hprepared⟩ := hsame (db.statements i)
  refine h.update ?_ ?_ ?_
  · exact hfinalized.trans
  · exact fun hpos => hlocked.trans (h.locked i hpos)
  · exact fun htrue => h.not_prepares (hprepared.symm.trans htrue)

theorem held_push (h : db.Held i) (frames : List Frame) : (db.push frames).Held i := by
  intro hprepared hlocked
  have hpos := h hprepared hlocked
  unfold tickets at hpos
  change 0 < db.queue.countP _ + db.works.countP _ + (frames ++ db.stack).countP _
  rw [List.countP_append]
  omega

theorem held_pop (h : db.Held i) {f : Frame} {rest : List Frame} (hstack : db.stack = f :: rest)
    (hends : f.ends i = false) : ({ db with stack := rest } : Database).Held i := by
  intro hprepared hlocked
  have hpos := h hprepared hlocked
  rw [tickets, hstack, List.countP_cons, hends] at hpos
  exact hpos

theorem held_touch (h : db.Held i) {f : Statement → Statement}
    (hlocked : (f (db.statements i)).locked = (db.statements i).locked)
    (hprepared : (f (db.statements i)).prepared = (db.statements i).prepared) :
    (db.update i f).Held i := by
  rw [Held, update_self, hlocked, hprepared]
  exact h

/-- A ticket may be given to a statement that is locked without having one. -/
def Grantable (db : Database) (i : Nat) : Prop :=
  db.tickets i = 0 ∧ (db.statements i).locked = true ∧ i < db.created

theorem enqueue (h : Accounted db exempt) {call : Call}
    (hcall : ∀ j, call.prepares j = true →
      Grantable db j ∧ (db.statements j).prepared = false) :
    Accounted { db with queue := db.queue ++ [call] } exempt := by
  refine h.regrant db.pending _ db.works db.stack ?_ ?_ ?_ h.pending (fun _ _ _ hclean => hclean)
    (fun f hf j hclean => h.finalized j ⟨f, hf, hclean⟩) h.known h.apart
  · intro j
    rw [List.countP_append, List.countP_singleton]
    cases hj : call.prepares j with
    | false => exact .inl (Nat.le_refl _)
    | true =>
      obtain ⟨⟨hzero, hlocked, hlt⟩, -⟩ := hcall j hj
      unfold tickets at hzero
      rw [if_pos rfl]
      exact .inr ⟨by omega, hlocked, hlt⟩
  · intro j _ _ hpos
    unfold tickets at hpos
    rw [List.countP_append]
    omega
  · intro c hc j hj
    rcases List.mem_append.mp hc with hc | hc
    · exact h.unprepared c hc j hj
    · rw [List.mem_singleton.mp hc] at hj
      exact (hcall j hj).2

theorem dequeue (h : Accounted db exempt) {call : Call} {rest : List Call}
    (hqueue : db.queue = call :: rest) : Accounted { db with queue := rest } exempt := by
  have hcount : ∀ j, db.tickets j = rest.countP (Call.prepares j) +
      (if call.prepares j then 1 else 0) + db.works.countP (Work.isOf j) +
        db.stack.countP (Frame.ends j) := by
    intro j
    rw [tickets, hqueue, List.countP_cons]
  refine h.regrant db.pending _ db.works db.stack ?_ ?_ ?_ h.pending (fun _ _ _ hclean => hclean)
    (fun f hf j hclean => h.finalized j ⟨f, hf, hclean⟩) h.known h.apart
  · intro j
    rw [hcount j]
    exact .inl (by omega)
  · intro j _ hprepared hpos
    have hnot := h.not_prepares hprepared call (hqueue ▸ List.mem_cons_self ..)
    rw [hcount j, hnot] at hpos
    exact hpos
  · intro c hc
    exact h.unprepared c (hqueue ▸ List.mem_cons_of_mem _ hc)

/-- The preparation that is taken off the queue gives its ticket back. -/
theorem grantable_of_dequeue (h : Accounted db exempt) {call : Call} {rest : List Call}
    (hqueue : db.queue = call :: rest) (hcall : call.prepares i = true) :
    Grantable { db with queue := rest } i := by
  have hone : db.tickets i = rest.countP (Call.prepares i) + 1 + db.works.countP (Work.isOf i) +
      db.stack.countP (Frame.ends i) := by
    rw [tickets, hqueue, List.countP_cons_of_pos hcall]
  have hle := h.ticket i
  refine ⟨?_, h.locked i (by omega), ?_⟩
  · unfold tickets
    change rest.countP _ + db.works.countP _ + db.stack.countP _ = 0
    omega
  · by_contra hlt
    have hzero := h.fresh i (Nat.not_lt.mp hlt)
    omega

theorem queueWork (h : Accounted db exempt) (job : Job) (callback : Bool)
    (hjob : ∀ j, job.statement? = some j → Grantable db j) :
    Accounted ({ db with
      pending := db.pending + if job.statement?.isSome then 1 else 0 }.queueWork job callback)
      exempt := by
  refine h.regrant _ db.queue (db.works ++ [⟨job, callback, none⟩]) db.stack ?_ ?_ h.unprepared ?_
    (fun _ _ _ hclean => hclean) (fun f hf j hclean => h.finalized j ⟨f, hf, hclean⟩)
    h.known h.apart
  · intro j
    have hof : Work.isOf j ⟨job, callback, none⟩ = decide (job.statement? = some j) := rfl
    rw [List.countP_append, List.countP_singleton, hof]
    by_cases hj : job.statement? = some j
    · obtain ⟨hzero, hlocked, hlt⟩ := hjob j hj
      unfold tickets at hzero
      rw [if_pos (decide_eq_true hj)]
      exact .inr ⟨by omega, hlocked, hlt⟩
    · rw [if_neg (by rw [decide_eq_false hj]; exact Bool.false_ne_true)]
      exact .inl (Nat.le_refl _)
  · intro j _ _ hpos
    unfold tickets at hpos
    rw [List.countP_append]
    omega
  · have hcounted : Work.counted ⟨job, callback, none⟩ = job.statement?.isSome := rfl
    rw [List.countP_append, List.countP_singleton, hcounted, h.pending]
    exact Nat.add_right_comm ..

end Accounted

/-! ## What the functions preserve -/

/-- While JavaScript runs no statement keeps a call waiting that it could begin. -/
structure Calm (db : Database) : Prop where
  accounted : Accounted db none
  settled : ∀ i, ¬ (db.statements i).Waiting

namespace Calm

variable {db : Database} {i : Nat}

theorem push (h : Calm db) {frames : List Frame} (hplain : Frame.Plain frames) :
    Calm (db.push frames) :=
  ⟨h.accounted.push_plain hplain, h.settled⟩

theorem fail (h : Calm db) {fault : Fault} (hfault : ¬ Fault.Excluded fault) :
    Calm (db.fail fault) :=
  ⟨h.accounted.fail hfault, h.settled⟩

theorem flags (h : Calm db) (isOpen closing locked serialize handle : Bool) :
    Calm { db with
      isOpen := isOpen, closing := closing, locked := locked, serialize := serialize,
      handle := handle } :=
  ⟨h.accounted.flags isOpen closing locked serialize handle, h.settled⟩

theorem callbacks (h : Calm db) (trace profile : Bool) :
    Calm { db with trace := trace, profile := profile } :=
  ⟨h.accounted.callbacks trace profile, h.settled⟩

theorem configured (h : Calm db) (option : Configuration) : Calm (db.configured option) := by
  cases option with
  | trace => exact h.callbacks (!db.trace) db.profile
  | profile => exact h.callbacks db.trace (!db.profile)
  | busyTimeout => exact h

theorem dequeue (h : Calm db) {call : Call} {rest : List Call} (hqueue : db.queue = call :: rest) :
    Calm { db with queue := rest } :=
  ⟨h.accounted.dequeue hqueue, h.settled⟩

/-- A finalized statement does not wait. -/
theorem of_finalized (h : Accounted db none) (hfinalized : (db.statements i).finalized = true)
    (hsettled : ∀ j, j ≠ i → ¬ (db.statements j).Waiting) : Calm db := by
  refine ⟨h, fun j hwaiting => ?_⟩
  by_cases hj : j = i
  · subst hj
    exact Bool.false_ne_true (hwaiting.2.2.2.symm.trans hfinalized)
  · exact hsettled j hj hwaiting

theorem others_update {f : Statement → Statement}
    (hsettled : ∀ j, j ≠ i → ¬ (db.statements j).Waiting) :
    ∀ j, j ≠ i → ¬ ((db.update i f).statements j).Waiting := by
  intro j hj
  rw [update_of_ne _ _ hj]
  exact hsettled j hj

theorem cleanQueue (h : Accounted db (some i)) (hi : i < db.created) (hheld : db.Held i)
    (hordered : (db.statements i).Ordered db.batons)
    (hfinalized : (db.statements i).finalized = true)
    (hsettled : ∀ j, j ≠ i → ¬ (db.statements j).Waiting) : Calm (db.cleanQueue i) := by
  unfold Database.cleanQueue
  split
  · split
    · rename_i hqueue
      exact of_finalized (h.restore hordered (fun _ hne => absurd hqueue hne) hheld) hfinalized
        hsettled
    · have hpushed : Accounted (db.push [.cleanLoop i false]) (some i) := by
        apply h.push
        · intro f hf
          rw [List.mem_singleton.mp hf]
          rfl
        · intro f hf j hclean
          rw [List.mem_singleton.mp hf] at hclean
          rw [← of_decide_eq_true hclean]
          exact hfinalized
        · intro f hf j hj
          rw [List.mem_singleton.mp hf] at hj
          cases hj
          exact hi
      refine of_finalized (hpushed.restore hordered (fun _ _ => ?_) (Accounted.held_push hheld _))
        hfinalized hsettled
      exact ⟨_, List.mem_cons_self .., decide_eq_true rfl⟩
  · have hupdated := h.touch (f := fun st => { st with
        queue := [], ended := st.ended ++ st.queue.map fun call => call.baton.id })
      fun _ => ⟨rfl, rfl, rfl⟩
    refine of_finalized (i := i) (hupdated.restore ?_ (fun _ hne => ?_)
      (Accounted.held_touch hheld rfl rfl)) ?_ ?_
    · rw [update_self]
      exact hordered.deleteAll hfinalized
    · rw [update_self] at hne
      exact absurd rfl hne
    · rw [update_self]
      exact hfinalized
    · exact others_update hsettled

theorem finalize (h : Accounted db none) (hi : i < db.created)
    (hsettled : ∀ j, j ≠ i → ¬ (db.statements j).Waiting) : Calm (db.finalize i) := by
  unfold Database.finalize
  split
  · rename_i hfinalized
    exact of_finalized (i := i) (h.fail (by simp [Fault.Excluded])) hfinalized hsettled
  · have hupdated := (h.weaken i).update (f := fun st => { st with finalized := true })
      (fun _ => rfl) (h.locked i) h.not_prepares
    apply cleanQueue hupdated hi (Accounted.held_touch (h.held i nofun) rfl rfl)
    · rw [update_self]
      exact { h.ordered i nofun with ended := fun _ => rfl }
    · rw [update_self]
    · exact others_update hsettled

theorem operate (h : Accounted db none) (hi : i < db.created) (operation : Operation)
    (callback : Bool) (hlocked : (db.statements i).locked = false)
    (hfinalized : (db.statements i).finalized = false)
    (hsettled : ∀ j, j ≠ i → ¬ (db.statements j).Waiting) :
    Calm (({ db with pending := db.pending + 1 }.update i fun st =>
      { st with locked := true }).queueWork (.operate i operation) callback) := by
  have hfree : db.tickets i = 0 := by
    by_contra hne
    have hheld := h.locked i (Nat.pos_of_ne_zero hne)
    exact Bool.false_ne_true (hlocked.symm.trans hheld)
  have hupdated := (h.weaken i).update (f := fun st => { st with locked := true })
    id (fun _ => rfl) h.not_prepares
  have hqueued := hupdated.queueWork (.operate i operation) callback (by
    rintro j ⟨⟩
    exact ⟨hfree, by rw [update_self], hi⟩)
  refine ⟨hqueued.restore ?_ (fun htrue => ?_) ?_, fun j hwaiting => ?_⟩
  · rw [statements_queueWork, update_self]
    exact { h.ordered i nofun with }
  · rw [statements_queueWork, update_self] at htrue
    exact absurd (hfinalized.symm.trans htrue) Bool.false_ne_true
  · intro _ _
    have hof : Work.isOf i ⟨.operate i operation, callback, none⟩ = true := by
      simp [Work.isOf, Job.statement?]
    change 0 < db.queue.countP _ + (db.works ++ [_]).countP _ + db.stack.countP _
    rw [List.countP_append, List.countP_singleton, if_pos hof]
    omega
  · rw [statements_queueWork] at hwaiting
    by_cases hj : j = i
    · subst hj
      rw [update_self] at hwaiting
      cases hwaiting.2.2.1
    · rw [update_of_ne _ _ hj] at hwaiting
      exact hsettled j hj hwaiting

/-- The call has been taken off the front of the queue. -/
theorem beginStatement {call : Statement.Call} (h : Accounted db (some i))
    (hi : i < db.created) (hheld : db.Held i)
    (hordered : ({ db.statements i with queue := call :: (db.statements i).queue } :
      Statement).Ordered db.batons)
    (hprepared : (db.statements i).prepared = true) (hlocked : (db.statements i).locked = false)
    (hfinalized : (db.statements i).finalized = false)
    (hsettled : ∀ j, j ≠ i → ¬ (db.statements j).Waiting) : Calm (db.beginStatement i call) := by
  have hupdated := h.touch (f := fun st => { st with begun := st.begun ++ [call.baton.id] })
    fun _ => ⟨rfl, rfl, rfl⟩
  have hbegun : Accounted (db.update i fun st =>
      { st with begun := st.begun ++ [call.baton.id] }) none := by
    refine hupdated.restore ?_ (fun htrue => ?_) (Accounted.held_touch hheld rfl rfl)
    · rw [update_self]
      exact hordered.start hfinalized
    · rw [update_self] at htrue
      exact absurd (hfinalized.symm.trans htrue) Bool.false_ne_true
  have hothers := others_update (f := fun st => { st with begun := st.begun ++ [call.baton.id] })
    hsettled
  unfold Database.beginStatement
  split
  · rename_i operation _
    rw [if_pos (by simp [hprepared, hlocked, hfinalized])]
    apply operate hbegun hi
    · rw [update_self]
      exact hlocked
    · rw [update_self]
      exact hfinalized
    · exact hothers
  · exact finalize (hbegun.push_plain (plain_javascript _)) hi hothers

theorem scheduleStatement (h : Calm db) (hi : i < db.created) (work : Statement.WorkCallback)
    (callback : Bool) : Calm ({ db with batons := db.batons + 1 }.scheduleStatement i
      ⟨work, db.batons, callback⟩) := by
  obtain ⟨call, hcall⟩ : ∃ call : Statement.Call, call = ⟨work, db.batons, callback⟩ := ⟨_, rfl⟩
  have hid : call.baton.id = db.batons := by rw [hcall]
  rw [← hcall]
  have hmake := (h.accounted.ordered i nofun).make hid
  have hmade := (h.accounted.number.weaken i).touch (f := fun st =>
    { st with made := st.made ++ [call.baton.id] }) fun _ => ⟨rfl, rfl, rfl⟩
  have hqueued := hmade.touch (f := fun st => { st with queue := st.queue ++ [call] })
    fun _ => ⟨rfl, rfl, rfl⟩
  have hothers : ∀ j, j ≠ i → ¬ (db.statements j).Waiting := fun j _ => h.settled j
  have hheldMade := Accounted.held_touch
    (f := fun st => { st with made := st.made ++ [call.baton.id] })
    (show ({ db with batons := db.batons + 1 } : Database).Held i from h.accounted.held i nofun)
    rfl rfl
  have hheld := Accounted.held_touch (f := fun st => { st with queue := st.queue ++ [call] })
    hheldMade rfl rfl
  unfold Database.scheduleStatement
  simp only [update_self]
  split
  · rename_i hfinalized
    apply cleanQueue hqueued hi hheld
    · rw [update_self, update_self]
      exact hmake
    · rw [update_self, update_self]
      exact hfinalized
    · exact others_update (others_update hothers)
  · rename_i hfinalized
    rw [Bool.not_eq_true] at hfinalized
    split
    · rename_i hbusy
      refine ⟨hqueued.restore ?_ (fun htrue => ?_) hheld, fun j hwaiting => ?_⟩
      · rw [update_self, update_self]
        exact hmake
      · rw [update_self, update_self] at htrue
        exact absurd (hfinalized.symm.trans htrue) Bool.false_ne_true
      · by_cases hj : j = i
        · subst hj
          rw [update_self, update_self] at hwaiting
          rcases hbusy with hunprepared | hlocked
          · exact hunprepared hwaiting.2.1
          · exact Bool.false_ne_true (hwaiting.2.2.1.symm.trans hlocked)
        · rw [update_of_ne _ _ hj, update_of_ne _ _ hj] at hwaiting
          exact h.settled j hwaiting
    · rename_i hidle
      rw [not_or, not_not, Bool.not_eq_true] at hidle
      have hempty : (db.statements i).queue = [] := by
        by_contra hne
        exact h.settled i ⟨hne, hidle.1, hidle.2, hfinalized⟩
      apply beginStatement hmade hi hheldMade
      · rw [update_self]
        rw [hempty] at hmake ⊢
        exact hmake
      · rw [update_self]
        exact hidle.1
      · rw [update_self]
        exact hidle.2
      · rw [update_self]
        exact hfinalized
      · exact others_update hothers

theorem queueExclusive (h : Calm db) {job : Job} (callback : Bool) (hjob : job.statement? = none) :
    Calm (db.queueWork job callback) := by
  have hnone : ∀ j, job.statement? = some j → Accounted.Grantable db j := by
    intro j hj
    rw [hjob] at hj
    cases hj
  have hqueued := h.accounted.queueWork job callback hnone
  rw [hjob] at hqueued
  exact ⟨hqueued, h.settled⟩

theorem begin {baton : Baton} (h : Calm db)
    (hprepare : ∀ j, baton.work = .prepare j → db.isOpen = true ∧ Accounted.Grantable db j) :
    Calm (db.begin baton) := by
  obtain ⟨id, work, callback⟩ := baton
  cases work with
  | prepare j =>
    obtain ⟨hopen, hgrant⟩ := hprepare j rfl
    simp only [Database.begin]
    rw [if_pos hopen]
    refine ⟨h.accounted.queueWork (.prepare j) callback ?_, h.settled⟩
    rintro k ⟨⟩
    exact hgrant
  | exec =>
    simp only [Database.begin]
    split
    · exact h.queueExclusive callback rfl
    · exact h.fail (by simp [Fault.Excluded])
  | loadExtension =>
    simp only [Database.begin]
    split
    · exact h.queueExclusive callback rfl
    · exact h.fail (by simp [Fault.Excluded])
  | close =>
    simp only [Database.begin]
    split
    · exact ((h.callbacks false false).flags _ true _ _ _).queueExclusive callback rfl
    · exact h.fail (by simp [Fault.Excluded])
  | wait =>
    simp only [Database.begin]
    split
    · exact h.push (by simp)
    · exact h.fail (by simp [Fault.Excluded])
  | configure option =>
    simp only [Database.begin]
    split
    · exact h.configured option
    · exact h.fail (by simp [Fault.Excluded])

theorem schedule {baton : Baton} (h : Calm db) (exclusive : Bool)
    (hprepare : ∀ j, baton.work = .prepare j →
      Accounted.Grantable db j ∧ (db.statements j).prepared = false) :
    Calm (db.schedule baton exclusive) := by
  unfold Database.schedule
  split
  · exact h.push (by simp)
  · split
    · refine ⟨h.accounted.enqueue fun j hj => ?_, h.settled⟩
      exact hprepare j (of_decide_eq_true hj)
    · rename_i hready
      rw [not_or, not_not] at hready
      exact (h.flags _ _ exclusive _ _).begin fun j hj => ⟨hready.1, (hprepare j hj).1⟩

theorem scheduleNew (h : Calm db) {work : WorkCallback} (callback exclusive : Bool)
    (hprepare : ∀ j, work = .prepare j →
      Accounted.Grantable db j ∧ (db.statements j).prepared = false) :
    Calm (db.scheduleNew work callback exclusive) :=
  schedule (show Calm { db with batons := db.batons + 1 } from ⟨h.accounted.number, h.settled⟩)
    exclusive hprepare

theorem statements_newStatement (db : Database) (i : Nat) :
    db.newStatement.statements i = if i = db.created then .new else db.statements i := by
  by_cases hi : i = db.created
  · rw [if_pos hi, hi]
    exact Function.update_self ..
  · rw [if_neg hi]
    exact Function.update_of_ne hi ..

theorem create (h : Calm db) : Calm db.newStatement where
  accounted := {
    h.accounted with
    held := by
      intro j hj
      rw [Held, statements_newStatement]
      split
      · exact fun hprepared => nomatch hprepared
      · exact h.accounted.held j hj
    unprepared := by
      intro call hcall j hj
      rw [statements_newStatement]
      split
      · rfl
      · exact h.accounted.unprepared call hcall j hj
    ordered := by
      intro j hj
      rw [statements_newStatement]
      split
      · exact Statement.ordered_new _
      · exact h.accounted.ordered j hj
    cleaned := by
      intro j hj
      rw [statements_newStatement]
      split
      · exact fun _ hne => absurd rfl hne
      · exact h.accounted.cleaned j hj
    finalized := by
      rintro j ⟨f, hf, hclean⟩
      have hlt := h.accounted.known f hf j (Frame.statement?_of_cleans hclean)
      rw [statements_newStatement, if_neg (Nat.ne_of_lt hlt)]
      exact h.accounted.finalized j ⟨f, hf, hclean⟩
    locked := by
      intro j hpos
      rw [statements_newStatement]
      split
      · rfl
      · exact h.accounted.locked j hpos
    fresh := fun j hj => h.accounted.fresh j (Nat.le_of_succ_le hj)
    known := fun f hf j hj => Nat.lt_succ_of_lt (h.accounted.known f hf j hj) }
  settled j := by
    rw [statements_newStatement]
    split
    · exact fun hwaiting => hwaiting.1 rfl
    · exact h.settled j

theorem grantable_new (h : Calm db) : Accounted.Grantable db.newStatement db.created ∧
    (db.newStatement.statements db.created).prepared = false := by
  have hnew : db.newStatement.statements db.created = .new := by
    rw [statements_newStatement, if_pos rfl]
  refine ⟨⟨h.accounted.fresh _ (Nat.le_refl _), ?_, Nat.lt_succ_self _⟩, ?_⟩
  · rw [hnew]
    rfl
  · rw [hnew]
    rfl

theorem request {r : Request} {db' : Database} (h : Calm db) (hr : db.request r = some db') :
    Calm db' := by
  cases r with
  | prepare callback =>
    cases hr
    refine h.create.scheduleNew callback false ?_
    rintro j ⟨⟩
    exact h.grantable_new
  | statement i work callback =>
    obtain ⟨hi, hsome⟩ := Option.ite_none_right_eq_some.mp hr
    cases hsome
    exact h.scheduleStatement hi work callback
  | exec callback =>
    cases hr
    exact h.scheduleNew callback true nofun
  | loadExtension callback =>
    cases hr
    exact h.scheduleNew callback true nofun
  | close callback =>
    cases hr
    exact h.scheduleNew callback true nofun
  | wait callback =>
    cases hr
    exact h.scheduleNew callback true nofun
  | configure option =>
    cases hr
    exact (h.push (by simp)).scheduleNew false false nofun
  | serialize value callback =>
    cases hr
    split
    · exact (h.flags _ _ _ value _).push (by simp)
    · exact (h.flags _ _ _ value _).push (by simp)

theorem deleteBaton (h : Calm db) (hi : i < db.created) : Calm (db.deleteBaton i) := by
  unfold Database.deleteBaton
  split
  · exact finalize h.accounted hi fun j _ => h.settled j
  · exact h

theorem processLoop (h : Calm db) : Calm db.processLoop := by
  unfold Database.processLoop
  split
  · exact h
  · rename_i call rest hqueue
    split
    · rename_i hready
      refine (((h.dequeue hqueue).flags _ _ call.exclusive _ _).push (by simp)).begin fun j hj => ?_
      exact ⟨hready.1, h.accounted.grantable_of_dequeue hqueue (decide_eq_true hj)⟩
    · exact h

theorem closedLoop (h : Calm db) (called : Bool) : Calm (db.closedLoop called) := by
  unfold Database.closedLoop
  split
  · exact h.push (plain_javascript _)
  · split
    · exact h.push (by simp)
    · exact h.push (by simp)

theorem closedPop (h : Calm db) (called : Bool) (call : Call) :
    Calm (db.closedPop called call) := by
  unfold Database.closedPop
  split
  · exact h.fail (by simp [Fault.Excluded])
  · rename_i first rest hqueue
    split
    · rename_i heq
      have hpushed := (h.dequeue hqueue).push (show Frame.Plain [.closedLoop called] by simp)
      split
      · rename_i j hj
        refine hpushed.deleteBaton ?_
        exact (h.accounted.grantable_of_dequeue hqueue (heq ▸ decide_eq_true hj)).2.2
      · exact hpushed
    · exact h.fail (by simp [Fault.Excluded])

end Calm

/-! ## The invariant -/

/-- A statement keeps a call waiting that it could begin only while it is about to. -/
structure Counted (db : Database) : Prop where
  accounted : Accounted db none
  waiting : ∀ i, (db.statements i).Waiting →
    db.stack.head? = some (.statementProcess i) ∨ db.stack.head? = some (.statementLoop i)

theorem Calm.counted {db : Database} (h : Calm db) : Counted db :=
  ⟨h.accounted, fun i hi => absurd hi (h.settled i)⟩

namespace Counted

variable {db : Database} {i : Nat}

theorem calm (h : Counted db) (hprocess : ∀ i, db.stack.head? ≠ some (.statementProcess i))
    (hloop : ∀ i, db.stack.head? ≠ some (.statementLoop i)) : Calm db :=
  ⟨h.accounted, fun i hi => (h.waiting i hi).elim (hprocess i) (hloop i)⟩

/-- Another frame than those of a statement is taken off the stack. -/
theorem pop (h : Counted db) {f : Frame} {rest : List Frame} (hstack : db.stack = f :: rest)
    (hf : f.ofStatement = false) (hclean : ∀ j, f.cleans j = false) :
    Calm { db with stack := rest } := by
  have hcalm : Calm db := by
    apply h.calm
    · intro i hi
      rw [hstack] at hi
      cases hi
      cases hf
    · intro i hi
      rw [hstack] at hi
      cases hi
      cases hf
  refine ⟨hcalm.accounted.pop hstack (Frame.not_isEnd hf) fun j hj => ?_, hcalm.settled⟩
  rw [hclean j] at hj
  cases hj

theorem new (callback : Bool) : Counted (Database.new callback) where
  accounted := {
    held := nofun
    unprepared := nofun
    ordered := fun i _ => Statement.ordered_new _
    cleaned := fun i _ _ hne => absurd rfl hne
    finalized := by
      rintro i ⟨f, hf, -⟩
      cases hf
    ticket := fun i => Nat.zero_le 1
    locked := fun i hpos => absurd hpos (Nat.lt_irrefl 0)
    fresh := fun i _ => rfl
    known := nofun
    pending := rfl
    apart := .nil
    sound := nofun }
  waiting i hi := absurd rfl hi.1

theorem not_cleans_of_apart (h : Counted db) {f : Frame} {rest : List Frame}
    (hstack : db.stack = f :: rest) (hf : f.ofStatement = true) :
    ∀ g ∈ rest, ∀ j, g.cleans j = false := by
  have hapart := h.accounted.apart
  rw [hstack] at hapart
  exact fun g hg => List.rel_of_pairwise_cons hapart hg hf

/-- Ending a work gives its ticket back. -/
theorem release (h : Counted db) {prepare : Bool} {rest : List Frame}
    (hstack : db.stack = .statementEnd i prepare :: rest) :
    ((db.statements i).locked = true ∧ 0 < db.pending) ∧
    Accounted ({ db with pending := db.pending - 1, stack := rest }.update i fun st =>
      { st with locked := false }) none := by
  have hends : ∀ j, db.stack.countP (Frame.ends j) =
      rest.countP (Frame.ends j) + if i = j then 1 else 0 := by
    intro j
    rw [hstack, List.countP_cons]
    simp [Frame.ends]
  have hisEnd : db.stack.countP Frame.isEnd = rest.countP Frame.isEnd + 1 := by
    rw [hstack]
    exact List.countP_cons_of_pos rfl
  have hpending := h.accounted.pending
  have hticket := h.accounted.ticket i
  rw [tickets, hends i, if_pos rfl] at hticket
  have hlocked : (db.statements i).locked = true := by
    apply h.accounted.locked
    rw [tickets, hends i, if_pos rfl]
    omega
  have hgiven : Accounted { db with pending := db.pending - 1, stack := rest } (some i) := by
    refine (h.accounted.weaken i).regrant (db.pending - 1) db.queue db.works rest
      ?_ ?_ h.accounted.unprepared ?_ ?_ ?_ ?_ ?_
    · intro j
      rw [tickets, hends j]
      exact .inl (by omega)
    · intro j hj _ hpos
      rw [tickets, hends j, if_neg fun heq => hj (congrArg some heq)] at hpos
      exact hpos
    · omega
    · rintro j - - ⟨f, hf, hclean⟩
      rw [hstack] at hf
      rcases List.mem_cons.mp hf with rfl | hf
      · cases hclean
      · exact ⟨f, hf, hclean⟩
    · intro f hf j hclean
      exact h.accounted.finalized j ⟨f, hstack ▸ List.mem_cons_of_mem _ hf, hclean⟩
    · exact fun f hf => h.accounted.known f (hstack ▸ List.mem_cons_of_mem _ hf)
    · have hapart := h.accounted.apart
      rw [hstack] at hapart
      exact hapart.of_cons
  have hfree : ({ db with pending := db.pending - 1, stack := rest } : Database).tickets i = 0 := by
    change db.queue.countP _ + db.works.countP _ + rest.countP _ = 0
    omega
  have hunlocked := hgiven.update (f := fun st => { st with locked := false }) id
    (fun hpos => absurd hfree (Nat.ne_of_gt hpos)) h.accounted.not_prepares
  refine ⟨⟨hlocked, by omega⟩, hunlocked.restore ?_ ?_ ?_⟩
  · rw [update_self]
    exact { h.accounted.ordered i nofun with }
  · rw [update_self]
    intro hfinalized hqueue
    obtain ⟨f, hf, hclean⟩ := h.accounted.cleaned i nofun hfinalized hqueue
    rw [hstack] at hf
    rcases List.mem_cons.mp hf with rfl | hf
    · cases hclean
    · exact ⟨f, hf, hclean⟩
  · rw [Held, update_self]
    exact fun _ hlocked => nomatch hlocked

theorem statementEnd (h : Counted db) {prepare : Bool} {rest : List Frame}
    (hstack : db.stack = .statementEnd i prepare :: rest) :
    Counted ({ db with stack := rest }.statementEnd i prepare) := by
  have hi : i < db.created := h.accounted.known _ (hstack ▸ List.mem_cons_self ..) i rfl
  obtain ⟨hready, hreleased⟩ := h.release hstack
  rw [Database.statementEnd, if_pos hready]
  refine ⟨hreleased.push_apart _ ?_ (h.not_cleans_of_apart hstack rfl), fun j hwaiting => ?_⟩
  · intro f hf
    have hcases : f = .statementProcess i ∨ f = .process ∨ f = .deleteBaton i := by
      cases prepare with
      | true => simpa using hf
      | false => exact (by simpa using hf : f = _ ∨ f = _).imp_right .inl
    rcases hcases with rfl | rfl | rfl
    · exact ⟨rfl, fun _ => rfl, fun j hj => Option.some.inj hj ▸ hi⟩
    · exact ⟨rfl, fun _ => rfl, nofun⟩
    · exact ⟨rfl, fun _ => rfl, fun j hj => Option.some.inj hj ▸ hi⟩
  · by_cases hj : j = i
    · exact .inl (hj ▸ rfl)
    · rw [statements_push, update_of_ne _ _ hj] at hwaiting
      have hhead := h.waiting j hwaiting
      rw [hstack] at hhead
      simp at hhead

theorem settled_of_head (h : Counted db) {f : Frame} {rest : List Frame}
    (hstack : db.stack = f :: rest)
    (hf : f = .statementProcess i ∨ f = .statementLoop i) :
    ∀ j, j ≠ i → ¬ (db.statements j).Waiting := by
  intro j hj hwaiting
  have hhead := h.waiting j hwaiting
  rw [hstack] at hhead
  rcases hf with rfl | rfl
  · exact hj (by simpa using hhead : i = j).symm
  · exact hj (by simpa using hhead : i = j).symm

theorem statementProcess (h : Counted db) {rest : List Frame} {db' : Database}
    (hstack : db.stack = .statementProcess i :: rest)
    (hresume : { db with stack := rest }.resume (.statementProcess i) = some db') :
    Counted db' := by
  have hi : i < db.created := h.accounted.known _ (hstack ▸ List.mem_cons_self ..) i rfl
  have hothers := h.settled_of_head hstack (.inl rfl)
  have hpopped := h.accounted.pop hstack rfl nofun
  cases hresume
  split
  · rename_i hfinalized
    exact (Calm.cleanQueue (hpopped.weaken i) hi (hpopped.held i nofun) (hpopped.ordered i nofun)
      hfinalized.1 hothers).counted
  · refine ⟨hpopped.push_apart _ ?_ (h.not_cleans_of_apart hstack rfl), fun j hwaiting => ?_⟩
    · intro f hf
      rw [List.mem_singleton.mp hf]
      exact ⟨rfl, fun _ => rfl, fun j hj => Option.some.inj hj ▸ hi⟩
    · by_cases hj : j = i
      · exact .inr (hj ▸ rfl)
      · exact absurd hwaiting (hothers j hj)

theorem statementLoop (h : Counted db) {rest : List Frame}
    (hstack : db.stack = .statementLoop i :: rest) :
    Counted ({ db with stack := rest }.statementLoop i) := by
  have hi : i < db.created := h.accounted.known _ (hstack ▸ List.mem_cons_self ..) i rfl
  have hothers := h.settled_of_head hstack (.inr rfl)
  have hpopped := h.accounted.pop hstack rfl nofun
  have hcalm : ¬ (db.statements i).Waiting → Counted { db with stack := rest } := by
    intro hnot
    refine (Calm.mk hpopped fun j => ?_).counted
    by_cases hj : j = i
    · exact hj ▸ hnot
    · exact hothers j hj
  unfold Database.statementLoop
  split
  · rename_i hqueue
    exact hcalm fun hwaiting => hwaiting.1 hqueue
  · rename_i call calls hqueue
    split
    · rename_i hready
      have hqueued : (db.statements i).queue ≠ [] := by
        rw [hqueue]
        exact List.cons_ne_nil call calls
      have hfinalized : (db.statements i).finalized = false := by
        by_contra hne
        obtain ⟨f, hf, hclean⟩ := h.accounted.cleaned i nofun (by simpa using hne) hqueued
        rw [hstack] at hf
        rcases List.mem_cons.mp hf with rfl | hf
        · cases hclean
        · exact absurd ((h.not_cleans_of_apart hstack rfl f hf i).symm.trans hclean)
            Bool.false_ne_true
      have hdequeued := (hpopped.weaken i).touch (f := fun st => { st with queue := calls })
        fun _ => ⟨rfl, rfl, rfl⟩
      have hpushed := hdequeued.push_apart [.statementLoop i]
        (by
          intro f hf
          rw [List.mem_singleton.mp hf]
          exact ⟨rfl, fun _ => rfl, fun j hj => Option.some.inj hj ▸ hi⟩)
        (h.not_cleans_of_apart hstack rfl)
      have hstatement : ((({ db with stack := rest }.update i fun st =>
          { st with queue := calls }).push [.statementLoop i]).statements i) =
            { db.statements i with queue := calls } := by
        rw [statements_push, update_self]
      have hheld : (({ db with stack := rest }.update i fun st =>
          { st with queue := calls }).push [.statementLoop i]).Held i :=
        Accounted.held_push (Accounted.held_touch (hpopped.held i nofun) rfl rfl) _
      refine (Calm.beginStatement hpushed hi hheld ?_ ?_ ?_ ?_ ?_).counted
      · have hordered := h.accounted.ordered i nofun
        rw [hstatement]
        change ({ db.statements i with queue := call :: calls } : Statement).Ordered db.batons
        rw [← hqueue]
        exact hordered
      · rw [hstatement]
        exact hready.1
      · rw [hstatement]
        exact (Bool.not_eq_true _).mp hready.2
      · rw [hstatement]
        exact hfinalized
      · rw [statements_push]
        exact Calm.others_update hothers
    · rename_i hbusy
      refine hcalm fun hwaiting => hbusy ⟨hwaiting.2.1, ?_⟩
      rw [Bool.not_eq_true]
      exact hwaiting.2.2.1

theorem cleanLoop (h : Counted db) {called : Bool} {rest : List Frame}
    (hstack : db.stack = .cleanLoop i called :: rest) :
    Counted ({ db with stack := rest }.cleanLoop i called) := by
  have hi : i < db.created := h.accounted.known _ (hstack ▸ List.mem_cons_self ..) i rfl
  have hfinalized : (db.statements i).finalized = true :=
    h.accounted.finalized i ⟨_, hstack ▸ List.mem_cons_self .., by simp [Frame.cleans]⟩
  have hothers : ∀ j, j ≠ i → ¬ (db.statements j).Waiting := by
    intro j _ hwaiting
    have hhead := h.waiting j hwaiting
    rw [hstack] at hhead
    simp at hhead
  have hpopped := (h.accounted.weaken i).pop hstack rfl fun j hj =>
    .inl (congrArg some (of_decide_eq_true hj))
  have hordered := h.accounted.ordered i nofun
  have hheld := Accounted.held_pop (h.accounted.held i nofun) hstack rfl
  unfold Database.cleanLoop
  split
  · rename_i hqueue
    have hrestored := hpopped.restore hordered (fun _ hne => absurd hqueue hne) hheld
    exact (Calm.of_finalized (hrestored.push_plain (plain_javascript _)) hfinalized hothers).counted
  · rename_i call calls hqueue
    have hdeleted := hpopped.touch (f := fun st =>
      { st with queue := calls, ended := st.ended ++ [call.baton.id] }) fun _ => ⟨rfl, rfl, rfl⟩
    have hcalm : ∀ frames, (∀ f ∈ frames, f.ofStatement = false) →
        (∀ f ∈ frames, ∀ j, f.statement? = some j → j = i) →
        (∃ f ∈ frames, f.cleans i = true) →
        Calm (({ db with stack := rest }.update i fun st =>
          { st with queue := calls, ended := st.ended ++ [call.baton.id] }).push frames) := by
      intro frames hplain hown hclean
      have hpushed := hdeleted.push hplain
        (by
          intro f hf j hj
          rw [hown f hf j (Frame.statement?_of_cleans hj), update_self]
          exact hfinalized)
        (fun f hf j hj => hown f hf j hj ▸ hi)
      refine Calm.of_finalized (i := i) (hpushed.restore ?_ (fun _ _ => ?_)
        (Accounted.held_push (Accounted.held_touch hheld rfl rfl) _)) ?_ ?_
      · rw [statements_push, update_self]
        exact hordered.delete hqueue hfinalized
      · obtain ⟨f, hf, hclean⟩ := hclean
        exact ⟨f, List.mem_append_left _ hf, hclean⟩
      · rw [statements_push, update_self]
        exact hfinalized
      · rw [statements_push]
        exact Calm.others_update hothers
    dsimp only
    split
    · refine (hcalm _ ?_ ?_ ?_).counted
      · simp [Frame.ofStatement]
      · simp
      · simp [Frame.cleans]
    · refine (hcalm _ ?_ ?_ ?_).counted
      · simp [Frame.ofStatement]
      · simp
      · simp [Frame.cleans]

theorem resume (h : Counted db) {f : Frame} {rest : List Frame} {db' : Database}
    (hstack : db.stack = f :: rest) (hresume : { db with stack := rest }.resume f = some db') :
    Counted db' := by
  have hknown : ∀ i, f.statement? = some i → i < db.created :=
    h.accounted.known f (hstack ▸ List.mem_cons_self ..)
  cases f with
  | javascript => cases hresume
  | restoreSerialize before =>
    cases hresume
    exact (((h.pop hstack rfl fun _ => rfl).flags _ _ _ before _).push (by simp)).counted
  | process =>
    cases hresume
    have hcalm := h.pop hstack rfl fun _ => rfl
    split
    · exact (hcalm.push (by simp)).counted
    · exact (hcalm.push (by simp)).counted
  | processLoop =>
    cases hresume
    exact (h.pop hstack rfl fun _ => rfl).processLoop.counted
  | calledBack =>
    cases hresume
    have hcalm := h.pop hstack rfl fun _ => rfl
    split
    · exact hcalm.counted
    · exact (hcalm.push (by simp)).counted
  | closedLoop called =>
    cases hresume
    exact ((h.pop hstack rfl fun _ => rfl).closedLoop called).counted
  | closedPop called call =>
    cases hresume
    exact ((h.pop hstack rfl fun _ => rfl).closedPop called call).counted
  | afterOpen =>
    cases hresume
    have hcalm := h.pop hstack rfl fun _ => rfl
    split
    · exact (hcalm.push (by simp)).counted
    · exact hcalm.counted
  | afterClose =>
    cases hresume
    have hcalm := h.pop hstack rfl fun _ => rfl
    split
    · exact hcalm.counted
    · exact (hcalm.push (by simp)).counted
  | statementEnd i prepare =>
    cases hresume
    exact h.statementEnd hstack
  | statementProcess i => exact h.statementProcess hstack hresume
  | statementLoop i =>
    cases hresume
    exact h.statementLoop hstack
  | cleanLoop i called =>
    cases hresume
    exact h.cleanLoop hstack
  | afterError i =>
    cases hresume
    have hcalm := h.pop hstack rfl fun _ => rfl
    exact (Calm.finalize hcalm.accounted (hknown i rfl) fun j _ => hcalm.settled j).counted
  | deleteBaton i =>
    cases hresume
    exact ((h.pop hstack rfl fun _ => rfl).deleteBaton (hknown i rfl)).counted

theorem execute (h : Counted db) {k : Nat} {work : Work} (hwork : db.works[k]? = some work)
    (ok : Bool) : Counted (db.execute k work ok) := by
  have hsame : ∀ p : Work → Bool, p { work with status := some ok } = p work →
      (db.works.set k { work with status := some ok }).countP p = db.works.countP p :=
    fun p hp => countP_set_of_eq p db.works k hwork hp
  have hset := h.accounted.regrant db.pending db.queue
    (db.works.set k { work with status := some ok }) db.stack
    (by
      intro j
      rw [hsame _ rfl]
      exact .inl (Nat.le_refl _))
    (by
      intro j _ _ hpos
      rw [hsame _ rfl]
      exact hpos)
    h.accounted.unprepared
    (by
      rw [hsame _ rfl]
      exact h.accounted.pending)
    (fun _ _ _ hclean => hclean) (fun f hf j hclean => h.accounted.finalized j ⟨f, hf, hclean⟩)
    h.accounted.known h.accounted.apart
  exact ⟨hset.flags _ _ _ _ _, h.waiting⟩

/-- A work leaves the pool and, if it is one of a statement, is ended after the frames in
front. -/
theorem finishWork (h : Counted db) (hstack : db.stack = []) {k : Nat} {work : Work}
    (hwork : db.works[k]? = some work) (front : List Frame) {tail : List Frame}
    (hfront : ∀ f ∈ front, f.isEnd = false ∧ (∀ j, f.cleans j = false) ∧
      ∀ j, f.statement? = some j → j < db.created)
    (htail : tail = [] ∧ work.job.statement? = none ∨
      ∃ i prepare, tail = [.statementEnd i prepare] ∧ work.job.statement? = some i) :
    Calm ({ db with works := db.works.eraseIdx k }.push (front ++ tail)) := by
  have herase : ∀ p : Work → Bool,
      (db.works.eraseIdx k).countP p + (if p work then 1 else 0) = db.works.countP p :=
    fun p => countP_eraseIdx p db.works k hwork
  have hskip : ∀ p : Frame → Bool, (∀ f, f.isEnd = false → p f = false) →
      (front ++ tail).countP p = tail.countP p := by
    intro p hp
    rw [List.countP_append, List.countP_eq_zero.mpr, Nat.zero_add]
    intro f hf
    rw [hp f (hfront f hf).1]
    exact Bool.false_ne_true
  have hof : ∀ j, work.isOf j = decide (work.job.statement? = some j) := fun _ => rfl
  have hends : ∀ j, (front ++ tail).countP (Frame.ends j) = if work.isOf j then 1 else 0 := by
    intro j
    rw [hskip, hof]
    · rcases htail with ⟨rfl, hnone⟩ | ⟨i, prepare, rfl, hsome⟩
      · simp [hnone]
      · simp [hsome, Frame.ends]
    · intro f hf
      cases hj : f.ends j with
      | false => rfl
      | true => exact absurd (hf.symm.trans (Frame.ends_le_isEnd hj)) Bool.false_ne_true
  have hisEnd : (front ++ tail).countP Frame.isEnd = if work.counted then 1 else 0 := by
    rw [hskip _ fun _ hf => hf, Work.counted]
    rcases htail with ⟨rfl, hnone⟩ | ⟨i, prepare, rfl, hsome⟩
    · simp [hnone]
    · simp [hsome, Frame.isEnd]
  have hcleans : ∀ f ∈ front ++ tail, ∀ j, f.cleans j = false := by
    intro f hf
    rcases List.mem_append.mp hf with hf | hf
    · exact (hfront f hf).2.1
    · rcases htail with ⟨rfl, -⟩ | ⟨i, prepare, rfl, -⟩
      · cases hf
      · rw [List.mem_singleton.mp hf]
        exact fun _ => rfl
  have hmoved : ∀ j, db.queue.countP (Call.prepares j) +
      (db.works.eraseIdx k).countP (Work.isOf j) + (front ++ tail).countP (Frame.ends j) =
        db.tickets j := by
    intro j
    have hj := herase (Work.isOf j)
    rw [hends j, tickets, hstack, List.countP_nil]
    omega
  have hknown : ∀ f ∈ front ++ tail, ∀ j, f.statement? = some j → j < db.created := by
    intro f hf
    rcases List.mem_append.mp hf with hf | hf
    · exact (hfront f hf).2.2
    · rcases htail with ⟨rfl, -⟩ | ⟨i, prepare, rfl, hsome⟩
      · cases hf
      · rw [List.mem_singleton.mp hf]
        rintro j ⟨⟩
        by_contra hlt
        have hzero := h.accounted.fresh i (Nat.not_lt.mp hlt)
        have hi := hends i
        rw [hof, hsome, if_pos (decide_eq_true rfl)] at hi
        have hcount := hmoved i
        omega
  have hmove := h.accounted.regrant db.pending db.queue (db.works.eraseIdx k) (front ++ tail)
    (fun j => .inl (Nat.le_of_eq (hmoved j)))
    (fun j _ _ hpos => (hmoved j).symm ▸ hpos) h.accounted.unprepared
    (by
      have hcounted := herase Work.counted
      rw [hisEnd, h.accounted.pending, hstack, List.countP_nil]
      omega)
    (by
      rintro j - - ⟨f, hf, -⟩
      rw [hstack] at hf
      cases hf)
    (fun f hf j hclean => absurd ((hcleans f hf j).symm.trans hclean) Bool.false_ne_true)
    hknown (List.pairwise_of_forall_mem_list fun _ _ g hg _ => hcleans g hg)
  have hcalm : Calm db := by
    apply h.calm
    · intro i
      rw [hstack]
      exact nofun
    · intro i
      rw [hstack]
      exact nofun
  refine ⟨?_, hcalm.settled⟩
  rw [push, hstack, List.append_nil]
  exact hmove

/-- A work that is not one of a statement leaves the pool. -/
theorem leavePool (h : Counted db) (hstack : db.stack = []) {k : Nat} {work : Work}
    (hwork : db.works[k]? = some work) (hjob : work.job.statement? = none) {frames : List Frame}
    (hplain : Frame.Plain frames) :
    Calm ({ db with works := db.works.eraseIdx k }.push frames) := by
  have hcalm := h.finishWork hstack hwork [] nofun (.inl ⟨rfl, hjob⟩)
  rw [List.nil_append] at hcalm
  exact hcalm.push hplain

theorem endWork (h : Counted db) (hstack : db.stack = []) {k : Nat} {work : Work}
    (hwork : db.works[k]? = some work) {i : Nat} (hjob : work.job.statement? = some i)
    (called prepare : Bool) :
    Calm ({ db with works := db.works.eraseIdx k }.push
      (javascript called ++ [Frame.statementEnd i prepare])) := by
  refine h.finishWork hstack hwork _ ?_ (.inr ⟨i, prepare, rfl, hjob⟩)
  intro f hf
  cases called with
  | true =>
    rw [List.mem_singleton.mp hf]
    exact ⟨rfl, fun _ => rfl, nofun⟩
  | false => cases hf

theorem lt_of_works (h : Counted db) {k : Nat} {work : Work} (hwork : db.works[k]? = some work)
    (hjob : work.job.statement? = some i) :
    i < db.created ∧ (db.statements i).locked = true ∧
      ∀ call ∈ db.queue, call.prepares i = false := by
  have hpos : 0 < db.works.countP (Work.isOf i) :=
    List.countP_pos_iff.mpr ⟨work, List.mem_of_getElem? hwork, decide_eq_true hjob⟩
  have hticket := h.accounted.ticket i
  unfold tickets at hticket
  refine ⟨?_, h.accounted.locked i (by unfold tickets; omega), fun call hcall => ?_⟩
  · by_contra hlt
    have hzero := h.accounted.fresh i (Nat.not_lt.mp hlt)
    unfold tickets at hzero
    omega
  · cases hprepares : call.prepares i with
    | false => rfl
    | true =>
      have hqueued := List.countP_pos_iff.mpr ⟨call, hcall, hprepares⟩
      omega

theorem afterPrepare (h : Counted db) (hstack : db.stack = []) {k : Nat} {callback : Bool}
    {status : Option Bool} (hwork : db.works[k]? = some ⟨.prepare i, callback, status⟩)
    (ok : Bool) :
    Counted ({ db with works := db.works.eraseIdx k }.after ⟨.prepare i, callback, status⟩ ok) := by
  obtain ⟨hi, hlocked, hqueue⟩ := h.lt_of_works hwork (i := i) rfl
  cases ok with
  | true =>
    have hcalm := h.endWork hstack hwork (i := i) rfl callback true
    have hupdated := (hcalm.accounted.weaken i).update
      (f := fun st => { st with prepared := true }) id (hcalm.accounted.locked i) fun _ => hqueue
    have hstatements : ({ db with works := db.works.eraseIdx k }.after
        ⟨.prepare i, callback, status⟩ true).statements =
          (db.update i fun st => { st with prepared := true }).statements := rfl
    refine Calm.counted ⟨hupdated.restore ?_ ?_ ?_, fun j hwaiting => ?_⟩
    · rw [update_self]
      exact { hcalm.accounted.ordered i nofun with }
    · rw [update_self]
      exact hcalm.accounted.cleaned i nofun
    · intro _ _
      refine Nat.lt_of_lt_of_le (List.countP_pos_iff.mpr ?_) (Nat.le_add_left _ _)
      exact ⟨.statementEnd i true, by simp [Database.update, push], by simp [Frame.ends]⟩
    · rw [hstatements] at hwaiting
      by_cases hj : j = i
      · subst hj
        rw [update_self] at hwaiting
        exact Bool.false_ne_true (hwaiting.2.2.1.symm.trans hlocked)
      · rw [update_of_ne _ _ hj] at hwaiting
        exact hcalm.settled j hwaiting
  | false =>
    refine (h.finishWork hstack hwork [.javascript, .afterError i] ?_
      (.inr ⟨i, true, rfl, rfl⟩)).counted
    intro f hf
    have hcases : f = .javascript ∨ f = .afterError i := by simpa using hf
    rcases hcases with rfl | rfl
    · exact ⟨rfl, fun _ => rfl, nofun⟩
    · exact ⟨rfl, fun _ => rfl, fun j hj => Option.some.inj hj ▸ hi⟩

theorem after (h : Counted db) (hstack : db.stack = []) {k : Nat} {work : Work}
    (hwork : db.works[k]? = some work) (ok : Bool) :
    Counted ({ db with works := db.works.eraseIdx k }.after work ok) := by
  obtain ⟨job, callback, status⟩ := work
  cases job with
  | «open» =>
    exact ((h.leavePool hstack hwork rfl (by simp)).flags (db.isOpen || ok) _ _ _ _).counted
  | prepare i => exact h.afterPrepare hstack hwork ok
  | exec => exact (h.leavePool hstack hwork rfl (by simp)).counted
  | loadExtension => exact (h.leavePool hstack hwork rfl (by simp)).counted
  | close =>
    exact ((h.leavePool hstack hwork rfl (by simp)).flags (db.isOpen && !ok) false _ _ _).counted
  | operate i operation => exact (h.endWork hstack hwork rfl _ _).counted

theorem step {a : Action} {db' : Database} (h : Counted db) (hstep : db.step a = some db') :
    Counted db' := by
  have hopen := Option.ite_none_left_eq_some.mp hstep
  obtain ⟨-, hstep⟩ := hopen
  cases a with
  | request r =>
    simp only at hstep
    have hcalm : (db.stack = [] ∨ ∃ rest, db.stack = .javascript :: rest) → Calm db := by
      intro hstack
      apply h.calm
      · rintro i hi
        rcases hstack with hnil | ⟨rest, hcons⟩
        · rw [hnil] at hi
          cases hi
        · rw [hcons] at hi
          cases hi
      · rintro i hi
        rcases hstack with hnil | ⟨rest, hcons⟩
        · rw [hnil] at hi
          cases hi
        · rw [hcons] at hi
          cases hi
    split at hstep
    · rename_i hnil
      exact ((hcalm (.inl hnil)).request hstep).counted
    · rename_i rest hcons
      exact ((hcalm (.inr ⟨rest, hcons⟩)).request hstep).counted
    · cases hstep
  | resume =>
    simp only at hstep
    split at hstep
    · cases hstep
    · rename_i rest hstack
      cases hstep
      exact (h.pop hstack rfl fun _ => rfl).counted
    · rename_i f rest _ hstack
      exact h.resume hstack hstep
  | execute k ok =>
    simp only at hstep
    split at hstep
    · rename_i work hwork
      obtain ⟨-, hsome⟩ := Option.ite_none_right_eq_some.mp hstep
      cases hsome
      exact h.execute hwork ok
    · cases hstep
  | after k =>
    obtain ⟨hstack, hstep⟩ := Option.ite_none_right_eq_some.mp hstep
    split at hstep
    · rename_i job callback ok hwork
      cases hstep
      exact h.after hstack hwork ok
    · cases hstep

theorem of_reachable (h : machine.Reachable db) : Counted db := by
  apply h.invariant Counted
  · rintro _ ⟨callback, rfl⟩
    exact new callback
  · exact fun _ _ _ hcounted hstep => hcounted.step hstep

end Counted

/-! ## Results -/

/-- The calls of a statement are begun one at a time in the order of their scheduling,
until it is finalized: then the rest is deleted in that order. -/
theorem statement_calls_in_order {db : Database} (h : machine.Reachable db) (i : Nat) :
    (db.statements i).Ordered db.batons ∧ db.works.countP (Work.isOf i) ≤ 1 ∧
      db.pending = db.works.countP Work.counted + db.stack.countP Frame.isEnd ∧
      ∀ fault, db.fault = some fault → ¬ Fault.Excluded fault := by
  have hcounted := Counted.of_reachable h
  refine ⟨hcounted.accounted.ordered i nofun, ?_, hcounted.accounted.pending,
    hcounted.accounted.sound⟩
  have hticket := hcounted.accounted.ticket i
  unfold tickets at hticket
  omega

/-- The database is opened. -/
def Sample.opened : List Action :=
  [.execute 0 true, .after 0, .resume, .resume, .resume, .resume]

/-- Of two operations that wait for the preparation the first is begun. -/
def Sample.twoOperations : List Action :=
  Sample.opened ++ [.request (.prepare false), .request (.statement 0 (.begin .run) true),
    .request (.statement 0 (.begin .get) true), .execute 0 true, .after 0] ++
    List.replicate 7 .resume

theorem statement_calls_in_order_two : ∃ db,
    machine.run (Database.new false) Sample.twoOperations = some db ∧
    (db.statements 0).Ordered db.batons ∧
    ((db.statements 0).made, (db.statements 0).begun) = ([1, 2], [1]) := by
  obtain ⟨db, hrun, hbegun⟩ : ∃ db,
      machine.run (Database.new false) Sample.twoOperations = some db ∧
      ((db.statements 0).made, (db.statements 0).begun) = ([1, 2], [1]) := ⟨_, rfl, rfl⟩
  have hnew : machine.Reachable (Database.new false) := .start ⟨false, rfl⟩
  exact ⟨db, hrun, (statement_calls_in_order (hnew.run hrun) 0).1, hbegun⟩

/-- Between two events, a statement whose preparation succeeded keeps a call only while
one of its works is in the pool, and a finalized one keeps none. -/
theorem statement_queue_at_rest {db : Database} (h : machine.Reachable db)
    (hstack : db.stack = []) (i : Nat) (hprepared : (db.statements i).prepared = true)
    (hqueue : (db.statements i).queue ≠ []) :
    (db.statements i).finalized = false ∧ db.works.countP (Work.isOf i) = 1 := by
  have hcounted := Counted.of_reachable h
  have hfinalized : (db.statements i).finalized = false := by
    by_contra hne
    obtain ⟨f, hf, -⟩ := hcounted.accounted.cleaned i nofun (by simpa using hne) hqueue
    rw [hstack] at hf
    cases hf
  have hlocked : (db.statements i).locked = true := by
    by_contra hne
    have hhead := hcounted.waiting i ⟨hqueue, hprepared, by simpa using hne, hfinalized⟩
    rw [hstack] at hhead
    simp at hhead
  have hheld := hcounted.accounted.held i nofun hprepared hlocked
  have hticket := hcounted.accounted.ticket i
  have hnone : db.queue.countP (Call.prepares i) = 0 := by
    rw [List.countP_eq_zero]
    intro call hcall
    rw [hcounted.accounted.not_prepares hprepared call hcall]
    exact Bool.false_ne_true
  rw [tickets, hnone, hstack, List.countP_nil] at hheld hticket
  exact ⟨hfinalized, by omega⟩

theorem statement_queue_at_rest_two : ∃ db,
    machine.run (Database.new false) Sample.twoOperations = some db ∧ db.stack = [] ∧
    (db.statements 0).queue ≠ [] ∧ db.works.countP (Work.isOf 0) = 1 := by
  obtain ⟨db, hrun, hstack, hprepared, hqueue⟩ : ∃ db,
      machine.run (Database.new false) Sample.twoOperations = some db ∧ db.stack = [] ∧
      (db.statements 0).prepared = true ∧ ((db.statements 0).queue == []) = false :=
    ⟨_, rfl, rfl, rfl, rfl⟩
  have hnew : machine.Reachable (Database.new false) := .start ⟨false, rfl⟩
  have hne : (db.statements 0).queue ≠ [] := by
    intro hnil
    rw [hnil] at hqueue
    cases hqueue
  exact ⟨db, hrun, hstack, hne,
    (statement_queue_at_rest (hnew.run hrun) hstack 0 hprepared hne).2⟩

end Database

end AlmondAndroid.Storage
