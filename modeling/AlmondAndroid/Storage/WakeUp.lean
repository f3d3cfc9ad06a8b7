import AlmondAndroid.Storage.StatementOrder

/-!
# Who wakes the queue of the database

A call waits in the queue of an open database only as long as something is under way
that enters `Process` in the end: a counted or an exclusive work, or a frame. Two steps
leave the queue behind: a close that fails does not enter `Process`, and an exclusive
call of `Configure`, which starts no work, makes `Process` stop.
-/

namespace AlmondAndroid.Storage

open Library

def Work.exclusive (work : Work) : Bool :=
  work.job = .exec || work.job = .loadExtension || work.job = .close

/-- The call starts no work and calls nothing. -/
def Database.Call.isConfigure (call : Database.Call) : Bool :=
  match call.baton.work with
  | .configure _ => true
  | _ => false

def Frame.wakes : Frame → Bool
  | restoreSerialize _ => true
  | process => true
  | processLoop => true
  | afterOpen => true
  | statementEnd _ _ => true
  | _ => false

namespace Database

/-- Something under way enters `Process`. -/
def Rouses (db : Database) : Prop :=
  0 < db.pending ∨ (∃ work ∈ db.works, work.exclusive = true) ∨ ∃ f ∈ db.stack, f.wakes = true

def Waits (db : Database) : Prop := db.queue ≠ [] ∧ db.isOpen = true ∧ db.fault = none

/-- `Process` also goes on when a call returns that was not exclusive. -/
def Awake (db : Database) : Prop :=
  db.Waits → db.Rouses ∨ db.stack.head? = some .calledBack ∧ db.locked = false

/-! ## Functions that only add -/

structure Grows (db db' : Database) : Prop where
  isOpen : db'.isOpen = db.isOpen
  queue : db'.queue = db.queue
  fault : db'.fault = none → db.fault = none
  pending : db.pending ≤ db'.pending
  works : db.works ⊆ db'.works
  stack : db.stack ⊆ db'.stack

namespace Grows

variable {db db' db'' : Database}

theorem refl (db : Database) : Grows db db :=
  ⟨rfl, rfl, id, Nat.le_refl _, List.Subset.refl _, List.Subset.refl _⟩

theorem trans (h : Grows db db') (h' : Grows db' db'') : Grows db db'' where
  isOpen := h'.isOpen.trans h.isOpen
  queue := h'.queue.trans h.queue
  fault hnone := h.fault (h'.fault hnone)
  pending := Nat.le_trans h.pending h'.pending
  works := List.Subset.trans h.works h'.works
  stack := List.Subset.trans h.stack h'.stack

theorem rouses (h : Grows db db') (hrouses : db.Rouses) : db'.Rouses := by
  rcases hrouses with hpending | ⟨work, hwork, hexclusive⟩ | ⟨f, hf, hwakes⟩
  · exact .inl (Nat.lt_of_lt_of_le hpending h.pending)
  · exact .inr (.inl ⟨work, h.works hwork, hexclusive⟩)
  · exact .inr (.inr ⟨f, h.stack hf, hwakes⟩)

theorem waits (h : Grows db db') (hwaits : db'.Waits) : db.Waits :=
  ⟨h.queue ▸ hwaits.1, h.isOpen ▸ hwaits.2.1, h.fault hwaits.2.2⟩

theorem push (db : Database) (frames : List Frame) : Grows db (db.push frames) :=
  { refl db with stack := List.subset_append_right _ _ }

theorem fail (db : Database) (fault : Fault) : Grows db (db.fail fault) :=
  { refl db with fault := nofun }

theorem queueWork (db : Database) (job : Job) (callback : Bool) :
    Grows db (db.queueWork job callback) :=
  { refl db with works := List.subset_append_left _ _ }

theorem count (db : Database) : Grows db { db with pending := db.pending + 1 } :=
  { refl db with pending := Nat.le_succ _ }

theorem settings (db : Database) (batons : Nat) (serialize : Bool) :
    Grows db { db with batons := batons, serialize := serialize } :=
  ⟨rfl, rfl, id, Nat.le_refl _, List.Subset.refl _, List.Subset.refl _⟩

theorem update (db : Database) (i : Nat) (f : Statement → Statement) : Grows db (db.update i f) :=
  { refl db with }

theorem cleanQueue (db : Database) (i : Nat) : Grows db (db.cleanQueue i) := by
  unfold Database.cleanQueue
  split
  · split
    · exact refl db
    · exact push db _
  · exact update db i _

theorem finalize (db : Database) (i : Nat) : Grows db (db.finalize i) := by
  unfold Database.finalize
  split
  · exact fail db _
  · exact (update db i _).trans (cleanQueue _ i)

theorem deleteBaton (db : Database) (i : Nat) : Grows db (db.deleteBaton i) := by
  unfold Database.deleteBaton
  split
  · exact finalize db i
  · exact refl db

theorem beginStatement (db : Database) (i : Nat) (call : Statement.Call) :
    Grows db (db.beginStatement i call) := by
  unfold Database.beginStatement
  dsimp only
  split
  · split
    · exact (update db i _).trans ((count _).trans ((update _ i _).trans (queueWork _ _ _)))
    · exact (update db i _).trans (fail _ _)
  · exact (update db i _).trans ((push _ _).trans (finalize _ i))

theorem scheduleStatement (db : Database) (i : Nat) (call : Statement.Call) :
    Grows db (db.scheduleStatement i call) := by
  unfold Database.scheduleStatement
  dsimp only
  split
  · exact (update db i _).trans ((update _ i _).trans (cleanQueue _ i))
  · split
    · exact (update db i _).trans (update _ i _)
    · exact (update db i _).trans (beginStatement _ i call)

theorem statementLoop (db : Database) (i : Nat) : Grows db (db.statementLoop i) := by
  unfold Database.statementLoop
  split
  · exact refl db
  · split
    · exact (update db i _).trans ((push _ _).trans (beginStatement _ i _))
    · exact refl db

theorem cleanLoop (db : Database) (i : Nat) (called : Bool) :
    Grows db (db.cleanLoop i called) := by
  unfold Database.cleanLoop
  split
  · exact push db _
  · dsimp only
    split
    · exact (update db i _).trans (push _ _)
    · exact (update db i _).trans (push _ _)

theorem configured (db : Database) (option : Configuration) : Grows db (db.configured option) := by
  cases option with
  | trace => exact { refl db with }
  | profile => exact { refl db with }
  | busyTimeout => exact refl db

theorem begin (db : Database) (baton : Baton) : Grows db (db.begin baton) := by
  have hexclusive : ∀ job, Grows db
      (if db.Exclusive then db.queueWork job baton.callback else db.fail .beginExclusive) := by
    intro job
    split
    · exact queueWork db job _
    · exact fail db _
  unfold Database.begin
  split
  · split
    · exact (count db).trans (queueWork _ _ _)
    · exact fail db _
  · exact hexclusive .exec
  · exact hexclusive .loadExtension
  · split
    · have hclosing : Grows db { db.removeCallbacks with closing := true } := { refl db with }
      exact hclosing.trans (queueWork _ _ _)
    · exact fail db _
  · split
    · exact push db _
    · exact fail db _
  · split
    · exact configured db _
    · exact fail db _

end Grows

/-- Only `Configure` leaves nothing under way. -/
theorem rouses_begin {db : Database} {baton : Baton}
    (hbaton : ∀ option, baton.work ≠ .configure option) (hfault : (db.begin baton).fault = none) :
    (db.begin baton).Rouses := by
  have hpool : ∀ {job : Job} {db : Database},
      (job = .exec ∨ job = .loadExtension ∨ job = .close) →
        (db.queueWork job baton.callback).Rouses := by
    intro job db hjob
    refine .inr (.inl ⟨_, List.mem_append_right _ (List.mem_singleton_self _), ?_⟩)
    rcases hjob with rfl | rfl | rfl
    · rfl
    · rfl
    · rfl
  revert hfault
  unfold Database.begin
  split
  · split
    · exact fun _ => .inl (Nat.succ_pos _)
    · exact nofun
  · split
    · exact fun _ => hpool (.inl rfl)
    · exact nofun
  · split
    · exact fun _ => hpool (.inr (.inl rfl))
    · exact nofun
  · split
    · exact fun _ => hpool (.inr (.inr rfl))
    · exact nofun
  · split
    · refine fun _ => .inr (.inr ⟨.process, ?_, rfl⟩)
      exact List.mem_append_left _ (List.mem_append_right _ (List.mem_singleton_self _))
    · exact nofun
  · rename_i option hwork
    exact absurd hwork (hbaton option)

theorem begin_configure {db : Database} {id : Nat} {option : Configuration} {callback : Bool}
    (hfault : (db.begin ⟨id, .configure option, callback⟩).fault = none) :
    db.begin ⟨id, .configure option, callback⟩ = db.configured option := by
  simp only [Database.begin] at hfault ⊢
  by_cases hready : db.isOpen = true ∧ db.handle = true
  · exact if_pos hready
  · rw [if_neg hready] at hfault
    cases hfault

theorem configured_unchanged (db : Database) (option : Configuration) :
    (db.configured option).stack = db.stack ∧ (db.configured option).locked = db.locked := by
  cases option with
  | trace => exact ⟨rfl, rfl⟩
  | profile => exact ⟨rfl, rfl⟩
  | busyTimeout => exact ⟨rfl, rfl⟩

/-! ## The steps -/

/-- Whether the step is none of the two after which nothing may wake the queue: the end of a
close that has failed, and the taking of an exclusive call of `Configure`, with calls behind
it. -/
def goesOn (db : Database) : Action → Bool
  | .after k =>
      match db.works[k]? with
      | some ⟨.close, _, some false⟩ => db.queue = []
      | _ => true
  | .resume =>
      match db.stack, db.queue with
      | .processLoop :: _, call :: rest =>
          call.isConfigure = false ∨ call.exclusive = false ∨ ¬db.Takes call ∨ rest = []
      | _, _ => true
  | _ => true

namespace Awake

variable {db db' : Database}

theorem of_rouses (h : db.Waits → db.Rouses) : db.Awake := fun hwaits => .inl (h hwaits)

/-- A frame that does not enter `Process` is taken off the stack. -/
theorem pop (h : db.Awake) {f : Frame} {rest : List Frame} (hstack : db.stack = f :: rest)
    (hf : f.wakes = false) (hlocked : f = .calledBack → db.locked = true)
    (hwaits : db.Waits) : ({ db with stack := rest } : Database).Rouses := by
  rcases h hwaits with (hpending | hwork | ⟨g, hg, hwakes⟩) | ⟨hhead, hunlocked⟩
  · exact .inl hpending
  · exact .inr (.inl hwork)
  · rw [hstack] at hg
    rcases List.mem_cons.mp hg with rfl | hg
    · exact absurd (hf.symm.trans hwakes) Bool.false_ne_true
    · exact .inr (.inr ⟨g, hg, hwakes⟩)
  · rw [hstack] at hhead
    have hcalled : f = .calledBack := Option.some.inj hhead
    exact absurd (hunlocked.symm.trans (hlocked hcalled)) Bool.false_ne_true

theorem grow (h : db.Waits → db.Rouses) (hgrows : Grows db db') : db'.Awake :=
  of_rouses fun hwaits => hgrows.rouses (h (hgrows.waits hwaits))

theorem schedule (h : db.Waits → db.Rouses) (baton : Baton) (exclusive : Bool) :
    (db.schedule baton exclusive).Waits → (db.schedule baton exclusive).Rouses := by
  unfold Database.schedule
  split
  · exact fun hwaits => (Grows.push db _).rouses (h hwaits)
  · split
    · rename_i hbusy
      intro hwaits
      rcases hbusy with hclosed | ⟨-, hpending⟩
      · exact absurd hwaits.2.1 hclosed
      · exact .inl hpending
    · have hgrows := Grows.begin { db with locked := exclusive } baton
      exact fun hwaits => hgrows.rouses (h (hgrows.waits hwaits))

theorem request {r : Request} (h : db.Waits → db.Rouses) (hr : db.request r = some db') :
    db'.Awake := by
  have hnew : ∀ (db : Database) (work callback exclusive), (db.Waits → db.Rouses) →
      (db.scheduleNew work callback exclusive).Awake := by
    intro db work callback exclusive h
    have hbatons : ({ db with batons := db.batons + 1 } : Database).Waits →
        ({ db with batons := db.batons + 1 } : Database).Rouses := h
    exact of_rouses (schedule hbatons _ _)
  cases r with
  | prepare callback =>
    cases hr
    exact hnew db.newStatement _ _ _ h
  | statement i work callback =>
    obtain ⟨-, hsome⟩ := Option.ite_none_right_eq_some.mp hr
    cases hsome
    exact grow h ((Grows.settings db _ _).trans (Grows.scheduleStatement _ _ _))
  | exec callback =>
    cases hr
    exact hnew _ _ _ _ h
  | loadExtension callback =>
    cases hr
    exact hnew _ _ _ _ h
  | close callback =>
    cases hr
    exact hnew _ _ _ _ h
  | wait callback =>
    cases hr
    exact hnew _ _ _ _ h
  | configure option =>
    cases hr
    refine hnew _ _ _ _ fun hwaits => ?_
    exact (Grows.push db _).rouses (h ((Grows.push db _).waits hwaits))
  | serialize value callback =>
    cases hr
    split
    · exact grow h ((Grows.settings db _ value).trans (Grows.push _ _))
    · exact grow h ((Grows.settings db _ value).trans (Grows.push _ _))

theorem processLoop (hgoes : ∀ call rest, db.queue = call :: rest → call.isConfigure = true →
    call.exclusive = true → db.Takes call → rest = []) : db.processLoop.Awake := by
  unfold Database.processLoop
  split
  · rename_i hqueue
    exact fun hwaits => absurd hqueue hwaits.1
  · rename_i call rest hqueue
    split
    · rename_i htakes
      by_cases hconfigure : ∃ option, call.baton.work = .configure option
      · obtain ⟨⟨id, work, callback⟩, exclusive⟩ := call
        obtain ⟨option, rfl⟩ := hconfigure
        intro hwaits
        have hrest := (Grows.begin _ _).waits hwaits
        cases exclusive with
        | true => exact absurd (hgoes _ rest hqueue rfl rfl htakes) hrest.1
        | false =>
          rw [begin_configure hwaits.2.2]
          obtain ⟨hstack, hlocked⟩ := configured_unchanged
            ({ db with queue := rest, locked := false }.push [.calledBack]) option
          exact .inr ⟨congrArg List.head? hstack, hlocked⟩
      · refine of_rouses fun hwaits => rouses_begin (fun option hoption => ?_) hwaits.2.2
        exact hconfigure ⟨option, hoption⟩
    · rename_i hready
      refine of_rouses fun hwaits => ?_
      by_contra hidle
      apply hready
      have hpending : db.pending = 0 := Nat.eq_zero_of_not_pos fun hpos => hidle (.inl hpos)
      exact ⟨hwaits.2.1, .inr hpending, fun hexclusive => hidle (.inl hexclusive.2)⟩

theorem closedPop (h : db.queue ≠ [] → db.isOpen = true → db.fault = none → db.Rouses)
    (called : Bool) (call : Call) : (db.closedPop called call).Awake := by
  unfold Database.closedPop
  split
  · exact fun hwaits => nomatch hwaits.2.2
  · rename_i first rest hqueue
    have hne : db.queue ≠ [] := by
      rw [hqueue]
      exact List.cons_ne_nil first rest
    have hrest : ({ db with queue := rest } : Database).Waits →
        ({ db with queue := rest } : Database).Rouses :=
      fun hwaits => h hne hwaits.2.1 hwaits.2.2
    split
    · dsimp only
      split
      · exact grow hrest ((Grows.push _ _).trans (Grows.deleteBaton _ _))
      · exact grow hrest (Grows.push _ _)
    · exact fun hwaits => nomatch hwaits.2.2

theorem resume (h : db.Awake) {f : Frame} {rest : List Frame} (hstack : db.stack = f :: rest)
    (hguard : db.goesOn .resume = true) (hresume : { db with stack := rest }.resume f = some db') :
    db'.Awake := by
  have hpop := h.pop hstack
  have hprocess : ∀ {db : Database} {frames : List Frame}, .process ∈ frames →
      (db.push frames).Awake := fun hmem =>
    of_rouses fun _ => .inr (.inr ⟨_, List.mem_append_left _ hmem, rfl⟩)
  have hloop : ∀ db : Database, (db.push [.processLoop]).Awake := fun db =>
    of_rouses fun _ => .inr (.inr ⟨_, List.mem_cons_self .., rfl⟩)
  cases f with
  | javascript => cases hresume
  | restoreSerialize before =>
    cases hresume
    exact hprocess (List.mem_singleton_self _)
  | process =>
    cases hresume
    split
    · rename_i hclosed
      exact fun hwaits => absurd hwaits.2.1 hclosed.1
    · exact hloop _
  | processLoop =>
    cases hresume
    refine processLoop fun call calls hqueue hconfigure hexclusive htakes => ?_
    change db.queue = _ at hqueue
    change db.Takes call at htakes
    rw [goesOn, hstack, hqueue] at hguard
    have hguard := of_decide_eq_true hguard
    rw [hconfigure, hexclusive] at hguard
    simp only [Bool.true_eq_false, htakes, not_true_eq_false, false_or] at hguard
    exact hguard
  | calledBack =>
    cases hresume
    split
    · rename_i hlocked
      exact of_rouses (hpop rfl fun _ => hlocked)
    · exact hloop _
  | closedLoop called =>
    cases hresume
    unfold Database.closedLoop
    split
    · exact grow (hpop rfl nofun) (Grows.push _ _)
    · split
      · exact grow (hpop rfl nofun) (Grows.push _ _)
      · exact grow (hpop rfl nofun) (Grows.push _ _)
  | closedPop called call =>
    cases hresume
    exact closedPop (fun hqueue hopen hfault => hpop rfl nofun ⟨hqueue, hopen, hfault⟩) called call
  | afterOpen =>
    cases hresume
    split
    · exact hprocess (by simp)
    · rename_i hclosed
      exact fun hwaits => absurd hwaits.2.1 hclosed
  | afterClose =>
    cases hresume
    split
    · exact of_rouses (hpop rfl nofun)
    · exact hprocess (by simp)
  | statementEnd i prepare =>
    cases hresume
    unfold Database.statementEnd
    split
    · exact hprocess (by simp)
    · exact fun hwaits => nomatch hwaits.2.2
  | statementProcess i =>
    cases hresume
    split
    · exact grow (hpop rfl nofun) (Grows.cleanQueue _ _)
    · exact grow (hpop rfl nofun) (Grows.push _ _)
  | statementLoop i =>
    cases hresume
    exact grow (hpop rfl nofun) (Grows.statementLoop _ _)
  | cleanLoop i called =>
    cases hresume
    exact grow (hpop rfl nofun) (Grows.cleanLoop _ _ _)
  | afterError i =>
    cases hresume
    exact grow (hpop rfl nofun) (Grows.finalize _ _)
  | deleteBaton i =>
    cases hresume
    exact grow (hpop rfl nofun) (Grows.deleteBaton _ _)

theorem rouses_of_javascript (h : db.Awake)
    (hstack : db.stack = [] ∨ ∃ rest, db.stack = .javascript :: rest) (hwaits : db.Waits) :
    db.Rouses := by
  rcases h hwaits with hrouses | ⟨hhead, -⟩
  · exact hrouses
  · rcases hstack with hnil | ⟨rest, hcons⟩
    · rw [hnil] at hhead
      cases hhead
    · rw [hcons] at hhead
      cases hhead

theorem execute (h : db.Awake) {k : Nat} {work : Work} (hwork : db.works[k]? = some work)
    (ok : Bool) : (db.execute k work ok).Awake := by
  intro hwaits
  rcases h hwaits with (hpending | ⟨w, hw, hexclusive⟩ | hstack) | hnext
  · exact .inl (.inl hpending)
  · refine .inl (.inr (.inl ?_))
    obtain ⟨j, hj⟩ := List.getElem?_of_mem hw
    by_cases heq : k = j
    · subst heq
      cases hwork.symm.trans hj
      refine ⟨{ work with status := some ok }, ?_, hexclusive⟩
      exact List.mem_set (List.getElem?_eq_some_iff.mp hwork).1 _
    · refine ⟨w, List.mem_of_getElem? (i := j) ?_, hexclusive⟩
      rw [Database.execute, List.getElem?_set_ne heq]
      exact hj
  · exact .inl (.inr (.inr hstack))
  · exact .inr hnext

theorem after {k : Nat} {work : Work} {ok : Bool} (hwork : work.job = .close → ok = false →
    db.queue = []) : (({ db with works := db.works.eraseIdx k }).after work ok).Awake := by
  have hwaker : ∀ {db : Database} {f : Frame} {frames : List Frame}, f.wakes = true →
      f ∈ frames → (db.push frames).Awake := fun hf hmem =>
    of_rouses fun _ => .inr (.inr ⟨_, List.mem_append_left _ hmem, hf⟩)
  obtain ⟨job, callback, status⟩ := work
  cases job with
  | «open» => exact hwaker (f := .afterOpen) rfl (by simp)
  | prepare i =>
    cases ok with
    | true => exact hwaker (f := .statementEnd i true) rfl (by simp)
    | false => exact hwaker (f := .statementEnd i true) rfl (by simp)
  | exec => exact hwaker (f := .process) rfl (by simp)
  | loadExtension => exact hwaker (f := .process) rfl (by simp)
  | close =>
    intro hwaits
    cases ok with
    | true =>
      have hopen : (db.isOpen && !true) = true := hwaits.2.1
      simp at hopen
    | false => exact absurd (hwork rfl rfl) hwaits.1
  | operate i operation => exact hwaker (f := .statementEnd i false) rfl (by simp)

theorem step {a : Action} (h : db.Awake) (hguard : db.goesOn a = true)
    (hstep : db.step a = some db') : db'.Awake := by
  obtain ⟨-, hstep⟩ := Option.ite_none_left_eq_some.mp hstep
  cases a with
  | request r =>
    simp only at hstep
    split at hstep
    · rename_i hnil
      exact request (h.rouses_of_javascript (.inl hnil)) hstep
    · rename_i rest hcons
      exact request (h.rouses_of_javascript (.inr ⟨rest, hcons⟩)) hstep
    · cases hstep
  | resume =>
    simp only at hstep
    split at hstep
    · cases hstep
    · rename_i rest hstack
      cases hstep
      exact of_rouses (h.pop hstack rfl nofun)
    · rename_i f rest _ hstack
      exact h.resume hstack hguard hstep
  | execute k ok =>
    simp only at hstep
    split at hstep
    · rename_i work hwork
      obtain ⟨-, hsome⟩ := Option.ite_none_right_eq_some.mp hstep
      cases hsome
      exact h.execute hwork ok
    · cases hstep
  | after k =>
    obtain ⟨hstack, hstep⟩ := Option.ite_none_right_eq_some.mp hstep
    split at hstep
    · rename_i job callback ok hwork
      cases hstep
      apply after
      rintro rfl rfl
      rw [goesOn, hwork] at hguard
      exact of_decide_eq_true hguard
    · cases hstep

end Awake

/-! ## Result -/

/-- Between two events, and with no work in the pool, no call waits in the queue of an open
database that no step has stalled. -/
theorem queue_empty_at_rest {db : Database}
    (h : machine.ReachableVia (fun db a => db.goesOn a = true) db) (hopen : db.isOpen = true)
    (hfault : db.fault = none) (hstack : db.stack = []) (hworks : db.works = []) :
    db.queue = [] ∧ db.pending = 0 := by
  have hpending : db.pending = 0 := by
    rw [(Counted.of_reachable h.reachable).accounted.pending, hstack, hworks]
    rfl
  have hawake : db.Awake := by
    apply h.invariant Awake
    · rintro _ ⟨callback, rfl⟩
      exact fun hwaits => absurd rfl hwaits.1
    · exact fun _ _ _ h hguard hstep => h.step hguard hstep
  refine ⟨?_, hpending⟩
  by_contra hne
  rcases hawake ⟨hne, hopen, hfault⟩ with (hpos | ⟨work, hwork, -⟩ | ⟨f, hf, -⟩) | ⟨hhead, -⟩
  · exact absurd hpending (Nat.ne_of_gt hpos)
  · rw [hworks] at hwork
    cases hwork
  · rw [hstack] at hf
    cases hf
  · rw [hstack] at hhead
    cases hhead

/-- A query is queued behind a preparation, and both are done. -/
def Sample.exec : List Action :=
  Sample.opened ++ [.request (.prepare false), .request (.exec true), .execute 0 true, .after 0] ++
    List.replicate 7 .resume ++ [.execute 0 true, .after 0, .resume, .resume, .resume]

theorem queue_empty_at_rest_exec : ∃ db,
    machine.run (Database.new false) Sample.exec = some db ∧
    machine.check goesOn (Database.new false) Sample.exec = true ∧
    db.queue = [] ∧ db.pending = 0 := by
  obtain ⟨db, hrun, hopen, hfault, hstack, hworks⟩ : ∃ db,
      machine.run (Database.new false) Sample.exec = some db ∧ db.isOpen = true ∧
      db.fault = none ∧ db.stack = [] ∧ db.works = [] := ⟨_, rfl, rfl, rfl, rfl, rfl⟩
  have hcheck : machine.check goesOn (Database.new false) Sample.exec = true := rfl
  have hnew : machine.ReachableVia (fun db a => db.goesOn a = true) (Database.new false) :=
    .start ⟨false, rfl⟩
  have hdb := hnew.run _ (Machine.Meets.of_check _ hcheck) hrun
  exact ⟨db, hrun, hcheck, queue_empty_at_rest hdb hopen hfault hstack hworks⟩

/-- In serialized mode a query is queued behind an option. -/
def Sample.configure (option : Configuration) : List Action :=
  Sample.opened ++ [.request (.serialize true false), .resume, .resume, .request (.prepare false),
    .request (.configure option), .resume, .resume, .request (.exec true), .execute 0 true,
    .after 0] ++ List.replicate 7 .resume

/-- A query is queued behind a close that fails. -/
def Sample.closeFails : List Action :=
  Sample.opened ++ [.request (.prepare false), .request (.close true), .request (.exec true),
    .execute 0 true, .after 0] ++ List.replicate 7 .resume ++
    [.execute 0 false, .after 0, .resume, .resume]

/-- After either of the two steps a call may wait with nothing under way. -/
theorem queue_left_behind : ∀ as ∈ [Sample.configure .trace, Sample.configure .profile,
    Sample.configure .busyTimeout, Sample.closeFails],
    ∃ db, machine.run (Database.new false) as = some db ∧ db.isOpen = true ∧ db.fault = none ∧
      db.stack = [] ∧ db.works = [] ∧ db.queue.length = 1 := by
  simp only [List.forall_mem_cons]
  refine ⟨⟨_, rfl, rfl, rfl, rfl, rfl, rfl⟩, ⟨_, rfl, rfl, rfl, rfl, rfl, rfl⟩,
    ⟨_, rfl, rfl, rfl, rfl, rfl, rfl⟩, ⟨_, rfl, rfl, rfl, rfl, rfl, rfl⟩, ?_⟩
  exact nofun

end Database

end AlmondAndroid.Storage
