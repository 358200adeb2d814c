import Numerator.Linearization

/-!
# Every call comes to an end

A call gives its thread work for a number of steps that its request fixes, and
each step of the thread uses some of it up, whatever the other threads do. So no
schedule keeps a thread busy with a call for ever. And no thread waits for ever:
unless the holder of the mutex stands before an overflow of the counter, some
thread can go on as long as one is not idle.
-/

namespace Numerator

open Std FiniteMap DiskStorage

/-! ### Work -/

/-- The steps up to the end of a STR2ID query: taking the mutex, the check, one `find` a
    string, the write and the release. Other queries skip the loop. -/
def Stage.work (request : Query) : Stage → Nat
  | .called => request.strings.length + 4
  | .locked => request.strings.length + 3
  | .numbering todo _ _ => todo.length + 2
  | .finished _ => 1
  | .returned _ => 0

def TogglePoint.work : TogglePoint → Nat
  | .check => 3
  | .memory => 2
  | .flag => 1

def Thread.work : Thread → Nat
  | .idle => 0
  | .query request stage => stage.work request
  | .disable point | .enable point => point.work

/-- The thread serves no query, so it neither has nor wants the mutex. -/
def Thread.Unlocked : Thread → Prop
  | .query _ _ => False
  | _ => True

theorem Thread.Unlocked.not_holds {thread : Thread} (h : thread.Unlocked) : ¬ thread.Holds := by
  cases thread with
  | query _ _ => exact h.elim
  | idle | disable _ | enable _ => exact id

namespace Action

variable {T : Type} [DecidableEq T]

/-- The action is a step of thread `t`. -/
def spent (t : T) : Action T → Nat
  | .step t' => if t' = t then 1 else 0
  | .call _ _ => 0

/-- The work that the action gives to thread `t`. -/
def granted (t : T) : Action T → Nat
  | .step _ => 0
  | .call t' c => if t' = t then (World.start c).work else 0

end Action

namespace World

variable {T : Type} {w w' : World T} {t : T} {o : Option (Query × Outcome)}

theorem Moves.work {request : Query} {mutex mutex' : Option T} {stage : Stage} {thread : Thread}
    (h : Moves t request mutex stage mutex' thread) :
    thread.work + 1 ≤ (Thread.query request stage).work := by
  cases h <;> simp [Thread.work, Stage.work]

variable [DecidableEq T]

theorem toggled_of_stepDisable (w : World T) (t : T) (point : TogglePoint) :
    ∃ thread, (w.stepDisable t point).threads = Function.update w.threads t thread ∧
      (w.stepDisable t point).mutex = w.mutex ∧
      thread.work + 1 ≤ (Thread.disable point).work ∧ thread.Unlocked := by
  cases point with
  | check =>
    simp only [stepDisable]
    split
    · exact ⟨.idle, rfl, rfl, by decide, trivial⟩
    · exact ⟨.disable .memory, rfl, rfl, by decide, trivial⟩
  | memory => exact ⟨.disable .flag, rfl, rfl, by decide, trivial⟩
  | flag => exact ⟨.idle, rfl, rfl, by decide, trivial⟩

theorem toggled_of_stepEnable (w : World T) (t : T) (point : TogglePoint) :
    ∃ thread, (w.stepEnable t point).threads = Function.update w.threads t thread ∧
      (w.stepEnable t point).mutex = w.mutex ∧
      thread.work + 1 ≤ (Thread.enable point).work ∧ thread.Unlocked := by
  cases point with
  | check =>
    simp only [stepEnable]
    split
    · exact ⟨.enable .memory, rfl, rfl, by decide, trivial⟩
    · exact ⟨.idle, rfl, rfl, by decide, trivial⟩
  | memory =>
    simp only [stepEnable, loadInMemory_newIterator]
    exact ⟨.enable .flag, rfl, rfl, by decide, trivial⟩
  | flag => exact ⟨.idle, rfl, rfl, by decide, trivial⟩

/-- What an action does to mutex and threads: a call arrives, a query moves, or a toggle goes on
    without the mutex. -/
inductive Acts (w w' : World T) : Action T → Prop where
  | call (t : T) (c : Call) (hidle : w.threads t = .idle) (hmutex : w'.mutex = w.mutex)
      (hthreads : w'.threads = Function.update w.threads t (start c)) : Acts w w' (.call t c)
  | query (t : T) (request : Query) (stage : Stage) (thread : Thread)
      (ht : w.threads t = .query request stage)
      (hmoves : Moves t request w.mutex stage w'.mutex thread)
      (hthreads : w'.threads = Function.update w.threads t thread) : Acts w w' (.step t)
  | toggle (t : T) (thread : Thread) (ht : (w.threads t).Toggles) (hmutex : w'.mutex = w.mutex)
      (hwork : thread.work + 1 ≤ (w.threads t).work) (hunlocked : thread.Unlocked)
      (hthreads : w'.threads = Function.update w.threads t thread) : Acts w w' (.step t)

theorem acts_of_step {a : Action T} (h : w.step a = some (o, w')) : Acts w w' a := by
  cases a with
  | call t c =>
    simp only [step] at h
    split at h <;> cases h
    exact .call t c ‹_› rfl rfl
  | step t =>
    rcases ht : w.threads t with _ | ⟨request, stage⟩ | point | point
    · simp [step, ht] at h
    · simp only [step, ht] at h
      obtain ⟨thread, hthreads, hmoves⟩ := moves_of_stepQuery h
      exact .query t request stage thread ht hmoves hthreads
    · simp only [step, ht] at h
      cases h
      obtain ⟨thread, hthreads, hmutex, hwork, hunlocked⟩ := toggled_of_stepDisable w t point
      exact .toggle t thread (by rw [ht]; trivial) hmutex (by rw [ht]; exact hwork) hunlocked
        hthreads
    · simp only [step, ht] at h
      cases h
      obtain ⟨thread, hthreads, hmutex, hwork, hunlocked⟩ := toggled_of_stepEnable w t point
      exact .toggle t thread (by rw [ht]; trivial) hmutex (by rw [ht]; exact hwork) hunlocked
        hthreads

theorem work_of_update (t : T) {t' : T} {thread : Thread} (spent granted : Nat)
    (h : w'.threads = Function.update w.threads t' thread)
    (hwork : thread.work + spent ≤ (w.threads t').work + granted) :
    (w'.threads t).work + (if t' = t then spent else 0) ≤
      (w.threads t).work + (if t' = t then granted else 0) := by
  rw [h]
  by_cases ht : t' = t
  · subst ht
    simpa using hwork
  · simp [ht, Ne.symm ht]

/-- A step of a thread uses up some of its work, and nobody else's. -/
theorem Acts.work {a : Action T} (h : Acts w w' a) :
    (w'.threads t).work + a.spent t ≤ (w.threads t).work + a.granted t := by
  cases h with
  | call t' c hidle hmutex hthreads =>
    have hupdate := work_of_update t 0 (start c).work hthreads
      (by omega)
    simpa [Action.spent, Action.granted] using hupdate
  | query t' request stage thread ht hmoves hthreads =>
    have hwork := hmoves.work
    rw [← ht] at hwork
    have hupdate := work_of_update t 1 0 hthreads (by omega)
    simpa [Action.spent, Action.granted] using hupdate
  | toggle t' thread ht hmutex hwork hunlocked hthreads =>
    have hupdate := work_of_update t 1 0 hthreads (by omega)
    simpa [Action.spent, Action.granted] using hupdate

end World

/-! ### The mutex -/

/-- A finished query has something to send. -/
def Thread.Sends : Thread → Prop
  | .query _ (.finished result) => World.Sendable result
  | .query _ (.returned _) => False
  | _ => True

theorem Thread.Unlocked.sends {thread : Thread} (h : thread.Unlocked) : thread.Sends := by
  cases thread with
  | query _ _ => exact h.elim
  | idle | disable _ | enable _ => trivial

namespace World

variable {T : Type} {w w' : World T} {t : T}

theorem Moves.sends {request : Query} {mutex mutex' : Option T} {stage : Stage}
    {thread : Thread} (h : Moves t request mutex stage mutex' thread) : thread.Sends := by
  cases h with
  | acquire | enter | find | release => trivial
  | look _ _ hresult => exact hresult
  | write _ _ _ _ hresult => exact hresult

/-- What a move means for the mutex: it is taken when it was free, kept, or released. -/
theorem Moves.holds {request : Query} {mutex mutex' : Option T} {stage : Stage}
    {thread : Thread} (h : Moves t request mutex stage mutex' thread) :
    (mutex = none ∧ mutex' = some t ∧ thread.Holds) ∨
    (mutex' = mutex ∧ (Thread.query request stage).Holds ∧ thread.Holds) ∨
    (mutex' = none ∧ (Thread.query request stage).Holds ∧ ¬ thread.Holds) := by
  cases h with
  | acquire => exact Or.inl ⟨rfl, rfl, trivial⟩
  | look | enter | find | write => exact Or.inr (Or.inl ⟨rfl, trivial, trivial⟩)
  | release => exact Or.inr (Or.inr ⟨rfl, trivial, id⟩)

/-- The threads between taking and releasing the mutex are the ones that hold it. -/
structure Locked (w : World T) : Prop where
  holder : ∀ t, (w.threads t).Holds ↔ w.mutex = some t
  sends : ∀ t, (w.threads t).Sends

theorem locked_serving (s : Server) : (serving s : World T).Locked where
  holder := fun _ => ⟨False.elim, fun h => by cases h⟩
  sends := fun _ => trivial

variable [DecidableEq T]

theorem Locked.update {thread : Thread} (h : w.Locked)
    (hthreads : w'.threads = Function.update w.threads t thread) (hsends : thread.Sends)
    (hself : thread.Holds ↔ w'.mutex = some t)
    (hothers : ∀ t' ≠ t, w.mutex = some t' ↔ w'.mutex = some t') : w'.Locked := by
  refine ⟨fun t' => ?_, fun t' => ?_⟩
  all_goals
    rw [hthreads]
    by_cases ht : t' = t
  · subst ht
    simpa using hself
  · simpa [ht] using (h.holder t').trans (hothers t' ht)
  · subst ht
    simpa using hsends
  · simpa [ht] using h.sends t'

theorem Locked.acts {a : Action T} (h : w.Locked) (hacts : Acts w w' a) : w'.Locked := by
  cases hacts with
  | call t c hidle hmutex hthreads =>
    have hbefore := h.holder t
    rw [hidle] at hbefore
    refine h.update hthreads ?_ ?_ fun t' _ => by rw [hmutex]
    · cases c <;> trivial
    · rw [hmutex, ← hbefore]
      cases c <;> exact Iff.rfl
  | query t request stage thread ht hmoves hthreads =>
    have hbefore := h.holder t
    rw [ht] at hbefore
    refine h.update hthreads hmoves.sends ?_ fun t' hne => ?_
    all_goals
      rcases hmoves.holds with ⟨hmutex, hmutex', hholds⟩ | ⟨hmutex', hheld, hholds⟩ |
        ⟨hmutex', hheld, hholds⟩
    · simp [hmutex', hholds]
    · rw [hmutex', ← hbefore]
      exact iff_of_true hholds hheld
    · simp [hmutex', hholds]
    · simp [hmutex, hmutex', Ne.symm hne]
    · rw [hmutex']
    · simp [hmutex', hbefore.mp hheld, Ne.symm hne]
  | toggle t thread ht hmutex hwork hunlocked hthreads =>
    have hbefore : ¬ (w.threads t).Holds := by
      rcases hthread : w.threads t with _ | _ | _ | _ <;> rw [hthread] at ht
      all_goals first | exact ht.elim | exact id
    refine h.update hthreads hunlocked.sends ?_ fun t' _ => by rw [hmutex]
    rw [hmutex, ← h.holder t]
    exact iff_of_false hunlocked.not_holds hbefore

/-! ### Where nothing goes on -/

/-- The holder of the mutex needs one more id, and there is none. -/
def Overflowed (w : World T) : Prop :=
  ∃ t request str todo kvPairs ids, w.mutex = some t ∧
    w.threads t = .query request (.numbering (str :: todo) kvPairs ids) ∧
    w.server.memoryStorage[cstr str]? = none ∧ w.server.cnt.toInt = 2 ^ 63 - 1

/-- Between taking and releasing the mutex only an overflow stops a query. -/
theorem Locked.overflowed (h : w.Locked) (hmutex : w.mutex = some t)
    (hstuck : w.step (.step t) = none) : w.Overflowed := by
  have hholds := (h.holder t).mpr hmutex
  have hsends := h.sends t
  rcases ht : w.threads t with _ | ⟨request, stage⟩ | point | point
  · rw [ht] at hholds
    exact hholds.elim
  · simp only [step, ht] at hstuck
    rw [ht] at hholds hsends
    rcases stage with _ | _ | ⟨_ | ⟨str, todo⟩, kvPairs, ids⟩ | result | result
    · exact hholds.elim
    · simp only [stepQuery, Server.stepQuery, lookup_eq] at hstuck
      rcases hop : request.op with _ | _ | code
      · rcases hdisabled : w.server.disableS2iQueries <;> simp [hop, hdisabled] at hstuck
      · simp [hop] at hstuck
      · simp [hop] at hstuck
    · simp [stepQuery, Server.stepQuery, DiskStorage.write] at hstuck
    · simp only [stepQuery, Server.stepQuery, Server.round] at hstuck
      rcases hfind : MemoryStorage.find {} w.server.memoryStorage str w.server.cnt with f | r
      · obtain ⟨hnew, hcnt, rfl⟩ := MemoryStorage.find_error hfind
        exact ⟨t, request, str, todo, kvPairs, ids, hmutex, ht, hnew, hcnt⟩
      · simp [hfind] at hstuck
    · obtain ⟨response, rfl⟩ | ⟨e, rfl⟩ := hsends
      · simp [stepQuery] at hstuck
      · simp [stepQuery] at hstuck
    · exact hholds.elim
  all_goals
    rw [ht] at hholds
    exact hholds.elim

/-- Where no thread can make a step, none has anything left to do. -/
theorem Locked.all_idle (h : w.Locked) (hstuck : ∀ t, w.step (.step t) = none)
    (hroom : ¬ w.Overflowed) (t : T) : w.threads t = .idle := by
  have hfree : w.mutex = none := by
    rw [Option.eq_none_iff_forall_ne_some]
    intro t' hmutex
    exact hroom (h.overflowed hmutex (hstuck t'))
  have hstep := hstuck t
  rcases ht : w.threads t with _ | ⟨request, stage⟩ | point | point
  · rfl
  · have hholds := (h.holder t).not.mpr (by rw [hfree]; simp)
    have hsends := h.sends t
    rw [ht] at hholds hsends
    simp only [step, ht] at hstep
    rcases stage with _ | _ | ⟨todo, kvPairs, ids⟩ | result | result
    · simp [stepQuery, hfree] at hstep
    · exact absurd trivial hholds
    · exact absurd trivial hholds
    · exact absurd trivial hholds
    · exact hsends.elim
  · simp [step, ht] at hstep
  · simp [step, ht] at hstep

omit [DecidableEq T] in
/-- Nothing is left to do where no work is left. -/
theorem Locked.idle_of_work (h : w.Locked) (hwork : (w.threads t).work = 0) :
    w.threads t = .idle := by
  have hsends := h.sends t
  rcases ht : w.threads t with _ | ⟨request, stage⟩ | point | point
  · rfl
  · rw [ht] at hwork hsends
    cases stage with
    | returned result => exact hsends.elim
    | called | locked | numbering _ _ _ | finished _ => simp [Thread.work, Stage.work] at hwork
  · rw [ht] at hwork
    cases point <;> simp [Thread.work, TogglePoint.work] at hwork
  · rw [ht] at hwork
    cases point <;> simp [Thread.work, TogglePoint.work] at hwork

/-! ### Runs -/

/-- Actions without a call of the thread give it no work. -/
theorem sum_granted_eq_zero {actions : List (Action T)} (h : ∀ c, .call t c ∉ actions) :
    (actions.map (Action.granted t)).sum = 0 := by
  apply List.sum_eq_zero
  intro granted hgranted
  obtain ⟨a, ha, rfl⟩ := List.mem_map.mp hgranted
  cases a with
  | step t' => rfl
  | call t' c =>
    refine if_neg ?_
    rintro rfl
    exact h c ha

/-- From a call of a thread to its next one, the thread makes no more steps than the call needs. -/
theorem work_of_call {c : Call} {actions : List (Action T)}
    {tr : List (Machine.Record (World T) (Action T) (Option (Query × Outcome)))}
    (h : Machine.run step w (.call t c :: actions) = some (tr, w'))
    (hcalls : ∀ c', .call t c' ∉ actions) :
    (w'.threads t).work + (actions.map (Action.spent t)).sum ≤ (start c).work := by
  obtain ⟨o, w₁, tr₁, hstep, hrun, -⟩ := Machine.run_cons_eq_some.mp h
  have hpotential := Machine.run_potential (fun w : World T => (w.threads t).work)
    (Action.spent t) (Action.granted t) (fun r hr => (acts_of_step hr).work) hrun
  rw [sum_granted_eq_zero hcalls] at hpotential
  -- the call found the thread idle
  cases acts_of_step hstep with
  | call _ _ hidle hmutex hthreads => simpa [hthreads] using hpotential

/-- In every interleaving every call is over after so many steps of its thread as it needs, and
    where no thread can go on every call is answered, unless the counter has come to its end. -/
theorem calls_complete (s : Server) (actions : List (Action T))
    (tr : List (Machine.Record (World T) (Action T) (Option (Query × Outcome)))) (w : World T)
    (h : Machine.run step (serving s) actions = some (tr, w)) :
    (∀ before t c after, actions = before ++ .call t c :: after → (∀ c', .call t c' ∉ after) →
      (w.threads t).work + (after.map (Action.spent t)).sum ≤ (start c).work) ∧
    (∀ t, (w.threads t).work = 0 → w.threads t = .idle) ∧
    ((∀ t, w.step (.step t) = none) → ¬ w.Overflowed → ∀ t, w.threads t = .idle) := by
  have hlocked : w.Locked := (Machine.run_invariant (fun _ => True) Locked
    (fun r hr _ hbefore => hbefore.acts (acts_of_step hr)) h (fun _ _ => trivial)
    (locked_serving s)).1
  refine ⟨?_, fun t => hlocked.idle_of_work, fun hstuck hroom => hlocked.all_idle hstuck hroom⟩
  rintro before t c after rfl hcalls
  obtain ⟨w₁, tr₁, tr₂, -, hrun, -⟩ := Machine.run_append_eq_some.mp h
  exact work_of_call hrun hcalls

end World

/-- The request that came first needs three of its six steps, as it finds the service disabled,
    and the thread of the toggle is done after the three steps of its second call. -/
theorem calls_complete_overtaken :
    ∃ tr w, Machine.run World.step (World.serving ⟨∅, ∅, 1, false⟩) World.overtaken =
        some (tr, w) ∧
      (w.threads false).work + 3 ≤
        (World.start (.query { op := .STR2ID, strings := [[97], [98]] })).work ∧
      w.threads true = .idle := by
  obtain ⟨⟨tr, w⟩, h⟩ := Option.isSome_iff_exists.mp
    (show (Machine.run World.step (World.serving ⟨∅, ∅, 1, false⟩) World.overtaken).isSome
      from by decide)
  obtain ⟨hwork, hidle, -⟩ := World.calls_complete _ _ tr w h
  have hquery := hwork [] false _ (World.overtaken.drop 1) rfl (by simp [World.overtaken])
  have hdisable := hwork (World.overtaken.take 7) true .disableS2i (World.overtaken.drop 8) rfl
    (by simp [World.overtaken])
  have hspent : ((World.overtaken.drop 8).map (Action.spent true)).sum = 3 := by decide
  have hstart : (World.start .disableS2i).work = 3 := by decide
  exact ⟨tr, w, h, hquery, hidle true (by omega)⟩

end Numerator
