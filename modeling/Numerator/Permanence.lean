import Numerator.Refinement

/-!
# Permanence of ids

Over the whole life of a data directory an answered id should stay with its
string. It does as long as no request is given ids that are stored already. The
start with `--disable-s2i` leaves the counter at 0, and `enable_s2i` loads the
memory without setting it, so after that the ids can run into stored ones.
-/

namespace Numerator

open Std FiniteMap DiskStorage

/-! ### Counting ids -/

/-- How many ids the event takes. -/
def Node.newIds : Node → Event → Nat
  | .running s, .query q =>
    if q.op = .STR2ID ∧ s.disableS2iQueries = false then
      (Server.newStrings s.memoryStorage q.strings).length
    else 0
  | _, _ => 0

/-- How many ids the events take one after another. -/
def allocated : Node → List Event → Nat
  | _, [] => 0
  | n, e :: es =>
    n.newIds e +
      match n.step e with
      | none => 0
      | some (_, n') => allocated n' es

/-- After `a` allocations no stored id is above `a`, and the counter is not above `a + 1`. -/
structure Node.Bounded (a : Nat) (n : Node) : Prop where
  ids : ∀ id ∈ n.store, id.toInt ≤ a
  counter : ∀ s, n = .running s → s.cnt.toInt ≤ a + 1

namespace Node

variable {n n' : Node} {e : Event} {o : Outcome} {a : Nat}

theorem Bounded.greatestId_le {db : Store} (h : Bounded a (.stopped db)) :
    (greatestId db).toInt ≤ a := by
  rcases (isGreatest_greatestId db).1 with hzero | ⟨id, hid, heq⟩
  · omega
  · have hle := h.ids id hid
    omega

/-- No step is undefined before the ids are used up. -/
theorem Bounded.step_defined (h : Bounded a n) (hlt : a + n.newIds e < 2 ^ 63 - 1) :
    ∃ p, step n e = some p := by
  rw [← Option.ne_none_iff_exists']
  intro hnone
  cases n with
  | stopped db =>
    cases e with
    | start disableS2iQueries =>
      have hgreatest := (start_eq_none hnone).2
      have hle := h.greatestId_le
      simp only [newIds] at hlt
      omega
    | query _ | disableS2i | enableS2i | stop => cases hnone
  | running s =>
    cases e with
    | query q =>
      obtain ⟨hop, henabled, hoverflow⟩ := query_eq_none hnone
      have hcounter := h.counter s rfl
      simp only [newIds, hop, henabled, and_self, if_true] at hlt
      omega
    | enableS2i => exact enable_ne_none hnone
    | start _ | disableS2i | stop => cases hnone

theorem Transition.bounded (ht : Transition n e o n') (h : Bounded a n) :
    Bounded (a + n.newIds e) n' := by
  cases ht with
  | startDisabled db =>
    refine ⟨h.ids, ?_⟩
    rintro s ⟨⟩
    simp only [newIds]
    have hzero : (0 : NumID).toInt = 0 := rfl
    omega
  | startLoaded db cnt hcnt =>
    refine ⟨h.ids, ?_⟩
    rintro s ⟨⟩
    have hle := h.greatestId_le
    simp only [newIds]
    omega
  | number s q l hop henabled hrounds =>
    have hl := (Server.numbered_nil s.memoryStorage s.cnt).rounds hrounds
    have hlength : newIds (.running s) (.query q) = l.kvPairs.length := by
      simp only [newIds, hop, henabled, and_self, if_true]
      exact hl.length_kvPairs.symm
    have hcounter := h.counter s rfl
    rw [hlength]
    constructor
    · intro id hid
      rcases (mem_putBatch_iff hl.keys_nodup).mp hid with ⟨p, hp, rfl⟩ | hid
      · have hkey := hl.key_bounds hp
        push_cast
        omega
      · have hle := h.ids id hid
        push_cast
        omega
    · rintro s' ⟨⟩
      have hcnt := hl.cnt
      push_cast
      omega
  | stop s => exact ⟨h.ids, by rintro s' ⟨⟩⟩
  | lookup s q hop | refused s q hop hdisabled | unknown s q code hop =>
    have hzero : newIds (.running s) (.query q) = 0 := by simp [newIds, *]
    rw [hzero]
    exact h
  | disable s henabled | enable s hdisabled =>
    refine ⟨h.ids, ?_⟩
    rintro s' ⟨⟩
    exact h.counter s rfl
  | disableAgain s hdisabled | enableAgain s henabled | ignoredStart s d => exact h
  | ignoredStopped db e he => exact h

end Node

/-- A history that takes fewer ids than there are is defined to its end. -/
theorem history_defined {a : Nat} {n : Node} (es : List Event) (h : n.Bounded a)
    (hcount : a + allocated n es < 2 ^ 63 - 1) : ∃ tr n', history n es = some (tr, n') := by
  induction es generalizing a n with
  | nil => exact ⟨[], n, rfl⟩
  | cons e es ih =>
    rw [allocated] at hcount
    obtain ⟨⟨o, n'⟩, hstep⟩ := h.step_defined (show a + n.newIds e < 2 ^ 63 - 1 by omega)
    have hbounded := (Node.transition_of_step hstep).bounded h
    simp only [hstep, ← Nat.add_assoc] at hcount
    obtain ⟨tr, t, hrun⟩ := ih hbounded hcount
    obtain ⟨tr', hrun'⟩ := Machine.exists_run_cons hstep ⟨tr, hrun⟩
    exact ⟨tr', t, hrun'⟩

/-! ### What a later step owes to an answer -/

/-- The step answers STR2ID for `s` with `id`, wherever `s` stands in the request, and ID2STR
    for `id` with `s`. -/
structure Confirms (e : Event) (o : Outcome) (s : Bytes) (id : NumID) : Prop where
  str2id : ∀ (q response : Query) (p : Nat), e = .query q → q.op = .STR2ID →
    o = .response response → q.strings[p]? = some s → response.ids[p]? = some id
  id2str : ∀ (q response : Query) (p : Nat), e = .query q → q.op = .ID2STR →
    o = .response response → q.ids[p]? = some id →
      response.strings[p]? = some s ∧ (p : FailureIdx) ∉ response.failures

/-- Later steps confirm every answer, and no write changes a stored string. -/
structure Permanent (tr : List (Machine.Record Node Event Outcome)) : Prop where
  answers : tr.Pairwise fun r r' =>
    ∀ p ∈ answered r.event r.output, Confirms r'.event r'.output p.1 p.2
  stored : ∀ r ∈ tr, Extends r.before.store r.after.store

/-- The event asks for no string with a NUL. -/
def Event.NulFree : Event → Prop
  | .query q => ∀ s ∈ q.strings, (0 : UInt8) ∉ s
  | _ => True

instance : DecidablePred Event.NulFree
  | .query q => inferInstanceAs (Decidable (∀ s ∈ q.strings, (0 : UInt8) ∉ s))
  | .start _ | .disableS2i | .enableS2i | .stop => isTrue trivial

/-- What NUL-free requests and fresh ids make of an empty directory. -/
structure Node.Sound (n : Node) : Prop where
  loaded : n.Loaded
  distinct : PrefixDistinct n.store
  nulFree : ∀ (id : NumID) (v : Bytes), n.store[id]? = some v → (0 : UInt8) ∉ v

namespace Node

variable {n n' : Node} {e : Event} {o : Outcome}

theorem Transition.sound (h : Transition n e o n') (hn : n.Sound) (he : e.NulFree)
    (hfresh : FreshIds n e) : n'.Sound := by
  refine ⟨h.loaded hn.loaded hfresh, h.prefixDistinct hn.loaded hn.distinct, ?_⟩
  cases h with
  | number s q l hop henabled hrounds =>
    intro id v hv
    have hl := (hn.loaded s rfl).numbered henabled hrounds
    rcases (mem_putBatch hl.keys_nodup).mp hv with ⟨p, hp, -, rfl⟩ | ⟨-, hv⟩
    · exact he p.value (hl.requested p hp)
    · exact hn.nulFree id v hv
  | _ => exact hn.nulFree

/-- Of NUL-free strings the numbering gives exactly the stored ones. -/
theorem Sound.number_eq_some (h : n.Sound) {s : Bytes} (hs : (0 : UInt8) ∉ s) {id : NumID} :
    (numbering n.store).number (cstr s) = some id ↔ n.store[id]? = some s := by
  rw [number_numbering, h.distinct.memoryOf_eq_some]
  constructor
  · rintro ⟨v, hv, hcstr⟩
    rw [hv, eq_of_cstr_eq (h.nulFree id v hv) hs hcstr]
  · intro hv
    exact ⟨s, hv, rfl⟩

/-- A step confirms every stored entry. -/
theorem Transition.confirms (h : Transition n e o n') (hn : n.Sound) (hfresh : FreshIds n e)
    {s : Bytes} (hs : (0 : UInt8) ∉ s) {id : NumID} (hid : n.store[id]? = some s) :
    Confirms e o s id where
  str2id q response p hq hop ho hp := by
    have hrefines := h.refines hn.loaded hfresh
    subst hq ho
    cases h with
    | number s' _ l _ _ hrounds =>
      -- an id stands at every position of the request, and it can only be this one
      have hl := (Server.numbered_nil s'.memoryStorage s'.cnt).rounds hrounds
      obtain ⟨hlt, hstring⟩ := List.getElem?_eq_some_iff.mp hp
      have hlt' : p < l.ids.length := hl.length_ids ▸ hlt
      have hzip : (q.strings.zip l.ids)[p]? = some (s, l.ids[p]) := by
        rw [List.getElem?_zip_eq_some]
        exact ⟨hp, List.getElem?_eq_getElem hlt'⟩
      have hanswered : (s, l.ids[p]) ∈
          answered (.query q) (.response { op := .STR2ID, ids := l.ids }) := by
        simp only [answered, hop, if_true]
        exact List.mem_of_getElem? hzip
      have hid' : id = l.ids[p] :=
        (hrefines.agree ((hn.number_eq_some hs).mpr hid) (mem_observed hanswered)).mp rfl
      change l.ids[p]? = some id
      rw [List.getElem?_eq_getElem hlt', ← hid']
    | lookup s' _ hop' | unknown s' _ code hop' =>
      rw [hop] at hop'
      cases hop'
  id2str q response p hq hop ho hp := by
    subst hq ho
    cases h with
    | lookup s' _ _ =>
      have hid' : s'.diskStorage[id]? = some s := hid
      constructor
      · simp [hp, hid']
      · rw [mem_missing]
        rintro ⟨p', k, hpp', hk, hnone⟩
        obtain rfl : p = p' := by simpa using hpp'
        rw [hp] at hk
        cases hk
        rw [hid'] at hnone
        cases hnone
    | number s' _ l hop' _ _ =>
      rw [hop] at hop'
      cases hop'
    | unknown s' _ code hop' =>
      rw [hop] at hop'
      cases hop'

/-- A write that changes no entry was given fresh ids: its strings are new, so an entry it
    found would have changed. -/
theorem Transition.freshIds_of_extends (h : Transition n e o n') (hn : n.Loaded)
    (hextends : Extends n.store n'.store) : FreshIds n e := by
  rintro s q rfl rfl hop henabled
  cases h with
  | number _ _ l _ _ hrounds =>
    have hl := (hn s rfl).numbered henabled hrounds
    rw [Server.freshIds_iff (by rwa [(hn s rfl).enabled henabled])]
    intro p hp
    by_contra hstored
    obtain ⟨v, hv⟩ := Option.ne_none_iff_exists'.mp hstored
    have hnew : (putBatch s.diskStorage l.kvPairs)[p.key]? = some p.value :=
      (mem_putBatch hl.keys_nodup).mpr (Or.inl ⟨p, hp, rfl, rfl⟩)
    have hold := hextends p.key v hv
    simp only [Node.store, hnew, Option.some.injEq] at hold
    exact memoryOf_eq_none.mp (hl.fresh p hp) p.key v hv (by rw [hold])
  | lookup _ _ hop' | unknown _ _ code hop' =>
    rw [hop] at hop'
    cases hop'
  | refused _ _ _ hdisabled =>
    rw [henabled] at hdisabled
    cases hdisabled

theorem sound_empty : (Node.stopped ∅).Sound where
  loaded := loaded_stopped ∅
  distinct := prefixDistinct_empty
  nulFree id v hv := by simp [Node.store] at hv

theorem bounded_empty : (Node.stopped ∅).Bounded 0 where
  ids id hid := by simp [Node.store] at hid
  counter := by
    rintro s ⟨⟩

end Node

section History

variable {es : List Event} {n : Node} {tr : List (Machine.Record Node Event Outcome)}

theorem permanent_of_freshIds (h : history (.stopped ∅) es = some (tr, n))
    (hes : ∀ e ∈ es, e.NulFree) (hfresh : ∀ r ∈ tr, Node.FreshIds r.before r.event) :
    Permanent tr := by
  have hsound : ∀ r : Machine.Record Node Event Outcome, Machine.IsStep Node.step r →
      (r.event.NulFree ∧ Node.FreshIds r.before r.event) → r.before.Sound → r.after.Sound :=
    fun _ hr hC hn => (Node.transition_of_step hr).sound hn hC.1 hC.2
  have hC : ∀ r ∈ tr, r.event.NulFree ∧ Node.FreshIds r.before r.event :=
    fun r hr => ⟨hes _ (Machine.event_mem_of_run h hr), hfresh r hr⟩
  constructor
  · -- an answered pair is stored from then on
    refine (Machine.run_pairwise _ _
      (fun q n => ∀ p ∈ answered q.event q.output, (0 : UInt8) ∉ p.1 ∧ n.store[p.2]? = some p.1)
      _ hsound ?_ ?_ ?_ h hC Node.sound_empty).1
    · intro r hr hC hn p hp
      have ht := Node.transition_of_step hr
      obtain ⟨q, hq, hs⟩ := mem_strings_of_answered hp
      have hnul : (0 : UInt8) ∉ p.1 := by
        have hevent := hC.1
        rw [hq] at hevent
        exact hevent p.1 hs
      exact ⟨hnul, ((ht.sound hn hC.1 hC.2).number_eq_some hnul).mp
        ((ht.refines hn.loaded hC.2).answered _ (mem_observed hp))⟩
    · intro q r hr hC hn hpast p hp
      obtain ⟨hnul, hid⟩ := hpast p hp
      exact ⟨hnul, (Node.transition_of_step hr).extends hn.loaded hC.2 p.2 p.1 hid⟩
    · intro q r hr hC hn hpast p hp
      obtain ⟨hnul, hid⟩ := hpast p hp
      exact (Node.transition_of_step hr).confirms hn hC.2 hnul hid
  · intro r hr
    have hbefore := ((Machine.run_invariant _ _ hsound h hC Node.sound_empty).2 r hr).1
    exact (Node.transition_of_step (Machine.isStep_of_run h r hr)).extends hbefore.loaded
      (hfresh r hr)

theorem freshIds_of_permanent (h : history (.stopped ∅) es = some (tr, n))
    (hpermanent : Permanent tr) : ∀ r ∈ tr, Node.FreshIds r.before r.event := by
  have hloaded : ∀ r : Machine.Record Node Event Outcome, Machine.IsStep Node.step r →
      Extends r.before.store r.after.store → r.before.Loaded → r.after.Loaded :=
    fun _ hr hextends hn => (Node.transition_of_step hr).loaded hn
      ((Node.transition_of_step hr).freshIds_of_extends hn hextends)
  intro r hr
  have hbefore := ((Machine.run_invariant _ _ hloaded h hpermanent.stored
    (Node.loaded_stopped ∅)).2 r hr).1
  exact (Node.transition_of_step (Machine.isStep_of_run h r hr)).freshIds_of_extends hbefore
    (hpermanent.stored r hr)

end History

/-- Every history of an empty directory that takes fewer than `2 ^ 63 - 1` ids is defined,
    and its ids are permanent exactly when no request is given ids that are stored. -/
theorem permanent_iff_freshIds (es : List Event) (hes : ∀ e ∈ es, e.NulFree)
    (hcount : allocated (.stopped ∅) es < 2 ^ 63 - 1) :
    ∃ tr n, history (.stopped ∅) es = some (tr, n) ∧
      (Permanent tr ↔ ∀ r ∈ tr, Node.FreshIds r.before r.event) := by
  obtain ⟨tr, n, h⟩ := history_defined es Node.bounded_empty (by simpa using hcount)
  exact ⟨tr, n, h, freshIds_of_permanent h, permanent_of_freshIds h hes⟩

/-- An enabled start, a restart with `--disable-s2i` and a toggle, without a collision. -/
theorem permanent_iff_freshIds_toggled :
    ∃ tr n, history (.stopped ∅) [.start false,
        .query { op := .STR2ID, strings := [[97]] }, .stop, .start true, .enableS2i,
        .query { op := .STR2ID, strings := [[98]] }, .query { op := .ID2STR, ids := [1] }] =
          some (tr, n) ∧
      (Permanent tr ↔ ∀ r ∈ tr, Node.FreshIds r.before r.event) :=
  permanent_iff_freshIds _ (by decide) (by decide)

/-- The counter of a process started with `--disable-s2i` begins at 0, below the stored
    id 1, so a request for two new strings is given that id again. -/
def collidingEvents : List Event :=
  [.start false, .query { op := .STR2ID, strings := [[97]] }, .stop, .start true, .enableS2i,
    .query { op := .STR2ID, strings := [[98], [99]] }, .query { op := .ID2STR, ids := [1] }]

theorem not_permanent_collidingEvents :
    (∀ e ∈ collidingEvents, e.NulFree) ∧ allocated (.stopped ∅) collidingEvents = 3 ∧
      ∃ tr n, history (.stopped ∅) collidingEvents = some (tr, n) ∧
        tr.map Machine.Record.output =
          [.done, .response { op := .STR2ID, ids := [1] }, .done, .done, .done,
            .response { op := .STR2ID, ids := [0, 1] },
            .response { op := .ID2STR, strings := [[99]] }] ∧
        ¬ Permanent tr := by
  have hrun : (history (.stopped ∅) collidingEvents).map
      (fun p => p.1.map fun r => (r.event, r.output)) = some (collidingEvents.zip
        [.done, .response { op := .STR2ID, ids := [1] }, .done, .done, .done,
          .response { op := .STR2ID, ids := [0, 1] },
          .response { op := .ID2STR, strings := [[99]] }]) := by
    decide
  obtain ⟨⟨tr, n⟩, h, hlabels⟩ := Option.map_eq_some_iff.mp hrun
  refine ⟨by decide, by decide, tr, n, h, ?_, ?_⟩
  · have houtputs := congrArg (List.map Prod.snd) hlabels
    rwa [List.map_map] at houtputs
  · rintro ⟨hanswers, -⟩
    have hpairwise := List.pairwise_map (f := fun r : Machine.Record Node Event Outcome =>
      (r.event, r.output)) (R := fun x y => ∀ p ∈ answered x.1 x.2, Confirms y.1 y.2 p.1 p.2)
        |>.mpr hanswers
    simp only at hlabels
    rw [hlabels] at hpairwise
    -- the first STR2ID query against the final ID2STR query
    have hlater := (List.pairwise_cons.mp (List.pairwise_cons.mp hpairwise).2).1
      (.query { op := .ID2STR, ids := [1] }, .response { op := .ID2STR, strings := [[99]] })
      (by decide) ([97], 1) (by decide)
    exact absurd (hlater.id2str _ _ 0 rfl rfl rfl rfl).1 (by decide)

end Numerator
