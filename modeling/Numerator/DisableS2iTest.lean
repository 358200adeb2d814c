import Numerator.RoundTrip

/-!
# The test of the toggles

The script `tests/disable-s2i-test.py` against a process that other clients query
at the same time. Whatever they ask, before any call of the script, the script
finds the service disabled where it expects it and gets the same ids again. It
passes exactly if the strings that it asks for are told apart by their C strings,
and it comes to its end unless the counter overflows on the way.
-/

namespace Numerator

open Std FiniteMap DiskStorage

namespace DisableS2iTest

/-! ### The script -/

/-- How the script ends. -/
inductive Verdict where
  | passed
  | noException
  | unexpectedStrings
  | unexpectedIds
  | raised (o : Outcome)
deriving DecidableEq

/-- A call of the script, behind queries of other clients. -/
def callAfter (queries : List Query) (e : Event) (n : Node)
    (next : Outcome → Node → Option (Verdict × Node)) : Option (Verdict × Node) :=
  (history n (queries.map .query)).bind fun p => (p.2.step e).bind fun q => next q.1 q.2

/-- The last request: it has to be answered with the ids of the first one. -/
def askAgain (queryData : List Bytes) (ids : List NumID) (others : List Query) (n : Node) :
    Option (Verdict × Node) :=
  callAfter others (.query { op := .STR2ID, strings := queryData }) n fun o n =>
    match o with
    | .response result => some (if result.ids ≠ ids then .unexpectedIds else .passed, n)
    | o => some (.raised o, n)

/-- The part behind the exception: the lookup, and the service enabled again. -/
def lookBack (queryData : List Bytes) (ids : List NumID) (others : Nat → List Query) (n : Node) :
    Option (Verdict × Node) :=
  callAfter (others 3) (.query { op := .ID2STR, ids := ids }) n fun o n =>
    match o with
    | .response result =>
      if result.strings ≠ queryData then some (.unexpectedStrings, n)
      else
        callAfter (others 4) .enableS2i n fun o n =>
          match o with
          | .done => askAgain queryData ids (others 5) n
          | o => some (.raised o, n)
    | o => some (.raised o, n)

/-- Every exception of Thrift is good where the script expects one. -/
def refusedThen (queryData : List Bytes) (ids : List NumID) (others : Nat → List Query)
    (n : Node) : Option (Verdict × Node) :=
  callAfter (others 2) (.query { op := .STR2ID, strings := queryData }) n fun o n =>
    match o with
    | .response _ => some (.noException, n)
    | _ => lookBack queryData ids others n

/-- The calls of `main`, with what other clients ask before each of them. -/
def test (queryData : List Bytes) (others : Nat → List Query) (n : Node) :
    Option (Verdict × Node) :=
  callAfter (others 0) (.query { op := .STR2ID, strings := queryData }) n fun o n =>
    match o with
    | .response result =>
      callAfter (others 1) .disableS2i n fun o n =>
        match o with
        | .done => refusedThen queryData result.ids others n
        | o => some (.raised o, n)
    | o => some (.raised o, n)

/-- A call of the script as an event, between queries of other clients and what comes later. -/
def eventsFrom (queries : List Query) (e : Event) (rest : List Event) : List Event :=
  queries.map .query ++ e :: rest

/-- All calls of the script with those of other clients between them, for the ids that its first
    request is answered with. -/
def script (queryData : List Bytes) (ids : List NumID) (others : Nat → List Query) : List Event :=
  let request : Query := { op := .STR2ID, strings := queryData }
  eventsFrom (others 0) (.query request) <|
    eventsFrom (others 1) .disableS2i <|
      eventsFrom (others 2) (.query request) <|
        eventsFrom (others 3) (.query { op := .ID2STR, ids := ids }) <|
          eventsFrom (others 4) .enableS2i <|
            eventsFrom (others 5) (.query request) []

/-! ### The end of the script -/

/-- On the way through the events a STR2ID request needs more ids than the counter has left. -/
def Overflows (n : Node) (es : List Event) : Prop :=
  ∃ served request, served ++ [.query request] <+: es ∧ request.op = .STR2ID ∧
    ∃ tr s, history n served = some (tr, .running s) ∧ s.disableS2iQueries = false ∧
      2 ^ 63 ≤ s.cnt.toInt + (Server.newStrings s.memoryStorage request.strings).length

/-- Where nothing is started, only an overflow is not defined. -/
theorem overflows_of_history {n : Node} {es : List Event} (hes : ∀ e ∈ es, ∀ d, e ≠ .start d)
    (h : history n es = none) : Overflows n es := by
  induction es generalizing n with
  | nil => cases h
  | cons e es ih =>
    rw [List.forall_mem_cons] at hes
    rcases hstep : Node.step n e with _ | ⟨o, n'⟩
    · cases n with
      | stopped db =>
        cases e with
        | start d => exact absurd rfl (hes.1 d)
        | query _ | disableS2i | enableS2i | stop => cases hstep
      | running s =>
        cases e with
        | query request =>
          obtain ⟨hop, henabled, hoverflow⟩ := Node.query_eq_none hstep
          exact ⟨[], request, ⟨es, rfl⟩, hop, [], s, rfl, henabled, hoverflow⟩
        | enableS2i => exact absurd hstep Node.enable_ne_none
        | start _ | disableS2i | stop => cases hstep
    · have hrest : history n' es = none := by
        have hrun : Machine.run Node.step n (e :: es) =
            (Machine.run Node.step n' es).map fun p => (⟨n, e, o, n'⟩ :: p.1, p.2) :=
          Machine.run_cons hstep
        unfold history at h ⊢
        rw [h, eq_comm, Option.map_eq_none_iff] at hrun
        exact hrun
      obtain ⟨served, request, hpart, hop, tr, s, hserved, henabled, hoverflow⟩ := ih hes.2 hrest
      obtain ⟨tr', hrun⟩ := Machine.exists_run_cons hstep ⟨tr, hserved⟩
      exact ⟨e :: served, request, List.cons_prefix_cons.mpr ⟨rfl, hpart⟩, hop, tr', s, hrun,
        henabled, hoverflow⟩

section Undefined

variable {n : Node} {queryData : List Bytes} {ids : List NumID}

/-- Where a call of the script does not come back, the history of what it asks has no end, or it
    is the rest of the script that does not. -/
theorem callAfter_eq_none {queries : List Query} {e : Event}
    {next : Outcome → Node → Option (Verdict × Node)} (h : callAfter queries e n next = none) :
    (∀ rest, history n (eventsFrom queries e rest) = none) ∨
      ∃ o n', next o n' = none ∧ ∀ rest, history n' rest = none →
        history n (eventsFrom queries e rest) = none := by
  unfold callAfter at h
  unfold eventsFrom
  unfold history at h ⊢
  rcases hrun : Machine.run Node.step n (queries.map .query) with _ | ⟨tr, n₁⟩
  · left
    intro rest
    rw [Option.eq_none_iff_forall_ne_some]
    rintro ⟨tr, n'⟩ happend
    obtain ⟨u, tr₁, tr₂, hfirst, -⟩ := Machine.run_append_eq_some.mp happend
    rw [hrun] at hfirst
    cases hfirst
  · simp only [hrun, Option.bind_some] at h
    rcases hstep : Node.step n₁ e with _ | ⟨o, n'⟩
    · left
      intro rest
      rw [Machine.run_append hrun, Machine.run_cons_of_none hstep]
      rfl
    · right
      rw [hstep, Option.bind_some] at h
      refine ⟨o, n', h, fun rest hrest => ?_⟩
      rw [Machine.run_append hrun, Machine.run_cons hstep, hrest]
      rfl

/-- The same when the rest does not depend on the answer. -/
theorem history_eventsFrom {queries : List Query} {e : Event}
    {next : Outcome → Node → Option (Verdict × Node)} (h : callAfter queries e n next = none)
    {rest : List Event} (hnext : ∀ o n', next o n' = none → history n' rest = none) :
    history n (eventsFrom queries e rest) = none := by
  rcases callAfter_eq_none h with hnone | ⟨o, n', hnone, hrest⟩
  · exact hnone rest
  · exact hrest rest (hnext o n' hnone)

theorem askAgain_eq_none {others : List Query} (h : askAgain queryData ids others n = none) :
    history n (eventsFrom others (.query { op := .STR2ID, strings := queryData }) []) = none := by
  apply history_eventsFrom h
  intro o n' hnext
  split at hnext <;> cases hnext

theorem lookBack_eq_none {others : Nat → List Query} (h : lookBack queryData ids others n = none) :
    history n (eventsFrom (others 3) (.query { op := .ID2STR, ids := ids }) <|
      eventsFrom (others 4) .enableS2i <|
        eventsFrom (others 5) (.query { op := .STR2ID, strings := queryData }) []) = none := by
  apply history_eventsFrom h
  intro o n' hnext
  split at hnext
  · split at hnext
    · cases hnext
    · apply history_eventsFrom hnext
      intro o n'' hnext'
      split at hnext'
      · exact askAgain_eq_none hnext'
      · cases hnext'
  · cases hnext

theorem refusedThen_eq_none {others : Nat → List Query}
    (h : refusedThen queryData ids others n = none) :
    history n (eventsFrom (others 2) (.query { op := .STR2ID, strings := queryData }) <|
      eventsFrom (others 3) (.query { op := .ID2STR, ids := ids }) <|
        eventsFrom (others 4) .enableS2i <|
          eventsFrom (others 5) (.query { op := .STR2ID, strings := queryData }) []) = none := by
  apply history_eventsFrom h
  intro o n' hnext
  split at hnext
  · cases hnext
  · exact lookBack_eq_none hnext

/-- The script ends unless what it and the other clients ask has no end. -/
theorem test_eq_none {others : Nat → List Query} (h : test queryData others n = none) :
    ∃ ids, history n (script queryData ids others) = none := by
  rcases callAfter_eq_none h with hnone | ⟨o, n', hnext, hrest⟩
  · exact ⟨[], hnone _⟩
  · split at hnext
    · rename_i result
      refine ⟨result.ids, hrest _ ?_⟩
      apply history_eventsFrom hnext
      intro o n'' hnext'
      split at hnext'
      · exact refusedThen_eq_none hnext'
      · cases hnext'
    · cases hnext

theorem not_start_of_mem_script {others : Nat → List Query} :
    ∀ e ∈ script queryData ids others, ∀ d, e ≠ .start d := by
  intro e he d heq
  subst heq
  simp [script, eventsFrom] at he

end Undefined

/-! ### What other clients leave alone -/

/-- The process serves a store that has grown from `db`, with the service disabled or not. -/
structure Stands (db : Store) (disabled : Bool) (s : Server) : Prop where
  coupled : s.Coupled
  flag : s.disableS2iQueries = disabled
  distinct : PrefixDistinct s.diskStorage
  grown : Extends db s.diskStorage

section Stands

variable {db : Store} {disabled : Bool} {s : Server} {o : Outcome} {n : Node}

theorem Stands.node (h : Stands db disabled s) : (Node.running s).Coupled := by
  intro s' hs
  cases hs
  exact h.coupled

theorem Stands.step (h : Stands db disabled s) {e : Event}
    (he : (∃ q, e = .query q) ∨ e = .disableS2i ∨ e = .enableS2i)
    (hstep : Node.step (.running s) e = some (o, n)) :
    ∃ s', n = .running s' ∧ Stands db s'.disableS2iQueries s' ∧
      ((∃ q, e = .query q) → s'.disableS2iQueries = disabled) := by
  have ht := Node.transition_of_step hstep
  have hcoupled := ht.coupled (by rcases he with ⟨q, rfl⟩ | rfl | rfl <;> simp) h.node
  have hdistinct := ht.prefixDistinct h.node.loaded h.distinct
  have hgrown := ht.extends h.node.loaded (h.node.freshIds e)
  obtain ⟨s', rfl, hflag⟩ : ∃ s', n = .running s' ∧
      ((∃ q, e = .query q) → s'.disableS2iQueries = disabled) := by
    cases ht with
    | lookup _ q hop | refused _ q hop hdisabled | unknown _ q code hop =>
      exact ⟨s, rfl, fun _ => h.flag⟩
    | number _ q l hop henabled hrounds => exact ⟨_, rfl, fun _ => henabled.symm.trans h.flag⟩
    | disable _ henabled | enable _ hdisabled =>
      refine ⟨_, rfl, ?_⟩
      rintro ⟨q, hq⟩
      cases hq
    | disableAgain _ hdisabled | enableAgain _ henabled | ignoredStart _ d =>
      exact ⟨s, rfl, fun _ => h.flag⟩
    | stop _ => rcases he with ⟨q, hq⟩ | hq | hq <;> cases hq
  exact ⟨s', rfl, ⟨hcoupled s' rfl, rfl, hdistinct, h.grown.trans hgrown⟩, hflag⟩

theorem Stands.others (h : Stands db disabled s) {queries : List Query}
    {tr : List (Machine.Record Node Event Outcome)}
    (hrun : history (.running s) (queries.map .query) = some (tr, n)) :
    ∃ s', n = .running s' ∧ Stands db disabled s' := by
  induction queries generalizing s tr with
  | nil =>
    cases hrun
    exact ⟨s, rfl, h⟩
  | cons q queries ih =>
    obtain ⟨o, n', tr', hstep, hrest, -⟩ := Machine.run_cons_eq_some.mp hrun
    obtain ⟨s', rfl, hs', hflag⟩ := h.step (Or.inl ⟨q, rfl⟩) hstep
    rw [hflag ⟨q, rfl⟩] at hs'
    exact ih hs' hrest

/-- A call of the script comes to a process that other clients have only added to. -/
theorem Stands.callAfter (h : Stands db disabled s) {queries : List Query} {e : Event}
    {next : Outcome → Node → Option (Verdict × Node)} {v : Verdict}
    (hcall : callAfter queries e (.running s) next = some (v, n)) :
    ∃ tr s' o n', history (.running s) (queries.map .query) = some (tr, .running s') ∧
      Stands db disabled s' ∧ Node.step (.running s') e = some (o, n') ∧
      next o n' = some (v, n) := by
  unfold DisableS2iTest.callAfter at hcall
  obtain ⟨⟨tr, n₁⟩, hrun, hcall⟩ := Option.bind_eq_some_iff.mp hcall
  obtain ⟨⟨o, n'⟩, hstep, hnext⟩ := Option.bind_eq_some_iff.mp hcall
  obtain ⟨s', rfl, hs'⟩ := h.others hrun
  exact ⟨tr, s', o, n', hrun, hs', hstep, hnext⟩

end Stands

/-! ### The calls of the script -/

/-- Behind the ids stand strings that memory does not distinguish from the requested ones. -/
structure Answered (db : Store) (strings : List Bytes) (ids : List NumID) : Prop where
  length : ids.length = strings.length
  stored : ∀ p ∈ strings.zip ids, ∃ v, db[p.2]? = some v ∧ cstr v = cstr p.1

section Calls

variable {db : Store} {disabled : Bool} {s : Server} {o : Outcome} {n n' : Node}
variable {queryData : List Bytes} {ids : List NumID} {v : Verdict}

/-- The first request, and what its ids lead back to. -/
theorem Stands.first (h : Stands db false s)
    (hstep : Node.step (.running s) (.query { op := .STR2ID, strings := queryData }) =
      some (o, n)) :
    ∃ ids s', o = .response { op := .STR2ID, ids := ids } ∧ n = .running s' ∧
      Stands s'.diskStorage false s' ∧ Answered s'.diskStorage queryData ids ∧
      ((∀ p ∈ queryData.zip ids, s'.diskStorage[p.2]? = some p.1) ↔ s.TellsApart queryData) := by
  obtain ⟨s', hs', hstands, hflag⟩ := h.step (Or.inl ⟨_, rfl⟩) hstep
  rw [hflag ⟨_, rfl⟩] at hstands
  cases Node.transition_of_step hstep with
  | lookup _ _ hop | unknown _ _ code hop => cases hop
  | refused _ _ hop hdisabled =>
    rw [h.flag] at hdisabled
    cases hdisabled
  | number _ _ l hop henabled hrounds =>
    cases hs'
    have hl := h.coupled.memory.numbered henabled hrounds
    have hfree := h.coupled.free henabled hl
    refine ⟨l.ids, _, rfl, rfl, { hstands with grown := Extends.refl _ }, ⟨hl.length_ids, ?_⟩,
      hl.stored_iff hfree h.distinct⟩
    rintro ⟨x, id⟩ hx
    obtain ⟨w, hw, hcstr, -⟩ := hl.stored_of_answered hfree hx
    exact ⟨w, hw, hcstr⟩

/-- Once they are answered, strings have their ids for good. -/
theorem Stands.again (h : Stands db false s) (hids : Answered db queryData ids)
    (hstep : Node.step (.running s) (.query { op := .STR2ID, strings := queryData }) =
      some (o, n)) : o = .response { op := .STR2ID, ids := ids } := by
  cases Node.transition_of_step hstep with
  | lookup _ _ hop | unknown _ _ code hop => cases hop
  | refused _ _ hop hdisabled =>
    rw [h.flag] at hdisabled
    cases hdisabled
  | number _ _ l hop henabled hrounds =>
    have hl := h.coupled.memory.numbered henabled hrounds
    have hmemory : ∀ p ∈ queryData.zip ids, some p.2 = l.memoryStorage[cstr p.1]? := by
      intro p hp
      obtain ⟨w, hw, hcstr⟩ := hids.stored p hp
      have hold : (memoryOf s.diskStorage)[cstr p.1]? = some p.2 :=
        h.distinct.memoryOf_eq_some.mpr ⟨w, h.grown p.2 w hw, hcstr⟩
      exact (hl.mem_iff.mpr (Or.inr hold)).symm
    have hsame : ids.map some = l.ids.map some := by
      rw [hl.ids]
      exact (map_eq_map_iff_forall_zip hids.length).mpr hmemory
    rw [List.map_injective_iff.mpr (Option.some_injective _) hsame]

/-- The lookup gives the strings back exactly if they are what is stored. -/
theorem Stands.lookup_eq_iff (h : Stands db disabled s) (hids : Answered db queryData ids) :
    ids.map (fun k => s.diskStorage[k]?.getD []) = queryData ↔
      ∀ p ∈ queryData.zip ids, db[p.2]? = some p.1 := by
  have hmap := map_eq_map_iff_forall_zip (f := fun k => s.diskStorage[k]?.getD []) (g := id)
    hids.length
  rw [List.map_id] at hmap
  rw [hmap]
  refine forall₂_congr fun p hp => ?_
  obtain ⟨w, hw, -⟩ := hids.stored p hp
  rw [h.grown p.2 w hw, hw]
  simp

theorem Stands.askAgain (h : Stands db false s) (hids : Answered db queryData ids)
    {others : List Query}
    (hask : askAgain queryData ids others (.running s) = some (v, n)) : v = .passed := by
  obtain ⟨-, s', o, n', -, hs', hstep, hnext⟩ := h.callAfter hask
  obtain rfl := hs'.again hids hstep
  simp only [ne_eq, not_true_eq_false, if_false, Option.some.injEq, Prod.mk.injEq] at hnext
  exact hnext.1.symm

theorem Stands.lookBack (h : Stands db true s) (hids : Answered db queryData ids)
    {others : Nat → List Query}
    (hlook : lookBack queryData ids others (.running s) = some (v, n)) :
    v = if ∀ p ∈ queryData.zip ids, db[p.2]? = some p.1 then .passed
      else .unexpectedStrings := by
  obtain ⟨-, s', o, n', -, hs', hstep, hnext⟩ := h.callAfter hlook
  have hiff := hs'.lookup_eq_iff hids
  cases Node.transition_of_step hstep with
  | refused _ _ hop hdisabled | number _ _ l hop henabled hrounds | unknown _ _ code hop =>
    cases hop
  | lookup _ _ hop =>
    dsimp only at hnext
    by_cases hstrings : ids.map (fun k => s'.diskStorage[k]?.getD []) = queryData
    · rw [if_neg (not_not_intro hstrings)] at hnext
      rw [if_pos (hiff.mp hstrings)]
      obtain ⟨-, s'', o, n'', -, hs'', hstep', hnext'⟩ := hs'.callAfter hnext
      obtain ⟨t, ht, hstands, -⟩ := hs''.step (Or.inr (Or.inr rfl)) hstep'
      cases Node.transition_of_step hstep' with
      | enable _ hdisabled =>
        cases ht
        exact hstands.askAgain hids hnext'
      | enableAgain _ henabled =>
        rw [hs''.flag] at henabled
        cases henabled
    · rw [if_pos hstrings] at hnext
      rw [if_neg (hiff.not.mp hstrings)]
      cases hnext
      rfl

theorem Stands.refusedThen (h : Stands db true s) (hids : Answered db queryData ids)
    {others : Nat → List Query}
    (hrefused : refusedThen queryData ids others (.running s) = some (v, n)) :
    v = if ∀ p ∈ queryData.zip ids, db[p.2]? = some p.1 then .passed
      else .unexpectedStrings := by
  obtain ⟨-, s', o, n', -, hs', hstep, hnext⟩ := h.callAfter hrefused
  cases Node.transition_of_step hstep with
  | lookup _ _ hop | unknown _ _ code hop => cases hop
  | number _ _ l hop henabled hrounds =>
    rw [hs'.flag] at henabled
    cases henabled
  | refused _ _ hop hdisabled => exact hs'.lookBack hids hnext

/-- How the script ends, if it does. -/
theorem Stands.passes_iff (h : Stands db false s) {others : Nat → List Query}
    (htest : test queryData others (.running s) = some (v, n)) :
    ∃ tr' s', history (.running s) ((others 0).map .query) = some (tr', .running s') ∧
      (v = .passed ↔ s'.TellsApart queryData) ∧ (v ≠ .passed → v = .unexpectedStrings) := by
  obtain ⟨tr', s', o, n₁, hrun, hs', hstep, hnext⟩ := h.callAfter htest
  obtain ⟨ids, s₁, rfl, rfl, hs₁, hids, hiff⟩ := hs'.first hstep
  obtain ⟨-, s₂, o, n₂, -, hs₂, hdisable, hnext⟩ := hs₁.callAfter hnext
  obtain ⟨s₃, hs₃, hstands, -⟩ := hs₂.step (Or.inr (Or.inl rfl)) hdisable
  have hv : v = if ∀ p ∈ queryData.zip ids, s₁.diskStorage[p.2]? = some p.1 then .passed
      else .unexpectedStrings := by
    cases Node.transition_of_step hdisable with
    | disable _ henabled =>
      cases hs₃
      exact hstands.refusedThen hids hnext
    | disableAgain _ hdisabled =>
      rw [hs₂.flag] at hdisabled
      cases hdisabled
  refine ⟨tr', s', hrun, ?_, ?_⟩
  · rw [hv, ← hiff]
    split
    · rename_i hall
      exact iff_of_true rfl hall
    · rename_i hall
      exact iff_of_false (by simp) hall
  · intro hne
    rw [hv] at hne ⊢
    split
    · rename_i hall
      exact absurd (if_pos hall) hne
    · rfl

end Calls

/-- Whatever other clients ask before any of its calls, the script ends unless the counter
    overflows on the way. It passes exactly if the C strings of its request tell the strings apart
    when the first request comes, and fails otherwise because of the strings that it reads back. -/
theorem test_passes_iff (db : Store) (hdb : PrefixDistinct db) (es : List Event)
    (hes : ∀ e ∈ es, e ≠ .start true) (tr : List (Machine.Record Node Event Outcome))
    (s : Server) (h : history (.stopped db) es = some (tr, .running s))
    (henabled : s.disableS2iQueries = false) (queryData : List Bytes)
    (others : Nat → List Query) :
    (test queryData others (.running s) = none →
      ∃ ids, Overflows (.running s) (script queryData ids others)) ∧
    ∀ v n, test queryData others (.running s) = some (v, n) →
      ∃ tr' s', history (.running s) ((others 0).map .query) = some (tr', .running s') ∧
        (v = .passed ↔ s'.TellsApart queryData) ∧ (v ≠ .passed → v = .unexpectedStrings) := by
  have hcoupled := coupled_history h hes (Node.coupled_stopped db)
  have hdistinct := (prefixDistinct_history h hes (Node.coupled_stopped db) hdb).1
  have hs : Stands s.diskStorage false s :=
    ⟨hcoupled.1 s rfl, henabled, hdistinct, Extends.refl _⟩
  constructor
  · intro hnone
    obtain ⟨ids, hhistory⟩ := test_eq_none hnone
    exact ⟨ids, overflows_of_history not_start_of_mem_script hhistory⟩
  · intro v n htest
    exact hs.passes_iff htest

/-- Two strings of the script, and another client that asks for one of them before, for a third
    one in the middle, and for the first one while the service is disabled. -/
def otherClients : Nat → List Query
  | 0 => [{ op := .STR2ID, strings := [[66]] }]
  | 1 => [{ op := .STR2ID, strings := [[67]] }, { op := .ID2STR, ids := [1, 9] }]
  | 3 => [{ op := .STR2ID, strings := [[65]] }]
  | _ => []

theorem test_passes_iff_otherClients :
    ∃ n tr s', test [[65], [66]] otherClients (.running ⟨∅, ∅, 1, false⟩) = some (.passed, n) ∧
      history (.running ⟨∅, ∅, 1, false⟩) ((otherClients 0).map .query) =
        some (tr, .running s') ∧
      s'.TellsApart [[65], [66]] := by
  have hpasses : (test [[65], [66]] otherClients (.running ⟨∅, ∅, 1, false⟩)).map Prod.fst =
      some .passed := by
    decide +kernel
  obtain ⟨⟨v, n⟩, htest, rfl⟩ := Option.map_eq_some_iff.mp hpasses
  have hstart : (history (.stopped ∅) [.start false]).map Prod.snd =
      some (.running ⟨∅, ∅, 1, false⟩) := by
    decide +kernel
  obtain ⟨⟨tr₀, n₀⟩, h, rfl⟩ := Option.map_eq_some_iff.mp hstart
  obtain ⟨-, hpass⟩ := test_passes_iff ∅ prefixDistinct_empty [.start false] (by decide) tr₀ _ h rfl
    [[65], [66]] otherClients
  obtain ⟨tr, s', hothers, hiff, -⟩ := hpass _ n htest
  exact ⟨n, tr, s', htest, hothers, hiff.mp rfl⟩

end DisableS2iTest

end Numerator
