import Numerator.Durability
import Numerator.FailedLoads
import Numerator.Interleaving

/-!
# Lives with crashes

A data directory lives on through failing libraries and through processes that
are killed in the middle of a query. Whatever happens, the store takes a whole
batch or nothing, and a batch stands under the ids right behind the greatest
stored one. So what clients were told stays true, and the ids have no gaps.
-/

namespace Numerator

open Std FiniteMap DiskStorage

/-! ### Kills -/

inductive CrashEvent where
  | served (e : ServedEvent)
  | killed (request : Query) (replies : List StepReply)

/-- What the client may have seen of a query that has come to this stage. -/
def Stage.sent : Stage → Outcome
  | .returned (.ok response) => .response response
  | .returned (.error (.numeratorException e)) => .refused e
  | _ => .exited

/-- A kill leaves the store of the last step. It needs no event of its own outside of queries,
    since nothing else writes. -/
def Node.survive : Node → CrashEvent → Option (Outcome × Node)
  | n, .served e => n.live e
  | .running s, .killed request replies =>
    match Server.querySteps request (s, .called) replies with
    | none => none
    | some (_, (s', stage)) => some (stage.sent, .stopped s'.diskStorage)
  | .stopped db, .killed _ _ => some (.ignored, .stopped db)

namespace CrashEvent

/-- The query that the event serves. -/
def asked : CrashEvent → Option Query
  | .served (.call (.query _ request)) | .killed request _ => some request
  | _ => none

/-- The strings and ids that the event tells its client. -/
def told (e : CrashEvent) (o : Outcome) : List (Bytes × NumID) :=
  match e.asked with
  | some request => answered (.query request) o
  | none => []

/-- Loads in this event come to the end of the database unless they throw. -/
def ReadsAll (db : Store) : CrashEvent → Prop
  | .served e => e.ReadsAll db
  | .killed _ _ => True

instance (db : Store) : DecidablePred (ReadsAll db)
  | .served e => inferInstanceAs (Decidable (e.ReadsAll db))
  | .killed _ _ => isTrue trivial

end CrashEvent

/-! ### What happens to the store -/

/-- The store keeps still and nobody is told anything, or it takes the batch of a request whose
    answer is told or lost. -/
inductive Effect (db : Store) : List (Bytes × NumID) → Store → Prop where
  | still : Effect db [] db
  | batch (c : NumID) (strings : List Bytes) (l : Server.Loop)
      (hc : c.toInt = (greatestId db).toInt + 1)
      (hl : Server.Numbered (memoryOf db) c strings l) (told : List (Bytes × NumID))
      (htold : told = [] ∨ told = strings.zip l.ids) :
      Effect db told (putBatch db l.kvPairs)

/-- The response says what the store has under the ids of the request. -/
structure Looked (db : Store) (request response : Query) : Prop where
  strings : response.strings = request.ids.map fun k => db[k]?.getD []
  failures : response.failures = missing db 0 request.ids

/-- A lookup that returns has looked up every key. -/
theorem looked_of_lookup {get : Nat → Option String} {db : Store} {request response : Query}
    {values : List Bytes} {failures : List FailureIdx}
    (h : lookup get db request.ids [] [] = .ok (values, failures))
    (hvalues : response.strings = values) (hfailures : response.failures = failures) :
    Looked db request response := by
  cases lookup_eq_ok h
  exact ⟨hvalues, hfailures⟩

section Effects

variable {s s' : Server} {request : Query} {o : Outcome} {n n' : Node}

theorem answered_eq_nil (hop : request.op ≠ .STR2ID) : answered (.query request) o = [] := by
  cases o with
  | response r => exact if_neg hop
  | _ => rfl

theorem Server.Recovers.batch (hs : s.Recovers) (henabled : s.disableS2iQueries = false)
    {judy : Nat → JudyReply} {strings : List Bytes} {l : Server.Loop}
    (hrounds : Server.rounds judy 0 ⟨s.memoryStorage, s.cnt, [], []⟩ strings = .ok l)
    {told : List (Bytes × NumID)} (htold : told = [] ∨ told = strings.zip l.ids) :
    Effect s.diskStorage told (putBatch s.diskStorage l.kvPairs) :=
  .batch s.cnt strings l hs.counter ((hs.coupled henabled).memory.numbered henabled hrounds)
    told htold

theorem effect_of_query {replies : Replies} (hs : s.Recovers)
    (h : Node.query replies s request = some (o, n)) :
    Effect s.diskStorage (answered (.query request) o) n.store := by
  unfold Node.query Server.queryImpl at h
  rcases hop : request.op with _ | _ | code
  · by_cases hdisabled : s.disableS2iQueries = true
    · simp only [hop, hdisabled, if_true] at h
      cases h
      exact .still
    · rw [Bool.not_eq_true] at hdisabled
      rcases hrounds : Server.rounds replies.judy 0 ⟨s.memoryStorage, s.cnt, [], []⟩
        request.strings with f | l
      · simp only [hop, hdisabled, hrounds, Bool.false_eq_true, if_false] at h
        cases f <;> cases h <;> exact .still
      · rcases hwrite : replies.write with _ | ⟨status, applied⟩
        · simp only [hop, hdisabled, hrounds, hwrite, write, Bool.false_eq_true, if_false] at h
          cases h
          exact hs.batch hdisabled hrounds (Or.inr (by rw [answered, if_pos hop]))
        · simp only [hop, hdisabled, hrounds, hwrite, write, Bool.false_eq_true, if_false] at h
          cases h
          -- the failed write may have taken place all the same
          cases applied
          · exact .still
          · exact hs.batch hdisabled hrounds (Or.inl rfl)
  · rcases hlookup : lookup replies.get s.diskStorage request.ids [] [] with f | ⟨values, failures⟩
    · simp only [hop, hlookup] at h
      cases f <;> cases h <;> exact .still
    · simp only [hop, hlookup] at h
      cases h
      rw [answered_eq_nil (by simp [hop])]
      exact .still
  · simp only [hop] at h
    cases h
    rw [answered_eq_nil (by simp [hop])]
    exact .still

/-- Without a STR2ID loop no step writes, and an answer to ID2STR is read off the store. -/
theorem unwritten_of_querySteps {replies : List StepReply} {stage : Stage}
    {steps : List (Machine.Record (Server × Stage) StepReply Unit)}
    (h : Server.querySteps request (s, .called) replies = some (steps, (s', stage)))
    (hop : request.op ≠ .STR2ID) : s'.diskStorage = s.diskStorage ∧
      (∀ todo kvPairs ids, stage ≠ .numbering todo kvPairs ids) ∧
      ∀ response, (stage = .finished (.ok response) ∨ stage = .returned (.ok response)) →
        request.op = .ID2STR → Looked s.diskStorage request response := by
  refine (Machine.run_invariant (fun _ => True)
    (fun p => p.1.diskStorage = s.diskStorage ∧
      (∀ todo kvPairs ids, p.2 ≠ .numbering todo kvPairs ids) ∧
      ∀ response, (p.2 = .finished (.ok response) ∨ p.2 = .returned (.ok response)) →
        request.op = .ID2STR → Looked s.diskStorage request response) ?_ h (fun _ _ => trivial)
    ⟨rfl, by simp, by simp⟩).1
  rintro ⟨⟨s₁, stage₁⟩, reply, _, after⟩ hr - ⟨hstore, hloop, hlooked⟩
  obtain ⟨p, hstep, hafter⟩ := Option.map_eq_some_iff.mp hr
  obtain rfl : p = after := (Prod.mk.inj hafter).2
  have hp : Server.stepQuery reply request s₁ stage₁ = some p := hstep
  change s₁.diskStorage = s.diskStorage at hstore
  rcases stage₁ with _ | _ | ⟨todo, kvPairs, ids⟩ | result | result
  · cases hp
    exact ⟨hstore, by simp, by simp⟩
  · simp only [Server.stepQuery] at hp
    rcases hcode : request.op with _ | _ | code
    · exact absurd hcode hop
    · rcases hlookup : lookup reply.get s₁.diskStorage request.ids [] [] with f | ⟨values, failures⟩
      all_goals
        simp only [hcode, hlookup] at hp
        cases hp
      · exact ⟨hstore, by simp, by simp⟩
      · refine ⟨hstore, by simp, ?_⟩
        rintro response (heq | heq) - <;> cases heq
        rw [← hstore]
        exact looked_of_lookup hlookup rfl rfl
    · simp only [hcode] at hp
      cases hp
      exact ⟨hstore, by simp, by simp⟩
  · exact absurd rfl (hloop todo kvPairs ids)
  · cases hp
    refine ⟨hstore, by simp, ?_⟩
    rintro response (heq | heq) <;> cases heq
    exact hlooked response (Or.inl rfl)
  · cases hp

theorem effect_of_kill {replies : List StepReply} (hs : s.Recovers)
    (h : (Node.running s).survive (.killed request replies) = some (o, n)) :
    Effect s.diskStorage (answered (.query request) o) n.store := by
  simp only [Node.survive] at h
  split at h
  · cases h
  · rename_i steps s' stage hsteps
    cases h
    change Effect s.diskStorage (answered (.query request) stage.sent) s'.diskStorage
    by_cases hop : request.op = .STR2ID
    · -- only a written batch is ever told
      have hlost : ∀ stage : Stage, (∀ response, stage ≠ .returned (.ok response)) →
          answered (.query request) stage.sent = [] := by
        intro stage hstage
        rcases stage with _ | _ | _ | _ | ((e | e | u) | response)
        all_goals first | rfl | exact absurd rfl (hstage response)
      cases Server.progress_querySteps hsteps hop with
      | called | locked | looping => exact .still
      | unwritten _ f _ hstage hstore =>
        rw [hstore, hlost]
        · exact .still
        · rintro response rfl
          rcases hstage with hstage | hstage <;> cases hstage
      | written _ l result _ hstage henabled hran hstore hresult =>
        rw [hstore]
        refine hs.batch henabled hran ?_
        by_cases hreturned : ∃ response, stage = .returned (.ok response)
        · obtain ⟨response, rfl⟩ := hreturned
          rcases hstage with hstage | hstage
          · cases hstage
          · cases hstage
            right
            rw [hresult response rfl]
            exact if_pos hop
        · left
          exact hlost stage fun response heq => hreturned ⟨response, heq⟩
    · rw [(unwritten_of_querySteps hsteps hop).1, answered_eq_nil hop]
      exact .still

/-- What an event does to the store of a directory whose process recovers. -/
theorem effect_of_survive {e : CrashEvent} (hn : n.Recovers)
    (h : n.survive e = some (o, n')) : Effect n.store (e.told o) n'.store := by
  cases n with
  | stopped db =>
    have hsame : ∀ {e : CrashEvent}, some (Outcome.ignored, Node.stopped db) = some (o, n') →
        Effect (Node.stopped db).store (e.told o) n'.store := by
      intro e h
      cases h
      have hnone : e.told .ignored = [] := by
        unfold CrashEvent.told
        split <;> rfl
      rw [hnone]
      exact .still
    cases e with
    | served e =>
      cases e with
      | start it judy =>
        have hstore : n'.store = db := by
          change Node.start it judy db false = some (o, n') at h
          simp only [Node.start, Bool.false_eq_true, if_false] at h
          split at h
          · cases h
          · cases h
            rfl
          · split at h <;> cases h
            rfl
        rw [hstore]
        exact .still
      | call _ | stop => exact hsame h
    | killed _ _ => exact hsame h
  | running s =>
    have hs : s.Recovers := hn s rfl
    cases e with
    | served e =>
      cases e with
      | start _ _ | stop =>
        cases h
        exact .still
      | call c =>
        cases c with
        | query replies request => exact effect_of_query hs h
        | disableS2i =>
          cases h
          have hstore : (Node.running s.disableS2i).store = s.diskStorage := by
            unfold Server.disableS2i
            split <;> rfl
          rw [hstore]
          exact .still
        | enableS2i it judy =>
          have hstore : n'.store = s.diskStorage := by
            change Node.enable it judy s = some (o, n') at h
            obtain ⟨t, rfl⟩ : ∃ t, n' = .running t := by
              unfold Node.enable at h
              split at h <;> cases h
              all_goals exact ⟨_, rfl⟩
            rcases Node.enable_cases h with ⟨-, rfl, -⟩ | ⟨-, storage, result, -, hcases⟩
            · rfl
            · rcases hcases with ⟨f, -, rfl, -⟩ | ⟨p, -, -, rfl⟩ <;> rfl
          rw [hstore]
          exact .still
    | killed request replies => exact effect_of_kill hs h

/-- An answer to ID2STR says what the store has. -/
theorem looked_of_survive {e : CrashEvent} {response : Query}
    (h : n.survive e = some (.response response, n')) (hasked : e.asked = some request)
    (hop : request.op = .ID2STR) : Looked n.store request response := by
  cases n with
  | stopped db =>
    rcases e with (⟨it, judy⟩ | c | _) | ⟨request', replies⟩
    · cases hasked
    all_goals cases h
  | running s =>
    rcases e with (⟨it, judy⟩ | (⟨replies, request'⟩ | _ | ⟨it, judy⟩) | _) | ⟨request', replies⟩
    all_goals cases hasked
    · change Node.query replies s request = some (.response response, n') at h
      simp only [Node.query, Server.queryImpl, hop] at h
      rcases hlookup : lookup replies.get s.diskStorage request.ids [] [] with
        f | ⟨values, failures⟩
      · simp only [hlookup] at h
        cases f <;> cases h
      · simp only [hlookup] at h
        cases h
        exact looked_of_lookup hlookup rfl rfl
    · simp only [Node.survive] at h
      split at h
      · cases h
      · rename_i steps s' stage hsteps
        obtain ⟨-, -, hlooked⟩ := unwritten_of_querySteps hsteps (by simp [hop])
        have hsent : stage.sent = .response response := (Prod.mk.inj (Option.some.inj h)).1
        refine hlooked response (Or.inr ?_) hop
        rcases stage with _ | _ | _ | _ | ((e | e | u) | response') <;> cases hsent
        rfl

/-- An answer to STR2ID has as many ids as there were strings. -/
theorem length_ids_of_survive {e : CrashEvent} {response : Query}
    (h : n.survive e = some (.response response, n')) (hasked : e.asked = some request)
    (hop : request.op = .STR2ID) : response.ids.length = request.strings.length := by
  cases n with
  | stopped db =>
    rcases e with (⟨it, judy⟩ | c | _) | ⟨request', replies⟩
    · cases hasked
    all_goals cases h
  | running s =>
    rcases e with (⟨it, judy⟩ | (⟨replies, request'⟩ | _ | ⟨it, judy⟩) | _) | ⟨request', replies⟩
    all_goals cases hasked
    · change Node.query replies s request = some (.response response, n') at h
      unfold Node.query Server.queryImpl at h
      by_cases hdisabled : s.disableS2iQueries = true
      · simp [hop, hdisabled] at h
      · rcases hrounds : Server.rounds replies.judy 0 ⟨s.memoryStorage, s.cnt, [], []⟩
          request.strings with f | l
        · simp only [hop, if_neg hdisabled, hrounds] at h
          cases f <;> cases h
        · rcases hwrite : replies.write with _ | ⟨status, applied⟩
          all_goals
            simp only [hop, if_neg hdisabled, hrounds, hwrite, write] at h
            cases h
          exact ((Server.numbered_nil _ _).rounds hrounds).length_ids
    · simp only [Node.survive] at h
      split at h
      · cases h
      · rename_i steps s' stage hsteps
        have hsent : stage.sent = .response response := (Prod.mk.inj (Option.some.inj h)).1
        cases Server.progress_querySteps hsteps hop with
        | called | locked | looping => cases hsent
        | unwritten _ f _ hstage hstore =>
          rcases hstage with rfl | rfl
          · cases hsent
          · rcases f with e | e | u <;> cases hsent
        | written _ l result _ hstage henabled hran hstore hresult =>
          rcases hstage with rfl | rfl
          · cases hsent
          · rcases result with (e | e | u) | response'
            all_goals cases hsent
            rw [hresult response rfl]
            exact ((Server.numbered_nil _ _).rounds hran).length_ids

theorem recovers_of_survive {e : CrashEvent} (hn : n.Recovers) (he : e.ReadsAll n.store)
    (h : n.survive e = some (o, n')) : n'.Recovers := by
  cases e with
  | served e => exact hn.live he h
  | killed request replies =>
    rintro s' rfl
    cases n with
    | stopped db => cases h
    | running s =>
      simp only [Node.survive] at h
      split at h <;> cases h

end Effects

/-- The stored ids are the first ones, without a gap. -/
def Dense (db : Store) : Prop :=
  ∀ x : Int, (∃ id ∈ db, id.toInt = x) ↔ 1 ≤ x ∧ x ≤ (greatestId db).toInt

namespace Effect

variable {db db' : Store} {told : List (Bytes × NumID)}

/-- The batch stands behind every stored id. -/
theorem free {c : NumID} {strings : List Bytes} {l : Server.Loop}
    (hc : c.toInt = (greatestId db).toInt + 1)
    (hl : Server.Numbered (memoryOf db) c strings l) : ∀ p ∈ l.kvPairs, db[p.key]? = none := by
  intro p hp
  apply ExtTreeMap.getElem?_eq_none
  intro hmem
  have hle := (isGreatest_greatestId db).2 (Or.inr ⟨p.key, hmem, rfl⟩)
  have hkey := hl.key_bounds hp
  omega

theorem grows (h : Effect db told db') : Extends db db' := by
  cases h with
  | still => exact Extends.refl _
  | batch c strings l hc hl told htold => exact extends_putBatch (free hc hl)

theorem keeps (h : Effect db told db') : (numbering db).Keeps (numbering db') := by
  cases h with
  | still => exact PartialNumbering.Keeps.refl _
  | batch c strings l hc hl told htold => exact (answers_putBatch hl (free hc hl)).keeps

theorem numbered (h : Effect db told db') :
    ∀ p ∈ told, (numbering db').number (cstr p.1) = some p.2 := by
  cases h with
  | still => simp
  | batch c strings l hc hl _ htold =>
    rcases htold with rfl | rfl
    · simp
    · intro p hp
      exact (answers_putBatch hl (free hc hl)).answered (cstr p.1, p.2)
        (List.mem_map.mpr ⟨p, hp, rfl⟩)

theorem prefixDistinct (h : Effect db told db') (hdb : PrefixDistinct db) :
    PrefixDistinct db' := by
  cases h with
  | still => exact hdb
  | batch c strings l hc hl told htold => exact prefixDistinct_putBatch hl hdb

theorem dense (h : Effect db told db') (hdb : Dense db) : Dense db' := by
  cases h with
  | still => exact hdb
  | batch c strings l hc hl told htold =>
    intro x
    have hgreatest := greatestId_putBatch hl hc
    have hcnt := hl.cnt
    have hzero := (isGreatest_greatestId db).2 (Or.inl rfl)
    constructor
    · rintro ⟨id, hid, rfl⟩
      rcases (mem_putBatch_iff hl.keys_nodup).mp hid with ⟨p, hp, rfl⟩ | hid
      · have hkey := hl.key_bounds hp
        omega
      · have hold := (hdb id.toInt).mp ⟨id, hid, rfl⟩
        omega
    · rintro ⟨hpos, hle⟩
      by_cases hold : x ≤ (greatestId db).toInt
      · obtain ⟨id, hid, rfl⟩ := (hdb x).mpr ⟨hpos, hold⟩
        exact ⟨id, (mem_putBatch_iff hl.keys_nodup).mpr (Or.inr hid), rfl⟩
      · obtain ⟨p, hp, rfl⟩ := hl.exists_key (x := x) (by omega) (by omega)
        exact ⟨p.key, (mem_putBatch_iff hl.keys_nodup).mpr (Or.inl ⟨p, hp, rfl⟩), rfl⟩

end Effect

/-! ### Whole lives -/

/-- A directory that began with store `db` has come to `n` by the life `tr`. -/
structure Lossless (db : Store) (tr : List (Machine.Record Node CrashEvent Outcome)) (n : Node) :
    Prop where
  grows : Extends db n.store
  stored : ∀ r ∈ tr, ∀ p ∈ r.event.told r.output, Carried n.store p
  agree : ∀ r ∈ tr, ∀ r' ∈ tr, ∀ p ∈ r.event.told r.output, ∀ p' ∈ r'.event.told r'.output,
    cstr p.1 = cstr p'.1 ↔ p.2 = p'.2
  lookups : tr.Pairwise fun q r => ∀ p ∈ q.event.told q.output, ∀ request response,
    r.event.asked = some request → r.output = .response response → request.op = .ID2STR →
      ∀ i : Nat, request.ids[i]? = some p.2 →
        (∃ v, response.strings[i]? = some v ∧ cstr v = cstr p.1) ∧ (i : Int) ∉ response.failures
  distinct : PrefixDistinct db → PrefixDistinct n.store
  dense : Dense db → Dense n.store

/-- A lookup finds what the store carries. -/
theorem Looked.found {db : Store} {request response : Query} (h : Looked db request response)
    {p : Bytes × NumID} (hp : Carried db p) {i : Nat} (hi : request.ids[i]? = some p.2) :
    (∃ v, response.strings[i]? = some v ∧ cstr v = cstr p.1) ∧ (i : Int) ∉ response.failures := by
  obtain ⟨v, hv, hcstr⟩ := hp
  constructor
  · refine ⟨v, ?_, hcstr⟩
    rw [h.strings, List.getElem?_map, hi, Option.map_some, hv, Option.getD_some]
  · rw [h.failures]
    intro hmissing
    obtain ⟨j, k, hj, hk, hnone⟩ := mem_missing.mp hmissing
    have hij : i = j := by
      have hcast : (i : Int) = 0 + (j : Int) := hj
      omega
    rw [← hij, hi] at hk
    cases hk
    rw [hv] at hnone
    cases hnone

theorem carried_of_number {db : Store} {p : Bytes × NumID}
    (h : (numbering db).number (cstr p.1) = some p.2) : Carried db p :=
  mem_memoryOf h

/-- What one numbering says of two pairs agrees. -/
theorem agree_of_number {db : Store} {p p' : Bytes × NumID}
    (h : (numbering db).number (cstr p.1) = some p.2)
    (h' : (numbering db).number (cstr p'.1) = some p'.2) : cstr p.1 = cstr p'.1 ↔ p.2 = p'.2 := by
  constructor
  · intro heq
    rw [heq, h'] at h
    exact (Option.some.inj h).symm
  · intro heq
    rw [← heq] at h'
    exact (numbering db).injective _ _ _ h h'

/-- However often libraries fail and processes are killed, nothing that a client was told is
    lost, and no id is left out. -/
theorem crashes_lossless (db : Store) (events : List CrashEvent)
    (tr : List (Machine.Record Node CrashEvent Outcome)) (n : Node)
    (h : Machine.run Node.survive (.stopped db) events = some (tr, n))
    (hreads : ∀ r ∈ tr, r.event.ReadsAll r.before.store) : Lossless db tr n := by
  have hrecovers : ∀ r : Machine.Record Node CrashEvent Outcome,
      Machine.IsStep Node.survive r → r.event.ReadsAll r.before.store →
        r.before.Recovers → r.after.Recovers :=
    fun _ hr hC hn => recovers_of_survive hn hC hr
  have hstopped : (Node.stopped db).Recovers := fun _ hs => by cases hs
  -- an invariant of the store that every effect keeps holds at the end
  have hstore : ∀ Inv : Store → Prop,
      (∀ db told db', Effect db told db' → Inv db → Inv db') → Inv db → Inv n.store := by
    intro Inv hInv hdb
    exact (Machine.run_invariant (fun r => r.event.ReadsAll r.before.store)
      (fun n => n.Recovers ∧ Inv n.store)
      (fun r hr hC hn => ⟨hrecovers r hr hC hn.1, hInv _ _ _ (effect_of_survive hn.1 hr) hn.2⟩)
      h hreads ⟨hstopped, hdb⟩).1.2
  obtain ⟨hlookups, hnumbered⟩ := Machine.run_pairwise
    (fun r => r.event.ReadsAll r.before.store) Node.Recovers
    (fun q n => ∀ p ∈ q.event.told q.output, (numbering n.store).number (cstr p.1) = some p.2)
    (fun q r => ∀ p ∈ q.event.told q.output, ∀ request response,
      r.event.asked = some request → r.output = .response response → request.op = .ID2STR →
        ∀ i : Nat, request.ids[i]? = some p.2 →
          (∃ v, response.strings[i]? = some v ∧ cstr v = cstr p.1) ∧
            (i : Int) ∉ response.failures)
    hrecovers (fun r hr _ hn => (effect_of_survive hn hr).numbered)
    (fun _ r hr _ hn hq p hp => (effect_of_survive hn hr).keeps (cstr p.1) p.2 (hq p hp))
    (by
      rintro q ⟨before, e, o, after⟩ hr - hn hq p hp request response hasked rfl hop i hi
      exact (looked_of_survive hr hasked hop).found (carried_of_number (hq p hp)) hi)
    h hreads hstopped
  refine ⟨?_, ?_, ?_, hlookups, ?_, ?_⟩
  · exact hstore (fun db' => Extends db db')
      (fun _ _ _ heffect hdb k v hv => heffect.grows k v (hdb k v hv)) (Extends.refl db)
  · exact fun r hr p hp => carried_of_number (hnumbered r hr p hp)
  · intro r hr r' hr' p hp p' hp'
    exact agree_of_number (hnumbered r hr p hp) (hnumbered r' hr' p' hp')
  · exact fun hdb => hstore PrefixDistinct (fun _ _ _ heffect => heffect.prefixDistinct) hdb
  · exact fun hdb => hstore Dense (fun _ _ _ heffect => heffect.dense) hdb

/-- A process dies in the loop, the write of the next one fails after it has taken place, and
    the third one is killed after its answer. -/
def crashingLife : List CrashEvent :=
  let afterWrite : Store := (∅ : Store).insert 1 [98]
  [.served (.start (newIterator ∅) fun _ => {}),
    .killed { op := .STR2ID, strings := [[97], [98]] } [{}, {}, {}],
    .served (.start (newIterator ∅) fun _ => {}),
    .served (.call (.query { write := .failed "IO error" true }
      { op := .STR2ID, strings := [[98]] })),
    .served (.start (newIterator afterWrite) fun _ => {}),
    .killed { op := .STR2ID, strings := [[98], [97]] } [{}, {}, {}, {}, {}, {}],
    .served (.start (newIterator (afterWrite.insert 2 [97])) fun _ => {}),
    .served (.call (.query {} { op := .ID2STR, ids := [2, 1] }))]

theorem crashes_lossless_life :
    ∃ tr n, Machine.run Node.survive (.stopped ∅) crashingLife = some (tr, n) ∧
      tr.map Machine.Record.output =
        [.done, .exited, .done, .exited, .done, .response { op := .STR2ID, ids := [1, 2] },
          .done, .response { op := .ID2STR, strings := [[97], [98]] }] ∧
      Lossless ∅ tr n := by
  have hrun : (Machine.run Node.survive (.stopped ∅) crashingLife).map
      (fun p => (p.1.map Machine.Record.output,
        decide (∀ r ∈ p.1, r.event.ReadsAll r.before.store))) =
      some ([.done, .exited, .done, .exited, .done, .response { op := .STR2ID, ids := [1, 2] },
        .done, .response { op := .ID2STR, strings := [[97], [98]] }], true) := by
    decide
  obtain ⟨⟨tr, n⟩, h, hend⟩ := Option.map_eq_some_iff.mp hrun
  obtain ⟨houtputs, hreads⟩ := Prod.mk.inj hend
  exact ⟨tr, n, h, houtputs, crashes_lossless ∅ _ tr n h (of_decide_eq_true hreads)⟩

end Numerator
