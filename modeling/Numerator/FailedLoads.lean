import Numerator.Coupling
import Numerator.Iteration

/-!
# Loads that fail

A failed `enable_s2i` leaves the entries that it has inserted in the memory map,
and nothing removes them while the service is disabled. They are harmless: their
keys are those of stored strings, and a load that succeeds writes every such key
again, so it gives the same map as from an empty one.
-/

namespace Numerator

open Std FiniteMap DiskStorage

/-! ### The life of a directory with failing libraries -/

inductive ServedEvent where
  | start (it : Iterator) (judy : Nat → JudyReply)
  | call (c : ServedCall)
  | stop

/-- Processes are started without `--disable-s2i`, and any library call may fail. -/
def Node.live : Node → ServedEvent → Option (Outcome × Node)
  | .stopped db, .start it judy => start it judy db false
  | .running s, .call c => (Node.running s).serve c
  | .running s, .stop => some (.done, .stopped s.diskStorage)
  | n, _ => some (.ignored, n)

/-- A load in this call comes to the end of the database unless it throws. -/
def ServedCall.ReadsAll (db : Store) : ServedCall → Prop
  | .enableS2i it _ => it.entries = db.toList
  | _ => True

def ServedEvent.ReadsAll (db : Store) : ServedEvent → Prop
  | .start it _ => it.entries = db.toList
  | .call c => c.ReadsAll db
  | .stop => True

instance (db : Store) : DecidablePred (ServedEvent.ReadsAll db)
  | .start it _ | .call (.enableS2i it _) => inferInstanceAs (Decidable (it.entries = db.toList))
  | .call (.query _ _) | .call .disableS2i | .stop => isTrue trivial

/-! ### What failed loads leave behind -/

/-- Only C strings of stored strings are in memory. -/
def Leftover (db : Store) (m : MemoryStorage) : Prop := ∀ k ∈ m, k ∈ memoryOf db

theorem leftover_empty (db : Store) : Leftover db ∅ := by
  intro k hk
  simp at hk

/-- A whole load makes no difference between a leftover and an empty map. -/
theorem Leftover.insertAll_toList {db : Store} {m : MemoryStorage} (h : Leftover db m) :
    insertAll m db.toList = memoryOf db := by
  apply putAll_eq_putAll_empty
  intro k hk
  obtain ⟨id, v, hv, hcstr⟩ := mem_memoryOf_iff.mp (h k hk)
  exact ⟨(id, v), ExtTreeMap.mem_toList_iff_getElem?_eq_some.mpr hv, hcstr⟩

theorem Leftover.insertAll {db : Store} {m : MemoryStorage} {entries : List (NumID × Bytes)}
    (h : Leftover db m) (hentries : ∀ p ∈ entries, p ∈ db.toList) :
    Leftover db (DiskStorage.insertAll m entries) := by
  intro k hk
  obtain ⟨id, hid⟩ := Option.isSome_iff_exists.mp (ExtTreeMap.mem_iff_isSome_getElem?.mp hk)
  rcases getElem?_putAll_cases hid with ⟨p, hp, rfl, -⟩ | hold
  · exact mem_memoryOf_iff.mpr
      ⟨p.1, p.2, ExtTreeMap.mem_toList_iff_getElem?_eq_some.mp (hentries p hp), rfl⟩
  · apply h k
    rw [ExtTreeMap.mem_iff_isSome_getElem?, hold]
    rfl

section Load

variable {it : Iterator} {judy : Nat → JudyReply} {db : Store} {m m' : MemoryStorage}

/-- Whether or not a load fails, what it leaves is a leftover. -/
theorem Leftover.loadInMemory {result : Except Fault (NumID × Nat)} (h : Leftover db m)
    (hentries : it.entries <+: db.toList)
    (hload : DiskStorage.loadInMemory it judy m = (m', result)) : Leftover db m' := by
  obtain ⟨n, hn⟩ := loadLoop_storage it.status judy ⟨m, 0, 0⟩ it.entries
  have hstorage : m' = DiskStorage.insertAll m (it.entries.take n) := by
    rw [← hn]
    unfold DiskStorage.loadInMemory at hload
    split at hload
    · rename_i hloop
      cases hload
      rw [hloop]
    · rename_i hloop
      cases hload
      rw [hloop]
  rw [hstorage]
  exact h.insertAll fun p hp => hentries.subset (List.mem_of_mem_take hp)

/-- A load that succeeds gives what the store determines. -/
theorem Leftover.loadInMemory_ok {maxId : NumID} {loaded : Nat} (h : Leftover db m)
    (hentries : it.entries = db.toList)
    (hload : DiskStorage.loadInMemory it judy m = (m', .ok (maxId, loaded))) :
    m' = memoryOf db ∧ maxId = greatestId db := by
  unfold DiskStorage.loadInMemory at hload
  split at hload
  · rename_i l hloop
    cases hload
    have hl := loadLoop_ok hloop
    rw [hl, hentries]
    exact ⟨h.insertAll_toList, rfl⟩
  · cases hload

end Load

/-! ### Processes that may have failed loads behind them -/

/-- The process is coupled, up to the leftover of failed loads. -/
structure Server.Recovers (s : Server) : Prop where
  enabled : s.disableS2iQueries = false → s.memoryStorage = memoryOf s.diskStorage
  disabled : s.disableS2iQueries = true → Leftover s.diskStorage s.memoryStorage
  counter : s.cnt.toInt = (greatestId s.diskStorage).toInt + 1

namespace Node

variable {s s' : Server} {it : Iterator} {judy : Nat → JudyReply} {replies : Replies}
variable {request : Query} {o : Outcome}

/-- What a query can do to a process that it does not end. -/
theorem query_cases (h : query replies s request = some (o, .running s')) :
    s' = s ∨ s.disableS2iQueries = false ∧ ∃ l,
      Server.rounds replies.judy 0 ⟨s.memoryStorage, s.cnt, [], []⟩ request.strings = .ok l ∧
        s' = ⟨putBatch s.diskStorage l.kvPairs, l.memoryStorage, l.cnt, false⟩ := by
  rcases hop : request.op with _ | _ | code
  · by_cases hdisabled : s.disableS2iQueries = true
    · simp only [query, Server.queryImpl, hop, hdisabled, if_true, Option.some.injEq,
        Prod.mk.injEq, running.injEq] at h
      exact Or.inl h.2.symm
    · rw [Bool.not_eq_true] at hdisabled
      rcases hrounds : Server.rounds replies.judy 0 ⟨s.memoryStorage, s.cnt, [], []⟩
        request.strings with f | l
      · cases f with
        | numeratorException e =>
          simp only [query, Server.queryImpl, hop, hdisabled, hrounds, Bool.false_eq_true,
            if_false, Option.some.injEq, Prod.mk.injEq, running.injEq] at h
          exact Or.inl h.2.symm
        | exc e | undefined u =>
          simp [query, Server.queryImpl, hop, hdisabled, hrounds] at h
      · rcases hwrite : replies.write with _ | ⟨status, applied⟩
        · simp only [query, Server.queryImpl, hop, hdisabled, hrounds, hwrite, DiskStorage.write,
            Bool.false_eq_true, if_false, Option.some.injEq, Prod.mk.injEq, running.injEq] at h
          exact Or.inr ⟨hdisabled, l, rfl, h.2.symm⟩
        · -- a failing write ends the process
          simp [query, Server.queryImpl, hop, hdisabled, hrounds, hwrite, DiskStorage.write] at h
  · left
    rcases hlookup : lookup replies.get s.diskStorage request.ids [] [] with f | ⟨values, failures⟩
    · cases f with
      | numeratorException e =>
        simp only [query, Server.queryImpl, hop, hlookup, Option.some.injEq, Prod.mk.injEq,
          running.injEq] at h
        exact h.2.symm
      | exc e | undefined u => simp [query, Server.queryImpl, hop, hlookup] at h
    · simp only [query, Server.queryImpl, hop, hlookup, Option.some.injEq, Prod.mk.injEq,
        running.injEq] at h
      exact h.2.symm
  · simp only [query, Server.queryImpl, hop, Option.some.injEq, Prod.mk.injEq,
      running.injEq] at h
    exact Or.inl h.2.symm

/-- What `enable_s2i` can do to a process that it does not end. -/
theorem enable_cases (h : enable it judy s = some (o, .running s')) :
    (s.disableS2iQueries = false ∧ s' = s ∧ o = .done) ∨
    s.disableS2iQueries = true ∧ ∃ storage result,
      loadInMemory it judy s.memoryStorage = (storage, result) ∧
        ((∃ f, result = .error f ∧ s' = { s with memoryStorage := storage } ∧ o ≠ .done) ∨
          ∃ p, result = .ok p ∧ o = .done ∧
            s' = { s with memoryStorage := storage, disableS2iQueries := false }) := by
  by_cases hdisabled : s.disableS2iQueries = true
  · right
    refine ⟨hdisabled, ?_⟩
    rcases hload : loadInMemory it judy s.memoryStorage with ⟨storage, f | p⟩
    · refine ⟨storage, .error f, rfl, Or.inl ⟨f, rfl, ?_⟩⟩
      cases f with
      | exc e | numeratorException e =>
        simp only [enable, Server.enableS2i, if_pos hdisabled, hload, Option.some.injEq,
          Prod.mk.injEq, running.injEq] at h
        exact ⟨h.2.symm, by simp [← h.1]⟩
      | undefined u => simp [enable, Server.enableS2i, hdisabled, hload] at h
    · refine ⟨storage, .ok p, rfl, Or.inr ⟨p, rfl, ?_⟩⟩
      simp only [enable, Server.enableS2i, hdisabled, if_true, hload, Option.some.injEq,
        Prod.mk.injEq, running.injEq] at h
      exact ⟨h.1.symm, h.2.symm⟩
  · rw [Bool.not_eq_true] at hdisabled
    simp only [enable, Server.enableS2i, hdisabled, Bool.false_eq_true, if_false,
      Option.some.injEq, Prod.mk.injEq, running.injEq] at h
    exact Or.inl ⟨hdisabled, h.2.symm, h.1.symm⟩

end Node

namespace Server.Recovers

variable {s s' : Server} {it : Iterator} {judy : Nat → JudyReply} {replies : Replies}
variable {request : Query} {o : Outcome}

theorem coupled (h : s.Recovers) (henabled : s.disableS2iQueries = false) : s.Coupled where
  memory := by rw [Loaded, henabled, h.enabled henabled]; rfl
  counter := h.counter

theorem start {db : Store} (hentries : it.entries = db.toList)
    (h : Node.start it judy db false = some (o, .running s)) : s.Recovers := by
  simp only [Node.start, Bool.false_eq_true, if_false] at h
  split at h
  · cases h
  · cases h
  · rename_i storage maxId loaded hload
    obtain ⟨hstorage, hmax⟩ := (leftover_empty db).loadInMemory_ok hentries hload
    split at h
    · cases h
    · rename_i cnt hcnt
      cases h
      refine ⟨fun _ => hstorage, fun hdisabled => (by cases hdisabled), ?_⟩
      rw [← hmax]
      exact NumID.increment_eq_ok.mp hcnt

theorem query (h : s.Recovers) (hquery : Node.query replies s request = some (o, .running s')) :
    s'.Recovers := by
  rcases Node.query_cases hquery with rfl | ⟨henabled, l, hrounds, rfl⟩
  · exact h
  · have hs := h.coupled henabled
    have hl := hs.memory.numbered henabled hrounds
    exact ⟨fun _ => (memoryOf_putBatch hl (hs.free henabled hl)).symm,
      fun hdisabled => (by cases hdisabled), greatestId_putBatch hl h.counter⟩

theorem disableS2i (h : s.Recovers) : s.disableS2i.Recovers := by
  unfold Server.disableS2i
  split
  · exact h
  · exact ⟨fun henabled => (by cases henabled), fun _ => leftover_empty _, h.counter⟩

theorem enable (h : s.Recovers) (hentries : it.entries = s.diskStorage.toList)
    (henable : Node.enable it judy s = some (o, .running s')) : s'.Recovers := by
  rcases Node.enable_cases henable with ⟨-, rfl, -⟩ | ⟨hdisabled, storage, result, hload, hcases⟩
  · exact h
  · have hleftover := h.disabled hdisabled
    rcases hcases with ⟨f, rfl, rfl, -⟩ | ⟨⟨maxId, loaded⟩, rfl, -, rfl⟩
    · refine ⟨fun henabled => ?_, fun _ => ?_, h.counter⟩
      · rw [hdisabled] at henabled
        cases henabled
      · exact hleftover.loadInMemory (by rw [hentries]) hload
    · exact ⟨fun _ => (hleftover.loadInMemory_ok hentries hload).1,
        fun hd => (by cases hd), h.counter⟩

end Server.Recovers

/-- The process of the directory, if there is one, recovers. -/
def Node.Recovers (n : Node) : Prop := ∀ s, n = .running s → s.Recovers

theorem Node.Recovers.live {n n' : Node} {e : ServedEvent} {o : Outcome} (h : n.Recovers)
    (he : e.ReadsAll n.store) (hlive : n.live e = some (o, n')) : n'.Recovers := by
  rintro s' rfl
  cases n with
  | stopped db =>
    cases e with
    | start it judy => exact Server.Recovers.start he hlive
    | call _ | stop => cases hlive
  | running s =>
    have hs : s.Recovers := h s rfl
    cases e with
    | start it judy =>
      cases hlive
      exact hs
    | call c =>
      cases c with
      | query replies request => exact hs.query hlive
      | disableS2i =>
        cases hlive
        exact hs.disableS2i
      | enableS2i it judy => exact hs.enable he hlive
    | stop => cases hlive

theorem recovers_of_run {db : Store} {events : List ServedEvent} {n : Node}
    {tr : List (Machine.Record Node ServedEvent Outcome)}
    (h : Machine.run Node.live (.stopped db) events = some (tr, n))
    (hreads : ∀ r ∈ tr, r.event.ReadsAll r.before.store) : n.Recovers :=
  (Machine.run_invariant (fun r => r.event.ReadsAll r.before.store) Node.Recovers
    (fun _ hr he hn => hn.live he hr) h hreads (fun _ h => by cases h)).1

/-! ### A disabled process and failing attempts to enable it -/

/-- A query that LevelDB answers, `disable_s2i`, or an `enable_s2i` that ends with an
    exception behind some of the entries. -/
inductive Unsuccessful (db : Store) : ServedCall → Outcome → Prop where
  | query (replies : Replies) (request : Query) (o : Outcome)
      (hget : ∀ n, replies.get n = none) : Unsuccessful db (.query replies request) o
  | disableS2i (o : Outcome) : Unsuccessful db .disableS2i o
  | enableS2i (it : Iterator) (judy : Nat → JudyReply) (e : Exc)
      (hentries : it.entries <+: db.toList) : Unsuccessful db (.enableS2i it judy) (.failed e)

/-- Process `s` with other things in memory. -/
def Server.withMemory (s : Server) (m : MemoryStorage) : Server := { s with memoryStorage := m }

namespace Server

variable {s t : Server} {m : MemoryStorage}

/-- A disabled process does not look into memory. -/
theorem query_withMemory (hdisabled : s.disableS2iQueries = true) (replies : Replies)
    (request : Query) : (Node.query replies (s.withMemory m) request).map Prod.fst =
      (Node.query replies s request).map Prod.fst := by
  rcases hop : request.op with _ | _ | code
  · simp [Node.query, queryImpl, withMemory, hop, hdisabled]
  · rcases hlookup : lookup replies.get s.diskStorage request.ids [] [] with f | ⟨values, failures⟩
    · cases f <;> simp [Node.query, queryImpl, withMemory, hop, hlookup]
    · simp [Node.query, queryImpl, withMemory, hop, hlookup]
  · simp [Node.query, queryImpl, withMemory, hop]

theorem query_disabled (hdisabled : s.disableS2iQueries = true) {replies : Replies}
    (hget : ∀ n, replies.get n = none) (request : Query) :
    ∃ o, Node.query replies s request = some (o, .running s) := by
  have hlookup : replies.get = fun _ => none := funext hget
  rcases hop : request.op with _ | _ | code
  · exact ⟨.refused s2iDisabled, by simp [Node.query, queryImpl, hop, hdisabled]⟩
  · simp only [Node.query, queryImpl, hop, hlookup, lookup_eq]
    exact ⟨_, rfl⟩
  · simp only [Node.query, queryImpl, hop]
    exact ⟨_, rfl⟩

/-- An attempt changes nothing but the leftover in memory. -/
theorem serve_unsuccessful {c : ServedCall} {o : Outcome} {n : Node}
    (hdisabled : s.disableS2iQueries = true) (hm : Leftover s.diskStorage m)
    (hc : Unsuccessful s.diskStorage c o)
    (hserve : (Node.running (s.withMemory m)).serve c = some (o, n)) :
    ∃ m', n = .running (s.withMemory m') ∧ Leftover s.diskStorage m' := by
  cases hc with
  | query replies request _ hget =>
    obtain ⟨o', ho'⟩ := query_disabled (s := s.withMemory m) hdisabled hget request
    change Node.query replies (s.withMemory m) request = some (o, n) at hserve
    rw [ho'] at hserve
    cases hserve
    exact ⟨m, rfl, hm⟩
  | disableS2i _ =>
    have hsame : (s.withMemory m).disableS2i = s.withMemory m := if_pos hdisabled
    simp only [Node.serve, hsame, Option.some.injEq, Prod.mk.injEq] at hserve
    exact ⟨m, hserve.2.symm, hm⟩
  | enableS2i it judy e hentries =>
    change Node.enable it judy (s.withMemory m) = some (.failed e, n) at hserve
    obtain ⟨t, rfl⟩ : ∃ t, n = .running t := by
      unfold Node.enable at hserve
      split at hserve <;> cases hserve
      exact ⟨_, rfl⟩
    rcases Node.enable_cases hserve with ⟨-, -, ho⟩ | ⟨-, storage, result, hload, hcases⟩
    · cases ho
    · rcases hcases with ⟨f, -, rfl, -⟩ | ⟨p, -, ho, -⟩
      · exact ⟨storage, rfl, hm.loadInMemory hentries hload⟩
      · cases ho

/-- Success over a leftover gives what the store determines. -/
theorem enable_withMemory (hdisabled : s.disableS2iQueries = true)
    (hm : Leftover s.diskStorage m) {it : Iterator} {judy : Nat → JudyReply}
    (hentries : it.entries = s.diskStorage.toList)
    (henable : Node.enable it judy (s.withMemory m) = some (.done, .running t)) :
    t = ⟨s.diskStorage, memoryOf s.diskStorage, s.cnt, false⟩ := by
  rcases Node.enable_cases henable with ⟨henabled, -, -⟩ | ⟨-, storage, result, hload, hcases⟩
  · cases hdisabled.symm.trans henabled
  · rcases hcases with ⟨f, -, -, ho⟩ | ⟨⟨maxId, loaded⟩, rfl, -, rfl⟩
    · exact absurd rfl ho
    · rw [(hm.loadInMemory_ok hentries hload).1]
      rfl

end Server

/-- The calls were made to the disabled process `s` and ended in `n`: they have changed its
    memory at most, no answer depends on that, and the next load that succeeds leaves what a
    single one leaves. -/
structure Harmless (s : Server) (tr : List (Machine.Record Node ServedCall Outcome)) (n : Node) :
    Prop where
  state : ∃ m, n = .running (s.withMemory m)
  answers : ∀ r ∈ tr, ∀ (replies : Replies) (request : Query), r.event = .query replies request →
    (Node.query replies s request).map Prod.fst = some r.output
  later : ∀ t, n = .running t → ∀ (replies : Replies) (request : Query),
    (Node.query replies t request).map Prod.fst = (Node.query replies s request).map Prod.fst
  recovery : ∀ t, n = .running t → ∀ (it : Iterator) (judy : Nat → JudyReply) (t' : Server),
    it.entries = s.diskStorage.toList → Node.enable it judy t = some (.done, .running t') →
      t' = ⟨s.diskStorage, memoryOf s.diskStorage, s.cnt, false⟩ ∧
      Node.enable (newIterator s.diskStorage) (fun _ => {}) s = some (.done, .running t')

/-- Whatever failures have led to a disabled process, more of them do it no harm. -/
theorem failed_enable_harmless (db : Store) (events : List ServedEvent)
    (tr : List (Machine.Record Node ServedEvent Outcome)) (s : Server)
    (h : Machine.run Node.live (.stopped db) events = some (tr, .running s))
    (hreads : ∀ r ∈ tr, r.event.ReadsAll r.before.store)
    (hdisabled : s.disableS2iQueries = true) (calls : List ServedCall)
    (tr' : List (Machine.Record Node ServedCall Outcome)) (n : Node)
    (hcalls : Machine.run Node.serve (.running s) calls = some (tr', n))
    (hfail : ∀ r ∈ tr', Unsuccessful s.diskStorage r.event r.output) : Harmless s tr' n := by
  have hs : Leftover s.diskStorage s.memoryStorage :=
    (recovers_of_run h hreads s rfl).disabled hdisabled
  obtain ⟨⟨m, hn, hm⟩, htr⟩ := Machine.run_invariant
    (fun r => Unsuccessful s.diskStorage r.event r.output)
    (fun n => ∃ m, n = .running (s.withMemory m) ∧ Leftover s.diskStorage m)
    (by
      rintro r hr hc ⟨m, hbefore, hm⟩
      rw [Machine.IsStep, hbefore] at hr
      exact Server.serve_unsuccessful hdisabled hm hc hr)
    hcalls hfail ⟨s.memoryStorage, rfl, hs⟩
  refine ⟨⟨m, hn⟩, ?_, ?_, ?_⟩
  · intro r hr replies request hevent
    obtain ⟨m', hbefore, -⟩ := (htr r hr).1
    have hstep := Machine.isStep_of_run hcalls r hr
    rw [Machine.IsStep, hbefore, hevent] at hstep
    rw [← Server.query_withMemory (m := m') hdisabled]
    exact congrArg (Option.map Prod.fst) hstep
  · rintro t ht replies request
    rw [hn] at ht
    cases ht
    exact Server.query_withMemory hdisabled replies request
  · rintro t ht it judy t' hentries henable
    rw [hn] at ht
    cases ht
    have ht' := Server.enable_withMemory hdisabled hm hentries henable
    refine ⟨ht', ?_⟩
    simp only [Node.enable, Server.enableS2i, hdisabled, if_true, loadInMemory_newIterator,
      hs.insertAll_toList, ht']

/-- Two strings, one of them under two ids. Of the three entries that a load inserts the first
    load that fails has inserted one, and the second one two. -/
theorem failed_enable_harmless_twice :
    let db : Store := (((∅ : Store).insert 5 [97]).insert 6 [98]).insert (-3) [97]
    let s : Server := ⟨db, ∅, 7, true⟩
    let calls : List ServedCall :=
      [.enableS2i ⟨db.toList, fun n => if n = 1 then some "IO error" else none⟩ (fun _ => {}),
        .query {} { op := .ID2STR, ids := [6, 7] },
        .enableS2i (newIterator db) (fun n => if n = 2 then { get := some 1 } else {})]
    ∃ tr, Machine.run Node.serve (.running s) calls =
        some (tr, .running (s.withMemory
          (ExtTreeMap.insert (ExtTreeMap.insert ∅ (cstr [97]) 5) (cstr [98]) 6))) ∧
      Harmless s tr (.running (s.withMemory
        (ExtTreeMap.insert (ExtTreeMap.insert ∅ (cstr [97]) 5) (cstr [98]) 6))) := by
  intro db s calls
  have hreached : (Machine.run Node.live (.stopped db)
      [.start (newIterator db) (fun _ => {}), .call .disableS2i]).map
        (fun p => (p.2, decide (∀ r ∈ p.1, r.event.ReadsAll r.before.store))) =
          some (.running s, true) := by
    decide
  have hserved : (Machine.run Node.serve (.running s) calls).map
      (fun p => (p.2, p.1.map Machine.Record.output)) = some (.running (s.withMemory
        (ExtTreeMap.insert (ExtTreeMap.insert ∅ (cstr [97]) 5) (cstr [98]) 6)),
        [.failed (.iteration "IO error"),
          .response { op := .ID2STR, strings := [[98], []], failures := [1] },
          .failed (.memoryOperation 1)]) := by
    decide
  obtain ⟨⟨tr, n⟩, h, hn⟩ := Option.map_eq_some_iff.mp hreached
  obtain ⟨⟨tr', n'⟩, h', hn'⟩ := Option.map_eq_some_iff.mp hserved
  simp only [Prod.mk.injEq, decide_eq_true_eq] at hn hn'
  obtain ⟨rfl, hreads⟩ := hn
  obtain ⟨rfl, houtputs⟩ := hn'
  refine ⟨tr', h', failed_enable_harmless db _ tr s h hreads rfl calls tr' _ h' ?_⟩
  intro r hr
  have hmem : (r.event, r.output) ∈
      (tr'.map Machine.Record.event).zip (tr'.map Machine.Record.output) := by
    rw [List.zip_map']
    exact List.mem_map_of_mem (f := fun r => (r.event, r.output)) hr
  rw [Machine.map_event_of_run h', houtputs] at hmem
  simp only [calls, List.zip_cons_cons, List.zip_nil_left, List.mem_cons, Prod.mk.injEq,
    List.not_mem_nil, or_false] at hmem
  rcases hmem with ⟨hevent, houtput⟩ | ⟨hevent, houtput⟩ | ⟨hevent, houtput⟩
  · rw [hevent, houtput]
    exact .enableS2i _ _ _ (List.prefix_refl _)
  · rw [hevent, houtput]
    exact .query _ _ _ fun _ => rfl
  · rw [hevent, houtput]
    exact .enableS2i _ _ _ (List.prefix_refl _)

end Numerator
