import Numerator.Batching
import Numerator.QuerySteps
import Numerator.Refinement

/-!
# STR2ID when the process may die

During the loop memory and counter run ahead of the store; one write brings the
store up to them. Wherever the process dies, the store is the one before the
request or the one after it, and no answer has been sent in the former case. So
ids that were lost with the process were told to nobody, and ids that a client
knows are in the store that the next process loads.
-/

namespace Numerator

open Std FiniteMap DiskStorage

namespace Server

/-! ### How far the steps have come -/

/-- The loop of a request that starts in this process, over the strings `done`. -/
def Ran (s : Server) (done : List Bytes) (l : Loop) : Prop :=
  rounds (fun _ => {}) 0 ⟨s.memoryStorage, s.cnt, [], []⟩ done = .ok l

/-- The places that the steps of a STR2ID request from process `s₀` can reach. -/
inductive Progress (s₀ : Server) (strings : List Bytes) : Server → Stage → Prop where
  | called : Progress s₀ strings s₀ .called
  | locked : Progress s₀ strings s₀ .locked
  | looping (henabled : s₀.disableS2iQueries = false) (done todo : List Bytes) (l : Loop)
      (hsplit : done ++ todo = strings) (hran : s₀.Ran done l) :
      Progress s₀ strings { s₀ with memoryStorage := l.memoryStorage, cnt := l.cnt }
        (.numbering todo l.kvPairs l.ids)
  | unwritten (s : Server) (f : Fault) (stage : Stage)
      (hstage : stage = .finished (.error f) ∨ stage = .returned (.error f))
      (hstore : s.diskStorage = s₀.diskStorage) : Progress s₀ strings s stage
  | written (s : Server) (l : Loop) (result : Except Fault Query) (stage : Stage)
      (hstage : stage = .finished result ∨ stage = .returned result)
      (henabled : s₀.disableS2iQueries = false) (hran : s₀.Ran strings l)
      (hstore : s.diskStorage = putBatch s₀.diskStorage l.kvPairs)
      (hresult : ∀ response, result = .ok response → response = { op := .STR2ID, ids := l.ids }) :
      Progress s₀ strings s stage

theorem round_of_ok {reply : JudyReply} {l l' : Loop} {str : Bytes}
    (h : round reply l str = .ok l') : round {} l str = .ok l' := by
  unfold round at h ⊢
  rcases hfind : MemoryStorage.find reply l.memoryStorage str l.cnt with f | r
  · simp [hfind] at h
  · rw [hfind] at h
    rw [MemoryStorage.find_of_ok hfind]
    exact h

theorem Ran.concat {s : Server} {done : List Bytes} {l l' : Loop} {reply : JudyReply}
    {str : Bytes} (h : s.Ran done l) (hround : round reply l str = .ok l') :
    s.Ran (done ++ [str]) l' := by
  unfold Ran at h ⊢
  rw [rounds_append, h]
  simp only [Except.bind, rounds, round_of_ok hround]

theorem Progress.step {s₀ s s' : Server} {request : Query} {stage stage' : Stage}
    {reply : StepReply} (h : Progress s₀ request.strings s stage) (hop : request.op = .STR2ID)
    (hstep : stepQuery reply request s stage = some (s', stage')) :
    Progress s₀ request.strings s' stage' := by
  cases h with
  | called =>
    cases hstep
    exact .locked
  | locked =>
    simp only [stepQuery, hop] at hstep
    split at hstep
    · cases hstep
      exact .unwritten _ _ _ (Or.inl rfl) rfl
    · rename_i henabled
      cases hstep
      exact .looping (by simpa using henabled) [] request.strings
        ⟨s₀.memoryStorage, s₀.cnt, [], []⟩ rfl rfl
  | looping henabled done todo l hsplit hran =>
    cases todo with
    | nil =>
      rw [List.append_nil] at hsplit
      subst hsplit
      rcases hwrite : reply.write with _ | ⟨status, applied⟩
      · simp only [stepQuery, hwrite, write, hop, Option.some.injEq, Prod.mk.injEq] at hstep
        obtain ⟨rfl, rfl⟩ := hstep
        refine .written _ l _ _ (Or.inl rfl) henabled hran rfl ?_
        rintro response ⟨⟩
        rfl
      · -- a failing write is as atomic as one that succeeds
        simp only [stepQuery, hwrite, write, Option.some.injEq, Prod.mk.injEq] at hstep
        obtain ⟨rfl, rfl⟩ := hstep
        cases applied with
        | true =>
          refine .written _ l _ _ (Or.inl rfl) henabled hran rfl ?_
          rintro response ⟨⟩
        | false => exact .unwritten _ _ _ (Or.inl rfl) rfl
    | cons str todo =>
      simp only [stepQuery] at hstep
      rcases hround : round reply.judy ⟨l.memoryStorage, l.cnt, l.kvPairs, l.ids⟩ str with f | l'
      · rw [hround] at hstep
        cases f with
        | undefined u => cases hstep
        | exc e | numeratorException e =>
          cases hstep
          exact .unwritten _ _ _ (Or.inl rfl) rfl
      · rw [hround] at hstep
        cases hstep
        exact .looping henabled (done ++ [str]) todo l' (by simpa using hsplit)
          (hran.concat hround)
  | unwritten s f stage hstage hstore =>
    rcases hstage with rfl | rfl
    · cases hstep
      exact .unwritten _ f _ (Or.inr rfl) hstore
    · cases hstep
  | written s l result stage hstage henabled hran hstore hresult =>
    rcases hstage with rfl | rfl
    · cases hstep
      exact .written _ l result _ (Or.inr rfl) henabled hran hstore hresult
    · cases hstep

theorem progress_querySteps {s₀ s : Server} {request : Query} {replies : List StepReply}
    {stage : Stage} {tr : List (Machine.Record (Server × Stage) StepReply Unit)}
    (h : querySteps request (s₀, .called) replies = some (tr, (s, stage)))
    (hop : request.op = .STR2ID) : Progress s₀ request.strings s stage := by
  refine (Machine.run_invariant (fun _ => True)
    (fun p => Progress s₀ request.strings p.1 p.2) ?_ h (fun _ _ => trivial) .called).1
  intro r hr _ hbefore
  obtain ⟨p, hp, hafter⟩ := Option.map_eq_some_iff.mp hr
  cases hafter
  exact hbefore.step hop hp

end Server

/-! ### What is left behind -/

/-- The answers that clients have seen: those of the history, and the one to the request if
    it has returned. -/
def acknowledged (tr : List (Machine.Record Node Event Outcome)) (request : Query) :
    Stage → List (Bytes × NumID)
  | .returned (.ok response) =>
      tr.flatMap (fun r => answered r.event r.output) ++
        answered (.query request) (.response response)
  | _ => tr.flatMap fun r => answered r.event r.output

/-- Process `s`, reached by the history `tr`, has begun to serve the request, and has come
    to process `s'` at `stage` when it dies. -/
structure Durable (tr : List (Machine.Record Node Event Outcome)) (s : Server) (request : Query)
    (s' : Server) (stage : Stage) : Prop where
  atomic : s'.diskStorage = s.diskStorage ∨
    ∃ l, s.Ran request.strings l ∧ (∀ p ∈ l.kvPairs, s.diskStorage[p.key]? = none) ∧
      s'.diskStorage = putBatch s.diskStorage l.kvPairs
  stored : ∀ response, stage = .returned (.ok response) →
    ∀ id ∈ response.ids, id ∈ s'.diskStorage
  reserved : ∀ (later : List Event) (tr' : List (Machine.Record Node Event Outcome)) (n : Node),
    (∀ e ∈ later, e ≠ .start true) →
    history (.stopped s'.diskStorage) (.start false :: later) = some (tr', n) →
    ∀ p ∈ acknowledged tr request stage, ∀ r ∈ tr', ∀ p' ∈ answered r.event r.output,
      p'.2 = p.2 → cstr p'.1 = cstr p.1

section

variable {s₀ s : Server} {request : Query} {stage : Stage}

/-- The write takes the numbering of the old store to one that answers the request. -/
theorem Server.Progress.keeps (h : Server.Progress s₀ request.strings s stage)
    (hs : s₀.Coupled) : (numbering s₀.diskStorage).Keeps (numbering s.diskStorage) := by
  cases h with
  | called | locked | looping => exact PartialNumbering.Keeps.refl _
  | unwritten _ f _ hstage hstore =>
    rw [hstore]
    exact PartialNumbering.Keeps.refl _
  | written _ l result _ hstage henabled hran hstore hresult =>
    have hl := hs.memory.numbered henabled hran
    rw [hstore]
    exact (answers_putBatch hl (hs.free henabled hl)).keeps

/-- A returned response is the answer of the loop, and the written store numbers it. -/
theorem Server.Progress.returned {response : Query}
    (h : Server.Progress s₀ request.strings s (.returned (.ok response))) (hs : s₀.Coupled) :
    response.ids.length = request.strings.length ∧
      ∀ p ∈ request.strings.zip response.ids,
        (numbering s.diskStorage).number (cstr p.1) = some p.2 := by
  cases h with
  | unwritten _ f _ hstage hstore => rcases hstage with hstage | hstage <;> cases hstage
  | written _ l result _ hstage henabled hran hstore hresult =>
    rcases hstage with hstage | hstage
    · cases hstage
    · cases hstage
      have hl := hs.memory.numbered henabled hran
      rw [hresult response rfl, hstore]
      refine ⟨hl.length_ids, fun p hp => ?_⟩
      exact (answers_putBatch hl (hs.free henabled hl)).answered (cstr p.1, p.2)
        (List.mem_map.mpr ⟨p, hp, rfl⟩)

end

theorem mem_store_of_number {db : Store} {k : CString} {id : NumID}
    (h : (numbering db).number k = some id) : id ∈ db := by
  obtain ⟨v, hv, -⟩ := mem_memoryOf h
  rw [ExtTreeMap.mem_iff_isSome_getElem?, hv]
  rfl

/-- A STR2ID request in any reachable process, stopped after any of its steps and whatever
    the libraries report. -/
theorem durable_str2id (db : Store) (es : List Event) (hes : ∀ e ∈ es, e ≠ .start true)
    (tr : List (Machine.Record Node Event Outcome)) (s : Server)
    (h : history (.stopped db) es = some (tr, .running s))
    (request : Query) (hop : request.op = .STR2ID) (replies : List StepReply)
    (steps : List (Machine.Record (Server × Stage) StepReply Unit)) (s' : Server) (stage : Stage)
    (hsteps : Server.querySteps request (s, .called) replies = some (steps, (s', stage))) :
    Durable tr s request s' stage := by
  have hstopped := Node.coupled_stopped db
  have hs : s.Coupled := (coupled_history h hes hstopped).1 s rfl
  have hprogress := Server.progress_querySteps hsteps hop
  -- the store left behind numbers every acknowledged pair
  have hnumbered : ∀ p ∈ acknowledged tr request stage,
      (numbering s'.diskStorage).number (cstr p.1) = some p.2 := by
    have hhistory : ∀ p ∈ tr.flatMap (fun r => answered r.event r.output),
        (numbering s'.diskStorage).number (cstr p.1) = some p.2 := by
      intro p hp
      obtain ⟨r, hr, hp⟩ := List.mem_flatMap.mp hp
      exact hprogress.keeps hs _ _ (answered_history h hes hstopped r hr _ (mem_observed hp))
    intro p hp
    unfold acknowledged at hp
    split at hp
    · rcases List.mem_append.mp hp with hp | hp
      · exact hhistory p hp
      · rw [answered, if_pos hop] at hp
        exact (hprogress.returned hs).2 p hp
    · exact hhistory p hp
  constructor
  · cases hprogress with
    | called | locked | looping => exact Or.inl rfl
    | unwritten _ f _ hstage hstore => exact Or.inl hstore
    | written _ l result _ hstage henabled hran hstore hresult =>
      exact Or.inr ⟨l, hran, hs.free henabled (hs.memory.numbered henabled hran), hstore⟩
  · rintro response rfl id hid
    obtain ⟨hlength, hzip⟩ := hprogress.returned hs
    rw [← List.map_snd_zip hlength.le, List.mem_map] at hid
    obtain ⟨p, hp, rfl⟩ := hid
    exact mem_store_of_number (hzip p hp)
  · intro later tr' n hlater hrestart p hp r hr p' hp' hid
    have hstart : ∀ e ∈ .start false :: later, e ≠ .start true := by
      rw [List.forall_mem_cons]
      exact ⟨by simp, hlater⟩
    have hagree := (agree_history hrestart hstart (Node.coupled_stopped _)
      (hnumbered p hp)).2 r hr _ (mem_observed hp')
    exact (hagree.mpr hid.symm).symm

/-- A request for a known and a new string whose write fails but is kept. -/
theorem durable_str2id_failing_write :
    ∃ tr s steps s', history (.stopped ((∅ : Store).insert (-7) [97])) [.start false] =
        some (tr, .running s) ∧
      Server.querySteps { op := .STR2ID, strings := [[97], [98]] } (s, .called)
          [{}, {}, {}, {}, { write := .failed "IO error" true }, {}] =
        some (steps, (s', .returned (.error (.exc (.write "IO error"))))) ∧
      s'.diskStorage = ((∅ : Store).insert (-7) [97]).insert 1 [98] ∧
      Durable tr s { op := .STR2ID, strings := [[97], [98]] } s'
        (.returned (.error (.exc (.write "IO error")))) := by
  obtain ⟨⟨tr, n⟩, h, rfl⟩ := Option.map_eq_some_iff.mp
    (show (history (.stopped ((∅ : Store).insert (-7) [97])) [.start false]).map Prod.snd =
      some (.running ⟨(∅ : Store).insert (-7) [97],
        memoryOf ((∅ : Store).insert (-7) [97]), 1, false⟩) from by decide)
  obtain ⟨⟨steps, p⟩, hsteps, rfl⟩ := Option.map_eq_some_iff.mp
    (show (Server.querySteps { op := .STR2ID, strings := [[97], [98]] }
        (⟨(∅ : Store).insert (-7) [97], memoryOf ((∅ : Store).insert (-7) [97]), 1, false⟩,
          .called) [{}, {}, {}, {}, { write := .failed "IO error" true }, {}]).map Prod.snd =
      some (⟨((∅ : Store).insert (-7) [97]).insert 1 [98],
        ExtTreeMap.insert (memoryOf ((∅ : Store).insert (-7) [97])) (cstr [98]) 1, 2, false⟩,
        .returned (.error (.exc (.write "IO error")))) from by decide)
  exact ⟨tr, _, steps, _, h, hsteps, rfl,
    durable_str2id _ _ (by decide) tr _ h _ rfl _ steps _ _ hsteps⟩

end Numerator
