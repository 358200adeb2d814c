import Numerator.Network

/-!
# What clients know

Clients learn pairs of strings and ids from the answers that they read off their
connections. Processes may end and be started again, library calls may fail and
answers may never arrive, but what any client has been told stands in the store
for good, agrees with what the others have been told, and is what later lookups
of every client find. The argument is about mailboxes; the streams of symbols
carry it over.
-/

namespace Numerator

open Thrift FiniteMap DiskStorage

variable {C σ : Type} [DecidableEq C]

/-! ### Knowledge -/

/-- The strings and ids that the answer to a message pairs up. -/
def toldBy (m : Message σ) (r : Received) : List (Bytes × NumID) :=
  match m.content.call, r with
  | some (.query request), .response response => answered (.query request) (.response response)
  | _, _ => []

def NetworkOutput.told : NetworkOutput σ → List (Bytes × NumID)
  | .received m r => toldBy m r
  | _ => []

/-- If the answer is one to a lookup of the id, it has the string, up to what C strings keep. -/
def Finds (p : Bytes × NumID) (m : Message σ) (r : Received) : Prop :=
  ∀ request response, m.content.call = some (.query request) → r = .response response →
    request.op = .ID2STR → ∀ i : Nat, request.ids[i]? = some p.2 →
      (∃ v, response.strings[i]? = some v ∧ cstr v = cstr p.1) ∧ (i : Int) ∉ response.failures

/-- A load in this step comes to the end of the database unless it throws. -/
def NetworkAction.ReadsAll (db : Store) : NetworkAction C σ → Prop
  | .serve _ env => env.it.entries = db.toList
  | .start it _ => it.entries = db.toList
  | _ => True

instance (db : Store) : DecidablePred (NetworkAction.ReadsAll db : NetworkAction C σ → Prop)
  | .serve _ env => inferInstanceAs (Decidable (env.it.entries = db.toList))
  | .start it _ => inferInstanceAs (Decidable (it.entries = db.toList))
  | .connect _ | .call _ _ | .send _ _ | .receive _ _ | .stop => isTrue trivial

/-- What clients have read in a run that ends in `w`. A client without outstanding answers
    has sent its lookups after everything that was read until then. -/
structure Consistent (tr : List (Machine.Record (Wire C σ) (NetworkAction C σ) (NetworkOutput σ)))
    (w : Wire C σ) : Prop where
  stored : ∀ r ∈ tr, ∀ p ∈ r.output.told, Carried w.node.store p
  agree : ∀ r ∈ tr, ∀ r' ∈ tr, ∀ p ∈ r.output.told, ∀ p' ∈ r'.output.told,
    cstr p.1 = cstr p'.1 ↔ p.2 = p'.2
  lookups : tr.Pairwise fun q r => ∀ p ∈ q.output.told, ∀ c response m answer,
    (q.after.connections c).waiting = [] → r.event = .receive c response →
      r.output = .received m answer → Finds p m answer

/-! ### One step -/

/-- What a result of the mailboxes comes from: a step that left the store so and told so. -/
structure Comes (db : Store) (told : List (Bytes × NumID)) (m : Message σ) (r : Received) :
    Prop where
  told : toldBy m r = told
  looked : ∀ request response, m.content.call = some (.query request) → r = .response response →
    request.op = .ID2STR → Looked db request response

section Steps

variable {d d' : Mailboxes C σ} {m : Message σ} {env : Surroundings} {n n' : Node}

/-- A call is an event in the life of the directory. -/
theorem survive_of_invoke {call : ClientCall} {c : ServedCall} {o : Outcome}
    (hserved : call.served env = some c) (h : n.invoke env call = some (o, n')) :
    n.survive (.served (.call c)) = some (o, n') := by
  unfold Node.invoke at h
  simp only [hserved] at h
  cases n with
  | stopped db => exact h
  | running s => exact h

theorem recovers_and_effect {e : CrashEvent} {o : Outcome} (hn : n.Recovers)
    (h : n.survive e = some (o, n')) (he : e.ReadsAll n.store) :
    n'.Recovers ∧ Effect n.store (e.told o) n'.store :=
  ⟨recovers_of_survive hn he h, effect_of_survive hn h⟩

theorem comes_of_ne (h : ∀ request, m.content.call ≠ some (.query request)) (db : Store)
    (r : Received) : Comes db [] m r where
  told := by
    unfold toldBy
    split
    · exact absurd ‹_› (h _)
    · rfl
  looked := fun request _ hcall => absurd hcall (h request)

theorem comes_of_query {request : Query} (hcall : m.content.call = some (.query request))
    {o : Outcome} (h : n.survive (.served (.call (.query env.replies request))) = some (o, n'))
    {r : Received} (hr : receivedQuery o = some r) :
    Comes n.store (answered (.query request) o) m r where
  told := by
    unfold toldBy
    rw [hcall]
    cases o <;> cases hr <;> rfl
  looked := by
    intro request' response hcall' hresponse hop
    rw [hcall] at hcall'
    cases hcall'
    subst hresponse
    cases o <;> cases hr
    exact looked_of_survive h rfl hop

/-- A served message has an effect on the store, and its answer tells so. -/
theorem comes_of_reply (hn : n.Recovers) (henv : env.it.entries = n.store.toList)
    {result : Option Received} (h : m.reply env n = some (result, n')) :
    n'.Recovers ∧ ∃ told, Effect n.store told n'.store ∧
      ∀ r, result = some r → Comes n.store told m r := by
  unfold Message.reply at h
  obtain ⟨seqid, structName, content⟩ := m
  cases content with
  | other name fields =>
    cases h
    exact ⟨hn, [], .still, fun r _ => comes_of_ne (by rintro request ⟨⟩) n.store r⟩
  | ping fields =>
    cases h
    exact ⟨hn, [], .still, fun r _ => comes_of_ne (by rintro request ⟨⟩) n.store r⟩
  | query fields =>
    obtain ⟨⟨o, n''⟩, hinvoke, heq⟩ := Option.map_eq_some_iff.mp h
    cases heq
    have hsurvive : n.survive (.served (.call (.query env.replies (requestOf fields)))) =
        some (o, n'') := survive_of_invoke rfl hinvoke
    obtain ⟨hn'', heffect⟩ := recovers_and_effect hn hsurvive trivial
    exact ⟨hn'', _, heffect, fun r hr => comes_of_query rfl hsurvive hr⟩
  | disableS2i fields =>
    obtain ⟨⟨o, n''⟩, hinvoke, heq⟩ := Option.map_eq_some_iff.mp h
    cases heq
    have hsurvive : n.survive (.served (.call .disableS2i)) = some (o, n'') :=
      survive_of_invoke rfl hinvoke
    obtain ⟨hn'', heffect⟩ := recovers_and_effect hn hsurvive trivial
    exact ⟨hn'', [], heffect, fun r _ => comes_of_ne (by rintro request ⟨⟩) n.store r⟩
  | enableS2i fields =>
    obtain ⟨⟨o, n''⟩, hinvoke, heq⟩ := Option.map_eq_some_iff.mp h
    cases heq
    have hsurvive : n.survive (.served (.call (.enableS2i env.it env.judy))) = some (o, n'') :=
      survive_of_invoke rfl hinvoke
    obtain ⟨hn'', heffect⟩ := recovers_and_effect hn hsurvive henv
    exact ⟨hn'', [], heffect, fun r _ => comes_of_ne (by rintro request ⟨⟩) n.store r⟩

/-- What a step does to the store and the answers that wait to be read. -/
structure Mailboxes.Moves (d : Mailboxes C σ) (a : NetworkAction C σ) (o : NetworkOutput σ)
    (d' : Mailboxes C σ) : Prop where
  recovers : d'.node.Recovers
  effect : ∃ told, Effect d.node.store told d'.node.store ∧
    ∀ c, ∀ e ∈ (d'.boxes c).answered,
      e ∈ (d.boxes c).answered ∨ Comes d.node.store told e.1 e.2
  received : ∀ m r, o = .received m r →
    ∃ c response, a = .receive c response ∧ (m, r) ∈ (d.boxes c).answered

theorem answered_set {c c' : C} {b : Mailbox σ} {e : Message σ × Received}
    (h : e ∈ ((d.set c b).boxes c').answered) :
    e ∈ b.answered ∧ c' = c ∨ e ∈ (d.boxes c').answered := by
  by_cases heq : c' = c
  · subst heq
    simp only [Mailboxes.set, Function.update_self] at h
    exact Or.inl ⟨h, rfl⟩
  · simp only [Mailboxes.set, Function.update_of_ne heq] at h
    exact Or.inr h

omit [DecidableEq C] in
/-- A step that leaves the node and adds no answer. -/
theorem moves_of_quiet {a : NetworkAction C σ} {o : NetworkOutput σ} (hd : d.node.Recovers)
    (hnode : d'.node = d.node)
    (hanswered : ∀ c, ∀ e ∈ (d'.boxes c).answered, e ∈ (d.boxes c).answered)
    (hreceived : ∀ m r, o = .received m r →
      ∃ c response, a = .receive c response ∧ (m, r) ∈ (d.boxes c).answered) :
    d.Moves a o d' where
  recovers := by rwa [hnode]
  effect := ⟨[], by rw [hnode]; exact .still, fun c e he => Or.inl (hanswered c e he)⟩
  received := hreceived

theorem moves_of_send (hd : d.node.Recovers) (a : NetworkAction C σ) (c : C) (m : Message σ) :
    d.Moves a (d.send c m).1 (d.send c m).2 := by
  unfold Mailboxes.send
  split
  · exact moves_of_quiet hd rfl (fun _ _ => id) (by rintro _ _ ⟨⟩)
  · refine moves_of_quiet hd rfl ?_ (by rintro _ _ ⟨⟩)
    intro c' e he
    rcases answered_set he with ⟨he, rfl⟩ | he
    · exact he
    · exact he

theorem moves_of_receive (hd : d.node.Recovers) (c : C) (response : Query) :
    d.Moves (.receive c response) (d.receive c).1 (d.receive c).2 := by
  unfold Mailboxes.receive
  rcases hanswered : (d.boxes c).answered with _ | ⟨⟨m, r⟩, answered⟩
  · exact moves_of_quiet hd rfl (fun _ _ => id) (by rintro _ _ ⟨⟩)
  · refine moves_of_quiet hd rfl ?_ ?_
    · intro c' e he
      rcases answered_set he with ⟨he, rfl⟩ | he
      · rw [hanswered]
        exact List.mem_cons_of_mem _ he
      · exact he
    · rintro _ _ ⟨⟩
      exact ⟨c, response, rfl, hanswered ▸ List.mem_cons_self⟩

theorem moves_of_serve (hd : d.node.Recovers) {c : C}
    (henv : env.it.entries = d.node.store.toList) {o : NetworkOutput σ}
    (h : d.serve c env = some (o, d')) : d.Moves (.serve c env) o d' := by
  unfold Mailboxes.serve at h
  rcases hasked : (d.boxes c).asked with _ | ⟨m, asked⟩
  · simp only [hasked] at h
    cases h
    exact moves_of_quiet hd rfl (fun _ _ => id) (by rintro _ _ ⟨⟩)
  · rcases hreply : m.reply env d.node with _ | ⟨result, n⟩
    · simp [hasked, hreply] at h
    · obtain ⟨hn, told, heffect, hcomes⟩ := comes_of_reply hd henv hreply
      rcases result with _ | r
      · simp only [hasked, hreply] at h
        cases h
        exact ⟨hn, ⟨told, heffect, fun c e he => Or.inl he⟩, by rintro _ _ ⟨⟩⟩
      · simp only [hasked, hreply] at h
        cases h
        refine ⟨hn, ⟨told, heffect, ?_⟩, by rintro _ _ ⟨⟩⟩
        intro c' e he
        rcases answered_set he with ⟨he, rfl⟩ | he
        · rcases List.mem_append.mp he with he | he
          · exact Or.inl he
          · rw [List.mem_singleton.mp he]
            exact Or.inr (hcomes r rfl)
        · exact Or.inl he

theorem moves_of_step {a : NetworkAction C σ} {o : NetworkOutput σ} (hd : d.node.Recovers)
    (ha : a.ReadsAll d.node.store) (h : d.step a = some (o, d')) : d.Moves a o d' := by
  cases a with
  | connect c =>
    cases h
    refine moves_of_quiet hd rfl ?_ (by rintro _ _ ⟨⟩)
    intro c' e he
    rcases answered_set he with ⟨he, -⟩ | he
    · cases he
    · exact he
  | call c call =>
    have hmoves := moves_of_send hd (.call c call) c (.ofCall call)
    rwa [show d.send c (.ofCall call) = (o, d') from Option.some.inj h] at hmoves
  | send c m =>
    have hmoves := moves_of_send hd (.send c m) c m
    rwa [show d.send c m = (o, d') from Option.some.inj h] at hmoves
  | serve c env => exact moves_of_serve hd ha h
  | receive c response =>
    have hmoves := moves_of_receive hd c response
    rwa [show d.receive c = (o, d') from Option.some.inj h] at hmoves
  | start it judy =>
    obtain ⟨⟨o, n⟩, hlive, heq⟩ := Option.map_eq_some_iff.mp h
    cases heq
    have hsurvive : d.node.survive (.served (.start it judy)) = some (o, n) := hlive
    obtain ⟨hn, heffect⟩ := recovers_and_effect hd hsurvive ha
    exact ⟨hn, ⟨[], heffect, fun c e he => Or.inl he⟩, by rintro _ _ ⟨⟩⟩
  | stop =>
    obtain ⟨⟨o, n⟩, hlive, heq⟩ := Option.map_eq_some_iff.mp h
    cases heq
    have hsurvive : d.node.survive (.served .stop) = some (o, n) := hlive
    obtain ⟨hn, heffect⟩ := recovers_and_effect hd hsurvive trivial
    exact ⟨hn, ⟨[], heffect, fun c e he => Or.inl he⟩, by rintro _ _ ⟨⟩⟩

end Steps

/-! ### Whole runs -/

/-- Every answer that waits to be read is true. -/
structure Mailboxes.Truthful (d : Mailboxes C σ) : Prop where
  recovers : d.node.Recovers
  told : ∀ c, ∀ e ∈ (d.boxes c).answered, ∀ p ∈ toldBy e.1 e.2,
    (numbering d.node.store).number (cstr p.1) = some p.2

/-- What was read in step `q` is still true, and nobody who sent nothing before it is going to
    read otherwise. -/
structure Mailboxes.Remembers (d : Mailboxes C σ)
    (q : Machine.Record (Wire C σ) (NetworkAction C σ) (NetworkOutput σ)) : Prop where
  numbered : ∀ p ∈ q.output.told, (numbering d.node.store).number (cstr p.1) = some p.2
  finds : ∀ p ∈ q.output.told, ∀ c, (q.after.connections c).waiting = [] →
    ∀ e ∈ (d.boxes c).answered, Finds p e.1 e.2

section Runs

variable {P : Protocol σ} {d d' : Mailboxes C σ} {w w' : Wire C σ} {a : NetworkAction C σ}
variable {o : NetworkOutput σ}

omit [DecidableEq C] in
theorem Mailboxes.Moves.truthful (h : d.Moves a o d') (hd : d.Truthful) : d'.Truthful where
  recovers := h.recovers
  told := by
    obtain ⟨told, heffect, hanswered⟩ := h.effect
    intro c e he p hp
    rcases hanswered c e he with hold | hnew
    · exact heffect.keeps (cstr p.1) p.2 (hd.told c e hold p hp)
    · exact heffect.numbered p (hnew.told ▸ hp)

omit [DecidableEq C] in
/-- What is read is still true behind the step. -/
theorem Mailboxes.Moves.told (h : d.Moves a o d') (hd : d.Truthful) :
    ∀ p ∈ o.told, (numbering d'.node.store).number (cstr p.1) = some p.2 := by
  obtain ⟨told, heffect, -⟩ := h.effect
  intro p hp
  cases o with
  | received m r =>
    obtain ⟨c, response, -, hmem⟩ := h.received m r rfl
    exact heffect.keeps (cstr p.1) p.2 (hd.told c (m, r) hmem p hp)
  | _ => cases hp

omit [DecidableEq C] in
theorem Mailboxes.Moves.remembers (h : d.Moves a o d')
    {q : Machine.Record (Wire C σ) (NetworkAction C σ) (NetworkOutput σ)}
    (hq : d.Remembers q) : d'.Remembers q where
  numbered := by
    obtain ⟨told, heffect, -⟩ := h.effect
    exact fun p hp => heffect.keeps (cstr p.1) p.2 (hq.numbered p hp)
  finds := by
    obtain ⟨told, heffect, hanswered⟩ := h.effect
    intro p hp c hwaiting e he
    rcases hanswered c e he with hold | hnew
    · exact hq.finds p hp c hwaiting e hold
    · intro request response hcall hresponse hop i hi
      have hlooked := hnew.looked request response hcall hresponse hop
      exact hlooked.found (carried_of_number (hq.numbered p hp)) hi

/-- The mailboxes make the step of the streams. -/
theorem Wire.Carries.follow (hP : P.Lawful) (h : w.Carries P d) (ha : a.Fits P)
    (hstep : w.step P a = some (o, w')) : ∃ d', d.step a = some (o, d') ∧ w'.Carries P d' := by
  have hlockstep := h.step hP ha
  rw [hstep] at hlockstep
  generalize hd : d.step a = x at hlockstep
  cases hlockstep with
  | @some p q hpq =>
    obtain ⟨o', d'⟩ := p
    obtain ⟨rfl, hcarries⟩ := hpq
    exact ⟨d', rfl, hcarries⟩

omit [DecidableEq C] in
/-- A client that waits for nothing has no answer to read. -/
theorem Connection.Carries.answered_eq_nil {x : Connection σ} {b : Mailbox σ}
    (h : x.Carries P b) (hwaiting : x.waiting = []) : b.answered = [] := by
  have hprefix := h.waiting
  rw [hwaiting, List.prefix_nil, List.append_eq_nil_iff, List.map_eq_nil_iff] at hprefix
  exact hprefix.1

end Runs

/-- Whatever clients do and whenever libraries fail or processes end, the answers that clients
    have read agree with each other, with the store and with what lookups find later. -/
theorem network_consistent (P : Protocol σ) (hP : P.Lawful) (db : Store)
    (hdb : (Node.stopped db).Fits) (actions : List (NetworkAction C σ))
    (tr : List (Machine.Record (Wire C σ) (NetworkAction C σ) (NetworkOutput σ))) (w : Wire C σ)
    (h : Machine.run (Wire.step P) (Wire.start (.stopped db)) actions = some (tr, w))
    (hactions : ∀ r ∈ tr, r.event.Fits P ∧ r.event.ReadsAll r.before.node.store) :
    Consistent tr w := by
  have hmove : ∀ (r : Machine.Record (Wire C σ) (NetworkAction C σ) (NetworkOutput σ))
      (d : Mailboxes C σ), Machine.IsStep (Wire.step P) r →
        r.event.Fits P ∧ r.event.ReadsAll r.before.node.store → r.before.Carries P d →
          d.Truthful → ∃ d', r.after.Carries P d' ∧ d.Moves r.event r.output d' := by
    intro r d hr hC hcarries hd
    obtain ⟨d', hstep, hcarries'⟩ := hcarries.follow hP hC.1 hr
    exact ⟨d', hcarries', moves_of_step hd.recovers (hcarries.node ▸ hC.2) hstep⟩
  have hstart : (Mailboxes.start (.stopped db) : Mailboxes C σ).Truthful := by
    refine ⟨?_, ?_⟩
    · intro s hs
      cases hs
    · intro c e he
      cases he
  obtain ⟨hlookups, hknown⟩ := Machine.run_pairwise
    (fun r => r.event.Fits P ∧ r.event.ReadsAll r.before.node.store)
    (fun w => ∃ d, w.Carries P d ∧ d.Truthful)
    (fun q w => ∃ d, w.Carries P d ∧ d.Truthful ∧ d.Remembers q)
    (fun q r => ∀ p ∈ q.output.told, ∀ c response m answer,
      (q.after.connections c).waiting = [] → r.event = .receive c response →
        r.output = .received m answer → Finds p m answer)
    (by
      rintro r hr hC ⟨d, hcarries, hd⟩
      obtain ⟨d', hcarries', hmoves⟩ := hmove r d hr hC hcarries hd
      exact ⟨d', hcarries', hmoves.truthful hd⟩)
    (by
      rintro r hr hC ⟨d, hcarries, hd⟩
      obtain ⟨d', hcarries', hmoves⟩ := hmove r d hr hC hcarries hd
      refine ⟨d', hcarries', hmoves.truthful hd, hmoves.told hd, ?_⟩
      intro p _ c hwaiting e he
      rw [(hcarries'.connections c).answered_eq_nil hwaiting] at he
      cases he)
    (by
      rintro q r hr hC - ⟨d, hcarries, hd, hq⟩
      obtain ⟨d', hcarries', hmoves⟩ := hmove r d hr hC hcarries hd
      exact ⟨d', hcarries', hmoves.truthful hd, hmoves.remembers hq⟩)
    (by
      rintro q r hr hC - ⟨d, hcarries, hd, hq⟩ p hp c response m answer hwaiting hevent houtput
      obtain ⟨d', -, hmoves⟩ := hmove r d hr hC hcarries hd
      obtain ⟨c', response', hevent', hmem⟩ := hmoves.received m answer houtput
      rw [hevent] at hevent'
      cases hevent'
      exact hq.finds p hp c hwaiting (m, answer) hmem)
    h hactions ⟨_, carries_start hdb, hstart⟩
  have hnumbered : ∀ r ∈ tr, ∀ p ∈ r.output.told,
      (numbering w.node.store).number (cstr p.1) = some p.2 := by
    intro r hr
    obtain ⟨d, hcarries, -, hremembers⟩ := hknown r hr
    rw [← hcarries.node]
    exact hremembers.numbered
  refine ⟨fun r hr p hp => carried_of_number (hnumbered r hr p hp), ?_, hlookups⟩
  intro r hr r' hr' p hp p' hp'
  exact agree_of_number (hnumbered r hr p hp) (hnumbered r' hr' p' hp')

theorem network_consistent_visit :
    ∃ tr w, Machine.run (Wire.step Binary.protocol) (Wire.start (.stopped ∅) : Wire Bool UInt8)
        visit = some (tr, w) ∧
      tr.flatMap (fun r => r.output.told) = [([97], 1), ([98], 2)] ∧ Consistent tr w := by
  have hrun : (Machine.run (Wire.step Binary.protocol) (Wire.start (.stopped ∅) : Wire Bool UInt8)
      visit).map (fun p => (p.1.flatMap fun r => r.output.told,
        decide (∀ r ∈ p.1, NetworkAction.ReadsAll r.before.node.store r.event))) =
      some ([([97], 1), ([98], 2)], true) := by
    decide +kernel
  obtain ⟨⟨tr, w⟩, h, hend⟩ := Option.map_eq_some_iff.mp hrun
  obtain ⟨htold, hreads⟩ := Prod.mk.inj hend
  refine ⟨tr, w, h, htold,
    network_consistent Binary.protocol Binary.lawful ∅ fits_empty visit tr w h ?_⟩
  intro r hr
  exact ⟨fits_visit r.event (Machine.event_mem_of_run h hr), of_decide_eq_true hreads r hr⟩

end Numerator
