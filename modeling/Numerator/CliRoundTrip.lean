import Numerator.Cli
import Numerator.Crashes
import Numerator.TextDump

/-!
# A file to its ids and back

`numeratorcli -t s2i` prints the ids of the lines of a file, one to a line, and
with `-t i2s` it reads such a file and prints the strings. Between two requests,
and between the two runs, other clients are served, library calls fail and
processes are killed and started again. The two runs and the service meet in
`Recorded` and `ServedBy`: what a session prints for the answers it got, and
where these answers come from.
-/

namespace Numerator

namespace NumeratorCli

open Std InputStream CountedBatches DiskStorage FiniteMap

/-! ### Sessions -/

/-- What `do_query` prints for an answer. -/
def printed (request result : Query) : Except Fault (List Bytes) :=
  if request.op = .STR2ID then .ok (result.ids.map fun id => Decimal.printInt id.toInt)
  else
    (readStrings result.failures 0 result.strings).map fun strings =>
      strings.map fun v => v.getD notFound

/-- All requests were answered, and these lines are printed for the answers. -/
inductive Recorded (client : List Query → Query → Except String Query) :
    List Query → List Bytes → Prop where
  | start : Recorded client [] []
  | query {requests : List Query} {output : List Bytes} (h : Recorded client requests output)
      (request result : Query) (lines : List Bytes)
      (hresult : client requests request = .ok result)
      (hprinted : printed request result = .ok lines) :
      Recorded client (requests ++ [request]) (output ++ lines)

/-- No answer has a list that Thrift cannot carry. -/
def Carriable (client : List Query → Query → Except String Query) : Prop :=
  ∀ sent request result, client sent request = .ok result → result.strings.length ≤ 2 ^ 31 - 1

section Sessions

variable {client : List Query → Query → Except String Query} {requests : List Query}
variable {output : List Bytes} {op : Operation} {batchSize : UInt64} {l : RunLoop}
variable {pending lines : List Bytes} {line : Bytes}

theorem Recorded.nil_inv (h : Recorded client [] output) : output = [] := by
  generalize hnil : ([] : List Query) = requests at h
  cases h with
  | start => rfl
  | query h request result lines hresult hprinted => exact absurd hnil (by simp)

theorem Recorded.concat_inv {request : Query}
    (h : Recorded client (requests ++ [request]) output) :
    ∃ output' result lines, Recorded client requests output' ∧
      client requests request = .ok result ∧ printed request result = .ok lines ∧
        output = output' ++ lines := by
  generalize hall : requests ++ [request] = all at h
  cases h with
  | start => exact absurd hall (by simp)
  | query h request' result lines hresult hprinted =>
    obtain ⟨rfl, hlast⟩ := List.append_inj' hall rfl
    obtain rfl := List.singleton_inj.mp hlast
    exact ⟨_, result, lines, h, hresult, hprinted, rfl⟩

theorem printed_ok (request : Query) {result : Query}
    (h : result.strings.length ≤ 2 ^ 31 - 1) :
    ∃ lines, printed request result = .ok lines := by
  unfold printed
  split
  · exact ⟨_, rfl⟩
  · rw [readStrings_eq _ _ _ (by simpa using h)]
    exact ⟨_, rfl⟩

/-- A query is answered and printed, or there is no answer. -/
theorem doQuery_cases (hclient : Carriable client) {session : Session}
    (hrecorded : Recorded client session.requests session.output) (op : Operation)
    (pending : List Bytes) :
    (∃ output, doQuery client session op (request op pending).ids (request op pending).strings =
        (⟨session.requests ++ [request op pending], output⟩, .ok ()) ∧
      Recorded client (session.requests ++ [request op pending]) output) ∨
      ∃ session' what, doQuery client session op (request op pending).ids
        (request op pending).strings = (session', .error (.notServed what)) := by
  unfold doQuery
  simp only [request_eq]
  rcases hresult : client session.requests (request op pending) with what | result
  · exact Or.inr ⟨_, what, rfl⟩
  · left
    obtain ⟨lines, hlines⟩ := printed_ok (request op pending) (hclient _ _ _ hresult)
    refine ⟨session.output ++ lines, ?_, hrecorded.query _ result lines hresult hlines⟩
    unfold printed at hlines
    rw [op_request] at hlines
    split at hlines
    · rename_i hop
      cases hlines
      simp only [if_pos hop]
    · rename_i hop
      rcases hread : readStrings result.failures 0 result.strings with f | strings
      · rw [hread] at hlines
        cases hlines
      · rw [hread] at hlines
        cases hlines
        simp only [if_neg hop, hread]

/-- How a run ends: behind the last line with a record of the whole session, or at a request
    that is not answered. -/
inductive Ends (client : List Query → Query → Except String Query) (requests : List Query) :
    Session × Except RunFault Unit → Prop where
  | complete (session : Session) (hrequests : session.requests = requests)
      (hrecorded : Recorded client requests session.output) :
      Ends client requests (session, .ok ())
  | notServed (session : Session) (what : String) :
      Ends client requests (session, .error (.notServed what))

/-- Behind the last line the rest is sent, if the counter has counted one. -/
theorem ends_nil (hclient : Carriable client) (hlines : l.stream.HasLines [])
    (hl : l.Collected op pending)
    (hrecorded : Recorded client l.session.requests l.session.output) :
    ∃ r, runBody client op batchSize l = .inr r ∧ Ends client (l.session.requests ++
      (batches (2 ^ 64) batchSize.toNat l.cnt.toNat pending []).map (request op)) r := by
  have hfails : (l.stream.getline l.line).2.fails = true := hlines.getline_nil l.line
  by_cases hcnt : l.cnt > 0
  · have hpos : 0 < l.cnt.toNat := UInt64.lt_iff_toNat_lt.mp hcnt
    simp only [runBody, hfails, if_true, if_pos hcnt, hl.ids, hl.strings, batches, if_pos hpos,
      List.map_cons, List.map_nil]
    rcases doQuery_cases hclient hrecorded op pending with
      ⟨output, hquery, hrecorded'⟩ | ⟨session, what, hquery⟩
    · exact ⟨_, by rw [hquery], .complete _ rfl hrecorded'⟩
    · exact ⟨_, by rw [hquery], .notServed session what⟩
  · have hzero : ¬ 0 < l.cnt.toNat := fun hpos => hcnt (UInt64.lt_iff_toNat_lt.mpr hpos)
    simp only [runBody, hfails, if_true, if_neg hcnt, batches, if_neg hzero, List.map_nil,
      List.append_nil]
    exact ⟨_, rfl, .complete _ rfl hrecorded⟩

/-- The line that fills a batch sends it. -/
theorem runBody_sends (hclient : Carriable client) (hlines : l.stream.HasLines (line :: lines))
    (hline : item op line ≠ none) (hl : l.Collected op pending)
    (hrecorded : Recorded client l.session.requests l.session.output)
    (hfull : l.cnt + 1 ≥ batchSize) :
    (∃ l', runBody client op batchSize l = .inl l' ∧ l'.stream.HasLines lines ∧
      l'.Collected op [] ∧ l'.cnt = 0 ∧
      l'.session.requests = l.session.requests ++ [request op (pending ++ [line])] ∧
      Recorded client l'.session.requests l'.session.output) ∨
      ∃ session what, runBody client op batchSize l = .inr (session, .error (.notServed what)) := by
  obtain ⟨stream, hgetline, hfails, hstream⟩ := hlines.getline_cons l.line
  have hpush := push_request hline pending
  rw [← hl.ids, ← hl.strings] at hpush
  simp only [runBody, hgetline, hfails, Bool.false_eq_true, if_false, hpush, if_pos hfull]
  rcases doQuery_cases hclient hrecorded op (pending ++ [line]) with
    ⟨output, hquery, hrecorded'⟩ | ⟨session, what, hquery⟩
  · left
    exact ⟨⟨stream, line, 0, [], [], _⟩, by rw [hquery], hstream,
      RunLoop.collected_nil ⟨rfl, rfl⟩, rfl, rfl, hrecorded'⟩
  · right
    exact ⟨session, what, by rw [hquery]⟩

/-- Whatever the service does, the loop ends, and its requests are the batches that `cnt`
    counts. -/
theorem returns_ends (hclient : Carriable client) (batchSize : UInt64) (lines : List Bytes)
    (hsend : ∀ line ∈ lines, item op line ≠ none) (l : RunLoop) (pending : List Bytes)
    (hlines : l.stream.HasLines lines) (hl : l.Collected op pending)
    (hrecorded : Recorded client l.session.requests l.session.output) :
    ∃ r, WhileLoop.Returns (runBody client op batchSize) l r ∧
      Ends client (l.session.requests ++
        (batches (2 ^ 64) batchSize.toNat l.cnt.toNat pending lines).map (request op)) r := by
  induction lines generalizing l pending with
  | nil =>
    obtain ⟨r, hbody, hends⟩ := ends_nil hclient hlines hl hrecorded
    exact ⟨r, WhileLoop.returns_of_done hbody, hends⟩
  | cons line lines ih =>
    obtain ⟨hline, hrest⟩ := List.forall_mem_cons.mp hsend
    have hlimit : l.cnt + 1 ≥ batchSize ↔ batchSize.toNat ≤ (l.cnt.toNat + 1) % 2 ^ 64 := by
      rw [← toNat_increment]
      exact UInt64.le_iff_toNat_le
    by_cases hfull : l.cnt + 1 ≥ batchSize
    · rw [batches, if_pos (hlimit.mp hfull), List.map_cons, List.append_cons]
      rcases runBody_sends hclient hlines hline hl hrecorded hfull with
        ⟨l', hbody, hlines', hl', hcnt, hrequests, hrecorded'⟩ | ⟨session, what, hbody⟩
      · obtain ⟨r, hreturns, hends⟩ := ih hrest l' [] hlines' hl' hrecorded'
        rw [hrequests, hcnt] at hends
        exact ⟨r, hreturns.step hbody, hends⟩
      · exact ⟨_, WhileLoop.returns_of_done hbody, .notServed session what⟩
    · obtain ⟨l', hbody, hlines', hl', hcnt, hsession⟩ :=
        runBody_collects client hlines hline hl hfull
      obtain ⟨r, hreturns, hends⟩ :=
        ih hrest l' (pending ++ [line]) hlines' hl' (hsession ▸ hrecorded)
      rw [hsession, hcnt, toNat_increment] at hends
      rw [batches, if_neg (hlimit.not.mp hfull)]
      exact ⟨r, hreturns.step hbody, hends⟩

end Sessions

/-- The counter goes around at the only line of the file, which then is not sent. -/
def Skips (env : RunEnv) (lines : List Bytes) : Prop :=
  env.cnt.toNat + 1 = 2 ^ 64 ∧ lines.length = 1

/-- A run on a file that can be sent ends, and if it goes through, the requests carry the lines
    of the file. -/
theorem runs_ends {env : RunEnv} {args : CmdLineArgs} (hclient : Carriable env.client)
    (hreserves : env.Reserves args.batchSize) (hbatch : 0 < args.batchSize) {content : Bytes}
    (hskips : ¬ Skips env (fileLines content))
    (hsend : ∀ line ∈ fileLines content, item (operation args.type) line ≠ none) :
    ∃ (parts : List (List Bytes)) (r : Session × Except RunFault Unit),
      parts.flatten = fileLines content ∧ Runs env args (some (.ofBytes content)) r ∧
        Ends env.client (parts.map (request (operation args.type))) r := by
  obtain ⟨r, hreturns, hends⟩ := returns_ends hclient args.batchSize (fileLines content) hsend
    ⟨.ofBytes content, [], env.cnt, [], [], {}⟩ [] (hasLines_ofBytes content)
    (RunLoop.collected_nil ⟨rfl, rfl⟩) .start
  refine ⟨_, r, ?_, (runs_of_reserves hreserves _ r).mpr hreturns, hends⟩
  exact flatten_batches (UInt64.lt_iff_toNat_lt.mp hbatch) args.batchSize.toNat_lt
    env.cnt.toNat_lt hskips

/-! ### The service behind a session -/

/-- The requests were answered by a directory that went on from `n` to `n'`, with anything else
    happening to it before, between and after them. -/
inductive ServedBy (client : List Query → Query → Except String Query) (n : Node) :
    List Query → Node → Prop where
  | start : ServedBy client n [] n
  | between {requests : List Query} {n' n'' : Node} (h : ServedBy client n requests n')
      (e : CrashEvent) (o : Outcome) (hreads : e.ReadsAll n'.store)
      (hsurvive : n'.survive e = some (o, n'')) : ServedBy client n requests n''
  | query {requests : List Query} {n' n'' : Node} (h : ServedBy client n requests n')
      (e : CrashEvent) (request result : Query) (hreads : e.ReadsAll n'.store)
      (hasked : e.asked = some request)
      (hsurvive : n'.survive e = some (.response result, n''))
      (hresult : client requests request = .ok result) :
      ServedBy client n (requests ++ [request]) n''

section Served

variable {client : List Query → Query → Except String Query} {n n' : Node}
variable {requests : List Query} {output : List Bytes}

theorem ServedBy.recovers (h : ServedBy client n requests n') (hn : n.Recovers) :
    n'.Recovers := by
  induction h with
  | start => exact hn
  | between h e o hreads hsurvive ih => exact recovers_of_survive ih hreads hsurvive
  | query h e request result hreads hasked hsurvive hresult ih =>
    exact recovers_of_survive ih hreads hsurvive

theorem ServedBy.grows (h : ServedBy client n requests n') (hn : n.Recovers) :
    Extends n.store n'.store := by
  induction h with
  | start => exact Extends.refl _
  | between h e o hreads hsurvive ih =>
    have heffect := effect_of_survive (h.recovers hn) hsurvive
    exact fun k v hv => heffect.grows k v (ih k v hv)
  | query h e request result hreads hasked hsurvive hresult ih =>
    have heffect := effect_of_survive (h.recovers hn) hsurvive
    exact fun k v hv => heffect.grows k v (ih k v hv)

/-- The ids that are printed for strings are those that the store numbers them with. -/
theorem ServedBy.numbered (h : ServedBy client n requests n') (hn : n.Recovers)
    (hop : ∀ q ∈ requests, q.op = .STR2ID) (hrecorded : Recorded client requests output) :
    ∃ ids : List NumID, output = ids.map (fun id => Decimal.printInt id.toInt) ∧
      List.Forall₂ (fun line id => (numbering n'.store).number (cstr line) = some id)
        (requests.flatMap Query.strings) ids := by
  induction h generalizing output with
  | start =>
    rw [hrecorded.nil_inv]
    exact ⟨[], rfl, .nil⟩
  | between h e o hreads hsurvive ih =>
    obtain ⟨ids, houtput, hids⟩ := ih hop hrecorded
    have heffect := effect_of_survive (h.recovers hn) hsurvive
    exact ⟨ids, houtput, hids.imp fun line id hid => heffect.keeps (cstr line) id hid⟩
  | @query requests n' n'' h e request result hreads hasked hsurvive hresult ih =>
    rw [List.forall_mem_append] at hop
    have hop' : request.op = .STR2ID := hop.2 request List.mem_cons_self
    obtain ⟨output', result', lines, hrecorded', hresult', hprinted, rfl⟩ :=
      hrecorded.concat_inv
    rw [hresult] at hresult'
    cases hresult'
    obtain ⟨ids, rfl, hids⟩ := ih hop.1 hrecorded'
    have heffect := effect_of_survive (h.recovers hn) hsurvive
    have htold : e.told (.response result) = request.strings.zip result.ids := by
      simp only [CrashEvent.told, hasked, answered, if_pos hop']
    rw [printed, if_pos hop'] at hprinted
    cases hprinted
    refine ⟨ids ++ result.ids, by rw [List.map_append], ?_⟩
    rw [List.flatMap_append, List.flatMap_singleton]
    apply List.rel_append
    · exact hids.imp fun line id hid => heffect.keeps (cstr line) id hid
    · refine List.forall₂_iff_zip.mpr ⟨(length_ids_of_survive hsurvive hasked hop').symm, ?_⟩
      intro line id hzip
      exact heffect.numbered (line, id) (htold ▸ hzip)

/-- What is printed for ids that were stored before the session are their strings. -/
theorem ServedBy.looked (h : ServedBy client n requests n') (hn : n.Recovers)
    (hclient : Carriable client) (hop : ∀ q ∈ requests, q.op = .ID2STR)
    (hrecorded : Recorded client requests output) :
    List.Forall₂ (fun id line => ∀ v, n.store[id]? = some v → line = v)
      (requests.flatMap Query.ids) output := by
  induction h generalizing output with
  | start =>
    rw [hrecorded.nil_inv]
    exact .nil
  | between h e o hreads hsurvive ih => exact ih hop hrecorded
  | @query requests n' n'' h e request result hreads hasked hsurvive hresult ih =>
    rw [List.forall_mem_append] at hop
    have hop' : request.op = .ID2STR := hop.2 request List.mem_cons_self
    obtain ⟨output', result', lines, hrecorded', hresult', hprinted, rfl⟩ :=
      hrecorded.concat_inv
    rw [hresult] at hresult'
    cases hresult'
    have hlooked := looked_of_survive hsurvive hasked hop'
    have hlength : request.ids.length ≤ 2 ^ 31 - 1 := by
      simpa [hlooked.strings] using hclient _ _ _ hresult
    rw [printed, if_neg (by simp [hop']), hlooked.strings, hlooked.failures,
      readStrings_missing n'.store request.ids hlength] at hprinted
    cases hprinted
    rw [List.flatMap_append, List.flatMap_singleton]
    apply List.rel_append
    · exact ih hop.1 hrecorded'
    · simp only [List.map_map, List.forall₂_map_right_iff, List.forall₂_same]
      intro id _ v hv
      simp [h.grows hn id v hv]

end Served

/-! ### The round trip -/

/-- A file with these lines. -/
def fileOf (lines : List Bytes) : Bytes := lines.flatMap fun line => line ++ [10]

theorem fileLines_fileOf {lines : List Bytes} (h : ∀ line ∈ lines, (10 : UInt8) ∉ line) :
    fileLines (fileOf lines) = lines := by
  induction lines with
  | nil => rfl
  | cons line lines ih =>
    rw [List.forall_mem_cons] at h
    rw [fileOf, List.flatMap_cons, List.append_assoc, List.singleton_append,
      fileLines_append_newline h.1]
    exact congrArg _ (ih h.2)

/-- The lines come back up to what C strings keep of them, and exactly if nothing has a NUL. -/
structure ComesBack (db : Store) (lines output : List Bytes) : Prop where
  same : List.Forall₂ (fun line out => cstr out = cstr line) lines output
  exactly : (∀ line ∈ lines, (0 : UInt8) ∉ line) →
    (∀ (id : NumID) (v : Bytes), db[id]? = some v → (0 : UInt8) ∉ v) → output = lines

theorem forall₂_comp {α β γ : Type} {R : α → β → Prop} {S : β → γ → Prop} {xs : List α}
    {ys : List β} {zs : List γ} (h : List.Forall₂ R xs ys) (h' : List.Forall₂ S ys zs) :
    List.Forall₂ (fun x z => ∃ y, R x y ∧ S y z) xs zs := by
  induction h generalizing zs with
  | nil =>
    cases h'
    exact .nil
  | cons hxy _ ih =>
    cases h' with
    | cons hyz h' => exact .cons ⟨_, hxy, hyz⟩ (ih h')

/-- Ids that number the lines lead back to them. -/
theorem comesBack_of_ids {db : Store} {lines output : List Bytes} {ids : List NumID}
    (hids : List.Forall₂ (fun line id => (numbering db).number (cstr line) = some id) lines ids)
    (houtput : List.Forall₂ (fun id out => ∀ v, db[id]? = some v → out = v) ids output) :
    ComesBack db lines output := by
  have hstored : List.Forall₂ (fun line out =>
      ∃ id : NumID, db[id]? = some out ∧ cstr out = cstr line) lines output := by
    refine (forall₂_comp hids houtput).imp ?_
    rintro line out ⟨id, hid, hout⟩
    obtain ⟨v, hv, hcstr⟩ := mem_memoryOf hid
    rw [hout v hv]
    exact ⟨id, hv, hcstr⟩
  constructor
  · exact hstored.imp fun line out ⟨_, _, hcstr⟩ => hcstr
  · intro hlines hdb
    have heq : List.Forall₂ (fun line out => line = out) lines output := by
      refine List.forall₂_iff_zip.mpr ⟨hstored.length_eq, ?_⟩
      intro line out hzip
      obtain ⟨id, hv, hcstr⟩ := List.forall₂_zip hstored hzip
      exact (eq_of_cstr_eq (hdb id out hv) (hlines line (List.of_mem_zip hzip).1) hcstr).symm
    rw [List.forall₂_eq_eq_eq] at heq
    exact heq.symm

theorem flatMap_strings_request (parts : List (List Bytes)) :
    (parts.map (request .STR2ID)).flatMap Query.strings = parts.flatten := by
  rw [List.flatMap_map, List.flatMap_def]
  exact congrArg List.flatten (List.map_id parts)

theorem flatMap_ids_request (parts : List (List Bytes)) :
    (parts.map (request .ID2STR)).flatMap Query.ids = parts.flatten.filterMap lexicalCast := by
  rw [List.flatMap_map, List.flatMap_def, List.filterMap_flatten]
  rfl

theorem filterMap_lexicalCast_printInt (ids : List NumID) :
    (ids.map fun id => Decimal.printInt id.toInt).filterMap lexicalCast = ids := by
  have hcast : lexicalCast ∘ (fun id : NumID => Decimal.printInt id.toInt) = some :=
    funext lexicalCast_printInt
  rw [List.filterMap_map, hcast, List.filterMap_some]

/-- A service that knows the answers to some requests. -/
def scripted (answers : List (Query × Query)) : List Query → Query → Except String Query :=
  fun _ request =>
    match answers.find? fun p => p.1 = request with
    | some p => .ok p.2
    | none => .error "No more data to read."

theorem carriable_scripted {answers : List (Query × Query)}
    (h : ∀ p ∈ answers, p.2.strings.length ≤ 2 ^ 31 - 1) : Carriable (scripted answers) := by
  intro sent request result hresult
  unfold scripted at hresult
  split at hresult
  · rename_i p hfind
    cases hresult
    exact h p (List.mem_of_find?_eq_some hfind)
  · cases hresult

end NumeratorCli

end Numerator
