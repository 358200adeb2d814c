import Numerator.Refinement

/-!
# STR2ID followed by ID2STR

The memory map sees a string up to its first NUL, the database stores it whole.
So ID2STR gives back what STR2ID was asked for unless a string of the request
shares its C string with a different one, in the request or in the store: then
the one that was stored first comes back for both.
-/

namespace Numerator

open Std DiskStorage

/-- ID2STR on `ids` gives exactly `strings`, so equal ids stand for equal strings. -/
structure Server.ReadsBack (s : Server) (strings : List Bytes) (ids : List NumID) : Prop where
  lookup : Node.query {} s { op := .ID2STR, ids := ids } =
    some (.response { op := .ID2STR, strings := strings, failures := [] }, .running s)
  equal : ∀ p q : Nat, ids[p]? = ids[q]? → strings[p]? = strings[q]?

/-- The C string of a requested string belongs to no other string of the request or of
    the store. -/
def Server.TellsApart (s : Server) (strings : List Bytes) : Prop :=
  ∀ x ∈ strings, (∀ y ∈ strings, cstr y = cstr x → y = x) ∧
    ∀ (id : NumID) (v : Bytes), s.diskStorage[id]? = some v → cstr v = cstr x → v = x

theorem map_eq_map_iff_forall_zip {α β γ : Type} {xs : List α} {ys : List β} {f : β → γ}
    {g : α → γ} (h : ys.length = xs.length) :
    ys.map f = xs.map g ↔ ∀ p ∈ xs.zip ys, f p.2 = g p.1 := by
  have hfst : (xs.zip ys).map (fun p => g p.1) = xs.map g := by
    rw [show (fun p : α × β => g p.1) = g ∘ Prod.fst from rfl, ← List.map_map,
      List.map_fst_zip h.ge]
  have hsnd : (xs.zip ys).map (fun p => f p.2) = ys.map f := by
    rw [show (fun p : α × β => f p.2) = f ∘ Prod.snd from rfl, ← List.map_map,
      List.map_snd_zip h.le]
  rw [← hfst, ← hsnd]
  exact List.map_inj_left

/-- A lookup without failures is one that finds every key. -/
theorem lookup_complete_iff {db : Store} {ids : List NumID} {strings : List Bytes} :
    (ids.map (fun k => db[k]?.getD []) = strings ∧ missing db 0 ids = []) ↔
      ids.map (fun k => db[k]?) = strings.map some := by
  constructor
  · rintro ⟨rfl, hmissing⟩
    rw [List.map_map]
    apply List.map_congr_left
    intro k hk
    rcases hstored : db[k]? with _ | v
    · obtain ⟨j, hj⟩ := List.mem_iff_getElem?.mp hk
      have hmem : (0 + (j : Int)) ∈ missing db 0 ids := mem_missing.mpr ⟨j, k, rfl, hj, hstored⟩
      rw [hmissing] at hmem
      cases hmem
    · simp [hstored]
  · intro hall
    constructor
    · have hgetD := congrArg (List.map fun v : Option Bytes => v.getD []) hall
      simpa [Function.comp_def] using hgetD
    · apply missing_eq_nil
      intro k hk hnone
      have hmem := List.mem_map_of_mem (f := fun k => db[k]?) hk
      rw [hall, hnone] at hmem
      simp at hmem

theorem readsBack_iff {s : Server} {strings : List Bytes} {ids : List NumID}
    (hlength : ids.length = strings.length) :
    s.ReadsBack strings ids ↔ ∀ p ∈ strings.zip ids, s.diskStorage[p.2]? = some p.1 := by
  have hquery : Node.query {} s { op := .ID2STR, ids := ids } =
      some (.response
        { op := .ID2STR
          strings := ids.map fun k => s.diskStorage[k]?.getD []
          failures := missing s.diskStorage 0 ids }, .running s) := by
    simp only [Node.query, Server.queryImpl, lookup_eq]
  rw [← map_eq_map_iff_forall_zip hlength, ← lookup_complete_iff]
  constructor
  · rintro ⟨hlookup, -⟩
    simpa only [hquery, Option.some.injEq, Prod.mk.injEq, Outcome.response.injEq,
      Query.mk.injEq, and_true, true_and] using hlookup
  · rintro ⟨hvalues, hfailures⟩
    refine ⟨by rw [hquery, hvalues, hfailures], ?_⟩
    intro p q hpq
    rw [← hvalues, List.getElem?_map, List.getElem?_map, hpq]

namespace Server.Numbered

variable {db : Store} {c : NumID} {strings : List Bytes} {l : Loop}

/-- Behind an answered id stands a string of the request or of the old store with the C
    string that was asked for. -/
theorem stored_of_answered (h : Numbered (memoryOf db) c strings l)
    (hfree : ∀ p ∈ l.kvPairs, db[p.key]? = none) {x : Bytes} {id : NumID}
    (hx : (x, id) ∈ strings.zip l.ids) :
    ∃ v, (putBatch db l.kvPairs)[id]? = some v ∧ cstr v = cstr x ∧
      (v ∈ strings ∨ db[id]? = some v) := by
  rcases h.mem_iff.mp (h.mem_ids hx) with ⟨p, hp, hcstr, rfl⟩ | hold
  · exact ⟨p.value, (mem_putBatch h.keys_nodup).mpr (Or.inl ⟨p, hp, rfl, rfl⟩), hcstr,
      Or.inl (h.requested p hp)⟩
  · obtain ⟨v, hv, hcstr⟩ := mem_memoryOf hold
    exact ⟨v, extends_putBatch hfree id v hv, hcstr, Or.inr hv⟩

/-- The answered ids lead back to the requested strings exactly when the C strings tell
    them apart. -/
theorem stored_iff (h : Numbered (memoryOf db) c strings l)
    (hfree : ∀ p ∈ l.kvPairs, db[p.key]? = none) (hdb : PrefixDistinct db) :
    (∀ p ∈ strings.zip l.ids, (putBatch db l.kvPairs)[p.2]? = some p.1) ↔
      ∀ x ∈ strings, (∀ y ∈ strings, cstr y = cstr x → y = x) ∧
        ∀ (id : NumID) (v : Bytes), db[id]? = some v → cstr v = cstr x → v = x := by
  constructor
  · intro hstored x hx
    obtain ⟨id, hzip, hid⟩ := h.isSome_of_mem hx
    have hstoredx : (putBatch db l.kvPairs)[id]? = some x := hstored (x, id) hzip
    constructor
    · -- strings with one C string are answered with one id
      intro y hy hcstr
      obtain ⟨id', hzip', hid'⟩ := h.isSome_of_mem hy
      rw [hcstr, hid] at hid'
      cases hid'
      have hstoredy : (putBatch db l.kvPairs)[id]? = some y := hstored (y, id) hzip'
      rw [hstoredx] at hstoredy
      exact (Option.some.inj hstoredy).symm
    · intro id' v hv hcstr
      have hold : (memoryOf db)[cstr x]? = some id' := hdb.memoryOf_eq_some.mpr ⟨v, hv, hcstr⟩
      have hsame : l.memoryStorage[cstr x]? = some id' := h.mem_iff.mpr (Or.inr hold)
      rw [hid] at hsame
      cases hsame
      have hkept := extends_putBatch hfree id v hv
      rw [hstoredx] at hkept
      exact (Option.some.inj hkept).symm
  · rintro hapart ⟨x, id⟩ hx
    obtain ⟨v, hv, hcstr, hv' | hv'⟩ := h.stored_of_answered hfree hx
    · rw [← (hapart x (List.of_mem_zip hx).1).1 v hv' hcstr]
      exact hv
    · rw [← (hapart x (List.of_mem_zip hx).1).2 id v hv' hcstr]
      exact hv

end Server.Numbered

/-- A process that was started on an empty database gives back the strings it numbered
    exactly when their C strings tell them apart. -/
theorem readsBack_iff_tellsApart (es : List Event)
    (hes : ∀ e ∈ es, (∃ q, e = .query q) ∨ e = .disableS2i ∨ e = .enableS2i)
    (tr : List (Machine.Record Node Event Outcome)) (s : Server)
    (h : history (.stopped ∅) (.start false :: es) = some (tr, .running s))
    (strings : List Bytes) (response : Query) (s' : Server)
    (hquery : Node.query {} s { op := .STR2ID, strings := strings } =
      some (.response response, .running s')) :
    s'.ReadsBack strings response.ids ↔ s.TellsApart strings := by
  have hstart : ∀ e ∈ .start false :: es, e ≠ .start true := by
    intro e he
    rcases List.mem_cons.mp he with rfl | he
    · simp
    · rcases hes e he with ⟨q, rfl⟩ | rfl | rfl <;> simp
  have hcoupled : s.Coupled := (coupled_history h hstart (Node.coupled_stopped ∅)).1 s rfl
  have hdb : PrefixDistinct s.diskStorage :=
    (prefixDistinct_history h hstart (Node.coupled_stopped ∅) prefixDistinct_empty).1
  cases Node.transition_of_query hquery with
  | lookup _ _ hop | unknown _ _ code hop => cases hop
  | number _ _ l hop henabled hrounds =>
    have hl := hcoupled.memory.numbered henabled hrounds
    have hfree : ∀ p ∈ l.kvPairs, s.diskStorage[p.key]? = none :=
      hcoupled.free henabled hl
    rw [readsBack_iff hl.length_ids]
    exact hl.stored_iff hfree hdb

/-- A request that the C strings tell apart. -/
theorem readsBack_iff_tellsApart_embedded :
    ∃ tr s s', history (.stopped ∅) [.start false] = some (tr, .running s) ∧
      Node.query {} s { op := .STR2ID, strings := [[97, 0, 98], [99], [97, 0, 98]] } =
        some (.response { op := .STR2ID, ids := [1, 2, 1] }, .running s') ∧
      (s'.ReadsBack [[97, 0, 98], [99], [97, 0, 98]] [1, 2, 1] ↔
        s.TellsApart [[97, 0, 98], [99], [97, 0, 98]]) := by
  obtain ⟨⟨tr, n⟩, h, rfl⟩ := Option.map_eq_some_iff.mp
    (show (history (.stopped ∅) [.start false]).map Prod.snd =
      some (.running ⟨∅, ∅, 1, false⟩) from by decide)
  have hquery : Node.query {} ⟨∅, ∅, 1, false⟩
      { op := .STR2ID, strings := [[97, 0, 98], [99], [97, 0, 98]] } =
        some (.response { op := .STR2ID, ids := [1, 2, 1] }, .running
          ⟨((∅ : Store).insert 1 [97, 0, 98]).insert 2 [99],
            ExtTreeMap.insert (ExtTreeMap.insert (∅ : MemoryStorage) (cstr [97]) 1) (cstr [99]) 2,
            3, false⟩) := by
    decide
  exact ⟨tr, _, _, h, hquery, readsBack_iff_tellsApart [] (by simp) tr _ h _ _ _ hquery⟩

/-- Two strings with one C string are both given back as the first of them. -/
theorem not_readsBack_shared_prefix :
    ∃ tr s s', history (.stopped ∅) [.start false] = some (tr, .running s) ∧
      Node.query {} s { op := .STR2ID, strings := [[97, 0, 98], [97, 0, 99]] } =
        some (.response { op := .STR2ID, ids := [1, 1] }, .running s') ∧
      Node.query {} s' { op := .ID2STR, ids := [1, 1] } =
        some (.response { op := .ID2STR, strings := [[97, 0, 98], [97, 0, 98]] }, .running s') ∧
      ¬ s'.ReadsBack [[97, 0, 98], [97, 0, 99]] [1, 1] := by
  obtain ⟨⟨tr, n⟩, h, rfl⟩ := Option.map_eq_some_iff.mp
    (show (history (.stopped ∅) [.start false]).map Prod.snd =
      some (.running ⟨∅, ∅, 1, false⟩) from by decide)
  refine ⟨tr, ⟨∅, ∅, 1, false⟩, ⟨(∅ : Store).insert 1 [97, 0, 98],
    ExtTreeMap.insert (∅ : MemoryStorage) (cstr [97]) 1, 2, false⟩, h, by decide, by decide, ?_⟩
  rintro ⟨-, hequal⟩
  exact absurd (hequal 0 1 rfl) (by decide)

end Numerator
