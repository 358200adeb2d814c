import Numerator.Crashes
import Numerator.Interruption

/-!
# Backups

A data directory is exported now and then, and the files are imported into
another directory: in any order, any of them again, and any import may fail or
be killed. The copy never holds anything that the service has not stored. Once
an export has been imported to its end, a service that is started on the copy
goes on with the numbering that clients were told before the export.
-/

namespace Numerator

open Std FiniteMap DiskStorage InputStream

/-- A data directory, the files of its exports in their order, and the directory that they are
    imported into. -/
structure Site where
  node : Node
  files : List Bytes := []
  copy : Store := ∅

/-- An import reads the `k`th file, and is killed after so many rounds if it has not ended. -/
inductive SiteEvent where
  | life (e : CrashEvent)
  | exported (env : ExportEnv) (args : ExportArgs)
  | imported (k : Nat) (env : ImportEnv) (args : ImportArgs) (rounds : Nat)

inductive SiteOutcome where
  | life (o : Outcome)
  | exported (exit : Exit)
  | imported (exit : Option Exit)
deriving DecidableEq

def Site.step (site : Site) : SiteEvent → Option (SiteOutcome × Site)
  | .life e =>
    match site.node.survive e with
    | none => none
    | some (o, node) => some (.life o, { site with node := node })
  | .exported env args =>
    let exported := numexport env args
    some (.exported exported.exit, { site with files := site.files ++ [exported.bytes] })
  | .imported k env args rounds =>
    match numimportUntil env rounds args site.copy (site.files[k]?.map .ofBytes) with
    | (copy, exit) => some (.imported exit, { site with copy := copy })

/-! ### Exports -/

namespace SiteEvent

/-- The format that `numexport` writes. -/
def format (args : ExportArgs) : Bool := args.binaryDump && decide (args.outputFile ≠ "")

/-- Loads come to the end of the database unless they throw. An export may see a part of the
    database, but the format has to carry the strings, and its file has more in it than the
    magic number. -/
def Faithful (db : Store) : SiteEvent → Prop
  | .life e => e.ReadsAll db
  | .exported env args =>
    env.it.entries <+: db.toList ∧ (∀ p ∈ env.it.entries, Carries (format args) p.2) ∧
      (numexport env args).bytes ≠ dumpHeader true
  | .imported _ _ _ _ => True

instance (db : Store) : DecidablePred (Faithful db)
  | .life e => inferInstanceAs (Decidable (e.ReadsAll db))
  | .exported _ _ => inferInstanceAs (Decidable (_ ∧ _ ∧ _))
  | .imported _ _ _ _ => isTrue trivial

/-- The strings and ids that the event tells a client. -/
def told : SiteEvent → SiteOutcome → List (Bytes × NumID)
  | .life e, .life o => e.told o
  | _, _ => []

end SiteEvent

/-- What a loop over entries writes, whether or not the iterator fails. -/
theorem dumpLoop_prefix (status : Nat → Option String) (binaryDump : Bool) (n : Nat)
    (stream : Bytes) (entries : List (NumID × Bytes)) :
    ∃ front, front <+: entries ∧
      (dumpLoop status binaryDump n stream entries).1 = stream ++ records binaryDump front ∧
      ((dumpLoop status binaryDump n stream entries).2 = .ok () → front = entries) := by
  induction entries generalizing n stream with
  | nil => exact ⟨[], List.prefix_rfl, (List.append_nil _).symm, fun _ => rfl⟩
  | cons p entries ih =>
    rw [dumpLoop]
    split
    · exact ⟨[], List.nil_prefix, (List.append_nil _).symm, fun hok => by cases hok⟩
    · obtain ⟨front, hfront, hstream, hall⟩ := ih (n + 1) (stream ++ dumpEntry binaryDump p.1 p.2)
      refine ⟨p :: front, List.cons_prefix_cons.mpr ⟨rfl, hfront⟩, ?_, fun hok => ?_⟩
      · rw [hstream, records_cons, List.append_assoc]
      · rw [hall hok]

theorem isDump_dump {it : Iterator} {binaryDump : Bool}
    (hcarries : ∀ p ∈ it.entries, Carries binaryDump p.2)
    (hheader : (dump it [] binaryDump).1 ≠ dumpHeader true) :
    ∃ entries, entries <+: it.entries ∧ IsDump entries (dump it [] binaryDump).1 ∧
      (dumpExit (dump it [] binaryDump).2 = .success → entries = it.entries) := by
  obtain ⟨front, hfront, hstream, hall⟩ :=
    dumpLoop_prefix it.status binaryDump 0 ([] ++ dumpHeader binaryDump) it.entries
  rw [List.nil_append] at hstream hall
  change (dump it [] binaryDump).1 = _ at hstream
  refine ⟨front, hfront, ⟨binaryDump, hstream, ?_, ?_⟩, fun hexit => hall ?_⟩
  · exact fun p hp => hcarries p (hfront.subset hp)
  · rintro rfl rfl
    exact hheader (hstream.trans (List.append_nil _))
  · change (dump it [] binaryDump).2 = .ok ()
    rcases hresult : (dump it [] binaryDump).2 with f | ⟨⟩
    · rw [hresult] at hexit
      cases hexit
    · rfl

/-- The file of an export holds entries of the database, and all that the iterator yields if
    the export ends with success. -/
theorem isDump_numexport {env : ExportEnv} {args : ExportArgs}
    (hcarries : ∀ p ∈ env.it.entries, Carries (SiteEvent.format args) p.2)
    (hheader : (numexport env args).bytes ≠ dumpHeader true) :
    ∃ entries, entries <+: env.it.entries ∧ IsDump entries (numexport env args).bytes ∧
      ((numexport env args).exit = .success → entries = env.it.entries) := by
  have hfailed : ∀ message, ∃ entries, entries <+: env.it.entries ∧
      IsDump entries (Exported.bytes { exit := .failure message }) ∧
      (Exit.failure message = .success → entries = env.it.entries) :=
    fun message => ⟨[], List.nil_prefix, ⟨false, rfl, by simp, by simp⟩, fun h => by cases h⟩
  unfold SiteEvent.format at hcarries
  unfold numexport at hheader ⊢
  split
  · exact hfailed _
  · rename_i hdir
    rw [if_neg hdir] at hheader
    split
    · exact hfailed _
    · rename_i hopen
      simp only [hopen] at hheader
      split
      · rename_i hout
        rw [if_pos hout] at hheader
        rw [decide_eq_true hout, Bool.and_true] at hcarries
        split
        · exact hfailed _
        · rename_i hfile
          rw [if_neg hfile] at hheader
          exact isDump_dump hcarries hheader
      · rename_i hout
        rw [if_neg hout] at hheader
        rw [decide_eq_false hout, Bool.and_false] at hcarries
        exact isDump_dump hcarries hheader

/-! ### One step -/

namespace Site

/-- The files and the copy hold entries of the data directory only. -/
structure Sound (site : Site) : Prop where
  recovers : site.node.Recovers
  files : ∀ file ∈ site.files, ∃ entries, IsDump entries file ∧
    ∀ p ∈ entries, site.node.store[p.1]? = some p.2
  copy : Extends site.copy site.node.store

/-- What a step keeps, and what it does to the store. -/
structure Kept (site : Site) (told : List (Bytes × NumID)) (site' : Site) : Prop where
  sound : site'.Sound
  effect : Effect site.node.store told site'.node.store
  files : site.files <+: site'.files
  copy : Extends site.copy site'.copy

variable {site site' : Site} {e : SiteEvent} {o : SiteOutcome}

theorem kept_of_life {e : CrashEvent} {o : Outcome} {node : Node} (hsite : site.Sound)
    (he : e.ReadsAll site.node.store) (h : site.node.survive e = some (o, node)) :
    site.Kept (e.told o) { site with node := node } := by
  have heffect := effect_of_survive hsite.recovers h
  refine ⟨⟨recovers_of_survive hsite.recovers he h, ?_, ?_⟩, heffect, List.prefix_rfl,
    Extends.refl _⟩
  · intro file hfile
    obtain ⟨entries, hdump, hentries⟩ := hsite.files file hfile
    exact ⟨entries, hdump, fun p hp => heffect.grows p.1 p.2 (hentries p hp)⟩
  · exact hsite.copy.trans heffect.grows

theorem kept_of_exported {env : ExportEnv} {args : ExportArgs} (hsite : site.Sound)
    (he : SiteEvent.Faithful site.node.store (.exported env args)) :
    site.Kept [] { site with files := site.files ++ [(numexport env args).bytes] } := by
  obtain ⟨hyields, hcarries, hheader⟩ := he
  refine ⟨⟨hsite.recovers, ?_, hsite.copy⟩, .still, List.prefix_append _ _, Extends.refl _⟩
  intro file hfile
  rcases List.mem_append.mp hfile with hfile | hfile
  · exact hsite.files file hfile
  · obtain ⟨entries, hentries, hdump, -⟩ := isDump_numexport hcarries hheader
    rw [List.mem_singleton.mp hfile]
    refine ⟨entries, hdump, fun p hp => ?_⟩
    exact ExtTreeMap.mem_toList_iff_getElem?_eq_some.mp
      (hyields.subset (hentries.subset hp))

theorem kept_of_imported (k : Nat) (env : ImportEnv) (args : ImportArgs) (rounds : Nat)
    (hsite : site.Sound) :
    site.Kept [] { site with copy :=
      (numimportUntil env rounds args site.copy (site.files[k]?.map .ofBytes)).1 } := by
  obtain ⟨entries, hentries, himported⟩ : ∃ entries : List (NumID × Bytes),
      (∀ p ∈ entries, site.node.store[p.1]? = some p.2) ∧
        Imported entries site.copy
          (numimportUntil env rounds args site.copy (site.files[k]?.map .ofBytes)).1 False := by
    rcases hfile : site.files[k]? with _ | file
    · refine ⟨[], by simp, ?_⟩
      rw [Option.map_none, numimportUntil_none]
      exact imported_nothing site.copy False.elim
    · obtain ⟨entries, hdump, hentries⟩ := hsite.files file (List.mem_of_getElem? hfile)
      exact ⟨entries, hentries,
        (imported_numimportUntil hdump env rounds args site.copy).imp False.elim⟩
  refine ⟨⟨hsite.recovers, hsite.files, himported.within hsite.copy hentries⟩, .still,
    List.prefix_rfl, himported.grows hsite.copy hentries⟩

theorem kept_of_step (hsite : site.Sound) (he : e.Faithful site.node.store)
    (h : site.step e = some (o, site')) : site.Kept (e.told o) site' := by
  cases e with
  | life e =>
    unfold step at h
    rcases hlife : site.node.survive e with _ | ⟨o', node⟩
    · simp only [hlife] at h
      cases h
    · simp only [hlife] at h
      cases h
      exact kept_of_life hsite he hlife
  | exported env args =>
    cases h
    exact kept_of_exported hsite he
  | imported k env args rounds =>
    cases h
    exact kept_of_imported k env args rounds hsite

end Site

/-! ### Complete backups -/

/-- An export that has read the whole database and ends with success. -/
def ExportsAll (r : Machine.Record Site SiteEvent SiteOutcome) : Prop :=
  match r.event, r.output with
  | .exported env _, .exported .success => env.it.entries = r.before.node.store.toList
  | _, _ => False

/-- An import of the `k`th file that ends with success. -/
def ImportsAll (k : Nat) (r : Machine.Record Site SiteEvent SiteOutcome) : Prop :=
  match r.event, r.output with
  | .imported k' _ _ _, .imported (some .success) => k' = k
  | _, _ => False

instance : DecidablePred ExportsAll := by
  intro r
  unfold ExportsAll
  split <;> infer_instance

instance (k : Nat) : DecidablePred (ImportsAll k) := by
  intro r
  unfold ImportsAll
  split <;> infer_instance

section Records

variable {q r : Machine.Record Site SiteEvent SiteOutcome}

/-- The file of a complete export, which stays where it is. -/
theorem file_of_exportsAll (hr : Machine.IsStep Site.step r)
    (he : r.event.Faithful r.before.node.store) (hall : ExportsAll r) :
    ∃ file, r.after.files[r.before.files.length]? = some file ∧
      IsDump r.before.node.store.toList file := by
  obtain ⟨before, event, output, after⟩ := r
  unfold ExportsAll at hall
  split at hall
  case h_2 => cases hall
  rename_i env args hevent houtput
  obtain rfl : event = _ := hevent
  obtain rfl : output = _ := houtput
  obtain ⟨-, hcarries, hheader⟩ := he
  have hstep : some (SiteOutcome.exported (numexport env args).exit,
      { before with files := before.files ++ [(numexport env args).bytes] }) =
        some (SiteOutcome.exported .success, after) := hr
  obtain ⟨hexit, rfl⟩ := Prod.mk.inj (Option.some.inj hstep)
  obtain ⟨entries, -, hdump, hcomplete⟩ := isDump_numexport hcarries hheader
  rw [hcomplete (SiteOutcome.exported.inj hexit), hall] at hdump
  exact ⟨_, List.getElem?_concat_length, hdump⟩

/-- After a complete import of a complete export the copy has the whole database of then. -/
theorem extends_of_importsAll {store : Store} {k : Nat} {file : Bytes} (hsite : r.before.Sound)
    (hr : Machine.IsStep Site.step r) (hstore : Extends store r.before.node.store)
    (hfile : r.before.files[k]? = some file) (hdump : IsDump store.toList file)
    (hall : ImportsAll k r) : Extends store r.after.copy := by
  obtain ⟨before, event, output, after⟩ := r
  unfold ImportsAll at hall
  split at hall
  case h_2 => cases hall
  rename_i k' env args rounds hevent houtput
  obtain rfl : event = _ := hevent
  obtain rfl : output = _ := houtput
  obtain rfl : k' = k := hall
  have hstep : some (SiteOutcome.imported
      (numimportUntil env rounds args before.copy (before.files[k']?.map .ofBytes)).2,
      { before with copy :=
          (numimportUntil env rounds args before.copy (before.files[k']?.map .ofBytes)).1 }) =
        some (SiteOutcome.imported (some .success), after) := hr
  obtain ⟨hexit, rfl⟩ := Prod.mk.inj (Option.some.inj hstep)
  change before.files[k']? = some file at hfile
  rw [hfile] at hexit ⊢
  have himported := imported_numimportUntil hdump env rounds args before.copy
  have hentries : ∀ p ∈ store.toList, before.node.store[p.1]? = some p.2 := by
    intro p hp
    exact hstore p.1 p.2 (ExtTreeMap.mem_toList_iff_getElem?_eq_some.mp hp)
  intro id v hv
  exact himported.complete hsite.copy hentries (SiteOutcome.imported.inj hexit) (id, v)
    (ExtTreeMap.mem_toList_iff_getElem?_eq_some.mpr hv)

end Records

/-! ### Going on from the copy -/

/-- A part of a database numbers the strings that it carries as the database does. -/
theorem number_of_extends {copy store : Store} {p : Bytes × NumID} (h : Extends copy store)
    (hcopy : Carried copy p) (hstore : (numbering store).number (cstr p.1) = some p.2) :
    (numbering copy).number (cstr p.1) = some p.2 := by
  have hlast := (getElem?_index.mp hstore).last
  exact getElem?_index.mpr ⟨hcopy, fun a' b' hb' hf => hlast a' b' (h a' b' hb') hf⟩

/-- The clients of this life of a directory find what another client was told. -/
structure Continues (p : Bytes × NumID) (tr : List (Machine.Record Node CrashEvent Outcome)) :
    Prop where
  agree : ∀ r ∈ tr, ∀ p' ∈ r.event.told r.output, cstr p.1 = cstr p'.1 ↔ p.2 = p'.2
  lookups : ∀ r ∈ tr, ∀ request response, r.event.asked = some request →
    r.output = .response response → request.op = .ID2STR → ∀ i : Nat,
      request.ids[i]? = some p.2 →
        (∃ v, response.strings[i]? = some v ∧ cstr v = cstr p.1) ∧ (i : Int) ∉ response.failures

theorem continues_of_number {db : Store} {p : Bytes × NumID}
    (hp : (numbering db).number (cstr p.1) = some p.2) {events : List CrashEvent}
    {tr : List (Machine.Record Node CrashEvent Outcome)} {n : Node}
    (h : Machine.run Node.survive (.stopped db) events = some (tr, n))
    (hreads : ∀ r ∈ tr, r.event.ReadsAll r.before.store) : Continues p tr := by
  have hstopped : (Node.stopped db).Recovers := fun _ hs => by cases hs
  obtain ⟨-, hnumbered⟩ := Machine.run_invariant (fun r => r.event.ReadsAll r.before.store)
    (fun n => n.Recovers ∧ (numbering n.store).number (cstr p.1) = some p.2)
    (fun r hr hC hn => ⟨recovers_of_survive hn.1 hC hr,
      (effect_of_survive hn.1 hr).keeps (cstr p.1) p.2 hn.2⟩) h hreads ⟨hstopped, hp⟩
  constructor
  · intro r hr p' hp'
    obtain ⟨⟨hrecovers, -⟩, -, hafter⟩ := hnumbered r hr
    have heffect := effect_of_survive hrecovers (Machine.isStep_of_run h r hr)
    exact agree_of_number hafter (heffect.numbered p' hp')
  · rintro ⟨before, e, o, after⟩ hr request response hasked rfl hop i hi
    obtain ⟨⟨-, hbefore⟩, -⟩ := hnumbered _ hr
    exact (looked_of_survive (Machine.isStep_of_run h _ hr) hasked hop).found
      (carried_of_number hbefore) hi

/-! ### Whole lives -/

/-- What a record has brought about stays. -/
structure Past (q : Machine.Record Site SiteEvent SiteOutcome) (site : Site) : Prop where
  told : ∀ p ∈ q.event.told q.output, (numbering site.node.store).number (cstr p.1) = some p.2
  store : Extends q.before.node.store site.node.store
  file : ExportsAll q → ∃ file, site.files[q.before.files.length]? = some file ∧
    IsDump q.before.node.store.toList file
  copy : Extends q.after.copy site.copy

theorem past_of_step {r : Machine.Record Site SiteEvent SiteOutcome}
    (hr : Machine.IsStep Site.step r) (he : r.event.Faithful r.before.node.store)
    (hsite : r.before.Sound) : Past r r.after := by
  have hkept := Site.kept_of_step hsite he hr
  exact ⟨hkept.effect.numbered, hkept.effect.grows, file_of_exportsAll hr he, Extends.refl _⟩

theorem Past.step {q r : Machine.Record Site SiteEvent SiteOutcome}
    (hq : Past q r.before) (hr : Machine.IsStep Site.step r)
    (he : r.event.Faithful r.before.node.store) (hsite : r.before.Sound) : Past q r.after := by
  have hkept := Site.kept_of_step hsite he hr
  refine ⟨?_, hq.store.trans hkept.effect.grows, ?_, hq.copy.trans hkept.copy⟩
  · intro p hp
    exact hkept.effect.keeps (cstr p.1) p.2 (hq.told p hp)
  · intro hall
    obtain ⟨file, hfile, hdump⟩ := hq.file hall
    obtain ⟨tail, htail⟩ := hkept.files
    refine ⟨file, ?_, hdump⟩
    rw [← htail, List.getElem?_append_left (List.getElem?_eq_some_iff.mp hfile).1]
    exact hfile

/-- Two exports, in both formats. Of the second one an import is killed and another one fails
    after its write, and the first one is imported at last. -/
def backupLife : List SiteEvent :=
  let first : Store := (∅ : Store).insert 1 [97]
  let second : Store := first.insert 2 [98]
  let env : ImportEnv := { key := 7, memory := fun _ _ => 0 }
  let start (db : Store) : SiteEvent := .life (.served (.start (newIterator db) fun _ => {}))
  let ask (s : Bytes) : SiteEvent :=
    .life (.served (.call (.query {} { op := .STR2ID, strings := [s] })))
  [start ∅, ask [97], .life (.served .stop),
    .exported { it := newIterator first }
      { dataDir := "data", outputFile := "first", binaryDump := true },
    start first, ask [98], .life (.served .stop),
    .exported { it := newIterator second } { dataDir := "data" },
    .imported 1 env { dataDir := "copy", dataFile := "second" } 2,
    .imported 1 { env with writes := fun _ => .failed "IO error" true }
      { dataDir := "copy", dataFile := "second" } 3,
    .imported 0 env { dataDir := "copy", dataFile := "first", binaryDump := true } 3]

/-- A process on the copy is asked for a new string and for the one of the first export. -/
def copyLife (copy : Store) : List CrashEvent :=
  [.served (.start (newIterator copy) fun _ => {}),
    .served (.call (.query {} { op := .STR2ID, strings := [[99], [97]] })),
    .served (.call (.query {} { op := .ID2STR, ids := [1, 3] }))]

end Numerator
