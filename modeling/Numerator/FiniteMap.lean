import Mathlib

/-!
# Finite maps filled from lists

Facts about extensional tree maps that are written by a sequence of puts and
read back by key. `putAll` is the fold of single puts, so a later put of a key
wins over an earlier one. `index` turns a map around along a function of its
values: it runs over the entries in key order and keeps, for every function
value, the last key that carries it. Nothing here depends on what the keys and
the values are.
-/

namespace FiniteMap

open Std

universe u

variable {α β γ κ : Type u} {cmp : α → α → Ordering} {cmpκ : κ → κ → Ordering}

/-! ### Sequences of puts -/

/-- Put `val x` under `key x` for every `x` of the list, in list order. -/
def putAll [TransCmp cmp] (key : γ → α) (val : γ → β) (m : ExtTreeMap α β cmp)
    (l : List γ) : ExtTreeMap α β cmp :=
  l.foldl (fun m x => m.insert (key x) (val x)) m

section PutAll

variable [TransCmp cmp] {key : γ → α} {val : γ → β} {m : ExtTreeMap α β cmp}

@[simp] theorem putAll_nil : putAll key val m [] = m := rfl

@[simp] theorem putAll_cons (x : γ) (l : List γ) :
    putAll key val m (x :: l) = putAll key val (m.insert (key x) (val x)) l := rfl

theorem putAll_append (l l' : List γ) :
    putAll key val m (l ++ l') = putAll key val (putAll key val m l) l' := by
  simp only [putAll, List.foldl_append]

@[simp] theorem putAll_concat (l : List γ) (x : γ) :
    putAll key val m (l ++ [x]) = (putAll key val m l).insert (key x) (val x) := by
  simp only [putAll, List.foldl_append, List.foldl_cons, List.foldl_nil]

variable [LawfulEqCmp cmp]

theorem getElem?_insert_of_ne {a k : α} (v : β) (h : a ≠ k) :
    (m.insert a v)[k]? = m[k]? := by
  rw [ExtTreeMap.getElem?_insert, if_neg]
  rwa [LawfulEqCmp.compare_eq_iff_eq]

/-- A map with one entry says which one it is. -/
theorem insert_empty_inj {a a' : α} {b b' : β}
    (h : (∅ : ExtTreeMap α β cmp).insert a b = (∅ : ExtTreeMap α β cmp).insert a' b') :
    a = a' ∧ b = b' := by
  have hentry : ((∅ : ExtTreeMap α β cmp).insert a' b')[a]? = some b := by
    rw [← h, ExtTreeMap.getElem?_insert_self]
  by_cases ha : a' = a
  · rw [ha, ExtTreeMap.getElem?_insert_self] at hentry
    exact ⟨ha.symm, (Option.some.inj hentry).symm⟩
  · rw [getElem?_insert_of_ne _ ha, ExtTreeMap.getElem?_empty] at hentry
    cases hentry

/-- A key that no element of the list writes keeps its entry. -/
theorem getElem?_putAll_of_forall_ne {l : List γ} {k : α}
    (h : ∀ x ∈ l, key x ≠ k) : (putAll key val m l)[k]? = m[k]? := by
  induction l generalizing m with
  | nil => rfl
  | cons x l ih =>
    rw [putAll_cons, ih fun y hy => h y (List.mem_cons_of_mem x hy),
      getElem?_insert_of_ne _ (h x List.mem_cons_self)]

/-- When the written keys are pairwise distinct every element is found again. -/
theorem getElem?_putAll_of_mem {l : List γ} (hl : (l.map key).Nodup) {x : γ}
    (hx : x ∈ l) : (putAll key val m l)[key x]? = some (val x) := by
  induction l generalizing m with
  | nil => cases hx
  | cons y l ih =>
    rw [List.map_cons, List.nodup_cons] at hl
    rcases List.mem_cons.mp hx with rfl | hx
    · rw [putAll_cons, getElem?_putAll_of_forall_ne, ExtTreeMap.getElem?_insert_self]
      intro z hz heq
      exact hl.1 (List.mem_map.mpr ⟨z, hz, heq⟩)
    · exact ih hl.2 hx

/-- The last write of a key wins. -/
theorem getElem?_putAll_of_last {front back : List γ} {x : γ} (h : ∀ y ∈ back, key y ≠ key x) :
    (putAll key val m (front ++ x :: back))[key x]? = some (val x) := by
  rw [putAll_append, putAll_cons, getElem?_putAll_of_forall_ne h, ExtTreeMap.getElem?_insert_self]

theorem getElem?_putAll_eq_some {l : List γ} (hl : (l.map key).Nodup) {k : α} {v : β} :
    (putAll key val m l)[k]? = some v ↔
      (∃ x ∈ l, key x = k ∧ val x = v) ∨ (∀ x ∈ l, key x ≠ k) ∧ m[k]? = some v := by
  by_cases h : ∃ x ∈ l, key x = k
  · obtain ⟨x, hx, rfl⟩ := h
    rw [getElem?_putAll_of_mem hl hx]
    constructor
    · intro hv
      exact Or.inl ⟨x, hx, rfl, Option.some.inj hv⟩
    · rintro (⟨y, hy, hkey, hval⟩ | ⟨hne, -⟩)
      · have hxy : y = x := List.inj_on_of_nodup_map hl hy hx hkey
        rw [← hval, hxy]
      · exact absurd rfl (hne x hx)
  · have hne : ∀ x ∈ l, key x ≠ k := fun x hx heq => h ⟨x, hx, heq⟩
    rw [getElem?_putAll_of_forall_ne hne]
    constructor
    · intro hv
      exact Or.inr ⟨hne, hv⟩
    · rintro (⟨x, hx, heq, -⟩ | ⟨-, hv⟩)
      · exact absurd heq (hne x hx)
      · exact hv

/-- Whatever the list, an entry afterwards is one of its writes or an old entry. -/
theorem getElem?_putAll_cases {l : List γ} {k : α} {v : β}
    (h : (putAll key val m l)[k]? = some v) :
    (∃ x ∈ l, key x = k ∧ val x = v) ∨ m[k]? = some v := by
  induction l generalizing m with
  | nil => exact Or.inr h
  | cons x l ih =>
    rw [putAll_cons] at h
    rcases ih h with ⟨y, hy, hkey, hval⟩ | h
    · exact Or.inl ⟨y, List.mem_cons_of_mem x hy, hkey, hval⟩
    · by_cases hx : key x = k
      · rw [hx, ExtTreeMap.getElem?_insert_self] at h
        exact Or.inl ⟨x, List.mem_cons_self, hx, Option.some.inj h⟩
      · rw [getElem?_insert_of_ne _ hx] at h
        exact Or.inr h

theorem getElem?_putAll_eq_none {l : List γ} {k : α} :
    (putAll key val m l)[k]? = none ↔ (∀ x ∈ l, key x ≠ k) ∧ m[k]? = none := by
  induction l generalizing m with
  | nil => simp
  | cons x l ih =>
    rw [putAll_cons, ih, List.forall_mem_cons]
    by_cases hx : key x = k
    · subst hx
      simp
    · rw [getElem?_insert_of_ne _ hx]
      exact ⟨fun h => ⟨⟨hx, h.1⟩, h.2⟩, fun h => ⟨h.1.2, h.2⟩⟩

theorem forall_mem_toList_iff {m : ExtTreeMap α β cmp} {P : α → β → Prop} :
    (∀ p ∈ m.toList, P p.1 p.2) ↔ ∀ (k : α) (v : β), m[k]? = some v → P k v := by
  simp only [Prod.forall, ExtTreeMap.mem_toList_iff_getElem?_eq_some]

/-- A map is filled again from its entries. -/
theorem putAll_toList (m : ExtTreeMap α β cmp) :
    putAll (Prod.fst : α × β → α) Prod.snd ∅ m.toList = m := by
  have hkeys : (m.toList.map Prod.fst).Nodup := by
    rw [ExtTreeMap.map_fst_toList_eq_keys]
    exact ExtTreeMap.nodup_keys
  apply ExtTreeMap.ext_getElem?
  intro k
  apply Option.ext
  intro v
  rw [getElem?_putAll_eq_some hkeys]
  constructor
  · rintro (⟨p, hp, rfl, rfl⟩ | ⟨-, hnone⟩)
    · exact ExtTreeMap.mem_toList_iff_getElem?_eq_some.mp hp
    · simp at hnone
  · intro hv
    exact Or.inl ⟨(k, v), ExtTreeMap.mem_toList_iff_getElem?_eq_some.mpr hv, rfl, rfl⟩

theorem size_putAll {l : List γ} (hl : (l.map key).Nodup) (h : ∀ x ∈ l, m[key x]? = none) :
    (putAll key val m l).size = m.size + l.length := by
  induction l generalizing m with
  | nil => rfl
  | cons x l ih =>
    rw [List.map_cons, List.nodup_cons] at hl
    rw [List.forall_mem_cons] at h
    have hnew : m.contains (key x) = false := by
      rw [ExtTreeMap.contains_eq_isSome_getElem?, h.1]
      rfl
    have hrest : ∀ y ∈ l, (m.insert (key x) (val x))[key y]? = none := by
      intro y hy
      rw [getElem?_insert_of_ne _ fun heq => hl.1 (List.mem_map.mpr ⟨y, hy, heq.symm⟩)]
      exact h.2 y hy
    rw [putAll_cons, ih hl.2 hrest, ExtTreeMap.size_insert, hnew, List.length_cons]
    simp only [Bool.false_eq_true, if_false]
    omega

/-- Where every key of the map is written, nothing of the map is left. -/
theorem putAll_eq_putAll_empty {l : List γ} (h : ∀ k ∈ m, ∃ x ∈ l, key x = k) :
    putAll key val m l = putAll key val ∅ l := by
  have hsame : ∀ (m' : ExtTreeMap α β cmp) (k : α), (m[k]? = m'[k]? ∨ ∃ x ∈ l, key x = k) →
      (putAll key val m l)[k]? = (putAll key val m' l)[k]? := by
    clear h
    induction l generalizing m with
    | nil =>
      rintro m' k (heq | ⟨x, hx, -⟩)
      · exact heq
      · cases hx
    | cons x l ih =>
      intro m' k hk
      rw [putAll_cons, putAll_cons]
      apply ih
      by_cases hx : key x = k
      · left
        rw [hx, ExtTreeMap.getElem?_insert_self, ExtTreeMap.getElem?_insert_self]
      · rw [getElem?_insert_of_ne _ hx, getElem?_insert_of_ne _ hx]
        rcases hk with heq | ⟨y, hy, hkey⟩
        · exact Or.inl heq
        · rcases List.mem_cons.mp hy with rfl | hy
          · exact absurd hkey hx
          · exact Or.inr ⟨y, hy, hkey⟩
  apply ExtTreeMap.ext_getElem?
  intro k
  apply hsame
  by_cases hk : k ∈ m
  · exact Or.inr (h k hk)
  · left
    rw [ExtTreeMap.getElem?_eq_none hk, ExtTreeMap.getElem?_empty]

end PutAll

/-! ### Maps that extend each other -/

/-- Every entry of `m` is an entry of `m'`. -/
def Extends [TransCmp cmp] (m m' : ExtTreeMap α β cmp) : Prop :=
  ∀ (k : α) (v : β), m[k]? = some v → m'[k]? = some v

section Extends

variable [TransCmp cmp] {m m' : ExtTreeMap α β cmp}

theorem Extends.refl (m : ExtTreeMap α β cmp) : Extends m m := fun _ _ h => h

/-- Puts under keys that are not in the map keep every entry of the map. -/
theorem extends_insert [LawfulEqCmp cmp] {a : α} (b : β) (h : m[a]? = none) :
    Extends m (m.insert a b) := by
  intro k v hv
  rw [getElem?_insert_of_ne]
  · exact hv
  · rintro rfl
    rw [h] at hv
    cases hv

theorem extends_putAll [LawfulEqCmp cmp] {key : γ → α} {val : γ → β} {l : List γ}
    (h : ∀ x ∈ l, m[key x]? = none) : Extends m (putAll key val m l) := by
  intro k v hv
  rw [getElem?_putAll_of_forall_ne]
  · exact hv
  · intro x hx heq
    rw [← heq, h x hx] at hv
    cases hv

theorem Extends.trans {m'' : ExtTreeMap α β cmp} (h : Extends m m') (h' : Extends m' m'') :
    Extends m m'' := fun k v hv => h' k v (h k v hv)

/-! ### Maps that are filled from a greater one -/

variable [LawfulEqCmp cmp] {key : γ → α} {val : γ → β} {l : List γ}

/-- Whatever has been put into a map, in whatever order, stays within the map that it is
    taken from. -/
theorem Extends.putAll_left (hm : Extends m m') (hl : ∀ x ∈ l, m'[key x]? = some (val x)) :
    Extends (putAll key val m l) m' := by
  intro k v hv
  rcases getElem?_putAll_cases hv with ⟨x, hx, rfl, rfl⟩ | hv
  · exact hl x hx
  · exact hm k v hv

/-- What is put twice is the same both times. -/
theorem Extends.getElem?_putAll (hm : Extends m m') (hl : ∀ x ∈ l, m'[key x]? = some (val x))
    {k : α} {v : β} (hk : m[k]? = some v ∨ ∃ x ∈ l, key x = k ∧ val x = v) :
    (putAll key val m l)[k]? = some v := by
  have hv : m'[k]? = some v := by
    rcases hk with hold | ⟨x, hx, rfl, rfl⟩
    · exact hm k v hold
    · exact hl x hx
  rcases hput : (putAll key val m l)[k]? with _ | w
  · obtain ⟨hne, hnone⟩ := getElem?_putAll_eq_none.mp hput
    rcases hk with hold | ⟨x, hx, hkey, -⟩
    · rw [hnone] at hold
      cases hold
    · exact absurd hkey (hne x hx)
  · have hw := hm.putAll_left hl k w hput
    rw [hv] at hw
    exact hw.symm

theorem Extends.putAll_right (hm : Extends m m') (hl : ∀ x ∈ l, m'[key x]? = some (val x)) :
    Extends m (putAll key val m l) :=
  fun _ _ hv => hm.getElem?_putAll hl (Or.inl hv)

end Extends

/-! ### The inverse index -/

section Index

variable [TransCmp cmp]

/-- The keys of `m` by the `f`-value of their entries. The entries are visited in
    key order, so of several keys with one `f`-value the last one stays. -/
def index (cmpκ : κ → κ → Ordering) [TransCmp cmpκ] (f : β → κ)
    (m : ExtTreeMap α β cmp) : ExtTreeMap κ α cmpκ :=
  putAll (fun p : α × β => f p.2) Prod.fst ∅ m.toList

/-- `a` is the last key of `m` in key order whose entry has `f`-value `k`. -/
structure IsLast (f : β → κ) (m : ExtTreeMap α β cmp) (k : κ) (a : α) : Prop where
  carried : ∃ b, m[a]? = some b ∧ f b = k
  last : ∀ (a' : α) (b' : β), m[a']? = some b' → f b' = k → cmp a' a ≠ .gt

variable [TransCmp cmpκ] [LawfulEqCmp cmp] [LawfulEqCmp cmpκ] {f : β → κ} {m : ExtTreeMap α β cmp}

/-- Over a list with ascending keys the last write of a value is its greatest key. -/
theorem putAll_ascending_eq_some {l : List (α × β)}
    (hl : l.Pairwise fun p q => cmp p.1 q.1 = .lt) {k : κ} {a : α} :
    (putAll (fun p => f p.2) Prod.fst (∅ : ExtTreeMap κ α cmpκ) l)[k]? = some a ↔
      (∃ b, (a, b) ∈ l ∧ f b = k) ∧ ∀ p ∈ l, f p.2 = k → cmp p.1 a ≠ .gt := by
  induction l using List.reverseRecOn with
  | nil => simp
  | append_singleton l p ih =>
    obtain ⟨hl, -, hlast⟩ := List.pairwise_append.mp hl
    have hlt : ∀ q ∈ l, cmp q.1 p.1 = .lt := fun q hq => hlast q hq p (by simp)
    rw [putAll_concat]
    by_cases hp : f p.2 = k
    · rw [hp, ExtTreeMap.getElem?_insert_self]
      constructor
      · rintro ⟨⟩
        refine ⟨⟨p.2, by simp, hp⟩, ?_⟩
        intro q hq hfq
        rcases List.mem_append.mp hq with hq | hq
        · rw [hlt q hq]
          simp
        · rw [List.mem_singleton.mp hq, show cmp p.1 p.1 = .eq from ReflCmp.compare_self]
          simp
      · rintro ⟨⟨b, hb, hfb⟩, hgreatest⟩
        rcases List.mem_append.mp hb with hb | hb
        · -- an earlier key cannot be the greatest, for `p` comes after it
          exact absurd (OrientedCmp.gt_of_lt (hlt _ hb)) (hgreatest p (by simp) hp)
        · rw [← List.mem_singleton.mp hb]
    · rw [getElem?_insert_of_ne _ hp, ih hl]
      constructor
      · rintro ⟨⟨b, hb, hfb⟩, hgreatest⟩
        refine ⟨⟨b, List.mem_append_left _ hb, hfb⟩, ?_⟩
        intro q hq hfq
        rcases List.mem_append.mp hq with hq | hq
        · exact hgreatest q hq hfq
        · rw [List.mem_singleton.mp hq] at hfq
          exact absurd hfq hp
      · rintro ⟨⟨b, hb, hfb⟩, hgreatest⟩
        refine ⟨⟨b, ?_, hfb⟩, fun q hq => hgreatest q (List.mem_append_left _ hq)⟩
        rcases List.mem_append.mp hb with hb | hb
        · exact hb
        · rw [List.mem_singleton] at hb
          subst hb
          exact absurd hfb hp

theorem getElem?_index {k : κ} {a : α} :
    (index cmpκ f m)[k]? = some a ↔ IsLast f m k a := by
  rw [index, putAll_ascending_eq_some ExtTreeMap.ordered_keys_toList]
  simp only [Prod.forall, ExtTreeMap.mem_toList_iff_getElem?_eq_some]
  exact ⟨fun h => ⟨h.1, h.2⟩, fun h => ⟨h.carried, h.last⟩⟩

theorem index_eq_none {k : κ} :
    (index cmpκ f m)[k]? = none ↔ ∀ (a : α) (b : β), m[a]? = some b → f b ≠ k := by
  rw [index, getElem?_putAll_eq_none]
  simp [ExtTreeMap.mem_toList_iff_getElem?_eq_some]

/-- An entry under a new key with a new `f`-value adds one entry to the index. -/
theorem index_insert {a : α} {b : β} (ha : m[a]? = none)
    (hb : (index cmpκ f m)[f b]? = none) :
    index cmpκ f (m.insert a b) = (index cmpκ f m).insert (f b) a := by
  rw [index_eq_none] at hb
  have hne : ∀ {a' : α} {b' : β}, m[a']? = some b' → a ≠ a' := by
    rintro a' b' h rfl
    rw [ha] at h
    cases h
  apply ExtTreeMap.ext_getElem?
  intro k
  apply Option.ext
  intro a'
  rw [getElem?_index]
  by_cases hk : f b = k
  · subst hk
    rw [ExtTreeMap.getElem?_insert_self]
    constructor
    · rintro ⟨⟨b', hb', hf⟩, -⟩
      by_cases haa : a = a'
      · rw [haa]
      · rw [getElem?_insert_of_ne _ haa] at hb'
        exact absurd hf (hb a' b' hb')
    · rintro ⟨⟩
      refine ⟨⟨b, ExtTreeMap.getElem?_insert_self, rfl⟩, ?_⟩
      intro a' b' hb' hf
      by_cases haa : a = a'
      · rw [← haa, show cmp a a = .eq from ReflCmp.compare_self]
        simp
      · rw [getElem?_insert_of_ne _ haa] at hb'
        exact absurd hf (hb a' b' hb')
  · rw [getElem?_insert_of_ne _ hk, getElem?_index]
    -- entries with another `f`-value are those of `m`
    have hsame : ∀ (a' : α) (b' : β), f b' = k →
        ((m.insert a b)[a']? = some b' ↔ m[a']? = some b') := by
      intro a' b' hf
      by_cases haa : a = a'
      · subst haa
        rw [ExtTreeMap.getElem?_insert_self, ha]
        constructor
        · rintro ⟨⟩
          exact absurd hf hk
        · rintro ⟨⟩
      · rw [getElem?_insert_of_ne _ haa]
    constructor
    · rintro ⟨⟨b', hb', hf⟩, hlast⟩
      exact ⟨⟨b', (hsame a' b' hf).mp hb', hf⟩,
        fun c d hd hf' => hlast c d ((hsame c d hf').mpr hd) hf'⟩
    · rintro ⟨⟨b', hb', hf⟩, hlast⟩
      exact ⟨⟨b', (hsame a' b' hf).mpr hb', hf⟩,
        fun c d hd hf' => hlast c d ((hsame c d hf').mp hd) hf'⟩

/-- Puts of new keys with new and pairwise distinct `f`-values carry over to the
    index one by one, whatever the key order. -/
theorem index_putAll {key : γ → α} {val : γ → β} {l : List γ} (hkey : (l.map key).Nodup)
    (hval : (l.map fun x => f (val x)).Nodup) (hm : ∀ x ∈ l, m[key x]? = none)
    (hf : ∀ x ∈ l, (index cmpκ f m)[f (val x)]? = none) :
    index cmpκ f (putAll key val m l) =
      putAll (fun x => f (val x)) key (index cmpκ f m) l := by
  induction l generalizing m with
  | nil => rfl
  | cons x l ih =>
    rw [List.map_cons, List.nodup_cons] at hkey hval
    rw [List.forall_mem_cons] at hm hf
    have hins := index_insert hm.1 hf.1
    rw [putAll_cons, putAll_cons, ← hins]
    apply ih hkey.2 hval.2
    · intro y hy
      rw [getElem?_insert_of_ne _ fun heq => hkey.1 (List.mem_map.mpr ⟨y, hy, heq.symm⟩)]
      exact hm.2 y hy
    · intro y hy
      rw [hins, getElem?_insert_of_ne _ fun heq => hval.1 (List.mem_map.mpr ⟨y, hy, heq.symm⟩)]
      exact hf.2 y hy

end Index

end FiniteMap
