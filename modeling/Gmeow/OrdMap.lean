import Mathlib

/-!
# Ordered finite maps

A finite map kept as its list of bindings in strictly increasing key order. The
order is a field of the type, so a map with a repeated key or an unsorted scan
cannot be built, and a prefix scan is `entries` itself. Nothing here knows what
is stored: the metadata tables, the pack directory and the free-form attribute
maps of the model are all instances.

* `get`, `set`, `erase`, `put` — point reads and writes; `put` takes an optional
  value, so a deletion is a write like any other.
* `mem_entries_iff` — a scan sees exactly the bindings a point read sees.
* `merge` — the right-biased union.
-/

universe u v

/-- A finite map from `K` to `V`: bindings in strictly increasing key order. -/
structure OrdMap (K : Type u) (V : Type v) [LinearOrder K] where
  /-- the bindings, in key order -/
  entries : List (K × V)
  /-- keys strictly increase, so each occurs once -/
  sorted : entries.Pairwise fun a b => a.1 < b.1

namespace OrdMap

variable {K : Type u} {V : Type v} [LinearOrder K]

variable {m n : OrdMap K V} {k k₁ : K} {v : V} {l : List (K × V)}

theorem ext_entries (h : m.entries = n.entries) : m = n := by
  cases m; cases n
  subst h
  rfl

instance [DecidableEq V] : DecidableEq (OrdMap K V) := fun m n =>
  decidable_of_iff (m.entries = n.entries)
    ⟨ext_entries, fun h => congrArg OrdMap.entries h⟩

/-- The map with no bindings. -/
def empty : OrdMap K V := ⟨[], List.Pairwise.nil⟩

instance : EmptyCollection (OrdMap K V) := ⟨empty⟩

/-! ## The operations on binding lists -/

/-- First binding of `k`. -/
def lookup : List (K × V) → K → Option V
  | [], _ => none
  | (k', v) :: t, k => if k = k' then some v else lookup t k

/-- Insert or overwrite, keeping the order. -/
def insertEntry : List (K × V) → K → V → List (K × V)
  | [], k, v => [(k, v)]
  | (k', v') :: t, k, v =>
    if k < k' then (k, v) :: (k', v') :: t
    else if k = k' then (k, v) :: t
    else (k', v') :: insertEntry t k v

/-- A binding of the updated list is the new one or an old one. -/
theorem mem_insertEntry {p : K × V} :
    ∀ {l : List (K × V)}, p ∈ insertEntry l k v → p = (k, v) ∨ p ∈ l := by
  intro l
  induction l with
  | nil => intro h; exact Or.inl (by simpa [insertEntry] using h)
  | cons e t ih =>
    obtain ⟨k', v'⟩ := e
    intro h
    unfold insertEntry at h
    split at h
    · exact List.mem_cons.mp h
    · split at h
      · rcases List.mem_cons.mp h with h | h
        · exact Or.inl h
        · exact Or.inr (List.mem_cons_of_mem _ h)
      · rcases List.mem_cons.mp h with h | h
        · exact Or.inr (h ▸ List.mem_cons_self ..)
        · exact (ih h).imp id (List.mem_cons_of_mem _)

theorem pairwise_insertEntry :
    ∀ {l : List (K × V)}, (l.Pairwise fun a b => a.1 < b.1) →
      (insertEntry l k v).Pairwise fun a b => a.1 < b.1 := by
  intro l
  induction l with
  | nil => intro _; exact List.pairwise_singleton _ _
  | cons e t ih =>
    obtain ⟨k', v'⟩ := e
    intro h
    obtain ⟨hhead, htail⟩ := List.pairwise_cons.mp h
    unfold insertEntry
    split
    · -- the new key goes in front of everything
      rename_i hlt
      refine List.pairwise_cons.mpr ⟨?_, h⟩
      intro p hp
      rcases List.mem_cons.mp hp with rfl | hp
      · exact hlt
      · exact lt_trans hlt (hhead p hp)
    · rename_i hnlt
      split
      · rename_i heq
        subst heq
        exact List.pairwise_cons.mpr ⟨hhead, htail⟩
      · rename_i hne
        refine List.pairwise_cons.mpr ⟨?_, ih htail⟩
        intro p hp
        rcases mem_insertEntry hp with rfl | hp
        · exact lt_of_le_of_ne (not_lt.mp hnlt) (Ne.symm hne)
        · exact hhead p hp

theorem lookup_insertEntry_self : ∀ (l : List (K × V)), lookup (insertEntry l k v) k = some v := by
  intro l
  induction l with
  | nil => simp [insertEntry, lookup]
  | cons e t ih =>
    obtain ⟨k', v'⟩ := e
    unfold insertEntry
    split
    · simp [lookup]
    · split
      · simp [lookup]
      · rename_i hne
        simp [lookup, hne, ih]

theorem lookup_insertEntry_ne (hk : k₁ ≠ k) :
    ∀ (l : List (K × V)), lookup (insertEntry l k v) k₁ = lookup l k₁ := by
  intro l
  induction l with
  | nil => simp [insertEntry, lookup, hk]
  | cons e t ih =>
    obtain ⟨k', v'⟩ := e
    unfold insertEntry
    split
    · simp [lookup, hk]
    · split
      · rename_i heq
        subst heq
        simp [lookup, hk]
      · simp only [lookup, ih]

/-- If no key is there twice, the lookup finds a binding exactly when it is there. -/
theorem lookup_eq_some_iff_of_nodup (h : (l.map Prod.fst).Nodup) :
    lookup l k = some v ↔ (k, v) ∈ l := by
  induction l with
  | nil => simp [lookup]
  | cons e t ih =>
    obtain ⟨k', v'⟩ := e
    obtain ⟨hhead, htail⟩ := List.nodup_cons.mp h
    by_cases hk : k = k'
    · subst hk
      have hno : (k, v) ∉ t := fun hm => hhead (List.mem_map.mpr ⟨_, hm, rfl⟩)
      simp [lookup, hno, eq_comm]
    · simp [lookup, hk, ih htail]

/-- In an ordered list the lookup finds a binding exactly when it is there. -/
theorem lookup_eq_some_iff (h : l.Pairwise fun a b => a.1 < b.1) :
    lookup l k = some v ↔ (k, v) ∈ l :=
  lookup_eq_some_iff_of_nodup (List.pairwise_map.mpr (h.imp ne_of_lt))

theorem lookup_filter_ne (hk : k₁ ≠ k) :
    ∀ (l : List (K × V)), lookup (l.filter fun e => e.1 ≠ k) k₁ = lookup l k₁ := by
  intro l
  induction l with
  | nil => rfl
  | cons e t ih =>
    obtain ⟨k', v'⟩ := e
    by_cases hk' : k' = k
    · subst hk'
      simpa [lookup, hk] using ih
    · rw [List.filter_cons_of_pos (by simpa using hk')]
      simp only [lookup, ih]

theorem lookup_filter_self : ∀ (l : List (K × V)), lookup (l.filter fun e => e.1 ≠ k) k = none := by
  intro l
  induction l with
  | nil => rfl
  | cons e t ih =>
    obtain ⟨k', v'⟩ := e
    by_cases hk' : k' = k
    · subst hk'
      simpa [lookup] using ih
    · rw [List.filter_cons_of_pos (by simpa using hk')]
      simp only [lookup, if_neg (Ne.symm hk'), ih]

/-! ## The operations on maps -/

/-- Point read. -/
def get (m : OrdMap K V) (k : K) : Option V := lookup m.entries k

/-- Bind `k` to `v`, overwriting. -/
def set (m : OrdMap K V) (k : K) (v : V) : OrdMap K V :=
  ⟨insertEntry m.entries k v, pairwise_insertEntry m.sorted⟩

/-- Remove the binding of `k`, if any. -/
def erase (m : OrdMap K V) (k : K) : OrdMap K V :=
  ⟨m.entries.filter fun e => e.1 ≠ k, m.sorted.filter _⟩

/-- Write an optional value: `some` binds, `none` removes. -/
def put (m : OrdMap K V) (k : K) : Option V → OrdMap K V
  | some v => m.set k v
  | none => m.erase k

/-- Is `k` bound? -/
def has (m : OrdMap K V) (k : K) : Bool := (m.get k).isSome

@[simp] theorem get_empty (k : K) : (∅ : OrdMap K V).get k = none := rfl

@[simp] theorem entries_empty : (∅ : OrdMap K V).entries = [] := rfl

@[simp] theorem get_set_self (m : OrdMap K V) (k : K) (v : V) : (m.set k v).get k = some v :=
  lookup_insertEntry_self _

theorem get_set_ne (m : OrdMap K V) (v : V) (hk : k₁ ≠ k) : (m.set k v).get k₁ = m.get k₁ :=
  lookup_insertEntry_ne hk _

theorem get_set (m : OrdMap K V) (k k₁ : K) (v : V) :
    (m.set k v).get k₁ = if k₁ = k then some v else m.get k₁ := by
  by_cases hk : k₁ = k
  · rw [if_pos hk, hk, get_set_self]
  · rw [if_neg hk, get_set_ne _ _ hk]

@[simp] theorem get_erase_self (m : OrdMap K V) (k : K) : (m.erase k).get k = none :=
  lookup_filter_self _

theorem get_erase_ne (m : OrdMap K V) (hk : k₁ ≠ k) : (m.erase k).get k₁ = m.get k₁ :=
  lookup_filter_ne hk _

theorem get_erase (m : OrdMap K V) (k k₁ : K) :
    (m.erase k).get k₁ = if k₁ = k then none else m.get k₁ := by
  by_cases hk : k₁ = k
  · rw [if_pos hk, hk, get_erase_self]
  · rw [if_neg hk, get_erase_ne _ hk]

@[simp] theorem get_put_self (m : OrdMap K V) (k : K) (v : Option V) : (m.put k v).get k = v := by
  cases v <;> simp [put]

theorem get_put_ne (m : OrdMap K V) (v : Option V) (hk : k₁ ≠ k) :
    (m.put k v).get k₁ = m.get k₁ := by
  cases v with
  | none => exact get_erase_ne m hk
  | some v => exact get_set_ne m v hk

/-- A scan sees exactly the bindings point reads see. -/
theorem mem_entries_iff : (k, v) ∈ m.entries ↔ m.get k = some v :=
  (lookup_eq_some_iff m.sorted).symm

theorem has_iff : m.has k = true ↔ ∃ v, m.get k = some v :=
  Option.isSome_iff_exists

theorem nodup_entries (m : OrdMap K V) : m.entries.Nodup := by
  refine List.Pairwise.imp (fun {a b} hlt heq => ?_) m.sorted
  subst heq
  exact lt_irrefl _ hlt

theorem nodup_keys (m : OrdMap K V) : (m.entries.map Prod.fst).Nodup :=
  List.pairwise_map.mpr (m.sorted.imp fun hlt => hlt.ne)

/-- A map is known by its point reads. -/
theorem ext_get (h : ∀ k, m.get k = n.get k) : m = n := by
  have hmem : ∀ e, e ∈ m.entries ↔ e ∈ n.entries := by
    rintro ⟨k, v⟩
    rw [mem_entries_iff, mem_entries_iff, h]
  refine ext_entries ?_
  refine List.Perm.eq_of_pairwise (fun a b _ _ hab hba => ?_) m.sorted n.sorted
    ((List.perm_ext_iff_of_nodup m.nodup_entries n.nodup_entries).mpr hmem)
  exact absurd hba (lt_asymm hab)

theorem erase_of_get_none (h : m.get k = none) : m.erase k = m := by
  refine ext_get fun k₁ => ?_
  rw [get_erase]
  split
  · rename_i heq
    rw [heq, h]
  · rfl

/-- The bindings of a map are one of them and the others. -/
theorem entries_perm (h : m.get k = some v) : m.entries.Perm ((k, v) :: (m.erase k).entries) := by
  have hnot : (k, v) ∉ (m.erase k).entries := by
    rw [mem_entries_iff, get_erase_self]
    exact (Option.some_ne_none v).symm
  refine (List.perm_ext_iff_of_nodup m.nodup_entries
    (List.nodup_cons.mpr ⟨hnot, (m.erase k).nodup_entries⟩)).mpr ?_
  rintro ⟨k₁, v₁⟩
  rw [List.mem_cons, mem_entries_iff, mem_entries_iff, get_erase, Prod.mk.injEq]
  by_cases hk : k₁ = k
  · subst hk
    rw [h, if_pos rfl, Option.some.injEq]
    simp [eq_comm]
  · simp [hk]

theorem set_perm (m : OrdMap K V) (k : K) (v : V) :
    (m.set k v).entries.Perm ((k, v) :: (m.erase k).entries) := by
  have herase : (m.set k v).erase k = m.erase k := by
    refine ext_get fun k₁ => ?_
    rw [get_erase, get_erase, get_set]
    split <;> rfl
  rw [← herase]
  exact entries_perm (get_set_self m k v)

/-! ## Batches of erasures -/

/-- Remove every key of a list. -/
def eraseAll (m : OrdMap K V) (ks : List K) : OrdMap K V := ks.foldl erase m

theorem get_eraseAll (k : K) :
    ∀ (ks : List K) (m : OrdMap K V),
      (m.eraseAll ks).get k = if k ∈ ks then none else m.get k := by
  intro ks
  induction ks with
  | nil => intro m; rfl
  | cons k' t ih =>
    intro m
    rw [eraseAll, List.foldl_cons, ← eraseAll, ih, get_erase]
    by_cases hk : k = k' <;> simp [hk]

/-! ## Right-biased union -/

/-- Copy every binding of `n` over `m`. -/
def merge (m n : OrdMap K V) : OrdMap K V :=
  n.entries.foldl (fun acc e => acc.set e.1 e.2) m

theorem get_foldl_set (k : K) :
    ∀ (l : List (K × V)), (l.Pairwise fun a b => a.1 < b.1) → ∀ m : OrdMap K V,
      (l.foldl (fun acc e => acc.set e.1 e.2) m).get k = (lookup l k).or (m.get k) := by
  intro l
  induction l with
  | nil => intro _ m; rfl
  | cons e t ih =>
    obtain ⟨k', v'⟩ := e
    intro h m
    obtain ⟨hhead, htail⟩ := List.pairwise_cons.mp h
    rw [List.foldl_cons, ih htail, get_set]
    by_cases hk : k = k'
    · -- the head binding is the only one of its key
      subst hk
      have hnone : lookup t k = none := by
        rcases ht : lookup t k with _ | w
        · rfl
        · exact absurd (hhead _ ((lookup_eq_some_iff htail).mp ht)) (lt_irrefl _)
      simp [lookup, hnone]
    · simp [lookup, hk]

/-- A map is put together from its bindings. -/
theorem foldl_set_entries (m : OrdMap K V) :
    m.entries.foldl (fun acc e => acc.set e.1 e.2) ∅ = m := by
  refine ext_get fun k => ?_
  rw [get_foldl_set k _ m.sorted, get_empty, Option.or_none]
  rfl

theorem get_merge (m n : OrdMap K V) (k : K) : (m.merge n).get k = (n.get k).or (m.get k) :=
  get_foldl_set k _ n.sorted m

/-! ## Mapping values -/

/-- The same keys with other values. -/
def mapValues {W : Type v} (f : V → W) (m : OrdMap K V) : OrdMap K W where
  entries := m.entries.map fun e => (e.1, f e.2)
  sorted := m.sorted.map _ fun _ _ h => h

theorem get_mapValues {W : Type v} (f : V → W) (m : OrdMap K V) (k : K) :
    (m.mapValues f).get k = (m.get k).map f := by
  have hlookup : ∀ l : List (K × V),
      lookup (l.map fun e => (e.1, f e.2)) k = (lookup l k).map f := by
    intro l
    induction l with
    | nil => rfl
    | cons e t ih =>
      obtain ⟨k', v⟩ := e
      rw [List.map_cons, lookup, lookup]
      split
      · rfl
      · exact ih
  exact hlookup m.entries

/-! ## Maps put together from a list -/

section Collect

variable {ι : Type*} {entry : ι → Option (K × V)} {items : List ι} {k : K} {v : V}

/-- The map that is left when each item writes its entry, if it has one. -/
def collect (entry : ι → Option (K × V)) (items : List ι) : OrdMap K V :=
  items.foldl (fun m item => match entry item with
    | some (k, v) => m.set k v
    | none => m) ∅

/-- The value an item writes at a key. -/
def valueAt (entry : ι → Option (K × V)) (k : K) (item : ι) : Option V :=
  (entry item).bind fun e => if e.1 = k then some e.2 else none

/-- Of several entries for one key the last one counts. -/
theorem get_collect (entry : ι → Option (K × V)) (items : List ι) (k : K) :
    (collect entry items).get k = (items.filterMap (valueAt entry k)).getLast? := by
  have hloop : ∀ (items : List ι) (m : OrdMap K V),
      (items.foldl (fun m item => match entry item with
        | some (k, v) => m.set k v
        | none => m) m).get k = ((items.filterMap (valueAt entry k)).getLast?).or (m.get k) := by
    intro items
    induction items with
    | nil => exact fun m => rfl
    | cons item items ih =>
      intro m
      rw [List.foldl_cons, ih]
      cases hentry : entry item with
      | none => rw [List.filterMap_cons_none (by rw [valueAt, hentry, Option.bind_none])]
      | some e =>
        obtain ⟨k', v⟩ := e
        by_cases hk : k' = k
        · have hvalue : valueAt entry k item = some v := by
            rw [valueAt, hentry, Option.bind_some, if_pos hk]
          rw [List.filterMap_cons_some hvalue, List.getLast?_cons, hk, get_set_self]
          cases (items.filterMap (valueAt entry k)).getLast? with
          | none => rfl
          | some last => rfl
        · have hvalue : valueAt entry k item = none := by
            rw [valueAt, hentry, Option.bind_some, if_neg hk]
          rw [List.filterMap_cons_none hvalue, get_set_ne _ _ fun heq => hk heq.symm]
  rw [collect, hloop, get_empty, Option.or_none]

/-- What is read was written by an item. -/
theorem mem_items_of_get_collect (h : (collect entry items).get k = some v) :
    ∃ item ∈ items, entry item = some (k, v) := by
  rw [get_collect] at h
  obtain ⟨item, hmem, hvalue⟩ := List.mem_filterMap.mp (List.mem_of_getLast? h)
  obtain ⟨⟨k', v'⟩, hentry, hkey⟩ := Option.bind_eq_some_iff.mp hvalue
  obtain ⟨rfl, hv⟩ := Option.ite_none_right_eq_some.mp hkey
  cases hv
  exact ⟨item, hmem, hentry⟩

theorem exists_get_collect {item : ι} (hmem : item ∈ items) (hentry : entry item = some (k, v)) :
    ∃ w, (collect entry items).get k = some w := by
  rw [get_collect]
  have hvalue : valueAt entry k item = some v := by
    rw [valueAt, hentry, Option.bind_some, if_pos rfl]
  have hin : v ∈ items.filterMap (valueAt entry k) := List.mem_filterMap.mpr ⟨item, hmem, hvalue⟩
  exact ⟨_, List.getLast?_eq_some_getLast (List.ne_nil_of_mem hin)⟩

end Collect

end OrdMap
