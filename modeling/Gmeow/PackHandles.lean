import Gmeow.OrdMap
import Gmeow.Runs

/-!
# Handles of pack files

The store keeps the packs it reads from open, up to a bound. A handle is shared by its readers and
counts them: one that leaves the cache while it is read is closed by its last reader. A pack is
opened outside of the lock, so two readers may open the same one; the second one closes its own file
and reads from the first.

Files are numbered as they are opened, and `closed` is the log of the calls of `Close`. An entry is
known by its address, the place of `heap` it was allocated at.

* `PackCache` and its operations — what happens under the lock;
* `PackReader`, `PackWorld.step` — the calls in progress, and their steps in any order;
* `PackCache.Ok` — every file that was opened is closed, in the cache, with its readers, or with a
  call in progress, and this once;
* `packCache_run` — what holds in every state of every run.
-/

namespace Gmeow

/-! ## The code -/

/-- `defaultPackCacheSize`. -/
def defaultPackCacheSize : Nat := 128

/-- `packCacheEntry`. The element of the list is known by the address of the entry. -/
structure PackCacheEntry where
  id : Nat
  file : Nat
  refs : Int
  evicted : Bool := false
deriving DecidableEq, Repr

/-- `packCache`, with the entries ever allocated, the number of files ever opened and the log of
those closed. The front of `lru` is the entry used last. -/
structure PackCache where
  max : Nat
  entries : OrdMap Nat Nat := ∅
  lru : List Nat := []
  heap : List PackCacheEntry := []
  opened : Nat := 0
  closed : List Nat := []

/-- `newPackCache`. -/
def newPackCache (max : Int) : PackCache where
  max := if max ≤ 0 then defaultPackCacheSize else max.toNat

namespace PackCache

/-- The entry of a pack, with its address. -/
def find (c : PackCache) (id : Nat) : Option (Nat × PackCacheEntry) :=
  (c.entries.get id).bind fun p => (c.heap[p]?).map fun e => (p, e)

/-- Another reader of an entry. -/
def hit (c : PackCache) (p : Nat) (e : PackCacheEntry) : PackCache :=
  { c with
    heap := c.heap.set p { e with refs := e.refs + 1 }
    lru := p :: c.lru.erase p }

/-- An entry leaves the cache, and its file is closed unless somebody reads it. -/
def remove (c : PackCache) (p : Nat) (e : PackCacheEntry) : PackCache :=
  { c with
    entries := c.entries.erase e.id
    lru := c.lru.erase p
    heap := c.heap.set p { e with evicted := true }
    closed := if e.refs = 0 then e.file :: c.closed else c.closed }

/-- The entry at an address leaves the cache. -/
def removeAt (c : PackCache) (p : Nat) : PackCache :=
  match c.heap[p]? with
  | some e => c.remove p e
  | none => c

/-- The loop of `evictLocked`, with the list from its back. -/
def evictFrom : List Nat → PackCache → PackCache
  | [], c => c
  | p :: rest, c =>
    if c.max < c.entries.entries.length then evictFrom rest (c.removeAt p) else c

/-- `evictLocked`. -/
def evictLocked (c : PackCache) : PackCache := evictFrom c.lru.reverse c

/-- A new entry, with one reader. -/
def push (c : PackCache) (id file : Nat) : PackCache :=
  { c with
    heap := c.heap ++ [{ id := id, file := file, refs := 1 }]
    lru := c.heap.length :: c.lru
    entries := c.entries.set id c.heap.length }

/-- What a releaser does. -/
def release (c : PackCache) (p : Nat) (e : PackCacheEntry) : PackCache :=
  { c with
    heap := c.heap.set p { e with refs := e.refs - 1 }
    closed := if e.refs - 1 = 0 ∧ e.evicted = true then e.file :: c.closed else c.closed }

/-- `invalidate`. -/
def invalidate (c : PackCache) (id : Nat) : PackCache :=
  match c.entries.get id with
  | some p => c.removeAt p
  | none => c

/-- `closeAll`. -/
def closeAll (c : PackCache) : PackCache :=
  c.entries.entries.foldl (fun c item => c.removeAt item.2) c

end PackCache

/-- A call of `acquire` and what becomes of it: it has not looked yet, it has to open the pack, it
has opened it, it still has to close its own file, its caller reads, or it is over. The caller has
the file that was returned, and the entry its releaser is for. -/
inductive PackReader where
  | calling (id : Nat)
  | missed (id : Nat)
  | opened (id file : Nat)
  | duplicate (own file entry : Nat)
  | reading (file entry : Nat)
  | done
deriving DecidableEq, Repr

/-- The cache and all calls there ever were. -/
structure PackWorld where
  cache : PackCache
  readers : List PackReader := []

/-- What can happen next. The first four are those of `acquire`: a caller comes, looks under the
lock, opens the pack, and looks again under the lock. -/
inductive PackAct where
  | call (id : Nat)
  | lookup (reader : Nat)
  | openPack (reader : Nat) (ok : Bool)
  | insert (reader : Nat)
  | closeOwn (reader : Nat)
  | release (reader : Nat)
  | invalidate (id : Nat)
  | closeAll
deriving DecidableEq, Repr

namespace PackWorld

/-- A call goes on, with the cache behind its step. -/
def goesOn (s : PackWorld) (r : Nat) (cache : PackCache) (reader : PackReader) : PackWorld :=
  { cache := cache, readers := s.readers.set r reader }

/-- One step, or nothing where the call is not at that point. -/
def step (s : PackWorld) : PackAct → Option PackWorld
  | .call id => some { s with readers := s.readers ++ [.calling id] }
  | .lookup r =>
    match s.readers[r]? with
    | some (.calling id) =>
      match s.cache.find id with
      | some (p, e) => some (s.goesOn r (s.cache.hit p e) (.reading e.file p))
      | none => some (s.goesOn r s.cache (.missed id))
    | _ => none
  | .openPack r ok =>
    match s.readers[r]? with
    | some (.missed id) =>
      if ok then
        some (s.goesOn r { s.cache with opened := s.cache.opened + 1 } (.opened id s.cache.opened))
      else some (s.goesOn r s.cache .done)
    | _ => none
  | .insert r =>
    match s.readers[r]? with
    | some (.opened id file) =>
      match s.cache.find id with
      | some (p, e) => some (s.goesOn r (s.cache.hit p e) (.duplicate file e.file p))
      | none =>
        some (s.goesOn r (s.cache.push id file).evictLocked (.reading file s.cache.heap.length))
    | _ => none
  | .closeOwn r =>
    match s.readers[r]? with
    | some (.duplicate own file p) =>
      some (s.goesOn r { s.cache with closed := own :: s.cache.closed } (.reading file p))
    | _ => none
  | .release r =>
    match s.readers[r]? with
    | some (.reading _ p) =>
      (s.cache.heap[p]?).map fun e => s.goesOn r (s.cache.release p e) .done
    | _ => none
  | .invalidate id => some { s with cache := s.cache.invalidate id }
  | .closeAll => some { s with cache := s.cache.closeAll }

end PackWorld

/-! ## Counting -/

/-- How many there are after one has changed. -/
theorem countP_set_add {α : Type} (p : α → Bool) {l : List α} {i : Nat} {a b : α}
    (h : l[i]? = some a) :
    (l.set i b).countP p + (if p a = true then 1 else 0) =
      l.countP p + (if p b = true then 1 else 0) := by
  obtain ⟨hi, rfl⟩ := List.getElem?_eq_some_iff.mp h
  rw [List.countP_set hi]
  by_cases hp : p l[i] = true
  · have hpos : 0 < l.countP p := List.countP_pos_iff.mpr ⟨l[i], List.getElem_mem hi, hp⟩
    rw [if_pos hp]
    omega
  · rw [if_neg hp]
    omega

section

variable {α : Type} {p : α → Bool} {l : List α} {i : Nat} {a b : α} {P : Prop} [Decidable P]

theorem countP_set_same (h : l[i]? = some a) (hab : p b = p a) :
    (l.set i b).countP p = l.countP p := by
  have hcount := countP_set_add p (b := b) h
  rw [hab] at hcount
  omega

theorem countP_set_gain (h : l[i]? = some a) (ha : ¬p a = true) (hb : p b = true ↔ P) :
    (l.set i b).countP p = l.countP p + if P then 1 else 0 := by
  have hcount := countP_set_add p (b := b) h
  rw [if_neg ha] at hcount
  simp only [hb] at hcount
  exact hcount

theorem countP_set_lose (h : l[i]? = some a) (ha : p a = true ↔ P) (hb : ¬p b = true) :
    (l.set i b).countP p + (if P then 1 else 0) = l.countP p := by
  have hcount := countP_set_add p (b := b) h
  rw [if_neg hb] at hcount
  simp only [ha] at hcount
  exact hcount

end

/-- The file is open on account of an entry: it is in the cache, or it is read. -/
def PackCacheEntry.live (f : Nat) (e : PackCacheEntry) : Bool :=
  e.file == f && (!e.evicted || e.refs != 0)

namespace PackReader

/-- The file a reader has and the entry it counts for. -/
def handle : PackReader → Option (Nat × Nat)
  | .duplicate _ file p => some (file, p)
  | .reading file p => some (file, p)
  | _ => none

/-- The file a call has opened and not given away. -/
def own : PackReader → Option Nat
  | .opened _ file => some file
  | .duplicate own _ _ => some own
  | _ => none

/-- Whether a reader counts for an entry. -/
def holds (p : Nat) (reader : PackReader) : Bool := reader.handle.any fun h => h.2 == p

/-- Whether a call has a file of its own. -/
def owns (f : Nat) (reader : PackReader) : Bool := reader.own == some f

end PackReader

namespace PackCache

/-- The state of the cache between two critical sections, for the number of readers each entry has
and the number of calls that have a file of their own. -/
structure Ok (c : PackCache) (holds owns : Nat → Nat) : Prop where
  cached : ∀ id p, c.entries.get id = some p ↔
    ∃ e : PackCacheEntry, c.heap[p]? = some e ∧ e.id = id ∧ e.evicted = false
  lru : c.lru.Perm (c.entries.entries.map (·.2))
  refs : ∀ (p : Nat) (e : PackCacheEntry), c.heap[p]? = some e → e.refs = (holds p : Int)
  tokens : ∀ f, c.closed.count f + c.heap.countP (PackCacheEntry.live f) + owns f =
    if f < c.opened then 1 else 0

/-- The entries there were are there, with their files. -/
def Keeps (c c' : PackCache) : Prop :=
  ∀ (p : Nat) (e : PackCacheEntry), c.heap[p]? = some e →
    ∃ e' : PackCacheEntry, c'.heap[p]? = some e' ∧ e'.file = e.file

variable {c c' : PackCache} {e' : PackCacheEntry} {id : Nat}

theorem Keeps.rfl : Keeps c c := fun _ e h => ⟨e, h, Eq.refl _⟩

theorem Keeps.trans {c'' : PackCache} (h : Keeps c c') (h' : Keeps c' c'') : Keeps c c'' := by
  intro p e hget
  obtain ⟨e', hget', hfile⟩ := h p e hget
  obtain ⟨e'', hget'', hfile'⟩ := h' p e' hget'
  exact ⟨e'', hget'', hfile'.trans hfile⟩

/-- One entry is written, with the file it had. -/
theorem Keeps.of_set {p : Nat} {e : PackCacheEntry} (hget : c.heap[p]? = some e)
    (h : c'.heap = c.heap.set p e') (hfile : e'.file = e.file) : Keeps c c' := by
  intro q e₁ hget₁
  by_cases hq : p = q
  · subst hq
    rw [hget] at hget₁
    obtain rfl := Option.some.inj hget₁
    exact ⟨e', by rw [h, List.getElem?_set_self (List.getElem?_eq_some_iff.mp hget).1], hfile⟩
  · exact ⟨e₁, by rw [h, List.getElem?_set_ne hq, hget₁], Eq.refl _⟩

variable {c : PackCache} {holds holds' owns owns' : Nat → Nat} {p : Nat} {e : PackCacheEntry}

theorem getElem?_set (e' : PackCacheEntry) (hget : c.heap[p]? = some e) (q : Nat) :
    (c.heap.set p e')[q]? = if q = p then some e' else c.heap[q]? := by
  by_cases hq : q = p
  · rw [if_pos hq, hq, List.getElem?_set_self (List.getElem?_eq_some_iff.mp hget).1]
  · rw [if_neg hq, List.getElem?_set_ne (Ne.symm hq)]

/-! ## What happens under the lock -/

/-- An entry of the cache is found at its address. -/
theorem Ok.find_eq_some (h : c.Ok holds owns) (hfind : c.find id = some (p, e)) :
    c.heap[p]? = some e ∧ e.id = id ∧ e.evicted = false := by
  obtain ⟨p', hentry, hmap⟩ := Option.bind_eq_some_iff.mp hfind
  obtain ⟨e', hget, heq⟩ := Option.map_eq_some_iff.mp hmap
  obtain ⟨rfl, rfl⟩ := Prod.mk.inj heq
  obtain ⟨e₁, hget₁, hid, hin⟩ := (h.cached id p').mp hentry
  rw [hget] at hget₁
  obtain rfl := Option.some.inj hget₁
  exact ⟨hget, hid, hin⟩

theorem Ok.find_eq_none (h : c.Ok holds owns) (hfind : c.find id = none) :
    c.entries.get id = none := by
  cases hentry : c.entries.get id with
  | none => rfl
  | some p =>
    obtain ⟨e, hget, -⟩ := (h.cached id p).mp hentry
    rw [find, hentry, Option.bind_some, hget] at hfind
    cases hfind

/-- An entry of the cache is in the list. -/
theorem Ok.mem_lru (h : c.Ok holds owns) (hget : c.heap[p]? = some e) (hin : e.evicted = false) :
    p ∈ c.lru := by
  have hentry := OrdMap.mem_entries_iff.mpr ((h.cached e.id p).mpr ⟨e, hget, rfl, hin⟩)
  exact h.lru.symm.subset (List.mem_map_of_mem hentry)

/-- The map is right about an entry that is written with its pack and its place. -/
theorem Ok.cached_set (h : c.Ok holds owns) (hget : c.heap[p]? = some e) (hid : e'.id = e.id)
    (hev : e'.evicted = e.evicted) (id q : Nat) :
    c.entries.get id = some q ↔
      ∃ e₁ : PackCacheEntry, (c.heap.set p e')[q]? = some e₁ ∧ e₁.id = id ∧ e₁.evicted = false := by
  rw [h.cached, getElem?_set e' hget]
  split
  · rename_i heq
    rw [heq, hget]
    simp only [Option.some.injEq, exists_eq_left', hid, hev]
  · rfl

/-- The entries count their readers if the one that is written does. -/
theorem Ok.refs_set (h : c.Ok holds owns) (hget : c.heap[p]? = some e)
    (hrefs : e'.refs = (holds' p : Int)) (hothers : ∀ q, q ≠ p → holds' q = holds q) (q : Nat)
    (e₁ : PackCacheEntry) (hget₁ : (c.heap.set p e')[q]? = some e₁) :
    e₁.refs = (holds' q : Int) := by
  rw [getElem?_set e' hget] at hget₁
  split at hget₁
  · rename_i heq
    obtain rfl := Option.some.inj hget₁
    rw [heq, hrefs]
  · rename_i hne
    rw [hothers q hne]
    exact h.refs q e₁ hget₁

/-- **Another reader** of an entry of the cache. -/
theorem Ok.hit (h : c.Ok holds owns) (hget : c.heap[p]? = some e) (hin : e.evicted = false)
    (hholds : ∀ q, holds' q = holds q + if q = p then 1 else 0) : (c.hit p e).Ok holds' owns := by
  refine ⟨h.cached_set hget rfl rfl, ?_, h.refs_set hget ?_ fun q hne => ?_, fun f => ?_⟩
  · exact (List.perm_cons_erase (h.mem_lru hget hin)).symm.trans h.lru
  · rw [hholds, if_pos rfl, h.refs p e hget]
    rfl
  · rw [hholds, if_neg hne, Nat.add_zero]
  · -- the entry is in the cache, so that its file is open on its account before and after
    have hcount := countP_set_add (PackCacheEntry.live f) (b := { e with refs := e.refs + 1 }) hget
    have hlive : PackCacheEntry.live f { e with refs := e.refs + 1 } = PackCacheEntry.live f e := by
      simp [PackCacheEntry.live, hin]
    rw [hlive] at hcount
    refine Eq.trans ?_ (h.tokens f)
    dsimp only [PackCache.hit]
    omega

/-- **An entry leaves the cache.** -/
theorem Ok.remove (h : c.Ok holds owns) (hget : c.heap[p]? = some e) (hin : e.evicted = false) :
    (c.remove p e).Ok holds owns := by
  have hset := getElem?_set { e with evicted := true } hget
  have hentry : c.entries.get e.id = some p := (h.cached e.id p).mpr ⟨e, hget, rfl, hin⟩
  refine ⟨fun id q => ?_, ?_, h.refs_set hget (h.refs p e hget) fun _ _ => rfl, fun f => ?_⟩
  · rw [PackCache.remove, OrdMap.get_erase, hset]
    by_cases hid : id = e.id
    · rw [if_pos hid]
      refine iff_of_false nofun ?_
      rintro ⟨e₁, hsome, hid₁, hin₁⟩
      split at hsome
      · obtain rfl := Option.some.inj hsome
        cases hin₁
      · rename_i hne
        have hother := (h.cached id q).mpr ⟨e₁, hsome, hid₁, hin₁⟩
        rw [hid, hentry] at hother
        exact hne (Option.some.inj hother).symm
    · rw [if_neg hid, h.cached]
      by_cases hq : q = p
      · rw [if_pos hq, hq, hget]
        refine iff_of_false ?_ ?_
        · rintro ⟨e₁, hsome, hid₁, -⟩
          exact hid (hid₁.symm.trans (congrArg _ (Option.some.inj hsome)).symm)
        · rintro ⟨e₁, hsome, -, hin₁⟩
          obtain rfl := Option.some.inj hsome
          cases hin₁
      · rw [if_neg hq]
  · have hperm := (h.lru.trans ((OrdMap.entries_perm hentry).map _)).erase p
    rwa [List.map_cons, List.erase_cons_head] at hperm
  · have hcount := countP_set_add (PackCacheEntry.live f) (b := { e with evicted := true }) hget
    have hbefore : e.live f = (e.file == f) := by
      rw [PackCacheEntry.live, hin, Bool.not_false, Bool.true_or, Bool.and_true]
    have hafter : PackCacheEntry.live f { e with evicted := true } =
        (e.file == f && e.refs != 0) := rfl
    refine Eq.trans ?_ (h.tokens f)
    rw [hbefore, hafter] at hcount
    dsimp only [PackCache.remove]
    -- nobody reads it, and it is closed; or it stays open for its readers
    by_cases hrefs : e.refs = 0
    · have hdead : (e.file == f && e.refs != 0) = false := by
        rw [hrefs, bne_self_eq_false, Bool.and_false]
      rw [if_pos hrefs, List.count_cons]
      rw [hdead, if_neg Bool.false_ne_true] at hcount
      omega
    · rw [if_neg hrefs]
      rw [bne_iff_ne.mpr hrefs, Bool.and_true] at hcount
      omega

theorem remove_keeps (hget : c.heap[p]? = some e) : Keeps c (c.remove p e) :=
  .of_set hget rfl rfl

/-- One entry fewer. -/
theorem Ok.removeAt (h : c.Ok holds owns) (hp : p ∈ c.lru) :
    (c.removeAt p).Ok holds owns ∧ Keeps c (c.removeAt p) ∧ (c.removeAt p).lru = c.lru.erase p ∧
      (c.removeAt p).max = c.max := by
  obtain ⟨item, hentry, rfl⟩ := List.mem_map.mp (h.lru.subset hp)
  obtain ⟨e, hget, -, hin⟩ := (h.cached item.1 item.2).mp (OrdMap.mem_entries_iff.mp hentry)
  rw [PackCache.removeAt, hget]
  exact ⟨h.remove hget hin, remove_keeps hget, rfl, rfl⟩

/-- The list has as many entries as the map. -/
theorem Ok.length_lru (h : c.Ok holds owns) : c.lru.length = c.entries.entries.length := by
  rw [h.lru.length_eq, List.length_map]

/-- No entry is twice in the list: it has one pack, and a pack has one entry. -/
theorem Ok.nodup_lru (h : c.Ok holds owns) : c.lru.Nodup := by
  refine h.lru.nodup_iff.mpr (List.Nodup.map_on ?_ c.entries.nodup_entries)
  rintro ⟨id, p⟩ hentry ⟨id', p'⟩ hentry' heq
  dsimp only at heq
  subst heq
  obtain ⟨e, hget, hid, -⟩ := (h.cached id p).mp (OrdMap.mem_entries_iff.mp hentry)
  obtain ⟨e', hget', hid', -⟩ := (h.cached id' p).mp (OrdMap.mem_entries_iff.mp hentry')
  rw [hget] at hget'
  obtain rfl := Option.some.inj hget'
  rw [← hid, ← hid']

/-- **The loop of `evictLocked`**: it ends within the bound. -/
theorem Ok.evictFrom {back : List Nat} (h : c.Ok holds owns) (hback : c.lru = back.reverse) :
    (evictFrom back c).Ok holds owns ∧ Keeps c (evictFrom back c) ∧
      (evictFrom back c).max = c.max ∧ (evictFrom back c).entries.entries.length ≤ c.max := by
  induction back generalizing c with
  | nil =>
    refine ⟨h, .rfl, rfl, ?_⟩
    rw [PackCache.evictFrom, ← h.length_lru, hback]
    exact Nat.zero_le _
  | cons p back ih =>
    rw [PackCache.evictFrom]
    split
    · rw [List.reverse_cons] at hback
      have hp : p ∈ c.lru := by
        rw [hback]
        exact List.mem_append_right _ List.mem_cons_self
      obtain ⟨hok, hkeeps, hlru, hmax⟩ := h.removeAt hp
      -- the entry is at the back of the list only, so that the rest is as it was
      have hrest : (c.removeAt p).lru = back.reverse := by
        have hnodup := h.nodup_lru
        rw [hback] at hnodup
        have hnot : p ∉ back.reverse := fun hin =>
          (List.nodup_append.mp hnodup).2.2 p hin p List.mem_cons_self rfl
        rw [hlru, hback, List.erase_append_right _ hnot, List.erase_cons_head, List.append_nil]
      obtain ⟨hok', hkeeps', hmax', hlength⟩ := ih hok hrest
      exact ⟨hok', hkeeps.trans hkeeps', hmax'.trans hmax, hmax ▸ hlength⟩
    · exact ⟨h, .rfl, rfl, Nat.le_of_not_lt ‹_›⟩

/-- The entries of a list leave the cache, one after another. -/
theorem Ok.removeAll {ps : List Nat} (h : c.Ok holds owns) (hps : ∀ p ∈ ps, p ∈ c.lru)
    (hnodup : ps.Nodup) :
    (ps.foldl PackCache.removeAt c).Ok holds owns ∧ Keeps c (ps.foldl PackCache.removeAt c) ∧
      (ps.foldl PackCache.removeAt c).max = c.max ∧
      (ps.foldl PackCache.removeAt c).entries.entries.length ≤ c.entries.entries.length := by
  induction ps generalizing c with
  | nil => exact ⟨h, .rfl, rfl, Nat.le_refl _⟩
  | cons p ps ih =>
    obtain ⟨hp, hps⟩ := List.forall_mem_cons.mp hps
    obtain ⟨hnot, hnodup⟩ := List.nodup_cons.mp hnodup
    obtain ⟨hok, hkeeps, hlru, hmax⟩ := h.removeAt hp
    have hleft : ∀ q ∈ ps, q ∈ (c.removeAt p).lru := by
      intro q hq
      have hne : q ≠ p := fun heq => hnot (heq ▸ hq)
      rw [hlru, List.mem_erase_of_ne hne]
      exact hps q hq
    obtain ⟨hok', hkeeps', hmax', hlength⟩ := ih hok hleft hnodup
    refine ⟨hok', hkeeps.trans hkeeps', hmax'.trans hmax, hlength.trans ?_⟩
    rw [← hok.length_lru, ← h.length_lru, hlru]
    exact List.length_erase_le

/-- **A new entry**, for a file that was a call's own. -/
theorem Ok.push (h : c.Ok holds owns) (id file : Nat) (hnone : c.entries.get id = none)
    (hfresh : holds c.heap.length = 0)
    (hholds : ∀ q, holds' q = holds q + if q = c.heap.length then 1 else 0)
    (howns : ∀ f, owns' f + (if file = f then 1 else 0) = owns f) :
    (c.push id file).Ok holds' owns' := by
  have hnew : ∀ q, (c.push id file).heap[q]? = if q = c.heap.length
      then some { id := id, file := file, refs := 1 } else c.heap[q]? := by
    intro q
    rw [PackCache.push, List.getElem?_append]
    split
    · rename_i hlt
      rw [if_neg hlt.ne]
    · rename_i hge
      split
      · rename_i heq
        rw [heq, Nat.sub_self]
        rfl
      · rename_i hne
        rw [List.getElem?_eq_none (by simp; omega), List.getElem?_eq_none (by omega)]
  have hout : ∀ q, q = c.heap.length → c.heap[q]? = none := fun q hq =>
    List.getElem?_eq_none hq.ge
  refine ⟨fun id' q => ?_, ?_, fun q e hget => ?_, fun f => ?_⟩
  · rw [hnew, PackCache.push, OrdMap.get_set]
    by_cases hid : id' = id <;> by_cases hq : q = c.heap.length
    · rw [if_pos hid, if_pos hq]
      exact iff_of_true (congrArg some hq.symm) ⟨_, rfl, hid.symm, rfl⟩
    · rw [if_pos hid, if_neg hq, ← h.cached, hid, hnone]
      exact iff_of_false (fun heq => hq (Option.some.inj heq).symm) nofun
    · rw [if_neg hid, if_pos hq, h.cached, hout q hq]
      refine iff_of_false (fun ⟨e, hsome, _⟩ => nomatch hsome) ?_
      rintro ⟨e, hsome, hid', -⟩
      obtain rfl := Option.some.inj hsome
      exact hid hid'.symm
    · rw [if_neg hid, if_neg hq, h.cached]
  · have hperm := (OrdMap.set_perm c.entries id c.heap.length).map (·.2)
    rw [OrdMap.erase_of_get_none hnone] at hperm
    exact (h.lru.cons _).trans hperm.symm
  · rw [hnew] at hget
    split at hget
    · rename_i heq
      obtain rfl := Option.some.inj hget
      rw [hholds, if_pos heq, heq, hfresh]
      rfl
    · rename_i hne
      rw [hholds, if_neg hne]
      exact h.refs q e hget
  · -- the file was a call's own, and is now open on account of its entry
    have htokens := h.tokens f
    have howns := howns f
    have hlive : PackCacheEntry.live f { id := id, file := file, refs := 1 } = (file == f) :=
      Bool.and_true _
    refine Eq.trans ?_ htokens
    dsimp only [PackCache.push]
    rw [List.countP_append, List.countP_singleton, hlive]
    simp only [beq_iff_eq] at *
    omega

/-- **A reader releases** an entry. -/
theorem Ok.release (h : c.Ok holds owns) (hget : c.heap[p]? = some e) (hpos : 0 < holds p)
    (hholds : ∀ q, holds' q + (if q = p then 1 else 0) = holds q) :
    (c.release p e).Ok holds' owns := by
  have hrefs := h.refs p e hget
  refine ⟨h.cached_set hget rfl rfl, h.lru, h.refs_set hget ?_ fun q hne => ?_, fun f => ?_⟩
  · have hp := hholds p
    rw [if_pos rfl] at hp
    dsimp only
    omega
  · have hq := hholds q
    rwa [if_neg hne, Nat.add_zero] at hq
  · have hcount := countP_set_add (PackCacheEntry.live f) (b := { e with refs := e.refs - 1 }) hget
    have hbefore : e.live f = (e.file == f) := by
      have hread : (e.refs != 0) = true := bne_iff_ne.mpr (by omega)
      rw [PackCacheEntry.live, hread, Bool.or_true, Bool.and_true]
    have hafter : PackCacheEntry.live f { e with refs := e.refs - 1 } =
        (e.file == f && (!e.evicted || e.refs - 1 != 0)) := rfl
    refine Eq.trans ?_ (h.tokens f)
    rw [hbefore, hafter] at hcount
    dsimp only [PackCache.release]
    -- the last reader of an entry that has left the cache closes the file
    by_cases hlast : e.refs - 1 = 0 ∧ e.evicted = true
    · have hdead : (e.file == f && (!e.evicted || e.refs - 1 != 0)) = false := by
        rw [hlast.1, hlast.2, bne_self_eq_false, Bool.not_true, Bool.or_false, Bool.and_false]
      rw [if_pos hlast, List.count_cons]
      rw [hdead, if_neg Bool.false_ne_true] at hcount
      omega
    · have hlive : (!e.evicted || e.refs - 1 != 0) = true := by
        rw [Bool.or_eq_true, bne_iff_ne, Bool.not_eq_true']
        by_cases hev : e.evicted = true
        · exact .inr fun hzero => hlast ⟨hzero, hev⟩
        · exact .inl (Bool.eq_false_iff.mpr hev)
      rw [if_neg hlast]
      rw [hlive, Bool.and_true] at hcount
      omega

/-- A file is opened. -/
theorem Ok.opens (h : c.Ok holds owns)
    (howns : ∀ f, owns' f = owns f + if c.opened = f then 1 else 0) :
    { c with opened := c.opened + 1 }.Ok holds owns' := by
  refine ⟨h.cached, h.lru, h.refs, fun f => ?_⟩
  have htokens := h.tokens f
  have howns := howns f
  dsimp only
  split at htokens <;> split at howns <;> split <;> omega

/-- A call closes the file it has. -/
theorem Ok.closes (h : c.Ok holds owns) {own : Nat}
    (howns : ∀ f, owns' f + (if own = f then 1 else 0) = owns f) :
    { c with closed := own :: c.closed }.Ok holds owns' := by
  refine ⟨h.cached, h.lru, h.refs, fun f => ?_⟩
  have howns := howns f
  refine Eq.trans ?_ (h.tokens f)
  dsimp only
  rw [List.count_cons]
  simp only [beq_iff_eq]
  omega

end PackCache

/-! ## The calls -/

namespace PackWorld

open PackCache

/-- The state of the cache and the calls between two steps. -/
structure Ok (limit : Nat) (s : PackWorld) : Prop where
  cache : s.cache.Ok (fun p => s.readers.countP (PackReader.holds p))
    fun f => s.readers.countP (PackReader.owns f)
  held : ∀ reader ∈ s.readers, ∀ file p, reader.handle = some (file, p) →
    ∃ e : PackCacheEntry, s.cache.heap[p]? = some e ∧ e.file = file
  max : s.cache.max = limit
  bound : s.cache.entries.entries.length ≤ limit

variable {limit : Nat} {s : PackWorld} {r : Nat} {c : PackCache} {old new : PackReader}

variable {file p id : Nat}

theorem holds_of_handle (h : new.handle = some (file, p)) (q : Nat) :
    new.holds q = true ↔ q = p := by
  rw [PackReader.holds, h, Option.any_some, beq_iff_eq]
  exact eq_comm

theorem not_holds_of_handle (h : new.handle = none) (q : Nat) : ¬new.holds q = true := by
  rw [PackReader.holds, h]
  exact Bool.false_ne_true

theorem owns_of_own (h : new.own = some file) (f : Nat) : new.owns f = true ↔ file = f := by
  rw [PackReader.owns, h, beq_iff_eq, Option.some.injEq]

theorem not_owns_of_own (h : new.own = none) (f : Nat) : ¬new.owns f = true := by
  rw [PackReader.owns, h]
  exact Bool.false_ne_true

/-- A call goes on with the entry it had, or without any. -/
theorem countP_holds_same (new : PackReader) (hr : s.readers[r]? = some old)
    (h : new.handle = old.handle) :
    (fun q => (s.readers.set r new).countP (PackReader.holds q)) =
      fun q => s.readers.countP (PackReader.holds q) :=
  funext fun _ => countP_set_same hr (by rw [PackReader.holds, PackReader.holds, h])

/-- A call goes on with the file it had, or without any. -/
theorem countP_owns_same (new : PackReader) (hr : s.readers[r]? = some old)
    (h : new.own = old.own) :
    (fun f => (s.readers.set r new).countP (PackReader.owns f)) =
      fun f => s.readers.countP (PackReader.owns f) :=
  funext fun _ => countP_set_same hr (by rw [PackReader.owns, PackReader.owns, h])

/-- The files the readers have stay those of their entries. -/
theorem Ok.held_of_keeps (h : s.Ok limit) (hkeeps : Keeps s.cache c) :
    ∀ reader ∈ s.readers, ∀ file p, reader.handle = some (file, p) →
      ∃ e : PackCacheEntry, c.heap[p]? = some e ∧ e.file = file := by
  intro reader hin file p hhandle
  obtain ⟨e, hget, hfile⟩ := h.held reader hin file p hhandle
  obtain ⟨e', hget', hfile'⟩ := hkeeps p e hget
  exact ⟨e', hget', hfile'.trans hfile⟩

/-- The files the readers have are those of their entries, also behind a step. -/
theorem Ok.held_goesOn (h : s.Ok limit) (hkeeps : Keeps s.cache c)
    (hnew : ∀ file p, new.handle = some (file, p) →
      ∃ e : PackCacheEntry, c.heap[p]? = some e ∧ e.file = file) :
    ∀ reader ∈ (s.goesOn r c new).readers, ∀ file p, reader.handle = some (file, p) →
      ∃ e : PackCacheEntry, c.heap[p]? = some e ∧ e.file = file := by
  intro reader hin file p hhandle
  rcases List.mem_or_eq_of_mem_set hin with hin | rfl
  · exact h.held_of_keeps hkeeps reader hin file p hhandle
  · exact hnew file p hhandle

/-- A call finds the pack in the cache, with a file of its own or without. -/
theorem Ok.hits (h : s.Ok limit) {e : PackCacheEntry} (hr : s.readers[r]? = some old)
    (hold : old.handle = none) (hfind : s.cache.find id = some (p, e))
    (hnew : new.handle = some (e.file, p)) (hown : new.own = old.own) :
    (s.goesOn r (s.cache.hit p e) new).Ok limit := by
  obtain ⟨hget, -, hin⟩ := h.cache.find_eq_some hfind
  have hkeeps : Keeps s.cache (s.cache.hit p e) := .of_set hget rfl rfl
  refine ⟨?_, h.held_goesOn hkeeps fun file q hhandle => ?_, h.max, h.bound⟩
  · have hhit := h.cache.hit hget hin fun q =>
      countP_set_gain hr (not_holds_of_handle hold q) (holds_of_handle hnew q)
    rwa [← countP_owns_same new hr hown] at hhit
  · rw [hnew] at hhandle
    obtain ⟨rfl, rfl⟩ := Prod.mk.inj (Option.some.inj hhandle)
    exact hkeeps p e hget

/-- A call goes on, and the cache is as it was. -/
theorem Ok.waits (h : s.Ok limit) (hr : s.readers[r]? = some old)
    (hhandle : new.handle = old.handle) (hown : new.own = old.own) :
    (s.goesOn r s.cache new).Ok limit := by
  refine ⟨?_, h.held_goesOn .rfl fun file p hnew => ?_, h.max, h.bound⟩
  · have hcache := h.cache
    rwa [← countP_holds_same new hr hhandle, ← countP_owns_same new hr hown] at hcache
  · exact h.held old (List.mem_of_getElem? hr) file p (hhandle ▸ hnew)

/-- Nobody counts for an entry that is not there. -/
theorem Ok.fresh (h : s.Ok limit) :
    s.readers.countP (PackReader.holds s.cache.heap.length) = 0 := by
  refine List.countP_eq_zero.mpr fun reader hin hholds => ?_
  obtain ⟨⟨file, p⟩, hhandle, hp⟩ := (Option.any_eq_true _ _).mp hholds
  obtain ⟨e, hget, -⟩ := h.held reader hin file p hhandle
  have hp : p = s.cache.heap.length := beq_iff_eq.mp hp
  rw [hp, List.getElem?_eq_none (Nat.le_refl _)] at hget
  cases hget

/-- A call puts its file into the cache, and another one may have to leave. -/
theorem Ok.inserts (h : s.Ok limit) (hr : s.readers[r]? = some (.opened id file))
    (hfind : s.cache.find id = none) :
    (s.goesOn r (s.cache.push id file).evictLocked
      (.reading file s.cache.heap.length)).Ok limit := by
  let new : PackReader := .reading file s.cache.heap.length
  have hpush := h.cache.push id file (h.cache.find_eq_none hfind) h.fresh
    (fun q => countP_set_gain (b := new) hr (not_holds_of_handle rfl q) (holds_of_handle rfl q))
    (fun f => countP_set_lose (b := new) hr (owns_of_own rfl f) (not_owns_of_own rfl f))
  have hpushed : Keeps s.cache (s.cache.push id file) := by
    intro p e hget
    refine ⟨e, ?_, rfl⟩
    rw [PackCache.push, List.getElem?_append_left (List.getElem?_eq_some_iff.mp hget).1, hget]
  obtain ⟨hok, hkeeps, hmax, hbound⟩ := hpush.evictFrom (List.reverse_reverse _).symm
  refine ⟨hok, h.held_goesOn (hpushed.trans hkeeps) fun file' p hhandle => ?_, hmax.trans h.max,
    hbound.trans_eq h.max⟩
  obtain ⟨rfl, rfl⟩ := Prod.mk.inj (Option.some.inj hhandle)
  exact hkeeps s.cache.heap.length { id := id, file := file, refs := 1 } (by
    rw [PackCache.push, List.getElem?_append_right (Nat.le_refl _), Nat.sub_self]
    rfl)

/-- A call has opened the pack. -/
theorem Ok.opens (h : s.Ok limit) (hr : s.readers[r]? = some (.missed id)) :
    (s.goesOn r { s.cache with opened := s.cache.opened + 1 }
      (.opened id s.cache.opened)).Ok limit := by
  refine ⟨?_, h.held_goesOn .rfl nofun, h.max, h.bound⟩
  have hopens := h.cache.opens fun f => countP_set_gain (b := .opened id s.cache.opened) hr
    (not_owns_of_own rfl f) (owns_of_own rfl f)
  rwa [← countP_holds_same (.opened id s.cache.opened) hr rfl] at hopens

/-- A call closes its own file and reads from that of the cache. -/
theorem Ok.closesOwn (h : s.Ok limit) {own : Nat}
    (hr : s.readers[r]? = some (.duplicate own file p)) :
    (s.goesOn r { s.cache with closed := own :: s.cache.closed } (.reading file p)).Ok limit := by
  refine ⟨?_, h.held_goesOn .rfl fun file' q hhandle => ?_, h.max, h.bound⟩
  · have hcloses := h.cache.closes fun f => countP_set_lose (b := .reading file p) hr
      (owns_of_own rfl f) (not_owns_of_own rfl f)
    rwa [← countP_holds_same (.reading file p) hr rfl] at hcloses
  · exact h.held _ (List.mem_of_getElem? hr) file' q hhandle

/-- A reader is done. -/
theorem Ok.releases (h : s.Ok limit) {e : PackCacheEntry}
    (hr : s.readers[r]? = some (.reading file p)) (hget : s.cache.heap[p]? = some e) :
    (s.goesOn r (s.cache.release p e) .done).Ok limit := by
  have hpos : 0 < s.readers.countP (PackReader.holds p) :=
    List.countP_pos_iff.mpr ⟨_, List.mem_of_getElem? hr, (holds_of_handle rfl p).mpr rfl⟩
  refine ⟨?_, h.held_goesOn (.of_set hget rfl rfl) nofun, h.max, h.bound⟩
  have hrelease := h.cache.release hget hpos fun q => countP_set_lose (b := .done) hr
    (holds_of_handle rfl q) (not_holds_of_handle rfl q)
  rwa [← countP_owns_same .done hr rfl] at hrelease

/-- Entries leave the cache, and the calls are where they were. -/
theorem Ok.removes (h : s.Ok limit) {ps : List Nat} (hps : ∀ p ∈ ps, p ∈ s.cache.lru)
    (hnodup : ps.Nodup) : { s with cache := ps.foldl PackCache.removeAt s.cache }.Ok limit := by
  obtain ⟨hok, hkeeps, hmax, hlength⟩ := h.cache.removeAll hps hnodup
  exact ⟨hok, h.held_of_keeps hkeeps, hmax.trans h.max, hlength.trans h.bound⟩

/-- **One step** keeps all this, whichever call it is of. -/
theorem Ok.step (h : s.Ok limit) {act : PackAct} {s' : PackWorld} (hstep : s.step act = some s') :
    s'.Ok limit := by
  cases act with
  | call id =>
    obtain rfl := Option.some.inj hstep
    refine ⟨?_, fun reader hin file p hhandle => ?_, h.max, h.bound⟩
    · have hcache := h.cache
      simpa only [List.countP_append, List.countP_singleton, PackReader.holds, PackReader.owns,
        PackReader.handle, PackReader.own, Option.any_none, Bool.false_eq_true, if_false,
        Nat.add_zero, Option.none_beq_some] using hcache
    · rcases List.mem_append.mp hin with hin | hin
      · exact h.held reader hin file p hhandle
      · rw [List.mem_singleton.mp hin] at hhandle
        cases hhandle
  | lookup r =>
    rw [PackWorld.step] at hstep
    split at hstep
    · rename_i id hr
      split at hstep
      · rename_i p e hfind
        obtain rfl := Option.some.inj hstep
        exact h.hits hr rfl hfind rfl rfl
      · obtain rfl := Option.some.inj hstep
        exact h.waits hr rfl rfl
    · cases hstep
  | openPack r ok =>
    rw [PackWorld.step] at hstep
    split at hstep
    · rename_i id hr
      split at hstep
      · obtain rfl := Option.some.inj hstep
        exact h.opens hr
      · obtain rfl := Option.some.inj hstep
        exact h.waits hr rfl rfl
    · cases hstep
  | insert r =>
    rw [PackWorld.step] at hstep
    split at hstep
    · rename_i id file hr
      split at hstep
      · rename_i p e hfind
        obtain rfl := Option.some.inj hstep
        exact h.hits hr rfl hfind rfl rfl
      · rename_i hfind
        obtain rfl := Option.some.inj hstep
        exact h.inserts hr hfind
    · cases hstep
  | closeOwn r =>
    rw [PackWorld.step] at hstep
    split at hstep
    · rename_i own file p hr
      obtain rfl := Option.some.inj hstep
      exact h.closesOwn hr
    · cases hstep
  | release r =>
    rw [PackWorld.step] at hstep
    split at hstep
    · rename_i file p hr
      obtain ⟨e, hget, rfl⟩ := Option.map_eq_some_iff.mp hstep
      exact h.releases hr hget
    · cases hstep
  | invalidate id =>
    obtain rfl := Option.some.inj hstep
    rw [PackCache.invalidate]
    split
    · rename_i p hentry
      have hp : p ∈ s.cache.lru := h.cache.lru.symm.subset
        (List.mem_map_of_mem (OrdMap.mem_entries_iff.mpr hentry))
      exact h.removes (List.forall_mem_singleton.mpr hp) (List.nodup_singleton p)
    · exact h
  | closeAll =>
    obtain rfl := Option.some.inj hstep
    rw [PackCache.closeAll, ← List.foldl_map]
    exact h.removes (fun p hp => h.cache.lru.symm.subset hp)
      (h.cache.lru.nodup_iff.mp h.cache.nodup_lru)

/-! ## Every run -/

/-- The file is that of an entry of the cache. -/
def Cached (s : PackWorld) (f : Nat) : Prop :=
  ∃ id p, s.cache.entries.get id = some p ∧
    ∃ e : PackCacheEntry, s.cache.heap[p]? = some e ∧ e.file = f

/-- A reader has the file, or is about to get it. -/
def Read (s : PackWorld) (f : Nat) : Prop :=
  ∃ reader ∈ s.readers, ∃ p, reader.handle = some (f, p)

/-- A call in progress has opened the file, and has neither given it to the cache nor closed it. -/
def InCall (s : PackWorld) (f : Nat) : Prop := ∃ reader ∈ s.readers, reader.own = some f

/-- The files that are open on account of an entry are those in the cache and those that are
read. -/
theorem Ok.live_iff (h : s.Ok limit) (f : Nat) :
    0 < s.cache.heap.countP (PackCacheEntry.live f) ↔ s.Cached f ∨ s.Read f := by
  rw [List.countP_pos_iff]
  constructor
  · rintro ⟨e, hin, hlive⟩
    obtain ⟨p, hget⟩ := List.mem_iff_getElem?.mp hin
    obtain ⟨hfile, hopen⟩ := (Bool.and_eq_true _ _).mp hlive
    have hfile := beq_iff_eq.mp hfile
    by_cases hev : e.evicted = false
    · exact .inl ⟨e.id, p, (h.cache.cached e.id p).mpr ⟨e, hget, rfl, hev⟩, e, hget, hfile⟩
    · rw [Bool.of_not_eq_false hev, Bool.not_true, Bool.false_or, bne_iff_ne,
        h.cache.refs p e hget] at hopen
      obtain ⟨reader, hreader, hholds⟩ := List.countP_pos_iff.mp
        (Nat.pos_of_ne_zero fun hzero => hopen (congrArg Int.ofNat hzero))
      obtain ⟨⟨file, q⟩, hhandle, hq⟩ := (Option.any_eq_true _ _).mp hholds
      obtain rfl : q = p := beq_iff_eq.mp hq
      obtain ⟨e', hget', hfile'⟩ := h.held reader hreader file q hhandle
      rw [hget] at hget'
      obtain rfl := Option.some.inj hget'
      exact .inr ⟨reader, hreader, q, by rw [hhandle, ← hfile', hfile]⟩
  · rintro (⟨id, p, hentry, e, hget, rfl⟩ | ⟨reader, hreader, p, hhandle⟩)
    · obtain ⟨e', hget', -, hev⟩ := (h.cache.cached id p).mp hentry
      rw [hget] at hget'
      obtain rfl := Option.some.inj hget'
      refine ⟨e, List.mem_of_getElem? hget, ?_⟩
      rw [PackCacheEntry.live, hev, beq_self_eq_true]
      rfl
    · obtain ⟨e, hget, rfl⟩ := h.held reader hreader _ p hhandle
      have hpos : 0 < s.readers.countP (PackReader.holds p) :=
        List.countP_pos_iff.mpr ⟨reader, hreader, (holds_of_handle hhandle p).mpr rfl⟩
      have hrefs : (e.refs != 0) = true := by
        rw [bne_iff_ne, h.cache.refs p e hget]
        omega
      refine ⟨e, List.mem_of_getElem? hget, ?_⟩
      rw [PackCacheEntry.live, hrefs, beq_self_eq_true, Bool.or_true]
      rfl

theorem owns_pos_iff (f : Nat) : 0 < s.readers.countP (PackReader.owns f) ↔ s.InCall f := by
  rw [List.countP_pos_iff, InCall]
  simp only [PackReader.owns, beq_iff_eq]

theorem Ok.init (max : Int) : Ok (newPackCache max).max { cache := newPackCache max } where
  cache := by
    refine ⟨fun id p => ?_, List.Perm.refl _, nofun, fun f => ?_⟩
    · exact iff_of_false nofun fun ⟨e, hget, _⟩ => nomatch hget
    · exact (if_neg (Nat.not_lt_zero f)).symm
  held := nofun
  max := rfl
  bound := Nat.zero_le _

end PackWorld

/-- **Pack handles are never closed in use and never leak.** In every state of every run, whatever
the order of the steps: the file a caller got and has not released has not been closed; every file
that was opened has been closed once if it is neither in the cache, nor read, nor with a call in
progress, and not at all otherwise; and the cache is within its bound. -/
theorem packCache_run {max : Int} {acts : List PackAct} {s : PackWorld}
    (hrun : Runs.exec PackWorld.step { cache := newPackCache max } acts = some s) :
    (∀ file p, .reading file p ∈ s.readers → s.cache.closed.count file = 0) ∧
    (∀ f < s.cache.opened,
      (s.Cached f ∨ s.Read f ∨ s.InCall f → s.cache.closed.count f = 0) ∧
      (¬s.Cached f ∧ ¬s.Read f ∧ ¬s.InCall f → s.cache.closed.count f = 1)) ∧
    s.cache.entries.entries.length ≤ (newPackCache max).max := by
  have hok : s.Ok (newPackCache max).max :=
    Runs.exec_invariant (fun h hstep => h.step hstep) (PackWorld.Ok.init max) hrun
  have hone : ∀ f, (if f < s.cache.opened then 1 else 0) ≤ 1 := by
    intro f
    split <;> omega
  refine ⟨fun file p hin => ?_, fun f hf => ⟨fun huse => ?_, fun hidle => ?_⟩, hok.bound⟩
  · have hlive := (hok.live_iff file).mpr (.inr ⟨_, hin, p, rfl⟩)
    have htokens := hok.cache.tokens file
    have := hone file
    omega
  · have htokens := hok.cache.tokens f
    have := hone f
    rcases or_assoc.mpr huse with hlive | hcall
    · have hlive := (hok.live_iff f).mpr hlive
      omega
    · have howns := (PackWorld.owns_pos_iff f).mpr hcall
      omega
  · obtain ⟨hcached, hread, hcall⟩ := hidle
    have htokens := hok.cache.tokens f
    have hlive := mt (hok.live_iff f).mp (not_or.mpr ⟨hcached, hread⟩)
    have howns := mt (PackWorld.owns_pos_iff f).mp hcall
    rw [if_pos hf] at htokens
    omega

/-- A cache of one entry: the second pack takes the place of the first, which is read and is closed
when its reader is done. -/
theorem packCache_run_evicted :
    ∃ s, Runs.exec PackWorld.step { cache := newPackCache 1 }
        [.call 7, .lookup 0, .openPack 0 true, .insert 0, .call 8, .lookup 1, .openPack 1 true,
          .insert 1, .release 0] = some s ∧
      s.cache.closed = [0] ∧ s.readers = [.done, .reading 1 1] ∧
      s.cache.closed.count 1 = 0 := by
  have hsome : (Runs.exec PackWorld.step { cache := newPackCache 1 }
        [.call 7, .lookup 0, .openPack 0 true, .insert 0, .call 8, .lookup 1, .openPack 1 true,
          .insert 1, .release 0]).any (fun s => s.cache.closed = [0] ∧
            s.readers = [.done, .reading 1 1]) = true := by
    decide +kernel
  obtain ⟨s, hrun, hs⟩ := (Option.any_eq_true _ _).mp hsome
  obtain ⟨hclosed, hreaders⟩ := of_decide_eq_true hs
  exact ⟨s, hrun, hclosed, hreaders, (packCache_run hrun).1 1 1 (by rw [hreaders]; decide)⟩

end Gmeow
