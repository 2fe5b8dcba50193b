import Gmeow.Links
import Gmeow.World

/-!
# The byte-bounded cache

Decompressed chunks are cached up to a number of bytes. The entries are the nodes of a doubly linked
list, the one used last in front, and a map has the node of every key; what no longer fits is taken
from the back.

Memory is kept field by field, and a node is known by its address. The history of the calls, with
the evictions where they happen, is kept beside the cache; the newest event is in front. The counter
is far from the end of the integers.

* `SizedLRU` and its operations — the code;
* `recency` — the model: the entries in the order of their use; the store's chunk cache is one;
* `latest`, `usedAt` — what the history says of a key: the value it has and when it was used;
* `Rep` — list, map and counter are those of some entries; `Logged` — so is the history;
* `sizedLru_run` — what holds behind every run.
-/

namespace Gmeow.Cache

open Linking

/-! ## The code -/

/-- The key and the value of a `sizedNode`. -/
structure SizedNode (K : Type) where
  key : K
  value : List UInt8

/-- The calls. -/
inductive LruCall (K : Type) where
  | put (key : K) (value : List UInt8)
  | get (key : K)
  | remove (key : K)

/-- What happens: a call, and the evictions it causes behind it. -/
inductive LruEvent (K : Type) where
  | call (call : LruCall K)
  | evicted (key : K)

/-- `SizedLRU`, with the nodes ever allocated and the history. -/
structure SizedLRU (K : Type) where
  maxBytes : Int
  curBytes : Int := 0
  items : K → Option Nat := fun _ => none
  links : Links Nat := {}
  nodes : Nat → Option (SizedNode K) := fun _ => none
  allocated : Nat := 0
  log : List (LruEvent K) := []

/-- `NewSizedLRU`. -/
def newSizedLRU (K : Type) (maxBytes : Int) : SizedLRU K where
  maxBytes := if maxBytes < 1 then 1 else maxBytes

namespace SizedLRU

variable {K : Type} [DecidableEq K]

/-- The node of a key. -/
def find (c : SizedLRU K) (key : K) : Option (Nat × SizedNode K) :=
  (c.items key).bind fun p => (c.nodes p).map fun node => (p, node)

/-- A node is unlinked, its bytes are given back, and its key is deleted. -/
def drop (c : SizedLRU K) (p : Nat) (node : SizedNode K) (key : K) : SizedLRU K :=
  { c with
    links := c.links.unlink p
    curBytes := c.curBytes - node.value.length
    items := Function.update c.items key none }

/-- `removeTail`. -/
def removeTail (c : SizedLRU K) : SizedLRU K :=
  match c.links.tail.bind fun p => (c.nodes p).map fun node => (p, node) with
  | some (p, node) => { c.drop p node node.key with log := .evicted node.key :: c.log }
  | none => c

/-- `evictToFit`, with a number of rounds. -/
def evictToFit : Nat → SizedLRU K → SizedLRU K
  | 0, c => c
  | fuel + 1, c =>
    if c.curBytes > c.maxBytes ∧ c.links.tail ≠ none then evictToFit fuel c.removeTail else c

/-- `Get`. -/
def get (c : SizedLRU K) (key : K) : Option (List UInt8) × SizedLRU K :=
  match c.find key with
  | none => (none, c)
  | some (p, node) => (some node.value, { c with links := c.links.moveToFront p })

/-- `Put` up to the evictions, of a value that fits. -/
def store (c : SizedLRU K) (key : K) (value : List UInt8) : SizedLRU K :=
  match c.find key with
  | some (p, node) =>
    { c with
      curBytes := c.curBytes + (value.length - node.value.length)
      nodes := Function.update c.nodes p (some { node with value := value })
      links := c.links.moveToFront p }
  | none =>
    { c with
      items := Function.update c.items key (some c.allocated)
      curBytes := c.curBytes + value.length
      nodes := Function.update c.nodes c.allocated (some ⟨key, value⟩)
      allocated := c.allocated + 1
      links := c.links.pushFront c.allocated }

/-- `Remove`. -/
def remove (c : SizedLRU K) (key : K) : SizedLRU K :=
  match c.find key with
  | some (p, node) => c.drop p node key
  | none => c

/-- `Put`. There are no more rounds of evictions than nodes. -/
def put (c : SizedLRU K) (key : K) (value : List UInt8) : SizedLRU K :=
  if value.length > c.maxBytes then c.remove key
  else evictToFit (c.store key value).allocated (c.store key value)

/-- A call, which the history has in front of its evictions. -/
def call (c : SizedLRU K) (x : LruCall K) : SizedLRU K :=
  let c := { c with log := .call x :: c.log }
  match x with
  | .put key value => c.put key value
  | .get key => (c.get key).2
  | .remove key => c.remove key

end SizedLRU

/-- The cache behind some calls. -/
def sizedRun {K : Type} [DecidableEq K] (maxBytes : Int) (calls : List (LruCall K)) : SizedLRU K :=
  calls.foldl SizedLRU.call (newSizedLRU K maxBytes)

/-! ## The model -/

section Model

variable {K : Type} [DecidableEq K] {budget : Nat} {cache : List (K × List UInt8)}

/-- The entries of other keys. -/
def otherKeys (cache : List (K × List UInt8)) (key : K) : List (K × List UInt8) :=
  cache.filter fun item => item.1 ≠ key

/-- A call on the entries, the one used last in front: it is moved there, and the longest front that
fits is kept. -/
def recency (maxBytes : Nat) (cache : List (K × List UInt8)) : LruCall K → List (K × List UInt8)
  | .put key value =>
    if value.length > maxBytes then otherKeys cache key
    else evictToFit maxBytes ((key, value) :: otherKeys cache key)
  | .get key =>
    match cache.find? fun item => item.1 = key with
    | none => cache
    | some item => item :: otherKeys cache key
  | .remove key => otherKeys cache key

omit [DecidableEq K] in
/-- What fits is kept. -/
theorem evictToFit_of_le (h : (cache.map fun item => item.2.length).sum ≤ budget) :
    evictToFit budget cache = cache := by
  induction cache generalizing budget with
  | nil => rfl
  | cons first rest ih =>
    rw [List.map_cons, List.sum_cons] at h
    rw [evictToFit, if_pos (by omega), ih (by omega)]

omit [DecidableEq K] in
/-- What does not fit loses its last entry. -/
theorem evictToFit_of_lt {last : K × List UInt8}
    (h : budget < ((cache ++ [last]).map fun item => item.2.length).sum) :
    evictToFit budget (cache ++ [last]) = evictToFit budget cache := by
  induction cache generalizing budget with
  | nil =>
    rw [List.nil_append, List.map_singleton, List.sum_singleton] at h
    exact if_neg (Nat.not_le_of_lt h)
  | cons first rest ih =>
    rw [List.cons_append, List.map_cons, List.sum_cons] at h
    rw [List.cons_append, evictToFit, evictToFit]
    split
    · rw [ih (by omega)]
    · rfl

end Model

/-! ## The history -/

section History

variable {K : Type} [DecidableEq K] {key : K} {es : List (Nat × SizedNode K)}
  {e : Nat × SizedNode K}

/-- The value of the latest `Put` of a key, unless it was too large, or the key was removed or
evicted since. -/
def latest (maxBytes : Int) : List (LruEvent K) → K → Option (List UInt8)
  | [], _ => none
  | .call (.put k value) :: log, key =>
    if k = key then if value.length > maxBytes then none else some value
    else latest maxBytes log key
  | .call (.get _) :: log, key => latest maxBytes log key
  | .call (.remove k) :: log, key => if k = key then none else latest maxBytes log key
  | .evicted k :: log, key => if k = key then none else latest maxBytes log key

/-- When a key was used last, by `Put` or `Get`. -/
def usedAt : List (LruEvent K) → K → Nat
  | [], _ => 0
  | .call (.put k _) :: log, key => if k = key then log.length + 1 else usedAt log key
  | .call (.get k) :: log, key => if k = key then log.length + 1 else usedAt log key
  | .call (.remove _) :: log, key => usedAt log key
  | .evicted _ :: log, key => usedAt log key

/-- The call of an event. -/
def LruEvent.asCall {K : Type} : LruEvent K → Option (LruCall K)
  | .call x => some x
  | .evicted _ => none

theorem usedAt_le (log : List (LruEvent K)) (key : K) : usedAt log key ≤ log.length := by
  induction log with
  | nil => exact Nat.le_refl 0
  | cons event log ih =>
    have hle : usedAt log key ≤ (event :: log).length := ih.trans (Nat.le_succ _)
    have hused : ∀ k, (if k = key then log.length + 1 else usedAt log key) ≤
        (event :: log).length := by
      intro k
      split
      · exact Nat.le_refl _
      · exact hle
    cases event with
    | call x =>
      cases x with
      | put k value => exact hused k
      | get k => exact hused k
      | remove k => exact hle
    | evicted k => exact hle

/-- The entries of other keys. -/
def others (key : K) (es : List (Nat × SizedNode K)) : List (Nat × SizedNode K) :=
  es.filter fun e => e.2.key ≠ key

theorem mem_others : e ∈ others key es ↔ e ∈ es ∧ e.2.key ≠ key := by
  rw [others, List.mem_filter, decide_eq_true_iff]

theorem others_of_absent (h : ∀ e ∈ es, e.2.key ≠ key) : others key es = es :=
  List.filter_eq_self.mpr fun e hin => decide_eq_true (h e hin)

theorem others_of_middle {l r : List (Nat × SizedNode K)}
    (h : ((l ++ e :: r).map (·.2.key)).Nodup) : others e.2.key (l ++ e :: r) = l ++ r := by
  have hperm : ((e :: (l ++ r)).map (·.2.key)).Nodup :=
    (List.Perm.map _ List.perm_middle).nodup_iff.mp h
  have habsent : ∀ e' ∈ l ++ r, e'.2.key ≠ e.2.key := by
    intro e' hin heq
    have hmem : e'.2.key ∈ (l ++ r).map (·.2.key) := List.mem_map_of_mem hin
    rw [heq] at hmem
    exact (List.nodup_cons.mp hperm).1 hmem
  have hrest := others_of_absent habsent
  rw [others, List.filter_append] at hrest ⊢
  rw [List.filter_cons_of_neg (by simp), hrest]

/-- The key and the value of an entry. -/
def pairOf (e : Nat × SizedNode K) : K × List UInt8 := (e.2.key, e.2.value)

theorem map_others (key : K) (es : List (Nat × SizedNode K)) :
    (others key es).map pairOf = otherKeys (es.map pairOf) key := by
  rw [others, otherKeys, List.filter_map]
  rfl

/-- The history is that of the entries: it has the value of each key, no value of other keys, and
the entries are in the order of their use. -/
structure Logged (maxBytes : Int) (log : List (LruEvent K)) (es : List (Nat × SizedNode K)) :
    Prop where
  present : ∀ e ∈ es, latest maxBytes log e.2.key = some e.2.value
  absent : ∀ key, (∀ e ∈ es, e.2.key ≠ key) → latest maxBytes log key = none
  order : (es.map (·.2.key)).Pairwise fun a b => usedAt log b < usedAt log a

variable {maxBytes : Int} {log : List (LruEvent K)} {es : List (Nat × SizedNode K)}
  {event : LruEvent K} {key : K}

/-- The order of the other entries is the same behind an event. -/
theorem Logged.order_others (h : Logged maxBytes log es)
    (hused : ∀ k, key ≠ k → usedAt (event :: log) k = usedAt log k) :
    ((others key es).map (·.2.key)).Pairwise fun a b =>
      usedAt (event :: log) b < usedAt (event :: log) a := by
  have hsub : (others key es).Sublist es := List.filter_sublist
  have horder := h.order.sublist (hsub.map (·.2.key))
  refine horder.imp_of_mem fun {a b} ha hb hlt => ?_
  obtain ⟨e, hin, rfl⟩ := List.mem_map.mp ha
  obtain ⟨e', hin', rfl⟩ := List.mem_map.mp hb
  rw [hused _ (Ne.symm (mem_others.mp hin).2), hused _ (Ne.symm (mem_others.mp hin').2)]
  exact hlt

/-- A key that is not of another entry has no value, but its own. -/
theorem Logged.absent_others (h : Logged maxBytes log es) {k : K} (hne : key ≠ k)
    (hk : ∀ e ∈ others key es, e.2.key ≠ k) : latest maxBytes log k = none := by
  refine h.absent k fun e hin heq => ?_
  exact hk e (mem_others.mpr ⟨hin, fun heq' => hne (heq'.symm.trans heq)⟩) heq

/-- **A key goes**: an event behind which it has no value. -/
theorem Logged.goes (h : Logged maxBytes log es)
    (hlatest : ∀ k, latest maxBytes (event :: log) k =
      if key = k then none else latest maxBytes log k)
    (hused : ∀ k, key ≠ k → usedAt (event :: log) k = usedAt log k) :
    Logged maxBytes (event :: log) (others key es) := by
  refine ⟨fun e hin => ?_, fun k hk => ?_, h.order_others hused⟩
  · rw [hlatest, if_neg (Ne.symm (mem_others.mp hin).2)]
    exact h.present e (mem_others.mp hin).1
  · rw [hlatest]
    split
    · rfl
    · exact h.absent_others ‹_› hk

/-- **A key is used**: an event that gives it a value, or leaves it its own. -/
theorem Logged.uses (h : Logged maxBytes log es) (p : Nat) (value : List UInt8)
    (hlatest : ∀ k, latest maxBytes (event :: log) k =
      if key = k then some value else latest maxBytes log k)
    (hused : ∀ k, usedAt (event :: log) k = if key = k then log.length + 1 else usedAt log k) :
    Logged maxBytes (event :: log) ((p, ⟨key, value⟩) :: others key es) := by
  have hother : ∀ k, key ≠ k → usedAt (event :: log) k = usedAt log k := fun k hne => by
    rw [hused, if_neg hne]
  refine ⟨List.forall_mem_cons.mpr ⟨?_, fun e hin => ?_⟩, fun k hk => ?_, ?_⟩
  · rw [hlatest, if_pos rfl]
  · rw [hlatest, if_neg (Ne.symm (mem_others.mp hin).2)]
    exact h.present e (mem_others.mp hin).1
  · obtain ⟨hne, hk⟩ := List.forall_mem_cons.mp hk
    rw [hlatest, if_neg hne]
    exact h.absent_others hne hk
  · refine List.pairwise_cons.mpr ⟨fun k hin => ?_, h.order_others hother⟩
    obtain ⟨e, hrest, rfl⟩ := List.mem_map.mp hin
    rw [hother _ (Ne.symm (mem_others.mp hrest).2), hused, if_pos rfl]
    exact Nat.lt_succ_of_le (usedAt_le log _)

end History

namespace SizedLRU

variable {K : Type} {c : SizedLRU K}

/-! ## List, map and counter -/

/-- The list, the map and the counter are those of some entries, each with its address. -/
structure Rep (c : SizedLRU K) (es : List (Nat × SizedNode K)) : Prop where
  linked : Chained c.links (es.map (·.1))
  nodes : ∀ e ∈ es, c.nodes e.1 = some e.2
  keys : (es.map (·.2.key)).Nodup
  items : ∀ key p, c.items key = some p ↔ ∃ e ∈ es, e.1 = p ∧ e.2.key = key
  bytes : c.curBytes = (es.map fun e => (e.2.value.length : Int)).sum
  fresh : ∀ e ∈ es, e.1 < c.allocated

variable {es l r : List (Nat × SizedNode K)} {e : Nat × SizedNode K}

/-- Two entries of a key are one. -/
theorem Rep.eq_of_key (h : c.Rep es) {e e' : Nat × SizedNode K} (hin : e ∈ es) (hin' : e' ∈ es)
    (hkey : e.2.key = e'.2.key) : e = e' :=
  List.inj_on_of_nodup_map h.keys hin hin' hkey

/-- The node of a key is that of an entry. -/
theorem Rep.find_eq_some (h : c.Rep es) {key : K} {p : Nat} {node : SizedNode K}
    (hfind : c.find key = some (p, node)) : node.key = key ∧ (p, node) ∈ es := by
  obtain ⟨p', hitem, hmap⟩ := Option.bind_eq_some_iff.mp hfind
  obtain ⟨node', hnode, heq⟩ := Option.map_eq_some_iff.mp hmap
  obtain ⟨rfl, rfl⟩ := Prod.mk.inj heq
  obtain ⟨⟨p, node⟩, hin, rfl, hkey⟩ := (h.items key p').mp hitem
  have hsame := h.nodes _ hin
  dsimp only at hsame hkey hnode
  rw [hnode] at hsame
  obtain rfl := Option.some.inj hsame
  exact ⟨hkey, hin⟩

theorem Rep.find_eq_none (h : c.Rep es) {key : K} (hfind : c.find key = none) :
    ∀ e ∈ es, e.2.key ≠ key := by
  intro e hin hkey
  rw [find, (h.items key e.1).mpr ⟨e, hin, rfl, hkey⟩, Option.bind_some, h.nodes e hin] at hfind
  cases hfind

/-- The history is no part of this. -/
theorem Rep.with_log (h : c.Rep es) (log : List (LruEvent K)) : { c with log := log }.Rep es :=
  ⟨h.linked, h.nodes, h.keys, h.items, h.bytes, h.fresh⟩

/-- There are no more entries than nodes. -/
theorem Rep.length_le (h : c.Rep es) : es.length ≤ c.allocated := by
  have hsubset : es.map (·.1) ⊆ List.range c.allocated := by
    intro p hp
    obtain ⟨e, hin, rfl⟩ := List.mem_map.mp hp
    exact List.mem_range.mpr (h.fresh e hin)
  have hle := (h.linked.nodup.subperm hsubset).length_le
  rwa [List.length_map, List.length_range] at hle

/-- The counter is the number of bytes of the model. -/
theorem Rep.bytes_eq (h : c.Rep es) :
    c.curBytes = ((es.map pairOf).map fun item => item.2.length).sum := by
  rw [h.bytes, Nat.cast_list_sum, List.map_map, List.map_map]
  rfl

variable [DecidableEq K]

/-- **An entry is dropped.** -/
theorem Rep.drop (h : c.Rep es) (hin : e ∈ es) :
    (c.drop e.1 e.2 e.2.key).Rep (others e.2.key es) := by
  obtain ⟨l, r, rfl⟩ := List.append_of_mem hin
  have hothers := others_of_middle h.keys
  refine ⟨?_, fun e' hin => h.nodes e' (mem_others.mp hin).1,
    h.keys.sublist (List.Sublist.map _ List.filter_sublist), fun key p => ?_, ?_,
    fun e' hin => h.fresh e' (mem_others.mp hin).1⟩
  · have hlinked := h.linked
    rw [List.map_append, List.map_cons] at hlinked
    rw [hothers, List.map_append]
    exact hlinked.unlink
  · dsimp only [SizedLRU.drop]
    rw [Function.update_apply]
    split
    · rename_i hkey
      refine iff_of_false nofun ?_
      rintro ⟨e', hin, -, hkey'⟩
      exact (mem_others.mp hin).2 (hkey'.trans hkey)
    · rename_i hkey
      rw [h.items]
      constructor
      · rintro ⟨e', hin, hp, hkey'⟩
        exact ⟨e', mem_others.mpr ⟨hin, fun heq => hkey (hkey'.symm.trans heq)⟩, hp, hkey'⟩
      · rintro ⟨e', hin, hp, hkey'⟩
        exact ⟨e', (mem_others.mp hin).1, hp, hkey'⟩
  · have hbytes := h.bytes
    rw [hothers]
    dsimp only [SizedLRU.drop]
    simp only [List.map_append, List.map_cons, List.sum_append, List.sum_cons] at hbytes ⊢
    omega

/-- **An entry is moved to the front**, with another value. -/
theorem Rep.front (h : c.Rep es) (hin : e ∈ es) (value : List UInt8) :
    { c with
      curBytes := c.curBytes + (value.length - e.2.value.length)
      nodes := Function.update c.nodes e.1 (some { e.2 with value := value })
      links := c.links.moveToFront e.1 }.Rep
      ((e.1, { e.2 with value := value }) :: others e.2.key es) := by
  obtain ⟨l, r, rfl⟩ := List.append_of_mem hin
  have hothers := others_of_middle h.keys
  have hlinked := h.linked
  rw [List.map_append, List.map_cons] at hlinked
  have hfront := hlinked.moveToFront
  have haddress : ∀ e' ∈ others e.2.key (l ++ e :: r), e'.1 ≠ e.1 := by
    intro e' hin heq
    rw [hothers] at hin
    have hmem : e'.1 ∈ (l ++ r).map (·.1) := List.mem_map_of_mem hin
    rw [heq, List.map_append] at hmem
    exact (List.nodup_cons.mp hfront.nodup).1 hmem
  refine ⟨?_, List.forall_mem_cons.mpr ⟨Function.update_self _ _ _, fun e' hin => ?_⟩,
    List.nodup_cons.mpr ⟨fun hin => ?_,
      h.keys.sublist (List.Sublist.map _ List.filter_sublist)⟩, fun key p => ?_, ?_,
    List.forall_mem_cons.mpr ⟨h.fresh e hin, fun e' hin => h.fresh e' (mem_others.mp hin).1⟩⟩
  · rw [List.map_cons, hothers, List.map_append]
    exact hfront
  · dsimp only
    rw [Function.update_of_ne (haddress e' hin)]
    exact h.nodes e' (mem_others.mp hin).1
  · obtain ⟨e', hin, hkey⟩ := List.mem_map.mp hin
    exact (mem_others.mp hin).2 hkey
  · dsimp only
    rw [h.items]
    constructor
    · rintro ⟨e', hin', hp, hkey⟩
      by_cases heq : e'.2.key = e.2.key
      · obtain rfl := h.eq_of_key hin' hin heq
        exact ⟨_, List.mem_cons_self, hp, hkey⟩
      · exact ⟨e', List.mem_cons_of_mem _ (mem_others.mpr ⟨hin', heq⟩), hp, hkey⟩
    · rintro ⟨e', hin', hp, hkey⟩
      rcases List.mem_cons.mp hin' with rfl | hin'
      · exact ⟨e, hin, hp, hkey⟩
      · exact ⟨e', (mem_others.mp hin').1, hp, hkey⟩
  · have hbytes := h.bytes
    rw [hothers]
    simp only [List.map_append, List.map_cons, List.sum_append, List.sum_cons] at hbytes ⊢
    omega

/-- **A new entry** is put in front. -/
theorem Rep.new (h : c.Rep es) {key : K} (hkey : ∀ e ∈ es, e.2.key ≠ key) (value : List UInt8) :
    { c with
      items := Function.update c.items key (some c.allocated)
      curBytes := c.curBytes + value.length
      nodes := Function.update c.nodes c.allocated (some ⟨key, value⟩)
      allocated := c.allocated + 1
      links := c.links.pushFront c.allocated }.Rep ((c.allocated, ⟨key, value⟩) :: es) := by
  have hfresh : ∀ e ∈ es, e.1 ≠ c.allocated := fun e hin => (h.fresh e hin).ne
  refine ⟨?_, List.forall_mem_cons.mpr ⟨Function.update_self _ _ _, fun e hin => ?_⟩,
    List.nodup_cons.mpr ⟨fun hin => ?_, h.keys⟩, fun k p => ?_, ?_,
    List.forall_mem_cons.mpr ⟨Nat.lt_succ_self _, fun e hin => (h.fresh e hin).trans
      (Nat.lt_succ_self _)⟩⟩
  · refine h.linked.pushFront fun hin => ?_
    obtain ⟨e, hin, heq⟩ := List.mem_map.mp hin
    exact hfresh e hin heq
  · dsimp only
    rw [Function.update_of_ne (hfresh e hin)]
    exact h.nodes e hin
  · obtain ⟨e, hin, heq⟩ := List.mem_map.mp hin
    exact hkey e hin heq
  · dsimp only
    rw [Function.update_apply, List.exists_mem_cons_iff]
    split
    · rename_i heq
      constructor
      · exact fun hp => .inl ⟨Option.some.inj hp, heq.symm⟩
      · rintro (⟨hp, -⟩ | ⟨e, hin, -, hk⟩)
        · exact congrArg some hp
        · exact absurd (hk.trans heq) (hkey e hin)
    · rename_i hne
      rw [h.items]
      exact (or_iff_right fun hboth => hne hboth.2.symm).symm
  · have hbytes := h.bytes
    simp only [List.map_cons, List.sum_cons]
    omega

/-! ## The calls -/

/-- The state between two calls, behind some calls; within `evictToFit` it may still be over the
bound. -/
structure State (maxBytes : Int) (calls : List (LruCall K)) (c : SizedLRU K)
    (es : List (Nat × SizedNode K)) : Prop where
  max : c.maxBytes = maxBytes
  pos : 1 ≤ maxBytes
  rep : c.Rep es
  logged : Logged maxBytes c.log es
  calls : c.log.filterMap LruEvent.asCall = calls.reverse

variable {maxBytes : Int} {calls : List (LruCall K)}

theorem State.calls_append {calls : List (LruCall K)} (h : State maxBytes calls c es)
    (x : LruCall K) :
    (LruEvent.call x :: c.log).filterMap LruEvent.asCall = (calls ++ [x]).reverse := by
  rw [List.reverse_append]
  exact congrArg (List.cons x) h.calls

/-- The last entry is evicted. -/
theorem State.removeTail (h : State maxBytes calls c (l ++ [e])) :
    State maxBytes calls c.removeTail l := by
  have htail : c.links.tail = some e.1 := by
    rw [h.rep.linked.tail, List.map_append, List.map_singleton, List.getLast?_concat]
  have hin : e ∈ l ++ [e] := List.mem_append_right _ List.mem_cons_self
  have hothers : others e.2.key (l ++ [e]) = l := by
    rw [others_of_middle h.rep.keys, List.append_nil]
  have hrep := h.rep.drop hin
  have hlogged : Logged maxBytes (.evicted e.2.key :: c.log) (others e.2.key (l ++ [e])) :=
    h.logged.goes (fun _ => rfl) fun _ _ => rfl
  rw [hothers] at hrep hlogged
  rw [SizedLRU.removeTail, htail, Option.bind_some, h.rep.nodes e hin]
  exact ⟨h.max, h.pos, hrep.with_log _, hlogged, h.calls⟩

/-- **The loop of `evictToFit`**: it ends within the bound, with the longest front that fits. -/
theorem State.evictToFit (h : State maxBytes calls c es) (fuel : Nat) (hfuel : es.length ≤ fuel) :
    ∃ es', State maxBytes calls (evictToFit fuel c) es' ∧
      (SizedLRU.evictToFit fuel c).curBytes ≤ maxBytes ∧
      es'.map pairOf = Gmeow.evictToFit maxBytes.toNat (es.map pairOf) := by
  have hpos := h.pos
  have hbytes := h.rep.bytes_eq
  induction fuel generalizing c es with
  | zero =>
    obtain rfl := List.eq_nil_of_length_eq_zero (Nat.le_zero.mp hfuel)
    refine ⟨[], h, ?_, rfl⟩
    rw [SizedLRU.evictToFit, hbytes]
    exact (Int.zero_lt_one.trans_le hpos).le
  | succ fuel ih =>
    rw [SizedLRU.evictToFit, h.max]
    by_cases hover : c.curBytes > maxBytes
    · rcases List.eq_nil_or_concat' es with rfl | ⟨l, e, rfl⟩
      · have hzero : c.curBytes = 0 := hbytes
        omega
      · have htail : c.links.tail ≠ none := by
          rw [h.rep.linked.tail, List.map_append, List.map_singleton, List.getLast?_concat]
          exact Option.some_ne_none _
        rw [List.length_append, List.length_singleton] at hfuel
        rw [if_pos ⟨hover, htail⟩]
        obtain ⟨es', hstate, hle, hmodel⟩ := ih h.removeTail (Nat.le_of_succ_le_succ hfuel)
          h.removeTail.rep.bytes_eq
        refine ⟨es', hstate, hle, hmodel.trans ?_⟩
        rw [List.map_append, List.map_singleton] at hbytes ⊢
        exact (evictToFit_of_lt (by omega)).symm
    · rw [if_neg fun hboth => hover hboth.1]
      exact ⟨es, h, not_lt.mp hover, (evictToFit_of_le (by omega)).symm⟩

/-- A call that leaves no value of its key. -/
theorem State.removes (h : State maxBytes calls c es) (x : LruCall K) (key : K)
    (hlatest : ∀ log k, latest maxBytes (.call x :: log) k =
      if key = k then none else latest maxBytes log k)
    (hused : ∀ log k, key ≠ k → usedAt (.call x :: log) k = usedAt log k) :
    State maxBytes (calls ++ [x]) (SizedLRU.remove { c with log := .call x :: c.log } key)
        (others key es) ∧
      (SizedLRU.remove { c with log := .call x :: c.log } key).curBytes ≤ c.curBytes := by
  have hcalls := h.calls_append x
  have hlogged := h.logged.goes (hlatest c.log) (hused c.log)
  have hrep := h.rep.with_log (.call x :: c.log)
  rw [SizedLRU.remove]
  split
  · rename_i p node hfind
    obtain ⟨rfl, hin⟩ := hrep.find_eq_some hfind
    refine ⟨⟨h.max, h.pos, hrep.drop hin, hlogged, hcalls⟩, ?_⟩
    dsimp only [SizedLRU.drop]
    omega
  · rename_i hfind
    rw [others_of_absent (hrep.find_eq_none hfind)] at hlogged ⊢
    exact ⟨⟨h.max, h.pos, hrep, hlogged, hcalls⟩, le_refl _⟩

/-- The entry of the key and the others are what `store` leaves. -/
theorem State.store (h : State maxBytes calls c es) (key : K) {value : List UInt8}
    (hfits : ¬(value.length : Int) > maxBytes) :
    ∃ p, State maxBytes (calls ++ [.put key value])
      (SizedLRU.store { c with log := .call (.put key value) :: c.log } key value)
      ((p, ⟨key, value⟩) :: others key es) := by
  have hcalls := h.calls_append (.put key value)
  have hrep := h.rep.with_log (.call (.put key value) :: c.log)
  have hlatest : ∀ k, latest maxBytes (.call (.put key value) :: c.log) k =
      if key = k then some value else latest maxBytes c.log k := by
    intro k
    rw [latest, if_neg hfits]
  have hlogged := fun p => h.logged.uses p value hlatest fun _ => rfl
  rw [SizedLRU.store]
  split
  · rename_i p node hfind
    obtain ⟨rfl, hin⟩ := hrep.find_eq_some hfind
    exact ⟨p, h.max, h.pos, hrep.front hin value, hlogged p, hcalls⟩
  · rename_i hfind
    have hkey := hrep.find_eq_none hfind
    rw [others_of_absent hkey] at hlogged ⊢
    exact ⟨c.allocated, h.max, h.pos, hrep.new hkey value, hlogged _, hcalls⟩

/-- A hit moves the entry to the front, a miss does nothing. -/
theorem State.get (h : State maxBytes calls c es) (key : K) :
    ∃ es', State maxBytes (calls ++ [.get key])
        (SizedLRU.get { c with log := .call (.get key) :: c.log } key).2 es' ∧
      (SizedLRU.get { c with log := .call (.get key) :: c.log } key).2.curBytes = c.curBytes ∧
      es'.map pairOf = recency maxBytes.toNat (es.map pairOf) (.get key) := by
  have hcalls := h.calls_append (.get key)
  have hrep := h.rep.with_log (.call (.get key) :: c.log)
  rw [SizedLRU.get, recency, List.find?_map]
  split
  · rename_i hfind
    have hkey := hrep.find_eq_none hfind
    have hlatest : ∀ k, latest maxBytes (.call (.get key) :: c.log) k =
        if key = k then none else latest maxBytes c.log k := by
      intro k
      rw [latest]
      split
      · rename_i heq
        exact heq ▸ h.logged.absent key hkey
      · rfl
    have hlogged := h.logged.goes hlatest fun k hne => if_neg hne
    have hmiss : (es.find? ((fun item => decide (item.1 = key)) ∘ pairOf)) = none :=
      List.find?_eq_none.mpr fun e hin heq => hkey e hin (of_decide_eq_true heq)
    rw [others_of_absent hkey] at hlogged
    rw [hmiss]
    exact ⟨es, ⟨h.max, h.pos, hrep, hlogged, hcalls⟩, rfl, rfl⟩
  · rename_i p node hfind
    obtain ⟨rfl, hin⟩ := hrep.find_eq_some hfind
    have hfront := hrep.front hin node.value
    have hnodes : Function.update c.nodes p (some node) = c.nodes := by
      rw [← h.rep.nodes (p, node) hin]
      exact Function.update_eq_self p c.nodes
    dsimp only at hfront
    rw [sub_self, add_zero, hnodes] at hfront
    have hlatest : ∀ k, latest maxBytes (.call (.get node.key) :: c.log) k =
        if node.key = k then some node.value else latest maxBytes c.log k := by
      intro k
      rw [latest]
      split
      · rename_i heq
        exact heq ▸ h.logged.present (p, node) hin
      · rfl
    have hhit : es.find? ((fun item => decide (item.1 = node.key)) ∘ pairOf) = some (p, node) := by
      cases hfound : es.find? ((fun item => decide (item.1 = node.key)) ∘ pairOf) with
      | none => exact absurd (decide_eq_true rfl) (List.find?_eq_none.mp hfound (p, node) hin)
      | some e' =>
        have hsame := List.find?_some hfound
        have hkey : e'.2.key = node.key := of_decide_eq_true hsame
        rw [h.rep.eq_of_key (List.mem_of_find?_eq_some hfound) hin hkey]
    rw [hhit]
    refine ⟨_, ⟨h.max, h.pos, hfront, h.logged.uses p node.value hlatest fun _ => rfl, hcalls⟩,
      rfl, ?_⟩
    rw [List.map_cons, map_others]
    rfl

/-- **One call**: the cache is behind it as it has to be, within its bound, and has the entries of
the model. -/
theorem State.call (h : State maxBytes calls c es) (hbytes : c.curBytes ≤ maxBytes)
    (x : LruCall K) :
    ∃ es', State maxBytes (calls ++ [x]) (c.call x) es' ∧ (c.call x).curBytes ≤ maxBytes ∧
      es'.map pairOf = recency maxBytes.toNat (es.map pairOf) x := by
  cases x with
  | put key value =>
    dsimp only [SizedLRU.call, SizedLRU.put]
    have hpos := h.pos
    rw [recency, ← map_others]
    by_cases hlarge : (value.length : Int) > maxBytes
    · obtain ⟨hstate, hle⟩ := h.removes (.put key value) key
        (fun log k => by rw [latest, if_pos hlarge]) fun log k hne => if_neg hne
      rw [if_pos (h.max.symm ▸ hlarge), if_pos (by omega)]
      exact ⟨others key es, hstate, hle.trans hbytes, rfl⟩
    · obtain ⟨p, hstate⟩ := h.store key hlarge
      rw [if_neg (h.max.symm ▸ hlarge), if_neg (by omega)]
      exact hstate.evictToFit _ hstate.rep.length_le
  | get key =>
    obtain ⟨es', hstate, hsame, hmodel⟩ := h.get key
    exact ⟨es', hstate, hsame.trans_le hbytes, hmodel⟩
  | remove key =>
    obtain ⟨hstate, hle⟩ := h.removes (.remove key) key (fun _ _ => rfl) fun _ _ _ => rfl
    exact ⟨others key es, hstate, hle.trans hbytes, map_others key es⟩

theorem State.foldl {x : List (LruCall K)} (h : State maxBytes calls c es)
    (hbytes : c.curBytes ≤ maxBytes) :
    ∃ es', State maxBytes (calls ++ x) (x.foldl SizedLRU.call c) es' ∧
      (x.foldl SizedLRU.call c).curBytes ≤ maxBytes ∧
      es'.map pairOf = x.foldl (recency maxBytes.toNat) (es.map pairOf) := by
  induction x generalizing calls c es with
  | nil =>
    rw [List.append_nil]
    exact ⟨es, h, hbytes, rfl⟩
  | cons first x ih =>
    obtain ⟨es', hstate, hle, hmodel⟩ := h.call hbytes first
    have hrest := ih hstate hle
    rwa [List.append_assoc, hmodel] at hrest

/-- `Get` returns what the history says. -/
theorem State.get_eq (h : State maxBytes calls c es) (key : K) :
    (c.get key).1 = latest maxBytes c.log key := by
  rw [SizedLRU.get]
  split
  · rename_i hfind
    exact (h.logged.absent key (h.rep.find_eq_none hfind)).symm
  · rename_i p node hfind
    obtain ⟨rfl, hin⟩ := h.rep.find_eq_some hfind
    exact (h.logged.present (p, node) hin).symm

end SizedLRU

/-- **The byte-bounded cache refines its model.** Behind any calls there are entries such that: the
nodes from head to tail are linked with each other in their order; the map has exactly the keys of
the entries, each once and with its node; the one used last is in front, and so on, as in the model;
the counter is the sum of their bytes and within the bound; and `Get` of any key returns the value
of its latest `Put`, unless that was too large or the key was removed or evicted since. The history
is that of the calls, with evictions between them. -/
theorem sizedLru_run {K : Type} [DecidableEq K] (maxBytes : Int) (calls : List (LruCall K)) :
    let c := sizedRun maxBytes calls
    ∃ es : List (Nat × SizedNode K),
      Chained c.links (es.map (·.1)) ∧ (∀ e ∈ es, c.nodes e.1 = some e.2) ∧
      (es.map (·.2.key)).Nodup ∧
      (∀ key p, c.items key = some p ↔ ∃ e ∈ es, e.1 = p ∧ e.2.key = key) ∧
      (es.map (·.2.key)).Pairwise (fun a b => usedAt c.log b < usedAt c.log a) ∧
      es.map pairOf = calls.foldl (recency c.maxBytes.toNat) [] ∧
      c.curBytes = (es.map fun e => (e.2.value.length : Int)).sum ∧
      c.curBytes ≤ c.maxBytes ∧ c.maxBytes = max 1 maxBytes ∧
      (∀ key, (c.get key).1 = latest c.maxBytes c.log key) ∧
      c.log.filterMap LruEvent.asCall = calls.reverse := by
  intro c
  have hmax : (newSizedLRU K maxBytes).maxBytes = max 1 maxBytes := by
    dsimp only [newSizedLRU]
    split <;> omega
  have hstart : SizedLRU.State (max 1 maxBytes) [] (newSizedLRU K maxBytes) [] :=
    ⟨hmax, le_max_left _ _, ⟨.nil, nofun, List.nodup_nil, fun key p => iff_of_false nofun nofun,
      rfl, nofun⟩, ⟨nofun, fun _ _ => rfl, List.Pairwise.nil⟩, rfl⟩
  have hzero : (newSizedLRU K maxBytes).curBytes ≤ max 1 maxBytes :=
    (Int.zero_lt_one.trans_le (le_max_left 1 maxBytes)).le
  obtain ⟨es, hstate, hbytes, hmodel⟩ := hstart.foldl (x := calls) hzero
  rw [← hstate.max] at hmodel
  exact ⟨es, hstate.rep.linked, hstate.rep.nodes, hstate.rep.keys, hstate.rep.items,
    hstate.logged.order, hmodel, hstate.rep.bytes, hbytes.trans_eq hstate.max.symm, hstate.max,
    fun key => (hstate.get_eq key).trans (by rw [← hstate.max]; rfl), hstate.calls⟩

end Gmeow.Cache
