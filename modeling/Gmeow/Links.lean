import Mathlib

/-!
# Doubly linked lists

The nodes of a list have a pointer to the one before and one to the one behind, and there are
pointers to the first and the last. Memory is kept field by field: what is at the other fields of a
node is not touched by the links.

* `Links` — the pointers; `pushFront`, `unlink`, `moveToFront` — the operations;
* `Chained` — the pointers are those of a list of nodes;
* `Chained.unlink`, `Chained.pushFront`, `Chained.moveToFront` — what the operations do to the list.
-/

namespace Linking

variable {P : Type} [DecidableEq P]

/-- The pointers. -/
structure Links (P : Type) where
  prev : P → Option P := fun _ => none
  next : P → Option P := fun _ => none
  head : Option P := none
  tail : Option P := none

namespace Links

def setPrev (s : Links P) (p : P) (q : Option P) : Links P :=
  { s with prev := Function.update s.prev p q }

def setNext (s : Links P) (p : P) (q : Option P) : Links P :=
  { s with next := Function.update s.next p q }

/-- A node that is in no list becomes the first. -/
def pushFront (s : Links P) (p : P) : Links P :=
  let s := (s.setPrev p none).setNext p s.head
  let s := match s.head with
    | some first => s.setPrev first (some p)
    | none => s
  let s := { s with head := some p }
  match s.tail with
  | none => { s with tail := some p }
  | some _ => s

/-- The neighbours of a node are linked with each other. -/
def unlink (s : Links P) (p : P) : Links P :=
  let s := match s.prev p with
    | some before => s.setNext before (s.next p)
    | none => { s with head := s.next p }
  let s := match s.next p with
    | some behind => s.setPrev behind (s.prev p)
    | none => { s with tail := s.prev p }
  (s.setPrev p none).setNext p none

def moveToFront (s : Links P) (p : P) : Links P :=
  if s.head = some p then s else (s.unlink p).pushFront p

end Links

/-- The pointers are those of a list: a node points to its neighbours. -/
structure Chained (s : Links P) (ps : List P) : Prop where
  nodup : ps.Nodup
  head : s.head = ps.head?
  tail : s.tail = ps.getLast?
  links : ∀ l p r, ps = l ++ p :: r → s.prev p = l.getLast? ∧ s.next p = r.head?

omit [DecidableEq P] in
theorem Chained.nil : Chained ({} : Links P) [] :=
  ⟨List.nodup_nil, rfl, rfl, fun _ _ _ h => by simp at h⟩

omit [DecidableEq P] in
/-- A node of two lists in a row is in the one or in the other. -/
theorem append_eq_append_cons {l r l' r' : List P} {q : P} (h : l ++ r = l' ++ q :: r') :
    (∃ m, l = l' ++ q :: m ∧ r' = m ++ r) ∨ ∃ m, r = m ++ q :: r' ∧ l' = l ++ m := by
  rcases List.append_eq_append_iff.mp h with ⟨m, hl', hr⟩ | ⟨m, hl, hr⟩
  · exact .inr ⟨m, hr, hl'⟩
  · cases m with
    | nil => exact .inr ⟨[], by rw [List.nil_append]; exact hr.symm, by rw [hl]; simp⟩
    | cons q' m =>
      obtain ⟨rfl, rfl⟩ := List.cons.inj hr
      exact .inl ⟨m, hl, rfl⟩

variable {s : Links P} {p : P} {l r : List P}

/-! ## Taking a node out -/

/-- The pointers behind `unlink`, for a node between two lists. -/
theorem unlink_eq (h : Chained s (l ++ p :: r)) :
    (s.unlink p).head = (l ++ r).head? ∧ (s.unlink p).tail = (l ++ r).getLast? ∧
    (∀ q, (s.unlink p).prev q =
      if q = p then none else if r.head? = some q then l.getLast? else s.prev q) ∧
    ∀ q, (s.unlink p).next q =
      if q = p then none else if l.getLast? = some q then r.head? else s.next q := by
  obtain ⟨hprev, hnext⟩ := h.links l p r rfl
  have hhead := h.head
  have htail := h.tail
  have hnodup := h.nodup
  have hp : p ∉ l ∧ p ∉ r := by
    obtain ⟨-, hr, hapart⟩ := List.nodup_append.mp hnodup
    exact ⟨fun hin => hapart p hin p List.mem_cons_self rfl, (List.nodup_cons.mp hr).1⟩
  rw [Links.unlink, hprev, hnext]
  cases hl : l.getLast? with
  | none =>
    obtain rfl := List.getLast?_eq_none_iff.mp hl
    cases hr : r.head? with
    | none =>
      obtain rfl := List.head?_eq_none_iff.mp hr
      simp [Links.setPrev, Links.setNext, Function.update_apply, hprev, hnext]
    | some behind =>
      obtain ⟨r, rfl⟩ := List.head?_eq_some_iff.mp hr
      simp [Links.setPrev, Links.setNext, Function.update_apply, hprev, hnext, htail, eq_comm]
  | some before =>
    obtain ⟨l, rfl⟩ := List.getLast?_eq_some_iff.mp hl
    have hbefore : p ≠ before := fun heq => hp.1 (by rw [heq]; simp)
    cases hr : r.head? with
    | none =>
      obtain rfl := List.head?_eq_none_iff.mp hr
      simp [Links.setPrev, Links.setNext, Function.update_apply, hprev, hnext, hhead, hbefore,
        eq_comm]
    | some behind =>
      obtain ⟨r, rfl⟩ := List.head?_eq_some_iff.mp hr
      simp [Links.setPrev, Links.setNext, Function.update_apply, hprev, hnext, hhead, htail,
        hbefore, eq_comm]

/-- **A node is taken out.** -/
theorem Chained.unlink (h : Chained s (l ++ p :: r)) : Chained (s.unlink p) (l ++ r) := by
  obtain ⟨hhead, htail, hprev, hnext⟩ := unlink_eq h
  have hsub : (l ++ r).Sublist (l ++ p :: r) := (List.sublist_cons_self p r).append_left l
  refine ⟨h.nodup.sublist hsub, hhead, htail, fun l' q r' heq => ?_⟩
  have hq : q ∈ l ++ r := heq ▸ List.mem_append_right _ List.mem_cons_self
  have hqp : q ≠ p := by
    rintro rfl
    have hperm : (q :: (l ++ r)).Nodup := List.perm_middle.nodup_iff.mp h.nodup
    exact (List.nodup_cons.mp hperm).1 hq
  have hapart := (List.nodup_append.mp (h.nodup.sublist hsub)).2.2
  rw [hprev, hnext, if_neg hqp, if_neg hqp]
  rcases append_eq_append_cons heq with ⟨m, rfl, rfl⟩ | ⟨m, rfl, rfl⟩
  · -- the node is before the one taken out, and has a new one behind it if it was its neighbour
    obtain ⟨hprev, hnext⟩ := h.links l' q (m ++ p :: r) (by simp)
    have hbehind : r.head? ≠ some q := fun hr =>
      hapart q (by simp) q (List.mem_of_head? hr) rfl
    rw [if_neg hbehind]
    refine ⟨hprev, ?_⟩
    cases m with
    | nil => simp
    | cons first m =>
      have hlast : (l' ++ q :: first :: m).getLast? ≠ some q := by
        intro hlast
        rw [List.append_cons, List.getLast?_append_of_ne_nil _ (List.cons_ne_nil _ _)] at hlast
        have hnodup := (List.nodup_append.mp (List.nodup_append.mp h.nodup).1).2.1
        exact (List.nodup_cons.mp hnodup).1 (List.mem_of_getLast? hlast)
      rw [if_neg hlast, hnext]
      rfl
  · obtain ⟨hprev, hnext⟩ := h.links (l ++ p :: m) q r' (by simp)
    have hbefore : l.getLast? ≠ some q := fun hl =>
      hapart q (List.mem_of_getLast? hl) q (by simp) rfl
    rw [if_neg hbefore]
    refine ⟨?_, hnext⟩
    cases m with
    | nil => simp
    | cons first m =>
      have hfirst : (first :: m ++ q :: r').head? ≠ some q := by
        intro hfirst
        have hnodup := (List.nodup_append.mp (h.nodup.sublist hsub)).2.1
        obtain rfl := Option.some.inj hfirst
        exact (List.nodup_cons.mp hnodup).1 (by simp)
      rw [if_neg hfirst, hprev]
      simp [List.getLast?_append, List.getLast?_cons]

/-! ## Putting a node in front -/

/-- The pointers behind `pushFront`. -/
theorem pushFront_eq {ps : List P} (h : Chained s ps) (hp : p ∉ ps) :
    (s.pushFront p).head = some p ∧ (s.pushFront p).tail = (p :: ps).getLast? ∧
    (∀ q, (s.pushFront p).prev q =
      if ps.head? = some q then some p else if q = p then none else s.prev q) ∧
    ∀ q, (s.pushFront p).next q = if q = p then ps.head? else s.next q := by
  have hhead := h.head
  have htail := h.tail
  cases ps with
  | nil =>
    simp [Links.pushFront, Links.setPrev, Links.setNext, Function.update_apply, hhead, htail]
  | cons first ps =>
    simp [Links.pushFront, Links.setPrev, Links.setNext, Function.update_apply, hhead, htail,
      List.getLast?_cons, eq_comm]

/-- **A node is put in front.** -/
theorem Chained.pushFront {ps : List P} (h : Chained s ps) (hp : p ∉ ps) :
    Chained (s.pushFront p) (p :: ps) := by
  obtain ⟨hhead, htail, hprev, hnext⟩ := pushFront_eq h hp
  refine ⟨List.nodup_cons.mpr ⟨hp, h.nodup⟩, hhead, htail, fun l q r heq => ?_⟩
  rw [hprev, hnext]
  cases l with
  | nil =>
    obtain ⟨rfl, rfl⟩ := List.cons.inj heq
    have hfirst : ps.head? ≠ some p := fun hfirst => hp (List.mem_of_head? hfirst)
    rw [if_neg hfirst, if_pos rfl, if_pos rfl]
    exact ⟨rfl, rfl⟩
  | cons p' l =>
    rw [List.cons_append] at heq
    obtain ⟨rfl, rfl⟩ := List.cons.inj heq
    have hqp : q ≠ p := fun heq => hp (by simp [heq])
    obtain ⟨hprev, hnext⟩ := h.links l q r rfl
    rw [if_neg hqp, if_neg hqp, hprev, hnext]
    cases l with
    | nil => simp
    | cons first l =>
      have hfirst : (first :: l ++ q :: r).head? ≠ some q := by
        intro hfirst
        obtain rfl := Option.some.inj hfirst
        exact (List.nodup_cons.mp h.nodup).1 (by simp)
      rw [if_neg hfirst, List.getLast?_cons_cons]
      exact ⟨rfl, rfl⟩

/-- **A node is moved to the front.** -/
theorem Chained.moveToFront (h : Chained s (l ++ p :: r)) :
    Chained (s.moveToFront p) (p :: (l ++ r)) := by
  have hperm : (p :: (l ++ r)).Nodup := List.perm_middle.nodup_iff.mp h.nodup
  rw [Links.moveToFront]
  split
  · rename_i hfirst
    cases l with
    | nil => exact h
    | cons first l =>
      rw [h.head, List.cons_append, List.head?_cons] at hfirst
      obtain rfl := Option.some.inj hfirst
      exact absurd (List.mem_append_left r List.mem_cons_self) (List.nodup_cons.mp hperm).1
  · exact h.unlink.pushFront (List.nodup_cons.mp hperm).1

end Linking
