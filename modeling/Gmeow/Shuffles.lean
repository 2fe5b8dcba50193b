import Mathlib

/-!
# Texts written in any order

A text is written piece by piece, and the parts of each piece in an order that is not fixed. It is
always the same text exactly if any two parts of a piece commute.

* `Shuffled` — a text in some order of the parts;
* `shuffled_unique_iff` — when there is only one.
-/

namespace Shuffles

variable {α : Type*}

/-- The text of the pieces, the parts of each of them in some order. -/
def Shuffled (pieces : List (List (List α))) (out : List α) : Prop :=
  ∃ orders, List.Forall₂ List.Perm orders pieces ∧ out = (orders.map List.flatten).flatten

/-- Any two parts can change places. -/
def Commuting (parts : List (List α)) : Prop := parts.Pairwise fun x y => x ++ y = y ++ x

/-- Parts that commute give one text. -/
theorem flatten_eq_of_perm {parts order : List (List α)} (hcommute : Commuting parts)
    (h : order.Perm parts) : order.flatten = parts.flatten := by
  induction h with
  | nil => rfl
  | cons part _ ih =>
    rw [List.flatten_cons, List.flatten_cons, ih (List.pairwise_cons.mp hcommute).2]
  | swap x y rest =>
    have hxy : x ++ y = y ++ x := (List.pairwise_cons.mp hcommute).1 y List.mem_cons_self
    rw [List.flatten_cons, List.flatten_cons, List.flatten_cons, List.flatten_cons,
      ← List.append_assoc, ← List.append_assoc, hxy]
  | trans h₁ h₂ ih₁ ih₂ =>
    have hbetween : Commuting _ :=
      h₂.symm.pairwise hcommute fun hxy => hxy.symm
    exact (ih₁ hbetween).trans (ih₂ hcommute)

theorem shuffled_of_perm {before after : List (List (List α))} {parts order : List (List α)}
    (h : order.Perm parts) :
    Shuffled (before ++ parts :: after) ((before.map List.flatten).flatten ++
      (order.flatten ++ (after.map List.flatten).flatten)) := by
  have hrefl : ∀ pieces : List (List (List α)), List.Forall₂ List.Perm pieces pieces :=
    fun pieces => List.forall₂_same.mpr fun parts _ => List.Perm.refl parts
  refine ⟨before ++ order :: after, List.rel_append (hrefl before) (.cons h (hrefl after)), ?_⟩
  rw [List.map_append, List.map_cons, List.flatten_append, List.flatten_cons]

/-- **There is one text exactly if the parts of each piece commute.** -/
theorem shuffled_unique_iff (pieces : List (List (List α))) :
    (∀ a b, Shuffled pieces a → Shuffled pieces b → a = b) ↔ ∀ parts ∈ pieces, Commuting parts := by
  constructor
  · intro h parts hin
    obtain ⟨before, after, rfl⟩ := List.append_of_mem hin
    refine List.pairwise_iff_forall_sublist.mpr fun {x y} hsub => ?_
    obtain ⟨rest, hrest⟩ := hsub.exists_perm_append
    -- the two parts in front, in both orders
    have hfirst : Shuffled (before ++ parts :: after) _ := shuffled_of_perm hrest.symm
    have hsecond : Shuffled (before ++ parts :: after) _ :=
      shuffled_of_perm ((List.Perm.swap y x rest).symm.trans hrest.symm)
    have heq := List.append_cancel_left (h _ _ hfirst hsecond)
    simp only [List.cons_append, List.nil_append, List.flatten_cons, ← List.append_assoc] at heq
    exact List.append_cancel_right (List.append_cancel_right heq)
  · have hout : ∀ out, (∀ parts ∈ pieces, Commuting parts) → Shuffled pieces out →
        out = (pieces.map List.flatten).flatten := by
      rintro out hcommute ⟨orders, horders, rfl⟩
      congr 1
      induction horders with
      | nil => rfl
      | cons h _ ih =>
        obtain ⟨hparts, hrest⟩ := List.forall_mem_cons.mp hcommute
        rw [List.map_cons, List.map_cons, flatten_eq_of_perm hparts h, ih hrest]
    intro hcommute a b ha hb
    rw [hout a hcommute ha, hout b hcommute hb]

/-- All texts have the same length. -/
theorem Shuffled.length_eq {pieces : List (List (List α))} {a b : List α} (ha : Shuffled pieces a)
    (hb : Shuffled pieces b) : a.length = b.length := by
  have hlength : ∀ out, Shuffled pieces out →
      out.length = (pieces.map fun parts => parts.flatten.length).sum := by
    rintro out ⟨orders, horders, rfl⟩
    rw [List.length_flatten, List.map_map]
    congr 1
    clear ha hb
    induction horders with
    | nil => rfl
    | cons h _ ih =>
      rw [List.map_cons, List.map_cons, ih]
      exact congrArg (· :: _) h.flatten.length_eq
  rw [hlength a ha, hlength b hb]

theorem exists_shuffled (pieces : List (List (List α))) : ∃ out, Shuffled pieces out :=
  ⟨_, pieces, List.forall₂_same.mpr fun parts _ => List.Perm.refl parts, rfl⟩

end Shuffles
