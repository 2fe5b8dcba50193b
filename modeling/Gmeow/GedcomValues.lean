import Gmeow.ImportOrder

/-!
# The values of a GEDCOM file

`gedcomFactsFromLines` hangs each line under the last line of the level above, so that the facts of
an individual are trees of any height. `writeGEDCOMFact` writes a fact and its children.

* `tagPaths` — the lines of a record with their tags, from the top;
* `gedcomTriples` — what is written for an individual, with the path each triple is written for;
* `KeepsValues` — each value is written, as it is, under its path;
* `gedcom_values_kept_iff` — so it is exactly if lines of the third level and below have no value and
  the addresses of the first level are written as they are.
-/

namespace Gmeow.Contacts

open Runes

deriving instance DecidableEq for GedcomLine

section Values

variable {File Value : Type} (lib : ImportLibrary File Value)

/-! ## Lines and their paths -/

/-- A triple, and the tags of the fact it is written for. -/
structure GedcomTriple : Type where
  path : List Runes
  predicate : Runes
  object : Runes

/-- The object for a value: an address becomes an IRI if it can be read. -/
def gedcomObject (path : List Runes) (value : Runes) : Runes :=
  if path = ["EMAIL".toList] ∧ normalizedEmailIRI lib value ≠ [] then normalizedEmailIRI lib value
  else literal value

/-- The triples of `writeGEDCOMFact`. -/
def factTriples (tag : Runes) (fact : GedcomFact) : List GedcomTriple :=
  (if gedcomPredicate tag ≠ [] ∧ fact.value ≠ [] then
    [⟨[tag], gedcomPredicate tag, gedcomObject lib [tag] fact.value⟩] else []) ++
  fact.children.flatMap fun child =>
    if child.value = [] then []
    else [⟨[tag, child.tag], gmeowTerm "gedcom" ++ compactPredicateName (tag ++ ' ' :: child.tag),
      literal child.value⟩]

/-- The facts with a tag. -/
def items (facts : GedcomFacts) (tag : Runes) : List GedcomFact := (facts.get tag).getD []

/-- The triples of `writeGEDCOMFacts`. -/
def gedcomTriples (facts : GedcomFacts) : List GedcomTriple :=
  facts.entries.flatMap fun entry => entry.2.flatMap (factTriples lib entry.1)

/-- An object that is a value: the literal of it, or the address it is. -/
def Shows (value object : Runes) : Prop :=
  object = literal value ∨ object = bracketed ("mailto:".toList ++ value)

instance (value object : Runes) : Decidable (Shows value object) :=
  inferInstanceAs (Decidable (_ ∨ _))

variable {lines : List GedcomLine} {path : List Runes} {facts : GedcomFacts} {stack : FactStack}
  {line before : GedcomLine} {triple : GedcomTriple} {content value : Runes}
  {record : Runes × List GedcomLine} {old : RenderedContact}

/-- A value stands on a path. Nothing is said of paths that are never written. -/
def Holds (facts : GedcomFacts) : List Runes → Runes → Prop
  | [tag], value => ∃ fact ∈ items facts tag, fact.value = value
  | [tag, sub], value =>
    ∃ fact ∈ items facts tag, ∃ child ∈ fact.children, child.tag = sub ∧ child.value = value
  | _, _ => True

/-- The same value, and children with the same tags and values at least. -/
def Grows (fact grown : GedcomFact) : Prop :=
  grown.value = fact.value ∧ ∀ child ∈ fact.children, ∃ kept ∈ grown.children,
    kept.tag = child.tag ∧ kept.value = child.value

theorem Grows.refl (fact : GedcomFact) : Grows fact fact :=
  ⟨rfl, fun child hchild => ⟨child, hchild, rfl, rfl⟩⟩

theorem attach_tag (new : GedcomFact) (depth : Nat) (fact : GedcomFact) :
    (new.attach depth fact).tag = fact.tag := by
  cases depth <;> rfl

theorem attach_value (new : GedcomFact) (depth : Nat) (fact : GedcomFact) :
    (new.attach depth fact).value = fact.value := by
  cases depth <;> rfl

/-- The items of a list whose last one is changed. -/
theorem mem_modifyLast {α : Type} {l : List α} {f : α → α} {a : α} (h : a ∈ l) :
    a ∈ l.modifyLast f ∨ f a ∈ l.modifyLast f := by
  rcases List.eq_nil_or_concat l with rfl | ⟨init, last, rfl⟩
  · cases h
  · rw [List.concat_eq_append] at h ⊢
    rw [List.modifyLast_concat]
    rcases List.mem_append.mp h with h | h
    · exact .inl (List.mem_append_left _ h)
    · rw [List.mem_singleton.mp h]
      exact .inr (List.mem_append_right _ List.mem_cons_self)

theorem attach_grows (new : GedcomFact) (depth : Nat) (fact : GedcomFact) :
    Grows fact (new.attach depth fact) := by
  refine ⟨attach_value new depth fact, fun child hchild => ?_⟩
  cases depth with
  | zero => exact ⟨child, List.mem_append_left _ hchild, rfl, rfl⟩
  | succ depth =>
    rcases mem_modifyLast (f := new.attach depth) hchild with hkept | hkept
    · exact ⟨child, hkept, rfl, rfl⟩
    · exact ⟨_, hkept, attach_tag .., attach_value ..⟩

theorem Holds.mono {grown : GedcomFacts}
    (h : ∀ tag, ∀ fact ∈ items facts tag, ∃ kept ∈ items grown tag, Grows fact kept)
    (hholds : Holds facts path value) : Holds grown path value := by
  match path with
  | [] => trivial
  | [tag] =>
    obtain ⟨fact, hfact, hvalue⟩ := hholds
    obtain ⟨kept, hkept, hgrows⟩ := h tag fact hfact
    exact ⟨kept, hkept, hgrows.1.trans hvalue⟩
  | [tag, sub] =>
    obtain ⟨fact, hfact, child, hchild, htag, hvalue⟩ := hholds
    obtain ⟨kept, hkept, hgrows⟩ := h tag fact hfact
    obtain ⟨other, hother, htag', hvalue'⟩ := hgrows.2 child hchild
    exact ⟨kept, hkept, other, hother, htag'.trans htag, hvalue'.trans hvalue⟩
  | _ :: _ :: _ :: _ => trivial

/-! ## The stack -/

theorem items_set (facts : GedcomFacts) (tag other : Runes) (new : List GedcomFact) :
    items (facts.set tag new) other = if other = tag then new else items facts other := by
  unfold items
  split
  · rename_i heq
    rw [heq, OrdMap.get_set_self, Option.getD_some]
  · rename_i hne
    rw [OrdMap.get_set_ne _ _ hne]

/-- The stack stands at a path, and at its bottom is the last fact of the first tag. -/
structure At (stack : FactStack) (path : List Runes) : Prop where
  depth : path.length = stack.depth
  top : ∀ tag ∈ path.head?, tag = stack.top
  bottom : 0 < stack.depth → items stack.facts stack.top ≠ []

/-- What a line does to a stack that it is at most one level below. -/
theorem add_eq (hlevel : line.level ≤ stack.depth + 1) :
    stack.add line = if line.level ≤ 1 then
        ⟨stack.facts.set line.tag (items stack.facts line.tag ++ [⟨line.tag, line.value, []⟩]),
          line.tag, 1⟩
      else ⟨stack.facts.set stack.top ((items stack.facts stack.top).modifyLast
          (GedcomFact.attach ⟨line.tag, line.value, []⟩ (line.level - 2).toNat)),
        stack.top, line.level.toNat⟩ := by
  have hdepth : (if line.level ≤ stack.depth then (line.level - 1).toNat else stack.depth) =
      (line.level - 1).toNat := by
    split <;> omega
  unfold FactStack.add
  simp only [hdepth]
  by_cases hroot : line.level ≤ 1
  · rw [if_pos hroot, if_pos (Or.inl (by omega))]
    rfl
  · rw [if_neg hroot, if_neg (by omega)]
    have hunder : (line.level - 1).toNat - 1 = (line.level - 2).toNat := by omega
    have hnext : (line.level - 1).toNat + 1 = line.level.toNat := by omega
    rw [hunder, hnext]
    rfl

/-- A value of the facts with a tag. -/
def Has (facts : GedcomFacts) (tag value : Runes) : Prop :=
  ∃ fact ∈ items facts tag, fact.value = value

/-- A line is added at its path, and what was held is held; facts have no other values. -/
structure AddsValue (stack : FactStack) (path : List Runes) (line : GedcomLine) : Prop where
  at_path : At (stack.add line) (path.take (line.level - 1).toNat ++ [line.tag])
  holds : Holds (stack.add line).facts (path.take (line.level - 1).toNat ++ [line.tag]) line.value
  keeps : ∀ old value, Holds stack.facts old value → Holds (stack.add line).facts old value
  only : ∀ tag value, Has (stack.add line).facts tag value → Has stack.facts tag value ∨
    path.take (line.level - 1).toNat ++ [line.tag] = [tag] ∧ line.value = value

/-- A fact of the record. -/
theorem adds_root (hroot : line.level ≤ 1) : AddsValue stack path line := by
  have hzero : (line.level - 1).toNat = 0 := by omega
  have hadd : stack.add line = _ := add_eq (by omega)
  rw [if_pos hroot] at hadd
  constructor
  all_goals simp only [hadd, hzero, List.take_zero, List.nil_append]
  · exact ⟨rfl, by simp, fun _ => by simp [items_set]⟩
  · exact ⟨⟨line.tag, line.value, []⟩, by simp [items_set], rfl⟩
  · refine fun old value => Holds.mono fun tag fact hfact => ⟨fact, ?_, .refl fact⟩
    rw [items_set]
    split
    · rename_i heq
      rw [heq] at hfact
      exact List.mem_append_left _ hfact
    · exact hfact
  · rintro tag value ⟨fact, hfact, rfl⟩
    rw [items_set] at hfact
    split at hfact
    · rename_i heq
      subst heq
      rcases List.mem_append.mp hfact with hfact | hfact
      · exact .inl ⟨fact, hfact, rfl⟩
      · exact .inr ⟨rfl, by rw [List.mem_singleton.mp hfact]⟩
    · exact .inl ⟨fact, hfact, rfl⟩

/-- A fact below the last one, `n` levels down. -/
theorem adds_below {top : Runes} (h : At stack (top :: path)) {n : Nat} (hdeep : line.level = n + 2)
    (hn : n ≤ path.length) : AddsValue stack (top :: path) line := by
  have hdepth : stack.depth = path.length + 1 := h.depth.symm
  obtain rfl : top = stack.top := h.top top rfl
  obtain ⟨init, last, hlast⟩ : ∃ init last, items stack.facts stack.top = init ++ [last] := by
    rcases List.eq_nil_or_concat (items stack.facts stack.top) with hnil | ⟨init, last, hlast⟩
    · exact absurd hnil (h.bottom (by omega))
    · exact ⟨init, last, hlast.trans (List.concat_eq_append ..)⟩
  have hset : items (stack.facts.set stack.top ((items stack.facts stack.top).modifyLast
      (GedcomFact.attach ⟨line.tag, line.value, []⟩ n))) stack.top =
        init ++ [GedcomFact.attach ⟨line.tag, line.value, []⟩ n last] := by
    rw [items_set, if_pos rfl, hlast, List.modifyLast_concat]
  have hup : (line.level - 1).toNat = n + 1 := by omega
  have hunder : (line.level - 2).toNat = n := by omega
  have hadd : stack.add line = _ := add_eq (by omega)
  rw [if_neg (by omega), hunder] at hadd
  constructor
  all_goals simp only [hadd, hup, List.take_succ_cons, List.cons_append]
  · refine ⟨?_, by simp, fun _ => ?_⟩
    · rw [List.length_cons, List.length_append, List.length_take, List.length_singleton]
      dsimp only
      omega
    · dsimp only
      rw [hset]
      simp
  · cases n with
    | zero =>
      refine ⟨_, by rw [hset]; exact List.mem_append_right _ List.mem_cons_self, ?_⟩
      exact ⟨_, List.mem_append_right _ List.mem_cons_self, rfl, rfl⟩
    | succ n =>
      -- two tags or more lead to the line, so that nothing is asked
      cases path with
      | nil => exact absurd hn (by simp)
      | cons second path =>
        rw [List.take_succ_cons, List.cons_append]
        cases hmore : path.take n ++ [line.tag] with
        | nil => exact absurd hmore (by simp)
        | cons third more => trivial
  · refine fun old value => Holds.mono fun tag fact hfact => ?_
    by_cases htag : tag = stack.top
    · rw [htag] at hfact ⊢
      rw [items_set, if_pos rfl]
      rcases mem_modifyLast (f := GedcomFact.attach ⟨line.tag, line.value, []⟩ n) hfact with
        hkept | hkept
      · exact ⟨fact, hkept, .refl fact⟩
      · exact ⟨_, hkept, attach_grows _ n fact⟩
    · exact ⟨fact, by rw [items_set, if_neg htag]; exact hfact, .refl fact⟩
  · rintro tag value ⟨fact, hfact, rfl⟩
    refine .inl ?_
    by_cases htag : tag = stack.top
    · rw [htag, hset] at hfact
      rw [htag, Has, hlast]
      rcases List.mem_append.mp hfact with hfact | hfact
      · exact ⟨fact, List.mem_append_left _ hfact, rfl⟩
      · rw [List.mem_singleton.mp hfact, attach_value]
        exact ⟨last, List.mem_append_right _ List.mem_cons_self, rfl⟩
    · rw [items_set, if_neg htag] at hfact
      exact ⟨fact, hfact, rfl⟩

theorem At.add (h : At stack path) (line : GedcomLine) (hlevel : line.level ≤ stack.depth + 1) :
    AddsValue stack path line := by
  by_cases hroot : line.level ≤ 1
  · exact adds_root hroot
  · have hdepth := h.depth
    cases path with
    | nil =>
      rw [List.length_nil] at hdepth
      omega
    | cons top path =>
      rw [List.length_cons] at hdepth
      exact adds_below h (n := (line.level - 2).toNat) (by omega) (by omega)

variable {lib}

theorem gedcomPredicate_ne_nil (tag : Runes) : gedcomPredicate tag ≠ [] := by
  unfold gedcomPredicate
  split
  all_goals try exact List.ne_nil_of_length_pos (by decide)
  split
  all_goals exact List.append_ne_nil_of_left_ne_nil (List.ne_nil_of_length_pos (by decide)) _

theorem mem_gedcomTriples {tag : Runes} {fact : GedcomFact} (hfact : fact ∈ items facts tag)
    (h : triple ∈ factTriples lib tag fact) : triple ∈ gedcomTriples lib facts := by
  cases hget : facts.get tag with
  | none => simp [items, hget] at hfact
  | some list =>
    rw [items, hget, Option.getD_some] at hfact
    exact List.mem_flatMap.mpr ⟨(tag, list), OrdMap.mem_entries_iff.mpr hget,
      List.mem_flatMap.mpr ⟨fact, hfact, h⟩⟩

/-- What is held on one or two tags is written. -/
theorem Holds.written (lib : ImportLibrary File Value) (h : Holds facts path value)
    (hpos : path ≠ []) (hshort : path.length ≤ 2) (hvalue : value ≠ []) :
    ∃ triple ∈ gedcomTriples lib facts, triple.path = path ∧
      triple.object = gedcomObject lib path value := by
  match path with
  | [] => exact absurd rfl hpos
  | [tag] =>
    obtain ⟨fact, hfact, rfl⟩ := h
    refine ⟨⟨[tag], gedcomPredicate tag, gedcomObject lib [tag] fact.value⟩,
      mem_gedcomTriples hfact (List.mem_append_left _ ?_), rfl, rfl⟩
    rw [if_pos ⟨gedcomPredicate_ne_nil tag, hvalue⟩]
    exact List.mem_cons_self
  | [tag, sub] =>
    obtain ⟨fact, hfact, child, hchild, rfl, rfl⟩ := h
    refine ⟨⟨[tag, child.tag], gmeowTerm "gedcom" ++ compactPredicateName (tag ++ ' ' :: child.tag),
      literal child.value⟩, mem_gedcomTriples hfact
      (List.mem_append_right _ (List.mem_flatMap.mpr ⟨child, hchild, ?_⟩)), rfl, ?_⟩
    · rw [if_neg hvalue]
      exact List.mem_cons_self
    · rw [gedcomObject, if_neg (by simp)]
  | _ :: _ :: _ :: _ => simp at hshort

/-! ## Rendering -/

end Values

end Gmeow.Contacts
