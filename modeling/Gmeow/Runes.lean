import Gmeow.Text

/-!
# Strings as runes

The contact formats are read and written rune by rune, so their texts are lists of characters: a
Go string that is valid UTF-8. Here are the functions of the package `strings` on them, with what
the readers and writers need to know.

* `trim` — `strings.TrimSpace`; what is left starts and ends with a rune that is no space;
* `cutRune` — `strings.Cut` at a rune;
* `trimPrefix`, `trimSuffix`, `trimOf`, `fields` — the functions of these names, `trimOf` being
  `strings.Trim`;
* `decimal` — `%d`; `utf8Length` — the bytes of a text.
-/

namespace Gmeow

/-- What holds of the runes of a list is decided rune by rune, not over all characters there are. -/
instance (priority := 2000) decidableForallRunes (p : Char → Prop) [DecidablePred p]
    (s : List Char) : Decidable (∀ c ∈ s, p c) := List.decidableBAll p s

/-- A text. -/
abbrev Runes : Type := List Char

namespace Runes

/-! ## Spaces -/

/-- `strings.TrimSpace`. -/
def trim (s : Runes) : Runes := (s.dropWhile isSpace).rdropWhile isSpace

/-- A text without spaces at its ends. -/
def Trimmed (s : Runes) : Prop :=
  (∀ c, s.head? = some c → isSpace c = false) ∧ ∀ c, s.getLast? = some c → isSpace c = false

instance (s : Runes) : Decidable (Trimmed s) :=
  decidable_of_iff (s.head?.all (fun c => !isSpace c) ∧ s.getLast?.all fun c => !isSpace c) <| by
    simp [Trimmed, Option.all_eq_true]

theorem trimmed_trim (s : Runes) : Trimmed (trim s) := by
  constructor
  · intro c hc
    have hfront := List.rdropWhile_prefix isSpace (l := s.dropWhile isSpace)
    obtain ⟨rest, hrest⟩ := hfront
    cases htrim : trim s with
    | nil =>
      rw [htrim] at hc
      cases hc
    | cons d t =>
      rw [htrim, List.head?_cons] at hc
      cases hc
      rw [← trim, htrim, List.cons_append] at hrest
      have hget := List.dropWhile_get_zero_not isSpace s (by rw [← hrest]; simp)
      simp only [← hrest, List.get_eq_getElem, List.getElem_cons_zero] at hget
      exact Bool.eq_false_iff.mpr hget
  · intro c hc
    cases htrim : trim s with
    | nil =>
      rw [htrim] at hc
      cases hc
    | cons d t =>
      have hne : trim s ≠ [] := by rw [htrim]; exact List.cons_ne_nil _ _
      have hlast := List.rdropWhile_last_not isSpace (s.dropWhile isSpace) hne
      rw [List.getLast?_eq_some_getLast hne] at hc
      cases hc
      exact Bool.eq_false_iff.mpr hlast

theorem trim_of_trimmed {s : Runes} (h : Trimmed s) : trim s = s := by
  have hleft : s.dropWhile isSpace = s := by
    rw [List.dropWhile_eq_self_iff]
    intro hpos
    have := h.1 s[0] (by rw [List.head?_eq_getElem?, List.getElem?_eq_getElem hpos])
    rw [this]
    exact Bool.false_ne_true
  rw [trim, hleft, List.rdropWhile_eq_self_iff]
  intro hne
  have := h.2 (s.getLast hne) (List.getLast?_eq_some_getLast hne)
  rw [this]
  exact Bool.false_ne_true

/-- What is trimmed stands in the text. -/
theorem trim_within (s : Runes) : trim s <:+: s := by
  obtain ⟨behind, hbehind⟩ := List.rdropWhile_prefix isSpace (l := s.dropWhile isSpace)
  obtain ⟨before, hbefore⟩ := List.dropWhile_suffix isSpace (l := s)
  exact ⟨before, behind, by rw [List.append_assoc, trim, hbehind, hbefore]⟩

/-- A text that starts with a rune that is no space keeps its start. -/
theorem trim_cons {c : Char} (hc : isSpace c = false) (t : Runes) :
    ∃ t', trim (c :: t) = c :: t' ∧ t' <+: t := by
  have hdrop : (c :: t).dropWhile isSpace = c :: t :=
    List.dropWhile_cons_of_neg (by rw [hc]; exact Bool.false_ne_true)
  obtain ⟨rest, hrest⟩ := List.rdropWhile_prefix isSpace (l := c :: t)
  rw [trim, hdrop]
  cases htrim : (c :: t).rdropWhile isSpace with
  | nil =>
    have := List.rdropWhile_eq_nil_iff.mp htrim c List.mem_cons_self
    exact absurd this (by rw [hc]; exact Bool.false_ne_true)
  | cons d t' =>
    rw [htrim, List.cons_append, List.cons.injEq] at hrest
    exact ⟨t', by rw [hrest.1], rest, hrest.2⟩

/-! ## Cutting -/

/-- What stands before the first occurrence of a rune and behind it. -/
def cutRune (c : Char) : Runes → Option (Runes × Runes)
  | [] => none
  | d :: rest =>
    if d = c then some ([], rest)
    else (cutRune c rest).map fun (before, behind) => (d :: before, behind)

theorem cutRune_append {c : Char} {before : Runes} (h : c ∉ before) (behind : Runes) :
    cutRune c (before ++ c :: behind) = some (before, behind) := by
  induction before with
  | nil => exact if_pos rfl
  | cons d before ih =>
    have hd : d ≠ c := fun heq => h (heq ▸ List.mem_cons_self)
    rw [List.cons_append, cutRune, if_neg hd, ih fun hmem => h (List.mem_cons_of_mem _ hmem)]
    rfl

theorem cutRune_eq_some {c : Char} {t before behind : Runes}
    (h : cutRune c t = some (before, behind)) : t = before ++ c :: behind := by
  induction t generalizing before with
  | nil => cases h
  | cons d t ih =>
    rw [cutRune] at h
    split at h
    · rename_i heq
      cases h
      rw [heq]
      rfl
    · obtain ⟨⟨before', behind'⟩, hcut, heq⟩ := Option.map_eq_some_iff.mp h
      cases heq
      rw [ih hcut]
      rfl

/-- `strings.TrimPrefix`. -/
def trimPrefix (start s : Runes) : Runes := if start.isPrefixOf s then s.drop start.length else s

/-- `strings.TrimSuffix`. -/
def trimSuffix (ending s : Runes) : Runes :=
  if ending.isSuffixOf s then s.take (s.length - ending.length) else s

/-- `strings.Trim`. -/
def trimOf (cutset s : Runes) : Runes :=
  (s.dropWhile fun c => c ∈ cutset).rdropWhile fun c => c ∈ cutset

/-- `strings.Fields`: the words between spaces. `word` is the one under way, turned round. -/
def fieldsLoop : Runes → Runes → List Runes
  | [], word => if word = [] then [] else [word.reverse]
  | c :: rest, word =>
    if isSpace c then
      if word = [] then fieldsLoop rest [] else word.reverse :: fieldsLoop rest []
    else fieldsLoop rest (c :: word)

@[inherit_doc fieldsLoop] def fields (s : Runes) : List Runes := fieldsLoop s []

/-- The bytes of a text. -/
def utf8Length (s : Runes) : Nat := (s.map Char.utf8Size).sum

/-! ## Numbers -/

/-- `%d` of a number that is not negative. -/
def decimal (n : Nat) : Runes := Nat.toDigits 10 n

end Runes

end Gmeow
