import Gmeow.VCards

/-!
# Parts of names and addresses

A property such as `N` has several components, joined by a separator. `escapeVCardValue` escapes
separators within a component, but the import unescapes the value as a whole before it splits it.

* `emitVCardName`, `emitAddress` — the parts an import makes of a card;
* `PartProperty.card` — a card with one property, made of escaped components;
* `parts_kept_iff` — the parts are the components exactly if no component has a separator in it and
  there are as many of them as the property has places.

The nodes and predicates of the claims are left out: a part is its type and its text.
-/

namespace Gmeow.VCards

open Runes Contacts

/-- The library as it treats plain words. -/
structure WordLibrary : Type extends VCardLibrary where
  toUpper_word : ∀ word : Runes, (∀ c ∈ word, c.isUpper = true) → toUpper word = word
  equalFold_self : ∀ text : Runes, equalFold text text = true

/-! ## Emitting parts -/

/-- The replacer of `escapeVCardValue`. -/
def escapeRune (c : Char) : Runes :=
  if c = '\\' then ['\\', '\\']
  else if c = '\n' then ['\\', 'n']
  else if c = ';' then ['\\', ';']
  else if c = ',' then ['\\', ',']
  else [c]

/-- `escapeVCardValue`. -/
def escapeVCardValue (value : Runes) : Runes := value.flatMap escapeRune

/-- `nameInput`. -/
structure NameInput : Type where
  full : Runes := []
  given : Runes := []
  family : Runes := []
  middle : Runes := []
  honorificPrefix : Runes := []
  honorificSuffix : Runes := []
  nicknames : List Runes := []

/-- The types of name parts. -/
inductive NamePartType : Type
  | given | surname | middle | nickname | honorificPrefix | honorificSuffix
deriving DecidableEq

/-- `strings.ReplaceAll(field, ",", " ")`, trimmed. -/
def cleanField (field : Runes) : Runes := trim (field.map fun c => if c = ',' then ' ' else c)

/-- `parseStructuredName`. -/
def parseStructuredName (value : Runes) : NameInput :=
  let get := fun i : Nat => ((value.splitOn ';')[i]?.map cleanField).getD []
  { family := get 0, given := get 1, middle := get 2, honorificPrefix := get 3,
    honorificSuffix := get 4 }

/-- `composeFullName`. -/
def composeFullName (n : NameInput) : Runes :=
  [' '].intercalate (([n.honorificPrefix, n.given, n.middle, n.family, n.honorificSuffix].map
    trim).filter (· ≠ []))

/-- `emitNamePart`, and `addPart` of `emitAddress`. -/
def emitPart {Kind : Type} (kind : Kind) (value : Runes) : List (Kind × Runes) :=
  if trim value = [] then [] else [(kind, trim value)]

/-- The surface form of `emitName`. -/
def NameInput.surface (n : NameInput) : Runes :=
  if trim n.full = [] then composeFullName n else trim n.full

/-- `emitName`. -/
def emitName (n : NameInput) : List (NamePartType × Runes) :=
  if n.surface = [] ∧ n.given = [] ∧ n.family = [] ∧ n.nicknames = [] then []
  else emitPart .given n.given ++ (emitPart .surname n.family ++ (emitPart .middle n.middle ++
    (n.nicknames.flatMap (emitPart .nickname) ++ (emitPart .honorificPrefix n.honorificPrefix ++
      emitPart .honorificSuffix n.honorificSuffix))))

/-- `firstNonEmpty`. -/
def firstNonEmpty : List Runes → Runes
  | [] => []
  | value :: rest => if trim value = [] then firstNonEmpty rest else trim value

/-- `card.values[name]`. -/
def valuesOf (values : CardValues) (name : String) : List Runes := (values.get name.toList).getD []

/-- `emitVCardName`. -/
def emitVCardName (values : CardValues) : List (NamePartType × Runes) :=
  let structured := firstNonEmpty (valuesOf values "N")
  let n : NameInput := if structured = [] then { } else parseStructuredName structured
  let full := firstNonEmpty (valuesOf values "FN")
  emitName { n with
    full := if full = [] then n.full else full
    nicknames := (valuesOf values "NICKNAME").flatMap fun nick =>
      ((nick.splitOn ',').map trim).filter (· ≠ []) }

/-- The parts of an address. -/
inductive AddressPart : Type
  | postOfficeBox | extendedAddress | streetAddress | addressLocality | addressRegion | postalCode
  | countryCode
deriving DecidableEq

/-- The parts of an address in their order. -/
def addressParts : List AddressPart :=
  [.postOfficeBox, .extendedAddress, .streetAddress, .addressLocality, .addressRegion, .postalCode,
    .countryCode]

/-- `emitAddress`. -/
def emitAddress (value : Runes) : List (AddressPart × Runes) :=
  if 7 ≤ (value.splitOn ';').length then
    (addressParts.zip (value.splitOn ';')).flatMap fun part => emitPart part.1 part.2
  else emitPart .streetAddress value

/-- The lines of `vcardContactBody` that `VCardMapping` takes for addresses; `emitCanonical`. -/
def emitAddresses (lines : List VCardLine) : List (AddressPart × Runes) :=
  lines.flatMap fun line =>
    if line.name = "ADR".toList ∨ line.name = "ADDRESS".toList then
      if trim line.value = [] then [] else emitAddress (trim line.value)
    else []

/-! ## Components -/

/-- A component: it is not empty and has no space at its ends. -/
structure Component : Type where
  text : Runes
  ne_nil : text ≠ []
  trimmed : Trimmed text

/-- The texts of the name parts of a type. -/
def textsOf (parts : List (NamePartType × Runes)) (kind : NamePartType) : List Runes :=
  parts.filterMap fun part => if part.1 = kind then some part.2 else none

/-- The properties with components. -/
inductive PartProperty : Type
  | n | nickname | adr

namespace PartProperty

/-- The name of the property. -/
def name : PartProperty → Runes
  | n => "N".toList
  | nickname => "NICKNAME".toList
  | adr => "ADR".toList

/-- Its separator. -/
def separator : PartProperty → Char
  | n => ';'
  | nickname => ','
  | adr => ';'

/-- The texts of the parts an import makes of a card, in the order of the components. -/
def texts : PartProperty → VCard → List Runes
  | n, card => [.surname, .given, .middle, .honorificPrefix, .honorificSuffix].flatMap
      (textsOf (emitVCardName card.values))
  | nickname, card => textsOf (emitVCardName card.values) .nickname
  | adr, card => (emitAddresses card.lines).map Prod.snd

/-- The components, escaped and joined. -/
def body (property : PartProperty) (components : List Component) : Runes :=
  [property.separator].intercalate (components.map fun c => escapeVCardValue c.text)

/-- The components, joined as they are. -/
def joined (property : PartProperty) (components : List Component) : Runes :=
  [property.separator].intercalate (components.map Component.text)

/-- A card with the property. -/
def card (property : PartProperty) (components : List Component) : Runes :=
  "BEGIN:VCARD".toList ++ '\n' :: ((property.name ++ ':' :: property.body components) ++
    '\n' :: ("END:VCARD".toList ++ '\n' :: []))

/-- **The components survive the import.** -/
def Kept (lib : VCardLibrary) (property : PartProperty) (components : List Component) : Prop :=
  ((parseVCards lib (property.card components)).1.flatMap property.texts) =
    components.map Component.text

/-- The components have no separator in them and there is a place for each. -/
def Fits : PartProperty → List Component → Prop
  | n, components => components.length ≤ 5 ∧ ∀ c ∈ components, ';' ∉ c.text ∧ ',' ∉ c.text
  | nickname, components => ∀ c ∈ components, ',' ∉ c.text
  | adr, components => components = [] ∨
      (components.length = 7 ∧ ∀ c ∈ components, ';' ∉ c.text) ∨
      ∃ c, components = [c] ∧ c.text.count ';' ≤ 5

end PartProperty

/-! ## Escapes -/

theorem unescape_cons {c : Char} (hc : c ≠ '\\') (rest : Runes) :
    unescape (c :: rest) = c :: unescape rest := by
  cases rest with
  | nil => rfl
  | cons d rest => simp [unescape, hc]

theorem unescape_escapeRune (c : Char) (rest : Runes) :
    unescape (escapeRune c ++ rest) = c :: unescape rest := by
  rw [escapeRune]
  split
  · subst c
    simp [unescape]
  · split
    · subst c
      simp [unescape]
    · split
      · subst c
        simp [unescape]
      · split
        · subst c
          simp [unescape]
        · exact unescape_cons ‹_› rest

/-- What `escapeVCardValue` writes is read back, whatever follows. -/
theorem unescape_escapeVCardValue (value rest : Runes) :
    unescape (escapeVCardValue value ++ rest) = value ++ unescape rest := by
  induction value with
  | nil => rfl
  | cons c value ih =>
    rw [escapeVCardValue, List.flatMap_cons, List.append_assoc, unescape_escapeRune]
    exact congrArg (c :: ·) ih

/-- **The value of the property is the components joined, with nothing escaped.** -/
theorem unescape_body (property : PartProperty) (components : List Component) :
    unescape (property.body components) = property.joined components := by
  have hsep : property.separator ≠ '\\' := by cases property <;> decide
  rw [PartProperty.body, PartProperty.joined]
  induction components with
  | nil => rfl
  | cons c rest ih =>
    cases rest with
    | nil =>
      have hone := unescape_escapeVCardValue c.text []
      rw [List.append_nil] at hone
      simpa [unescape] using hone
    | cons d rest =>
      simp only [List.map_cons, List.intercalate_cons_cons, List.append_assoc] at ih ⊢
      rw [unescape_escapeVCardValue, List.singleton_append, unescape_cons hsep, ih]
      rfl

theorem newline_not_mem_escapeVCardValue (value : Runes) : '\n' ∉ escapeVCardValue value := by
  intro h
  obtain ⟨c, -, hc⟩ := List.mem_flatMap.mp h
  rw [escapeRune] at hc
  split_ifs at hc with h1 h2 h3 h4
  · simp at hc
  · simp at hc
  · simp at hc
  · simp at hc
  · exact h2 (List.mem_singleton.mp hc).symm

theorem newline_not_mem_body (property : PartProperty) (components : List Component) :
    '\n' ∉ property.body components := by
  have hsep : '\n' ≠ property.separator := by cases property <;> decide
  rw [PartProperty.body]
  induction components with
  | nil => exact List.not_mem_nil
  | cons c rest ih =>
    cases rest with
    | nil => simpa using newline_not_mem_escapeVCardValue c.text
    | cons d rest =>
      simp only [List.map_cons, List.intercalate_cons_cons, List.mem_append, not_or,
        List.mem_singleton] at ih ⊢
      exact ⟨⟨newline_not_mem_escapeVCardValue c.text, hsep⟩, ih⟩

variable {value text : Runes} {parts : List Runes} {n : NameInput}

/-- The end of an escaped text is the end of the text, or the `n` of a line break. -/
theorem getLast_escapeVCardValue (h : Trimmed value) :
    (escapeVCardValue value).getLast? ≠ some '\r' := by
  rcases List.eq_nil_or_concat value with rfl | ⟨front, c, rfl⟩
  · nofun
  · have hc : c ≠ '\r' := by
      rintro rfl
      have hspace := h.2 '\r' (by simp)
      exact absurd hspace (by decide)
    rw [escapeVCardValue, List.concat_eq_append, List.flatMap_append, List.getLast?_append]
    simp only [List.flatMap_cons, List.flatMap_nil, List.append_nil, escapeRune]
    split_ifs <;> simp [hc]

theorem getLast_body (property : PartProperty) (components : List Component) :
    (property.body components).getLast? ≠ some '\r' := by
  have hsep : property.separator ≠ '\r' := by cases property <;> decide
  rw [PartProperty.body]
  induction components with
  | nil => nofun
  | cons c rest ih =>
    cases rest with
    | nil => simpa using getLast_escapeVCardValue c.trimmed
    | cons d rest =>
      simp only [List.map_cons, List.intercalate_cons_cons] at ih ⊢
      rw [List.getLast?_append]
      cases hlast : ([property.separator].intercalate (escapeVCardValue d.text ::
          rest.map fun c => escapeVCardValue c.text)).getLast? with
      | none => simpa using hsep
      | some last => simpa [hlast] using ih

theorem trimmed_joined (property : PartProperty) (components : List Component) :
    Trimmed (property.joined components) := by
  refine trimmed_intercalate _ fun text htext => ?_
  obtain ⟨c, -, rfl⟩ := List.mem_map.mp htext
  exact ⟨c.ne_nil, c.trimmed⟩

theorem joined_eq_nil_iff (property : PartProperty) (components : List Component) :
    property.joined components = [] ↔ components = [] := by
  constructor
  · intro h
    cases components with
    | nil => rfl
    | cons c rest => exact absurd h (intercalate_ne_nil _ c.ne_nil _)
  · rintro rfl
    rfl

/-! ## Reading the card -/

section Reading

variable (lib : WordLibrary)

/-- A word as the name of a property. -/
theorem parseVCardLineHead_word (word : Runes) (hupper : ∀ c ∈ word, c.isUpper = true)
    (hplain : word.splitOn ';' = [word] ∧ cutRune '.' word = none ∧ trim word = word) :
    parseVCardLineHead lib.toVCardLibrary word = .ok (word, ∅) := by
  obtain ⟨hsplit, hcut, htrim⟩ := hplain
  simp only [parseVCardLineHead, hsplit, parseVCardParams, vcardPropertyName, hcut, htrim,
    lib.toUpper_word word hupper]

theorem decodeVCardValue_empty (value : Runes) :
    decodeVCardValue lib.toVCardLibrary value ∅ = trim (unescape value) := by
  have hnone : hasVCardParamValue lib.toVCardLibrary ∅ "ENCODING" "QUOTED-PRINTABLE" = false := by
    rw [hasVCardParamValue, OrdMap.get_empty]
    rfl
  rw [decodeVCardValue, hnone]
  rfl

theorem vcardEvent_begin : vcardEvent lib.toVCardLibrary "BEGIN:VCARD".toList = .opening := by
  have hcut : cutRune ':' "BEGIN:VCARD".toList = some ("BEGIN".toList, "VCARD".toList) := by decide
  have hhead := parseVCardLineHead_word lib "BEGIN".toList (by decide) (by decide)
  have hvalue : trim (unescape "VCARD".toList) = "VCARD".toList := by decide
  simp only [vcardEvent, hcut, hhead, decodeVCardValue_empty, hvalue, lib.equalFold_self]
  rfl

theorem vcardEvent_end : vcardEvent lib.toVCardLibrary "END:VCARD".toList = .ending := by
  have hcut : cutRune ':' "END:VCARD".toList = some ("END".toList, "VCARD".toList) := by decide
  have hhead := parseVCardLineHead_word lib "END".toList (by decide) (by decide)
  have hvalue : trim (unescape "VCARD".toList) = "VCARD".toList := by decide
  have hname : "END".toList ≠ "BEGIN".toList := by decide
  simp only [vcardEvent, hcut, hhead, decodeVCardValue_empty, hvalue, lib.equalFold_self, hname]
  rfl

variable (property : PartProperty) (components : List Component)

theorem PartProperty.name_upper : ∀ c ∈ property.name, c.isUpper = true := by
  cases property <;> decide

theorem PartProperty.name_plain : property.name.splitOn ';' = [property.name] ∧
    cutRune '.' property.name = none ∧ trim property.name = property.name := by
  cases property <;> decide

theorem cutRune_line : cutRune ':' (property.name ++ ':' :: property.body components) =
    some (property.name, property.body components) := by
  have hname : ':' ∉ property.name := by cases property <;> decide
  exact cutRune_append hname _

/-- The line of the property is a value, unless it is empty. -/
theorem vcardEvent_line : vcardEvent lib.toVCardLibrary
    (property.name ++ ':' :: property.body components) =
      if property.joined components = [] then .nothing
      else .property ⟨property.name, property.joined components, ∅⟩ := by
  have hhead := parseVCardLineHead_word lib _ property.name_upper property.name_plain
  have hvalue : trim (unescape (property.body components)) = property.joined components := by
    rw [unescape_body, trim_of_trimmed (trimmed_joined property components)]
  have hbegin : property.name ≠ "BEGIN".toList := by cases property <;> decide
  have hend : property.name ≠ "END".toList := by cases property <;> decide
  have hsupported : supportedVCardProperty lib.toVCardLibrary property.name = true := by
    have hlist : supportedVCardProperties.contains (String.ofList property.name) = true := by
      cases property <;> decide +kernel
    rw [supportedVCardProperty, hlist]
    rfl
  simp only [vcardEvent, cutRune_line, hhead, decodeVCardValue_empty, hvalue, hbegin, hend,
    hsupported, if_false, if_true]

theorem joinBreaks_line {line : Runes} (hbreak : '\n' ∉ line) (hlast : line.getLast? ≠ some '\r')
    (more : Runes) : joinBreaks (line ++ '\n' :: more) = line ++ '\n' :: joinBreaks more := by
  induction line with
  | nil => rfl
  | cons c line ih =>
    have hmore : '\n' ∉ line := fun h => hbreak (List.mem_cons_of_mem c h)
    cases line with
    | nil =>
      have hc : c ≠ '\r' := fun hc => hlast (by rw [hc]; rfl)
      simp [joinBreaks, hc]
    | cons d line =>
      have hd : d ≠ '\n' := fun hd => hmore (hd ▸ List.mem_cons_self)
      rw [List.cons_append, joinBreaks, ih hmore (by simpa using hlast)]
      simp [hd]

theorem rawLines_line {line : Runes} (hbreak : '\n' ∉ line) (hlast : line.getLast? ≠ some '\r')
    (more : Runes) : rawLines (line ++ '\n' :: more) = line :: rawLines more := by
  rw [rawLines, joinBreaks_line hbreak hlast, List.splitOn_append_cons_self_of_not_mem hbreak]
  rfl

theorem getLast_line : (property.name ++ ':' :: property.body components).getLast? ≠ some '\r' := by
  rw [List.getLast?_append, List.getLast?_cons]
  cases hbody : (property.body components).getLast? with
  | none => simp
  | some last => simpa [hbody] using getLast_body property components

/-- Nothing in the escaped components breaks a line. -/
theorem rawLines_card : rawLines (property.card components) =
    ["BEGIN:VCARD".toList, property.name ++ ':' :: property.body components,
      "END:VCARD".toList, []] := by
  have hline : '\n' ∉ property.name ++ ':' :: property.body components := by
    have hname : '\n' ∉ property.name := by cases property <;> decide
    simp [hname, newline_not_mem_body property components]
  have hbegin : ∀ more, rawLines ("BEGIN:VCARD".toList ++ '\n' :: more) =
      "BEGIN:VCARD".toList :: rawLines more := rawLines_line (by decide) (by decide)
  have hend : ∀ more, rawLines ("END:VCARD".toList ++ '\n' :: more) =
      "END:VCARD".toList :: rawLines more := rawLines_line (by decide) (by decide)
  calc rawLines (property.card components)
      = "BEGIN:VCARD".toList :: rawLines ((property.name ++ ':' :: property.body components) ++
          '\n' :: ("END:VCARD".toList ++ '\n' :: [])) := hbegin _
    _ = "BEGIN:VCARD".toList :: (property.name ++ ':' :: property.body components) ::
          rawLines ("END:VCARD".toList ++ '\n' :: []) :=
        congrArg _ (rawLines_line hline (getLast_line property components) _)
    _ = _ := congrArg (fun lines => _ :: _ :: lines) (hend [])

/-- The line is neither folded nor a soft break. -/
theorem unfoldStep_line (before : List Runes) :
    unfoldStep lib.toVCardLibrary (before, false)
      (property.name ++ ':' :: property.body components) =
      ((property.name ++ ':' :: property.body components) :: before, false) := by
  obtain ⟨first, hfirst, hspace, hhead⟩ : ∃ first, property.name.head? = some first ∧
      isSpace first = false ∧ first ≠ ' ' ∧ first ≠ '\t' := by
    cases property
    · exact ⟨'N', rfl, by decide⟩
    · exact ⟨'N', rfl, by decide⟩
    · exact ⟨'A', rfl, by decide⟩
  obtain ⟨rest, hrest⟩ : ∃ rest, property.name = first :: rest :=
    List.head?_eq_some_iff.mp hfirst
  have hsoft : isQuotedPrintableVCardLine lib.toVCardLibrary
      (property.name ++ ':' :: property.body components) = false := by
    rw [isQuotedPrintableVCardLine, cutRune_line]
    simp only [lib.toUpper_word _ property.name_upper]
    cases property <;> decide
  refine unfoldStep_fresh _ ?_ ?_ ?_ (by rw [hsoft, Bool.false_and]) before
  · simp [folded, hrest, hhead]
  · rw [hrest, List.cons_append]
    obtain ⟨more, hmore, -⟩ := trim_cons hspace (rest ++ ':' :: property.body components)
    rw [hmore]
    exact List.cons_ne_nil _ _
  · rw [List.rdropWhile_eq_self_iff]
    intro hne hlast
    refine getLast_line property components ?_
    rw [List.getLast?_eq_some_getLast hne, beq_iff_eq.mp hlast]

/-- **The import of the card: one line, the components joined.** -/
theorem vcardRecords_card : vcardRecords lib.toVCardLibrary (property.card components) =
    [.ok (if property.joined components = [] then []
      else [⟨property.name, property.joined components, ∅⟩])] := by
  have hlines : unfoldVCardLines lib.toVCardLibrary (property.card components) =
      ["BEGIN:VCARD".toList, property.name ++ ':' :: property.body components,
        "END:VCARD".toList] := by
    have hlast : ("END:VCARD".toList.getLast? == some '=') = false := by decide
    have hend : ∀ before, unfoldStep lib.toVCardLibrary (before, false) "END:VCARD".toList =
        ("END:VCARD".toList :: before, false) :=
      unfoldStep_fresh _ (by decide) (by decide) (by decide) (by rw [hlast, Bool.and_false])
    rw [unfoldVCardLines_eq, rawLines_card]
    simp only [List.foldl_cons, List.foldl_nil, unfoldStep_begin, unfoldStep_line, hend,
      unfoldStep_blank, List.reverse_cons, List.reverse_nil, List.nil_append, List.cons_append]
  rw [vcardRecords, textEvents, hlines]
  simp only [List.map_cons, List.map_nil, vcardEvent_begin, vcardEvent_end, vcardEvent_line]
  split
  · rfl
  · rfl

end Reading

/-! ## Parts -/

/-- The pieces of a text that are not blank once they are cleaned. -/
def pieces (clean : Runes → Runes) (parts : List Runes) : List Runes :=
  (parts.map clean).filter (· ≠ [])

theorem map_snd_emitPart {Kind : Type} (kind : Kind) (value : Runes) :
    (emitPart kind value).map Prod.snd = pieces trim [value] := by
  by_cases h : trim value = []
  · simp [emitPart, pieces, h]
  · simp [emitPart, pieces, h]

theorem pieces_append (clean : Runes → Runes) (parts more : List Runes) :
    pieces clean (parts ++ more) = pieces clean parts ++ pieces clean more := by
  rw [pieces, List.map_append, List.filter_append]
  rfl

variable {clean : Runes → Runes} {components : List Component} {sep : Char}

/-- Components without the separator are the pieces of their joined text. -/
theorem pieces_of_free (property : PartProperty) (hne : components ≠ [])
    (hfree : ∀ c ∈ components, property.separator ∉ c.text)
    (hclean : ∀ c ∈ components, clean c.text = c.text) :
    (property.joined components).splitOn property.separator = components.map Component.text ∧
      pieces clean (components.map Component.text) = components.map Component.text := by
  constructor
  · refine List.splitOn_intercalate _ ?_ (by simpa using hne)
    intro text htext
    obtain ⟨c, hc, rfl⟩ := List.mem_map.mp htext
    exact hfree c hc
  · have hmap : (components.map Component.text).map clean = components.map Component.text := by
      rw [List.map_map]
      exact List.map_congr_left hclean
    rw [pieces, hmap, List.filter_eq_self]
    intro text htext
    obtain ⟨c, -, rfl⟩ := List.mem_map.mp htext
    simpa using c.ne_nil

/-- Cleaned pieces do not have what no cleaned piece has. -/
theorem free_of_pieces (h : pieces clean parts = components.map Component.text)
    (hclean : ∀ part ∈ parts, sep ∉ clean part) : ∀ c ∈ components, sep ∉ c.text := by
  intro c hc
  have hmem : c.text ∈ pieces clean parts := by
    rw [h]
    exact List.mem_map_of_mem hc
  obtain ⟨part, hpart, hpart'⟩ := List.mem_map.mp (List.mem_of_mem_filter hmem)
  rw [← hpart']
  exact hclean part hpart

theorem length_le_of_pieces {places : Nat}
    (h : pieces clean (parts.take places) = components.map Component.text) :
    components.length ≤ places := by
  calc components.length = (pieces clean (parts.take places)).length := by rw [h, List.length_map]
    _ ≤ ((parts.take places).map clean).length := List.length_filter_le _ _
    _ = (parts.take places).length := List.length_map _
    _ ≤ places := List.length_take_le _ _

theorem textsOf_append (parts more : List (NamePartType × Runes)) (kind : NamePartType) :
    textsOf (parts ++ more) kind = textsOf parts kind ++ textsOf more kind :=
  List.filterMap_append

theorem textsOf_emitPart (kind other : NamePartType) (value : Runes) :
    textsOf (emitPart kind value) other = if kind = other then pieces trim [value] else [] := by
  by_cases htrim : trim value = [] <;> by_cases hkind : kind = other <;>
    simp [textsOf, emitPart, pieces, htrim, hkind]

theorem textsOf_emitParts (kind other : NamePartType) (values : List Runes) :
    textsOf (values.flatMap (emitPart kind)) other =
      if kind = other then pieces trim values else [] := by
  induction values with
  | nil => split <;> rfl
  | cons value values ih =>
    rw [List.flatMap_cons, textsOf_append, textsOf_emitPart, ih]
    split
    · exact (pieces_append trim [value] values).symm
    · rfl

/-- A name that `emitName` drops has no parts. -/
theorem blank_of_composeFullName (h : composeFullName n = []) :
    ∀ field ∈ [n.honorificPrefix, n.given, n.middle, n.family, n.honorificSuffix],
      trim field = [] := by
  intro field hfield
  by_contra hne
  have hmem : trim field ∈ ([n.honorificPrefix, n.given, n.middle, n.family,
      n.honorificSuffix].map trim).filter (· ≠ []) := by
    rw [List.mem_filter]
    exact ⟨List.mem_map_of_mem hfield, by simpa using hne⟩
  obtain ⟨before, after, hsplit⟩ := List.append_of_mem hmem
  rw [composeFullName, hsplit] at h
  cases before with
  | nil =>
    cases after with
    | nil => exact hne (by simpa using h)
    | cons next after => simp [List.intercalate_cons_cons] at h
  | cons first before =>
    rw [List.cons_append] at h
    cases before <;> simp [List.intercalate_cons_cons] at h

/-- The structured parts that `emitName` emits. -/
theorem textsOf_emitName (n : NameInput) :
    [.surname, .given, .middle, .honorificPrefix, .honorificSuffix].flatMap
      (textsOf (emitName n)) =
      pieces trim [n.family, n.given, n.middle, n.honorificPrefix, n.honorificSuffix] := by
  rw [emitName]
  split
  · rename_i h
    have hcompose : composeFullName n = [] := by
      have hsurface := h.1
      rw [NameInput.surface] at hsurface
      split at hsurface
      · exact hsurface
      · exact absurd hsurface ‹_›
    have hblank := blank_of_composeFullName hcompose
    simp only [List.mem_cons, List.not_mem_nil, or_false, forall_eq_or_imp, forall_eq] at hblank
    simp [textsOf, pieces, hblank]
  · simp only [textsOf_append, textsOf_emitPart, textsOf_emitParts, List.flatMap_cons,
      List.flatMap_nil, reduceCtorEq, if_false, if_true, List.append_nil, List.nil_append]
    simp only [← pieces_append, List.cons_append, List.nil_append]

theorem textsOf_emitName_nickname : textsOf (emitName n) .nickname = pieces trim n.nicknames := by
  rw [emitName]
  split
  · rename_i h
    rw [h.2.2.2]
    rfl
  · simp only [textsOf_append, textsOf_emitPart, textsOf_emitParts, reduceCtorEq, if_false,
      if_true, List.append_nil, List.nil_append]

theorem pieces_structured (fields : List Runes) :
    pieces trim ([0, 1, 2, 3, 4].map fun i : Nat => (fields[i]?.map cleanField).getD []) =
      pieces cleanField (fields.take 5) := by
  have htrim : ∀ field, trim (cleanField field) = cleanField field :=
    fun field => trim_of_trimmed (trimmed_trim _)
  have hnil : trim [] = [] := rfl
  rcases fields with _ | ⟨a, _ | ⟨b, _ | ⟨c, _ | ⟨d, _ | ⟨e, fields⟩⟩⟩⟩⟩ <;>
    simp [pieces, htrim, hnil, List.filter_cons]

theorem pieces_pieces (parts : List Runes) : pieces trim (pieces trim parts) =
    pieces trim parts := by
  have hmap : (pieces trim parts).map trim = pieces trim parts := by
    refine (List.map_congr_left fun text htext => ?_).trans (List.map_id _)
    obtain ⟨part, -, rfl⟩ := List.mem_map.mp (List.mem_of_mem_filter htext)
    exact trim_of_trimmed (trimmed_trim part)
  rw [pieces, hmap, List.filter_eq_self]
  exact fun text htext => (List.mem_filter.mp htext).2

theorem map_snd_emitAddress (h : 7 ≤ (value.splitOn ';').length) :
    (emitAddress value).map Prod.snd = pieces trim ((value.splitOn ';').take 7) := by
  have hzip : ∀ (kinds : List AddressPart) (parts : List Runes),
      ((kinds.zip parts).flatMap fun part => emitPart part.1 part.2).map Prod.snd =
        pieces trim (parts.take kinds.length) := by
    intro kinds
    induction kinds with
    | nil => exact fun parts => rfl
    | cons kind kinds ih =>
      intro parts
      cases parts with
      | nil => rfl
      | cons part parts =>
        rw [List.zip_cons_cons, List.flatMap_cons, List.map_append, map_snd_emitPart, ih]
        exact (pieces_append trim [part] _).symm
  rw [emitAddress, if_pos h]
  exact hzip addressParts _

theorem trim_free (h : sep ∉ text) : sep ∉ trim text :=
  fun hmem => h ((trim_within text).subset hmem)

theorem cleanField_free (hsep : sep ≠ ' ') (h : sep ∉ text) : sep ∉ cleanField text := by
  refine trim_free fun hmem => ?_
  obtain ⟨c, hc, hcs⟩ := List.mem_map.mp hmem
  split at hcs
  · exact hsep hcs.symm
  · exact h (hcs ▸ hc)

theorem comma_not_mem_cleanField (text : Runes) : ',' ∉ cleanField text := by
  refine trim_free fun hmem => ?_
  obtain ⟨c, -, hc⟩ := List.mem_map.mp hmem
  split at hc
  · exact absurd hc (by decide)
  · exact absurd hc ‹_›

theorem cleanField_of_free {c : Component} (h : ',' ∉ c.text) : cleanField c.text = c.text := by
  have hmap : (c.text.map fun x => if x = ',' then ' ' else x) = c.text := by
    refine (List.map_congr_left fun x hx => ?_).trans (List.map_id _)
    exact if_neg fun hcomma : x = ',' => h (hcomma ▸ hx)
  rw [cleanField, hmap, trim_of_trimmed c.trimmed]

theorem length_splitOn (sep : Char) (text : Runes) :
    (text.splitOn sep).length = text.count sep + 1 := by
  induction text with
  | nil => rfl
  | cons c text ih =>
    rw [List.splitOn_cons_eq_if_modifyHead]
    by_cases hc : c = sep
    · simp [hc, ih]
    · simp [hc, ih]

/-! ## What is kept -/

section Kept

variable (lib : WordLibrary) {components : List Component}

/-- The texts of the parts of the card. -/
theorem kept_iff_texts (property : PartProperty) (hne : components ≠ []) :
    property.Kept lib.toVCardLibrary components ↔
      property.texts (vcardContact lib.toVCardLibrary
        [⟨property.name, property.joined components, ∅⟩]) = components.map Component.text := by
  have hjoined : property.joined components ≠ [] :=
    fun h => hne ((joined_eq_nil_iff property components).mp h)
  rw [PartProperty.Kept, parseVCards, vcardRecords_card, if_neg hjoined]
  simp only [cardsOf, List.filterMap_cons, List.filterMap_nil, Except.toOption, Option.map_some,
    List.flatMap_cons, List.flatMap_nil, List.append_nil]

theorem valuesOf_single (name value : Runes) (other : String) :
    valuesOf (vcardValues [⟨name, value, ∅⟩]) other =
      if other.toList = name then [value] else [] := by
  simp only [valuesOf, vcardValues, List.foldl_cons, List.foldl_nil, OrdMap.get_empty,
    Option.getD_none, List.nil_append]
  split
  · rename_i h
    rw [h, OrdMap.get_set_self]
    rfl
  · rename_i h
    rw [OrdMap.get_set_ne _ _ h, OrdMap.get_empty]
    rfl

theorem firstNonEmpty_joined (property : PartProperty) (hne : components ≠ []) :
    firstNonEmpty [property.joined components] = property.joined components := by
  have hjoined : property.joined components ≠ [] :=
    fun h => hne ((joined_eq_nil_iff property components).mp h)
  rw [firstNonEmpty, trim_of_trimmed (trimmed_joined property components), if_neg hjoined]

/-- The import splits at semicolons, also at those that were escaped, and takes five parts. -/
theorem kept_n_iff (hne : components ≠ []) : PartProperty.n.Kept lib.toVCardLibrary components ↔
    pieces cleanField (((PartProperty.n.joined components).splitOn ';').take 5) =
      components.map Component.text := by
  have hjoined : PartProperty.n.joined components ≠ [] :=
    fun h => hne ((joined_eq_nil_iff _ components).mp h)
  have hn : firstNonEmpty (valuesOf (vcardValues
      [⟨PartProperty.n.name, PartProperty.n.joined components, ∅⟩]) "N") =
        PartProperty.n.joined components := by
    rw [valuesOf_single, if_pos (show "N".toList = PartProperty.n.name from rfl),
      firstNonEmpty_joined _ hne]
  rw [kept_iff_texts lib _ hne, ← pieces_structured, PartProperty.texts, vcardContact,
    emitVCardName, textsOf_emitName]
  simp only [hn, if_neg hjoined]
  rfl

/-- Nicknames are split at commas, and all of them are taken. -/
theorem kept_nickname_iff (hne : components ≠ []) :
    PartProperty.nickname.Kept lib.toVCardLibrary components ↔
      pieces trim ((PartProperty.nickname.joined components).splitOn ',') =
        components.map Component.text := by
  have hvalues : valuesOf (vcardValues
      [⟨PartProperty.nickname.name, PartProperty.nickname.joined components, ∅⟩]) "NICKNAME" =
      [PartProperty.nickname.joined components] :=
    (valuesOf_single _ _ _).trans (if_pos rfl)
  rw [kept_iff_texts lib _ hne, PartProperty.texts, vcardContact, emitVCardName,
    textsOf_emitName_nickname]
  simp only [hvalues, List.flatMap_cons, List.flatMap_nil, List.append_nil]
  rw [← pieces, pieces_pieces]

theorem kept_adr_iff (hne : components ≠ []) :
    PartProperty.adr.Kept lib.toVCardLibrary components ↔
      (emitAddress (PartProperty.adr.joined components)).map Prod.snd =
        components.map Component.text := by
  have hjoined : PartProperty.adr.joined components ≠ [] :=
    fun h => hne ((joined_eq_nil_iff _ components).mp h)
  have hlines : emitAddresses
      [⟨PartProperty.adr.name, PartProperty.adr.joined components, ∅⟩] =
      emitAddress (PartProperty.adr.joined components) := by
    rw [emitAddresses, List.flatMap_cons, List.flatMap_nil, List.append_nil, if_pos (.inl rfl),
      trim_of_trimmed (trimmed_joined _ components), if_neg hjoined]
  rw [kept_iff_texts lib _ hne, PartProperty.texts, vcardContact, hlines]

/-- A name is kept exactly if it has at most five components, without semicolons and commas. -/
theorem fits_n (hne : components ≠ []) :
    PartProperty.n.Kept lib.toVCardLibrary components ↔ PartProperty.n.Fits components := by
  rw [kept_n_iff lib hne]
  constructor
  · intro h
    have hparts : ∀ part ∈ ((PartProperty.n.joined components).splitOn ';').take 5, ';' ∉ part :=
      fun part hpart => not_mem_of_mem_splitOn (List.mem_of_mem_take hpart)
    have hsemicolon := free_of_pieces h fun part hpart =>
      cleanField_free (by decide) (hparts part hpart)
    have hcomma := free_of_pieces h fun part _ => comma_not_mem_cleanField part
    exact ⟨length_le_of_pieces h, fun c hc => ⟨hsemicolon c hc, hcomma c hc⟩⟩
  · rintro ⟨hlength, hfree⟩
    have hsemicolon : ∀ c ∈ components, PartProperty.n.separator ∉ c.text :=
      fun c hc => (hfree c hc).1
    obtain ⟨hsplit, hpieces⟩ := pieces_of_free .n hne hsemicolon fun c hc =>
      cleanField_of_free (hfree c hc).2
    have htake : ((PartProperty.n.joined components).splitOn ';').take 5 =
        components.map Component.text := by
      rw [show ';' = PartProperty.n.separator from rfl, hsplit, List.take_of_length_le]
      rwa [List.length_map]
    rw [htake, hpieces]

theorem fits_nickname (hne : components ≠ []) :
    PartProperty.nickname.Kept lib.toVCardLibrary components ↔
      PartProperty.nickname.Fits components := by
  rw [kept_nickname_iff lib hne]
  constructor
  · intro h
    exact free_of_pieces h fun part hpart => trim_free (not_mem_of_mem_splitOn hpart)
  · intro hfree
    obtain ⟨hsplit, hpieces⟩ := pieces_of_free .nickname hne hfree fun c _ =>
      trim_of_trimmed c.trimmed
    rw [show ',' = PartProperty.nickname.separator from rfl, hsplit, hpieces]

/-- The pieces of components without a separator are as many. -/
theorem length_splitOn_joined (hne : components ≠ []) (hfree : ∀ c ∈ components, ';' ∉ c.text) :
    ((PartProperty.adr.joined components).splitOn ';').length = components.length := by
  have hsplit := (pieces_of_free .adr hne hfree fun c _ =>
    trim_of_trimmed c.trimmed).1
  rw [show ';' = PartProperty.adr.separator from rfl, hsplit, List.length_map]

/-- An address is kept exactly if it has all seven components and no semicolon in them, or is one
text with five semicolons at most: fewer parts than seven are not taken apart. -/
theorem fits_adr (hne : components ≠ []) :
    PartProperty.adr.Kept lib.toVCardLibrary components ↔ PartProperty.adr.Fits components := by
  rw [kept_adr_iff lib hne]
  have hcount : ∀ {c : Component}, components = [c] →
      ((PartProperty.adr.joined components).splitOn ';').length = c.text.count ';' + 1 := by
    rintro c rfl
    rw [length_splitOn]
    simp [PartProperty.joined]
  by_cases h : 7 ≤ ((PartProperty.adr.joined components).splitOn ';').length
  · rw [map_snd_emitAddress h]
    constructor
    · intro htexts
      have hfree := free_of_pieces htexts fun part hpart =>
        trim_free (not_mem_of_mem_splitOn (List.mem_of_mem_take hpart))
      refine .inr (.inl ⟨Nat.le_antisymm (length_le_of_pieces htexts) ?_, hfree⟩)
      rwa [← length_splitOn_joined hne hfree]
    · rintro (hnil | ⟨hlength, hfree⟩ | ⟨c, hc, hle⟩)
      · exact absurd hnil hne
      · obtain ⟨hsplit, hpieces⟩ := pieces_of_free .adr hne hfree fun c _ =>
          trim_of_trimmed c.trimmed
        rw [show ';' = PartProperty.adr.separator from rfl, hsplit, List.take_of_length_le, hpieces]
        rw [List.length_map, hlength]
      · rw [hcount hc] at h
        omega
  · have hstreet : (emitAddress (PartProperty.adr.joined components)).map Prod.snd =
        [PartProperty.adr.joined components] := by
      have hjoined : PartProperty.adr.joined components ≠ [] :=
        fun h => hne ((joined_eq_nil_iff _ components).mp h)
      rw [emitAddress, if_neg h, map_snd_emitPart, pieces]
      simp [trim_of_trimmed (trimmed_joined _ components), hjoined]
    rw [hstreet]
    constructor
    · intro htexts
      obtain ⟨c, hc, -⟩ := List.map_eq_singleton_iff.mp htexts.symm
      refine .inr (.inr ⟨c, hc, ?_⟩)
      rw [hcount hc] at h
      omega
    · rintro (hnil | ⟨hlength, hfree⟩ | ⟨c, rfl, -⟩)
      · exact absurd hnil hne
      · rw [length_splitOn_joined hne hfree] at h
        omega
      · simp [PartProperty.joined]

/-- **The components of a property survive an import exactly if none has a separator in it and
there is a place for each.** -/
theorem parts_kept_iff (property : PartProperty) (components : List Component) :
    property.Kept lib.toVCardLibrary components ↔ property.Fits components := by
  rcases List.eq_nil_or_concat components with rfl | ⟨front, c, rfl⟩
  · refine iff_of_true ?_ ?_
    · rw [PartProperty.Kept, parseVCards, vcardRecords_card]
      cases property <;> rfl
    · cases property with
      | n => exact ⟨Nat.zero_le 5, fun c hc => absurd hc List.not_mem_nil⟩
      | nickname => exact fun c hc => absurd hc List.not_mem_nil
      | adr => exact .inl rfl
  · have hne : front.concat c ≠ [] := by simp
    cases property with
    | n => exact fits_n lib hne
    | nickname => exact fits_nickname lib hne
    | adr => exact fits_adr lib hne

end Kept

theorem plain_toUpper_word (word : Runes) (h : ∀ c ∈ word, c.isUpper = true) :
    plain.toUpper word = word := by
  refine (List.map_congr_left fun c hc => ?_).trans (List.map_id word)
  exact Char.toUpper_eq_of_not_isLower (Char.not_isLower_of_isUpper (h c hc))

theorem plain_equalFold_self (text : Runes) : plain.equalFold text text = true :=
  beq_self_eq_true _

/-- Plain letters. -/
def plainWords : WordLibrary where
  toVCardLibrary := plain
  toUpper_word := plain_toUpper_word
  equalFold_self := plain_equalFold_self

theorem doeRoe_ne_nil : "Doe;Roe".toList ≠ [] := by decide

theorem doeRoe_trimmed : Trimmed "Doe;Roe".toList := by decide

/-- A family name with a separator in it. -/
def doeRoe : Component := ⟨"Doe;Roe".toList, doeRoe_ne_nil, doeRoe_trimmed⟩

theorem ann_ne_nil : "Ann".toList ≠ [] := by decide

theorem ann_trimmed : Trimmed "Ann".toList := by decide

/-- A given name. -/
def ann : Component := ⟨"Ann".toList, ann_ne_nil, ann_trimmed⟩

/-- The card is `N:Doe\;Roe;Ann`; the import has `Doe` for the family name, `Roe` for the given name
and `Ann` for a middle name. -/
theorem escaped_separator_not_kept :
    ¬ PartProperty.n.Kept plainWords.toVCardLibrary [doeRoe, ann] := by
  rw [PartProperty.Kept]
  decide +kernel

end Gmeow.VCards
