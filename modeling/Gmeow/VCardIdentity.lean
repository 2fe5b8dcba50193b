import Gmeow.VCards

/-!
# What a card is known by

`contactSubjectForVCard` hashes a text that lists the properties of a card with their normalized
values. Properties are joined by `;`, values by `|`, and nothing is escaped.

* `Card` — the values of a card; its properties are names that `parseVCards` lets pass;
* `SameContent` — two cards have the same normalized values for each property that counts;
* `parts_eq` — the text determines the parts, whatever the values are: behind a `;` a part has an
  upper-case letter, and a value has none;
* `subject_eq_iff` — cards are known by the same subject exactly if they have the same content, as
  long as no value has `|` in it and not both a value and a name have `=` in them.
-/

/-! ## Blocks with a marked front -/

namespace Fronts

variable {α : Type} {marked : α → Prop}

/-- A marked element, then others. -/
def Block (marked : α → Prop) (block : List α) : Prop :=
  ∃ front rest, block = front :: rest ∧ marked front ∧ ∀ x ∈ rest, ¬ marked x

/-- What comes before the first marked element. -/
theorem lead_eq {lead lead' rest rest' : List α} (hlead : ∀ x ∈ lead, ¬ marked x)
    (hlead' : ∀ x ∈ lead', ¬ marked x) (hrest : ∀ x ∈ rest.head?, marked x)
    (hrest' : ∀ x ∈ rest'.head?, marked x) (h : lead ++ rest = lead' ++ rest') :
    lead = lead' ∧ rest = rest' := by
  induction lead generalizing lead' with
  | nil =>
    cases lead' with
    | nil => exact ⟨rfl, h⟩
    | cons x lead' =>
      have hx : marked x := hrest x (by rw [show rest = _ from h]; rfl)
      exact absurd hx (hlead' x List.mem_cons_self)
  | cons x lead ih =>
    cases lead' with
    | nil =>
      have hx : marked x := hrest' x (by rw [← show _ = rest' from h]; rfl)
      exact absurd hx (hlead x List.mem_cons_self)
    | cons x' lead' =>
      obtain ⟨rfl, htail⟩ := List.cons.inj h
      obtain ⟨rfl, hsame⟩ := ih (fun y hy => hlead y (List.mem_cons_of_mem _ hy))
        (fun y hy => hlead' y (List.mem_cons_of_mem _ hy)) htail
      exact ⟨rfl, hsame⟩

theorem head_flatten {blocks : List (List α)} (h : ∀ block ∈ blocks, Block marked block) :
    ∀ x ∈ blocks.flatten.head?, marked x := by
  cases blocks with
  | nil => nofun
  | cons block rest =>
    obtain ⟨front, more, rfl, hfront, -⟩ := h block List.mem_cons_self
    intro x hx
    cases hx
    exact hfront

/-- Blocks are told apart by their fronts. -/
theorem blocks_eq {blocks blocks' : List (List α)} {lead lead' : List α}
    (hlead : ∀ x ∈ lead, ¬ marked x) (hlead' : ∀ x ∈ lead', ¬ marked x)
    (hblocks : ∀ block ∈ blocks, Block marked block)
    (hblocks' : ∀ block ∈ blocks', Block marked block)
    (h : lead ++ blocks.flatten = lead' ++ blocks'.flatten) : lead = lead' ∧ blocks = blocks' := by
  obtain ⟨hsame, hflat⟩ := lead_eq hlead hlead' (head_flatten hblocks) (head_flatten hblocks') h
  refine ⟨hsame, ?_⟩
  clear h hsame hlead hlead'
  induction blocks generalizing blocks' with
  | nil =>
    cases blocks' with
    | nil => rfl
    | cons block' rest' =>
      obtain ⟨front, more, rfl, -⟩ := hblocks' block' List.mem_cons_self
      cases hflat
  | cons block rest ih =>
    obtain ⟨front, more, rfl, -, hmore⟩ := hblocks block List.mem_cons_self
    cases blocks' with
    | nil => cases hflat
    | cons block' rest' =>
      obtain ⟨front', more', rfl, -, hmore'⟩ := hblocks' block' List.mem_cons_self
      have hrest : ∀ block ∈ rest, Block marked block :=
        fun block hblock => hblocks block (List.mem_cons_of_mem _ hblock)
      have hrest' : ∀ block ∈ rest', Block marked block :=
        fun block hblock => hblocks' block (List.mem_cons_of_mem _ hblock)
      obtain ⟨rfl, htail⟩ := List.cons.inj hflat
      obtain ⟨rfl, hflat'⟩ := lead_eq hmore hmore' (head_flatten hrest) (head_flatten hrest') htail
      rw [ih hrest hrest' hflat']

end Fronts

namespace Gmeow.VCards

open Runes Contacts

/-! ## Cards -/

/-- The library as it folds cases. -/
structure FoldLibrary : Type extends VCardLibrary where
  toUpper_toUpper : ∀ text, toUpper (toUpper text) = toUpper text
  toUpper_trimmed : ∀ {text}, Trimmed text → Trimmed (toUpper text)
  toUpper_free : ∀ {text}, ';' ∉ text → ';' ∉ toUpper text
  toLower_trimmed : ∀ {text}, Trimmed text → Trimmed (toLower text)
  toLower_lower : ∀ {text c}, c ∈ toLower text → c.isUpper = false

/-- A name that the import takes for a property. -/
structure PropertyName (lib : VCardLibrary) (name : Runes) : Prop where
  upper : lib.toUpper name = name
  trimmed : Trimmed name
  free : ';' ∉ name
  supported : supportedVCardProperty lib name = true

/-- The values of a card by its properties. -/
structure Card (lib : VCardLibrary) : Type where
  values : CardValues
  named : ∀ {key items}, values.get key = some items → PropertyName lib key

section Content

variable (lib : VCardLibrary)

/-- The normalized values of a property. -/
def normalized (values : CardValues) (key : Runes) : List Runes :=
  (((values.get key).getD []).map (normalizeFingerprintValue lib)).filter (· ≠ [])

variable {lib}

/-- The property counts and has a value. -/
def Card.Shows (card : Card lib) (key : Runes) : Prop :=
  isVolatileVCardProperty lib key = false ∧ normalized lib card.values key ≠ []

/-- The card has content that is not volatile. -/
def Card.HasContent (card : Card lib) : Prop := ∃ key, card.Shows key

/-- The subject of a card. -/
def Card.subject (card : Card lib) : Runes := contactSubjectForVCard lib card.values

/-- The text that is hashed. -/
def Card.text (card : Card lib) : Runes := [';'].intercalate (fingerprintParts lib card.values)

/-- **The same normalized values for each property that is not volatile.** -/
def SameContent (one other : Card lib) : Prop :=
  ∀ key, isVolatileVCardProperty lib key = false →
    ∀ value, value ∈ normalized lib one.values key ↔ value ∈ normalized lib other.values key

/-- No value has a `|`, and `=` is in values only or in names only. -/
def Plain (one other : Card lib) : Prop :=
  (∀ card ∈ [one, other], ∀ key, card.Shows key →
    ∀ value ∈ normalized lib card.values key, '|' ∉ value) ∧
  ((∀ card ∈ [one, other], ∀ key, card.Shows key →
    ∀ value ∈ normalized lib card.values key, '=' ∉ value) ∨
   ∀ card ∈ [one, other], ∀ key, card.Shows key → '=' ∉ key)

end Content

/-! ## Properties of imported cards -/

section Imported

variable (lib : FoldLibrary) {P : VCardLine → Prop} {current : Option OpenCard}

/-- What the import takes for a property has its name trimmed, in upper case, and without
parameters. -/
theorem propertyName_of_event {line : Runes} {found : VCardLine}
    (h : vcardEvent lib.toVCardLibrary line = .property found) :
    PropertyName lib.toVCardLibrary found.name := by
  rw [vcardEvent] at h
  split at h
  · cases h
  · split at h
    · cases h
    · rename_i head value _ name params hhead
      dsimp only at h
      split_ifs at h with h1 h2 h3 h4 h5 h6
      cases h
      have hname : ∃ raw, ';' ∉ raw ∧ name = lib.toUpper (trim raw) := by
        rw [parseVCardLineHead] at hhead
        split at hhead
        · exact absurd ‹_› (List.splitOn_ne_nil _ _)
        · rename_i first rest hsplit
          split at hhead
          · cases hhead
          · cases hhead
            have hfirst : ';' ∉ first := not_mem_of_mem_splitOn (hsplit ▸ List.mem_cons_self)
            rw [vcardPropertyName]
            split
            · rename_i before behind hcut
              refine ⟨behind, fun hmem => hfirst ?_, rfl⟩
              simp [cutRune_eq_some hcut, hmem]
            · exact ⟨first, hfirst, rfl⟩
      obtain ⟨raw, hraw, rfl⟩ := hname
      refine ⟨lib.toUpper_toUpper _, lib.toUpper_trimmed (trimmed_trim raw),
        lib.toUpper_free fun hmem => hraw ((trim_within raw).subset hmem), h6⟩

/-- One line: what it closes and what stays open has only lines that were read. -/
theorem lines_of_step {event : VCardEvent} (hevent : ∀ line, event = .property line → P line)
    (hcurrent : ∀ card ∈ current, ∀ line ∈ card.lines, P line) :
    (∀ lines, .ok lines ∈ (vcardStep current event).1 → ∀ line ∈ lines, P line) ∧
      ∀ card ∈ (vcardStep current event).2, ∀ line ∈ card.lines, P line := by
  -- where no card is finished, where a card has begun, and where none is open
  have hnone : ∀ lines, .ok lines ∈ ([] : List Record) → ∀ line ∈ lines, P line :=
    fun _ hmem => absurd hmem List.not_mem_nil
  have hbegun : ∀ card ∈ some ({ } : OpenCard), ∀ line ∈ card.lines, P line := by
    rintro card ⟨⟩ line hline
    exact absurd hline List.not_mem_nil
  have hclosed : ∀ card ∈ (none : Option OpenCard), ∀ line ∈ card.lines, P line := by
    rintro card ⟨⟩
  cases current with
  | none =>
    cases event with
    | opening => exact ⟨hnone, hbegun⟩
    | ending => exact ⟨hnone, hclosed⟩
    | bad problem => exact ⟨hnone, hclosed⟩
    | property line => exact ⟨hnone, hclosed⟩
    | nothing => exact ⟨hnone, hclosed⟩
  | some card =>
    have hcard : ∀ line ∈ card.lines, P line := hcurrent card rfl
    cases event with
    | opening =>
      refine ⟨fun lines hmem => ?_, hbegun⟩
      simp [vcardStep, OpenCard.unterminated] at hmem
    | ending =>
      refine ⟨fun lines hmem => ?_, hclosed⟩
      have hfinish : card.finish = .ok lines := (List.mem_singleton.mp hmem).symm
      rw [OpenCard.finish] at hfinish
      split at hfinish
      · cases hfinish
      · cases hfinish
        exact hcard
    | bad problem =>
      refine ⟨hnone, ?_⟩
      rintro card' ⟨⟩
      exact hcard
    | property line =>
      refine ⟨hnone, ?_⟩
      rintro card' ⟨⟩
      dsimp only
      split
      · exact hcard
      · -- the line is added to the card that is open
        exact List.forall_mem_append.mpr ⟨hcard, List.forall_mem_singleton.mpr (hevent line rfl)⟩
    | nothing => exact ⟨hnone, hcurrent⟩

/-- The lines of a card are lines that were read. -/
theorem lines_of_run {events : List VCardEvent} (hevents : ∀ line, .property line ∈ events → P line)
    (hcurrent : ∀ card ∈ current, ∀ line ∈ card.lines, P line) :
    (∀ lines, .ok lines ∈ (vcardRun current events).1 → ∀ line ∈ lines, P line) := by
  induction events generalizing current with
  | nil => exact nofun
  | cons event events ih =>
    obtain ⟨hclosed, hopen⟩ := lines_of_step
      (fun line heq => hevents line (heq ▸ List.mem_cons_self)) hcurrent
    intro lines hmem
    rw [vcardRun] at hmem
    rcases List.mem_append.mp hmem with hmem | hmem
    · exact hclosed lines hmem
    · exact ih (fun line hline => hevents line (List.mem_cons_of_mem _ hline)) hopen lines hmem

theorem exists_line_of_vcardValues {key : Runes} {items : List Runes} {lines : List VCardLine}
    (h : (vcardValues lines).get key = some items) : ∃ line ∈ lines, line.name = key := by
  rw [vcardValues] at h
  induction lines using List.reverseRecOn generalizing items with
  | nil => cases h
  | append_singleton lines line ih =>
    rw [List.foldl_append, List.foldl_cons, List.foldl_nil, OrdMap.get_set] at h
    split at h
    · rename_i hkey
      exact ⟨line, by simp, hkey.symm⟩
    · obtain ⟨found, hfound, hname⟩ := ih h
      exact ⟨found, List.mem_append_left _ hfound, hname⟩

/-- **The values of an imported card are those of a `Card`.** -/
theorem exists_card_of_parse {content : Runes} {card : VCard}
    (h : card ∈ (parseVCards lib.toVCardLibrary content).1) :
    ∃ found : Card lib.toVCardLibrary, found.values = card.values := by
  obtain ⟨record, hrecord, hcard⟩ := List.mem_filterMap.mp h
  cases record with
  | error reason => cases hcard
  | ok lines =>
    cases hcard
    have hlines : ∀ line ∈ lines, PropertyName lib.toVCardLibrary line.name := by
      have hevents : ∀ line, .property line ∈ textEvents lib.toVCardLibrary content →
          PropertyName lib.toVCardLibrary line.name := by
        intro line hline
        obtain ⟨raw, -, hraw⟩ := List.mem_map.mp hline
        exact propertyName_of_event lib hraw
      rcases List.mem_append.mp hrecord with hrecord | hrecord
      · have hnone : ∀ card ∈ (none : Option OpenCard), ∀ line ∈ card.lines,
            PropertyName lib.toVCardLibrary line.name := fun card hcard => by cases hcard
        exact lines_of_run hevents hnone lines hrecord
      · cases hopen : (vcardRun none (textEvents lib.toVCardLibrary content)).2 with
        | none => simp [hopen] at hrecord
        | some card => simp [hopen, OpenCard.unterminated] at hrecord
    refine ⟨⟨vcardValues lines, fun hget => ?_⟩, rfl⟩
    obtain ⟨line, hline, rfl⟩ := exists_line_of_vcardValues hget
    exact hlines line hline

end Imported

/-! ## Parts of the text -/

section Parts

variable {lib : FoldLibrary}

/-- A property that counts, with its values in order. -/
def shownPart (lib : VCardLibrary) (entry : Runes × List Runes) : Option (Runes × List Runes) :=
  if isVolatileVCardProperty lib entry.1 then none
  else if ((entry.2.map (normalizeFingerprintValue lib)).filter (· ≠ [])) = [] then none
  else some (entry.1, fingerprintValues lib entry.2)

/-- What is written for it. -/
def partText (part : Runes × List Runes) : Runes := part.1 ++ '=' :: ['|'].intercalate part.2

/-- The properties of a card that count. -/
def Card.shown (card : Card lib.toVCardLibrary) : List (Runes × List Runes) :=
  card.values.entries.filterMap (shownPart lib.toVCardLibrary)

theorem fingerprintParts_eq (card : Card lib.toVCardLibrary) :
    fingerprintParts lib.toVCardLibrary card.values = card.shown.map partText := by
  rw [fingerprintParts, Card.shown, List.map_filterMap]
  refine List.filterMap_congr fun entry hentry => ?_
  have hupper := (card.named (OrdMap.mem_entries_iff.mp hentry)).upper
  rw [fingerprintPart, shownPart]
  split
  · rfl
  · split
    · rfl
    · rw [hupper]
      rfl

variable {card one other : Card lib.toVCardLibrary} {part : Runes × List Runes}
  {values seen texts : List Runes} {sep : Char} {front key front' behind behind' : Runes}

theorem normalized_of_get {items : List Runes} (h : card.values.get key = some items) :
    normalized lib.toVCardLibrary card.values key =
      (items.map (normalizeFingerprintValue lib.toVCardLibrary)).filter (· ≠ []) := by
  rw [normalized, h]
  rfl

theorem mem_shown_iff :
    part ∈ card.shown ↔ card.Shows part.1 ∧ ∃ items, card.values.get part.1 = some items ∧
      part.2 = fingerprintValues lib.toVCardLibrary items := by
  obtain ⟨key, shown⟩ := part
  constructor
  · intro h
    obtain ⟨⟨key', items⟩, hentry, hpart⟩ := List.mem_filterMap.mp h
    have hget := OrdMap.mem_entries_iff.mp hentry
    rw [shownPart] at hpart
    split_ifs at hpart with hvolatile hitems
    cases hpart
    refine ⟨⟨by simpa using hvolatile, ?_⟩, items, hget, rfl⟩
    rw [normalized_of_get hget]
    exact hitems
  · rintro ⟨⟨hvolatile, hitems⟩, items, hget, rfl⟩
    rw [normalized_of_get hget] at hitems
    refine List.mem_filterMap.mpr ⟨(key, items), OrdMap.mem_entries_iff.mpr hget, ?_⟩
    rw [shownPart, hvolatile, if_neg Bool.false_ne_true, if_neg hitems]

theorem exists_shown (h : card.Shows key) :
    ∃ items, card.values.get key = some items ∧
      (key, fingerprintValues lib.toVCardLibrary items) ∈ card.shown := by
  cases hget : card.values.get key with
  | none =>
    refine absurd ?_ h.2
    rw [normalized, hget]
    rfl
  | some items => exact ⟨items, rfl, mem_shown_iff.mpr ⟨h, items, hget, rfl⟩⟩

theorem shown_sorted (card : Card lib.toVCardLibrary) :
    card.shown.Pairwise fun one other => one.1 < other.1 := by
  refine List.Pairwise.filterMap _ ?_ card.values.sorted
  intro entry entry' hlt part hpart part' hpart'
  rw [shownPart] at hpart hpart'
  split_ifs at hpart hpart'
  cases hpart
  cases hpart'
  exact hlt

/-! ## Values of a property -/

/-- Every value is there but for the empty one and those seen before. -/
theorem mem_uniqueStrings (h : ∀ value ∈ values, Trimmed value) {x : Runes} :
    x ∈ uniqueStrings seen values ↔ x ∈ values ∧ x ≠ [] ∧ x ∉ seen := by
  induction values generalizing seen with
  | nil => simp [uniqueStrings]
  | cons value rest ih =>
    obtain ⟨hvalue, hrest⟩ := List.forall_mem_cons.mp h
    rw [uniqueStrings, trim_of_trimmed hvalue]
    split
    · rename_i hskip
      rw [ih hrest, List.mem_cons]
      constructor
      · exact fun hx => ⟨.inr hx.1, hx.2⟩
      · rintro ⟨rfl | hx, hne, hseen⟩
        · rcases hskip with hskip | hskip
          · exact absurd hskip hne
          · exact absurd (by simpa using hskip) hseen
        · exact ⟨hx, hne, hseen⟩
    · rename_i hnew
      simp only [not_or, List.contains_eq_mem, decide_eq_true_eq] at hnew
      rw [List.mem_cons, ih hrest, List.mem_cons, List.mem_cons, not_or]
      constructor
      · rintro (rfl | ⟨hx, hne, -, hseen⟩)
        · exact ⟨.inl rfl, hnew⟩
        · exact ⟨.inr hx, hne, hseen⟩
      · rintro ⟨rfl | hx, hne, hseen⟩
        · exact .inl rfl
        · by_cases heq : x = value
          · exact .inl heq
          · exact .inr ⟨hx, hne, heq, hseen⟩

theorem nodup_uniqueStrings (h : ∀ value ∈ values, Trimmed value) :
    (uniqueStrings seen values).Nodup := by
  induction values generalizing seen with
  | nil => exact List.nodup_nil
  | cons value rest ih =>
    obtain ⟨hvalue, hrest⟩ := List.forall_mem_cons.mp h
    rw [uniqueStrings, trim_of_trimmed hvalue]
    split
    · exact ih hrest
    · refine List.nodup_cons.mpr ⟨fun hmem => ?_, ih hrest⟩
      exact ((mem_uniqueStrings hrest).mp hmem).2.2 List.mem_cons_self

/-- The words have no white space, and none is empty. -/
theorem fieldsLoop_words (text word : Runes) (hword : ∀ c ∈ word, isSpace c = false) :
    ∀ found ∈ fieldsLoop text word, found ≠ [] ∧ ∀ c ∈ found, isSpace c = false := by
  have hlast : word ≠ [] → word.reverse ≠ [] ∧ ∀ c ∈ word.reverse, isSpace c = false :=
    fun hne => ⟨by simpa using hne, fun c hc => hword c (List.mem_reverse.mp hc)⟩
  induction text generalizing word with
  | nil =>
    intro found hfound
    rw [fieldsLoop] at hfound
    split at hfound
    · cases hfound
    · rw [List.mem_singleton.mp hfound]
      exact hlast ‹_›
  | cons c text ih =>
    intro found hfound
    rw [fieldsLoop] at hfound
    split_ifs at hfound with hspace hempty
    · exact ih [] nofun (fun h => absurd rfl h) found hfound
    · rcases List.mem_cons.mp hfound with rfl | hfound
      · exact hlast hempty
      · exact ih [] nofun (fun h => absurd rfl h) found hfound
    · have hlonger : ∀ d ∈ c :: word, isSpace d = false := by
        intro d hd
        rcases List.mem_cons.mp hd with rfl | hd
        · simpa using hspace
        · exact hword d hd
      exact ih _ hlonger (fun _ => ⟨by simp, fun d hd => hlonger d (List.mem_reverse.mp hd)⟩)
        found hfound

theorem trimmed_normalize (value : Runes) :
    Trimmed (normalizeFingerprintValue lib.toVCardLibrary value) := by
  refine lib.toLower_trimmed (trimmed_intercalate _ fun word hword => ?_)
  obtain ⟨hne, hspace⟩ := fieldsLoop_words value [] nofun word hword
  exact ⟨hne, fun c hc => hspace c (List.mem_of_mem_head? hc),
    fun c hc => hspace c (List.mem_of_mem_getLast? hc)⟩

/-- The values of a property: without repetition, in order, and nothing else. -/
theorem fingerprintValues_spec (lib : FoldLibrary) (items : List Runes) :
    (∀ x, x ∈ fingerprintValues lib.toVCardLibrary items ↔
      x ∈ (items.map (normalizeFingerprintValue lib.toVCardLibrary)).filter (· ≠ [])) ∧
    (fingerprintValues lib.toVCardLibrary items).Nodup ∧
    (fingerprintValues lib.toVCardLibrary items).Pairwise (· ≤ ·) := by
  have htrimmed : ∀ value ∈
      (items.map (normalizeFingerprintValue lib.toVCardLibrary)).filter (· ≠ []),
      Trimmed value := by
    intro value hvalue
    obtain ⟨item, -, rfl⟩ := List.mem_map.mp (List.mem_of_mem_filter hvalue)
    exact trimmed_normalize item
  refine ⟨fun x => ?_, ?_, List.pairwise_insertionSort _ _⟩
  · rw [fingerprintValues, List.mem_insertionSort, mem_uniqueStrings htrimmed]
    simp
  · exact (List.perm_insertionSort _ _).nodup_iff.mpr (nodup_uniqueStrings htrimmed)

/-- Order, repetition and blank values make no difference to a fingerprint. -/
theorem fingerprintValues_eq_iff (items items' : List Runes) :
    fingerprintValues lib.toVCardLibrary items = fingerprintValues lib.toVCardLibrary items' ↔
      ∀ x, x ∈ (items.map (normalizeFingerprintValue lib.toVCardLibrary)).filter (· ≠ []) ↔
        x ∈ (items'.map (normalizeFingerprintValue lib.toVCardLibrary)).filter (· ≠ []) := by
  obtain ⟨hmem, hnodup, hsorted⟩ := fingerprintValues_spec lib items
  obtain ⟨hmem', hnodup', hsorted'⟩ := fingerprintValues_spec lib items'
  constructor
  · intro h x
    rw [← hmem, ← hmem', h]
  · intro h
    refine List.Perm.eq_of_pairwise (fun a b _ _ => le_antisymm) hsorted hsorted' ?_
    rw [List.perm_ext_iff_of_nodup hnodup hnodup']
    intro x
    rw [hmem, hmem', h]

/-- **The properties that count are the content.** -/
theorem shown_eq_iff (one other : Card lib.toVCardLibrary) :
    one.shown = other.shown ↔ SameContent one other := by
  constructor
  · intro h key hvolatile
    have hsub : ∀ {one other : Card lib.toVCardLibrary}, one.shown = other.shown → ∀ value,
        value ∈ normalized lib.toVCardLibrary one.values key →
        value ∈ normalized lib.toVCardLibrary other.values key := by
      intro one other h value hvalue
      obtain ⟨items, hget, hmem⟩ := exists_shown ⟨hvolatile, List.ne_nil_of_mem hvalue⟩
      rw [h] at hmem
      obtain ⟨-, items', hget', hsame⟩ := mem_shown_iff.mp hmem
      rw [normalized_of_get hget] at hvalue
      rw [normalized_of_get hget']
      exact ((fingerprintValues_eq_iff items items').mp hsame value).mp hvalue
    exact fun value => ⟨hsub h value, hsub h.symm value⟩
  · intro h
    have hsub : ∀ {one other : Card lib.toVCardLibrary}, SameContent one other →
        ∀ part ∈ one.shown, part ∈ other.shown := by
      intro one other h part hpart
      obtain ⟨⟨hvolatile, hne⟩, items, hget, hvalues⟩ := mem_shown_iff.mp hpart
      have hsame := h part.1 hvolatile
      have hne' : normalized lib.toVCardLibrary other.values part.1 ≠ [] := by
        obtain ⟨value, hvalue⟩ := List.exists_mem_of_ne_nil _ hne
        exact List.ne_nil_of_mem ((hsame value).mp hvalue)
      have hshows : other.Shows part.1 := ⟨hvolatile, hne'⟩
      obtain ⟨items', hget', hmem⟩ := exists_shown hshows
      rw [normalized_of_get hget, normalized_of_get hget'] at hsame
      rw [← (fingerprintValues_eq_iff items items').mpr hsame, ← hvalues] at hmem
      exact hmem
    have hnodup : ∀ card : Card lib.toVCardLibrary, card.shown.Nodup := by
      refine fun card => (shown_sorted card).imp fun {a b} hlt heq => ?_
      rw [heq] at hlt
      exact lt_irrefl _ hlt
    refine List.Perm.eq_of_pairwise (fun a b _ _ hab hba => absurd hab (lt_asymm hba))
      (shown_sorted one) (shown_sorted other) ?_
    rw [List.perm_ext_iff_of_nodup (hnodup one) (hnodup other)]
    have hback : SameContent other one := fun key hkey value => (h key hkey value).symm
    exact fun part => ⟨hsub h part, hsub hback part⟩

/-! ## The text -/

theorem splitOn_append_of_free (h : sep ∉ front) (text : Runes) :
    (front ++ text).splitOn sep = (text.splitOn sep).modifyHead (front ++ ·) := by
  induction front with
  | nil =>
    obtain ⟨first, rest, hsplit⟩ := List.exists_cons_of_ne_nil (List.splitOn_ne_nil sep text)
    rw [List.nil_append, hsplit]
    rfl
  | cons c front ih =>
    have hc : (c == sep) = false := beq_false_of_ne fun heq => h (heq ▸ List.mem_cons_self)
    rw [List.cons_append, List.splitOn_cons_eq_if_modifyHead, hc,
      ih fun hmem => h (List.mem_cons_of_mem _ hmem)]
    cases text.splitOn sep <;> rfl

theorem splitOn_intercalate_flatMap (h : texts ≠ []) :
    ([sep].intercalate texts).splitOn sep = texts.flatMap (List.splitOn sep) := by
  induction texts with
  | nil => exact absurd rfl h
  | cons text rest ih =>
    cases rest with
    | nil => simp
    | cons next rest =>
      rw [List.intercalate_cons_cons, List.append_assoc, List.singleton_append,
        List.splitOn_append_cons_self, ih (List.cons_ne_nil _ _)]
      rfl

/-- A text with an upper-case letter. -/
def Upper (text : Runes) : Prop := ∃ c ∈ text, c.isUpper = true

/-- A name that is not empty has an upper-case letter. -/
theorem PropertyName.upper_of_ne_nil {name : Runes} (h : PropertyName lib.toVCardLibrary name)
    (hne : name ≠ []) : Upper name := by
  have hsupported := h.supported
  rw [supportedVCardProperty, Bool.or_eq_true, Bool.or_eq_true] at hsupported
  have hofList : ∀ {text : String}, String.ofList name = text → name = text.toList := by
    rintro _ rfl
    exact String.toList_ofList.symm
  have hwithin : ∀ {part : Runes}, part <:+: name → Upper part → Upper name := by
    rintro part hpart ⟨c, hc, hupper⟩
    exact ⟨c, hpart.subset hc, hupper⟩
  rcases hsupported with (htable | hvendor) | hlegacy
  · have hall : ∀ text ∈ supportedVCardProperties,
        text.toList.any (fun c => c.isUpper) = true := by decide +kernel
    obtain ⟨c, hc, hupper⟩ := List.any_eq_true.mp (hall _ (by simpa using htable))
    rw [String.toList_ofList] at hc
    exact ⟨c, hc, hupper⟩
  · exact hwithin (List.isPrefixOf_iff_prefix.mp hvendor).isInfix ⟨'X', by decide, by decide⟩
  · simp only [legacyEncodedVCardFragment, trim_of_trimmed h.trimmed, h.upper, Bool.or_eq_true,
      decide_eq_true_eq] at hlegacy
    rcases hlegacy with (hencoded | hamp) | hword
    · exact hwithin hencoded ⟨'A', by decide, by decide⟩
    · exact hwithin hamp ⟨'A', by decide, by decide⟩
    · simp only [List.contains_eq_mem, List.mem_cons, List.not_mem_nil, or_false,
        decide_eq_true_eq] at hword
      rcases hword with hword | hword | hword | hword | hword | hword
      · exact absurd (hofList hword) hne
      · exact hofList hword ▸ ⟨'E', by decide, by decide⟩
      · exact hofList hword ▸ ⟨'I', by decide, by decide⟩
      · exact hofList hword ▸ ⟨'M', by decide, by decide⟩
      · exact hofList hword ▸ ⟨'O', by decide, by decide⟩
      · exact hofList hword ▸ ⟨'R', by decide, by decide⟩

/-- The values of a property that counts: there is one, and none has an upper-case letter. -/
theorem lower_of_mem_shown (h : part ∈ card.shown) : part.2 ≠ [] ∧
      ∀ value ∈ part.2, value ∈ normalized lib.toVCardLibrary card.values part.1 ∧
        ¬ Upper value := by
  obtain ⟨⟨-, hne⟩, items, hget, hvalues⟩ := mem_shown_iff.mp h
  rw [normalized_of_get hget] at hne ⊢
  rw [hvalues]
  have hmem := (fingerprintValues_spec lib items).1
  constructor
  · obtain ⟨value, hvalue⟩ := List.exists_mem_of_ne_nil _ hne
    exact List.ne_nil_of_mem ((hmem value).mpr hvalue)
  · intro value hvalue
    have hnormal := (hmem value).mp hvalue
    refine ⟨hnormal, ?_⟩
    rintro ⟨c, hc, hupper⟩
    obtain ⟨item, -, rfl⟩ := List.mem_map.mp (List.mem_of_mem_filter hnormal)
    rw [lib.toLower_lower hc] at hupper
    cases hupper

theorem mem_intercalate {c : Char} (h : c ∈ [sep].intercalate texts) :
    c = sep ∨ ∃ text ∈ texts, c ∈ text := by
  induction texts with
  | nil => cases h
  | cons text rest ih =>
    cases rest with
    | nil => exact .inr ⟨text, List.mem_cons_self, by simpa using h⟩
    | cons next rest =>
      rw [List.intercalate_cons_cons, List.append_assoc, List.mem_append, List.mem_append,
        List.mem_singleton] at h
      rcases h with h | h | h
      · exact .inr ⟨text, List.mem_cons_self, h⟩
      · exact .inl h
      · rcases ih h with hsep | ⟨found, hfound, hc⟩
        · exact .inl hsep
        · exact .inr ⟨found, List.mem_cons_of_mem _ hfound, hc⟩

/-- The pieces of a part at `;`: the name is in the first, and no other has an upper-case
letter. -/
theorem splitOn_partText (h : part ∈ card.shown) :
    ∃ first rest, (partText part).splitOn ';' = first :: rest ∧
      part.1 <+: first ∧ ∀ piece ∈ rest, ¬ Upper piece := by
  obtain ⟨-, items, hget, -⟩ := mem_shown_iff.mp h
  have hfree : ';' ∉ part.1 ++ ['='] := by simpa using (card.named hget).free
  have htext : partText part = (part.1 ++ ['=']) ++ ['|'].intercalate part.2 := by
    rw [partText, List.append_assoc]
    rfl
  obtain ⟨first, rest, hsplit⟩ :=
    List.exists_cons_of_ne_nil (List.splitOn_ne_nil ';' (['|'].intercalate part.2))
  refine ⟨part.1 ++ ['='] ++ first, rest, ?_, ?_, ?_⟩
  · rw [htext, splitOn_append_of_free hfree, hsplit]
    rfl
  · rw [List.append_assoc]
    exact List.prefix_append _ _
  · rintro piece hpiece ⟨c, hc, hupper⟩
    have hin : c ∈ ['|'].intercalate part.2 :=
      mem_of_mem_splitOn (hsplit ▸ List.mem_cons_of_mem _ hpiece) hc
    rcases mem_intercalate hin with rfl | ⟨value, hvalue, hcvalue⟩
    · exact absurd hupper (by decide)
    · exact ((lower_of_mem_shown h).2 value hvalue).2 ⟨c, hcvalue, hupper⟩

/-- The parts behind the first one begin with an upper-case letter in front of any `;`. -/
theorem block_of_shown {first : Runes × List Runes} {rest : List (Runes × List Runes)}
    (hshown : card.shown = first :: rest) (h : part ∈ rest) :
    Fronts.Block Upper ((partText part).splitOn ';') := by
  have hmem : part ∈ card.shown := hshown ▸ List.mem_cons_of_mem _ h
  obtain ⟨front, pieces, hsplit, hname, hpieces⟩ := splitOn_partText hmem
  have hlt : first.1 < part.1 := by
    have hsorted := shown_sorted card
    rw [hshown, List.pairwise_cons] at hsorted
    exact hsorted.1 part h
  have hne : part.1 ≠ [] := fun hnil => List.not_lt_nil _ (hnil ▸ hlt)
  obtain ⟨-, items, hget, -⟩ := mem_shown_iff.mp hmem
  obtain ⟨c, hc, hupper⟩ := (card.named hget).upper_of_ne_nil hne
  exact ⟨front, pieces, hsplit, ⟨c, hname.subset hc, hupper⟩, hpieces⟩

/-- **The text determines the parts, whatever the values are.** -/
theorem parts_eq (hone : one.shown ≠ []) (hother : other.shown ≠ []) (h : one.text = other.text) :
    one.shown.map partText = other.shown.map partText := by
  have hpieces : (one.shown.map partText).flatMap (List.splitOn ';') =
      (other.shown.map partText).flatMap (List.splitOn ';') := by
    rw [Card.text, Card.text, fingerprintParts_eq, fingerprintParts_eq] at h
    rw [← splitOn_intercalate_flatMap (by simpa using hone), h,
      splitOn_intercalate_flatMap (by simpa using hother)]
  obtain ⟨first, rest, hshown⟩ := List.exists_cons_of_ne_nil hone
  obtain ⟨first', rest', hshown'⟩ := List.exists_cons_of_ne_nil hother
  obtain ⟨front, lead, hsplit, -, hlead⟩ := splitOn_partText (hshown ▸ List.mem_cons_self)
  obtain ⟨front', lead', hsplit', -, hlead'⟩ := splitOn_partText (hshown' ▸ List.mem_cons_self)
  rw [hshown, hshown', List.map_cons, List.map_cons, List.flatMap_cons, List.flatMap_cons, hsplit,
    hsplit'] at hpieces
  obtain ⟨rfl, htail⟩ := List.cons.inj hpieces
  have hblocks : ∀ {card : Card lib.toVCardLibrary} {first rest}, card.shown = first :: rest →
      ∀ block ∈ (rest.map partText).map (List.splitOn ';'), Fronts.Block Upper block := by
    intro card first rest hshown block hblock
    obtain ⟨text, htext, rfl⟩ := List.mem_map.mp hblock
    obtain ⟨part, hpart, rfl⟩ := List.mem_map.mp htext
    exact block_of_shown hshown hpart
  obtain ⟨rfl, hrest⟩ := Fronts.blocks_eq hlead hlead' (hblocks hshown) (hblocks hshown') htail
  have hinjective : Function.Injective (List.splitOn ';' : Runes → List Runes) := by
    have hback : ∀ text : Runes, [';'].intercalate (text.splitOn ';') = text :=
      fun text => List.intercalate_splitOn ';'
    intro text text' hsame
    rw [← hback text, hsame, hback]
  rw [hshown, hshown', List.map_cons, List.map_cons, hinjective (hsplit.trans hsplit'.symm),
    List.map_injective_iff.mpr hinjective hrest]

/-! ## Subjects -/

theorem free_of_values (hsep : sep ≠ '|') (h : ∀ value ∈ values, sep ∉ value) :
    sep ∉ ['|'].intercalate values := by
  intro hmem
  rcases mem_intercalate hmem with hbar | ⟨value, hvalue, hin⟩
  · exact hsep hbar
  · exact h value hvalue hin

/-- A text in front of the last `=` and one behind it. -/
theorem append_last_inj (h : '=' ∉ behind) (h' : '=' ∉ behind')
    (heq : front ++ '=' :: behind = front' ++ '=' :: behind') :
    front = front' ∧ behind = behind' := by
  have hreverse : behind.reverse ++ '=' :: front.reverse =
      behind'.reverse ++ '=' :: front'.reverse := by
    have := congrArg List.reverse heq
    simpa using this
  have hcut : cutRune '=' (behind.reverse ++ '=' :: front.reverse) =
      some (behind.reverse, front.reverse) := cutRune_append (by simpa using h) _
  rw [hreverse, cutRune_append (by simpa using h')] at hcut
  simpa [eq_comm, and_comm] using hcut

theorem append_first_inj (h : '=' ∉ front) (h' : '=' ∉ front')
    (heq : front ++ '=' :: behind = front' ++ '=' :: behind') :
    front = front' ∧ behind = behind' := by
  have hcut := cutRune_append h behind
  rw [heq, cutRune_append h'] at hcut
  simpa [eq_comm] using hcut

/-- Plain cards: a part determines its property and its values. -/
theorem part_eq (hplain : Plain one other) {part' : Runes × List Runes} (hpart : part ∈ one.shown)
    (hpart' : part' ∈ other.shown) (h : partText part = partText part') : part = part' := by
  obtain ⟨hbar, hequals⟩ := hplain
  have hshows := (mem_shown_iff.mp hpart).1
  have hshows' := (mem_shown_iff.mp hpart').1
  obtain ⟨hne, hvalues⟩ := lower_of_mem_shown hpart
  obtain ⟨hne', hvalues'⟩ := lower_of_mem_shown hpart'
  have hone : one ∈ [one, other] := List.mem_cons_self
  have hother : other ∈ [one, other] := List.mem_cons_of_mem _ List.mem_cons_self
  obtain ⟨hkey, htexts⟩ : part.1 = part'.1 ∧
      ['|'].intercalate part.2 = ['|'].intercalate part'.2 := by
    rcases hequals with hequals | hequals
    · exact append_last_inj
        (free_of_values (by decide) fun value hvalue =>
          hequals one hone _ hshows value (hvalues value hvalue).1)
        (free_of_values (by decide) fun value hvalue =>
          hequals other hother _ hshows' value (hvalues' value hvalue).1) h
    · exact append_first_inj (hequals one hone _ hshows) (hequals other hother _ hshows') h
  have hsplit := List.splitOn_intercalate '|'
    (fun value hvalue => hbar one hone _ hshows value (hvalues value hvalue).1) hne
  have hsplit' := List.splitOn_intercalate '|'
    (fun value hvalue => hbar other hother _ hshows' value (hvalues' value hvalue).1) hne'
  exact Prod.ext hkey (by rw [← hsplit, htexts, hsplit'])

theorem eq_of_map_eq {α β : Type} {f : α → β} {l l' : List α}
    (hf : ∀ x ∈ l, ∀ y ∈ l', f x = f y → x = y) (h : l.map f = l'.map f) : l = l' := by
  induction l generalizing l' with
  | nil => exact (List.map_eq_nil_iff.mp h.symm).symm
  | cons x l ih =>
    obtain ⟨y, rest, rfl, hxy, hrest⟩ := List.map_eq_cons_iff.mp h.symm
    have hhead : x = y := hf x List.mem_cons_self y List.mem_cons_self hxy.symm
    have htail : l = rest := ih (fun x hx y hy =>
      hf x (List.mem_cons_of_mem _ hx) y (List.mem_cons_of_mem _ hy)) hrest.symm
    rw [hhead, htail]

theorem shown_ne_nil (h : card.HasContent) : card.shown ≠ [] := by
  obtain ⟨key, hkey⟩ := h
  obtain ⟨items, -, hmem⟩ := exists_shown hkey
  exact List.ne_nil_of_mem hmem

theorem subject_of_content (h : card.HasContent) :
    card.subject = observation lib.toVCardLibrary card.text := by
  have hparts : fingerprintParts lib.toVCardLibrary card.values ≠ [] := by
    rw [fingerprintParts_eq]
    simpa using shown_ne_nil h
  rw [Card.subject, contactSubjectForVCard, vcardObservationIdentity, if_neg hparts]
  rfl

/-- **Plain cards are known by one subject exactly if they have the same content**, as long as the
hash tells their texts apart. -/
theorem subject_eq_iff (one other : Card lib.toVCardLibrary) (hone : one.HasContent)
    (hother : other.HasContent)
    (hhash : shortHash lib.sha one.text = shortHash lib.sha other.text → one.text = other.text)
    (hplain : Plain one other) : one.subject = other.subject ↔ SameContent one other := by
  rw [subject_of_content hone, subject_of_content hother, ← shown_eq_iff]
  constructor
  · intro h
    have htext : one.text = other.text := hhash (List.append_cancel_left h)
    have hparts := parts_eq (shown_ne_nil hone) (shown_ne_nil hother) htext
    exact eq_of_map_eq (fun part hpart part' hpart' => part_eq hplain hpart hpart') hparts
  · intro h
    rw [Card.text, Card.text, fingerprintParts_eq, fingerprintParts_eq, h]

end Parts

/-! ## Plain letters -/

variable {c : Char} {text key : Runes} {items : List Runes}

theorem isSpace_of_isAlpha (h : c.isAlpha = true) : isSpace c = false := by
  have hrange : (65 ≤ c.toNat ∧ c.toNat ≤ 90) ∨ (97 ≤ c.toNat ∧ c.toNat ≤ 122) := by
    simpa [Char.isAlpha, Char.isUpper, Char.isLower, UInt32.le_iff_toNat_le] using h
  simp only [isSpace, Bool.or_eq_false_iff, Bool.and_eq_false_iff, decide_eq_false_iff_not,
    beq_eq_false_iff_ne]
  omega

theorem toUpper_of_not_isAlpha (h : c.isAlpha = false) : c.toUpper = c := by
  refine Char.toUpper_eq_of_not_isLower ?_
  simp only [Char.isAlpha, Bool.or_eq_false_iff] at h
  simpa using h.2

theorem toLower_of_not_isAlpha (h : c.isAlpha = false) : c.toLower = c := by
  refine Char.toLower_eq_of_not_isUpper ?_
  simp only [Char.isAlpha, Bool.or_eq_false_iff] at h
  simpa using h.1

theorem trimmed_map {f : Char → Char} (hf : ∀ c, isSpace c = false → isSpace (f c) = false)
    (h : Trimmed text) : Trimmed (text.map f) := by
  constructor
  · intro c hc
    rw [List.head?_map] at hc
    obtain ⟨d, hd, rfl⟩ := Option.map_eq_some_iff.mp hc
    exact hf d (h.1 d hd)
  · intro c hc
    rw [List.getLast?_map] at hc
    obtain ⟨d, hd, rfl⟩ := Option.map_eq_some_iff.mp hc
    exact hf d (h.2 d hd)

theorem plain_toUpper_toUpper (text : Runes) :
    plain.toUpper (plain.toUpper text) = plain.toUpper text := by
  change (text.map Char.toUpper).map Char.toUpper = text.map Char.toUpper
  rw [List.map_map]
  exact List.map_congr_left fun c _ => Char.toUpper_toUpper_eq_toUpper c

theorem plain_toUpper_trimmed (h : Trimmed text) : Trimmed (plain.toUpper text) := by
  refine trimmed_map (fun c hc => ?_) h
  cases halpha : c.isAlpha with
  | true => exact isSpace_of_isAlpha ((Char.isAlpha_toUpper_eq_isAlpha c).trans halpha)
  | false => rwa [toUpper_of_not_isAlpha halpha]

theorem plain_toUpper_free (h : ';' ∉ text) : ';' ∉ plain.toUpper text := by
  intro hmem
  obtain ⟨c, hc, hupper⟩ := List.mem_map.mp hmem
  cases halpha : c.isAlpha with
  | true =>
    have hsemicolon : (';').isAlpha = true := by
      rw [← hupper]
      exact (Char.isAlpha_toUpper_eq_isAlpha c).trans halpha
    exact absurd hsemicolon (by decide)
  | false =>
    rw [toUpper_of_not_isAlpha halpha] at hupper
    exact h (hupper ▸ hc)

theorem plain_toLower_trimmed (h : Trimmed text) : Trimmed (plain.toLower text) := by
  refine trimmed_map (fun c hc => ?_) h
  cases halpha : c.isAlpha with
  | true => exact isSpace_of_isAlpha ((Char.isAlpha_toLower_eq_isAlpha c).trans halpha)
  | false => rwa [toLower_of_not_isAlpha halpha]

theorem plain_toLower_lower {text : Runes} {c : Char} (h : c ∈ plain.toLower text) :
    c.isUpper = false := by
  obtain ⟨d, -, rfl⟩ := List.mem_map.mp h
  exact Char.isUpper_toLower_eq_false d

/-- Plain letters. -/
def plainFold : FoldLibrary where
  toVCardLibrary := plain
  toUpper_toUpper := plain_toUpper_toUpper
  toUpper_trimmed := plain_toUpper_trimmed
  toUpper_free := plain_toUpper_free
  toLower_trimmed := plain_toLower_trimmed
  toLower_lower := plain_toLower_lower

theorem note_named (items : List Runes) {key : Runes} {values : List Runes}
    (h : ((∅ : CardValues).set "NOTE".toList items).get key = some values) :
    PropertyName plainFold.toVCardLibrary key := by
  rw [OrdMap.get_set] at h
  split at h
  · rename_i hkey
    rw [hkey]
    exact ⟨by decide, by decide, by decide, by decide +kernel⟩
  · cases h

/-- A card with notes. -/
def noteCard (items : List Runes) : Card plainFold.toVCardLibrary :=
  ⟨(∅ : CardValues).set "NOTE".toList items, note_named items⟩

/-- The card of a note. -/
theorem exists_card_of_note :
    ∃ card ∈ (parseVCards plain "BEGIN:VCARD\nNOTE:a\nEND:VCARD".toList).1,
      ∃ found : Card plain, found.values = card.values := by
  obtain ⟨card, hcard⟩ := List.exists_mem_of_ne_nil
    (parseVCards plain "BEGIN:VCARD\nNOTE:a\nEND:VCARD".toList).1 (by decide +kernel)
  exact ⟨card, hcard, exists_card_of_parse plainFold hcard⟩

theorem key_of_noteCard (h : (noteCard items).Shows key) : key = "NOTE".toList := by
  by_contra hne
  refine h.2 ?_
  rw [normalized, noteCard, OrdMap.get_set_ne _ _ hne]
  rfl

theorem noteCard_hasContent (h : normalized plain (noteCard items).values "NOTE".toList ≠ []) :
    (noteCard items).HasContent :=
  ⟨"NOTE".toList, by decide +kernel, h⟩

/-- Notes with a `;` in them are told apart. -/
theorem semicolon_told_apart :
    (noteCard ["A; b".toList]).subject ≠ (noteCard ["a".toList]).subject := by
  have hplain : Plain (noteCard ["A; b".toList]) (noteCard ["a".toList]) := by
    have hkeys : ∀ card ∈ [noteCard ["A; b".toList], noteCard ["a".toList]],
        ∀ key, card.Shows key → key = "NOTE".toList := by
      simp only [List.mem_cons, List.not_mem_nil, or_false, forall_eq_or_imp, forall_eq]
      exact ⟨fun key => key_of_noteCard, fun key => key_of_noteCard⟩
    have hvalues : ∀ card ∈ [noteCard ["A; b".toList], noteCard ["a".toList]],
        ∀ value ∈ normalized plain card.values "NOTE".toList, '|' ∉ value := by
      decide +kernel
    refine ⟨fun card hcard key hkey => ?_, .inr fun card hcard key hkey => ?_⟩
    · rw [hkeys card hcard key hkey]
      exact hvalues card hcard
    · rw [hkeys card hcard key hkey]
      decide
  have hiff := subject_eq_iff (noteCard ["A; b".toList]) (noteCard ["a".toList])
    (noteCard_hasContent (by decide +kernel)) (noteCard_hasContent (by decide +kernel))
    (by decide +kernel) hplain
  intro h
  have hsame := hiff.mp h "NOTE".toList (by decide +kernel) "a".toList
  revert hsame
  decide +kernel

/-- One note `a|b` and two notes `a` and `b` are known by the same subject, though the hash tells
the two texts apart if they differ. -/
theorem joined_notes_fused : (noteCard ["a|b".toList]).HasContent ∧
    (noteCard ["a".toList, "b".toList]).HasContent ∧
    (noteCard ["a|b".toList]).text = (noteCard ["a".toList, "b".toList]).text ∧
    ¬ ((noteCard ["a|b".toList]).subject = (noteCard ["a".toList, "b".toList]).subject ↔
      SameContent (noteCard ["a|b".toList]) (noteCard ["a".toList, "b".toList])) := by
  refine ⟨noteCard_hasContent (by decide +kernel), noteCard_hasContent (by decide +kernel),
    by decide +kernel, fun h => ?_⟩
  have hsame := h.mp (by decide +kernel) "NOTE".toList (by decide +kernel) "a".toList
  revert hsame
  decide +kernel

end Gmeow.VCards
