import Gmeow.OrdMap
import Gmeow.TurtleWriting

/-!
# Reading vCards

`parseVCards` unfolds a text to lines, opens a card at each `BEGIN:VCARD` line and closes it at the
next `END:VCARD` line. A card with a line that cannot be read is rejected alone.

* `unfoldVCardLines` — folded lines and soft breaks of quoted-printable text;
* `vcardEvent`, `vcardStep`, `vcardRecords`, `parseVCards` — the cards and the rejections;
* `contactSubjectForVCard` — what a card is known by;
* `Isolated` — a text made of several is read as these are, one by one;
* `vcard_isolated_iff` — so it is exactly if no sound card is left open for a later text to close or
  to spoil before a card begins there.

Case folding, quoted-printable and the hash are parameters. Line numbers, which the reasons of
rejections name, are left out.
-/

namespace Gmeow.VCards

open Runes Contacts

/-- What is used of the standard library. -/
structure VCardLibrary : Type where
  toUpper : Runes → Runes
  toLower : Runes → Runes
  equalFold : Runes → Runes → Bool
  /-- the decoded text, unless there is an error -/
  quotedPrintable : Runes → Option Runes
  sha : Runes → Runes

/-- `vcardLine`. -/
structure VCardLine : Type where
  name : Runes
  value : Runes
  params : OrdMap Runes (List Runes)

/-! ## Lines -/

/-- `strings.ReplaceAll(content, "\r\n", "\n")`. -/
def joinBreaks : Runes → Runes
  | [] => []
  | c :: rest => if c = '\r' ∧ rest.head? = some '\n' then joinBreaks rest else c :: joinBreaks rest

/-- A line that is joined to the one before. -/
def folded (raw : Runes) : Bool := raw.head? == some ' ' || raw.head? == some '\t'

variable (lib : VCardLibrary)

/-- `isQuotedPrintableVCardLine`. -/
def isQuotedPrintableVCardLine (line : Runes) : Bool :=
  match cutRune ':' line with
  | none => false
  | some (head, _) => decide ("ENCODING=QUOTED-PRINTABLE".toList <:+: lib.toUpper head)

/-- One line of `unfoldVCardLines`: the lines so far, last one first, and
`quotedPrintableContinuation`. -/
def unfoldStep (state : List Runes × Bool) (raw : Runes) : List Runes × Bool :=
  if folded raw then
    match state.1 with
    | [] => state
    | last :: before => ((last ++ raw.tail) :: before, state.2)
  else match state with
    | (last :: before, true) =>
      let joined := trimSuffix ['='] last ++ raw
      (joined :: before, joined.getLast? == some '=')
    | (lines, soft) =>
      if trim raw = [] then (lines, soft)
      else
        let line := raw.rdropWhile (· == '\r')
        (line :: lines, isQuotedPrintableVCardLine lib line && line.getLast? == some '=')

/-- `unfoldVCardLines`. -/
def unfoldVCardLines (content : Runes) : List Runes :=
  (((joinBreaks content).splitOn '\n').foldl (unfoldStep lib) ([], false)).1.reverse

/-! ## Properties -/

/-- `supportedVCardProperties`. -/
def supportedVCardProperties : List String :=
  ["ADR", "AIM", "EMAIL", "FN", "N", "NICKNAME", "NOTE", "ORG", "TEL", "TITLE", "UID", "URL",
    "VERSION", "BDAY", "CATEGORIES", "CLASS", "FBURL", "GEO", "GOOGLE-TALK", "GTALK", "ICQ",
    "IMPP", "JABBER", "KEY", "KIND", "LABEL", "LOGO", "MAILER", "MSN", "PHOTO", "PRODID",
    "PROFILE", "REV", "ROLE", "SORT-STRING", "SOUND", "SOURCE", "TZ", "X-ABADR", "X-XMPP",
    "YAHOO", "@FRIEND @TRACKED=0A=0AE-MAIL ADDRESS", "@FRIEND @TRACKED=0A=0AIM",
    "@WORK-BOATS=0A=0AE-MAIL ADDRESS", "@WORK-BOATS=0A=0AIM", "=0AIM", "#K5631C2&AMP", "ESS",
    "[REF]=0A[REF]=0ACATEGORIES", "X-ABLABEL", "X-ABRELATEDNAMES", "X-ABSHOWAS", "X-ABUID",
    "X-AIM", "X-CAT-IDS", "X-CID", "X-CREATED", "X-ETAG", "X-FC-LIST-ID", "X-FC-TAGS", "X-GENDER",
    "X-GTALK", "X-ID", "X-JABBER", "X-MYSPACE", "X-MODIFIED", "X-MSN", "X-MAIDENNAME",
    "X-PHONETIC-LAST-NAME", "X-PRIMARY-PHONE", "X-SOCIALPROFILE", "X-WINDOWS-LIVE", "X-YAHOO",
    "ADDRESS", "BIRTHDAY", "BUSINESS STREET", "CITY", "COUNTRY", "IM", "PIN", "STATE", "WEB ID",
    "X-ABDATE", "X-AIM-ID", "X-EVOLUTION-FILE-AS", "X-FC-CLUSTER-ID", "X-FC-ENRICHED-ETAG",
    "X-FC-REMOTE-ACCOUNT", "X-ICQ", "X-ICQ-ID", "X-IM", "X-MSN-ID", "X-SKYPE", "X-SKYPE-ID",
    "X-YAHOO-ID"]

/-- `legacyEncodedVCardFragmentPredicate`: whether there is a predicate. -/
def legacyEncodedVCardFragment (name : Runes) : Bool :=
  let upper := lib.toUpper (trim name)
  decide ("=0A".toList <:+: upper) || decide ("&AMP".toList <:+: upper) ||
    ["", "ESS", "ITY", "MP", "OUNTRY", "RESS"].contains (String.ofList upper)

/-- `supportedVCardProperty`. -/
def supportedVCardProperty (name : Runes) : Bool :=
  supportedVCardProperties.contains (String.ofList name) || "X-".toList.isPrefixOf name ||
    legacyEncodedVCardFragment lib name

/-- The parameters of `vcardParamPredicates`. -/
def vcardParams : List String :=
  ["BASE64", "CHARSET", "ENCODING", "GEO", "INDEX", "LANGUAGE", "MEDIATYPE", "PID", "PREF",
    "TYPE", "VALUE", "X-SERVICE-TYPE", "N", "X-APPLE-OMIT-YEAR", "X-DISPLAYNAME",
    "X-EVOLUTION-UI-SLOT", "X-USERID"]

/-- Parameters of a line. -/
abbrev Params : Type := OrdMap Runes (List Runes)

/-- The loop of `parseVCardLineHead`; an error is the parameter. -/
def parseVCardParams : List Runes → Params → Except Runes Params
  | [], params => .ok params
  | raw :: rest, params =>
    let raw := trim raw
    if raw = [] then parseVCardParams rest params
    else
      let (key, value) := (cutRune '=' raw).getD ("TYPE".toList, raw)
      let key := lib.toUpper (trim key)
      if vcardParams.contains (String.ofList key) then
        parseVCardParams rest (((value.splitOn ',').map trim).foldl (fun params item =>
          if item = [] then params else params.set key ((params.get key).getD [] ++ [item])) params)
      else .error key

/-- `vcardPropertyName`. -/
def vcardPropertyName (value : Runes) : Runes :=
  lib.toUpper (trim (match cutRune '.' value with
    | some (_, property) => property
    | none => value))

/-- `parseVCardLineHead`. -/
def parseVCardLineHead (head : Runes) : Except Runes (Runes × Params) :=
  match head.splitOn ';' with
  | [] => .ok ([], ∅)
  | first :: rest =>
    match parseVCardParams lib rest ∅ with
    | .error key => .error key
    | .ok params => .ok (vcardPropertyName lib first, params)

/-- The replacer of `unescapeVCardValue`. -/
def unescape : Runes → Runes
  | [] => []
  | [c] => [c]
  | c :: d :: rest =>
    if c = '\\' ∧ (d = 'n' ∨ d = 'N') then '\n' :: unescape rest
    else if c = '\\' ∧ (d = ',' ∨ d = ';' ∨ d = '\\') then d :: unescape rest
    else c :: unescape (d :: rest)

/-- `hasVCardParamValue`. -/
def hasVCardParamValue (params : Params) (key value : String) : Bool :=
  ((params.get key.toList).getD []).any fun item => lib.equalFold (trim item) value.toList

/-- `decodeVCardValue`. -/
def decodeVCardValue (value : Runes) (params : Params) : Runes :=
  let value := if hasVCardParamValue lib params "ENCODING" "QUOTED-PRINTABLE" then
    (lib.quotedPrintable value).getD value else value
  trim (unescape value)

/-! ## Subjects -/

/-- `map[string][]string`: the values of a card by property. -/
abbrev CardValues : Type := OrdMap Runes (List Runes)

/-- `volatileVCardProperties`. -/
def volatileVCardProperties : List String :=
  ["UID", "REV", "VERSION", "PRODID", "PHOTO", "LOGO", "SOUND", "KEY", "CLIENTPIDMAP", "X-ABUID",
    "X-CREATED", "X-MODIFIED", "X-ETAG", "X-CID", "X-ID", "X-CAT-IDS", "X-ABSHOWAS",
    "X-FC-ENRICHED-ETAG", "X-FC-CLUSTER-ID", "X-FC-REMOTE-ACCOUNT", "X-FC-LIST-ID"]

/-- `isVolatileVCardProperty`. -/
def isVolatileVCardProperty (name : Runes) : Bool :=
  let upper := lib.toUpper (trim name)
  volatileVCardProperties.contains (String.ofList upper) ||
    "X-FC-GOOGLE-URI-".toList.isPrefixOf upper || "X-FC-STASH-GDATA".toList.isPrefixOf upper

/-- `normalizeFingerprintValue`. -/
def normalizeFingerprintValue (value : Runes) : Runes :=
  lib.toLower ([' '].intercalate (fields value))

/-- `uniqueStrings`. -/
def uniqueStrings : List Runes → List Runes → List Runes
  | _, [] => []
  | seen, value :: rest =>
    if trim value = [] ∨ seen.contains (trim value) then uniqueStrings seen rest
    else trim value :: uniqueStrings (trim value :: seen) rest

/-- The normalized values of a property, in their order. -/
def fingerprintValues (values : List Runes) : List Runes :=
  (uniqueStrings [] ((values.map (normalizeFingerprintValue lib)).filter (· ≠ []))).insertionSort
    (· ≤ ·)

/-- What `vcardObservationIdentity` writes for a property. -/
def fingerprintPart (key : Runes) (values : List Runes) : Option Runes :=
  if isVolatileVCardProperty lib key then none
  else if ((values.map (normalizeFingerprintValue lib)).filter (· ≠ [])) = [] then none
  else some (lib.toUpper key ++ '=' :: ['|'].intercalate (fingerprintValues lib values))

/-- The parts of a card. -/
def fingerprintParts (values : CardValues) : List Runes :=
  values.entries.filterMap fun entry => fingerprintPart lib entry.1 entry.2

/-- The subject for a text. -/
def observation (text : Runes) : Runes :=
  "urn:gmeow:observation:".toList ++ shortHash lib.sha text

/-- `vcardObservationIdentity`; there is none without parts. -/
def vcardObservationIdentity (values : CardValues) : Option Runes :=
  if fingerprintParts lib values = [] then none
  else some (observation lib ([';'].intercalate (fingerprintParts lib values)))

/-- `stableVCardFingerprint`. -/
def stableVCardFingerprint (values : CardValues) : Runes :=
  [';'].intercalate (values.entries.map fun entry =>
    entry.1 ++ '=' :: ['|'].intercalate entry.2)

/-- `contactSubjectForVCard`. -/
def contactSubjectForVCard (values : CardValues) : Runes :=
  (vcardObservationIdentity lib values).getD (observation lib (stableVCardFingerprint values))

/-! ## Cards -/

/-- What is wrong with a line. -/
inductive Problem : Type
  | noSeparator
  | unsupportedParameter (key : Runes)
  | unsupportedProperty (name : Runes)
deriving DecidableEq

/-- Why a card is rejected. -/
inductive Reason : Type
  | damaged (problem : Problem)
  | unterminated
deriving DecidableEq

/-- What a line is to `parseVCards`. -/
inductive VCardEvent : Type
  | opening
  | ending
  | bad (problem : Problem)
  | property (line : VCardLine)
  | nothing

/-- The line of the loop of `parseVCards`. -/
def vcardEvent (line : Runes) : VCardEvent :=
  match cutRune ':' line with
  | none => .bad .noSeparator
  | some (head, value) =>
    match parseVCardLineHead lib head with
    | .error key => .bad (.unsupportedParameter key)
    | .ok (name, params) =>
      let value := decodeVCardValue lib value params
      if name = "BEGIN".toList then
        if lib.equalFold value "VCARD".toList then .opening else .nothing
      else if name = "END".toList then
        if lib.equalFold value "VCARD".toList then .ending else .nothing
      else if value = [] then .nothing
      else if supportedVCardProperty lib name then .property ⟨name, value, params⟩
      else .bad (.unsupportedProperty name)

/-- `currentLines` and `poison`. -/
structure OpenCard : Type where
  lines : List VCardLine := []
  poison : Option Problem := none

/-- A record of a text: a card by its lines, or a rejection. -/
abbrev Record : Type := Except Reason (List VCardLine)

/-- `finish`. -/
def OpenCard.finish (card : OpenCard) : Record :=
  match card.poison with
  | some problem => .error (.damaged problem)
  | none => .ok card.lines

/-- `finish` for a card without an end. -/
def OpenCard.unterminated (card : OpenCard) : Record :=
  .error ((card.poison.map Reason.damaged).getD .unterminated)

/-- One line of `parseVCards`: the records it finishes and the card that is open behind it. -/
def vcardStep (current : Option OpenCard) (event : VCardEvent) : List Record × Option OpenCard :=
  match event with
  | .opening => ((current.map OpenCard.unterminated).toList, some { })
  | .ending => ((current.map OpenCard.finish).toList, none)
  | .bad problem => ([], current.map fun card =>
      { card with poison := card.poison.or (some problem) })
  | .property line => ([], current.map fun card =>
      if card.poison.isSome then card else { card with lines := card.lines ++ [line] })
  | .nothing => ([], current)

/-- The lines of `parseVCards`. -/
def vcardRun : Option OpenCard → List VCardEvent → List Record × Option OpenCard
  | current, [] => ([], current)
  | current, event :: rest =>
    let step := vcardStep current event
    let more := vcardRun step.2 rest
    (step.1 ++ more.1, more.2)

/-- All records, with a card that is open at the end. -/
def closeRun (run : List Record × Option OpenCard) : List Record :=
  run.1 ++ (run.2.map OpenCard.unterminated).toList

/-- The events of a text. -/
def textEvents (content : Runes) : List VCardEvent :=
  (unfoldVCardLines lib content).map (vcardEvent lib)

/-- The records of a text, in the order of their index. -/
def vcardRecords (content : Runes) : List Record :=
  closeRun (vcardRun none (textEvents lib content))

/-- `vcardContact`. -/
structure VCard : Type where
  subject : Runes
  lines : List VCardLine
  values : CardValues

/-- The values of some lines. -/
def vcardValues (lines : List VCardLine) : CardValues :=
  lines.foldl (fun values line =>
    values.set line.name ((values.get line.name).getD [] ++ [line.value])) ∅

/-- The card of a record. -/
def vcardContact (lines : List VCardLine) : VCard :=
  ⟨contactSubjectForVCard lib (vcardValues lines), lines, vcardValues lines⟩

/-- `RecordRejection`. -/
structure RecordRejection : Type where
  index : Nat
  reason : Reason
deriving DecidableEq

/-- The cards among some records. -/
def cardsOf (records : List Record) : List VCard :=
  records.filterMap fun record => record.toOption.map (vcardContact lib)

/-- The rejections among some records, the first of which has an index. -/
def rejectionsFrom : Nat → List Record → List RecordRejection
  | _, [] => []
  | index, .ok _ :: rest => rejectionsFrom (index + 1) rest
  | index, .error reason :: rest => ⟨index, reason⟩ :: rejectionsFrom (index + 1) rest

/-- `parseVCards`. -/
def parseVCards (content : Runes) : List VCard × List RecordRejection :=
  (cardsOf lib (vcardRecords lib content), rejectionsFrom 1 (vcardRecords lib content))

/-! ## Texts one by one -/

/-- Starts with a `BEGIN:VCARD` line, ends with an `END:VCARD` line and a line break. -/
def CardText (content : Runes) : Prop :=
  ∃ first last body, first ∈ ["\n".toList, "\r\n".toList] ∧ last ∈ ["\n".toList, "\r\n".toList] ∧
    (body = [] ∨ body.getLast? = some '\n') ∧
    content = "BEGIN:VCARD".toList ++ (first ++ (body ++ ("END:VCARD".toList ++ last)))

/-- The rejections of texts with their indices shifted by the records of the texts before. -/
def shiftedRejections : Nat → List Runes → List RecordRejection
  | _, [] => []
  | shift, text :: rest =>
    let parsed := parseVCards lib text
    parsed.2.map (fun rejection => { rejection with index := shift + rejection.index }) ++
      shiftedRejections (shift + parsed.1.length + parsed.2.length) rest

/-- **The texts are read together as they are read one by one.** -/
def Isolated (texts : List Runes) : Prop :=
  parseVCards lib texts.flatten =
    (texts.flatMap fun text => (parseVCards lib text).1, shiftedRejections lib 0 texts)

/-- What becomes of a card that is open and sound: the events begin another card, spoil it or end
it, or pass. -/
inductive Verdict : Type
  | cut | touched | passed
deriving DecidableEq

/-- The first event that matters to an open card. -/
def verdict : List VCardEvent → Verdict
  | [] => .passed
  | .opening :: _ => .cut
  | .ending :: _ => .touched
  | .bad _ :: _ => .touched
  | .property _ :: rest => verdict rest
  | .nothing :: rest => verdict rest

/-- A sound card is open behind the events; `sound` says if one is before. -/
def leavesSound : Bool → List VCardEvent → Bool
  | sound, [] => sound
  | _, .opening :: rest => leavesSound true rest
  | _, .ending :: rest => leavesSound false rest
  | _, .bad _ :: rest => leavesSound false rest
  | sound, .property _ :: rest => leavesSound sound rest
  | sound, .nothing :: rest => leavesSound sound rest

/-- No sound card that a text leaves open is ended or spoiled by a later one. -/
def Apart : Bool → List (List VCardEvent) → Prop
  | _, [] => True
  | false, events :: rest => Apart (leavesSound false events) rest
  | true, events :: rest =>
    match verdict events with
    | .cut => Apart (leavesSound false events) rest
    | .touched => False
    | .passed => Apart true rest

/-! ## Runs -/

theorem vcardRun_append (current : Option OpenCard) (events more : List VCardEvent) :
    vcardRun current (events ++ more) =
      ((vcardRun current events).1 ++ (vcardRun (vcardRun current events).2 more).1,
        (vcardRun (vcardRun current events).2 more).2) := by
  induction events generalizing current with
  | nil => rfl
  | cons event events ih =>
    rw [List.cons_append, vcardRun, ih, vcardRun]
    dsimp only
    rw [List.append_assoc]

/-- The card that is open is sound. -/
def soundOf (current : Option OpenCard) : Bool := current.any fun card => card.poison.isNone

/-- By induction on the events: only the open card counts, not the cards that are done. -/
theorem soundOf_run (current : Option OpenCard) (events : List VCardEvent) :
    soundOf (vcardRun current events).2 = leavesSound (soundOf current) events := by
  induction events generalizing current with
  | nil => rfl
  | cons event events ih =>
    rw [vcardRun]
    dsimp only
    rw [ih]
    cases event with
    | opening => rfl
    | ending => rfl
    | bad problem =>
      rw [leavesSound]
      congr 1
      cases current with
      | none => rfl
      | some card =>
        cases hpoison : card.poison <;> simp [vcardStep, soundOf, hpoison]
    | property line =>
      rw [leavesSound]
      congr 1
      cases current with
      | none => rfl
      | some card =>
        cases hpoison : card.poison <;> simp [vcardStep, soundOf, hpoison]
    | nothing => rfl

variable {events : List VCardEvent} {card : OpenCard} {problem : Problem} {text raw piece : Runes}
  {index : Nat} {records more : List Record} {event : VCardEvent} {lines texts : List Runes}

theorem leavesSound_of_cut (h : verdict events = .cut) :
    leavesSound true events = leavesSound false events := by
  induction events with
  | nil => cases h
  | cons event events ih =>
    cases event with
    | opening => rfl
    | ending => cases h
    | bad problem => cases h
    | property line => exact ih h
    | nothing => exact ih h

theorem leavesSound_of_passed (h : verdict events = .passed) : leavesSound true events = true := by
  induction events with
  | nil => rfl
  | cons event events ih =>
    cases event with
    | opening => cases h
    | ending => cases h
    | bad problem => cases h
    | property line => exact ih h
    | nothing => exact ih h

theorem vcardStep_bad_of_spoiled (hpoison : card.poison = some problem) (other : Problem) :
    vcardStep (some card) (.bad other) = ([], some card) := by
  cases card with
  | mk lines poison =>
    cases hpoison
    rfl

theorem vcardStep_bad_of_sound (hpoison : card.poison = none) (problem : Problem) :
    vcardStep (some card) (.bad problem) = ([], some ⟨card.lines, some problem⟩) := by
  simp [vcardStep, hpoison]

theorem vcardStep_property_of_spoiled (hpoison : card.poison = some problem) (line : VCardLine) :
    vcardStep (some card) (.property line) = ([], some card) := by
  simp [vcardStep, hpoison]

theorem vcardStep_property_of_sound (hpoison : card.poison = none) (line : VCardLine) :
    vcardStep (some card) (.property line) = ([], some ⟨card.lines ++ [line], none⟩) := by
  simp [vcardStep, hpoison]

theorem vcardRun_of_silent {current current' : Option OpenCard}
    (hstep : vcardStep current event = ([], current')) (events : List VCardEvent) :
    vcardRun current (event :: events) = vcardRun current' events := by
  rw [vcardRun, hstep]
  rfl

/-- What a card that is open will be if nothing closes it. -/
def pending (current : Option OpenCard) : List Record := (current.map OpenCard.unterminated).toList

/-- The events do to an open card what they do without one, but for the record of it: the record
comes first, or the card stays open. -/
def Carried (card : OpenCard) (events : List VCardEvent) : Prop :=
  (∃ more, vcardRun none events = (more, (vcardRun (some card) events).2) ∧
    (vcardRun (some card) events).1 = pending (some card) ++ more) ∨
  (vcardRun none events = ([], none) ∧ ∃ card', vcardRun (some card) events = ([], some card') ∧
    card'.poison = card.poison)

theorem Carried.cons {card' : OpenCard} (hstep : vcardStep (some card) event = ([], some card'))
    (hnone : vcardStep none event = ([], none)) (hpoison : card'.poison = card.poison)
    (h : Carried card' events) : Carried card (event :: events) := by
  have hpending : pending (some card') = pending (some card) := by
    simp [pending, OpenCard.unterminated, hpoison]
  rw [Carried, vcardRun_of_silent hstep, vcardRun_of_silent hnone, ← hpending, ← hpoison]
  exact h

theorem carried_opening (card : OpenCard) (events : List VCardEvent) :
    Carried card (.opening :: events) :=
  .inl ⟨_, rfl, rfl⟩

/-- A card that is spoiled keeps its reason. -/
theorem carried_of_spoiled (hpoison : card.poison = some problem) (events : List VCardEvent) :
    Carried card events := by
  induction events with
  | nil => exact .inr ⟨rfl, card, rfl, rfl⟩
  | cons event events ih =>
    cases event with
    | opening => exact carried_opening card events
    | ending =>
      refine .inl ⟨_, rfl, ?_⟩
      simp [vcardRun, vcardStep, pending, OpenCard.finish, OpenCard.unterminated, hpoison]
    | bad other =>
      exact ih.cons (vcardStep_bad_of_spoiled hpoison other) rfl rfl
    | property line => exact ih.cons (vcardStep_property_of_spoiled hpoison line) rfl rfl
    | nothing => exact ih.cons rfl rfl rfl

/-- A sound card is carried as long as it is not touched. -/
theorem carried_of_sound (hpoison : card.poison = none) (h : verdict events ≠ .touched) :
    Carried card events := by
  induction events generalizing card with
  | nil => exact .inr ⟨rfl, card, rfl, rfl⟩
  | cons event events ih =>
    cases event with
    | opening => exact carried_opening card events
    | ending => exact absurd rfl h
    | bad other => exact absurd rfl h
    | property line =>
      have hlonger : Carried ⟨card.lines ++ [line], none⟩ events := ih rfl h
      exact hlonger.cons (vcardStep_property_of_sound hpoison line) rfl hpoison.symm
    | nothing => exact (ih hpoison h).cons rfl rfl rfl

/-- The first record of a run with an open card. -/
theorem closeRun_spoiled (hpoison : card.poison = some problem) (events : List VCardEvent) :
    ∃ more, closeRun (vcardRun (some card) events) = .error (.damaged problem) :: more := by
  have hpending : ∀ {card : OpenCard}, card.poison = some problem →
      pending (some card) = [.error (.damaged problem)] := by
    intro card hcard
    simp [pending, OpenCard.unterminated, hcard]
  rcases carried_of_spoiled hpoison events with ⟨more, -, hout⟩ | ⟨-, card', hrun, hcard'⟩
  · rw [closeRun, hout, hpending hpoison]
    exact ⟨_, rfl⟩
  · rw [closeRun, hrun]
    exact ⟨[], hpending (hcard'.trans hpoison)⟩

/-- A sound card that is touched is no longer one without an end. -/
theorem closeRun_touched (hpoison : card.poison = none) (h : verdict events = .touched)
    (more : List VCardEvent) :
    ∃ record rest, closeRun (vcardRun (some card) (events ++ more)) = record :: rest ∧
      record ≠ .error .unterminated := by
  induction events generalizing card with
  | nil => cases h
  | cons event events ih =>
    cases event with
    | opening => cases h
    | ending =>
      refine ⟨.ok card.lines, (vcardRun none (events ++ more)).1 ++
        pending (vcardRun none (events ++ more)).2, ?_, nofun⟩
      simp [closeRun, vcardRun, vcardStep, OpenCard.finish, hpoison, pending]
    | bad problem =>
      have hspoiled : (OpenCard.mk card.lines (some problem)).poison = some problem := rfl
      obtain ⟨rest, hrest⟩ := closeRun_spoiled hspoiled (events ++ more)
      refine ⟨.error (.damaged problem), rest, ?_, nofun⟩
      rw [← hrest, List.cons_append, vcardRun_of_silent (vcardStep_bad_of_sound hpoison problem)]
    | property line =>
      have hsound : (OpenCard.mk (card.lines ++ [line]) none).poison = none := rfl
      obtain ⟨record, rest, hrun, hne⟩ := ih hsound h
      refine ⟨record, rest, ?_, hne⟩
      rw [← hrun, List.cons_append, vcardRun_of_silent (vcardStep_property_of_sound hpoison line)]
    | nothing => exact ih hpoison h

/-- The records of texts read one by one. -/
def oneByOne (texts : List (List VCardEvent)) : List Record :=
  texts.flatMap fun events => closeRun (vcardRun none events)

theorem closeRun_append (current : Option OpenCard) (events more : List VCardEvent) :
    closeRun (vcardRun current (events ++ more)) = (vcardRun current events).1 ++
      closeRun (vcardRun (vcardRun current events).2 more) := by
  rw [vcardRun_append, closeRun, closeRun, List.append_assoc]

/-- An open card that is carried: it comes first, or waits on. -/
theorem Carried.step (h : Carried card events) {rest : List (List VCardEvent)} {later : Bool}
    (ih : ∀ current, closeRun (vcardRun current rest.flatten) = pending current ++ oneByOne rest ↔
      Apart (soundOf current) rest)
    (hlater : Apart (soundOf (vcardRun (some card) events).2) rest ↔ Apart later rest) :
    closeRun (vcardRun (some card) (events :: rest).flatten) =
      pending (some card) ++ oneByOne (events :: rest) ↔ Apart later rest := by
  have hone : oneByOne (events :: rest) = closeRun (vcardRun none events) ++ oneByOne rest := rfl
  rw [List.flatten_cons, closeRun_append, ← hlater, ← ih, hone]
  rcases h with ⟨more, hnone, hout⟩ | ⟨hnone, card', hrun, hpoison⟩
  · have hclose : closeRun (vcardRun none events) =
        more ++ pending (vcardRun (some card) events).2 := by
      rw [hnone]
      rfl
    rw [hout, hclose, List.append_assoc, List.append_assoc, List.append_cancel_left_eq,
      List.append_cancel_left_eq]
  · have hpending : pending (some card') = pending (some card) := by
      simp [pending, OpenCard.unterminated, hpoison]
    rw [hnone, hrun, ← hpending]
    rfl

/-- **Texts are read as one by one exactly if sound cards that they leave open are not touched.** -/
theorem closeRun_flatten_iff (texts : List (List VCardEvent)) : ∀ current : Option OpenCard,
    closeRun (vcardRun current texts.flatten) = pending current ++ oneByOne texts ↔
      Apart (soundOf current) texts := by
  induction texts with
  | nil => exact fun current => iff_of_true (List.append_nil _).symm trivial
  | cons events rest ih =>
    intro current
    cases current with
    | none =>
      have hone : pending none ++ oneByOne (events :: rest) = (vcardRun none events).1 ++
          (pending (vcardRun none events).2 ++ oneByOne rest) := List.append_assoc _ _ _
      rw [List.flatten_cons, closeRun_append, hone, List.append_cancel_left_eq, ih, soundOf_run]
      rfl
    | some card =>
      cases hpoison : card.poison with
      | some problem =>
        have hsound : soundOf (some card) = false := by simp [soundOf, hpoison]
        rw [hsound]
        refine (carried_of_spoiled hpoison events).step ih ?_
        rw [soundOf_run, hsound]
      | none =>
        have hsound : soundOf (some card) = true := by simp [soundOf, hpoison]
        rw [hsound, Apart]
        cases hverdict : verdict events with
        | cut =>
          refine (carried_of_sound hpoison (by simp [hverdict])).step ih ?_
          rw [soundOf_run, hsound, leavesSound_of_cut hverdict]
        | passed =>
          refine (carried_of_sound hpoison (by simp [hverdict])).step ih ?_
          rw [soundOf_run, hsound, leavesSound_of_passed hverdict]
        | touched =>
          obtain ⟨record, more, hrun, hne⟩ := closeRun_touched hpoison hverdict rest.flatten
          refine iff_of_false (fun h => ?_) id
          rw [List.flatten_cons, hrun] at h
          have hpending : pending (some card) = [.error .unterminated] := by
            simp [pending, OpenCard.unterminated, hpoison]
          rw [hpending] at h
          exact hne (List.cons.inj h).1

/-! ## Lines of several texts -/

theorem joinBreaks_append_of_not_mem (h : '\r' ∉ text) (more : Runes) :
    joinBreaks (text ++ more) = text ++ joinBreaks more := by
  induction text with
  | nil => rfl
  | cons c text ih =>
    have hc : c ≠ '\r' := fun hc => h (hc ▸ List.mem_cons_self)
    rw [List.cons_append, joinBreaks, if_neg (fun hr => hc hr.1),
      ih fun hmem => h (List.mem_cons_of_mem c hmem)]
    rfl

theorem joinBreaks_append_newline (text more : Runes) :
    joinBreaks (text ++ '\n' :: more) = joinBreaks (text ++ ['\n']) ++ joinBreaks more := by
  induction text with
  | nil => rfl
  | cons c text ih =>
    have hhead : (text ++ '\n' :: more).head? = (text ++ ['\n']).head? := by
      cases text <;> rfl
    simp only [List.cons_append, joinBreaks, hhead, ih]
    split
    · rfl
    · rfl

theorem exists_joinBreaks_concat (text : Runes) :
    ∃ front, joinBreaks (text ++ ['\n']) = front ++ ['\n'] := by
  induction text with
  | nil => exact ⟨[], rfl⟩
  | cons c text ih =>
    obtain ⟨front, hfront⟩ := ih
    rw [List.cons_append, joinBreaks, hfront]
    split
    · exact ⟨front, rfl⟩
    · exact ⟨c :: front, rfl⟩

/-- The lines of a text before they are unfolded. -/
def rawLines (content : Runes) : List Runes := (joinBreaks content).splitOn '\n'

theorem rawLines_nil : rawLines [] = [[]] := rfl

theorem unfoldVCardLines_eq (content : Runes) : unfoldVCardLines lib content =
    ((rawLines content).foldl (unfoldStep lib) ([], false)).1.reverse := rfl

/-- A line break of either kind. -/
theorem joinBreaks_break {mark : Runes} (hmark : mark ∈ ["\n".toList, "\r\n".toList])
    (more : Runes) : joinBreaks (mark ++ more) = '\n' :: joinBreaks more := by
  rcases List.mem_cons.mp hmark with rfl | hmark
  · rfl
  · rw [List.mem_singleton.mp hmark]
    rfl

/-- The first and the last line of a card text are its own, whatever follows. -/
theorem CardText.rawLines_append (h : CardText text) : ∃ middle, ∀ more,
    rawLines (text ++ more) =
      "BEGIN:VCARD".toList :: (middle ++ "END:VCARD".toList :: rawLines more) := by
  obtain ⟨first, last, body, hfirst, hlast, hbody, rfl⟩ := h
  have hend : ∀ more, (joinBreaks ("END:VCARD".toList ++ (last ++ more))).splitOn '\n' =
      "END:VCARD".toList :: rawLines more := by
    intro more
    rw [joinBreaks_append_of_not_mem (by decide), joinBreaks_break hlast,
      List.splitOn_append_cons_self_of_not_mem (by decide)]
    rfl
  have hbegin : ∀ more, rawLines ("BEGIN:VCARD".toList ++ (first ++ more)) =
      "BEGIN:VCARD".toList :: (joinBreaks more).splitOn '\n' := by
    intro more
    rw [rawLines, joinBreaks_append_of_not_mem (by decide), joinBreaks_break hfirst,
      List.splitOn_append_cons_self_of_not_mem (by decide)]
  rcases hbody with rfl | hbody
  · refine ⟨[], fun more => ?_⟩
    simp only [List.append_assoc, hbegin, List.nil_append, hend]
  · obtain ⟨front, rfl⟩ := List.getLast?_eq_some_iff.mp hbody
    obtain ⟨joined, hjoined⟩ := exists_joinBreaks_concat front
    refine ⟨joined.splitOn '\n', fun more => ?_⟩
    have hmiddle : ∀ after, (joinBreaks (front ++ ['\n'] ++ after)).splitOn '\n' =
        joined.splitOn '\n' ++ (joinBreaks after).splitOn '\n' := by
      intro after
      rw [List.append_assoc, List.singleton_append, joinBreaks_append_newline, hjoined,
        List.append_assoc]
      exact List.splitOn_append_cons_self joined _
    simp only [List.append_assoc, hbegin]
    rw [← List.append_assoc front, hmiddle, hend]

/-- The lines that are done are not touched as long as there is a line of one's own. -/
theorem unfoldStep_frame (h : lines ≠ []) (before : List Runes) (soft : Bool) (raw : Runes) :
    (unfoldStep lib (lines, soft) raw).1 ≠ [] ∧ unfoldStep lib (lines ++ before, soft) raw =
      ((unfoldStep lib (lines, soft) raw).1 ++ before, (unfoldStep lib (lines, soft) raw).2) := by
  obtain ⟨last, lines, rfl⟩ := List.exists_cons_of_ne_nil h
  simp only [unfoldStep, List.cons_append]
  split
  · exact ⟨nofun, rfl⟩
  · cases soft with
    | true => exact ⟨nofun, rfl⟩
    | false =>
      dsimp only
      split
      · exact ⟨nofun, rfl⟩
      · exact ⟨nofun, rfl⟩

theorem foldl_unfoldStep_frame (raws : List Runes) (h : lines ≠ []) (before : List Runes)
    (soft : Bool) :
    raws.foldl (unfoldStep lib) (lines ++ before, soft) =
      ((raws.foldl (unfoldStep lib) (lines, soft)).1 ++ before,
        (raws.foldl (unfoldStep lib) (lines, soft)).2) := by
  induction raws generalizing lines soft with
  | nil => rfl
  | cons raw raws ih =>
    obtain ⟨hne, hstep⟩ := unfoldStep_frame lib h before soft raw
    rw [List.foldl_cons, List.foldl_cons, hstep, ih hne]

/-- A line that is neither folded nor blank is one of its own if no soft break is before. -/
theorem unfoldStep_fresh (hfolded : folded raw = false) (htrim : trim raw ≠ [])
    (hright : raw.rdropWhile (· == '\r') = raw)
    (hsoft : (isQuotedPrintableVCardLine lib raw && raw.getLast? == some '=') = false)
    (before : List Runes) : unfoldStep lib (before, false) raw = (raw :: before, false) := by
  simp only [unfoldStep, hfolded, htrim, hright, hsoft, Bool.false_eq_true, if_false]

/-- There is no soft break behind a line that does not end with one. -/
theorem unfoldStep_hard {last : Char} (hfolded : folded raw = false) (htrim : trim raw ≠ [])
    (hright : raw.rdropWhile (· == '\r') = raw) (hlast : raw.getLast? = some last)
    (hne : last ≠ '=') (state : List Runes × Bool) : (unfoldStep lib state raw).2 = false := by
  obtain ⟨lines, soft⟩ := state
  cases lines with
  | nil => simp [unfoldStep, hfolded, htrim, hright, hlast, hne]
  | cons line before =>
    cases soft with
    | true => simp [unfoldStep, hfolded, List.getLast?_append, hlast, hne]
    | false => simp [unfoldStep, hfolded, htrim, hright, hlast, hne]

theorem unfoldStep_begin (before : List Runes) :
    unfoldStep lib (before, false) "BEGIN:VCARD".toList =
      ("BEGIN:VCARD".toList :: before, false) := by
  have hlast : ("BEGIN:VCARD".toList.getLast? == some '=') = false := by decide
  exact unfoldStep_fresh lib (by decide) (by decide) (by decide) (by rw [hlast, Bool.and_false])
    before

theorem unfoldStep_end (state : List Runes × Bool) :
    (unfoldStep lib state "END:VCARD".toList).2 = false := by
  have hlast : "END:VCARD".toList.getLast? = some 'D' := by decide
  exact unfoldStep_hard lib (by decide) (by decide) (by decide) hlast (by decide) state

theorem unfoldStep_blank (before : List Runes) : unfoldStep lib (before, false) [] =
    (before, false) := by
  have htrim : trim [] = [] := rfl
  simp [unfoldStep, folded, htrim]

/-- A card text adds lines of its own and leaves no soft break. -/
theorem CardText.unfold (h : CardText text) : ∀ before more,
    (rawLines (text ++ more)).foldl (unfoldStep lib) (before, false) =
      (rawLines more).foldl (unfoldStep lib)
        ((unfoldVCardLines lib text).reverse ++ before, false) := by
  obtain ⟨middle, hraw⟩ := h.rawLines_append
  obtain ⟨own, hown⟩ : ∃ own, ∀ before,
      (middle ++ ["END:VCARD".toList]).foldl (unfoldStep lib)
        ("BEGIN:VCARD".toList :: before, false) = (own ++ before, false) := by
    refine ⟨((middle ++ ["END:VCARD".toList]).foldl (unfoldStep lib)
      (["BEGIN:VCARD".toList], false)).1, fun before => ?_⟩
    have hframe := foldl_unfoldStep_frame lib (middle ++ ["END:VCARD".toList])
      (List.cons_ne_nil "BEGIN:VCARD".toList []) before false
    rw [List.singleton_append] at hframe
    rw [hframe]
    congr 1
    rw [List.foldl_append]
    exact unfoldStep_end lib _
  have hall : ∀ before more, (rawLines (text ++ more)).foldl (unfoldStep lib) (before, false) =
      (rawLines more).foldl (unfoldStep lib) (own ++ before, false) := by
    intro before more
    rw [hraw, List.foldl_cons, unfoldStep_begin, List.append_cons, List.foldl_append, hown]
  have htext : unfoldVCardLines lib text = own.reverse := by
    have hnil := hall [] []
    rw [List.append_nil, List.append_nil, rawLines_nil, List.foldl_cons, unfoldStep_blank] at hnil
    rw [unfoldVCardLines_eq, hnil]
    rfl
  intro before more
  rw [hall, htext, List.reverse_reverse]

theorem foldl_unfoldStep_flatten (h : ∀ text ∈ texts, CardText text) (before : List Runes) :
    (rawLines texts.flatten).foldl (unfoldStep lib) (before, false) =
      ((texts.flatMap (unfoldVCardLines lib)).reverse ++ before, false) := by
  induction texts generalizing before with
  | nil => exact unfoldStep_blank lib before
  | cons text rest ih =>
    rw [List.flatten_cons, (h text List.mem_cons_self).unfold,
      ih fun text htext => h text (List.mem_cons_of_mem _ htext), List.flatMap_cons,
      List.reverse_append, List.append_assoc]

/-- **Card texts have the lines they have one by one.** -/
theorem textEvents_flatten (h : ∀ text ∈ texts, CardText text) :
    textEvents lib texts.flatten = (texts.map (textEvents lib)).flatten := by
  have hlines : unfoldVCardLines lib texts.flatten = texts.flatMap (unfoldVCardLines lib) := by
    rw [unfoldVCardLines_eq, foldl_unfoldStep_flatten lib h, List.append_nil,
      List.reverse_reverse]
  rw [textEvents, hlines, List.map_flatMap]
  rfl

/-! ## Pieces -/

/-- No piece has the separator in it. -/
theorem not_mem_of_mem_splitOn {sep : Char} (h : piece ∈ text.splitOn sep) : sep ∉ piece := by
  induction text generalizing piece with
  | nil =>
    rw [List.splitOn_nil, List.mem_singleton] at h
    rw [h]
    exact List.not_mem_nil
  | cons c text ih =>
    rw [List.splitOn_cons_eq_if_modifyHead] at h
    split at h
    · rcases List.mem_cons.mp h with rfl | h
      · exact List.not_mem_nil
      · exact ih h
    · rename_i hc
      obtain ⟨first, rest, hsplit⟩ :=
        List.exists_cons_of_ne_nil (List.splitOn_ne_nil sep text)
      rw [hsplit] at h ih
      rcases List.mem_cons.mp h with rfl | h
      · have hfirst := ih List.mem_cons_self
        simp only [List.mem_cons, not_or]
        exact ⟨fun heq => hc (beq_iff_eq.mpr heq.symm), hfirst⟩
      · exact ih (List.mem_cons_of_mem first h)

/-- A piece is made of what the text is made of. -/
theorem mem_of_mem_splitOn {sep c : Char} (h : piece ∈ text.splitOn sep) (hc : c ∈ piece) :
    c ∈ text := by
  induction text generalizing piece with
  | nil =>
    rw [List.splitOn_nil, List.mem_singleton] at h
    rw [h] at hc
    cases hc
  | cons d text ih =>
    rw [List.splitOn_cons_eq_if_modifyHead] at h
    split at h
    · rcases List.mem_cons.mp h with rfl | h
      · cases hc
      · exact List.mem_cons_of_mem d (ih h hc)
    · obtain ⟨first, rest, hsplit⟩ := List.exists_cons_of_ne_nil (List.splitOn_ne_nil sep text)
      rw [hsplit] at h ih
      rcases List.mem_cons.mp h with rfl | h
      · rcases List.mem_cons.mp hc with rfl | hc
        · exact List.mem_cons_self
        · exact List.mem_cons_of_mem d (ih List.mem_cons_self hc)
      · exact List.mem_cons_of_mem d (ih (List.mem_cons_of_mem first h) hc)

theorem intercalate_ne_nil (sep : Runes) {word : Runes} (h : word ≠ []) (rest : List Runes) :
    sep.intercalate (word :: rest) ≠ [] := by
  cases rest with
  | nil => simpa using h
  | cons next rest => simp [List.intercalate_cons_cons, h]

/-- What is joined has no space at its ends if its pieces have none. -/
theorem trimmed_intercalate (sep : Runes) {words : List Runes}
    (h : ∀ word ∈ words, word ≠ [] ∧ Trimmed word) : Trimmed (sep.intercalate words) := by
  induction words with
  | nil => exact ⟨nofun, nofun⟩
  | cons word rest ih =>
    obtain ⟨hne, hword⟩ := h word List.mem_cons_self
    cases rest with
    | nil => simpa using hword
    | cons next rest =>
      have hnext := intercalate_ne_nil sep (h next (by simp)).1 rest
      obtain ⟨-, hlast⟩ := ih fun word hmem => h word (List.mem_cons_of_mem _ hmem)
      rw [List.intercalate_cons_cons, List.append_assoc]
      constructor
      · intro c hc
        rw [List.head?_append_of_ne_nil _ hne] at hc
        exact hword.1 c hc
      · intro c hc
        rw [← List.append_assoc, List.getLast?_append_of_ne_nil _ hnext] at hc
        exact hlast c hc

/-! ## Records -/

theorem rejectionsFrom_append (index : Nat) (records more : List Record) :
    rejectionsFrom index (records ++ more) =
      rejectionsFrom index records ++ rejectionsFrom (index + records.length) more := by
  induction records generalizing index with
  | nil => rfl
  | cons record records ih =>
    have hlength : index + 1 + records.length = index + (records.length + 1) := by omega
    cases record with
    | ok lines => rw [List.cons_append, rejectionsFrom, rejectionsFrom, ih, hlength,
        List.length_cons]
    | error reason => rw [List.cons_append, rejectionsFrom, rejectionsFrom, ih, hlength,
        List.length_cons, List.cons_append]

theorem rejectionsFrom_shift (shift index : Nat) (records : List Record) :
    (rejectionsFrom index records).map
      (fun rejection => { rejection with index := shift + rejection.index }) =
      rejectionsFrom (shift + index) records := by
  induction records generalizing index with
  | nil => rfl
  | cons record records ih =>
    cases record with
    | ok lines => exact ih (index + 1)
    | error reason =>
      rw [rejectionsFrom, List.map_cons, ih]
      rfl

theorem length_cardsOf_add (index : Nat) (records : List Record) :
    (cardsOf lib records).length + (rejectionsFrom index records).length = records.length := by
  induction records generalizing index with
  | nil => rfl
  | cons record records ih =>
    have hrest := ih (index + 1)
    cases record with
    | ok lines =>
      change ((cardsOf lib records).length + 1) + _ = records.length + 1
      rw [rejectionsFrom]
      omega
    | error reason =>
      change (cardsOf lib records).length + ((rejectionsFrom (index + 1) records).length + 1) =
        records.length + 1
      omega

theorem le_index_of_mem {rejection : RecordRejection}
    (h : rejection ∈ rejectionsFrom index records) : index ≤ rejection.index := by
  induction records generalizing index with
  | nil => cases h
  | cons record records ih =>
    cases record with
    | ok lines => exact Nat.le_of_succ_le (ih h)
    | error reason =>
      rcases List.mem_cons.mp h with rfl | hrest
      · exact Nat.le_refl index
      · exact Nat.le_of_succ_le (ih hrest)

/-- A rejection is not where a card is. -/
theorem rejectionsFrom_ne {lines : List VCardLine} {reason : Reason} :
    rejectionsFrom index (.ok lines :: records) ≠ rejectionsFrom index (.error reason :: more) := by
  intro h
  have hmem : RecordRejection.mk index reason ∈ rejectionsFrom (index + 1) records := by
    rw [rejectionsFrom, rejectionsFrom] at h
    rw [h]
    exact List.mem_cons_self
  exact Nat.lt_irrefl index (le_index_of_mem hmem)

/-- **The cards and the rejections with their indices determine the records.** -/
theorem records_eq (hcards : cardsOf lib records = cardsOf lib more)
    (hrejections : rejectionsFrom index records = rejectionsFrom index more) : records = more := by
  have hlength : records.length = more.length := by
    rw [← length_cardsOf_add lib index records, ← length_cardsOf_add lib index more, hcards,
      hrejections]
  induction records generalizing more index with
  | nil => exact (List.length_eq_zero_iff.mp hlength.symm).symm
  | cons record records ih =>
    obtain ⟨record', more, rfl⟩ := List.exists_cons_of_length_eq_add_one hlength.symm
    have hlength' : records.length = more.length := Nat.succ.inj hlength
    cases record with
    | ok lines =>
      cases record' with
      | error reason => exact absurd hrejections rejectionsFrom_ne
      | ok lines' =>
        obtain ⟨hcard, hrest⟩ := List.cons.inj hcards
        have hlines : lines = lines' := congrArg VCard.lines hcard
        rw [hlines, ih hrest hrejections hlength']
    | error reason =>
      cases record' with
      | ok lines => exact absurd hrejections.symm rejectionsFrom_ne
      | error reason' =>
        obtain ⟨hrejection, hrest⟩ := List.cons.inj hrejections
        have hreason : reason = reason' := congrArg RecordRejection.reason hrejection
        have hcards' : cardsOf lib records = cardsOf lib more := hcards
        rw [hreason, ih hcards' hrest hlength']

theorem shiftedRejections_eq (shift : Nat) (texts : List Runes) :
    shiftedRejections lib shift texts =
      rejectionsFrom (shift + 1) (texts.flatMap (vcardRecords lib)) := by
  induction texts generalizing shift with
  | nil => rfl
  | cons text rest ih =>
    have hlength : shift + (cardsOf lib (vcardRecords lib text)).length +
        (rejectionsFrom 1 (vcardRecords lib text)).length + 1 =
        shift + 1 + (vcardRecords lib text).length := by
      have hsum := length_cardsOf_add lib 1 (vcardRecords lib text)
      omega
    rw [shiftedRejections, List.flatMap_cons, rejectionsFrom_append, ih]
    simp only [parseVCards]
    rw [rejectionsFrom_shift, hlength]

theorem isolated_iff_records (texts : List Runes) : Isolated lib texts ↔
    vcardRecords lib texts.flatten = texts.flatMap (vcardRecords lib) := by
  have hcards : (texts.flatMap fun text => (parseVCards lib text).1) =
      cardsOf lib (texts.flatMap (vcardRecords lib)) :=
    List.filterMap_flatMap.symm
  rw [Isolated, hcards, shiftedRejections_eq, parseVCards, Prod.mk.injEq]
  constructor
  · rintro ⟨hsame, hrejections⟩
    exact records_eq lib hsame hrejections
  · intro h
    rw [h]
    exact ⟨rfl, rfl⟩

/-- **Texts are read together as one by one exactly if no sound card that a text leaves open is
ended or spoiled by a later text before a card begins there.** -/
theorem vcard_isolated_iff (texts : List Runes) (h : ∀ text ∈ texts, CardText text) :
    Isolated lib texts ↔ Apart false (texts.map (textEvents lib)) := by
  have hone : oneByOne (texts.map (textEvents lib)) = texts.flatMap (vcardRecords lib) :=
    List.flatMap_map _ _ _
  rw [isolated_iff_records, ← hone, vcardRecords, textEvents_flatten lib h]
  exact closeRun_flatten_iff (texts.map (textEvents lib)) none

/-- Texts that begin with a card leave no card of another text open. -/
theorem apart_of_cut {texts : List (List VCardEvent)} (h : ∀ events ∈ texts, verdict events = .cut)
    (sound : Bool) : Apart sound texts := by
  induction texts generalizing sound with
  | nil => exact trivial
  | cons events rest ih =>
    have hrest : ∀ sound, Apart sound rest :=
      ih fun events hmem => h events (List.mem_cons_of_mem _ hmem)
    cases sound with
    | false => exact hrest _
    | true =>
      rw [Apart, h events List.mem_cons_self]
      exact hrest _

/-- Case folding of plain letters; no text is encoded. -/
def plain : VCardLibrary where
  toUpper := List.map Char.toUpper
  toLower := List.map Char.toLower
  equalFold := fun a b => a.map Char.toLower == b.map Char.toLower
  quotedPrintable := some
  sha := id

/-- A card whose `END:VCARD` line is behind a soft break. -/
def softCard : Runes :=
  "BEGIN:VCARD\nNOTE;ENCODING=QUOTED-PRINTABLE:a=\nEND:VCARD\n".toList

/-- A card whose `BEGIN:VCARD` line is folded. -/
def foldedCard : Runes := "BEGIN:VCARD\n X\nFN:Bob\nEND:VCARD\n".toList

/-- A card as it should be. -/
def bobCard : Runes := "BEGIN:VCARD\nFN:Bob\nEND:VCARD\n".toList

theorem softCard_cardText : CardText softCard :=
  ⟨"\n".toList, "\n".toList, "NOTE;ENCODING=QUOTED-PRINTABLE:a=\n".toList, by decide, by decide,
    by decide, by decide +kernel⟩

theorem soft_card_isolated : (∀ text ∈ [softCard, bobCard], CardText text) ∧
    Isolated plain [softCard, bobCard] := by
  have htexts : ∀ text ∈ [softCard, bobCard], CardText text := by
    have hbob : CardText bobCard :=
      ⟨"\n".toList, "\n".toList, "FN:Bob\n".toList, by decide, by decide, by decide,
        by decide +kernel⟩
    simpa using ⟨softCard_cardText, hbob⟩
  refine ⟨htexts, (vcard_isolated_iff plain _ htexts).mpr (apart_of_cut ?_ false)⟩
  decide +kernel

/-- The two cards are read as one, with the note of the first and the name of the second. -/
theorem folded_card_not_isolated : (∀ text ∈ [softCard, foldedCard], CardText text) ∧
    ¬ Isolated plain [softCard, foldedCard] := by
  constructor
  · have hfolded : CardText foldedCard :=
      ⟨"\n".toList, "\n".toList, " X\nFN:Bob\n".toList, by decide, by decide, by decide,
        by decide +kernel⟩
    simpa using ⟨softCard_cardText, hfolded⟩
  · intro h
    have hcards : (parseVCards plain [softCard, foldedCard].flatten).1.length =
        ([softCard, foldedCard].flatMap fun text => (parseVCards plain text).1).length := by
      rw [h]
    revert hcards
    decide +kernel

end Gmeow.VCards
