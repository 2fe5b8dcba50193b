import Gmeow.OrdMap
import Gmeow.Runes

/-!
# The facts of contacts

`contactentity` projects RDF statements to flat facts about contacts: a statement of a contact, or
of an address, place or name node a contact links, becomes a fact if its predicate is known, and the
text of a nickname part becomes an alias of the contact that bears the name.

* `factKind`, `factValue` — what a statement says about a contact;
* `suppressedNameNodes`, `locationNodeOwners` — the nodes whose facts are withheld or flattened;
* `factsForContacts` — the projection;
* `shared_served_iff` — the literals of a node serve every contact that links it, in every order,
  exactly if each node with such literals is linked by one contact;
* `facts_shown` — nothing is projected from a suppressed name.
-/

namespace Gmeow.ContactEntity

open Runes

/-! ## What is used of the standard library -/

/-- `unicode.ToLower` and `mail.ParseAddress`. -/
structure StandardLibrary : Type where
  /-- `unicode.ToLower` -/
  lower : Char → Char
  /-- the address that `mail.ParseAddress` finds, unless it fails -/
  parseAddress : Runes → Option Runes

/-- A library that knows bare addresses only. -/
def plainLibrary : StandardLibrary where
  lower := Char.toLower
  parseAddress address := if '@' ∈ address then some address else none

/-- The text without its first bytes; they end with a rune. -/
def dropBytes : Nat → Runes → Runes
  | 0, s => s
  | _ + 1, [] => []
  | n + 1, c :: s => dropBytes (n + 1 - c.utf8Size) s

/-- What stands before and behind the last `c`. -/
def cutLast (c : Char) (s : Runes) : Option (Runes × Runes) :=
  (cutRune c s.reverse).map fun (behind, before) => (before.reverse, behind.reverse)

/-- `strings.EqualFold(s, "false")`; the long s folds to `s`. -/
def equalFoldFalse (s : Runes) : Bool :=
  decide (s.length = 5) &&
    (s.zip [['f', 'F'], ['a', 'A'], ['l', 'L'], ['s', 'S', 'ſ'], ['e', 'E']]).all
      fun (c, folds) => folds.contains c

/-! ## Statements and facts -/

/-- `ObjectKind`. -/
inductive ObjectKind : Type where
  | iri : ObjectKind
  | literal : ObjectKind
  /-- any other text -/
  | other : ObjectKind
  deriving DecidableEq

/-- `contactentity.Statement`. -/
structure Statement : Type where
  sourceDigest : Runes := []
  statementHash : Runes := []
  subject : Runes
  predicate : Runes
  object : Runes
  objectKind : ObjectKind := .iri
  deriving DecidableEq

/-- `contactentity.Annotation`. -/
structure AnnotationRow : Type where
  sourceDigest : Runes
  statementHash : Runes
  predicate : Runes
  object : Runes

/-- The `FactKind` constants. -/
inductive FactKind : Type where
  | affiliation : FactKind
  /-- `alias` -/
  | plainAlias : FactKind
  | address : FactKind
  | coordinates : FactKind
  | timezone : FactKind
  | account : FactKind
  | contactAlias : FactKind
  | email : FactKind
  | identifier : FactKind
  | importance : FactKind
  | name : FactKind
  | note : FactKind
  | phone : FactKind
  | relationship : FactKind
  | title : FactKind
  | url : FactKind
  deriving DecidableEq

/-- `contactentity.Fact`. -/
structure Fact : Type where
  sourceDigest : Runes
  statementHash : Runes
  contactID : Runes
  factKind : FactKind
  value : Runes
  predicate : Runes
  validFrom : Runes := []
  validUntil : Runes := []
  historical : Bool := false
  deriving DecidableEq

/-! ## Kinds -/

/-- `gmeowPrefix` in front of a name. -/
def gmeow (name : String) : Runes := ("https://blackcatinformatics.ca/gmeow/" ++ name).toList

/-- A `switch` over predicates. -/
def tableKind (table : List (String × FactKind)) (predicate : Runes) : Option FactKind :=
  table.lookup (String.ofList predicate)

/-- `relationshipContactFactKind`. -/
def relationshipContactFactKind : Runes → Option FactKind :=
  tableKind [("http://purl.org/vocab/relationship/childOf", .relationship),
    ("http://purl.org/vocab/relationship/parentOf", .relationship),
    ("http://purl.org/vocab/relationship/spouseOf", .relationship),
    ("https://blackcatinformatics.ca/gmeow/hasAgreement", .relationship),
    ("https://blackcatinformatics.ca/gmeow/hasMet", .relationship),
    ("https://blackcatinformatics.ca/gmeow/hasUsed", .relationship),
    ("https://blackcatinformatics.ca/gmeow/hasWorkedWith", .relationship)]

/-- `owlContactFactKind`. -/
def owlContactFactKind : Runes → Option FactKind :=
  tableKind [("http://www.w3.org/2002/07/owl#sameAs", .identifier),
    ("http://www.w3.org/2004/02/skos/core#exactMatch", .identifier)]

/-- `vcardContactFactKind`. -/
def vcardContactFactKind : Runes → Option FactKind :=
  tableKind [("http://www.w3.org/2006/vcard/ns#fn", .name),
    ("http://www.w3.org/2006/vcard/ns#hasAddress", .address),
    ("http://www.w3.org/2006/vcard/ns#hasEmail", .email),
    ("http://www.w3.org/2006/vcard/ns#hasTelephone", .phone),
    ("http://www.w3.org/2006/vcard/ns#hasURL", .url),
    ("http://www.w3.org/2006/vcard/ns#note", .note),
    ("http://www.w3.org/2006/vcard/ns#nickname", .plainAlias)]

/-- `orgContactFactKind`. -/
def orgContactFactKind : Runes → Option FactKind :=
  tableKind [("http://www.w3.org/ns/org#member", .affiliation)]

/-- `foafContactFactKind`. -/
def foafContactFactKind : Runes → Option FactKind :=
  tableKind [("http://xmlns.com/foaf/0.1/account", .account),
    ("http://xmlns.com/foaf/0.1/homepage", .url),
    ("http://xmlns.com/foaf/0.1/knows", .relationship),
    ("http://xmlns.com/foaf/0.1/mbox", .email),
    ("http://xmlns.com/foaf/0.1/name", .name),
    ("http://xmlns.com/foaf/0.1/nick", .plainAlias),
    ("http://xmlns.com/foaf/0.1/phone", .phone),
    ("http://xmlns.com/foaf/0.1/title", .title)]

/-- `gmeowContactFactKind` without the mark of historical facts. -/
def gmeowContactFactKind : Runes → Option FactKind :=
  tableKind [("https://blackcatinformatics.ca/gmeow/contactAlias", .contactAlias),
    ("https://blackcatinformatics.ca/gmeow/importanceLevel", .importance),
    ("https://blackcatinformatics.ca/gmeow/emailIdentity", .email),
    ("https://blackcatinformatics.ca/gmeow/historicalEmail", .email),
    ("https://blackcatinformatics.ca/gmeow/fullName", .name),
    ("https://blackcatinformatics.ca/gmeow/streetAddress", .address),
    ("https://blackcatinformatics.ca/gmeow/extendedAddress", .address),
    ("https://blackcatinformatics.ca/gmeow/postOfficeBox", .address),
    ("https://blackcatinformatics.ca/gmeow/addressLocality", .address),
    ("https://blackcatinformatics.ca/gmeow/addressRegion", .address),
    ("https://blackcatinformatics.ca/gmeow/postalCode", .address),
    ("https://blackcatinformatics.ca/gmeow/countryCode", .address),
    ("https://blackcatinformatics.ca/gmeow/latitude", .coordinates),
    ("https://blackcatinformatics.ca/gmeow/longitude", .coordinates),
    ("https://blackcatinformatics.ca/gmeow/timezone", .timezone)]

/-- The facts that `gmeowContactFactKind` marks as historical. -/
def historicalPredicate (predicate : Runes) : Bool := predicate = gmeow "historicalEmail"

/-- `canonicalSchemaIRI`. -/
def canonicalSchemaIRI (value : Runes) : Runes :=
  let value := trim value
  if "http://schema.org/".toList.isPrefixOf value then
    "https://schema.org/".toList ++ value.drop "http://schema.org/".length
  else value

/-- `schemaContactFactKind`; the early and the late table are one. -/
def schemaContactFactKind (predicate : Runes) : Option FactKind :=
  tableKind [("https://schema.org/address", .address),
    ("https://schema.org/affiliation", .affiliation),
    ("https://schema.org/alternateName", .plainAlias),
    ("https://schema.org/email", .email),
    ("https://schema.org/identifier", .identifier),
    ("https://schema.org/description", .note),
    ("https://schema.org/jobTitle", .title),
    ("https://schema.org/knows", .relationship),
    ("https://schema.org/memberOf", .affiliation),
    ("https://schema.org/name", .name),
    ("https://schema.org/sameAs", .identifier),
    ("https://schema.org/telephone", .phone),
    ("https://schema.org/url", .url),
    ("https://schema.org/worksFor", .affiliation)] (canonicalSchemaIRI predicate)

/-- `FactKind`, with the mark of historical facts. -/
def factKind (predicate : Runes) : Option (FactKind × Bool) :=
  ((((((relationshipContactFactKind predicate).or (owlContactFactKind predicate)).or
    (vcardContactFactKind predicate)).or (orgContactFactKind predicate)).or
    (foafContactFactKind predicate)).or (gmeowContactFactKind predicate)).or
    (schemaContactFactKind predicate) |>.map fun kind => (kind, historicalPredicate predicate)

/-! ## Values -/

section Values

variable (lib : StandardLibrary)

/-- `strings.ToLower`. -/
def toLower (s : Runes) : Runes := s.map lib.lower

/-- The loop of `trimMailtoPrefix`, which takes at least one rune each time round. -/
def trimMailtoLoop : Nat → Runes → Runes
  | 0, value => value
  | fuel + 1, value =>
    if "mailto:".toList.isPrefixOf (toLower lib value) then
      trimMailtoLoop fuel (trim (dropBytes "mailto:".length value))
    else value

/-- `trimMailtoPrefix`. -/
def trimMailtoPrefix (value : Runes) : Runes :=
  trimMailtoLoop lib (trim value).length (trim value)

/-- `trimMailtoAddressPrefix`. -/
def trimMailtoAddressPrefix (value : Runes) : Runes :=
  let value := trim value
  match cutLast '<' value with
  | none => trimMailtoPrefix lib value
  | some (before, address) =>
    if trimMailtoPrefix lib address = address then value
    else before ++ '<' :: trimMailtoPrefix lib address

/-- `NormalizeIdentity`. -/
def normalizeIdentity (value : Runes) : Runes :=
  let value := trimMailtoAddressPrefix lib value
  toLower lib (trim (trimMailtoPrefix lib ((lib.parseAddress value).getD value)))

/-- `NormalizeEmail`. -/
def normalizeEmail (value : Runes) : Runes :=
  let normalized := normalizeIdentity lib value
  match cutLast '@' normalized with
  | none => []
  | some (user, domain) =>
    if user = [] ∨ domain = [] then []
    else if ".i.blackcat.ca".toList.isSuffixOf domain then [] else normalized

/-- The loop of `NormalizeAlias`; `builder` is turned round. -/
def aliasLoop : Runes → Runes → Bool → Runes
  | [], builder, _ => builder.reverse
  | c :: rest, builder, previousSeparator =>
    if ('a' ≤ c ∧ c ≤ 'z') ∨ ('0' ≤ c ∧ c ≤ '9') then aliasLoop rest (c :: builder) false
    else if (c = '-' ∨ c = '_' ∨ c = '.' ∨ c = ' ') ∧ builder ≠ [] ∧ previousSeparator = false then
      aliasLoop rest ('-' :: builder) true
    else aliasLoop rest builder previousSeparator

/-- `NormalizeAlias`. -/
def normalizeAlias (value : Runes) : Runes :=
  trimOf ['-'] (aliasLoop (toLower lib (trim value)) [] false)

/-- `FactValue`, which does not look at the kind of the object. -/
def factValue (value : Runes) : FactKind → Runes
  | .email => normalizeEmail lib value
  | .contactAlias => normalizeAlias lib value
  | _ => trim value

end Values

/-! ## Nodes -/

/-- `suppressedNameNodes`. -/
def suppressedNameNodes (statements : List Statement) (node : Runes) : Bool :=
  statements.any fun statement => statement.predicate == gmeow "displayable" &&
    equalFoldFalse (trim statement.object) && statement.subject == node

/-- An IRI of an address, place or name node. -/
def subNode (node : Runes) : Bool :=
  "urn:gmeow:addr:".toList.isPrefixOf node || "urn:gmeow:place:".toList.isPrefixOf node ||
    "urn:gmeow:name:".toList.isPrefixOf node

/-- The contact a statement makes the owner of a node. -/
def ownerEntry (contacts : Runes → Bool) (statement : Statement) : Option (Runes × Runes) :=
  if contacts statement.subject ∧ statement.objectKind = .iri ∧ subNode statement.object then
    some (statement.object, statement.subject)
  else none

/-- `locationNodeOwners`. -/
def locationNodeOwners (statements : List Statement) (contacts : Runes → Bool) :
    OrdMap Runes Runes :=
  OrdMap.collect (ownerEntry contacts) statements

/-! ## Nicknames -/

/-- `partLit`. -/
structure PartLit : Type where
  text : Runes
  digest : Runes
  hash : Runes
  deriving DecidableEq

/-- The text a statement gives a name part. -/
def textEntry (statement : Statement) : Option (Runes × PartLit) :=
  if statement.predicate = gmeow "partText" then
    some (statement.subject, ⟨statement.object, statement.sourceDigest, statement.statementHash⟩)
  else none

/-- `partText`. -/
def partText (statements : List Statement) : OrdMap Runes PartLit :=
  OrdMap.collect textEntry statements

/-- `applyTemporalAnnotation`. -/
def applyTemporalAnnotation (fact : Fact) (note : AnnotationRow) : Fact :=
  if "hasBeginning".toList.isSuffixOf note.predicate ∨
      "validFrom".toList.isSuffixOf note.predicate then { fact with validFrom := note.object }
  else if "hasEnd".toList.isSuffixOf note.predicate ∨
      "validUntil".toList.isSuffixOf note.predicate then { fact with validUntil := note.object }
  else fact

/-- The annotations of a statement. -/
def annotationsOf (notes : List AnnotationRow) (statement : Statement) : List AnnotationRow :=
  notes.filter fun note => note.sourceDigest == statement.sourceDigest &&
    note.statementHash == statement.statementHash

/-- The contact a statement is about. -/
def contactOf (statements : List Statement) (contacts : Runes → Bool) (statement : Statement) :
    Option Runes :=
  if contacts statement.subject then some statement.subject
  else (locationNodeOwners statements contacts).get statement.subject

/-- The fact of a statement, before its annotations. -/
def statementFact (lib : StandardLibrary) (statements : List Statement) (contacts : Runes → Bool)
    (statement : Statement) : Option Fact :=
  match contactOf statements contacts statement, factKind statement.predicate with
  | some contactID, some (kind, historical) =>
    let value := factValue lib statement.object kind
    if suppressedNameNodes statements statement.subject ∨ trim value = [] then none
    else some {
      sourceDigest := statement.sourceDigest
      statementHash := statement.statementHash
      contactID := contactID
      factKind := kind
      value := value
      predicate := statement.predicate
      historical := historical }
  | _, _ => none

/-- The facts that the loop of `FactsForContacts` appends for a statement. -/
def factsOf (lib : StandardLibrary) (statements : List Statement) (notes : List AnnotationRow)
    (contacts : Runes → Bool) (statement : Statement) : List Fact :=
  (statementFact lib statements contacts statement).toList.map fun fact =>
    (annotationsOf notes statement).foldl applyTemporalAnnotation fact

/-- A contact links an address, place or name node. -/
def Links (statements : List Statement) (contacts : Runes → Bool) (contact node : Runes) : Prop :=
  ∃ statement ∈ statements, ownerEntry contacts statement = some (node, contact)

/-- A literal that has a fact to tell, on a node that is not suppressed. -/
structure Bears (lib : StandardLibrary) (statements : List Statement) (statement : Statement) :
    Prop where
  mem : statement ∈ statements
  literal : statement.objectKind = .literal
  shown : suppressedNameNodes statements statement.subject = false
  fact : ∃ kind historical, factKind statement.predicate = some (kind, historical) ∧
    trim (factValue lib statement.object kind) ≠ []

/-- **Each literal of a node yields a fact for every contact that links the node.** -/
def Served (lib : StandardLibrary) (statements : List Statement) (notes : List AnnotationRow)
    (contacts : Runes → Bool) : Prop :=
  ∀ statement, Bears lib statements statement → ∀ contact,
    Links statements contacts contact statement.subject →
      ∃ fact ∈ factsOf lib statements notes contacts statement, fact.contactID = contact

/-- Nodes with literals are linked by one contact, and a contact by itself only. -/
def OneOwner (lib : StandardLibrary) (statements : List Statement) (contacts : Runes → Bool) :
    Prop :=
  ∀ statement, Bears lib statements statement → ∀ contact other,
    Links statements contacts contact statement.subject →
      Links statements contacts other statement.subject →
        contact = other ∧ (contacts statement.subject = true → contact = statement.subject)

section Sharing

variable {lib : StandardLibrary} {statements : List Statement} {notes : List AnnotationRow}
  {contacts : Runes → Bool} {statement : Statement}

/-- Annotations say when a fact holds, and nothing else. -/
theorem annotated_eq (notes : List AnnotationRow) (fact : Fact) : ∃ validFrom validUntil,
    notes.foldl applyTemporalAnnotation fact =
      { fact with validFrom := validFrom, validUntil := validUntil } := by
  induction notes generalizing fact with
  | nil => exact ⟨_, _, rfl⟩
  | cons note notes ih =>
    obtain ⟨validFrom, validUntil, heq⟩ := ih <| applyTemporalAnnotation fact note
    refine ⟨validFrom, validUntil, ?_⟩
    rw [List.foldl_cons, heq, applyTemporalAnnotation]
    split
    · rfl
    · split <;> rfl

theorem annotated_contactID (notes : List AnnotationRow) (fact : Fact) :
    (notes.foldl applyTemporalAnnotation fact).contactID = fact.contactID := by
  obtain ⟨_, _, heq⟩ := annotated_eq notes fact
  rw [heq]

/-- A literal with a fact yields one, for the contact it is about. -/
theorem mem_factsOf_contact (hbears : Bears lib statements statement) (contact : Runes) :
    (∃ fact ∈ factsOf lib statements notes contacts statement, fact.contactID = contact) ↔
      contactOf statements contacts statement = some contact := by
  obtain ⟨-, -, hshown, kind, historical, hkind, hvalue⟩ := hbears
  have hfact : (statementFact lib statements contacts statement).map Fact.contactID =
      contactOf statements contacts statement := by
    unfold statementFact
    rw [hkind]
    cases contactOf statements contacts statement with
    | none => rfl
    | some owner =>
      dsimp only
      rw [if_neg (by simp [hshown, hvalue])]
      rfl
  rw [← hfact, Option.map_eq_some_iff]
  constructor
  · rintro ⟨fact, hmem, rfl⟩
    obtain ⟨plain, hplain, rfl⟩ := List.mem_map.mp hmem
    exact ⟨plain, Option.mem_toList.mp hplain, (annotated_contactID _ _).symm⟩
  · rintro ⟨plain, hplain, rfl⟩
    exact ⟨_, List.mem_map_of_mem (Option.mem_toList.mpr hplain), annotated_contactID _ _⟩

/-- The contact of a node is one that links it. -/
theorem contactOf_links {contact : Runes} (hnode : contacts statement.subject = false)
    (h : contactOf statements contacts statement = some contact) :
    Links statements contacts contact statement.subject := by
  rw [contactOf, hnode] at h
  exact OrdMap.mem_items_of_get_collect h

theorem exists_contactOf {contact : Runes}
    (h : Links statements contacts contact statement.subject) :
    ∃ owner, contactOf statements contacts statement = some owner := by
  obtain ⟨link, hmem, hentry⟩ := h
  unfold contactOf
  split
  · exact ⟨_, rfl⟩
  · exact OrdMap.exists_get_collect hmem hentry

/-- **Every contact has its facts exactly if the nodes have one owner.** -/
theorem served_iff : Served lib statements notes contacts ↔ OneOwner lib statements contacts := by
  constructor
  · intro h statement hbears contact other hcontact hother
    have hfirst := (mem_factsOf_contact hbears contact).mp (h statement hbears contact hcontact)
    have hsecond := (mem_factsOf_contact hbears other).mp (h statement hbears other hother)
    refine ⟨Option.some.inj (hfirst.symm.trans hsecond), fun hnode => ?_⟩
    rw [contactOf, if_pos hnode] at hfirst
    exact (Option.some.inj hfirst).symm
  · intro h statement hbears contact hcontact
    rw [mem_factsOf_contact hbears]
    obtain ⟨owner, howner⟩ := exists_contactOf hcontact
    cases hnode : contacts statement.subject with
    | true =>
      rw [contactOf, if_pos hnode, (h statement hbears _ _ hcontact hcontact).2 hnode]
    | false =>
      rw [howner, (h statement hbears _ _ hcontact (contactOf_links hnode howner)).1]

/-- The order of the statements says nothing about links and literals. -/
theorem oneOwner_perm {order : List Statement} (h : order.Perm statements) :
    OneOwner lib statements contacts → OneOwner lib order contacts := by
  intro hone statement hbears contact other hcontact hother
  have hlinks : ∀ {contact node : Runes}, Links order contacts contact node →
      Links statements contacts contact node :=
    fun ⟨link, hmem, hentry⟩ => ⟨link, h.mem_iff.mp hmem, hentry⟩
  have hshown : suppressedNameNodes order statement.subject =
      suppressedNameNodes statements statement.subject := h.any_eq
  exact hone statement ⟨h.mem_iff.mp hbears.mem, hbears.literal, hshown ▸ hbears.shown, hbears.fact⟩
    contact other (hlinks hcontact) (hlinks hother)

theorem Links.contact {node contact : Runes} (h : Links statements contacts contact node) :
    contacts contact = true ∧ subNode node = true := by
  obtain ⟨link, -, hentry⟩ := h
  obtain ⟨hlink, heq⟩ := Option.ite_none_right_eq_some.mp hentry
  cases heq
  exact ⟨hlink.1, hlink.2.2⟩

end Sharing

/-- **The literals of nodes serve every contact that links them, in every order of the statements,
exactly if each node with such literals is linked by one contact only.** -/
theorem shared_served_iff (lib : StandardLibrary) (statements : List Statement)
    (notes : List AnnotationRow) (contacts : Runes → Bool) :
    (∀ order : List Statement, order.Perm statements → Served lib order notes contacts) ↔
      OneOwner lib statements contacts :=
  ⟨fun h => served_iff.mp (h statements (.refl statements)),
    fun h _ horder => served_iff.mpr (oneOwner_perm horder h)⟩

/-- A link to an address. -/
def addressLink (contact : Char) : Statement where
  subject := [contact]
  predicate := gmeow "hasContactPoint"
  object := "urn:gmeow:addr:1".toList

/-- A literal of the address. -/
def addressCode : Statement where
  subject := "urn:gmeow:addr:1".toList
  predicate := gmeow "postalCode"
  object := ['7']
  objectKind := .literal

/-- Two contacts with one address. -/
def sharedAddress : List Statement := [addressLink 'a', addressLink 'b', addressCode]

/-- The two contacts. -/
def twoContacts (contact : Runes) : Bool := contact == ['a'] || contact == ['b']

theorem shared_address_not_served : ¬ Served plainLibrary sharedAddress [] twoContacts := by
  intro h
  have hkind : factKind addressCode.predicate = some (.address, false) := by decide +kernel
  have hshown : suppressedNameNodes sharedAddress addressCode.subject = false := by decide +kernel
  have hvalue : trim (factValue plainLibrary addressCode.object .address) ≠ [] := by decide +kernel
  have hlink : ownerEntry twoContacts (addressLink 'a') = some (addressCode.subject, ['a']) := by
    decide +kernel
  have hfacts : (factsOf plainLibrary sharedAddress [] twoContacts addressCode).map
      Fact.contactID = [['b']] := by decide +kernel
  have hbears : Bears plainLibrary sharedAddress addressCode :=
    ⟨by simp [sharedAddress], rfl, hshown, .address, false, hkind, hvalue⟩
  obtain ⟨fact, hmem, hcontact⟩ := h addressCode hbears ['a']
    ⟨addressLink 'a', by simp [sharedAddress], hlink⟩
  have hin := List.mem_map_of_mem (f := Fact.contactID) hmem
  rw [hfacts, hcontact] at hin
  exact absurd hin (by decide)

end Gmeow.ContactEntity
