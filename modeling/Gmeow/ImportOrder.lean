import Gmeow.ContactFacts
import Gmeow.Shuffles
import Gmeow.VCards

/-!
# Imported files and the order of map entries

A file is imported as one delta for each contact in it. Some importers write while they range over a
Go map: GEDCOM over the facts of an individual, vCard over the parameters of a line, the Apple
address book over the fields of a record. The entries come in any order, and the content of a delta
is then one of several texts.

* `Body` — what an importer writes, the entries of a map apart;
* `gedcomToRDF`, `vcardToRDF`, `appleAddressBookPersonToRDF`, `importContent` — the importers;
* `Builds` — what `BuildContactDeltas` can return;
* `fileRanges` — what is written for the entries of each map;
* `deltas_determined_iff` — the file determines its deltas exactly if those texts commute.

How the other formats and property lists are read, what is written of a card before its lines, the
claims of vCard lines with a concept, and the library functions are parameters. Facets and media
types are left out.
-/

namespace Gmeow.Contacts

open Runes Shuffles VCards

/-! ## Text -/

/-- A term of the foaf vocabulary. -/
def foafTerm (name : String) : Runes := ("http://xmlns.com/foaf/0.1/" ++ name).toList

/-- A term of the relationship vocabulary. -/
def relTerm (name : String) : Runes := ("http://purl.org/vocab/relationship/" ++ name).toList

/-- `escapeLiteral`. -/
def escapeLiteral (value : Runes) : Runes :=
  (trim value).flatMap fun c =>
    if c = '\\' ∨ c = '"' then ['\\', c] else if c = '\n' then ['\\', 'n'] else [c]

/-- `literal`. -/
def literal (value : Runes) : Runes := '"' :: (escapeLiteral value ++ ['"'])

/-- `typedDate`, `typedInteger`: a literal with a datatype of XML Schema. -/
def typedLiteral (value : Runes) (datatype : String) : Runes :=
  literal value ++ '^' :: '^' :: iri (xsdTerm datatype)

/-- One annotation of a claim, as `writeClaim` writes it. -/
def writeAnnotation (subject predicate object annotation value : Runes) : Runes :=
  "<< ".toList ++ iri subject ++ ' ' :: (iri predicate ++ ' ' :: (object ++ " >> ".toList ++
    iri annotation ++ ' ' :: (value ++ " .\n".toList)))

/-- `compactPredicateName`; `upperNext` as in the loop. -/
def compactName : Bool → Runes → Runes
  | _, [] => []
  | upperNext, c :: rest =>
    if 'a' ≤ c ∧ c ≤ 'z' then (if upperNext then c.toUpper else c) :: compactName false rest
    else if 'A' ≤ c ∧ c ≤ 'Z' ∨ '0' ≤ c ∧ c ≤ '9' then c :: compactName false rest
    else compactName true rest

/-- `compactPredicateName`. -/
def compactPredicateName (value : Runes) : Runes := compactName true value

/-- What is written for a contact, piece by piece. A piece has one part, or a part for each entry of
a map that is ranged over. -/
abbrev Body : Type := List (List Runes)

/-- A piece with one part. -/
def fixed (text : Runes) : Body := [[text]]

/-- The texts that are written for the entries of a map. -/
def entryTexts {V : Type} (entries : OrdMap Runes V) (text : Runes → V → Runes) : List Runes :=
  entries.entries.map fun entry => text entry.1 entry.2

/-- `renderedContact`. -/
structure RenderedContact : Type where
  identity : Runes
  body : Body
deriving DecidableEq

/-- The formats that are read without ranging over a map. -/
inductive PlainFormat : Type
  | appleAddressBookGroup | bbdb | csv | native
deriving DecidableEq

/-- The formats of `importContent`. -/
inductive ImportFormat : Type
  | appleAddressBook | rdf | gedcom | vcard
  | plain (format : PlainFormat)
  | unsupported (name : String)
deriving DecidableEq

/-- What the importers use; `Value` is a value of a property list. -/
structure ImportLibrary (File Value : Type) : Type extends VCardLibrary where
  mail : ContactEntity.StandardLibrary
  quote : Runes → String
  scanInt : Runes → Option Int
  importText : File → Runes
  importDecodedText : File → Runes
  firstRDFContactSubjects : Runes → List Runes
  plainToRDF : PlainFormat → File → Except String (List (Runes × Runes))
  /-- the claims of a card before those of its lines -/
  vcardOpening : VCard → Runes
  /-- the claims of a line that has a concept -/
  vcardCanonical : Runes → VCardLine → Option Runes
  vcardSourcePropertyPredicate : Runes → Runes
  vcardParamPredicates : Runes → Runes
  /-- the `ValidUntil` of `providerLifecycleByPredicate` -/
  validUntil : Runes → Runes
  unmarshal : File → Except String (OrdMap Runes Value)
  isString : Value → Bool
  appleAddressBookSubject : OrdMap Runes Value → File → Runes
  /-- predicate and kind -/
  appleAddressBookScalarFields : Runes → Option (Runes × Runes)
  appleObjectForValue : Value → Runes → Except String Runes
  nameFieldForPredicate : Runes → Bool
  /-- `writeNameNode` for the name fields of a record -/
  nameNode : Runes → OrdMap Runes Value → Runes
  /-- the fields with several values, and what is written for one of them -/
  appleAddressBookMultiValueFields : OrdMap Runes (Runes → Value → Except String Runes)
  appleAddressBookPropertyTypes : Runes → OrdMap Runes Value → Except String Runes

section Importers

variable {File Value : Type} (lib : ImportLibrary File Value)

/-! ## GEDCOM -/

/-- `gedcomLine`. -/
structure GedcomLine : Type where
  level : Int
  xref : Runes
  tag : Runes
  value : Runes

/-- `gedcomFact`. -/
structure GedcomFact : Type where
  tag : Runes
  value : Runes
  children : List GedcomFact

/-- The facts of a record by their tags. -/
abbrev GedcomFacts : Type := OrdMap Runes (List GedcomFact)

/-- `supportedGEDCOMTags`. -/
def supportedGEDCOMTags : List String :=
  ["ABBR", "ADDR", "AUTH", "BAPM", "BIRT", "BURI", "CHAN", "CHAR", "CHIL", "CHR", "CITY", "CONC",
    "CONT", "CTRY", "DATE", "DEAT", "DIV", "EMAIL", "EVEN", "FAM", "FAMC", "FAMS", "FILE", "FORM",
    "GEDC", "GIVN", "GRAD", "HEAD", "HUSB", "INDI", "LANG", "LATI", "LONG", "MAP", "MARR", "NAME",
    "NICK", "NOTE", "NPFX", "NSFX", "OBJE", "OCCU", "PAGE", "PHON", "PLAC", "POST", "PUBL", "REFN",
    "RESI", "RFN", "SEX", "SOUR", "STAE", "SUBM", "SURN", "TIME", "TITL", "TRLR", "TYPE", "VERS",
    "WIFE", "_FSFTID", "_MARNM", "_PRIM"]

/-- What stands before the first blank, and what stands after it. -/
def splitBlank (text : Runes) : Runes × Option Runes :=
  match cutRune ' ' text with
  | none => (text, none)
  | some (first, rest) => (first, some rest)

/-- One line of `parseGEDCOMLines`. -/
def parseGEDCOMLine (number : Nat) (raw : Runes) : Except String GedcomLine := do
  let (first, rest) := splitBlank raw
  let some rest := rest | throw s!"GEDCOM line {number} is malformed"
  let some level := lib.scanInt first | throw s!"GEDCOM line {number} has invalid level"
  let (second, third) := splitBlank rest
  let marked := second.head? = some '@' ∧ second.getLast? = some '@'
  if marked ∧ third = none then throw s!"GEDCOM line {number} is missing tag"
  -- an identifier stands before the tag
  let (tag, value) := if marked then splitBlank (third.getD []) else (second, third)
  let line : GedcomLine :=
    ⟨level, if marked then second else [], lib.toUpper (trim tag), trim (value.getD [])⟩
  if String.ofList line.tag ∉ supportedGEDCOMTags ∧ line.tag.head? ≠ some '_' then
    throw ("unsupported GEDCOM tag " ++ lib.quote line.tag ++ s!" on line {number}")
  return line

/-- The loop of `parseGEDCOMLines`, from a line number on. -/
def gedcomLinesFrom : Nat → List Runes → Except String (List GedcomLine)
  | _, [] => .ok []
  | number, raw :: rest => do
    let raw := trimPrefix ['\uFEFF'] (raw.rdropWhile (· = '\r'))
    if trim raw = [] then gedcomLinesFrom (number + 1) rest
    else
      let line ← parseGEDCOMLine lib number raw
      let lines ← gedcomLinesFrom (number + 1) rest
      return line :: lines

/-- `parseGEDCOMLines`. -/
def parseGEDCOMLines (content : Runes) : Except String (List GedcomLine) :=
  gedcomLinesFrom lib 1 (textLines content [])

/-- Hang a fact under the last one, so many levels down. -/
def GedcomFact.attach (new : GedcomFact) : Nat → GedcomFact → GedcomFact
  | 0, fact => { fact with children := fact.children ++ [new] }
  | depth + 1, fact => { fact with children := fact.children.modifyLast (attach new depth) }

/-- The state of `gedcomFactsFromLines`: `top` is the tag of the fact at the bottom of the stack,
`depth` the height of the stack. -/
structure FactStack : Type where
  facts : GedcomFacts
  top : Runes
  depth : Nat

/-- One line of `gedcomFactsFromLines`. -/
def FactStack.add (stack : FactStack) (line : GedcomLine) : FactStack :=
  let fact : GedcomFact := ⟨line.tag, line.value, []⟩
  let depth := if line.level ≤ stack.depth then (line.level - 1).toNat else stack.depth
  if depth = 0 ∨ line.level = 1 then
    ⟨stack.facts.set line.tag ((stack.facts.get line.tag).getD [] ++ [fact]), line.tag, 1⟩
  else
    let below := ((stack.facts.get stack.top).getD []).modifyLast (fact.attach (depth - 1))
    ⟨stack.facts.set stack.top below, stack.top, depth + 1⟩

/-- `gedcomFactsFromLines`. -/
def gedcomFactsFromLines (lines : List GedcomLine) : GedcomFacts :=
  (lines.foldl FactStack.add ⟨∅, [], 0⟩).facts

/-- `parseGEDCOMRecords`, for the records with a tag: identifier and facts. -/
def parseGEDCOMRecords (tag : String) : List GedcomLine → List (Runes × GedcomFacts)
  | [] => []
  | line :: rest =>
    if line.level = 0 ∧ line.tag = tag.toList then
      (line.xref, gedcomFactsFromLines (rest.takeWhile fun next => next.level ≠ 0)) ::
        parseGEDCOMRecords tag rest
    else parseGEDCOMRecords tag rest

/-- `gedcomSubject`. -/
def gedcomSubject (xref : Runes) : Runes :=
  "urn:gmeow:gedcom:".toList ++ shortHash lib.sha (trim xref)

/-- `gedcomPredicate`. -/
def gedcomPredicate (tag : Runes) : Runes :=
  match String.ofList tag with
  | "NAME" => foafTerm "name"
  | "EMAIL" => schemaTerm "email"
  | "PHON" => schemaTerm "telephone"
  | "ADDR" => schemaTerm "address"
  | "RESI" => schemaTerm "address"
  | "OCCU" => schemaTerm "jobTitle"
  | "NOTE" => schemaTerm "description"
  | "BIRT" => schemaTerm "birthDate"
  | "DEAT" => gmeowTerm "gedcomDeath"
  | _ =>
    if tag.head? = some '_' then gmeowTerm "gedcomVendorExtension/" ++ trimPrefix ['_'] tag
    else gmeowTerm "gedcom" ++ compactPredicateName tag

/-- `normalizeContactEmail`. -/
def normalizeContactEmail (value : Runes) : Runes :=
  let normalized := ContactEntity.normalizeIdentity lib.mail value
  if '@' ∉ normalized then [] else normalized

/-- `normalizedEmailIRI`. -/
def normalizedEmailIRI (value : Runes) : Runes :=
  let normalized := normalizeContactEmail lib value
  if normalized = [] then [] else iri ("mailto:".toList ++ normalized)

/-- `writeGEDCOMFact`. -/
def writeGEDCOMFact (subject tag : Runes) (fact : GedcomFact) : Runes :=
  let email := normalizedEmailIRI lib fact.value
  let object := if tag = "EMAIL".toList ∧ email ≠ [] then email else literal fact.value
  (if gedcomPredicate tag ≠ [] ∧ fact.value ≠ [] then
    writeTriple subject (gedcomPredicate tag) object else []) ++
  fact.children.flatMap fun child =>
    if child.value = [] then []
    else writeTriple subject
      (gmeowTerm "gedcom" ++ compactPredicateName (tag ++ ' ' :: child.tag)) (literal child.value)

/-- What `writeGEDCOMFacts` writes for the tags of an individual. -/
def gedcomFactTexts (individual : Runes × GedcomFacts) : List Runes :=
  entryTexts individual.2 fun tag items =>
    items.flatMap (writeGEDCOMFact lib (gedcomSubject lib individual.1) tag)

/-- `gedcomFactValues`. -/
def gedcomFactValues (facts : GedcomFacts) (tag : String) : List Runes :=
  (((facts.get tag.toList).getD []).map GedcomFact.value).filter (· ≠ [])

/-- An edge and the edge back, each written for its subject. -/
def gedcomEdges (predicate back : String) (one other : Runes) : List RenderedContact :=
  let one := gedcomSubject lib one
  let other := gedcomSubject lib other
  [⟨one, fixed (writeTriple one (relTerm predicate) (iri other))⟩,
    ⟨other, fixed (writeTriple other (relTerm back) (iri one))⟩]

/-- `writeGEDCOMFamilyEdges`. -/
def writeGEDCOMFamilyEdges (family : Runes × GedcomFacts) : List RenderedContact :=
  let husbands := gedcomFactValues family.2 "HUSB"
  let wives := gedcomFactValues family.2 "WIFE"
  (husbands.flatMap fun husband => wives.flatMap (gedcomEdges lib "spouseOf" "spouseOf" husband)) ++
    (husbands ++ wives).flatMap fun parent =>
      (gedcomFactValues family.2 "CHIL").flatMap (gedcomEdges lib "parentOf" "childOf" parent)

/-- Write to the body of a subject (`bodyFor`); subjects stay in the order they were first used. -/
def writeTo (records : List RenderedContact) (new : RenderedContact) : List RenderedContact :=
  if records.any fun record => record.identity = new.identity then
    records.map fun record =>
      if record.identity = new.identity then { record with body := record.body ++ new.body }
      else record
  else records ++ [new]

/-- What is written for an individual. -/
def gedcomIndividual (individual : Runes × GedcomFacts) : RenderedContact :=
  let subject := gedcomSubject lib individual.1
  ⟨subject, fixed (writeTriple subject rdfTypePredicate (iri (foafTerm "Person"))) ++
    [gedcomFactTexts lib individual]⟩

/-- `gedcomToRDF`. -/
def gedcomToRDF (content : Runes) : Except String (List RenderedContact) := do
  let lines ← parseGEDCOMLines lib content
  let individuals := parseGEDCOMRecords "INDI" lines
  if individuals = [] then throw "GEDCOM import has no individuals"
  let edges := (parseGEDCOMRecords "FAM" lines).flatMap (writeGEDCOMFamilyEdges lib)
  return (individuals.map (gedcomIndividual lib) ++ edges).foldl writeTo []

/-! ## vCard -/

/-- A line that `vcardContactBody` keeps under its own property. -/
def isSourceLine (subject : Runes) (line : VCardLine) : Bool :=
  line.value ≠ [] && String.ofList line.name ∉ ["FN", "N", "NICKNAME"] &&
    (lib.vcardCanonical subject line).isNone && lib.vcardSourcePropertyPredicate line.name ≠ []

/-- What `appendVCardSourceLineClaim` writes for the parameters of a line. -/
def vcardParamTexts (subject : Runes) (line : VCardLine) : List Runes :=
  entryTexts line.params fun param values => (values.filter (· ≠ [])).flatMap fun value =>
    writeAnnotation subject (lib.vcardSourcePropertyPredicate line.name) (literal line.value)
      (lib.vcardParamPredicates param) (literal value)

/-- `appendVCardSourceLineClaim`. -/
def vcardSourceLine (subject : Runes) (line : VCardLine) : Body :=
  let predicate := lib.vcardSourcePropertyPredicate line.name
  let object := literal line.value
  let validUntil := lib.validUntil predicate
  fixed (writeTriple subject predicate object ++
    if validUntil = [] then [] else
      writeAnnotation subject predicate object (timeTerm "hasEnd")
        (typedLiteral validUntil "date")) ++
  [vcardParamTexts lib subject line]

/-- A line of a card in `vcardContactBody`. -/
def vcardLineBody (subject : Runes) (line : VCardLine) : Body :=
  if isSourceLine lib subject line then vcardSourceLine lib subject line
  else if line.value = [] ∨ String.ofList line.name ∈ ["FN", "N", "NICKNAME"] then []
  else fixed ((lib.vcardCanonical subject line).getD [])

/-- `vcardContactBody`. -/
def vcardContactBody (card : VCard) : Body :=
  fixed (lib.vcardOpening card) ++ card.lines.flatMap (vcardLineBody lib card.subject)

/-- `vcardToRDF`. -/
def vcardToRDF (content : Runes) : Except String (List RenderedContact) :=
  let parsed := parseVCards lib.toVCardLibrary content
  if parsed.1 = [] ∧ parsed.2 = [] then .error "vCard import has no cards"
  else .ok (parsed.1.map fun card => ⟨card.subject, vcardContactBody lib card⟩)

/-! ## Apple address book -/

/-- What `writeAppleAddressBookScalars` writes for a field. -/
def appleScalarText (subject key : Runes) (value : Value) : Except String Runes :=
  if key = "ABPropertyTypes".toList then .ok []
  else match lib.appleAddressBookScalarFields key with
    | none =>
      if (lib.appleAddressBookMultiValueFields.get key).isSome then .ok []
      else .error ("unsupported Apple AddressBook person field " ++ lib.quote key)
    | some (predicate, kind) =>
      match lib.appleObjectForValue value kind with
      | .error err => .error ("field " ++ lib.quote key ++ " in Apple AddressBook: " ++ err)
      | .ok object =>
        .ok (if object = [] ∨ lib.nameFieldForPredicate predicate then []
          else writeTriple subject predicate object)

/-- What `writeAppleAddressBookScalars` writes for the fields of a record. If several fields fail,
which of them is reported depends on the order of the entries. -/
def appleScalarTexts (subject : Runes) (record : OrdMap Runes Value) : Except String (List Runes) :=
  record.entries.mapM fun entry => appleScalarText lib subject entry.1 entry.2

/-- What `writeAppleAddressBookMultiValues` writes for the fields with several values. -/
def appleMultiValueTexts (subject : Runes) (record : OrdMap Runes Value) :
    Except String (List Runes) :=
  lib.appleAddressBookMultiValueFields.entries.mapM fun entry =>
    match record.get entry.1 with
    | none => .ok []
    | some raw => entry.2 subject raw

/-- What is written for a record. -/
def applePerson (subject : Runes) (record : OrdMap Runes Value) (scalars multiValues : List Runes)
    (propertyTypes : Runes) : RenderedContact :=
  ⟨subject, fixed (writeTriple subject rdfTypePredicate (iri (foafTerm "Person"))) ++
    ([scalars] ++ (fixed (lib.nameNode subject record) ++
      ([multiValues] ++ fixed propertyTypes)))⟩

/-- `appleAddressBookPersonToRDF`. -/
def appleAddressBookPersonToRDF (content : File) : Except String (List RenderedContact) := do
  let record ← lib.unmarshal content
  if record.entries = [] then throw "Apple AddressBook import is empty"
  if !(record.get "UID".toList).any lib.isString then
    throw "Apple AddressBook person import has no UID"
  let subject := lib.appleAddressBookSubject record content
  let scalars ← appleScalarTexts lib subject record
  let multiValues ← appleMultiValueTexts lib subject record
  let propertyTypes ← lib.appleAddressBookPropertyTypes subject record
  return [applePerson lib subject record scalars multiValues propertyTypes]

/-! ## Deltas -/

/-- The RDF case of `importContent`. -/
def rdfToRDF (content : File) : Except String (List RenderedContact) :=
  let text := trim (lib.importText content)
  if text = [] then .error "RDF/Turtle import is empty"
  else match lib.firstRDFContactSubjects text with
    | [] => .error "RDF/Turtle import has no contacts"
    | contact :: _ => .ok [⟨contact, fixed text⟩]

/-- `importContent`. -/
def importContent (format : ImportFormat) (content : File) : Except String (List RenderedContact) :=
  match format with
  | .appleAddressBook => appleAddressBookPersonToRDF lib content
  | .rdf => rdfToRDF lib content
  | .gedcom => gedcomToRDF lib (lib.importDecodedText content)
  | .vcard => vcardToRDF lib (lib.importDecodedText content)
  | .plain format =>
    (lib.plainToRDF format content).map (List.map fun record => ⟨record.1, fixed record.2⟩)
  | .unsupported name =>
    .error ("unsupported contact import format " ++ lib.quote name.toList)

/-- The records that `BuildContactDeltas` makes deltas of. -/
def contactRecords (format : ImportFormat) (sourceName : Runes) (content : File) (level : Int) :
    Except String (List RenderedContact) :=
  if trim sourceName = [] then .error "source name is required"
  else if level < 0 ∨ 10 < level then .error "contact import level must be between 0 and 10"
  else importContent lib format content

/-- `writePrefixes`. -/
def writePrefixes : Runes :=
  [("gmeow", gmeowTerm ""), ("foaf", foafTerm ""), ("schema", schemaTerm ""), ("time", timeTerm ""),
    ("vcard", "http://www.w3.org/2006/vcard/ns#".toList), ("xsd", xsdTerm "")].flatMap fun entry =>
    ("@prefix " ++ entry.1 ++ ": ").toList ++ bracketed entry.2 ++ " .\n".toList

/-- `contactDeltaContent`. -/
def contactDeltaContent (identity body : Runes) (level : Int) : Runes :=
  writePrefixes ++ '\n' :: (body ++ ((if body.getLast? = some '\n' then [] else ['\n']) ++
    writeTriple identity (gmeowTerm "importanceLevel")
      (typedLiteral (toString level).toList "integer")))

/-- `ContactDelta`. -/
structure ContactDelta : Type where
  identity : Runes
  content : Runes

/-- A delta of a record, for some order of the entries of the maps. -/
def DeltaOf (level : Int) (record : RenderedContact) (delta : ContactDelta) : Prop :=
  ∃ body, Shuffled record.body body ∧
    delta = ⟨record.identity, contactDeltaContent record.identity body level⟩

/-- **What `BuildContactDeltas` can return.** -/
def Builds (format : ImportFormat) (sourceName : Runes) (content : File) (level : Int)
    (deltas : List ContactDelta) : Prop :=
  ∃ records, contactRecords lib format sourceName content level = .ok records ∧
    List.Forall₂ (DeltaOf level) records deltas

/-- **The maps that an import ranges over**: what is written for the entries of each. -/
def fileRanges (format : ImportFormat) (content : File) : List (List Runes) :=
  match format with
  | .gedcom =>
    match parseGEDCOMLines lib (lib.importDecodedText content) with
    | .error _ => []
    | .ok lines => (parseGEDCOMRecords "INDI" lines).map (gedcomFactTexts lib)
  | .vcard =>
    (parseVCards lib.toVCardLibrary (lib.importDecodedText content)).1.flatMap fun card =>
      (card.lines.filter (isSourceLine lib card.subject)).map (vcardParamTexts lib card.subject)
  | .appleAddressBook =>
    match lib.unmarshal content with
    | .error _ => []
    | .ok record =>
      let subject := lib.appleAddressBookSubject record content
      (appleScalarTexts lib subject record).toOption.toList ++
        (appleMultiValueTexts lib subject record).toOption.toList
  | _ => []

end Importers

/-! ## When a file determines its deltas -/

/-- Two bodies of one length give one content only if they are equal. -/
theorem body_of_contactDeltaContent {identity a b : Runes} {level : Int}
    (hlength : a.length = b.length)
    (h : contactDeltaContent identity a level = contactDeltaContent identity b level) : a = b :=
  (List.append_inj (List.cons.inj (List.append_cancel_left h)).2 hlength).1

/-- The deltas of some records are determined exactly if all parts commute. -/
theorem deltas_unique_iff (level : Int) (records : List RenderedContact) :
    (∀ a b, List.Forall₂ (DeltaOf level) records a → List.Forall₂ (DeltaOf level) records b →
      a = b) ↔ ∀ record ∈ records, ∀ parts ∈ record.body, Commuting parts := by
  constructor
  · intro h record hrecord
    obtain ⟨before, after, rfl⟩ := List.append_of_mem hrecord
    have hsome : ∀ records, ∃ deltas, List.Forall₂ (DeltaOf level) records deltas := by
      intro records
      induction records with
      | nil => exact ⟨[], .nil⟩
      | cons record rest ih =>
        obtain ⟨deltas, hdeltas⟩ := ih
        obtain ⟨body, hbody⟩ := exists_shuffled record.body
        exact ⟨_, .cons ⟨body, hbody, rfl⟩ hdeltas⟩
    obtain ⟨first, hfirst⟩ := hsome before
    obtain ⟨last, hlast⟩ := hsome after
    refine (shuffled_unique_iff record.body).mp fun a b ha hb => ?_
    have heq := h _ _ (List.rel_append hfirst (.cons ⟨a, ha, rfl⟩ hlast))
      (List.rel_append hfirst (.cons ⟨b, hb, rfl⟩ hlast))
    have hdelta := (List.cons.inj (List.append_cancel_left heq)).1
    exact body_of_contactDeltaContent (ha.length_eq hb) (congrArg ContactDelta.content hdelta)
  · intro h a b ha hb
    induction ha generalizing b with
    | nil => exact (List.forall₂_nil_left_iff.mp hb).symm
    | @cons record delta records _ hdelta _ ih =>
      obtain ⟨other, rest, hother, hrest, rfl⟩ := List.forall₂_cons_left_iff.mp hb
      obtain ⟨hrecord, hrecords⟩ := List.forall_mem_cons.mp h
      obtain ⟨body, hbody, rfl⟩ := hdelta
      obtain ⟨body', hbody', rfl⟩ := hother
      have hsame := (shuffled_unique_iff record.body).mpr hrecord body body' hbody hbody'
      rw [hsame, ih hrecords rest hrest]

/-- A step that did not fail. -/
theorem of_bind_ok {A B : Type} {x : Except String A} {f : A → Except String B} {b : B}
    (h : (x >>= f) = .ok b) : ∃ a, x = .ok a ∧ f a = .ok b := by
  cases x with
  | error err => cases h
  | ok a => exact ⟨a, rfl, h⟩

/-- A check that did not fail. -/
theorem of_check_ok {B : Type} {c : Prop} [Decidable c] {err : String} {x : Except String B} {b : B}
    (h : (do
      if c then throw err
      x) = .ok b) : ¬c ∧ x = .ok b := by
  by_cases hc : c
  · rw [if_pos hc] at h
    cases h
  · rw [if_neg hc] at h
    exact ⟨hc, h⟩

/-- One part commutes. -/
theorem commuting_fixed {text : Runes} : ∀ parts ∈ fixed text, Commuting parts := by
  intro parts hin
  rw [List.mem_singleton.mp hin]
  exact List.pairwise_singleton _ _

/-- All parts that are written for some contacts commute. -/
abbrev AllCommute (records : List RenderedContact) : Prop :=
  ∀ record ∈ records, ∀ parts ∈ record.body, Commuting parts

/-- What is written to the body of a contact is added to what the file writes. -/
theorem allCommute_writeTo (records : List RenderedContact) (new : RenderedContact) :
    AllCommute (writeTo records new) ↔
      AllCommute records ∧ ∀ parts ∈ new.body, Commuting parts := by
  rw [writeTo]
  split
  case isTrue hold =>
    obtain ⟨old, hin, hsame⟩ := List.any_eq_true.mp hold
    constructor
    · intro h
      have hboth : ∀ record ∈ records, (∀ parts ∈ record.body, Commuting parts) ∧
          (record.identity = new.identity → ∀ parts ∈ new.body, Commuting parts) := by
        intro record hrecord
        have hmapped := h _ (List.mem_map_of_mem hrecord)
        split at hmapped
        case isTrue heq =>
          obtain ⟨hbefore, hafter⟩ := List.forall_mem_append.mp hmapped
          exact ⟨hbefore, fun _ => hafter⟩
        case isFalse hne => exact ⟨hmapped, fun heq => absurd heq hne⟩
      exact ⟨fun record hrecord => (hboth record hrecord).1, (hboth old hin).2 (of_decide_eq_true hsame)⟩
    · rintro ⟨hrecords, hnew⟩ _ hmapped
      obtain ⟨record, hrecord, rfl⟩ := List.mem_map.mp hmapped
      split
      · exact List.forall_mem_append.mpr ⟨hrecords record hrecord, hnew⟩
      · exact hrecords record hrecord
  case isFalse => rw [AllCommute, List.forall_mem_append, List.forall_mem_singleton]

theorem allCommute_foldl_writeTo (news records : List RenderedContact) :
    AllCommute (news.foldl writeTo records) ↔ AllCommute records ∧ AllCommute news := by
  induction news generalizing records with
  | nil => simp [AllCommute]
  | cons new rest ih =>
    rw [List.foldl_cons, ih, allCommute_writeTo, and_assoc]
    simp only [AllCommute, List.forall_mem_cons]

section Importers

variable {File Value : Type} {lib : ImportLibrary File Value}

/-- The edges of families are written one at a time. -/
theorem allCommute_familyEdges (families : List (Runes × GedcomFacts)) :
    AllCommute (families.flatMap (writeGEDCOMFamilyEdges lib)) := by
  have hedges : ∀ predicate back one other,
      AllCommute (gedcomEdges lib predicate back one other) := by
    intro predicate back one other record hrecord
    rcases List.mem_pair.mp hrecord with rfl | rfl
    · exact commuting_fixed
    · exact commuting_fixed
  intro record hrecord
  obtain ⟨family, -, hfamily⟩ := List.mem_flatMap.mp hrecord
  rcases List.mem_append.mp hfamily with hin | hin
  all_goals
    obtain ⟨one, -, hone⟩ := List.mem_flatMap.mp hin
    obtain ⟨other, -, hother⟩ := List.mem_flatMap.mp hone
    exact hedges _ _ one other record hother

/-- Of what is written for an individual only the facts come in any order. -/
theorem commuting_gedcomIndividual (individual : Runes × GedcomFacts) :
    (∀ parts ∈ (gedcomIndividual lib individual).body, Commuting parts) ↔
      Commuting (gedcomFactTexts lib individual) := by
  rw [gedcomIndividual, List.forall_mem_append, List.forall_mem_singleton]
  exact and_iff_right commuting_fixed

variable {content : File} {records : List RenderedContact}

theorem allCommute_gedcom (h : gedcomToRDF lib (lib.importDecodedText content) = .ok records) :
    AllCommute records ↔ ∀ texts ∈ fileRanges lib .gedcom content, Commuting texts := by
  rw [gedcomToRDF] at h
  rw [fileRanges]
  cases hlines : parseGEDCOMLines lib (lib.importDecodedText content) with
  | error err =>
    rw [hlines] at h
    cases h
  | ok lines =>
    rw [hlines] at h
    obtain rfl := Except.ok.inj (of_check_ok h).2
    rw [allCommute_foldl_writeTo, AllCommute, AllCommute, List.forall_mem_append,
      List.forall_mem_map, List.forall_mem_map]
    constructor
    · rintro ⟨-, hindividuals, -⟩ individual hin
      exact (commuting_gedcomIndividual individual).mp (hindividuals individual hin)
    · intro hfacts
      exact ⟨fun _ hin => absurd hin List.not_mem_nil,
        fun individual hin => (commuting_gedcomIndividual individual).mpr (hfacts individual hin),
        allCommute_familyEdges _⟩

/-- Of what is written for a line only the parameters of a source line come in any order. -/
theorem commuting_vcardLineBody (subject : Runes) (line : VCardLine) :
    (∀ parts ∈ vcardLineBody lib subject line, Commuting parts) ↔
      (isSourceLine lib subject line → Commuting (vcardParamTexts lib subject line)) := by
  rw [vcardLineBody]
  split
  case isTrue hsource =>
    rw [vcardSourceLine, List.forall_mem_append, List.forall_mem_singleton,
      and_iff_right commuting_fixed]
    exact ⟨fun h _ => h, fun h => h hsource⟩
  case isFalse hsource =>
    refine iff_of_true ?_ fun h => absurd h hsource
    split
    · exact fun _ hin => absurd hin List.not_mem_nil
    · exact commuting_fixed

theorem allCommute_vcard (h : vcardToRDF lib (lib.importDecodedText content) = .ok records) :
    AllCommute records ↔ ∀ texts ∈ fileRanges lib .vcard content, Commuting texts := by
  rw [vcardToRDF] at h
  split at h
  · cases h
  · obtain rfl := Except.ok.inj h
    rw [fileRanges, AllCommute, List.forall_mem_map]
    simp only [List.forall_mem_flatMap, List.forall_mem_map, List.mem_filter]
    refine forall₂_congr fun card _ => ?_
    rw [vcardContactBody, List.forall_mem_append, and_iff_right commuting_fixed]
    simp only [List.forall_mem_flatMap, commuting_vcardLineBody, and_imp]

theorem allCommute_apple (h : appleAddressBookPersonToRDF lib content = .ok records) :
    AllCommute records ↔ ∀ texts ∈ fileRanges lib .appleAddressBook content, Commuting texts := by
  rw [appleAddressBookPersonToRDF] at h
  rw [fileRanges]
  cases hrecord : lib.unmarshal content with
  | error err =>
    rw [hrecord] at h
    cases h
  | ok record =>
    rw [hrecord] at h
    -- past the two checks, the three loops one after the other
    replace h := of_check_ok (of_check_ok h).2
    obtain ⟨scalars, hscalars, h⟩ := of_bind_ok h.2
    obtain ⟨multiValues, hmulti, h⟩ := of_bind_ok h
    obtain ⟨propertyTypes, -, h⟩ := of_bind_ok h
    obtain rfl := Except.ok.inj h
    dsimp only
    rw [hscalars, hmulti, AllCommute, List.forall_mem_singleton, applePerson,
      List.forall_mem_append, and_iff_right commuting_fixed, List.forall_mem_append,
      List.forall_mem_append, and_iff_right commuting_fixed, List.forall_mem_append,
      and_iff_left commuting_fixed]
    exact List.forall_mem_append.symm

/-- **What is written commutes exactly if the entries of the maps do.** -/
theorem allCommute_importContent {format : ImportFormat}
    (h : importContent lib format content = .ok records) :
    AllCommute records ↔ ∀ texts ∈ fileRanges lib format content, Commuting texts := by
  have hnone : ∀ texts ∈ ([] : List (List Runes)), Commuting texts :=
    fun _ hin => absurd hin List.not_mem_nil
  cases format with
  | gedcom => exact allCommute_gedcom h
  | vcard => exact allCommute_vcard h
  | appleAddressBook => exact allCommute_apple h
  | rdf =>
    refine iff_of_true ?_ hnone
    rw [importContent, rdfToRDF] at h
    split at h
    · cases h
    · split at h
      · cases h
      · obtain rfl := Except.ok.inj h
        exact List.forall_mem_singleton.mpr commuting_fixed
  | plain format =>
    refine iff_of_true ?_ hnone
    rw [importContent] at h
    cases hplain : lib.plainToRDF format content with
    | error err =>
      rw [hplain] at h
      cases h
    | ok plain =>
      rw [hplain] at h
      obtain rfl := Except.ok.inj h
      exact List.forall_mem_map.mpr fun _ _ => commuting_fixed
  | unsupported name => cases h

/-- **A file determines the deltas of its contacts exactly if the texts for the entries of each map
that its import ranges over commute.** -/
theorem deltas_determined_iff (lib : ImportLibrary File Value) (format : ImportFormat)
    (sourceName : Runes) (content : File) (level : Int) :
    (∀ a b, Builds lib format sourceName content level a →
      Builds lib format sourceName content level b → a = b) ↔
    ((∃ records, contactRecords lib format sourceName content level = .ok records) →
      ∀ texts ∈ fileRanges lib format content, Commuting texts) := by
  have hcommute : ∀ {records}, contactRecords lib format sourceName content level = .ok records →
      (AllCommute records ↔ ∀ texts ∈ fileRanges lib format content, Commuting texts) := by
    intro records h
    rw [contactRecords] at h
    split at h
    · cases h
    · split at h
      · cases h
      · exact allCommute_importContent h
  constructor
  · rintro h ⟨records, hrecords⟩
    refine (hcommute hrecords).mp ((deltas_unique_iff level records).mp fun a b ha hb => ?_)
    exact h a b ⟨records, hrecords, ha⟩ ⟨records, hrecords, hb⟩
  · rintro h a b ⟨records, hrecords, ha⟩ ⟨others, hothers, hb⟩
    obtain rfl := Except.ok.inj (hrecords.symm.trans hothers)
    exact (deltas_unique_iff level records).mpr ((hcommute hrecords).mpr (h ⟨records, hrecords⟩))
      a b ha hb

end Importers

/-- A library that reads plain texts. -/
def plainLibrary : ImportLibrary Runes Unit where
  sha := id
  toUpper := id
  toLower := id
  equalFold := fun one other => one == other
  quotedPrintable := fun _ => none
  mail := ContactEntity.plainLibrary
  quote := String.ofList
  scanInt := fun text => if text = ['0'] then some 0 else if text = ['1'] then some 1 else none
  importText := id
  importDecodedText := id
  firstRDFContactSubjects := fun _ => []
  plainToRDF := fun _ _ => .ok []
  vcardOpening := fun _ => []
  vcardCanonical := fun _ _ => none
  vcardSourcePropertyPredicate := fun _ => []
  vcardParamPredicates := fun _ => []
  validUntil := fun _ => []
  unmarshal := fun _ => .ok ∅
  isString := fun _ => false
  appleAddressBookSubject := fun _ _ => []
  appleAddressBookScalarFields := fun _ => none
  appleObjectForValue := fun _ _ => .ok []
  nameFieldForPredicate := fun _ => false
  nameNode := fun _ _ => []
  appleAddressBookMultiValueFields := ∅
  appleAddressBookPropertyTypes := fun _ _ => .ok []

/-- An individual with a name and an occupation. -/
def patFile : Runes := "0 @I1@ INDI\n1 NAME Pat\n1 OCCU cook\n".toList

/-- What is written for it. -/
def patContact : RenderedContact :=
  let subject := "urn:gmeow:gedcom:@I1@".toList
  ⟨subject, [[writeTriple subject rdfTypePredicate (iri (foafTerm "Person"))],
    [writeTriple subject (foafTerm "name") (literal "Pat".toList),
      writeTriple subject (schemaTerm "jobTitle") (literal "cook".toList)]]⟩

theorem contactRecords_patFile :
    contactRecords plainLibrary .gedcom "book".toList patFile 0 = .ok [patContact] := by
  decide +kernel

/-- **The name comes first or the occupation does.** -/
theorem fact_order_matters :
    ¬∀ a b, Builds plainLibrary .gedcom "book".toList patFile 0 a →
      Builds plainLibrary .gedcom "book".toList patFile 0 b → a = b := by
  intro h
  have hall := (deltas_unique_iff 0 [patContact]).mp fun a b ha hb =>
    h a b ⟨_, contactRecords_patFile, ha⟩ ⟨_, contactRecords_patFile, hb⟩
  have hcommute := hall patContact List.mem_cons_self _ (List.mem_cons_of_mem _ List.mem_cons_self)
  have hends := (List.pairwise_cons.mp hcommute).1 _ List.mem_cons_self
  revert hends
  decide +kernel

end Gmeow.Contacts
