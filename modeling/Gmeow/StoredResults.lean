import Gmeow.OrdMap

/-!
# Live and stored results

A result of `object_retrieve` is shown in two ways: `toonRetrieve` shows the typed response,
`toonRetrieveFromMap` the map that is left of it once it was written as JSON and read back.

* `Value`, `Codec` — what JSON does to strings, numbers, times and values of any type;
* `toonRetrieve`, `toonRetrieveFromMap`, `jsonResponse` — the two ways, and the map between them;
* `Alike` — the two show the same, but for `nil` and empty lists;
* `alike_iff` — so they do exactly for plain responses: all strings and numbers survive JSON, no
  time is zero or in another zone, facets and provenance stand in the order of their rows, every
  facet has a kind or no name and its metadata adds nothing to its attributes, and no list of the
  message has an empty item.
-/

/-! ## Sorted rows -/

namespace SortedRows

variable {α β κ : Type} [LinearOrder κ]

/-- A stable sort by a key. -/
def sortBy (key : β → κ) (rows : List β) : List β := rows.insertionSort fun a b => key a ≤ key b

variable {key : β → κ} {rows : List β}

theorem mem_sortBy {row : β} :
    row ∈ sortBy key rows ↔ row ∈ rows := List.mem_insertionSort _

theorem sortBy_of_sorted (h : rows.Pairwise fun a b => key a ≤ key b) : sortBy key rows = rows :=
  List.Pairwise.insertionSort_eq h

theorem sortBy_sorted (key : β → κ) (rows : List β) :
    (sortBy key rows).Pairwise fun a b => key a ≤ key b := by
  have htotal : Std.Total fun a b : β => key a ≤ key b := ⟨fun a b => le_total (key a) (key b)⟩
  have htrans : IsTrans β fun a b => key a ≤ key b := ⟨fun _ _ _ => le_trans⟩
  exact List.pairwise_insertionSort _ rows

/-- Rows that are sorted and others that are not: they are the same exactly if they agree one by one
and the others are in order. -/
theorem sortBy_eq_map_iff {items : List α} {sorted plain : α → β}
    (hkey : ∀ x ∈ items, (∃ y ∈ items, sorted x = plain y) → (∃ y ∈ items, plain x = sorted y) →
      key (plain x) = key (sorted x)) :
    sortBy key (items.map sorted) = items.map plain ↔
      (∀ x ∈ items, plain x = sorted x) ∧
        items.Pairwise fun x y => key (sorted x) ≤ key (sorted y) := by
  constructor
  · intro h
    have hmem : ∀ row, row ∈ items.map sorted ↔ row ∈ items.map plain := by
      intro row
      rw [← h, mem_sortBy]
    have hkeys : ∀ x ∈ items, key (plain x) = key (sorted x) := by
      intro x hx
      obtain ⟨y, hy, hxy⟩ := List.mem_map.mp ((hmem _).mp (List.mem_map_of_mem hx))
      obtain ⟨z, hz, hxz⟩ := List.mem_map.mp ((hmem _).mpr (List.mem_map_of_mem hx))
      exact hkey x hx ⟨y, hy, hxy.symm⟩ ⟨z, hz, hxz.symm⟩
    have horder : items.Pairwise fun x y => key (sorted x) ≤ key (sorted y) := by
      have hsorted := sortBy_sorted key (items.map sorted)
      rw [h, List.pairwise_map] at hsorted
      refine hsorted.imp_of_mem fun hx hy hle => ?_
      rwa [← hkeys _ hx, ← hkeys _ hy]
    rw [sortBy_of_sorted (List.pairwise_map.mpr horder)] at h
    exact ⟨fun x hx => (List.map_inj_left.mp h x hx).symm, horder⟩
  · rintro ⟨hsame, horder⟩
    rw [sortBy_of_sorted (List.pairwise_map.mpr horder)]
    exact List.map_congr_left fun x hx => (hsame x hx).symm

/-- A change that is done once for all shows in the sorted rows. -/
theorem sortBy_map_eq_iff {change : β → β} (hchange : ∀ row, change (change row) = change row) :
    sortBy key rows = sortBy key (rows.map change) ↔ ∀ row ∈ rows, change row = row := by
  constructor
  · intro h row hrow
    have hmem : row ∈ rows.map change := by rwa [← @mem_sortBy _ _ _ key, ← h, mem_sortBy]
    obtain ⟨other, -, rfl⟩ := List.mem_map.mp hmem
    exact hchange other
  · intro h
    have hid : rows.map change = rows := (List.map_congr_left h).trans (List.map_id rows)
    rw [hid]

end SortedRows

namespace Gmeow.Toon

open SortedRows

/-! ## Values -/

/-- A value of type `any`; `other` is a number, or a value of a type that only Go has. -/
inductive Value (V : Type) : Type
  | null
  | bool (b : Bool)
  | integer (n : Int)
  | string (s : String)
  | list (items : List (Value V))
  | object (fields : List (String × Value V))
  | other (v : V)

/-- `map[string]any`. -/
abbrev Data (V : Type) : Type := OrdMap String (Value V)

/-- What JSON does to values: strings lose what is not UTF-8, integers become `float64`, times
become texts. -/
structure Codec (V T : Type) : Type where
  clean : String → String
  clean_clean : ∀ s, clean (clean s) = clean s
  clean_eq_empty : ∀ s, clean s = "" ↔ s = ""
  /-- an integer as `float64` and back -/
  round : Int → Int
  round_round : ∀ n, round (round n) = round n
  round_zero : round 0 = 0
  /-- a value of `map[string]any`, written and read back -/
  read : Value V → Value V
  isZero : T → Bool
  /-- `value.UTC().Format(time.RFC3339Nano)` -/
  utc : T → String
  /-- `MarshalJSON` -/
  stamp : T → String
  stamp_ne : ∀ t, stamp t ≠ ""

variable {V T : Type}

/-- `value[key]`; `nil` if there is none. -/
def field (fields : List (String × Value V)) (key : String) : Value V :=
  (fields.lookup key).getD .null

/-- `mapValue`. -/
def mapValue : Value V → Option (List (String × Value V))
  | .object fields => some fields
  | _ => none

/-- `anyMapValue`. -/
def anyMapValue (value : Value V) : Data V :=
  ((mapValue value).getD []).foldl (fun data e => data.set e.1 e.2) ∅

/-- `firstMapValue`. -/
def firstMapValue (first second : Value V) : Data V :=
  if (anyMapValue first).entries = [] then anyMapValue second else anyMapValue first

/-- `listValueOrEmpty`. -/
def listValue : Value V → List (Value V)
  | .list items => items
  | _ => []

/-- `stringValue`. -/
def stringValue : Value V → String
  | .string s => s
  | _ => ""

/-- `stringListValue`. -/
def stringListValue (value : Value V) : List String :=
  ((listValue value).map stringValue).filter (· ≠ "")

/-- `boolValue`. -/
def boolValue : Value V → Bool
  | .bool b => b
  | _ => false

/-- `intValue`, `int64Value`. -/
def intValue : Value V → Int
  | .integer n => n
  | _ => 0

/-! ## Responses -/

/-- `Facet`. -/
structure Facet (V : Type) : Type where
  metadata : Data V := ∅
  attributes : Data V := ∅
  kind : String
  name : String := ""
  version : String := ""

/-- `FacetKind`. -/
def Facet.facetKind (facet : Facet V) : String := if facet.kind ≠ "" then facet.kind else facet.name

/-- `Provenance`. -/
structure Provenance (T : Type) : Type where
  observedAt : T
  sourceKind : String
  sourceName : String
  externalID : String
  externalVersion : String

/-- `CompoundPart` and `toonPartRow`. -/
structure Part : Type where
  role : String
  digest : String
  order : Int
  required : Bool

/-- `CanonicalSelectedHeaders` and `toonSelectedHeaders`. -/
structure SelectedHeaders : Type where
  date : String
  sender : String
  recipient : String
  cc : String
  subject : String

/-- `CanonicalMessageLink` and `toonGraphLink`. -/
structure GraphLink : Type where
  rel : String
  url : String

/-- `CanonicalMessageAttachment` and `toonAttachment`. -/
structure Attachment : Type where
  retrievalID : String
  filename : String
  mediaType : String
  summary : String

/-- `CanonicalMessage` with its graph, and `toonMessage`, which has the same fields. -/
structure Message (V : Type) : Type where
  messageID : String
  digest : String
  objectID : String
  threadID : String
  selectedHeaders : SelectedHeaders
  summary : String
  bullets : List String
  categories : List String
  source : Data V
  topics : List String
  actions : List String
  links : List GraphLink
  body : String
  attachments : List Attachment

/-- `Manifest`, as far as it is shown; of a title its value. -/
structure Manifest (V T : Type) : Type where
  digest : String
  objectID : String
  mediaType : String
  compression : String
  createdAt : T
  updatedAt : T
  size : Int
  facets : List (Facet V)
  titles : List String
  provenance : List (Provenance T)
  isCompound : Bool
  parts : List Part

/-- `RetrieveResponse`. -/
structure RetrieveResponse (V T : Type) : Type where
  manifest : Manifest V T
  message : Option (Message V)
  content : String

/-- `toonFacetRow`. -/
structure FacetRow (V : Type) : Type where
  kind : String
  name : String
  version : String
  data : Data V

/-- `toonProvenanceRow`. -/
structure ProvenanceRow : Type where
  observedAt : String
  sourceKind : String
  sourceName : String
  externalID : String
  externalVersion : String

/-- `toonRetrieveOutput`; `nil` is an empty list. -/
structure RetrieveOutput (V : Type) : Type where
  tool : String
  message : Option (Message V)
  digest : String
  objectID : String
  mediaType : String
  compression : String
  createdAt : String
  updatedAt : String
  facets : List (FacetRow V)
  titles : List String
  provenance : List ProvenanceRow
  isCompound : Bool
  parts : List Part
  content : String
  size : Int

/-! ## Live results -/

/-- The order of facet rows. -/
def FacetRow.key (row : FacetRow V) : String ×ₗ String := toLex (row.kind, row.name)

/-- The order of provenance rows. -/
def ProvenanceRow.key (row : ProvenanceRow) : String ×ₗ String ×ₗ String :=
  toLex (row.sourceKind, toLex (row.sourceName, row.externalID))

/-- The order of `sortParts`. -/
def Part.key (part : Part) : String ×ₗ Int ×ₗ String :=
  toLex (part.role, toLex (part.order, part.digest))

/-- A row of `toonFacets`. -/
def toonFacet (item : Facet V) : FacetRow V :=
  ⟨item.facetKind, item.name, item.version, item.attributes.merge item.metadata⟩

/-- `toonFacets`. -/
def toonFacets (items : List (Facet V)) : List (FacetRow V) :=
  sortBy FacetRow.key (items.map toonFacet)

section Live

variable (codec : Codec V T)

/-- `formatTime`. -/
def formatTime (value : T) : String := if codec.isZero value then "" else codec.utc value

/-- A row of `toonProvenance`. -/
def toonProvenanceRow (item : Provenance T) : ProvenanceRow :=
  ⟨formatTime codec item.observedAt, item.sourceKind, item.sourceName, item.externalID,
    item.externalVersion⟩

/-- `toonProvenance`. -/
def toonProvenance (items : List (Provenance T)) : List ProvenanceRow :=
  sortBy ProvenanceRow.key (items.map (toonProvenanceRow codec))

/-- `toonRetrieve`. -/
def toonRetrieve (response : RetrieveResponse V T) : RetrieveOutput V :=
  let manifest := response.manifest
  { tool := "object_retrieve"
    digest := manifest.digest
    objectID := manifest.objectID
    mediaType := manifest.mediaType
    size := manifest.size
    compression := manifest.compression
    createdAt := formatTime codec manifest.createdAt
    updatedAt := formatTime codec manifest.updatedAt
    facets := toonFacets manifest.facets
    titles := manifest.titles.filter (· ≠ "")
    provenance := toonProvenance codec manifest.provenance
    isCompound := manifest.isCompound
    parts := sortBy Part.key manifest.parts
    content := response.content
    message := response.message }

end Live

/-! ## Stored results -/

/-- The rows of a list value; values that are no maps are passed over. -/
def rowsFromValue {Row : Type} (row : List (String × Value V) → Row) (value : Value V) : List Row :=
  ((listValue value).filterMap mapValue).map row

/-- `toonFacetRowsFromValue`. -/
def toonFacetRowsFromValue : Value V → List (FacetRow V) :=
  rowsFromValue fun facet =>
    { kind := stringValue (field facet "kind")
      name := stringValue (field facet "name")
      version := stringValue (field facet "version")
      data := firstMapValue (field facet "attributes") (field facet "metadata") }

/-- `toonTitlesFromValue`. -/
def toonTitlesFromValue (value : Value V) : List String :=
  (rowsFromValue (fun title => stringValue (field title "value")) value).filter (· ≠ "")

/-- `toonProvenanceRowsFromValue`. -/
def toonProvenanceRowsFromValue : Value V → List ProvenanceRow :=
  rowsFromValue fun entry =>
    { observedAt := stringValue (field entry "observed_at")
      sourceKind := stringValue (field entry "source_kind")
      sourceName := stringValue (field entry "source_name")
      externalID := stringValue (field entry "external_id")
      externalVersion := stringValue (field entry "external_version") }

/-- The parts of `toonCompoundFromValue`. -/
def toonPartsFromValue (value : Value V) : List Part :=
  sortBy Part.key (rowsFromValue (fun part =>
    { role := stringValue (field part "role")
      digest := stringValue (field part "digest")
      order := intValue (field part "order")
      required := boolValue (field part "required") }) value)

/-- `toonMessageFromValue`. -/
def toonMessageFromValue (value : Value V) : Option (Message V) :=
  (mapValue value).map fun raw =>
    let headers := (mapValue (field raw "selected_headers")).getD []
    let graph := (mapValue (field raw "graph")).getD []
    { messageID := stringValue (field raw "message_id")
      digest := stringValue (field raw "digest")
      objectID := stringValue (field raw "object_id")
      threadID := stringValue (field raw "thread_id")
      selectedHeaders :=
        { date := stringValue (field headers "date")
          sender := stringValue (field headers "from")
          recipient := stringValue (field headers "to")
          cc := stringValue (field headers "cc")
          subject := stringValue (field headers "subject") }
      summary := stringValue (field raw "summary")
      bullets := stringListValue (field raw "bullets")
      categories := stringListValue (field raw "categories")
      source := anyMapValue (field graph "source")
      topics := stringListValue (field graph "topics")
      actions := stringListValue (field graph "actions")
      links := rowsFromValue (fun link =>
        ⟨stringValue (field link "rel"), stringValue (field link "url")⟩) (field graph "links")
      body := stringValue (field raw "body")
      attachments := rowsFromValue (fun attachment =>
        { retrievalID := stringValue (field attachment "retrieval_id")
          filename := stringValue (field attachment "filename")
          mediaType := stringValue (field attachment "media_type")
          summary := stringValue (field attachment "summary") }) (field raw "attachments") }

/-- `toonRetrieveFromMap`. -/
def toonRetrieveFromMap (value : List (String × Value V)) : Option (RetrieveOutput V) :=
  (mapValue (field value "manifest")).map fun manifest =>
    let compound := (mapValue (field manifest "compound")).getD []
    { tool := "object_retrieve"
      digest := stringValue (field manifest "digest")
      objectID := stringValue (field manifest "object_id")
      mediaType := stringValue (field manifest "media_type")
      size := intValue (field manifest "size")
      compression := stringValue (field manifest "compression")
      createdAt := stringValue (field manifest "created_at")
      updatedAt := stringValue (field manifest "updated_at")
      facets := toonFacetRowsFromValue (field manifest "facets")
      titles := toonTitlesFromValue (field manifest "titles")
      provenance := toonProvenanceRowsFromValue (field manifest "provenance")
      isCompound := boolValue (field compound "is_compound")
      parts := toonPartsFromValue (field compound "parts")
      content := stringValue (field value "content")
      message := toonMessageFromValue (field value "message") }

/-! ## JSON -/

section Json

variable (codec : Codec V T)

/-- A string. -/
def jsonString (s : String) : Value V := .string (codec.clean s)

/-- A string with `omitempty`; what is left out is `nil` for whoever looks for it. -/
def omitEmpty (s : String) : Value V := if s = "" then .null else jsonString codec s

/-- Strings. -/
def jsonStrings (items : List String) : Value V := .list (items.map (jsonString codec))

/-- The bindings of a map as they come back. -/
def readData (data : Data V) : Data V :=
  data.entries.foldl (fun found e => found.set (codec.clean e.1) (codec.read e.2)) ∅

/-- A map with `omitempty`. -/
def jsonData (data : Data V) : Value V :=
  if data.entries = [] then .null else .object (readData codec data).entries

/-- An integer with `omitempty`. -/
def omitZero (n : Int) : Value V := if n = 0 then .null else .integer (codec.round n)

/-- A facet. -/
def jsonFacet (facet : Facet V) : Value V := .object
  [("metadata", jsonData codec facet.metadata), ("attributes", jsonData codec facet.attributes),
    ("kind", jsonString codec facet.kind), ("name", omitEmpty codec facet.name),
    ("version", omitEmpty codec facet.version)]

/-- A provenance. -/
def jsonProvenance (item : Provenance T) : Value V := .object
  [("observed_at", .string (codec.stamp item.observedAt)),
    ("source_name", jsonString codec item.sourceName),
    ("source_kind", jsonString codec item.sourceKind),
    ("external_id", omitEmpty codec item.externalID),
    ("external_version", omitEmpty codec item.externalVersion)]

/-- A part. -/
def jsonPart (part : Part) : Value V := .object
  [("digest", jsonString codec part.digest), ("role", jsonString codec part.role),
    ("order", omitZero codec part.order),
    ("required", if part.required then .bool true else .null)]

/-- A message. -/
def jsonMessage (message : Message V) : Value V := .object
  [("graph", .object
      [("source", jsonData codec message.source), ("topics", jsonStrings codec message.topics),
        ("actions", jsonStrings codec message.actions),
        ("links", .list (message.links.map fun link => .object
          [("rel", jsonString codec link.rel), ("url", jsonString codec link.url)]))]),
    ("selected_headers", .object
      [("date", omitEmpty codec message.selectedHeaders.date),
        ("from", omitEmpty codec message.selectedHeaders.sender),
        ("to", omitEmpty codec message.selectedHeaders.recipient),
        ("cc", omitEmpty codec message.selectedHeaders.cc),
        ("subject", omitEmpty codec message.selectedHeaders.subject)]),
    ("message_id", omitEmpty codec message.messageID), ("digest", jsonString codec message.digest),
    ("object_id", omitEmpty codec message.objectID),
    ("thread_id", omitEmpty codec message.threadID), ("summary", omitEmpty codec message.summary),
    ("bullets", jsonStrings codec message.bullets),
    ("categories", jsonStrings codec message.categories), ("body", omitEmpty codec message.body),
    ("attachments", .list (message.attachments.map fun attachment => .object
      [("retrieval_id", jsonString codec attachment.retrievalID),
        ("filename", omitEmpty codec attachment.filename),
        ("media_type", omitEmpty codec attachment.mediaType),
        ("summary", omitEmpty codec attachment.summary)]))]

/-- A manifest. -/
def jsonManifest (manifest : Manifest V T) : Value V := .object
  [("updated_at", .string (codec.stamp manifest.updatedAt)),
    ("created_at", .string (codec.stamp manifest.createdAt)),
    ("digest", jsonString codec manifest.digest),
    ("object_id", jsonString codec manifest.objectID),
    ("media_type", omitEmpty codec manifest.mediaType),
    ("compression", jsonString codec manifest.compression),
    ("compound", .object [("parts", .list (manifest.parts.map (jsonPart codec))),
      ("is_compound", .bool manifest.isCompound)]),
    ("provenance", .list (manifest.provenance.map (jsonProvenance codec))),
    ("titles", .list (manifest.titles.map fun title =>
      .object [("value", jsonString codec title)])),
    ("facets", .list (manifest.facets.map (jsonFacet codec))),
    ("size", .integer (codec.round manifest.size))]

/-- The map of a response that was written as JSON and read back. -/
def jsonResponse (response : RetrieveResponse V T) : List (String × Value V) :=
  [("manifest", jsonManifest codec response.manifest),
    ("message", (response.message.map (jsonMessage codec)).getD .null),
    ("content", omitEmpty codec response.content)]

/-- **The stored result is shown as the live one.** -/
def Alike (response : RetrieveResponse V T) : Prop :=
  toonRetrieveFromMap (jsonResponse codec response) = some (toonRetrieve codec response)

/-! ## Plain responses -/

/-- The strings survive JSON. -/
def Clean (strings : List String) : Prop := ∀ s ∈ strings, codec.clean s = s

/-- The time is not zero and reads the same in UTC. -/
def PlainTime (value : T) : Prop := codec.isZero value = false ∧ codec.utc value = codec.stamp value

/-- The facet has a kind or no name, and its metadata adds nothing to its attributes. -/
@[mk_iff] structure PlainFacet (facet : Facet V) : Prop where
  strings : Clean codec [facet.kind, facet.name, facet.version]
  named : facet.kind = "" → facet.name = ""
  attributes : facet.attributes.entries ≠ [] →
    readData codec facet.attributes = facet.attributes.merge facet.metadata
  metadata : facet.attributes.entries = [] →
    readData codec facet.metadata = facet.attributes.merge facet.metadata

/-- The lists of strings of a message. -/
def Message.items (message : Message V) : List String :=
  message.bullets ++ (message.categories ++ (message.topics ++ message.actions))

/-- The single strings of a message. -/
def Message.strings (message : Message V) : List String :=
  [message.messageID, message.digest, message.objectID, message.threadID,
    message.selectedHeaders.date, message.selectedHeaders.sender,
    message.selectedHeaders.recipient, message.selectedHeaders.cc,
    message.selectedHeaders.subject, message.summary, message.body] ++
  (message.links.flatMap (fun link => [link.rel, link.url]) ++
    message.attachments.flatMap fun attachment =>
      [attachment.retrievalID, attachment.filename, attachment.mediaType, attachment.summary])

/-- The message survives JSON, and its lists have no empty item. -/
@[mk_iff] structure PlainMessage (message : Message V) : Prop where
  strings : Clean codec message.strings
  items : Clean codec message.items ∧ ∀ s ∈ message.items, s ≠ ""
  source : readData codec message.source = message.source

/-- **Responses that are shown alike.** -/
@[mk_iff] structure PlainResponse (response : RetrieveResponse V T) : Prop where
  strings : Clean codec [response.manifest.digest, response.manifest.objectID,
    response.manifest.mediaType, response.manifest.compression, response.content]
  times : PlainTime codec response.manifest.createdAt ∧ PlainTime codec response.manifest.updatedAt
  size : codec.round response.manifest.size = response.manifest.size
  titles : Clean codec response.manifest.titles
  facets : ∀ facet ∈ response.manifest.facets, PlainFacet codec facet
  facetOrder : response.manifest.facets.Pairwise fun a b => (toonFacet a).key ≤ (toonFacet b).key
  provenance : ∀ item ∈ response.manifest.provenance, PlainTime codec item.observedAt ∧
    Clean codec [item.sourceKind, item.sourceName, item.externalID, item.externalVersion]
  provenanceOrder : response.manifest.provenance.Pairwise fun a b =>
    (toonProvenanceRow codec a).key ≤ (toonProvenanceRow codec b).key
  parts : ∀ part ∈ response.manifest.parts, Clean codec [part.role, part.digest] ∧
    codec.round part.order = part.order
  message : ∀ message ∈ response.message, PlainMessage codec message

/-! ## What is read back -/

@[simp] theorem stringValue_string (s : String) : stringValue (.string s : Value V) = s := rfl

@[simp] theorem stringValue_jsonString (s : String) :
    stringValue (jsonString codec s) = codec.clean s := rfl

@[simp] theorem stringValue_omitEmpty (s : String) :
    stringValue (omitEmpty codec s) = codec.clean s := by
  rw [omitEmpty]
  split
  · rename_i h
    rw [h, (codec.clean_eq_empty "").mpr rfl]
    rfl
  · rfl

@[simp] theorem stringListValue_jsonStrings (items : List String) :
    stringListValue (jsonStrings codec items) = (items.map codec.clean).filter (· ≠ "") := by
  rw [stringListValue, jsonStrings, listValue, List.map_map]
  rfl

@[simp] theorem intValue_omitZero (n : Int) : intValue (omitZero codec n) = codec.round n := by
  rw [omitZero]
  split
  · rename_i h
    rw [h, codec.round_zero]
    rfl
  · rfl

@[simp] theorem anyMapValue_jsonData (data : Data V) :
    anyMapValue (jsonData codec data) = readData codec data := by
  rw [jsonData]
  split
  · rename_i h
    rw [readData, h]
    rfl
  · exact OrdMap.foldl_set_entries _

theorem entries_readData (data : Data V) :
    (readData codec data).entries = [] ↔ data.entries = [] := by
  constructor
  · intro h
    rcases List.eq_nil_or_concat data.entries with hnil | ⟨front, e, hentries⟩
    · exact hnil
    · have hget : (readData codec data).get (codec.clean e.1) = some (codec.read e.2) := by
        rw [readData, hentries, List.concat_eq_append, List.foldl_append]
        exact OrdMap.get_set_self _ _ _
      rw [← OrdMap.mem_entries_iff, h] at hget
      cases hget
  · intro h
    rw [readData, h]
    rfl

theorem rowsFromValue_map {α Row : Type} (row : List (String × Value V) → Row)
    (fields : α → List (String × Value V)) (items : List α) :
    rowsFromValue row (.list (items.map fun x => .object (fields x))) =
      items.map fun x => row (fields x) := by
  rw [rowsFromValue, listValue, List.filterMap_map]
  have hsome : (mapValue ∘ fun x => Value.object (fields x)) = fun x => some (fields x) := rfl
  rw [hsome, List.filterMap_eq_map', List.map_map]
  rfl

/-- A facet as it is read back. -/
def storedFacet (facet : Facet V) : FacetRow V :=
  ⟨codec.clean facet.kind, codec.clean facet.name, codec.clean facet.version,
    if facet.attributes.entries = [] then readData codec facet.metadata
    else readData codec facet.attributes⟩

theorem facets_read (facets : List (Facet V)) :
    toonFacetRowsFromValue (.list (facets.map (jsonFacet codec))) =
      facets.map (storedFacet codec) := by
  refine (rowsFromValue_map _ _ facets).trans (List.map_congr_left fun facet _ => ?_)
  simp [field, List.lookup, firstMapValue, storedFacet, entries_readData]

/-- A provenance as it is read back. -/
def storedProvenance (item : Provenance T) : ProvenanceRow :=
  ⟨codec.stamp item.observedAt, codec.clean item.sourceKind, codec.clean item.sourceName,
    codec.clean item.externalID, codec.clean item.externalVersion⟩

theorem provenance_read (items : List (Provenance T)) :
    toonProvenanceRowsFromValue (.list (items.map (jsonProvenance codec))) =
      items.map (storedProvenance codec) := by
  refine (rowsFromValue_map _ _ items).trans (List.map_congr_left fun item _ => ?_)
  simp [field, List.lookup, storedProvenance]

/-- A part as it is read back. -/
def storedPart (part : Part) : Part :=
  ⟨codec.clean part.role, codec.clean part.digest, codec.round part.order, part.required⟩

theorem parts_read (parts : List Part) :
    toonPartsFromValue (.list (parts.map (jsonPart codec))) =
      sortBy Part.key (parts.map (storedPart codec)) := by
  rw [toonPartsFromValue]
  congr 1
  refine (rowsFromValue_map _ _ parts).trans (List.map_congr_left fun part _ => ?_)
  cases hrequired : part.required <;>
    simp [field, List.lookup, storedPart, boolValue, hrequired]

theorem titles_read (titles : List String) :
    toonTitlesFromValue (.list (titles.map fun title =>
      .object [("value", jsonString codec title)])) =
      (titles.map codec.clean).filter (· ≠ "") := by
  rw [toonTitlesFromValue, rowsFromValue_map]
  congr 1

/-- A message as it is read back. -/
def storedMessage (message : Message V) : Message V :=
  { messageID := codec.clean message.messageID
    digest := codec.clean message.digest
    objectID := codec.clean message.objectID
    threadID := codec.clean message.threadID
    selectedHeaders :=
      ⟨codec.clean message.selectedHeaders.date, codec.clean message.selectedHeaders.sender,
        codec.clean message.selectedHeaders.recipient, codec.clean message.selectedHeaders.cc,
        codec.clean message.selectedHeaders.subject⟩
    summary := codec.clean message.summary
    bullets := (message.bullets.map codec.clean).filter (· ≠ "")
    categories := (message.categories.map codec.clean).filter (· ≠ "")
    source := readData codec message.source
    topics := (message.topics.map codec.clean).filter (· ≠ "")
    actions := (message.actions.map codec.clean).filter (· ≠ "")
    links := message.links.map fun link => ⟨codec.clean link.rel, codec.clean link.url⟩
    body := codec.clean message.body
    attachments := message.attachments.map fun attachment =>
      ⟨codec.clean attachment.retrievalID, codec.clean attachment.filename,
        codec.clean attachment.mediaType, codec.clean attachment.summary⟩ }

theorem message_read (message : Message V) :
    toonMessageFromValue (jsonMessage codec message) = some (storedMessage codec message) := by
  simp [toonMessageFromValue, jsonMessage, mapValue, field, List.lookup, rowsFromValue_map,
    storedMessage]

/-- **What is shown of the map of a response.** -/
theorem fromMap_jsonResponse (response : RetrieveResponse V T) :
    toonRetrieveFromMap (jsonResponse codec response) = some
      { tool := "object_retrieve"
        digest := codec.clean response.manifest.digest
        objectID := codec.clean response.manifest.objectID
        mediaType := codec.clean response.manifest.mediaType
        size := codec.round response.manifest.size
        compression := codec.clean response.manifest.compression
        createdAt := codec.stamp response.manifest.createdAt
        updatedAt := codec.stamp response.manifest.updatedAt
        facets := response.manifest.facets.map (storedFacet codec)
        titles := (response.manifest.titles.map codec.clean).filter (· ≠ "")
        provenance := response.manifest.provenance.map (storedProvenance codec)
        isCompound := response.manifest.isCompound
        parts := sortBy Part.key (response.manifest.parts.map (storedPart codec))
        content := codec.clean response.content
        message := response.message.map (storedMessage codec) } := by
  have hmessage : toonMessageFromValue ((response.message.map (jsonMessage codec)).getD .null) =
      response.message.map (storedMessage codec) := by
    cases response.message with
    | none => rfl
    | some message => exact message_read codec message
  simp [toonRetrieveFromMap, jsonResponse, jsonManifest, mapValue, field, List.lookup, facets_read,
    provenance_read, parts_read, titles_read, hmessage, intValue, boolValue]

/-! ## When the two agree -/

theorem clean_cons (s : String) (strings : List String) :
    Clean codec (s :: strings) ↔ codec.clean s = s ∧ Clean codec strings := List.forall_mem_cons

theorem clean_nil : Clean codec [] := nofun

theorem clean_append (strings more : List String) :
    Clean codec (strings ++ more) ↔ Clean codec strings ∧ Clean codec more :=
  List.forall_mem_append

theorem map_eq_self_iff {α : Type} {f : α → α} {l : List α} : l.map f = l ↔ ∀ x ∈ l, f x = x := by
  conv_lhs => rhs; rw [← List.map_id l]
  exact List.map_inj_left

theorem items_eq_iff (items : List String) :
    (items.map codec.clean).filter (· ≠ "") = items ↔
      Clean codec items ∧ ∀ s ∈ items, s ≠ "" := by
  constructor
  · intro h
    have hmem : ∀ s ∈ items, ∃ t ∈ items, codec.clean t = s ∧ s ≠ "" := by
      intro s hs
      rw [← h] at hs
      obtain ⟨hs, hne⟩ := List.mem_filter.mp hs
      obtain ⟨t, ht, hts⟩ := List.mem_map.mp hs
      exact ⟨t, ht, hts, by simpa using hne⟩
    refine ⟨fun s hs => ?_, fun s hs => ?_⟩
    · obtain ⟨t, -, rfl, -⟩ := hmem s hs
      exact codec.clean_clean t
    · obtain ⟨t, -, -, hne⟩ := hmem s hs
      exact hne
  · rintro ⟨hclean, hne⟩
    rw [map_eq_self_iff.mpr hclean, List.filter_eq_self]
    exact fun s hs => by simpa using hne s hs

theorem titles_eq_iff (titles : List String) :
    (titles.map codec.clean).filter (· ≠ "") = titles.filter (· ≠ "") ↔ Clean codec titles := by
  have hfilter : (titles.map codec.clean).filter (· ≠ "") =
      (titles.filter (· ≠ "")).map codec.clean := by
    rw [List.filter_map]
    congr 1
    refine List.filter_congr fun s _ => ?_
    simp [codec.clean_eq_empty]
  rw [hfilter, map_eq_self_iff]
  constructor
  · intro h s hs
    by_cases hempty : s = ""
    · rw [hempty, (codec.clean_eq_empty "").mpr rfl]
    · exact h s (List.mem_filter.mpr ⟨hs, by simpa using hempty⟩)
  · exact fun h s hs => h s (List.mem_of_mem_filter hs)

theorem time_eq_iff (value : T) : codec.stamp value = formatTime codec value ↔
    PlainTime codec value := by
  rw [formatTime, PlainTime]
  cases codec.isZero value with
  | true => simpa using codec.stamp_ne value
  | false => simp [eq_comm]

theorem clean_flatMap {α : Type} (strings : α → List String) (items : List α) :
    Clean codec (items.flatMap strings) ↔ ∀ x ∈ items, Clean codec (strings x) := by
  constructor
  · exact fun h x hx s hs => h s (List.mem_flatMap.mpr ⟨x, hx, hs⟩)
  · intro h s hs
    obtain ⟨x, hx, hsx⟩ := List.mem_flatMap.mp hs
    exact h x hx s hsx

/-- A message is stored as it is exactly if its texts are clean, no item of its lists is empty, and
its source is read back as it was. -/
theorem storedMessage_eq_iff (message : Message V) :
    storedMessage codec message = message ↔ PlainMessage codec message := by
  obtain ⟨messageID, digest, objectID, threadID, ⟨date, sender, recipient, cc, subject⟩, summary,
    bullets, categories, source, topics, actions, links, body, attachments⟩ := message
  have hlinks : (links.map fun link : GraphLink =>
      (⟨codec.clean link.rel, codec.clean link.url⟩ : GraphLink)) = links ↔
      Clean codec (links.flatMap fun link => [link.rel, link.url]) := by
    rw [map_eq_self_iff, clean_flatMap]
    refine forall₂_congr fun link _ => ?_
    cases link
    simp [clean_cons, clean_nil]
  have hattachments : (attachments.map fun attachment : Attachment =>
      (⟨codec.clean attachment.retrievalID, codec.clean attachment.filename,
        codec.clean attachment.mediaType, codec.clean attachment.summary⟩ : Attachment)) =
        attachments ↔ Clean codec (attachments.flatMap fun attachment =>
      [attachment.retrievalID, attachment.filename, attachment.mediaType, attachment.summary]) := by
    rw [map_eq_self_iff, clean_flatMap]
    refine forall₂_congr fun attachment _ => ?_
    cases attachment
    simp [clean_cons, clean_nil]
  simp only [storedMessage, Message.mk.injEq, SelectedHeaders.mk.injEq, items_eq_iff, hlinks,
    hattachments, plainMessage_iff, Message.strings, Message.items, clean_append, clean_cons,
    clean_nil, List.forall_mem_append]
  tauto

theorem message_eq_iff (message : Option (Message V)) :
    message.map (storedMessage codec) = message ↔ ∀ m ∈ message, PlainMessage codec m := by
  cases message with
  | none => simp
  | some m => simpa using storedMessage_eq_iff codec m

/-- The exact condition for a facet. -/
theorem storedFacet_eq_iff (facet : Facet V) :
    storedFacet codec facet = toonFacet facet ↔ PlainFacet codec facet := by
  have hkind : codec.clean facet.kind = facet.facetKind ↔
      codec.clean facet.kind = facet.kind ∧ (facet.kind = "" → facet.name = "") := by
    have hempty : codec.clean "" = "" := (codec.clean_eq_empty "").mpr rfl
    rw [Facet.facetKind]
    by_cases h : facet.kind = ""
    · simp only [h, hempty, ne_eq, not_true_eq_false, if_false, true_and, true_implies]
      exact eq_comm
    · simp [h]
  rw [storedFacet, toonFacet, FacetRow.mk.injEq, hkind, plainFacet_iff]
  simp only [clean_cons, clean_nil]
  split
  · rename_i h
    simp only [h, ne_eq, not_true_eq_false, false_implies, true_implies]
    tauto
  · rename_i h
    simp only [h, ne_eq, not_false_eq_true, false_implies, true_implies]
    tauto

/-- Rows that are found on both sides have the same place. -/
theorem facet_key {facet other another : Facet V}
    (hlive : toonFacet facet = storedFacet codec other)
    (hstored : storedFacet codec facet = toonFacet another) :
    (storedFacet codec facet).key = (toonFacet facet).key := by
  have hkind : facet.facetKind = codec.clean other.kind := congrArg FacetRow.kind hlive
  have hname : facet.name = codec.clean other.name := congrArg FacetRow.name hlive
  have hclean : codec.clean facet.name = facet.name := by rw [hname, codec.clean_clean]
  have hsame : codec.clean facet.kind = facet.facetKind := by
    by_cases h : facet.kind = ""
    · -- without a kind the other side has neither kind nor name
      have hother : another.facetKind = "" := by
        rw [← show codec.clean facet.kind = another.facetKind from congrArg FacetRow.kind hstored]
        exact (codec.clean_eq_empty _).mpr h
      have hempty : another.name = "" := by
        rw [Facet.facetKind] at hother
        split at hother
        · exact absurd hother ‹_›
        · exact hother
      have hnone : facet.name = "" := by
        rw [← codec.clean_eq_empty]
        exact (congrArg FacetRow.name hstored).trans hempty
      rw [Facet.facetKind, h, hnone, (codec.clean_eq_empty "").mpr rfl]
      rfl
    · rw [Facet.facetKind, if_pos h] at hkind ⊢
      rw [hkind, codec.clean_clean]
  rw [FacetRow.key, storedFacet, hsame, hclean]
  rfl

theorem facets_eq_iff (facets : List (Facet V)) :
    facets.map (storedFacet codec) = toonFacets facets ↔
      (∀ facet ∈ facets, PlainFacet codec facet) ∧
        facets.Pairwise fun a b => (toonFacet a).key ≤ (toonFacet b).key := by
  rw [eq_comm, toonFacets, sortBy_eq_map_iff]
  · simp only [storedFacet_eq_iff]
  · rintro facet - ⟨other, -, hlive⟩ ⟨another, -, hstored⟩
    exact facet_key codec hlive hstored

/-- Provenance is also sorted when it is stored, so it has to come in this order. -/
theorem provenance_eq_iff (items : List (Provenance T)) :
    items.map (storedProvenance codec) = toonProvenance codec items ↔
      (∀ item ∈ items, PlainTime codec item.observedAt ∧
        Clean codec [item.sourceKind, item.sourceName, item.externalID, item.externalVersion]) ∧
      items.Pairwise fun a b =>
        (toonProvenanceRow codec a).key ≤ (toonProvenanceRow codec b).key := by
  rw [eq_comm, toonProvenance, sortBy_eq_map_iff]
  · refine and_congr_left fun _ => forall₂_congr fun item _ => ?_
    rw [storedProvenance, toonProvenanceRow, ProvenanceRow.mk.injEq, time_eq_iff]
    simp [clean_cons, clean_nil]
  · rintro item - ⟨other, -, hlive⟩ -
    have hclean : ∀ {s t : String}, s = codec.clean t → codec.clean s = s := by
      rintro s t rfl
      exact codec.clean_clean t
    have hkind : codec.clean item.sourceKind = item.sourceKind :=
      hclean (congrArg ProvenanceRow.sourceKind hlive)
    have hname : codec.clean item.sourceName = item.sourceName :=
      hclean (congrArg ProvenanceRow.sourceName hlive)
    have hid : codec.clean item.externalID = item.externalID :=
      hclean (congrArg ProvenanceRow.externalID hlive)
    simp only [storedProvenance, toonProvenanceRow, ProvenanceRow.key, hkind, hname, hid]

theorem parts_eq_iff (parts : List Part) :
    sortBy Part.key (parts.map (storedPart codec)) = sortBy Part.key parts ↔
      ∀ part ∈ parts, Clean codec [part.role, part.digest] ∧
        codec.round part.order = part.order := by
  rw [eq_comm, sortBy_map_eq_iff]
  · refine forall₂_congr fun part _ => ?_
    cases part
    simp [storedPart, clean_cons, clean_nil, and_assoc]
  · intro part
    simp [storedPart, codec.clean_clean, codec.round_round]

/-- **Stored results are shown as live ones exactly for plain responses.** -/
theorem alike_iff (response : RetrieveResponse V T) :
    Alike codec response ↔ PlainResponse codec response := by
  rw [Alike, fromMap_jsonResponse, toonRetrieve]
  simp only [Option.some.injEq, RetrieveOutput.mk.injEq, message_eq_iff, facets_eq_iff,
    titles_eq_iff, provenance_eq_iff, parts_eq_iff, time_eq_iff, plainResponse_iff, clean_cons,
    clean_nil]
  tauto

end Json

theorem newYear_ne : "2026-01-01T00:00:00Z" ≠ "" := by decide

/-- JSON that changes nothing, and one time. -/
def plainCodec : Codec Unit Unit where
  clean := id
  clean_clean := fun _ => rfl
  clean_eq_empty := fun _ => Iff.rfl
  round := id
  round_round := fun _ => rfl
  round_zero := rfl
  read := id
  isZero := fun _ => false
  utc := fun _ => "2026-01-01T00:00:00Z"
  stamp := fun _ => "2026-01-01T00:00:00Z"
  stamp_ne := fun _ => newYear_ne

/-- A facet with attributes and metadata. -/
def markedFacet : Facet Unit where
  kind := "mail"
  attributes := OrdMap.set ∅ "thread" (.string "t")
  metadata := OrdMap.set ∅ "label" (.string "l")

/-- A response with the facet. -/
def markedResponse : RetrieveResponse Unit Unit where
  manifest := ⟨"d", "o", "", "", (), (), 1, [markedFacet], [], [], false, []⟩
  message := none
  content := ""

/-- The live result shows both bindings of the facet, the stored one only the attribute. -/
theorem marked_not_alike : ¬ Alike plainCodec markedResponse := by
  intro h
  have hlengths := congrArg (Option.map fun output : RetrieveOutput Unit =>
    output.facets.map fun row => row.data.entries.length) h
  revert hlengths
  decide +kernel

end Gmeow.Toon
