import Gmeow.OrdMap
import Gmeow.Text

/-!
# Compression dictionaries

Chunks are compressed with a dictionary chosen by the object's *family*: media
type and content roles name a family, and each family has at most one active
dictionary. `Dictionaries` is the on-disk state under `dictionaries/` together
with the in-memory view of it. A store without any dictionary state installs the
default seeds on first use (`bootstrapDefaultDictionaries`), and the active set is
loaded once.

A chunk remembers only the *id* of its dictionary, so what matters later is that
the file behind an id never changes while chunks refer to it:

* `DictionariesOK` — the loaded active set agrees with the files;
* `activeDictionary_spec` — choosing a dictionary keeps every file that exists and
  returns one whose file holds exactly the bytes used.
-/

namespace Gmeow

/-! ## Families -/

/-- `strings.ToLower` on the ASCII letters, all that the comparisons below see. -/
def toLower (s : String) : String := String.ofList (s.toList.map Char.toLower)

/-- `DictionaryFamilyOpaqueBinary`: content that takes no dictionary. -/
def opaqueBinary : String := "opaque-binary"

/-- `hasRole`. -/
def hasRole (roles : List String) (target : String) : Bool :=
  roles.any fun role => toLower (trimSpace role) = target

/-- `isDictionaryIneligibleMediaType`. -/
def isDictionaryIneligibleMediaType (mediaType : String) : Bool :=
  mediaType = "application/octet-stream" || hasPrefix mediaType "image/" ||
    hasPrefix mediaType "audio/" || hasPrefix mediaType "video/" ||
    hasPrefix mediaType "font/" ||
    ["application/pdf", "application/zip", "application/gzip", "application/x-gzip",
      "application/x-7z-compressed", "application/x-xz", "application/x-bzip2",
      "application/zstd", "application/vnd.rar", "application/vnd.ms-cab-compressed",
      "application/vnd.openxmlformats-officedocument.wordprocessingml.document",
      "application/vnd.openxmlformats-officedocument.spreadsheetml.sheet",
      "application/vnd.openxmlformats-officedocument.presentationml.presentation",
      "application/epub+zip", "application/jar"].contains mediaType ||
    hasSuffix mediaType "+zip"

/-- `isSourceCodeMediaType`. -/
def isSourceCodeMediaType (mediaType : String) : Bool :=
  ["text/x-go", "text/x-python", "text/x-rust", "text/x-java-source", "text/x-c",
    "text/x-c++", "text/x-csharp", "text/x-shellscript", "text/x-sql", "application/sql",
    "application/graphql"].contains mediaType

/-- `genericTextFamily`. -/
def genericTextFamily (mediaType : String) : String :=
  if mediaType = "text/tab-separated-values" then "csv-tsv"
  else if ["text/yaml", "text/x-yaml", "text/toml"].contains mediaType then "yaml-toml"
  else if ["text/markdown", "text/x-rst"].contains mediaType then "document-markup"
  else "logs-line-oriented"

/-- The media-type switch of `dictionaryFamilyForObject`. -/
def familyForMediaType (mediaType : String) : String :=
  if ["message/rfc822", "text/rfc822-headers"].contains mediaType then "mail-rfc822-headers"
  else if mediaType = "text/x-gmeow-patch" then "patch-text"
  else if ["application/vnd.gmeow.mail-message+json",
      "application/vnd.gmeow.gmail-message+json",
      "application/vnd.gmeow.mail-message-variant+json",
      "application/vnd.gmeow.mime-structure+json", "application/vnd.gmeow.version-record+json",
      "application/vnd.gmeow.mail-archive-membership+json"].contains mediaType then
    "gmeow-mail-json"
  else if ["text/turtle", "application/n-triples", "application/ld+json"].contains mediaType then
    "rdf-turtle"
  else if mediaType = "application/json" then "structured-json"
  else if ["application/xml", "text/xml", "application/xhtml+xml",
      "image/svg+xml"].contains mediaType then "structured-xml"
  else if ["text/html", "text/css", "text/javascript",
      "application/javascript"].contains mediaType then "html-css-js"
  else if mediaType = "text/csv" then "csv-tsv"
  else if ["application/x-protobuf", "application/protobuf", "application/msgpack",
      "application/cbor", "application/avro"].contains mediaType then
    "protobuf-msgpack-cbor-avro"
  else if hasSuffix mediaType "+json" then "structured-json"
  else if hasSuffix mediaType "+xml" then "structured-xml"
  else if hasSuffix mediaType "+cbor" || hasSuffix mediaType "+msgpack" ||
      hasSuffix mediaType "+avro" then "protobuf-msgpack-cbor-avro"
  else if isDictionaryIneligibleMediaType mediaType then opaqueBinary
  else if isSourceCodeMediaType mediaType then "source-code"
  else if hasPrefix mediaType "text/" then genericTextFamily mediaType
  else opaqueBinary

/-- `normalizedMediaType`; `parse` is `mime.ParseMediaType`. -/
def normalizedMediaType (parse : String → Option String) (mediaType : String) : String :=
  toLower ((parse (trimSpace mediaType)).getD (trimSpace mediaType))

/-- `dictionaryFamilyForObject`: content roles decide before the media type. -/
def dictionaryFamilyForObject (parse : String → Option String) (mediaType : String)
    (contentRoles : List String) : String :=
  let normalized := normalizedMediaType parse mediaType
  if normalized = "" then opaqueBinary
  else if hasRole contentRoles "rfc822_headers" then "mail-rfc822-headers"
  else if hasRole contentRoles "email_body" then
    if normalized = "text/html" then "mail-body-html" else "mail-body-plain"
  else if hasRole contentRoles "patch_diff" then "patch-text"
  else if hasRole contentRoles "mime_structure" || hasRole contentRoles "mail_variant" ||
      hasRole contentRoles "mail_archive_membership" || hasRole contentRoles "archive_data" ||
      hasRole contentRoles "version_record" then "gmeow-mail-json"
  else familyForMediaType normalized

/-- `sanitizeDictionaryFamily`. -/
def sanitizeDictionaryFamily (family : String) : String :=
  String.ofList ((trimSpace (toLower family)).toList.filter fun char =>
    char.isAlphanum && !char.isUpper || char == '-' || char == '_')

/-! ## Dictionary state -/

/-- `defaultDictionary`, without the descriptive fields. -/
structure DefaultDictionary : Type where
  id : String
  family : String
  bytes : Bytes

/-- `defaultDictionarySeeds`; every seed family is enabled by default. -/
def defaultDictionarySeeds : List DefaultDictionary :=
  [{ id := "1001", family := "mail-rfc822-headers"
     bytes := utf8 ("From: To: Cc: Bcc: Date: Subject: Message-ID: In-Reply-To: References:\r\n" ++
       "Content-Type: text/plain; charset=utf-8\r\nMIME-Version: 1.0\r\n") },
   { id := "1002", family := "mail-body-plain"
     bytes := utf8 ("hello thanks regards wrote forwarded message original message " ++
       "unsubscribe mailing list attachment meeting update\r\n\r\n") },
   { id := "1003", family := "mail-body-html"
     bytes := utf8 ("<html><body><div><p><br><table><tr><td><span style=\"font-family\">" ++
       "</span></td></tr></table></div></body></html>") },
   { id := "1004", family := "gmeow-mail-json"
     bytes := utf8 ("\x7b\"schema_version\":0,\"message_id\":\"\",\"thread_id\":\"\"," ++
       "\"labels\":[],\"headers\":\x7b\x7d," ++
       "\"body_media_type\":\"text/plain\",\"attachments\":[],\"parts\":[]\x7d") },
   { id := "1005", family := "patch-text"
     bytes := utf8 "diff --git a/ b/\nindex --- +++ @@ -1,1 +1,1 @@\n" }]

/-- The dictionary directory and the in-memory view of it. -/
structure Dictionaries : Type where
  /-- `registry.json`: the family of each dictionary id -/
  registry : OrdMap String String := ∅
  /-- `current-by-family/`: the marker file of each family -/
  current : OrdMap String String := ∅
  /-- `dicts/`: the dictionary bytes by id -/
  files : OrdMap String Bytes := ∅
  /-- whether this process already checked for default dictionaries -/
  bootstrapped : Bool := false
  /-- the loaded active dictionaries by family, once loaded -/
  active : Option (OrdMap String (String × Bytes)) := none

/-- `hasDictionaryState`. -/
def hasDictionaryState (d : Dictionaries) : Bool :=
  !d.registry.entries.isEmpty || !d.current.entries.isEmpty || !d.files.entries.isEmpty

/-- Install one default dictionary: its file, registry record and marker. -/
def installDictionary (d : Dictionaries) (seed : DefaultDictionary) : Dictionaries :=
  { d with
    files := d.files.set seed.id seed.bytes
    registry := d.registry.set seed.id seed.family
    current := d.current.set seed.family seed.id }

/-- `bootstrapDefaultDictionaries`. -/
def bootstrapDefaultDictionaries (d : Dictionaries) : Dictionaries :=
  if hasDictionaryState d then d else defaultDictionarySeeds.foldl installDictionary d

/-- `ensureDictionaryBootstrap`. -/
def ensureDictionaryBootstrap (d : Dictionaries) : Dictionaries :=
  if d.bootstrapped then d
  else { bootstrapDefaultDictionaries d with bootstrapped := true }

/-- `loadActiveDictionaryMarker`: the dictionary a family's marker names. -/
def loadActiveDictionaryMarker (d : Dictionaries) (marker family : String) :
    Except String (Option (String × Bytes)) :=
  let id := trimSpace marker
  if id = "" then .ok none
  else
    match d.registry.get id with
    | none => .error ("dictionary \"" ++ id ++ "\" has no registry record")
    | some recorded =>
      if recorded ≠ family then
        .error ("dictionary \"" ++ id ++ "\" registry family \"" ++ recorded ++
          "\" does not match marker family \"" ++ family ++ "\"")
      else
        match d.files.get id with
        | none => .error ("open dictionaries/" ++ id ++ ".dict: no such file or directory")
        | some bytes =>
          if bytes = [] then .error ("dictionary \"" ++ id ++ "\" is empty")
          else .ok (some (id, bytes))

/-- The loop of `loadActiveDictionariesLocked` over the marker files. -/
def loadMarkers (d : Dictionaries) :
    List (String × String) → OrdMap String (String × Bytes) →
      Except String (OrdMap String (String × Bytes))
  | [], active => .ok active
  | (name, marker) :: rest, active =>
    let family := sanitizeDictionaryFamily name
    if family = "" then loadMarkers d rest active
    else
      match loadActiveDictionaryMarker d marker family with
      | .error e => .error e
      | .ok none => loadMarkers d rest active
      | .ok (some dictionary) => loadMarkers d rest (active.set family dictionary)

/-- `loadActiveDictionariesLocked`. -/
def loadActiveDictionaries (d : Dictionaries) : Except String (OrdMap String (String × Bytes)) :=
  loadMarkers d d.current.entries ∅

/-- `activeDictionary`: id and bytes of the family's dictionary, `("", [])` for
none, and the state it leaves behind — also when it fails. -/
def activeDictionary (d : Dictionaries) (family : String) :
    Except String (String × Bytes) × Dictionaries :=
  let family := sanitizeDictionaryFamily family
  if family = "" ∨ family = opaqueBinary then (.ok ("", []), d)
  else
    let d := ensureDictionaryBootstrap d
    match d.active with
    | some active => (.ok ((active.get family).getD ("", [])), d)
    | none =>
      match loadActiveDictionaries d with
      | .error e => (.error e, d)
      | .ok active =>
        (.ok ((active.get family).getD ("", [])), { d with active := some active })

/-- `strconv.ParseUint(id, 10, 32)`. -/
def parseUint32 (id : String) : Option Nat :=
  if id = "" ∨ !(id.toList.all Char.isDigit) then none
  else
    let n := id.toList.foldl (fun n c => 10 * n + (c.toNat - '0'.toNat)) 0
    if n < 2 ^ 32 then some n else none

/-! ## The file behind an id -/

/-- The bytes a chunk recorded under `id` is encoded with: none for the empty id,
the dictionary file otherwise, which has to hold something. -/
def dictionaryBytes (d : Dictionaries) (id : String) : Option Bytes :=
  if id = "" then some [] else (d.files.get id).filter fun bytes => bytes ≠ []

/-- The loaded active set agrees with the files. -/
def DictionariesOK (d : Dictionaries) : Prop :=
  ∀ active, d.active = some active → ∀ family id bytes,
    active.get family = some (id, bytes) → dictionaryBytes d id = some bytes

/-- Every file of `d` is a file of `d'`, unchanged. -/
def FilesKept (d d' : Dictionaries) : Prop :=
  ∀ id bytes, d.files.get id = some bytes → d'.files.get id = some bytes

variable {d : Dictionaries} {id : String}

theorem FilesKept.bytes {d' : Dictionaries} (h : FilesKept d d') {bytes : Bytes}
    (hb : dictionaryBytes d id = some bytes) : dictionaryBytes d' id = some bytes := by
  rw [dictionaryBytes] at hb ⊢
  split at hb
  · rw [if_pos ‹_›]; exact hb
  · rw [if_neg ‹_›]
    obtain ⟨hfile, hne⟩ := Option.filter_eq_some_iff.mp hb
    exact Option.filter_eq_some_iff.mpr ⟨h id bytes hfile, hne⟩

/-- A recorded id other than the empty one has a dictionary file, and not an empty
one. -/
theorem dictionaryBytes_file {bytes : Bytes} (hb : dictionaryBytes d id = some bytes)
    (hid : id ≠ "") : d.files.get id = some bytes ∧ bytes ≠ [] := by
  rw [dictionaryBytes, if_neg hid] at hb
  obtain ⟨hfile, hne⟩ := Option.filter_eq_some_iff.mp hb
  exact ⟨hfile, of_decide_eq_true hne⟩

theorem filesKept_bootstrap (d : Dictionaries) : FilesKept d (ensureDictionaryBootstrap d) := by
  intro id bytes hb
  rw [ensureDictionaryBootstrap]
  split
  · exact hb
  · show (bootstrapDefaultDictionaries d).files.get id = some bytes
    rw [bootstrapDefaultDictionaries]
    split
    · exact hb
    · -- defaults are installed only where no dictionary file exists
      rename_i hstate
      have hfiles : d.files.entries = [] := by
        have : d.files.entries.isEmpty = true := by
          simp only [hasDictionaryState, Bool.not_eq_true, Bool.or_eq_false_iff] at hstate
          simpa using hstate.2
        exact List.isEmpty_iff.mp this
      rw [OrdMap.get, hfiles] at hb
      cases hb

theorem foldl_install_active (d : Dictionaries) :
    ∀ seeds : List DefaultDictionary, (seeds.foldl installDictionary d).active = d.active := by
  intro seeds
  induction seeds generalizing d with
  | nil => rfl
  | cons seed rest ih => rw [List.foldl_cons, ih]; rfl

theorem ensureDictionaryBootstrap_active (d : Dictionaries) :
    (ensureDictionaryBootstrap d).active = d.active := by
  rw [ensureDictionaryBootstrap]
  split
  · rfl
  · show (bootstrapDefaultDictionaries d).active = d.active
    rw [bootstrapDefaultDictionaries]
    split
    · rfl
    · exact foldl_install_active d _

/-- **What a marker names** is registered, and its file is not empty. -/
theorem loadActiveDictionaryMarker_spec {marker family : String} {bytes : Bytes}
    (h : loadActiveDictionaryMarker d marker family = .ok (some (id, bytes))) :
    id ≠ "" ∧ bytes ≠ [] ∧ d.files.get id = some bytes ∧
      ∃ recorded, d.registry.get id = some recorded := by
  simp only [loadActiveDictionaryMarker] at h
  split at h
  · cases h
  · rename_i hid
    split at h
    · cases h
    · rename_i recorded hrecorded
      split at h
      · cases h
      · split at h
        · cases h
        · rename_i found hfile
          split at h
          · cases h
          · rename_i hne
            cases h
            exact ⟨hid, hne, hfile, recorded, hrecorded⟩

/-! ## What is said of a dictionary -/

/-- Something that can be said of the dictionaries of a directory, by id and bytes: it is true of no
dictionary and of what the markers name, stays true when the defaults are installed, and does not
depend on what is loaded. -/
structure Sourced (P : Dictionaries → String → Bytes → Prop) : Prop where
  empty : ∀ d, P d "" []
  marker : ∀ {d marker family id bytes},
    loadActiveDictionaryMarker d marker family = .ok (some (id, bytes)) → P d id bytes
  bootstrap : ∀ {d id bytes}, P d id bytes → P (ensureDictionaryBootstrap d) id bytes
  reload : ∀ {d id bytes}, P d id bytes → ∀ active, P { d with active := active } id bytes

section Sourced

variable {P : Dictionaries → String → Bytes → Prop}
  {active loaded : OrdMap String (String × Bytes)}

/-- It is true of the loaded set, if there is one. -/
def LoadedAll (P : Dictionaries → String → Bytes → Prop) (d : Dictionaries) : Prop :=
  ∀ active, d.active = some active → ∀ family id bytes,
    active.get family = some (id, bytes) → P d id bytes

/-- By induction on the markers; each adds the dictionary that it names. -/
theorem Sourced.loadMarkers (hP : Sourced P) {markers : List (String × String)}
    (hactive : ∀ family id bytes, active.get family = some (id, bytes) → P d id bytes)
    (h : loadMarkers d markers active = .ok loaded) :
    ∀ family id bytes, loaded.get family = some (id, bytes) → P d id bytes := by
  induction markers generalizing active with
  | nil => cases h; exact hactive
  | cons marker rest ih =>
    obtain ⟨name, text⟩ := marker
    simp only [Gmeow.loadMarkers] at h
    split at h
    · exact ih hactive h
    · split at h
      · cases h
      · exact ih hactive h
      · rename_i dictionary hload
        refine ih ?_ h
        intro family id bytes hget
        rw [OrdMap.get_set] at hget
        split at hget
        · cases hget
          exact hP.marker hload
        · exact hactive family id bytes hget

/-- A family without an entry falls back to no dictionary. -/
theorem Sourced.getD (hP : Sourced P)
    (h : ∀ family id bytes, active.get family = some (id, bytes) → P d id bytes) {family : String}
    {bytes : Bytes} (hget : (active.get family).getD ("", []) = (id, bytes)) : P d id bytes := by
  cases hfound : active.get family with
  | none =>
    rw [hfound] at hget
    cases hget
    exact hP.empty d
  | some found =>
    rw [hfound] at hget
    cases hget
    exact h family _ _ hfound

/-- **Choosing a dictionary.** What was true of dictionaries stays true, and it is true of the
loaded set and of the dictionary that is chosen. -/
theorem Sourced.activeDictionary (hP : Sourced P) (hd : LoadedAll P d) (family : String) :
    (∀ id bytes, P d id bytes → P (activeDictionary d family).2 id bytes) ∧
      LoadedAll P (activeDictionary d family).2 ∧
      ∀ id bytes, (activeDictionary d family).1 = .ok (id, bytes) →
        P (activeDictionary d family).2 id bytes := by
  have hloaded : LoadedAll P (ensureDictionaryBootstrap d) := by
    intro active hsome family id bytes hget
    rw [ensureDictionaryBootstrap_active] at hsome
    exact hP.bootstrap (hd active hsome family id bytes hget)
  simp only [Gmeow.activeDictionary]
  split
  · refine ⟨fun _ _ h => h, hd, fun id bytes h => ?_⟩
    cases h
    exact hP.empty d
  · split
    · rename_i active hsome
      exact ⟨fun _ _ h => hP.bootstrap h, hloaded, fun id bytes h =>
        hP.getD (hloaded active hsome) (Except.ok.inj h)⟩
    · split
      · refine ⟨fun _ _ h => hP.bootstrap h, hloaded, fun id bytes h => ?_⟩
        cases h
      · rename_i active hload
        have hall := hP.loadMarkers (by simp) hload
        refine ⟨fun _ _ h => hP.reload (hP.bootstrap h) _, ?_, fun id bytes h =>
          hP.reload (hP.getD hall (Except.ok.inj h)) _⟩
        intro active' hsome family id bytes hget
        cases hsome
        exact hP.reload (hall family id bytes hget) _

end Sourced

theorem sourced_dictionaryBytes : Sourced fun d id bytes => dictionaryBytes d id = some bytes where
  empty _ := rfl
  marker h := by
    obtain ⟨hid, hne, hfile, -⟩ := loadActiveDictionaryMarker_spec h
    rw [dictionaryBytes, if_neg hid]
    exact Option.filter_eq_some_iff.mpr ⟨hfile, decide_eq_true hne⟩
  bootstrap h := (filesKept_bootstrap _).bytes h
  reload h _ := h

/-- No dictionary file is lost, the loaded set stays in agreement with the files, and the dictionary
that is chosen is the file behind its id. -/
theorem activeDictionary_spec (hd : DictionariesOK d) (family : String) :
    FilesKept d (activeDictionary d family).2 ∧ DictionariesOK (activeDictionary d family).2 ∧
      ∀ id bytes, (activeDictionary d family).1 = .ok (id, bytes) →
        dictionaryBytes (activeDictionary d family).2 id = some bytes := by
  obtain ⟨-, hok, hchosen⟩ := sourced_dictionaryBytes.activeDictionary hd family
  refine ⟨?_, hok, hchosen⟩
  simp only [activeDictionary]
  split
  · exact fun _ _ h => h
  · split
    · exact filesKept_bootstrap d
    · split <;> exact filesKept_bootstrap d

end Gmeow
