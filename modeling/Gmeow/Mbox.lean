import Gmeow.Text

/-!
# The three readers of an mbox file

A queued import lists the messages of an mbox by `forEachMboxMessageOffset` and fetches each one
by `parseMboxMessageAt`; a direct import reads them in one go by `forEachMboxMessage`. Each is a
loop of its own over the lines of the file.

* `preamble`, `sections` — the lines before the first `From ` line and those behind each;
* `offsetLoop_eq`, `messageLoop_eq`, `atLoop_eq` — what each loop does with them;
* `readers_agree_iff` — both imports see the same messages at the same offsets exactly if there
  is no preamble and the sections that are read are in front of those that are empty or cannot be
  parsed, or if nothing is read at all.
-/

namespace Gmeow

/-! ## Lines -/

/-- The longest token of the scanner: `scanner.Buffer(…, 32*1024*1024)`. -/
def maxTokenSize : Nat := 32 * 1024 * 1024

/-- The lines of a text without their line feeds; what is behind the last one is a line unless it
is empty. -/
def splitLines : Bytes → List Bytes
  | [] => []
  | byte :: rest =>
    if byte = 10 then [] :: splitLines rest
    else match splitLines rest with
      | [] => [[byte]]
      | line :: lines => (byte :: line) :: lines

/-- `dropCR`. -/
def dropCR (line : Bytes) : Bytes := if line.getLast? = some 13 then line.dropLast else line

/-- The tokens of a `bufio.Scanner` of lines: those before the first that does not fit. -/
def scanLines (content : Bytes) : List Bytes :=
  ((splitLines content).takeWhile fun line => line.length < maxTokenSize).map dropCR

/-- `scanner.Err`. -/
def scanError (content : Bytes) : Option String :=
  if (splitLines content).all fun line => line.length < maxTokenSize then none
  else some "bufio.Scanner: token too long"

/-- Every line fits the scanner. -/
def LinesFit (content : Bytes) : Prop := ∀ line ∈ splitLines content, line.length < maxTokenSize

instance (content : Bytes) : Decidable (LinesFit content) :=
  inferInstanceAs (Decidable (∀ line ∈ splitLines content, line.length < maxTokenSize))

/-- `strings.HasPrefix(line, "From ")`. -/
def isFromLine (line : Bytes) : Bool := (utf8 "From ").isPrefixOf line

/-- A quoted `From ` line is unquoted. -/
def unquoteFrom (line : Bytes) : Bytes :=
  if (utf8 ">From ").isPrefixOf line then line.drop 1 else line

/-! ## The readers -/

section Readers

variable {m : Type → Type} [Monad m] [MonadExcept String m] {σ μ : Type}

/-- The loop of `forEachMboxMessageOffset`; `acc` is what the callback changes. -/
def offsetLoop (err : Option String) (fn : σ → Int → Int → m σ) :
    List Bytes → Int → Int → Bool → σ → m σ
  | [], size, offset, inMessage, acc =>
    match err with
    | some e => throw e
    | none => if inMessage then fn acc offset size else pure acc
  | line :: rest, size, offset, inMessage, acc =>
    if isFromLine line then
      if inMessage then do
        let acc ← fn acc offset size
        offsetLoop err fn rest 0 (offset + 1) true acc
      else offsetLoop err fn rest size offset true acc
    else if inMessage then offsetLoop err fn rest (size + (line.length + 1)) offset true acc
    else offsetLoop err fn rest size offset false acc

/-- `forEachMboxMessageOffset`. -/
def forEachMboxMessageOffset (file : Except String Bytes) (fn : σ → Int → Int → m σ) (acc : σ) :
    m σ :=
  match file with
  | .error e => throw e
  | .ok content => offsetLoop (scanError content) fn (scanLines content) 0 0 false acc

/-- A message of the file is parsed and handed to the callback. -/
def handMessage (path : String) (parse : Bytes → Int → Except String μ) (fn : σ → μ → m σ)
    (acc : σ) (raw : Bytes) (offset : Int) : m σ :=
  match parse raw offset with
  | .error e => throw ("parse mbox message " ++ path ++ "#" ++ toString offset ++ ": " ++ e)
  | .ok message => fn acc message

/-- The loop of `forEachMboxMessage`. -/
def messageLoop (err : Option String) (hand : σ → Bytes → Int → m σ) :
    List Bytes → Bytes → Int → σ → m σ
  | [], current, offset, acc =>
    match err with
    | some e => throw e
    | none => if current.length > 0 then hand acc current offset else pure acc
  | line :: rest, current, offset, acc =>
    if isFromLine line then
      if current.length > 0 then do
        let acc ← hand acc current offset
        messageLoop err hand rest [] (offset + 1) acc
      else messageLoop err hand rest current offset acc
    else messageLoop err hand rest (current ++ (unquoteFrom line ++ [10])) offset acc

/-- `forEachMboxMessage`; `parse` is `parseArchiveMessage` of a message of this file. -/
def forEachMboxMessage (path : String) (file : Except String Bytes)
    (parse : Bytes → Int → Except String μ) (fn : σ → μ → m σ) (acc : σ) : m σ :=
  match file with
  | .error e => throw e
  | .ok content =>
    messageLoop (scanError content) (handMessage path parse fn) (scanLines content) [] 0 acc

end Readers

/-- A callback that keeps the messages it gets, also when the reader fails later. -/
abbrev Keeping (μ : Type) : Type → Type := ExceptT String (StateM (List μ))

/-- `parseMboxFile`: the messages, and the error behind them. -/
def parseMboxFile {μ : Type} (path : String) (file : Except String Bytes)
    (parse : Bytes → Int → Except String μ) : Except String Unit × List μ :=
  (forEachMboxMessage path file parse (fun _ message => modify (· ++ [message])) () :
    Keeping μ Unit).run.run []

/-- The error of `parseMboxMessageAt` for a message that is not there. -/
def mboxNotFound (path : String) (wantedOffset : Int) : String :=
  "mbox message offset " ++ toString wantedOffset ++ " not found in " ++ path

/-- The loop of `parseMboxMessageAt`. -/
def atLoop {μ : Type} (path : String) (err : Option String)
    (parse : Bytes → Int → Except String μ) (wantedOffset : Int) :
    List Bytes → Int → Bytes → Except String μ
  | [], offset, current =>
    match err with
    | some e => .error e
    | none =>
      if offset = wantedOffset ∧ current.length > 0 then parse current wantedOffset
      else .error (mboxNotFound path wantedOffset)
  | line :: rest, offset, current =>
    if isFromLine line then
      if offset = wantedOffset ∧ current.length > 0 then parse current wantedOffset
      else atLoop path err parse wantedOffset rest (offset + 1) []
    else if offset ≠ wantedOffset then atLoop path err parse wantedOffset rest offset current
    else atLoop path err parse wantedOffset rest offset (current ++ (unquoteFrom line ++ [10]))

/-- `parseMboxMessageAt`. -/
def parseMboxMessageAt {μ : Type} (path : String) (file : Except String Bytes)
    (parse : Bytes → Int → Except String μ) (wantedOffset : Int) : Except String μ :=
  match file with
  | .error e => .error e
  | .ok content => atLoop path (scanError content) parse wantedOffset (scanLines content) (-1) []

/-! ## Sections -/

/-- The lines before the first `From ` line. -/
def preamble (lines : List Bytes) : List Bytes := lines.takeWhile fun line => !isFromLine line

/-- The lines behind each `From ` line, up to the next. -/
def sections : List Bytes → List (List Bytes)
  | [] => []
  | line :: rest => if isFromLine line then preamble rest :: sections rest else sections rest

/-- The text of a message: its lines, unquoted. -/
def messageText (body : List Bytes) : Bytes := body.flatMap fun line => unquoteFrom line ++ [10]

/-- The size of a message as `forEachMboxMessageOffset` counts it. -/
def messageSize (body : List Bytes) : Int := (body.map fun line => (line.length : Int) + 1).sum

/-- The elements of a list with their numbers, from `offset` on. -/
def numbered {α : Type} : Int → List α → List (Int × α)
  | _, [] => []
  | offset, x :: rest => (offset, x) :: numbered (offset + 1) rest

variable {line content : Bytes} {lines : List Bytes}

theorem preamble_cons_from (rest : List Bytes) (h : isFromLine line = true) :
    preamble (line :: rest) = [] := by
  rw [preamble, List.takeWhile_cons, h]
  rfl

theorem preamble_cons_text (rest : List Bytes) (h : isFromLine line = false) :
    preamble (line :: rest) = line :: preamble rest := by
  rw [preamble, List.takeWhile_cons, h]
  rfl

theorem sections_cons_from (rest : List Bytes) (h : isFromLine line = true) :
    sections (line :: rest) = preamble rest :: sections rest := by
  rw [sections, if_pos h]

theorem sections_cons_text (rest : List Bytes) (h : isFromLine line = false) :
    sections (line :: rest) = sections rest := by
  rw [sections, if_neg (by rw [h]; exact Bool.false_ne_true)]

theorem messageText_cons (line : Bytes) (body : List Bytes) :
    messageText (line :: body) = unquoteFrom line ++ [10] ++ messageText body := by
  rw [messageText, List.flatMap_cons]
  rfl

theorem messageText_eq_nil {body : List Bytes} : messageText body = [] ↔ body = [] := by
  cases body with
  | nil => exact iff_of_true rfl rfl
  | cons line body =>
    refine iff_of_false (fun h => ?_) (List.cons_ne_nil _ _)
    rw [messageText_cons] at h
    simp at h

/-! ## What the loops do -/

section Loops

variable {m : Type → Type} [Monad m] [LawfulMonad m] [MonadExcept String m] {σ μ : Type}

/-- Inside a message the loop reports it with what is left of it, then the sections that
follow. -/
theorem offsetLoop_inside (fn : σ → Int → Int → m σ) (lines : List Bytes) (size offset : Int)
    (acc : σ) :
    offsetLoop none fn lines size offset true acc =
      ((offset, size + messageSize (preamble lines)) ::
        numbered (offset + 1) ((sections lines).map messageSize)).foldlM
          (fun acc found => fn acc found.1 found.2) acc := by
  induction lines generalizing size offset acc with
  | nil => simp [offsetLoop, preamble, sections, messageSize, numbered]
  | cons line rest ih =>
    rw [offsetLoop]
    cases h : isFromLine line with
    | true =>
      rw [if_pos rfl, if_pos rfl, preamble_cons_from rest h, sections_cons_from rest h]
      simp only [ih, List.map_cons, numbered, List.foldlM_cons, Int.zero_add]
      simp [messageSize]
    | false =>
      rw [if_neg Bool.false_ne_true, if_pos rfl, ih, preamble_cons_text rest h,
        sections_cons_text rest h]
      simp [messageSize, Int.add_assoc]

/-- **`forEachMboxMessageOffset`** reports the sections, in order. -/
theorem offsetLoop_eq (fn : σ → Int → Int → m σ) (lines : List Bytes) (acc : σ) :
    offsetLoop none fn lines 0 0 false acc =
      (numbered 0 ((sections lines).map messageSize)).foldlM
        (fun acc found => fn acc found.1 found.2) acc := by
  induction lines with
  | nil => rfl
  | cons line rest ih =>
    rw [offsetLoop]
    cases h : isFromLine line with
    | true =>
      rw [if_pos rfl, if_neg Bool.false_ne_true, offsetLoop_inside, sections_cons_from rest h,
        Int.zero_add]
      rfl
    | false =>
      rw [if_neg Bool.false_ne_true, if_neg Bool.false_ne_true, ih, sections_cons_text rest h]

/-- **`forEachMboxMessage`** hands over what it has collected with what is left of it, then the
sections that follow, leaving out what is empty. -/
theorem messageLoop_eq (hand : σ → Bytes → Int → m σ) (lines : List Bytes) (current : Bytes)
    (offset : Int) (acc : σ) :
    messageLoop none hand lines current offset acc =
      (numbered offset (((current ++ messageText (preamble lines)) ::
        (sections lines).map messageText).filter fun raw => raw ≠ [])).foldlM
          (fun acc found => hand acc found.2 found.1) acc := by
  induction lines generalizing current offset acc with
  | nil =>
    cases current with
    | nil => simp [messageLoop, preamble, sections, messageText, numbered]
    | cons byte current => simp [messageLoop, preamble, sections, messageText, numbered]
  | cons line rest ih =>
    rw [messageLoop]
    cases h : isFromLine line with
    | true =>
      rw [if_pos rfl, preamble_cons_from rest h, sections_cons_from rest h]
      have hnone : current ++ messageText [] = current := List.append_nil current
      rw [hnone]
      cases current with
      | nil =>
        rw [if_neg (by simp), ih]
        simp
      | cons byte current =>
        rw [if_pos (by simp)]
        simp [ih, numbered]
    | false =>
      rw [if_neg Bool.false_ne_true, ih, preamble_cons_text rest h, sections_cons_text rest h,
        messageText_cons, List.append_assoc current]

end Loops

section At

variable {μ : Type} (path : String) (parse : Bytes → Int → Except String μ) (wantedOffset : Int)

/-- The message of a text, if there is one. -/
def parseText (raw : Bytes) : Except String μ :=
  if raw = [] then .error (mboxNotFound path wantedOffset) else parse raw wantedOffset

/-- Past the wanted message nothing is found. -/
theorem atLoop_past (lines : List Bytes) (offset : Int) (h : wantedOffset < offset) :
    atLoop path none parse wantedOffset lines offset [] =
      .error (mboxNotFound path wantedOffset) := by
  induction lines generalizing offset with
  | nil => simp [atLoop]
  | cons line rest ih =>
    have hpast : offset ≠ wantedOffset := by omega
    have hnot : ¬(offset = wantedOffset ∧ ([] : Bytes).length > 0) := fun hfound => hpast hfound.1
    rw [atLoop, if_neg hnot, if_pos hpast, ih (offset + 1) (by omega), ih offset h, ite_self]

/-- In the wanted message the text is collected. -/
theorem atLoop_inside (lines : List Bytes) (current : Bytes) :
    atLoop path none parse wantedOffset lines wantedOffset current =
      parseText path parse wantedOffset (current ++ messageText (preamble lines)) := by
  induction lines generalizing current with
  | nil => cases current <;> simp [atLoop, parseText, preamble, messageText]
  | cons line rest ih =>
    rw [atLoop]
    cases h : isFromLine line with
    | true =>
      rw [if_pos rfl, preamble_cons_from rest h]
      cases current with
      | nil =>
        have hpast := atLoop_past path parse wantedOffset rest (wantedOffset + 1) (by omega)
        simp [parseText, messageText, hpast]
      | cons byte current => simp [parseText, messageText]
    | false =>
      rw [if_neg Bool.false_ne_true, if_neg (fun h => h rfl), ih, preamble_cons_text rest h,
        messageText_cons, List.append_assoc current]

/-- **`parseMboxMessageAt`** parses the section at the wanted offset, unless it is empty. -/
theorem atLoop_eq (lines : List Bytes) (offset : Int) (ahead : Nat)
    (hahead : wantedOffset = offset + 1 + ahead) :
    atLoop path none parse wantedOffset lines offset [] =
      match (sections lines)[ahead]? with
      | some body => parseText path parse wantedOffset (messageText body)
      | none => .error (mboxNotFound path wantedOffset) := by
  induction lines generalizing offset ahead with
  | nil => simp [atLoop, sections]
  | cons line rest ih =>
    rw [atLoop]
    cases h : isFromLine line with
    | true =>
      rw [if_pos rfl, if_neg (fun hfound => absurd hfound.1 (by omega)), sections_cons_from rest h]
      cases ahead with
      | zero =>
        have hnow : offset + 1 = wantedOffset := by omega
        rw [hnow, atLoop_inside]
        rfl
      | succ ahead =>
        rw [ih (offset + 1) ahead (by omega), List.getElem?_cons_succ]
    | false =>
      rw [if_neg Bool.false_ne_true, if_pos (by omega), ih offset ahead hahead,
        sections_cons_text rest h]

end At

/-! ## Both imports -/

/-- A message as its offset and its text; `parseError` is the error of `parseArchiveMessage`, which
depends on the text only. -/
def rawMessage (parseError : Bytes → Option String) (raw : Bytes) (offset : Int) :
    Except String (Int × Bytes) :=
  match parseError raw with
  | some e => .error e
  | none => .ok (offset, raw)

/-- The messages a direct import sees, until it ends or fails. -/
def directMessages (path : String) (parseError : Bytes → Option String) (content : Bytes) :
    List (Int × Bytes) :=
  (parseMboxFile path (.ok content) (rawMessage parseError)).2

/-- The messages a queued import sees: those at the offsets its jobs are published for. A job that
fails leaves the others alone. -/
def queuedMessages (path : String) (parseError : Bytes → Option String) (content : Bytes) :
    List (Int × Bytes) :=
  match (forEachMboxMessageOffset (.ok content)
    (fun offsets offset _ => pure (offsets ++ [offset])) [] : Except String (List Int)) with
  | .error _ => []
  | .ok offsets => offsets.filterMap fun offset =>
      (parseMboxMessageAt path (.ok content) (rawMessage parseError) offset).toOption

variable {parseError : Bytes → Option String}

/-- A section is read: it is not empty, and its text can be parsed. -/
def ReadsAs (parseError : Bytes → Option String) (raw : Bytes) : Prop :=
  raw ≠ [] ∧ parseError raw = none

instance (parseError : Bytes → Option String) (raw : Bytes) : Decidable (ReadsAs parseError raw) :=
  inferInstanceAs (Decidable (_ ∧ _))

/-! ## Agreement -/

theorem scanError_of_fit (hfits : LinesFit content) : scanError content = none := by
  rw [scanError, if_pos]
  rw [List.all_eq_true]
  exact fun line hline => decide_eq_true (hfits line hline)

/-- Appending what a callback gets, one by one, collects all of it. -/
theorem foldlM_collect {α β ε : Type} (f : α → β) (xs : List α) (acc : List β) :
    xs.foldlM (fun acc x => (pure (acc ++ [f x]) : Except ε (List β))) acc =
      .ok (acc ++ xs.map f) := by
  induction xs generalizing acc with
  | nil => rw [List.map_nil, List.append_nil]; rfl
  | cons x xs ih =>
    rw [List.foldlM_cons, pure_bind, ih, List.append_assoc]
    rfl

theorem map_fst_numbered {α β : Type} (f : α → β) (offset : Int) (xs : List α) :
    (numbered offset (xs.map f)).map Prod.fst = (numbered offset xs).map Prod.fst := by
  induction xs generalizing offset with
  | nil => rfl
  | cons x xs ih => rw [List.map_cons, numbered, numbered, List.map_cons, List.map_cons, ih]

/-- What a direct import sees of texts: those that are not empty, numbered without gaps, up to the
first that cannot be parsed. -/
def directOf (parseError : Bytes → Option String) : Int → List Bytes → List (Int × Bytes)
  | _, [] => []
  | offset, raw :: rest =>
    if raw = [] then directOf parseError offset rest
    else if parseError raw = none then (offset, raw) :: directOf parseError (offset + 1) rest
    else []

/-- What a queued import sees of texts: those that are read, with their own numbers. -/
def queuedOf (parseError : Bytes → Option String) : Int → List Bytes → List (Int × Bytes)
  | _, [] => []
  | offset, raw :: rest =>
    if ReadsAs parseError raw then (offset, raw) :: queuedOf parseError (offset + 1) rest
    else queuedOf parseError (offset + 1) rest

/-- Messages are kept until one cannot be parsed. -/
theorem foldlM_handMessage (path : String) (offset : Int) (texts : List Bytes)
    (kept : List (Int × Bytes)) :
    (((numbered offset (texts.filter fun raw => raw ≠ [])).foldlM (fun (_ : Unit) item =>
      handMessage path (rawMessage parseError) (fun _ message => modify (· ++ [message])) ()
        item.2 item.1) () : Keeping (Int × Bytes) Unit).run.run kept).2 =
      kept ++ directOf parseError offset texts := by
  induction texts generalizing offset kept with
  | nil => exact (List.append_nil kept).symm
  | cons raw texts ih =>
    rw [directOf]
    by_cases hempty : raw = []
    · rw [if_pos hempty, List.filter_cons_of_neg (by simpa using hempty), ih]
    · rw [if_neg hempty, List.filter_cons_of_pos (by simpa using hempty), numbered,
        List.foldlM_cons, handMessage, rawMessage]
      cases herror : parseError raw with
      | some e =>
        rw [if_neg nofun, List.append_nil]
        rfl
      | none =>
        rw [if_pos rfl, List.append_cons, ← ih]
        rfl

/-- **A direct import** sees the preamble and the sections. -/
theorem directMessages_eq (path : String) (hfits : LinesFit content) :
    directMessages path parseError content = directOf parseError 0
      (messageText (preamble (scanLines content)) ::
        (sections (scanLines content)).map messageText) := by
  rw [directMessages, parseMboxFile, forEachMboxMessage, scanError_of_fit hfits, messageLoop_eq]
  exact foldlM_handMessage path 0 _ []

/-- The jobs of a queued import, one for each section. -/
theorem filterMap_fetch (fetch : Int → Option (Int × Bytes)) (bodies : List (List Bytes))
    (offset : Int) (hfetch : ∀ (i : Nat) (body : List Bytes), bodies[i]? = some body →
      fetch (offset + i) =
        if ReadsAs parseError (messageText body) then some (offset + i, messageText body) else none) :
    ((numbered offset bodies).map Prod.fst).filterMap fetch =
      queuedOf parseError offset (bodies.map messageText) := by
  induction bodies generalizing offset with
  | nil => rfl
  | cons body bodies ih =>
    have hfirst := hfetch 0 body rfl
    have hrest := ih (offset + 1) fun i next hnext => by
      have := hfetch (i + 1) next hnext
      rwa [show offset + ((i + 1 : Nat) : Int) = offset + 1 + i by omega] at this
    rw [Int.natCast_zero, Int.add_zero] at hfirst
    rw [numbered, List.map_cons, List.map_cons, queuedOf, ← hrest]
    split at hfirst
    · rw [List.filterMap_cons_some hfirst, if_pos ‹_›]
    · rw [List.filterMap_cons_none hfirst, if_neg ‹_›]

/-- **A queued import** sees the sections. -/
theorem queuedMessages_eq (path : String) (hfits : LinesFit content) :
    queuedMessages path parseError content =
      queuedOf parseError 0 ((sections (scanLines content)).map messageText) := by
  rw [queuedMessages, forEachMboxMessageOffset, scanError_of_fit hfits, offsetLoop_eq,
    foldlM_collect (fun found : Int × Int => found.1), map_fst_numbered messageSize]
  refine filterMap_fetch _ _ 0 fun i body hbody => ?_
  rw [parseMboxMessageAt, scanError_of_fit hfits, Int.zero_add,
    atLoop_eq path (rawMessage parseError) i (scanLines content) (-1) i (by omega), hbody]
  dsimp only [parseText]
  by_cases hempty : messageText body = []
  · rw [if_pos hempty, if_neg fun hreads => hreads.1 hempty]
    rfl
  · rw [if_neg hempty, rawMessage]
    cases herror : parseError (messageText body) with
    | some e =>
      rw [if_neg fun hreads => Option.some_ne_none e (herror.symm.trans hreads.2)]
      rfl
    | none =>
      rw [if_pos ⟨hempty, herror⟩]
      rfl

theorem le_of_mem_queuedOf {offset : Int} {texts : List Bytes} {item : Int × Bytes}
    (h : item ∈ queuedOf parseError offset texts) : offset ≤ item.1 := by
  induction texts generalizing offset with
  | nil => cases h
  | cons raw texts ih =>
    rw [queuedOf] at h
    split at h
    · rcases List.mem_cons.mp h with rfl | h
      · exact Int.le_refl _
      · have := ih h
        omega
    · have := ih h
      omega

theorem directOf_head {offset : Int} {texts : List Bytes} {item : Int × Bytes}
    {rest : List (Int × Bytes)} (h : directOf parseError offset texts = item :: rest) :
    item.1 = offset := by
  induction texts with
  | nil => cases h
  | cons raw texts ih =>
    rw [directOf] at h
    split at h
    · exact ih h
    · split at h
      · rw [← (List.cons.inj h).1]
      · cases h

/-- A queued import sees nothing exactly if no text is read. -/
theorem queuedOf_eq_nil (offset : Int) {texts : List Bytes} :
    queuedOf parseError offset texts = [] ↔ ∀ raw ∈ texts, ¬ReadsAs parseError raw := by
  induction texts generalizing offset with
  | nil => exact iff_of_true rfl fun _ hmem => nomatch hmem
  | cons raw texts ih =>
    rw [queuedOf, List.forall_mem_cons, ← ih (offset + 1)]
    split
    · exact iff_of_false (List.cons_ne_nil _ _) fun h => h.1 ‹_›
    · exact (and_iff_right ‹_›).symm

/-- Neither does a direct import then. -/
theorem directOf_eq_nil {offset : Int} {texts : List Bytes}
    (h : ∀ raw ∈ texts, ¬ReadsAs parseError raw) : directOf parseError offset texts = [] := by
  induction texts with
  | nil => rfl
  | cons raw texts ih =>
    obtain ⟨hraw, htexts⟩ := List.forall_mem_cons.mp h
    rw [directOf, ih htexts]
    split
    · rfl
    · rw [if_neg fun hnone => hraw ⟨‹_›, hnone⟩]

/-- **Without a preamble** the imports agree exactly if what is read is in front: behind a text that
is empty the numbers differ, and behind one that cannot be parsed only the queued import goes on. -/
theorem queuedOf_eq_iff (offset : Int) (texts : List Bytes) :
    queuedOf parseError offset texts = directOf parseError offset texts ↔
      texts.Pairwise fun earlier later => ReadsAs parseError later → ReadsAs parseError earlier := by
  induction texts generalizing offset with
  | nil => exact iff_of_true rfl .nil
  | cons raw texts ih =>
    rw [queuedOf, directOf, List.pairwise_cons]
    by_cases hreads : ReadsAs parseError raw
    · rw [if_pos hreads, if_neg hreads.1, if_pos hreads.2, List.cons_inj_right, ih]
      exact (and_iff_right fun _ _ _ => hreads).symm
    · rw [if_neg hreads]
      have hnone : (∀ later ∈ texts, ¬ReadsAs parseError later) ↔
          (∀ later ∈ texts, ReadsAs parseError later → ReadsAs parseError raw) ∧
            texts.Pairwise fun earlier later => ReadsAs parseError later → ReadsAs parseError earlier :=
        ⟨fun h => ⟨fun later hlater hlate => absurd hlate (h later hlater),
          List.pairwise_iff_forall_sublist.mpr fun hsub hlate =>
            absurd hlate (h _ (hsub.subset (List.mem_cons_of_mem _ List.mem_cons_self)))⟩,
          fun h later hlater hlate => hreads (h.1 later hlater hlate)⟩
      rw [← hnone, ← queuedOf_eq_nil (offset + 1)]
      constructor
      · intro hsame
        rw [hsame]
        split
        · -- a number that the queued import is past
          rename_i hempty
          cases hfound : directOf parseError offset texts with
          | nil => rfl
          | cons item rest =>
            rw [if_pos hempty, hfound] at hsame
            have hpast := le_of_mem_queuedOf (hsame ▸ List.mem_cons_self)
            have hhere := directOf_head hfound
            omega
        · rw [if_neg fun herror => hreads ⟨‹_›, herror⟩]
      · intro hqueued
        have htexts := (queuedOf_eq_nil _).mp hqueued
        rw [hqueued, directOf_eq_nil htexts]
        split
        · rfl
        · rw [if_neg fun herror => hreads ⟨‹_›, herror⟩]

/-- **With a preamble** that is parsed the imports differ: to the direct one it is a message, and
each text behind it is one number later. -/
theorem queuedOf_ne_cons (offset : Int) (first : Bytes) (texts : List Bytes) :
    queuedOf parseError offset texts ≠
      (offset, first) :: directOf parseError (offset + 1) texts := by
  induction texts generalizing offset first with
  | nil => exact (List.cons_ne_nil _ _).symm
  | cons raw texts ih =>
    intro hsame
    rw [queuedOf, directOf] at hsame
    by_cases hreads : ReadsAs parseError raw
    · rw [if_pos hreads, if_neg hreads.1, if_pos hreads.2] at hsame
      exact ih (offset + 1) raw (List.cons.inj hsame).2
    · rw [if_neg hreads] at hsame
      have hpast := le_of_mem_queuedOf (hsame ▸ List.mem_cons_self)
      dsimp only at hpast
      omega

/-- **When the imports agree**: there is no text before the first `From ` line and no section that
is read comes behind one that is empty or cannot be parsed, or neither that text nor any section
is read. -/
theorem readers_agree_iff (path : String) (parseError : Bytes → Option String) (content : Bytes)
    (hfits : LinesFit content) :
    queuedMessages path parseError content = directMessages path parseError content ↔
      (preamble (scanLines content) = [] ∧
        ((sections (scanLines content)).map messageText).Pairwise
          fun earlier later => ReadsAs parseError later → ReadsAs parseError earlier) ∨
      (parseError (messageText (preamble (scanLines content))) ≠ none ∧
        ∀ raw ∈ (sections (scanLines content)).map messageText, ¬ReadsAs parseError raw) := by
  rw [directMessages_eq path hfits, queuedMessages_eq path hfits, directOf]
  generalize (sections (scanLines content)).map messageText = texts
  by_cases hnone : preamble (scanLines content) = []
  · rw [if_pos (messageText_eq_nil.mpr hnone), queuedOf_eq_iff]
    refine ⟨fun h => .inl ⟨hnone, h⟩, ?_⟩
    rintro (⟨-, h⟩ | ⟨-, h⟩)
    · exact h
    · exact (queuedOf_eq_iff 0 texts).mp (((queuedOf_eq_nil 0).mpr h).trans (directOf_eq_nil h).symm)
  · rw [if_neg fun h => hnone (messageText_eq_nil.mp h), or_iff_right fun h => hnone h.1]
    split
    · exact iff_of_false (queuedOf_ne_cons 0 _ texts) fun h => h.1 ‹_›
    · rw [queuedOf_eq_nil, and_iff_right ‹_›]

/-- A parser that wants a header in the first line. -/
def headerError (raw : Bytes) : Option String :=
  if (raw.takeWhile (· ≠ 10)).contains 58 then none else some "malformed MIME header line"

/-- A message before the first `From ` line is one to a direct import only. -/
theorem preamble_read_directly :
    LinesFit (utf8 "A: 1\n\nHi\nFrom a\nB: 2\n\nb\n") ∧
    directMessages "m.mbox" headerError (utf8 "A: 1\n\nHi\nFrom a\nB: 2\n\nb\n") =
      [(0, utf8 "A: 1\n\nHi\n"), (1, utf8 "B: 2\n\nb\n")] ∧
    queuedMessages "m.mbox" headerError (utf8 "A: 1\n\nHi\nFrom a\nB: 2\n\nb\n") =
      [(0, utf8 "B: 2\n\nb\n")] := by
  decide +kernel

/-- A quoted line, and a last message that cannot be parsed: both imports see the first two. -/
theorem readers_agree_two :
    queuedMessages "m.mbox" headerError
        (utf8 "From a\nA: 1\n\n>From x\nFrom b\r\nB: 2\nFrom c\nbad") =
      directMessages "m.mbox" headerError
        (utf8 "From a\nA: 1\n\n>From x\nFrom b\r\nB: 2\nFrom c\nbad") := by
  refine (readers_agree_iff "m.mbox" headerError _ (by decide +kernel)).mpr (.inl ?_)
  decide +kernel

end Gmeow
