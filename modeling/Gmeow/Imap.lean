import Gmeow.Runes

/-!
# The IMAP server before a login

The server reads commands line by line and answers each. No command asks whether the client has
logged in, so what is sent before a login depends on the messages as soon as the client selects a
mailbox or searches.

* `handleCommand`, `handleConn` — the server, with the store as two functions;
* `sentBeforeLogin` — what is sent up to the first login that succeeds;
* `mail_before_login_iff` — it is the same for all stores if and only if nothing is selected or
  searched before;
* `mail_counted_before_login` — the number of messages is told to anyone.
-/

namespace Gmeow.Imap

open Runes

/-! ## The server -/

/-- `SearchOptions`, as far as they are set. -/
structure SearchOptions : Type where
  query : Runes
  facets : List String
  limit : Nat

/-- What is read of a retrieved object. -/
structure Retrieved : Type where
  objectDigest : Runes
  titles : List Runes
  mediaType : Runes
  content : Runes

/-- The services that are asked: `ObjectSearch`, with the digests of its results, and `Retrieve`. -/
structure MessageStore : Type where
  objectSearch : SearchOptions → Except Runes (List Runes)
  retrieve : Runes → Except Runes Retrieved

/-- `Server`, and `strings.ToUpper`. -/
structure Server : Type where
  username : Runes
  password : Runes
  upper : Runes → Runes

/-- The commands that are told apart. -/
inductive CommandName : Type where
  | capability : CommandName
  | login : CommandName
  | list : CommandName
  | select : CommandName
  | search : CommandName
  | fetch : CommandName
  | noop : CommandName
  | logout : CommandName
  | unsupported : CommandName
  deriving DecidableEq

/-- The cases of `handleCommand`. -/
def commandNames : List (String × CommandName) :=
  [("CAPABILITY", .capability), ("LOGIN", .login), ("LIST", .list), ("SELECT", .select),
    ("EXAMINE", .select), ("SEARCH", .search), ("FETCH", .fetch), ("NOOP", .noop),
    ("LOGOUT", .logout)]

/-- The case of a command. -/
def commandName (command : Runes) : CommandName :=
  ((commandNames.find? fun entry => entry.1.toList == command).map Prod.snd).getD .unsupported

/-- `splitCommand`: tag, command and the rest; the tag is empty if there is no command. -/
def splitCommand (server : Server) (line : Runes) : Runes × Runes × Runes :=
  match cutRune ' ' (trim line) with
  | none => ([], [], [])
  | some (tag, behind) =>
    match cutRune ' ' behind with
    | none => (tag, server.upper behind, [])
    | some (command, rest) => (tag, server.upper command, rest)

/-- `parseLogin`. -/
def parseLogin (rest : Runes) : Runes × Runes :=
  match fields rest with
  | user :: password :: _ => (trimOf ['"'] user, trimOf ['"'] password)
  | _ => ([], [])

/-- The test of `LOGIN`. -/
def authenticates (server : Server) (rest : Runes) : Bool :=
  let (user, password) := parseLogin rest
  !(user != server.username || (server.password != [] && password != server.password))

/-- `strconv.Atoi`. -/
def atoi (s : Runes) : Option Int :=
  let (negative, digits) := match s with
    | '-' :: digits => (true, digits)
    | '+' :: digits => (false, digits)
    | digits => (false, digits)
  if digits.isEmpty || !digits.all Char.isDigit then none
  else
    let value : Int := Nat.ofDigitChars 10 digits 0
    let value := if negative then -value else value
    if -2 ^ 63 ≤ value ∧ value < 2 ^ 63 then some value else none

/-- `stableUID`. -/
def stableUID (digest : Runes) : Nat :=
  let value := digest.foldl (fun value c => (value * 33 + c.toNat) % 2 ^ 31) 0
  if value = 0 then 1 else value

/-- `renderMessage`. -/
def renderMessage (retrieved : Retrieved) : Runes :=
  let subject := match retrieved.titles with
    | title :: _ => if title = [] then "Gmeow object ".toList ++ retrieved.objectDigest else title
    | [] => "Gmeow object ".toList ++ retrieved.objectDigest
  let mediaType := if retrieved.mediaType = [] then "text/plain".toList else retrieved.mediaType
  "Subject: ".toList ++ subject ++ "\r\nX-Gmeow-Digest: ".toList ++ retrieved.objectDigest ++
    "\r\nContent-Type: ".toList ++ mediaType ++ "\r\n\r\n".toList ++ retrieved.content

/-- The line that ends an answer. -/
def statusLine (tag : Runes) (text : Runes) : Runes := tag ++ ' ' :: text ++ ['\r', '\n']

/-- `handleFetch`. -/
def handleFetch (store : MessageStore) (results : List Runes) (tag rest : Runes) : Runes :=
  match fields rest with
  | [] => statusLine tag "BAD FETCH requires sequence".toList
  | sequence :: _ =>
    match (atoi sequence).filter fun index : Int =>
        decide (0 < index ∧ index ≤ (results.length : Int)) with
    | none => statusLine tag "NO no such message".toList
    | some index =>
      let digest := results.getD (index.toNat - 1) []
      match store.retrieve digest with
      | .error e => statusLine tag ("NO ".toList ++ e)
      | .ok retrieved =>
        let body := renderMessage retrieved
        "* ".toList ++ decimal index.toNat ++ " FETCH (UID ".toList ++ decimal (stableUID digest) ++
          " RFC822.SIZE ".toList ++ decimal (utf8Length body) ++ " BODY[] \x7b".toList ++
          decimal (utf8Length body) ++ "\x7d\r\n".toList ++ body ++ "\r\n)\r\n".toList ++
          statusLine tag "OK FETCH completed".toList

/-- `appsvc.MailMessageFacet`. -/
def mailMessageFacet : String := "mail_message"

/-- The search of `SELECT` and `SEARCH`. -/
def mailSearch (store : MessageStore) (query : Runes) : Except Runes (List Runes) :=
  store.objectSearch { query, facets := [mailMessageFacet], limit := 100 }

/-- The query of `SEARCH`; `strings.EqualFold` with a text of these letters. -/
def searchQuery (rest : Runes) : Runes :=
  if (trim rest).map Char.toLower = ['a', 'l', 'l'] then [] else trim rest

/-- `handleCommand`: what is sent, and the results that are kept. -/
def handleCommand (server : Server) (store : MessageStore) (results : List Runes)
    (tag command rest : Runes) : Runes × List Runes :=
  match commandName command with
  | .capability =>
    ("* CAPABILITY IMAP4rev1 AUTH=PLAIN\n".toList ++
      statusLine tag "OK CAPABILITY completed".toList, results)
  | .login =>
    if authenticates server rest then (statusLine tag "OK LOGIN completed".toList, results)
    else (statusLine tag "NO authentication failed".toList, results)
  | .list =>
    ("* LIST (\\HasNoChildren) \"/\" \"INBOX\"\n".toList ++
      statusLine tag "OK LIST completed".toList, results)
  | .select =>
    match mailSearch store [] with
    | .error e => (statusLine tag ("NO ".toList ++ e), results)
    | .ok found =>
      ('*' :: ' ' :: decimal found.length ++ " EXISTS\r\n* FLAGS ()\n".toList ++
        statusLine tag ("OK [READ-ONLY] ".toList ++ command ++ " completed".toList), found)
  | .search =>
    match mailSearch store (searchQuery rest) with
    | .error e => (statusLine tag ("NO ".toList ++ e), results)
    | .ok found =>
      let ids := (List.range found.length).map fun index => decimal (index + 1)
      ("* SEARCH ".toList ++ ([' '].intercalate ids ++ "\r\n".toList ++
        statusLine tag "OK SEARCH completed".toList), found)
  | .fetch => (handleFetch store results tag rest, results)
  | .noop => (statusLine tag "OK NOOP completed".toList, results)
  | .logout =>
    ("* BYE Gmeow closing connection\n".toList ++ statusLine tag "OK LOGOUT completed".toList,
      results)
  | .unsupported => (statusLine tag "BAD unsupported command".toList, results)

/-- The loop of `handleConn`: what is sent for the lines that are read. -/
def serve (server : Server) (store : MessageStore) : List Runes → List Runes → Runes
  | [], _ => []
  | line :: lines, results =>
    let (tag, command, rest) := splitCommand server line
    if tag = [] then serve server store lines results
    else
      let (bytes, results) := handleCommand server store results tag command rest
      bytes ++ if commandName command = .logout then [] else serve server store lines results

/-- The first line that is sent. -/
def greeting : Runes := "* OK Gmeow read-only IMAP ready\n".toList

/-- `handleConn`: what is sent to a client that sends these lines. -/
def handleConn (server : Server) (store : MessageStore) (lines : List Runes) : Runes :=
  greeting ++ serve server store lines []

/-! ## Before the login -/

/-- The command of a line, if it has one. -/
def commandOf (server : Server) (line : Runes) : Option (CommandName × Runes) :=
  let (tag, command, rest) := splitCommand server line
  if tag = [] then none else some (commandName command, rest)

/-- A `LOGIN` that succeeds. -/
def loginSucceeds (server : Server) (line : Runes) : Bool :=
  match commandOf server line with
  | some (.login, rest) => authenticates server rest
  | _ => false

/-- A `LOGOUT`. -/
def logsOut (server : Server) (line : Runes) : Bool :=
  (commandOf server line).any fun command => decide (command.1 = .logout)

/-- A line that makes the server search. -/
def asksStore (server : Server) (line : Runes) : Bool :=
  (commandOf server line).any fun command => decide (command.1 = .select ∨ command.1 = .search)

/-- The lines before the first login that succeeds. -/
def beforeLogin (server : Server) (lines : List Runes) : List Runes :=
  lines.takeWhile fun line => !loginSucceeds server line

/-- **What is sent up to the first login that succeeds.** -/
def sentBeforeLogin (server : Server) (store : MessageStore) (lines : List Runes) : Runes :=
  handleConn server store (beforeLogin server lines)

section Proofs

variable {server : Server} {command line : Runes}

/-! ## Stores -/

/-- A store without messages. -/
def emptyStore : MessageStore where
  objectSearch _ := .ok []
  retrieve _ := .error "not found".toList

/-- A store whose one message every search finds. -/
def oneMessage : MessageStore where
  objectSearch _ := .ok ["d".toList]
  retrieve digest := .ok ⟨digest, [], [], []⟩

/-- Without results, nothing is fetched. -/
theorem handleFetch_nil (store : MessageStore) (tag rest : Runes) :
    handleFetch store [] tag rest = handleFetch emptyStore [] tag rest := by
  rw [handleFetch, handleFetch]
  cases fields rest with
  | nil => rfl
  | cons sequence behind =>
    have hnone : (atoi sequence).filter (fun index : Int =>
        decide (0 < index ∧ index ≤ (([] : List Runes).length : Int))) = none := by
      rw [Option.filter_eq_none_iff]
      intro index _ hin
      have hbounds := of_decide_eq_true hin
      have hzero : (([] : List Runes).length : Int) = 0 := rfl
      omega
    dsimp only
    rw [hnone]

/-- A command that does not search is answered without the store. -/
theorem handleCommand_quiet (store : MessageStore) (hselect : commandName command ≠ .select)
    (hsearch : commandName command ≠ .search) (tag rest : Runes) :
    handleCommand server store [] tag command rest =
      ((handleCommand server emptyStore [] tag command rest).1, []) := by
  rw [handleCommand, handleCommand]
  cases hname : commandName command with
  | select => exact absurd hname hselect
  | search => exact absurd hname hsearch
  | fetch =>
    dsimp only
    rw [handleFetch_nil]
  | login =>
    dsimp only
    split
    · rfl
    · rfl
  | capability | list | noop | logout | unsupported => rfl

/-- One that searches tells whether there is a message. -/
theorem handleCommand_tells (hasks : commandName command = .select ∨ commandName command = .search)
    (tag rest : Runes) (behind behind' : Runes) :
    (handleCommand server emptyStore [] tag command rest).1 ++ behind ≠
      (handleCommand server oneMessage [] tag command rest).1 ++ behind' := by
  rw [handleCommand, handleCommand]
  rcases hasks with hname | hname
  · rw [hname]
    intro heq
    have hthird : some '0' = some '1' := congrArg (fun bytes : Runes => bytes[2]?) heq
    exact absurd hthird (by decide)
  · rw [hname]
    dsimp only [mailSearch, emptyStore, oneMessage]
    intro heq
    rw [List.append_assoc, List.append_assoc] at heq
    have hfirst : some '\r' = some '1' := congrArg List.head? (List.append_cancel_left heq)
    exact absurd hfirst (by decide)

theorem serve_of_none (h : commandOf server line = none) (store : MessageStore)
    (lines results : List Runes) :
    serve server store (line :: lines) results = serve server store lines results := by
  rw [commandOf] at h
  rw [serve]
  dsimp only at h ⊢
  split at h
  · rw [if_pos ‹_›]
  · cases h

theorem serve_of_some {rest : Runes} {name : CommandName}
    (h : commandOf server line = some (name, rest)) : ∃ tag command, commandName command = name ∧
      ∀ store lines results, serve server store (line :: lines) results =
        (handleCommand server store results tag command rest).1 ++ if name = .logout then []
          else serve server store lines
            (handleCommand server store results tag command rest).2 := by
  rw [commandOf] at h
  dsimp only at h
  split at h
  · cases h
  · rename_i htag
    obtain ⟨hname, hrest⟩ := Prod.mk.inj (Option.some.inj h)
    refine ⟨(splitCommand server line).1, _, hname, fun store lines results => ?_⟩
    rw [serve, ← hname, ← hrest]
    exact if_neg htag

/-- What the loop does with a line that does not search, as long as there are no results. -/
theorem serve_quiet (hquiet : asksStore server line = false) :
    ∃ bytes, ∀ store lines, serve server store (line :: lines) [] =
      bytes ++ if logsOut server line = true then [] else serve server store lines [] := by
  rw [asksStore] at hquiet
  rw [logsOut]
  cases hcommand : commandOf server line with
  | none =>
    refine ⟨[], fun store lines => ?_⟩
    rw [serve_of_none hcommand, Option.any_none, if_neg Bool.false_ne_true, List.nil_append]
  | some item =>
    obtain ⟨tag, command, hname, hserve⟩ := serve_of_some hcommand
    rw [hcommand, Option.any_some, decide_eq_false_iff_not, not_or, ← hname] at hquiet
    refine ⟨(handleCommand server emptyStore [] tag command item.2).1, fun store lines => ?_⟩
    rw [hserve, handleCommand_quiet store hquiet.1 hquiet.2, Option.any_some]
    simp only [decide_eq_true_eq]

/-- What it does with a line that searches. -/
theorem serve_tells (hasks : asksStore server line = true) (lines : List Runes) :
    serve server emptyStore (line :: lines) [] ≠ serve server oneMessage (line :: lines) [] := by
  rw [asksStore] at hasks
  cases hcommand : commandOf server line with
  | none =>
    rw [hcommand] at hasks
    cases hasks
  | some item =>
    obtain ⟨tag, command, hname, hserve⟩ := serve_of_some hcommand
    rw [hcommand, Option.any_some, decide_eq_true_eq, ← hname] at hasks
    rw [hserve, hserve]
    exact handleCommand_tells hasks tag item.2 _ _

/-- The loop sends the same for all stores just if it does not search before the client leaves. -/
theorem serve_same_iff (lines : List Runes) :
    (∀ store store', serve server store lines [] = serve server store' lines []) ↔
      ∀ line ∈ lines.takeWhile (fun line => !logsOut server line),
        asksStore server line = false := by
  induction lines with
  | nil => simp [serve]
  | cons line lines ih =>
    cases hasks : asksStore server line with
    | true =>
      have hstays : logsOut server line = false := by
        rw [asksStore] at hasks
        rw [logsOut]
        cases hcommand : commandOf server line with
        | none => rfl
        | some command =>
          rw [hcommand, Option.any_some, decide_eq_true_eq] at hasks
          rw [Option.any_some, decide_eq_false_iff_not]
          rcases hasks with hname | hname <;> rw [hname] <;> decide
      refine iff_of_false (fun hsame => serve_tells hasks lines (hsame _ _)) fun hnone => ?_
      have hfalse := hnone line (by simp [hstays])
      rw [hasks] at hfalse
      cases hfalse
    | false =>
      obtain ⟨bytes, hserve⟩ := serve_quiet hasks
      simp only [hserve, List.append_cancel_left_eq]
      cases hlogout : logsOut server line with
      | true => simp [hlogout]
      | false => simpa [hlogout, hasks] using ih

end Proofs

/-- **When what is sent before a login does not depend on the messages:** if and only if the client
selects and searches nothing before it logs in or leaves. -/
theorem mail_before_login_iff (server : Server) (lines : List Runes) :
    (∀ store store', sentBeforeLogin server store lines = sentBeforeLogin server store' lines) ↔
      ∀ line ∈ (beforeLogin server lines).takeWhile (fun line => !logsOut server line),
        asksStore server line = false := by
  rw [← @serve_same_iff server (beforeLogin server lines)]
  constructor
  · intro hsame store store'
    have hsent := hsame store store'
    rw [sentBeforeLogin, sentBeforeLogin, handleConn, handleConn] at hsent
    exact List.append_cancel_left hsent
  · intro hsame store store'
    rw [sentBeforeLogin, sentBeforeLogin, handleConn, handleConn, hsame store store']

/-- **The number of messages is told to a client that has not logged in.** -/
theorem mail_counted_before_login :
    let server : Server := ⟨"u".toList, "secret".toList, id⟩
    server.password ≠ [] ∧ sentBeforeLogin server emptyStore ["a SELECT INBOX\r\n".toList] ≠
      sentBeforeLogin server oneMessage ["a SELECT INBOX\r\n".toList] := by
  decide +kernel

end Gmeow.Imap
