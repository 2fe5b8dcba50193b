import Gmeow.OrdMap
import Gmeow.Text

/-!
# Packed shards

A packed shard is a file of records, one on a line: eight hexadecimal digits with the length of a
JSON payload, a tab, and the payload. Records are appended, so a crash leaves a part of the last
line; a scan reports it as a torn tail, and the tail is cut off. Lines without the prefix, which
older versions wrote, are read too.

* `encodePackedShardLine`, `decodePackedShardLine`, `decode_frame` — the lines;
* `scanPackedShard` — the scan; `scan_good` — a file of good lines and what follows them;
  `scan_long` — a line that is too long;
* `torn_tail_recovered` — a file that is cut anywhere.

`json.Valid` is a parameter.
-/

namespace Gmeow

namespace PackedShard

/-! ## Lines -/

/-- `packedShardMaxLineBytes`. -/
def packedShardMaxLineBytes : Nat := 2 * 2 ^ 20

/-- `packedRecordLengthPrefixWidth`. -/
def packedRecordLengthPrefixWidth : Nat := 8

/-- The size of the reader's buffer. -/
def readerSize : Nat := 64 * 1024

def newline : UInt8 := 10

def tab : UInt8 := 9

/-- The digit of a number below 16. -/
def hexByte (d : Nat) : UInt8 := if d < 10 then UInt8.ofNat (48 + d) else UInt8.ofNat (87 + d)

/-- The number of a digit. -/
def hexValue (b : UInt8) : Option Nat :=
  if 48 ≤ b ∧ b ≤ 57 then some (b.toNat - 48)
  else if 97 ≤ b ∧ b ≤ 102 then some (b.toNat - 87)
  else if 65 ≤ b ∧ b ≤ 70 then some (b.toNat - 55)
  else none

/-- `fmt.Sprintf("%08x", n)`. -/
def lengthPrefix (n : Nat) : Bytes :=
  let digits := (Nat.digits 16 n).reverse.map hexByte
  List.replicate (packedRecordLengthPrefixWidth - digits.length) (hexByte 0) ++ digits

/-- `strconv.ParseUint(s, 16, 32)` of eight bytes, after some digits. -/
def parseHex : Nat → Bytes → Option Nat
  | n, [] => some n
  | n, b :: rest =>
    match hexValue b with
    | none => none
    | some d => parseHex (n * 16 + d) rest

/-- A record as it is written, without the newline. -/
def frame (payload : Bytes) : Bytes := lengthPrefix payload.length ++ tab :: payload

/-- `encodePackedShardLine`. -/
def encodePackedShardLine (payload : Bytes) : Bytes := frame payload ++ [newline]

/-- The length in the prefix of a line, if it has one. -/
def framedLength (line : Bytes) : Option Nat :=
  if packedRecordLengthPrefixWidth + 1 ≤ line.length ∧
      (line)[packedRecordLengthPrefixWidth]? = some tab then
    parseHex 0 (line.take packedRecordLengthPrefixWidth)
  else none

section Scan

variable (valid : Bytes → Bool)

/-- `decodePackedShardLine`. -/
def decodePackedShardLine (line : Bytes) : Except String Bytes :=
  match framedLength line with
  | some length =>
    let payload := line.drop (packedRecordLengthPrefixWidth + 1)
    if payload.length ≠ length then
      .error ("length prefix " ++ toString length ++ " does not match payload bytes " ++
        toString payload.length)
    else if valid payload = false then .error "payload is not valid JSON"
    else .ok payload
  | none =>
    if valid line = true then .ok line
    else .error "line is neither length-prefixed nor valid JSON"

/-! ## The scan -/

/-- `packedShardScanResult`. -/
structure PackedShardScanResult where
  records : Nat := 0
  lastIntactEnd : Nat := 0
  tornTailBytes : Nat := 0
  tornTailErr : Option String := none

/-- The variables of a scan: those of the callback, and a record that was read but may be the
last. -/
structure Scanner (σ : Type) where
  state : σ
  records : Nat := 0
  lastIntactEnd : Nat := 0
  cursor : Nat := 0
  pending : Option (Except String Bytes × Nat) := none

variable {σ : Type} (path : String) (handle : σ → Bytes → Except String σ)

/-- `commitPending(false)`. -/
def commitPending (s : Scanner σ) : Except String (Scanner σ) :=
  match s.pending with
  | none => .ok s
  | some (.error e, _) =>
    .error ("decode packed record at offset " ++ toString s.cursor ++ " in " ++ path ++ ": " ++ e)
  | some (.ok payload, rawLen) =>
    match handle s.state payload with
    | .error e => .error e
    | .ok state => .ok { state := state, records := s.records + 1, cursor := s.cursor + rawLen
                         lastIntactEnd := s.cursor + rawLen }

/-- A line that ends with a newline. -/
def scanLine (s : Scanner σ) (line : Bytes) : Except String (Scanner σ) :=
  let rawLen := line.length + 1
  match commitPending path handle s with
  | .error e => .error e
  | .ok s =>
    if readerSize < rawLen ∧ packedShardMaxLineBytes < rawLen then
      -- `drainPackedLongLine` read it all
      .error ("packed record at offset " ++ toString s.cursor ++ " in " ++ path ++ " exceeds " ++
        toString packedShardMaxLineBytes ++ " bytes")
    else if line = [] then
      .ok { s with cursor := s.cursor + rawLen, lastIntactEnd := s.cursor + rawLen }
    else .ok { s with pending := some (decodePackedShardLine valid line, rawLen) }

/-- Why a line without a newline is torn. -/
def tornTailErr (rest : Bytes) : String :=
  if readerSize ≤ rest.length then
    if packedShardMaxLineBytes < rest.length then
      "torn tail exceeds " ++ toString packedShardMaxLineBytes ++ " bytes"
    else "packed record not terminated by newline"
  else match decodePackedShardLine valid rest with
    | .error e => e
    | .ok _ => "packed record not terminated by newline"

/-- The end of the file, and what stands there without a newline. -/
def scanEnd (rest : Bytes) (s : Scanner σ) : Except String (σ × PackedShardScanResult) :=
  match s.pending with
  | some (.error e, rawLen) =>
    -- `commitPending(true)`: only the last record may be garbled
    if rest = [] then .ok (s.state, ⟨s.records, s.lastIntactEnd, rawLen, some e⟩)
    else .error ("decode packed record at offset " ++ toString s.cursor ++ " in " ++ path ++
      ": " ++ e)
  | _ =>
    match commitPending path handle s with
    | .error e => .error e
    | .ok s =>
      .ok (s.state, ⟨s.records, s.lastIntactEnd, rest.length,
        if rest = [] then none else some (tornTailErr valid rest)⟩)

/-- The lines of a file, and what follows the last newline. -/
def splitLines : Bytes → List Bytes × Bytes
  | [] => ([], [])
  | b :: content =>
    if b = newline then ([] :: (splitLines content).1, (splitLines content).2)
    else match (splitLines content).1 with
      | [] => ([], b :: (splitLines content).2)
      | line :: lines => ((b :: line) :: lines, (splitLines content).2)

/-- The lines of a file, one after the other. -/
def scanLines : List Bytes → Scanner σ → Except String (Scanner σ)
  | [], s => .ok s
  | line :: lines, s =>
    match scanLine valid path handle s line with
    | .error e => .error e
    | .ok s => scanLines lines s

/-- `scanPackedShard`, with the variables of the callback. -/
def scanPackedShard (content : Bytes) (state : σ) : Except String (σ × PackedShardScanResult) :=
  match scanLines valid path handle (splitLines content).1 { state := state } with
  | .error e => .error e
  | .ok s => scanEnd valid path handle (splitLines content).2 s

/-- A callback that keeps the records. -/
def collect (records : List Bytes) (payload : Bytes) : Except String (List Bytes) :=
  .ok (records ++ [payload])

/-- The records of a file. -/
def shardRecords (content : Bytes) : Except String (List Bytes × PackedShardScanResult) :=
  scanPackedShard valid path collect content []

/-- `truncatePackedShardTornTail`. -/
def truncatePackedShardTornTail (content : Bytes) (lastIntactEnd : Nat) : Bytes :=
  content.take lastIntactEnd

end Scan

/-! ## The prefix -/

theorem hexValue_hexByte {d : Nat} (h : d < 16) : hexValue (hexByte d) = some d := by
  have hall : ∀ d < 16, hexValue (hexByte d) = some d := by decide
  exact hall d h

theorem hexByte_ne {d : Nat} (h : d < 16) : hexByte d ≠ newline := by
  have hall : ∀ d < 16, hexByte d ≠ newline := by decide
  exact hall d h

theorem parseHex_map (digits : List Nat) (h : ∀ d ∈ digits, d < 16) (n : Nat) :
    parseHex n (digits.map hexByte) = some (digits.foldl (fun n d => n * 16 + d) n) := by
  induction digits generalizing n with
  | nil => rfl
  | cons d digits ih =>
    rw [List.map_cons, parseHex, hexValue_hexByte (h d List.mem_cons_self)]
    exact ih (fun x hx => h x (List.mem_cons_of_mem _ hx)) _

variable {n : Nat} {payload rest : Bytes} {records : List Bytes}

/-- The digits of a prefix. -/
theorem lengthPrefix_digits (h : n < 16 ^ 8) :
    ∃ digits : List Nat, lengthPrefix n = digits.map hexByte ∧ digits.length = 8 ∧
      (∀ d ∈ digits, d < 16) ∧ digits.foldl (fun n d => n * 16 + d) 0 = n := by
  have hlength : (Nat.digits 16 n).length ≤ 8 :=
    (Nat.digits_length_le_iff (by decide) n).mpr h
  refine ⟨List.replicate (8 - (Nat.digits 16 n).length) 0 ++ (Nat.digits 16 n).reverse,
    ?_, ?_, ?_, ?_⟩
  · rw [lengthPrefix, List.map_append, List.map_replicate, List.length_map, List.length_reverse]
    rfl
  · rw [List.length_append, List.length_replicate, List.length_reverse]
    omega
  · intro d hd
    rcases List.mem_append.mp hd with hd | hd
    · rw [List.eq_of_mem_replicate hd]
      decide
    · exact Nat.digits_lt_base (by decide) (List.mem_reverse.mp hd)
  · have hzeros : ∀ k, (List.replicate k 0).foldl (fun n d => n * 16 + d) 0 = 0 := by
      intro k
      induction k with
      | zero => rfl
      | succ k ih => exact ih
    rw [List.foldl_append, hzeros, List.foldl_reverse]
    conv_rhs => rw [← Nat.ofDigits_digits 16 n, Nat.ofDigits_eq_foldr]
    refine congrArg (fun f => List.foldr f 0 (Nat.digits 16 n)) (funext₂ fun d n => ?_)
    rw [Nat.cast_id, Nat.add_comm, Nat.mul_comm]

theorem lengthPrefix_length (h : n < 16 ^ 8) : (lengthPrefix n).length = 8 := by
  obtain ⟨digits, hdigits, hlength, -⟩ := lengthPrefix_digits h
  rw [hdigits, List.length_map, hlength]

theorem frame_length (h : payload.length < 16 ^ 8) :
    (frame payload).length = payload.length + 9 := by
  rw [frame, List.length_append, lengthPrefix_length h, List.length_cons]
  omega

theorem newline_notMem_frame (h : newline ∉ payload) : newline ∉ frame payload := by
  have hdigits : ∀ n, ∀ b ∈ lengthPrefix n, b ≠ newline := by
    intro n b hb
    rw [lengthPrefix] at hb
    rcases List.mem_append.mp hb with hb | hb
    · rw [List.eq_of_mem_replicate hb]
      exact hexByte_ne (by decide)
    · obtain ⟨d, hd, rfl⟩ := List.mem_map.mp hb
      exact hexByte_ne (Nat.digits_lt_base (by decide) (List.mem_reverse.mp hd))
  intro hin
  rcases List.mem_append.mp hin with hin | hin
  · exact hdigits _ _ hin rfl
  · exact (List.mem_cons.mp hin).elim (by decide) h

/-- A record is read as it was written. -/
theorem decode_frame {valid : Bytes → Bool} (hlength : payload.length < 16 ^ 8)
    (hvalid : valid payload = true) :
    decodePackedShardLine valid (frame payload) = .ok payload := by
  have hwidth := lengthPrefix_length hlength
  have hframed : framedLength (frame payload) = some payload.length := by
    obtain ⟨digits, hdigits, -, hlt, hvalue⟩ := lengthPrefix_digits hlength
    have htake : (frame payload).take 8 = lengthPrefix payload.length := by
      rw [frame, ← hwidth, List.take_left]
    have hget : (frame payload)[8]? = some tab := by
      rw [frame, List.getElem?_append_right hwidth.le, hwidth]
      rfl
    rw [framedLength, if_pos]
    · change parseHex 0 ((frame payload).take 8) = _
      rw [htake, hdigits, parseHex_map digits hlt, hvalue]
    · refine ⟨?_, hget⟩
      rw [frame_length hlength]
      exact Nat.le_add_left _ _
  have hdrop : (frame payload).drop 9 = payload := by
    rw [frame, show 9 = (lengthPrefix payload.length).length + 1 by rw [hwidth],
      List.drop_length_add_append]
    rfl
  rw [decodePackedShardLine, hframed]
  change (if ((frame payload).drop 9).length ≠ _ then _ else
    if valid ((frame payload).drop 9) = false then _ else _) = _
  rw [hdrop, if_neg (not_not.mpr rfl), hvalid, if_neg (by decide)]
  exact congrArg Except.ok hdrop

/-! ## Lines of a file -/

/-- Lines as they stand in a file. -/
def joinLines (lines : List Bytes) : Bytes := lines.flatMap (· ++ [newline])

theorem splitLines_of_notMem (h : newline ∉ rest) : splitLines rest = ([], rest) := by
  induction rest with
  | nil => rfl
  | cons b rest ih =>
    rw [List.mem_cons, not_or] at h
    rw [splitLines, if_neg (Ne.symm h.1), ih h.2]

theorem splitLines_line {line : Bytes} (h : newline ∉ line) (content : Bytes) :
    splitLines (line ++ newline :: content) =
      (line :: (splitLines content).1, (splitLines content).2) := by
  induction line with
  | nil => rw [List.nil_append, splitLines, if_pos rfl]
  | cons b line ih =>
    rw [List.mem_cons, not_or] at h
    rw [List.cons_append, splitLines, if_neg (Ne.symm h.1), ih h.2]

/-- The lines of a file are those that were written. -/
theorem splitLines_join {lines : List Bytes} (hlines : ∀ line ∈ lines, newline ∉ line)
    (hrest : newline ∉ rest) : splitLines (joinLines lines ++ rest) = (lines, rest) := by
  induction lines with
  | nil => exact splitLines_of_notMem hrest
  | cons line lines ih =>
    have hjoin : joinLines (line :: lines) ++ rest =
        line ++ newline :: (joinLines lines ++ rest) := by
      rw [joinLines, List.flatMap_cons, List.append_assoc, List.append_assoc]
      rfl
    rw [hjoin, splitLines_line (hlines line List.mem_cons_self),
      ih fun x hx => hlines x (List.mem_cons_of_mem _ hx)]

/-! ## Good lines -/

section Good

variable {valid : Bytes → Bool} {path : String}

/-- A line that a scan takes, with its payload. -/
structure GoodLine (valid : Bytes → Bool) (line payload : Bytes) : Prop where
  ne_nil : line ≠ []
  decoded : decodePackedShardLine valid line = .ok payload
  length : line.length + 1 ≤ packedShardMaxLineBytes

/-- Once the pending record is committed, the scan has these records and is at this offset. -/
def Settled (path : String) (s : Scanner (List Bytes)) (records : List Bytes) (offset : Nat) :
    Prop :=
  commitPending path collect s =
    .ok { state := records, records := records.length, lastIntactEnd := offset, cursor := offset }

variable {s : Scanner (List Bytes)} {records : List Bytes} {offset : Nat} {line : Bytes}
  {lines : List (Bytes × Bytes)}

theorem Settled.scanLine (h : Settled path s records offset) {payload : Bytes}
    (hline : GoodLine valid line payload) :
    ∃ s', scanLine valid path collect s line = .ok s' ∧
      Settled path s' (records ++ [payload]) (offset + (line.length + 1)) := by
  have hfits : ¬ (readerSize < line.length + 1 ∧ packedShardMaxLineBytes < line.length + 1) :=
    fun hlong => absurd hline.length (not_le.mpr hlong.2)
  rw [PackedShard.scanLine, h]
  dsimp only
  rw [if_neg hfits, if_neg hline.ne_nil, hline.decoded]
  refine ⟨_, rfl, ?_⟩
  have hcount : (records ++ [payload]).length = records.length + 1 := List.length_append
  rw [Settled, hcount]
  rfl

/-- By induction on the lines: good ones are collected in order, and the offset is behind the last.
-/
theorem Settled.scanLines (h : Settled path s records offset)
    (hlines : ∀ item ∈ lines, GoodLine valid item.1 item.2) :
    ∃ s', scanLines valid path collect (lines.map Prod.fst) s = .ok s' ∧
      Settled path s' (records ++ lines.map Prod.snd)
        (offset + (joinLines (lines.map Prod.fst)).length) := by
  induction lines generalizing s records offset with
  | nil =>
    refine ⟨s, rfl, ?_⟩
    rw [List.map_nil, List.append_nil]
    exact h
  | cons item lines ih =>
    obtain ⟨s₁, hstep, hsettled⟩ := h.scanLine (hlines item List.mem_cons_self)
    obtain ⟨s₂, hrest, hsettled'⟩ := ih hsettled fun x hx => hlines x (List.mem_cons_of_mem _ hx)
    refine ⟨s₂, ?_, ?_⟩
    · rw [List.map_cons, PackedShard.scanLines, hstep]
      exact hrest
    · rw [List.append_assoc] at hsettled'
      rw [List.map_cons, List.map_cons, joinLines, List.flatMap_cons, List.length_append,
        List.length_append, ← Nat.add_assoc]
      exact hsettled'

theorem Settled.scanEnd (h : Settled path s records offset) (rest : Bytes) :
    ∃ err, scanEnd valid path collect rest s =
      .ok (records, ⟨records.length, offset, rest.length, err⟩) := by
  rw [PackedShard.scanEnd]
  split
  · rename_i hpending
    rw [Settled, commitPending, hpending] at h
    cases h
  · rw [h]
    exact ⟨_, rfl⟩

/-- **A file of good lines**, and what follows the last newline. -/
theorem scan_good (hlines : ∀ item ∈ lines, newline ∉ item.1 ∧ GoodLine valid item.1 item.2)
    {rest : Bytes} (hrest : newline ∉ rest) :
    ∃ err, shardRecords valid path (joinLines (lines.map Prod.fst) ++ rest) =
      .ok (lines.map Prod.snd,
        ⟨lines.length, (joinLines (lines.map Prod.fst)).length, rest.length, err⟩) := by
  have hsplit : splitLines (joinLines (lines.map Prod.fst) ++ rest) =
      (lines.map Prod.fst, rest) := by
    refine splitLines_join (fun line hline => ?_) hrest
    obtain ⟨item, hin, rfl⟩ := List.mem_map.mp hline
    exact (hlines item hin).1
  have hstart : Settled path { state := [] } [] 0 := rfl
  obtain ⟨s, hscan, hsettled⟩ := hstart.scanLines fun item hin => (hlines item hin).2
  obtain ⟨err, hend⟩ := hsettled.scanEnd rest
  refine ⟨err, ?_⟩
  rw [shardRecords, scanPackedShard, hsplit]
  dsimp only
  rw [hscan]
  refine hend.trans ?_
  rw [List.nil_append, List.length_map, Nat.zero_add]

/-- **A line that is too long** ends every scan that comes to it. -/
theorem scan_long {σ : Type} {handle : σ → Bytes → Except String σ} {lines : List Bytes}
    (hin : line ∈ lines) (hlong : packedShardMaxLineBytes < line.length + 1) (s s' : Scanner σ) :
    scanLines valid path handle lines s ≠ .ok s' := by
  have hreader : readerSize < line.length + 1 :=
    lt_trans (by decide : readerSize < packedShardMaxLineBytes) hlong
  induction lines generalizing s with
  | nil => exact absurd hin List.not_mem_nil
  | cons first lines ih =>
    rw [scanLines]
    rcases List.mem_cons.mp hin with rfl | hin
    · intro heq
      rw [PackedShard.scanLine] at heq
      cases hcommit : commitPending path handle s with
      | error e =>
        rw [hcommit] at heq
        cases heq
      | ok s₁ =>
        rw [hcommit] at heq
        dsimp only at heq
        rw [if_pos ⟨hreader, hlong⟩] at heq
        cases heq
    · cases scanLine valid path handle s first with
      | error e => exact fun heq => nomatch heq
      | ok s₁ => exact ih hin s₁

end Good

/-! ## A file that is cut -/

/-- A payload as the store writes it: JSON without a newline. -/
structure Record (valid : Bytes → Bool) (payload : Bytes) : Prop where
  valid : valid payload = true
  one_line : newline ∉ payload

/-- The records that are complete in so many bytes. -/
def completeIn : Nat → List Bytes → List Bytes
  | _, [] => []
  | n, payload :: records =>
    if (encodePackedShardLine payload).length ≤ n then
      payload :: completeIn (n - (encodePackedShardLine payload).length) records
    else []

theorem mem_of_mem_completeIn (h : payload ∈ completeIn n records) : payload ∈ records := by
  induction records generalizing n with
  | nil => exact h
  | cons first records ih =>
    rw [completeIn] at h
    split at h
    · rcases List.mem_cons.mp h with rfl | h
      · exact List.mem_cons_self
      · exact List.mem_cons_of_mem _ (ih h)
    · exact absurd h List.not_mem_nil

/-- What is left of a file that is cut: the complete records, and a part without a newline. -/
theorem take_encoded (h : ∀ payload ∈ records, newline ∉ payload) (n : Nat) :
    ∃ rest, newline ∉ rest ∧ (records.flatMap encodePackedShardLine).take n =
      joinLines ((completeIn n records).map frame) ++ rest := by
  induction records generalizing n with
  | nil => exact ⟨[], List.not_mem_nil, List.take_nil⟩
  | cons payload records ih =>
    rw [List.flatMap_cons, completeIn]
    split
    · rename_i hfits
      obtain ⟨rest, hrest, htake⟩ := ih (fun x hx => h x (List.mem_cons_of_mem _ hx))
        (n - (encodePackedShardLine payload).length)
      refine ⟨rest, hrest, ?_⟩
      rw [List.take_append, List.take_of_length_le hfits, htake, List.map_cons, joinLines,
        joinLines, List.flatMap_cons, List.append_assoc]
      rfl
    · rename_i hcut
      refine ⟨(frame payload).take n, fun hin => ?_, ?_⟩
      · exact newline_notMem_frame (h payload List.mem_cons_self) (List.mem_of_mem_take hin)
      · rw [not_le, encodePackedShardLine, List.length_append, List.length_singleton] at hcut
        rw [encodePackedShardLine, List.append_assoc, List.take_append_of_le_length (by omega)]
        rfl

section Records

variable {valid : Bytes → Bool} {path : String} {payload : Bytes} {records : List Bytes}

/-- A record that is framed has no newline in it and is accepted, if it is not too long. -/
theorem Record.goodLine (h : Record valid payload)
    (hlength : (encodePackedShardLine payload).length ≤ packedShardMaxLineBytes) :
    newline ∉ frame payload ∧ GoodLine valid (frame payload) payload := by
  rw [encodePackedShardLine, List.length_append, List.length_singleton] at hlength
  have hshort : payload.length < 16 ^ 8 := by
    have hframe : payload.length ≤ (frame payload).length := by
      rw [frame, List.length_append, List.length_cons]
      omega
    have hmax : packedShardMaxLineBytes < 16 ^ 8 := by decide
    omega
  refine ⟨newline_notMem_frame h.one_line, fun hnil => ?_, decode_frame hshort h.valid, hlength⟩
  have hzero := congrArg List.length hnil
  rw [frame_length hshort] at hzero
  cases hzero

/-- **A file of written records** and what follows them: the scan takes the records, if no line is
too long. -/
theorem scan_records (hrecords : ∀ payload ∈ records, Record valid payload) {rest : Bytes}
    (hrest : newline ∉ rest) :
    (∀ payload ∈ records, (encodePackedShardLine payload).length ≤ packedShardMaxLineBytes) →
      ∃ err, shardRecords valid path (joinLines (records.map frame) ++ rest) =
        .ok (records,
          ⟨records.length, (joinLines (records.map frame)).length, rest.length, err⟩) := by
  intro hlength
  have hlines : ∀ item ∈ records.map fun payload => (frame payload, payload),
      newline ∉ item.1 ∧ GoodLine valid item.1 item.2 := by
    intro item hin
    obtain ⟨payload, hpayload, rfl⟩ := List.mem_map.mp hin
    exact (hrecords payload hpayload).goodLine (hlength payload hpayload)
  have hgood := @scan_good _ path _ hlines _ hrest
  rw [List.map_map, List.map_map, List.length_map] at hgood
  have hpayloads : records.map (Prod.snd ∘ fun payload => (frame payload, payload)) = records :=
    List.map_id records
  rw [hpayloads] at hgood
  exact hgood

/-- A line above the limit is no record that can be read: the scan ends with an error. -/
theorem scan_records_long (hrecords : ∀ payload ∈ records, Record valid payload) {rest : Bytes}
    (hrest : newline ∉ rest) (hin : payload ∈ records)
    (hlong : packedShardMaxLineBytes < (encodePackedShardLine payload).length)
    (out : List Bytes × PackedShardScanResult) :
    shardRecords valid path (joinLines (records.map frame) ++ rest) ≠ .ok out := by
  have hsplit : splitLines (joinLines (records.map frame) ++ rest) = (records.map frame, rest) := by
    refine splitLines_join (fun line hline => ?_) hrest
    obtain ⟨payload, hpayload, rfl⟩ := List.mem_map.mp hline
    exact newline_notMem_frame (hrecords payload hpayload).one_line
  rw [encodePackedShardLine, List.length_append, List.length_singleton] at hlong
  rw [shardRecords, scanPackedShard, hsplit]
  dsimp only
  cases hscan : scanLines valid path collect (records.map frame) { state := [] } with
  | error e => exact fun heq => nomatch heq
  | ok s => exact absurd hscan (scan_long (List.mem_map_of_mem hin) hlong _ s)

/-- **Torn-tail recovery**: the scan of a file that was cut finds the complete records and the size
of the rest, and the file without the rest has the same records and no torn tail. -/
def RecoversTornTail (valid : Bytes → Bool) (path : String) (records : List Bytes) (n : Nat) :
    Prop :=
  ∃ result, shardRecords valid path ((records.flatMap encodePackedShardLine).take n) =
      .ok (completeIn n records, result) ∧
    result.lastIntactEnd + result.tornTailBytes =
      ((records.flatMap encodePackedShardLine).take n).length ∧
    ∃ result', shardRecords valid path (truncatePackedShardTornTail
        ((records.flatMap encodePackedShardLine).take n) result.lastIntactEnd) =
        .ok (completeIn n records, result') ∧ result'.tornTailBytes = 0

/-- A file of records that is cut at any byte is recovered, exactly if no line that was written
completely is longer than a scan reads. -/
theorem torn_tail_recovered {records : List Bytes}
    (hrecords : ∀ payload ∈ records, Record valid payload) (n : Nat) :
    RecoversTornTail valid path records n ↔ ∀ payload ∈ completeIn n records,
      (encodePackedShardLine payload).length ≤ packedShardMaxLineBytes := by
  have hcomplete : ∀ payload ∈ completeIn n records, Record valid payload :=
    fun payload hin => hrecords payload (mem_of_mem_completeIn hin)
  obtain ⟨rest, hrest, htake⟩ := take_encoded (fun x hx => (hrecords x hx).one_line) n
  rw [RecoversTornTail, htake]
  constructor
  · rintro ⟨result, hscan, -⟩ payload hin
    by_contra hlong
    exact scan_records_long hcomplete hrest hin (not_le.mp hlong) _ hscan
  · intro hlength
    obtain ⟨err, hscan⟩ := @scan_records _ path _ hcomplete _ hrest hlength
    obtain ⟨err', hscan'⟩ := @scan_records _ path _ hcomplete _ List.not_mem_nil hlength
    refine ⟨_, hscan, List.length_append.symm, ?_⟩
    rw [List.append_nil] at hscan'
    rw [truncatePackedShardTornTail, List.take_left]
    exact ⟨_, hscan', rfl⟩

end Records

/-- The JSON strings without escapes. -/
def isText : Bytes → Bool
  | 34 :: rest =>
    match rest.reverse with
    | 34 :: inner => inner.all fun b => decide (32 ≤ b ∧ b < 127 ∧ b ≠ 34 ∧ b ≠ 92)
    | _ => false
  | _ => false

/-- A JSON string of so many letters. -/
def letters (n : Nat) : Bytes := 34 :: (List.replicate n 97 ++ [34])

theorem letters_length (n : Nat) : (letters n).length = n + 2 := by
  rw [letters, List.length_cons, List.length_append, List.length_replicate]
  rfl

theorem letters_record (n : Nat) : Record isText (letters n) := by
  refine ⟨?_, fun hin => ?_⟩
  · rw [letters, isText, List.reverse_append, List.reverse_replicate]
    change (List.replicate n (97 : UInt8)).all _ = true
    rw [List.all_eq_true]
    intro b hb
    rw [List.eq_of_mem_replicate hb]
    decide
  · rcases List.mem_cons.mp hin with heq | hin
    · exact absurd heq (by decide)
    rcases List.mem_append.mp hin with hin | hin
    · exact absurd (List.eq_of_mem_replicate hin) (by decide)
    · exact absurd (List.mem_singleton.mp hin) (by decide)

theorem take_one (payload : Bytes) :
    ([payload].flatMap encodePackedShardLine).take (encodePackedShardLine payload).length =
      joinLines ([payload].map frame) ++ [] := by
  rw [List.flatMap_singleton, List.take_length, joinLines, List.map_singleton,
    List.flatMap_singleton, List.append_nil, encodePackedShardLine]

/-- **A record that a scan cannot read**: it is written completely, and the scan fails. -/
theorem long_record_not_recovered :
    ¬ RecoversTornTail isText "records.jsonl" [letters (2 * 2 ^ 20)]
      (encodePackedShardLine (letters (2 * 2 ^ 20))).length := by
  have hrecord := letters_record (2 * 2 ^ 20)
  have hrecords : ∀ payload ∈ [letters (2 * 2 ^ 20)], Record isText payload :=
    fun payload hin => List.mem_singleton.mp hin ▸ hrecord
  have hlong : packedShardMaxLineBytes < (encodePackedShardLine (letters (2 * 2 ^ 20))).length := by
    rw [encodePackedShardLine, List.length_append, frame, List.length_append, List.length_cons,
      letters_length, packedShardMaxLineBytes]
    omega
  rintro ⟨result, hscan, -⟩
  rw [take_one] at hscan
  exact scan_records_long hrecords List.not_mem_nil List.mem_cons_self hlong _ hscan

/-- Two records, cut inside the second. -/
theorem torn_tail_recovered_two :
    RecoversTornTail isText "records.jsonl" [letters 1, letters 2] 20 :=
  (torn_tail_recovered (List.forall_mem_cons.mpr ⟨letters_record 1,
    List.forall_mem_cons.mpr ⟨letters_record 2, fun _ h => absurd h List.not_mem_nil⟩⟩) 20).mpr
    (by decide +kernel)

end PackedShard

end Gmeow
