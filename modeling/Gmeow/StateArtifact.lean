import Gmeow.Blocks
import Gmeow.Repair

/-!
# The snapshot of the resolution state

`SnapshotState` writes the cache, the index, the ledger and the memo as blocks of one artifact;
`LoadState` reads them and replaces the state, or fails and changes nothing. A block of more than
512 MiB is written but refused when it is read, and the lists inside a block have their lengths in
four bytes: what is read at all has no more values than that.

* `TextCodec` — the bytes that the strings of the program are;
* `snapshotState`, `loadState`;
* `loadState_snapshotState` — a service that loads a snapshot of another has the claims and the
  memo of that one, or fails and is as it was.
-/

namespace Gmeow

open Blocks

/-! ## Blocks -/

/-- `stateMagic`. -/
def stateMagic : String := "GMEOWSTATE4"

/-- `previousStateMagic`. -/
def previousStateMagic : String := "GMEOWSTATE3"

/-- `maxLenBytes`: 512 MiB. -/
def maxLenBytes : Nat := 512 * 2 ^ 20

theorem maxLenBytes_lt : maxLenBytes < 2 ^ 32 := by decide

/-- What a block holds, read on its own; bytes left over do not matter. -/
def within {α : Type} (read : Parse α) (data : Bytes) : Parse α := fun bytes =>
  match read data with
  | .ok (value, _) => .ok (value, bytes)
  | .error e => .error e

/-- A decoder of a block that is given. -/
def decoded {α : Type} (out : Except String α) : Parse α := fun bytes =>
  out.map fun value => (value, bytes)

variable {bound : Nat}

/-- A block that is read on its own. -/
theorem within_reads {α : Type} {read : Parse α} {data : Bytes} {value : α}
    (h : Reads maxLenBytes read data value) (hlength : data.length ≤ maxLenBytes) :
    Reads bound (within read data) [] value := by
  intro _ rest
  have hread := h hlength []
  rw [List.append_nil] at hread
  rw [List.nil_append, within, hread]

/-- A block whose decoder is left open. -/
theorem decoded_recovers {α : Type} (out : Except String α) (other : α) :
    Recovers bound (decoded out) [] (out.toOption.getD other) := by
  intro _ rest
  cases out with
  | error e => exact Or.inl ⟨e, rfl⟩
  | ok value => exact Or.inr rfl

/-- A map with some bindings. -/
def mapOf {W : Type} (items : List (String × W)) : OrdMap String W :=
  items.foldl (fun acc item => acc.set item.1 item.2) ∅

/-- A map whose bindings are written one after the other. -/
theorem mapOf_reads {W : Type} {write : String × W → Bytes} {read : Parse (String × W)}
    (hwrite : ∀ item, write item ≠ []) (m : OrdMap String W)
    (h : ∀ item ∈ m.entries, Reads maxLenBytes read (write item) item) :
    Reads maxLenBytes (readCounted read >>= fun items => pure (mapOf items))
      (writeCounted write m.entries) m := by
  refine (Reads.counted maxLenBytes_lt hwrite m.entries h).map ?_
  rw [List.map_id', mapOf, OrdMap.foldl_set_entries]
  exact .pure m

/-! ## The sections -/

/-- The bytes of strings. A string of the program is any bytes, also such as are no UTF-8; a text
stands for those it is given here, and no two for the same. What is said for every codec is said for
those that reach all byte strings too. -/
class TextCodec where
  toBytes : String → Bytes
  ofBytes : Bytes → String
  ofBytes_toBytes : ∀ s, ofBytes (toBytes s) = s

open TextCodec

section Texts

variable [TextCodec]

/-- `writeLenString`. -/
def writeLenString (s : String) : Bytes := writeBlock (toBytes s)

/-- `readLenString`. -/
def readLenString : Parse String := do
  return ofBytes (← readBlock maxLenBytes)

/-- A binding of the memo. -/
def writeItem (item : String × String) : Bytes := writeLenString item.1 ++ writeLenString item.2

/-- A binding of the memo. -/
def readItem : Parse (String × String) := do
  let key ← readLenString
  let value ← readLenString
  return (key, value)

/-- `encodeStringMap`. -/
def encodeStringMap (m : OrdMap String String) : Bytes :=
  writeCounted writeItem m.entries

/-- `decodeStringMap`. -/
def decodeStringMap : Parse (OrdMap String String) := do
  let items ← readCounted readItem
  return mapOf items

/-- A claim of a row. -/
def writeClaim (item : String × ClaimEntry) : Bytes :=
  writeLenString item.1 ++ (writeLenString item.2.text ++
    (writeLenString item.2.validFrom ++ writeLenString item.2.validUntil))

/-- A claim of a row. -/
def readClaim : Parse (String × ClaimEntry) := do
  let hash ← readLenString
  let text ← readLenString
  let validFrom ← readLenString
  let validUntil ← readLenString
  return (hash, ⟨text, validFrom, validUntil⟩)

/-- An entity and its claims. -/
def writeRow (item : String × OrdMap String ClaimEntry) : Bytes :=
  writeLenString item.1 ++ writeCounted writeClaim item.2.entries

/-- An entity and its claims. -/
def readRow : Parse (String × OrdMap String ClaimEntry) := do
  let entity ← readLenString
  let items ← readCounted readClaim
  return (entity, mapOf items)

/-- A count of occurrences. -/
def writeOccurrence (item : String × Nat) : Bytes := writeLenString item.1 ++ leBytes 4 item.2

/-- A count of occurrences. -/
def readOccurrence : Parse (String × Nat) := do
  let hash ← readLenString
  let count ← readUint 4
  return (hash, count)

/-- `encodeLedger`. -/
def encodeLedger (l : EntityLedger) : Bytes :=
  writeCounted writeRow l.claims.entries ++
    (leBytes 4 l.observations ++ writeCounted writeOccurrence l.occurrences.entries)

/-- `seedObservationStatsFromEntities`. -/
def EntityLedger.seedObservationStats (l : EntityLedger) : EntityLedger :=
  { l with
    observations := l.claims.entries.length
    occurrences := (l.claims.entries.flatMap fun item => item.2.entries.map (·.1)).foldl
      (fun occurrences hash => occurrences.set hash ((occurrences.get hash).getD 0 + 1)) ∅ }

/-- `decodeLedger`. -/
def decodeLedger (hasOccurrenceStats : Bool) : Parse EntityLedger := do
  let rows ← readCounted readRow
  let l : EntityLedger := { claims := mapOf rows }
  if hasOccurrenceStats then
    let observations ← readUint 4
    let items ← readCounted readOccurrence
    return { l with observations := observations, occurrences := mapOf items }.rebuild
  else return l.rebuild.seedObservationStats

/-! ## Snapshots -/

variable {C I V F : Type}

/-- `SnapshotState`. There is no artifact when the buffer cannot grow that far: a length is a
signed 64-bit number. -/
def snapshotState (E : Embedding C I V F) (s : Service C I V) : Option Bytes :=
  let data := utf8 stateMagic ++ (writeBlock (E.encodeCache s.resolver) ++
    (writeBlock (E.snapshot s.index) ++ (writeBlock (encodeLedger s.ledger) ++
      writeBlock (encodeStringMap s.seenObs))))
  if data.length < 2 ^ 63 then some data else none

/-- The artifact of `LoadState`: the cache, the index, the ledger and the memo. -/
def readState (E : Embedding C I V F) (resolver : C) :
    Parse (C × I × EntityLedger × OrdMap String String) := do
  let magic ← takeBytes (utf8 stateMagic).length
  if magic = utf8 stateMagic ∨ magic = utf8 previousStateMagic then
    let cacheBlob ← readBlock maxLenBytes
    let entries ← decoded (E.decodeCache resolver cacheBlob)
    let indexBlob ← readBlock maxLenBytes
    let index ← decoded (E.loadEntityIndex indexBlob)
    let ledgerBlob ← readBlock maxLenBytes
    let ledger ← within (decodeLedger (magic = utf8 stateMagic)) ledgerBlob
    let memoBlob ← readBlock maxLenBytes
    let memo ← within decodeStringMap memoBlob
    return (entries, index, ledger, memo)
  else throw "unrecognized resolution-state artifact magic"

/-- `LoadState`. -/
def loadState (E : Embedding C I V F) (data : Bytes) (s : Service C I V) :
    Except String Unit × Service C I V :=
  match readState E s.resolver data with
  | .error e => (.error e, s)
  | .ok ((resolver, index, ledger, memo), _) =>
    (.ok (), { s with
      resolver := resolver, index := index, ledger := ledger, seenObs := memo
      entityClaims := ∅ })

/-! ## What is read back -/

theorem readLenString_reads (s : String) :
    Reads maxLenBytes readLenString (writeLenString s) s := by
  refine (Reads.block (maxLenBytes_lt.trans (by decide)) fun hlength => ?_).map ?_
  · rw [writeBlock, List.length_append] at hlength
    omega
  · rw [ofBytes_toBytes]
    exact .pure s

theorem writeLenString_ne_nil (s : String) (rest : Bytes) : writeLenString s ++ rest ≠ [] := by
  intro h
  have hlength := congrArg List.length h
  rw [writeLenString, writeBlock, List.length_append, List.length_append, length_leBytes] at hlength
  simp at hlength

theorem readItem_reads (item : String × String) :
    Reads maxLenBytes readItem (writeItem item) item := by
  refine (readLenString_reads item.1).bind ?_
  refine (readLenString_reads item.2).map ?_
  exact .pure item

theorem decodeStringMap_reads (m : OrdMap String String) :
    Reads maxLenBytes decodeStringMap (encodeStringMap m) m :=
  mapOf_reads (fun _ => writeLenString_ne_nil _ _) m fun item _ => readItem_reads item

theorem readClaim_reads (item : String × ClaimEntry) :
    Reads maxLenBytes readClaim (writeClaim item) item := by
  refine (readLenString_reads item.1).bind ?_
  refine (readLenString_reads item.2.text).bind ?_
  refine (readLenString_reads item.2.validFrom).bind ?_
  refine (readLenString_reads item.2.validUntil).map ?_
  exact .pure item

theorem readRow_reads (item : String × OrdMap String ClaimEntry) :
    Reads maxLenBytes readRow (writeRow item) item := by
  refine (readLenString_reads item.1).bind ?_
  refine (Reads.counted maxLenBytes_lt (fun claim => writeLenString_ne_nil _ _) item.2.entries
    fun claim _ => readClaim_reads claim).map ?_
  rw [List.map_id', mapOf, OrdMap.foldl_set_entries]
  exact .pure item

/-- The ledger that is read back: its counts are cut off at 32 bits, and its indexes are those of
its claims. -/
def EntityLedger.reread (l : EntityLedger) : EntityLedger :=
  { claims := l.claims
    observations := l.observations % 256 ^ 4
    occurrences := mapOf (l.occurrences.entries.map fun item => (item.1, item.2 % 256 ^ 4))
    : EntityLedger }.rebuild

theorem decodeLedger_reads (l : EntityLedger) :
    Reads maxLenBytes (decodeLedger true) (encodeLedger l) l.reread := by
  refine (Reads.counted maxLenBytes_lt (fun row => writeLenString_ne_nil _ _) l.claims.entries
    fun row _ => readRow_reads row).bind ?_
  rw [List.map_id', mapOf, OrdMap.foldl_set_entries, if_pos rfl]
  refine (Reads.uint 4 l.observations).bind ?_
  refine (Reads.counted maxLenBytes_lt (fun item => writeLenString_ne_nil _ _)
    l.occurrences.entries fun item _ => ?_).map (.pure _)
  refine (readLenString_reads item.1).bind ?_
  exact (Reads.uint 4 item.2).map (.pure _)

/-- The artifact of a service is refused, or has its claims and its memo. -/
theorem readState_recovers (E : Embedding C I V F) (s s' : Service C I V) :
    ∃ resolver index ledger, ledger.claims = s'.ledger.claims ∧
      Recovers (2 ^ 63) (readState E s.resolver)
        (utf8 stateMagic ++ (writeBlock (E.encodeCache s'.resolver) ++
          (writeBlock (E.snapshot s'.index) ++ (writeBlock (encodeLedger s'.ledger) ++
            writeBlock (encodeStringMap s'.seenObs))))) (resolver, index, ledger, s'.seenObs) := by
  have hbound : 2 ^ 63 ≤ 2 ^ 64 := by decide
  have hlongest : maxLenBytes < 2 ^ 64 := maxLenBytes_lt.trans (by decide)
  refine ⟨(E.decodeCache s.resolver (E.encodeCache s'.resolver)).toOption.getD s.resolver,
    (E.loadEntityIndex (E.snapshot s'.index)).toOption.getD s.index, s'.ledger.reread,
    EntityLedger.rebuild_claims _, ?_⟩
  refine (Reads.take (utf8 stateMagic)).recovers.bind ?_
  rw [if_pos (Or.inl rfl)]
  refine .block hbound hlongest _ fun _ => ?_
  refine (decoded_recovers _ s.resolver).bind ?_
  refine .block hbound hlongest _ fun _ => ?_
  refine (decoded_recovers _ s.index).bind ?_
  refine .block hbound hlongest _ fun hlength => ?_
  rw [decide_eq_true rfl]
  refine (within_reads (decodeLedger_reads _) hlength).recovers.bind ?_
  refine .blockMap hbound hlongest _ fun hlength => Reads.recovers ?_
  exact (within_reads (decodeStringMap_reads _) hlength).map (.pure _)

/-- **Loading a snapshot.** It fails and changes nothing, or the claims and the memo are those of
the service it was taken from. -/
theorem loadState_snapshotState {E : Embedding C I V F} {s' : Service C I V} {data : Bytes}
    (hdata : snapshotState E s' = some data) (s : Service C I V) :
    ((∃ e, (loadState E data s).1 = .error e) ∧ (loadState E data s).2 = s) ∨
      (loadState E data s).1 = .ok () ∧
        (loadState E data s).2.ledger.claims = s'.ledger.claims ∧
        (loadState E data s).2.seenObs = s'.seenObs := by
  rw [snapshotState] at hdata
  split at hdata
  · rename_i hlength
    obtain ⟨resolver, index, ledger, hclaims, hread⟩ := readState_recovers E s s'
    have hread := hread hlength []
    rw [List.append_nil, Option.some.inj hdata] at hread
    rcases hread with ⟨e, hfail⟩ | hread
    · rw [loadState, hfail]
      exact Or.inl ⟨⟨e, rfl⟩, rfl⟩
    · rw [loadState, hread]
      exact Or.inr ⟨rfl, hclaims, rfl⟩
  · cases hdata

end Texts

/-- Texts that are their UTF-8. -/
instance utf8Texts : TextCodec where
  toBytes := utf8
  ofBytes data := (String.fromUTF8? ⟨data.toArray⟩).getD ""
  ofBytes_toBytes s := by
    have hbytes : (⟨(utf8 s).toArray⟩ : ByteArray) = s.toByteArray := by simp [utf8]
    rw [hbytes, String.fromUTF8?, dif_pos s.isValidUTF8]
    rfl

end Gmeow
