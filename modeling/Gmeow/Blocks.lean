import Mathlib

/-!
# Blocks with a length in front

A format of little-endian numbers and of blocks whose length is written in front of them. Lengths
have a fixed width and a reader refuses long blocks, so what was written is read back if it is not
too long; otherwise it is refused.

* `leBytes`, `leValue` — a number as bytes, lowest first;
* `Parse` — read off the front of a byte list, or fail;
* `Reads`, with `Reads.bind`, `Reads.counted`, `Reads.block` — short bytes are read as the value
  they stand for, and how formats are put together;
* `Recovers` — a reader refuses some bytes or yields the value they stand for;
* `Yields` — what holds of all that a reader accepts.
-/

namespace Blocks

/-! ## Numbers -/

/-- The lowest bytes of a number, lowest first. -/
def leBytes : Nat → Nat → List UInt8
  | 0, _ => []
  | width + 1, n => UInt8.ofNat n :: leBytes width (n / 256)

/-- The number some bytes stand for. -/
def leValue : List UInt8 → Nat
  | [] => 0
  | byte :: rest => byte.toNat + 256 * leValue rest

@[simp] theorem length_leBytes (width n : Nat) : (leBytes width n).length = width := by
  induction width generalizing n with
  | zero => rfl
  | succ width ih => rw [leBytes, List.length_cons, ih]

theorem leValue_leBytes (width n : Nat) : leValue (leBytes width n) = n % 256 ^ width := by
  induction width generalizing n with
  | zero => simp [leBytes, leValue, Nat.mod_one]
  | succ width ih =>
    have hbyte : (UInt8.ofNat n).toNat = n % 256 := UInt8.toNat_ofNat'
    rw [leBytes, leValue, ih, hbyte, Nat.pow_succ', Nat.mod_mul]

/-! ## Reading -/

/-- Read off the front of a byte list. -/
abbrev Parse (α : Type) : Type := StateT (List UInt8) (Except String) α

variable {α β : Type}

/-- `io.ReadFull`. -/
def takeBytes (count : Nat) : Parse (List UInt8) := fun bytes =>
  if bytes.length < count then .error (if bytes.isEmpty then "EOF" else "unexpected EOF")
  else .ok (bytes.take count, bytes.drop count)

/-- A little-endian number. -/
def readUint (width : Nat) : Parse Nat := do
  return leValue (← takeBytes width)

/-- One value after the other. -/
def readMany (read : Parse α) : Nat → Parse (List α)
  | 0 => return []
  | count + 1 => do
    let value ← read
    let rest ← readMany read count
    return value :: rest

/-- Values with their number in front, in four bytes. -/
def writeCounted (write : α → List UInt8) (values : List α) : List UInt8 :=
  leBytes 4 values.length ++ values.flatMap write

/-- Read as many values as are announced. -/
def readCounted (read : Parse α) : Parse (List α) := do
  let count ← readUint 4
  readMany read count

/-- A block: its length in eight bytes, then its bytes. -/
def writeBlock (data : List UInt8) : List UInt8 := leBytes 8 data.length ++ data

/-- Read a block that is not too long. -/
def readBlock (longest : Nat) : Parse (List UInt8) := do
  let length ← readUint 8
  if longest < length then throw s!"length exceeds limit: {length} (max {longest})"
  else takeBytes length

/-! ## What is read back -/

theorem bind_apply (read : Parse α) (next : α → Parse β) (bytes : List UInt8) :
    (read >>= next) bytes = match read bytes with
      | .ok (value, rest) => next value rest
      | .error e => .error e := by
  change (read bytes >>= fun out => next out.1 out.2) = _
  cases read bytes <;> rfl

/-- Bytes of no more than that many are read as that value, whatever follows them. -/
def Reads (bound : Nat) (read : Parse α) (bytes : List UInt8) (value : α) : Prop :=
  bytes.length ≤ bound → ∀ rest, read (bytes ++ rest) = .ok (value, rest)

variable {bound : Nat} {read : Parse α} {bytes bytes' : List UInt8} {value : α}

theorem Reads.pure (value : α) : Reads bound (pure value) [] value := fun _ _ => rfl

variable {next : α → Parse β} {value' : β} {write : α → List UInt8} {longest : Nat} {f : α → β}

theorem Reads.bind (h : Reads bound read bytes value)
    (h' : Reads bound (next value) bytes' value') :
    Reads bound (read >>= next) (bytes ++ bytes') value' := by
  intro hlength rest
  rw [List.length_append] at hlength
  rw [List.append_assoc, bind_apply, h (by omega) (bytes' ++ rest)]
  exact h' (by omega) rest

/-- A reader that goes on with a value and reads nothing more. -/
theorem Reads.map (h : Reads bound read bytes value) (h' : Reads bound (next value) [] value') :
    Reads bound (read >>= next) bytes value' := by
  have hboth := h.bind h'
  rwa [List.append_nil] at hboth

theorem Reads.take (data : List UInt8) : Reads bound (takeBytes data.length) data data := by
  intro _ rest
  rw [takeBytes, if_neg (by simp), List.take_left, List.drop_left]

theorem Reads.uint (width n : Nat) :
    Reads bound (readUint width) (leBytes width n) (n % 256 ^ width) := by
  have hbytes : Reads bound (takeBytes (leBytes width n).length) (leBytes width n) _ := .take _
  rw [length_leBytes] at hbytes
  refine hbytes.map ?_
  rw [leValue_leBytes]
  exact .pure _

/-- Values one after the other, each read back as `f` of it. -/
theorem Reads.many {read : Parse β} (values : List α)
    (h : ∀ value ∈ values, Reads bound read (write value) (f value)) :
    Reads bound (readMany read values.length) (values.flatMap write) (values.map f) := by
  induction values with
  | nil => exact .pure _
  | cons value values ih =>
    rw [List.flatMap_cons]
    refine (h value List.mem_cons_self).bind ?_
    refine (ih fun other hother => h other (List.mem_cons_of_mem _ hother)).map ?_
    exact .pure _

theorem length_le_flatMap (hwrite : ∀ value, write value ≠ []) (values : List α) :
    values.length ≤ (values.flatMap write).length := by
  induction values with
  | nil => exact Nat.le_refl 0
  | cons value values ih =>
    have hpos := List.length_pos_of_ne_nil (hwrite value)
    rw [List.flatMap_cons, List.length_append, List.length_cons]
    omega

/-- A list with its number of values in front. There are no more values than bytes, so their
number is read as it is. -/
theorem Reads.counted {read : Parse β} (hbound : bound < 2 ^ 32)
    (hwrite : ∀ value, write value ≠ []) (values : List α)
    (h : ∀ value ∈ values, Reads bound read (write value) (f value)) :
    Reads bound (readCounted read) (writeCounted write values) (values.map f) := by
  intro hlength
  have hsize : values.length < 256 ^ 4 := by
    have hle := length_le_flatMap hwrite values
    rw [writeCounted, List.length_append] at hlength
    exact Nat.lt_of_le_of_lt (by omega) (Nat.lt_of_lt_of_eq hbound (by decide))
  have hnumber : Reads bound (readUint 4) (leBytes 4 values.length) values.length := by
    have h : Reads bound (readUint 4) (leBytes 4 values.length) _ := .uint 4 values.length
    rwa [Nat.mod_eq_of_lt hsize] at h
  exact hnumber.bind (.many values h) hlength

/-- A block that is not too long. -/
theorem Reads.block (hlongest : longest < 2 ^ 64) {data : List UInt8}
    (h : (writeBlock data).length ≤ bound → data.length ≤ longest) :
    Reads bound (readBlock longest) (writeBlock data) data := by
  intro hlength
  have hshort := h hlength
  have hsize : data.length < 256 ^ 8 :=
    Nat.lt_of_le_of_lt hshort (Nat.lt_of_lt_of_eq hlongest (by decide))
  have hnumber : Reads bound (readUint 8) (leBytes 8 data.length) data.length := by
    have h : Reads bound (readUint 8) (leBytes 8 data.length) _ := .uint 8 data.length
    rwa [Nat.mod_eq_of_lt hsize] at h
  have hbody : Reads bound (if longest < data.length
      then throw s!"length exceeds limit: {data.length} (max {longest})"
      else takeBytes data.length) data data := by
    rw [if_neg (Nat.not_lt.mpr hshort)]
    exact .take data
  exact hnumber.bind hbody hlength

/-! ## What is refused or read back -/

/-- Bytes of less than that many are refused, or read as that value, whatever follows them. -/
def Recovers (bound : Nat) (read : Parse α) (bytes : List UInt8) (value : α) : Prop :=
  bytes.length < bound → ∀ rest, (∃ e, read (bytes ++ rest) = .error e) ∨
    read (bytes ++ rest) = .ok (value, rest)

theorem Reads.recovers (h : Reads bound read bytes value) : Recovers bound read bytes value :=
  fun hlength rest => Or.inr (h hlength.le rest)

theorem Recovers.bind (h : Recovers bound read bytes value)
    (h' : Recovers bound (next value) bytes' value') :
    Recovers bound (read >>= next) (bytes ++ bytes') value' := by
  intro hlength rest
  rw [List.length_append] at hlength
  rw [List.append_assoc]
  rcases h (by omega) (bytes' ++ rest) with ⟨e, hfail⟩ | hread
  · refine Or.inl ⟨e, ?_⟩
    rw [bind_apply, hfail]
  · rw [bind_apply, hread]
    exact h' (by omega) rest

/-- A block and what follows it. The block is refused when it is too long, so what reads its
bytes may count on their number. -/
theorem Recovers.block {next : List UInt8 → Parse β} (hbound : bound ≤ 2 ^ 64)
    (hlongest : longest < 2 ^ 64) (data : List UInt8)
    (h' : data.length ≤ longest → Recovers bound (next data) bytes' value') :
    Recovers bound (readBlock longest >>= next) (writeBlock data ++ bytes') value' := by
  by_cases hlong : longest < data.length
  · intro hlength rest
    have hsize : data.length < 256 ^ 8 := by
      rw [List.length_append, writeBlock, List.length_append, length_leBytes] at hlength
      exact Nat.lt_of_lt_of_le (by omega) (Nat.le_trans hbound (by decide))
    have hnumber : Reads 8 (readUint 8) (leBytes 8 data.length) data.length := by
      have h : Reads 8 (readUint 8) (leBytes 8 data.length) _ := .uint 8 data.length
      rwa [Nat.mod_eq_of_lt hsize] at h
    refine Or.inl ⟨s!"length exceeds limit: {data.length} (max {longest})", ?_⟩
    rw [readBlock, bind_assoc, writeBlock, List.append_assoc, List.append_assoc, bind_apply,
      hnumber (length_leBytes 8 _).le]
    dsimp only
    rw [if_pos hlong]
    rfl
  · exact (Reads.block hlongest fun _ => Nat.not_lt.mp hlong).recovers.bind
      (h' (Nat.not_lt.mp hlong))

/-- A block with nothing after it. -/
theorem Recovers.blockMap {next : List UInt8 → Parse β} (hbound : bound ≤ 2 ^ 64)
    (hlongest : longest < 2 ^ 64) (data : List UInt8)
    (h' : data.length ≤ longest → Recovers bound (next data) [] value') :
    Recovers bound (readBlock longest >>= next) (writeBlock data) value' := by
  have hblock := Recovers.block hbound hlongest data h'
  rwa [List.append_nil] at hblock

/-! ## What is accepted -/

/-- Whatever the bytes, what a reader accepts has a property. -/
def Yields (read : Parse α) (P : α → Prop) : Prop :=
  ∀ bytes value rest, read bytes = .ok (value, rest) → P value

variable {P : α → Prop}

theorem Yields.pure {value : α} (h : P value) : Yields (pure value) P := by
  rintro bytes _ rest hread
  obtain ⟨rfl, -⟩ := Prod.mk.inj (Except.ok.inj hread)
  exact h

theorem Yields.throw (e : String) : Yields (throw e : Parse α) P := by
  intro bytes value rest hread
  cases hread

theorem Yields.bind {Q : β → Prop} {read : Parse β} {next : β → Parse α} (h : Yields read Q)
    (h' : ∀ value, Q value → Yields (next value) P) : Yields (read >>= next) P := by
  intro bytes value rest hread
  rw [bind_apply] at hread
  cases hfirst : read bytes with
  | error e => rw [hfirst] at hread; cases hread
  | ok out =>
    rw [hfirst] at hread
    exact h' out.1 (h bytes out.1 out.2 hfirst) out.2 value rest hread

/-- Whatever was read before. -/
theorem Yields.after {read : Parse β} {next : β → Parse α} (h : ∀ value, Yields (next value) P) :
    Yields (read >>= next) P :=
  Yields.bind (fun _ _ _ _ => trivial) fun value _ => h value

end Blocks
