import Mathlib

/-!
# Prefix codecs

A codec writes a value as bytes and reads one value off the front of any bytes that start
with it. Codecs for composite values are put together from those of their parts, the
round trip included.
-/

/-- A writer and a reader of values at the front of byte lists. -/
structure Codec (α : Type) : Type where
  /-- the bytes of a value -/
  encode : α → List UInt8
  /-- read one value, and hand on the rest -/
  decode : List UInt8 → Option (α × List UInt8)
  /-- what is written is read back -/
  lossless : ∀ value rest, decode (encode value ++ rest) = some (value, rest)

namespace Codec

variable {α β : Type}

/-- Read a value that is all there is. -/
def decodeAll (c : Codec α) (bytes : List UInt8) : Option α :=
  match c.decode bytes with
  | some (value, []) => some value
  | _ => none

/-- The digits of a number: a `255` stands for 255 more. -/
def natDigits (n : Nat) : List UInt8 := List.replicate (n / 255) 255 ++ [UInt8.ofNat (n % 255)]

/-- Read digits up to the first that is not `255`. -/
def readDigits : List UInt8 → Option (Nat × List UInt8)
  | [] => none
  | digit :: rest =>
    if digit = 255 then (readDigits rest).map fun out => (out.1 + 255, out.2)
    else some (digit.toNat, rest)

theorem readDigits_replicate (count : Nat) {digit : UInt8} (h : digit ≠ 255) (rest : List UInt8) :
    readDigits (List.replicate count 255 ++ digit :: rest) =
      some (digit.toNat + count * 255, rest) := by
  induction count with
  | zero => rw [List.replicate_zero, List.nil_append, readDigits, if_neg h, Nat.zero_mul, Nat.add_zero]
  | succ count ih =>
    rw [List.replicate_succ, List.cons_append, readDigits, if_pos rfl, ih, Option.map_some]
    congr 2
    omega

theorem readDigits_natDigits (n : Nat) (rest : List UInt8) :
    readDigits (natDigits n ++ rest) = some (n, rest) := by
  have hlt : n % 255 < 255 := Nat.mod_lt n (by decide)
  have htoNat : (UInt8.ofNat (n % 255)).toNat = n % 255 :=
    UInt8.toNat_ofNat_of_lt' (Nat.lt_trans hlt (by decide))
  have hne : UInt8.ofNat (n % 255) ≠ 255 := by
    intro heq
    rw [heq] at htoNat
    exact absurd hlt (htoNat ▸ (by decide))
  rw [natDigits, List.append_assoc, List.singleton_append, readDigits_replicate _ hne, htoNat]
  congr 2
  omega

/-- Natural numbers. -/
def nat : Codec Nat where
  encode := natDigits
  decode := readDigits
  lossless := readDigits_natDigits

/-- A pair, one after the other. -/
def pair (c : Codec α) (d : Codec β) : Codec (α × β) where
  encode value := c.encode value.1 ++ d.encode value.2
  decode bytes :=
    match c.decode bytes with
    | none => none
    | some (first, rest) =>
      match d.decode rest with
      | none => none
      | some (second, rest) => some ((first, second), rest)
  lossless value rest := by
    rw [List.append_assoc, c.lossless]
    dsimp only
    rw [d.lossless]

/-- Values seen as others, some of which stand for none. -/
def via (c : Codec α) (out : β → α) (back : α → Option β) (h : ∀ b, back (out b) = some b) :
    Codec β where
  encode value := c.encode (out value)
  decode bytes :=
    match c.decode bytes with
    | none => none
    | some (value, rest) => (back value).map fun b => (b, rest)
  lossless value rest := by
    rw [c.lossless]
    dsimp only
    rw [h, Option.map_some]

/-- Read that many values. -/
def decodeList (c : Codec α) : Nat → List UInt8 → Option (List α × List UInt8)
  | 0, bytes => some ([], bytes)
  | count + 1, bytes =>
    match c.decode bytes with
    | none => none
    | some (value, rest) => (decodeList c count rest).map fun out => (value :: out.1, out.2)

theorem decodeList_flatMap (c : Codec α) (values : List α) (rest : List UInt8) :
    c.decodeList values.length (values.flatMap c.encode ++ rest) = some (values, rest) := by
  induction values with
  | nil => rfl
  | cons value values ih =>
    rw [List.flatMap_cons, List.append_assoc, List.length_cons, decodeList, c.lossless]
    dsimp only
    rw [ih, Option.map_some]

/-- A list, its length first. -/
def list (c : Codec α) : Codec (List α) where
  encode values := nat.encode values.length ++ values.flatMap c.encode
  decode bytes :=
    match nat.decode bytes with
    | none => none
    | some (count, rest) => c.decodeList count rest
  lossless values rest := by
    rw [List.append_assoc, nat.lossless]
    exact c.decodeList_flatMap values rest

/-- Integers, their sign first. -/
def int : Codec Int :=
  (nat.pair nat).via (fun n => (if n < 0 then 1 else 0, n.natAbs))
    (fun item => some (if item.1 = 1 then -(item.2 : Int) else item.2)) <| by
      intro n
      congr 1
      dsimp only
      by_cases hn : n < 0
      · rw [if_pos hn, if_pos rfl]
        omega
      · rw [if_neg hn, if_neg (by decide)]
        omega

/-- Strings, by their characters. -/
def string : Codec String :=
  nat.list.via (fun s => s.toList.map Char.toNat)
    (fun codes => some (String.ofList (codes.map Char.ofNat))) <| by
      intro s
      rw [List.map_map]
      have hid : (Char.ofNat ∘ Char.toNat) = id := funext fun c => Char.ofNat_toNat c
      rw [hid, List.map_id, String.ofList_toList]

end Codec
