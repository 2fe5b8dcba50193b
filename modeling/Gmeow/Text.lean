import Mathlib

/-!
# Text and ordering helpers of the Go runtime

The few standard-library functions the store leans on everywhere:
`strings.TrimSpace`, `firstNonEmpty` (which returns the *trimmed* value),
`sort.SliceStable`, and the byte view of a string. `trimSpace` follows
`unicode.IsSpace`, not only the ASCII blanks.
-/

namespace Gmeow

/-- Raw content: what a reader yields and a pack file holds. -/
abbrev Bytes : Type := List UInt8

/-- The bytes of a string literal or identifier. -/
def utf8 (s : String) : Bytes := s.toUTF8.data.toList

/-- `strings.HasPrefix`. -/
def hasPrefix (s start : String) : Bool := start.toList.isPrefixOf s.toList

/-- `strings.HasSuffix`. -/
def hasSuffix (s ending : String) : Bool := ending.toList.isSuffixOf s.toList

theorem empty_le (text : String) : "" ≤ text := by
  rw [← not_lt, String.lt_iff_toList_lt]
  exact List.not_lt_nil _

/-- What stands before the first separator, and after it. -/
theorem append_separator_inj {α : Type*} {c : α} {a b a' b' : List α} (ha : c ∉ a) (ha' : c ∉ a')
    (h : a ++ c :: b = a' ++ c :: b') : a = a' ∧ b = b' := by
  induction a generalizing a' with
  | nil =>
    cases a' with
    | nil => exact ⟨rfl, (List.cons.inj h).2⟩
    | cons x a' => exact absurd (List.mem_cons.mpr (Or.inl (List.cons.inj h).1)) ha'
  | cons x a ih =>
    cases a' with
    | nil => exact absurd (List.mem_cons.mpr (Or.inl (List.cons.inj h).1.symm)) ha
    | cons y a' =>
      obtain ⟨rfl, hrest⟩ := List.cons.inj h
      obtain ⟨rfl, rfl⟩ := ih (fun hmem => ha (List.mem_cons_of_mem _ hmem))
        (fun hmem => ha' (List.mem_cons_of_mem _ hmem)) hrest
      exact ⟨rfl, rfl⟩

/-- `unicode.IsSpace`: the White_Space property. -/
def isSpace (c : Char) : Bool :=
  let n := c.toNat
  (9 ≤ n && n ≤ 13) || n == 32 || n == 0x85 || n == 0xA0 || n == 0x1680 ||
    (0x2000 ≤ n && n ≤ 0x200A) || n == 0x2028 || n == 0x2029 || n == 0x202F ||
    n == 0x205F || n == 0x3000

/-- `strings.TrimSpace`. -/
def trimSpace (s : String) : String :=
  String.ofList ((s.toList.dropWhile isSpace).reverse.dropWhile isSpace).reverse

/-- `strings.TrimSpace(s) == ""`. -/
def blank (s : String) : Bool := trimSpace s == ""

/-- The first value that is not blank, trimmed; `""` when all are. -/
def firstNonEmpty : List String → String
  | [] => ""
  | value :: rest => if blank value then firstNonEmpty rest else trimSpace value

/-- `sort.SliceStable` with the given `less`. -/
def sliceStable {α : Type} (less : α → α → Bool) (l : List α) : List α :=
  l.insertionSort fun a b => less b a = false

@[simp] theorem mem_sliceStable {α : Type} {less : α → α → Bool} {l : List α} {x : α} :
    x ∈ sliceStable less l ↔ x ∈ l :=
  List.mem_insertionSort _

/-- Lexicographic comparison of two keys, the shape of every `less` below: the
first field that differs decides. -/
def lessBy (pairs : List (String × String)) : Bool :=
  match pairs with
  | [] => false
  | (a, b) :: rest => if a = b then lessBy rest else decide (a < b)

end Gmeow
