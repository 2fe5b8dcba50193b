import Gmeow.Runes

/-!
# NUL escapes in JSON

PostgreSQL takes no U+0000, so `stripPostgresNULJSONEscapes` cuts the escapes of it out of encoded
JSON. It looks at the text alone: an escape counts if the number of backslashes before it is even.

* `StrToken`, `Json` — strings as tokens, and the texts made of them;
* `Json.value` — what a text decodes to, where two surrogate escapes in a row are one rune;
* `stripPostgresNULJSONEscapes` — the loop;
* `scans_render` — it takes out the tokens that are NUL and leaves the others;
* `strip_exact_iff` — what is left decodes to the value without U+0000 exactly if no NUL stands
  between the two halves of a surrogate pair.

Members of objects stay in the order of the text. White space between tokens, which `json.Marshal`
does not write, is left out.
-/

namespace Gmeow.NulEscapes

/-! ## Strings -/

/-- A character that is a hexadecimal digit. -/
def isHex (c : Char) : Bool :=
  ('0' ≤ c && c ≤ '9') || ('a' ≤ c && c ≤ 'f') || ('A' ≤ c && c ≤ 'F')

/-- A hexadecimal digit. -/
structure HexDigit : Type where
  char : Char
  valid : isHex char = true

/-- The value of a digit. -/
def HexDigit.value (d : HexDigit) : Nat :=
  if d.char ≤ '9' then d.char.toNat - '0'.toNat
  else if d.char ≤ 'F' then d.char.toNat - 'A'.toNat + 10
  else d.char.toNat - 'a'.toNat + 10

/-- The escapes of one letter. -/
inductive ShortEscape : Type
  | quote | backslash | slash | backspace | formFeed | newline | carriageReturn | tab
deriving DecidableEq

/-- The letter of an escape. -/
def ShortEscape.letter : ShortEscape → Char
  | .quote => '"'
  | .backslash => '\\'
  | .slash => '/'
  | .backspace => 'b'
  | .formFeed => 'f'
  | .newline => 'n'
  | .carriageReturn => 'r'
  | .tab => 't'

/-- The rune that it stands for. -/
def ShortEscape.rune : ShortEscape → Nat
  | .quote => 0x22
  | .backslash => 0x5C
  | .slash => 0x2F
  | .backspace => 0x08
  | .formFeed => 0x0C
  | .newline => 0x0A
  | .carriageReturn => 0x0D
  | .tab => 0x09

/-- A part of a string that is written on its own. -/
inductive StrToken : Type
  | raw (c : Char) (valid : c ≠ '"' ∧ c ≠ '\\' ∧ ' ' ≤ c)
  | short (e : ShortEscape)
  | escape (a b c d : HexDigit)

/-- How a token is written. -/
def StrToken.render : StrToken → Runes
  | .raw c _ => [c]
  | .short e => ['\\', e.letter]
  | .escape a b c d => ['\\', 'u', a.char, b.char, c.char, d.char]

/-- The escape of U+0000. -/
def StrToken.isNul : StrToken → Bool
  | .escape a b c d => [a.char, b.char, c.char, d.char] == ['0', '0', '0', '0']
  | _ => false

/-- A rune, or one half of a surrogate pair. -/
inductive CodeUnit : Type
  | rune (n : Nat)
  | high (n : Nat)
  | low (n : Nat)
deriving DecidableEq

/-- What a token stands for. -/
def StrToken.unit : StrToken → CodeUnit
  | .raw c _ => .rune c.toNat
  | .short e => .rune e.rune
  | .escape a b c d =>
    let n := ((a.value * 16 + b.value) * 16 + c.value) * 16 + d.value
    if 0xD800 ≤ n ∧ n < 0xDC00 then .high n
    else if 0xDC00 ≤ n ∧ n < 0xE000 then .low n
    else .rune n

/-- The runes of a string; half a pair is the replacement character. -/
def decodeUnits : List CodeUnit → List Nat
  | [] => []
  | .high a :: .low b :: rest =>
    (0x10000 + (a - 0xD800) * 0x400 + (b - 0xDC00)) :: decodeUnits rest
  | .rune n :: rest => n :: decodeUnits rest
  | .high _ :: rest => 0xFFFD :: decodeUnits rest
  | .low _ :: rest => 0xFFFD :: decodeUnits rest

/-- The runes of tokens. -/
def decodeTokens (tokens : List StrToken) : List Nat := decodeUnits (tokens.map StrToken.unit)

/-- The tokens without those of U+0000. -/
def stripTokens (tokens : List StrToken) : List StrToken := tokens.filter fun token => !token.isNul

/-- A string without U+0000. -/
def stripRunes (runes : List Nat) : List Nat := runes.filter (· ≠ 0)

/-- One or more NULs stand between the halves of a pair. -/
def Splits (tokens : List StrToken) : Prop :=
  ∃ before hi nuls lo behind, tokens = before ++ hi :: (nuls ++ lo :: behind) ∧ nuls ≠ [] ∧
    (∀ nul ∈ nuls, nul.isNul = true) ∧ (∃ n, hi.unit = .high n) ∧ ∃ n, lo.unit = .low n

/-! ## Texts -/

/-- The letters, digits and signs of atoms. -/
def atomChar (c : Char) : Bool := c.isAlphanum || c == '-' || c == '+' || c == '.'

/-- `null`, `true`, `false` and numbers, by their text. -/
structure Atom : Type where
  text : Runes
  nonempty : text ≠ []
  valid : text.all atomChar = true

/-- The JSON that is written. -/
inductive Json : Type
  | atom (a : Atom)
  | string (tokens : List StrToken)
  | array (items : List Json)
  | object (members : List (List StrToken × Json))

/-- The JSON that is meant. -/
inductive Value : Type
  | atom (text : Runes)
  | string (runes : List Nat)
  | array (items : List Value)
  | object (members : List (List Nat × Value))

/-- A string with its quotes. -/
def renderString (tokens : List StrToken) : Runes :=
  '"' :: (tokens.flatMap StrToken.render ++ ['"'])

mutual

/-- The text. -/
def Json.render : Json → Runes
  | .atom a => a.text
  | .string tokens => renderString tokens
  | .array [] => ['[', ']']
  | .array (item :: items) => '[' :: (item.render ++ (renderItems items ++ [']']))
  | .object [] => ['\x7b', '\x7d']
  | .object ((key, item) :: members) =>
    '\x7b' :: (renderString key ++ ':' :: (item.render ++ (renderMembers members ++ ['\x7d'])))

/-- The items behind the first one. -/
def renderItems : List Json → Runes
  | [] => []
  | item :: items => ',' :: (item.render ++ renderItems items)

/-- The members behind the first one. -/
def renderMembers : List (List StrToken × Json) → Runes
  | [] => []
  | (key, item) :: members =>
    ',' :: (renderString key ++ ':' :: (item.render ++ renderMembers members))

end

mutual

/-- What is decoded. -/
def Json.value : Json → Value
  | .atom a => .atom a.text
  | .string tokens => .string (decodeTokens tokens)
  | .array items => .array (valueItems items)
  | .object members => .object (valueMembers members)

@[inherit_doc Json.value] def valueItems : List Json → List Value
  | [] => []
  | item :: items => item.value :: valueItems items

@[inherit_doc Json.value] def valueMembers : List (List StrToken × Json) → List (List Nat × Value)
  | [] => []
  | (key, item) :: members => (decodeTokens key, item.value) :: valueMembers members

end

mutual

/-- Without U+0000 in strings and keys. -/
def Value.strip : Value → Value
  | .atom text => .atom text
  | .string runes => .string (stripRunes runes)
  | .array items => .array (stripItems items)
  | .object members => .object (stripMembers members)

@[inherit_doc Value.strip] def stripItems : List Value → List Value
  | [] => []
  | item :: items => item.strip :: stripItems items

@[inherit_doc Value.strip] def stripMembers : List (List Nat × Value) → List (List Nat × Value)
  | [] => []
  | (key, item) :: members => (stripRunes key, item.strip) :: stripMembers members

end

mutual

/-- The strings and keys, in their order. -/
def Json.strings : Json → List (List StrToken)
  | .atom _ => []
  | .string tokens => [tokens]
  | .array items => stringsItems items
  | .object members => stringsMembers members

@[inherit_doc Json.strings] def stringsItems : List Json → List (List StrToken)
  | [] => []
  | item :: items => item.strings ++ stringsItems items

@[inherit_doc Json.strings] def stringsMembers :
    List (List StrToken × Json) → List (List StrToken)
  | [] => []
  | (key, item) :: members => key :: (item.strings ++ stringsMembers members)

end

mutual

/-- The JSON without the tokens of U+0000. -/
def Json.dropNuls : Json → Json
  | .atom a => .atom a
  | .string tokens => .string (stripTokens tokens)
  | .array items => .array (dropNulsItems items)
  | .object members => .object (dropNulsMembers members)

@[inherit_doc Json.dropNuls] def dropNulsItems : List Json → List Json
  | [] => []
  | item :: items => item.dropNuls :: dropNulsItems items

@[inherit_doc Json.dropNuls] def dropNulsMembers :
    List (List StrToken × Json) → List (List StrToken × Json)
  | [] => []
  | (key, item) :: members => (stripTokens key, item.dropNuls) :: dropNulsMembers members

end

/-! ## The loop -/

/-- The escape of U+0000, as text. -/
def nulEscape : Runes := ['\\', 'u', '0', '0', '0', '0']

/-- `isPostgresNULJSONEscape`; `before` is what stands before the offset, turned round. -/
def isPostgresNULJSONEscape (before text : Runes) : Bool :=
  nulEscape.isPrefixOf text && (before.takeWhile (· == '\\')).length % 2 == 0

/-- The loop of `stripPostgresNULJSONEscapes`; `skip` runes are still to be left out. -/
def stripLoop : Runes → Nat → Runes → Runes
  | _, _, [] => []
  | before, skip + 1, c :: rest => stripLoop (c :: before) skip rest
  | before, 0, c :: rest =>
    if isPostgresNULJSONEscape before (c :: rest) then
      stripLoop (c :: before) (nulEscape.length - 1) rest
    else c :: stripLoop (c :: before) 0 rest

/-- `stripPostgresNULJSONEscapes`. -/
def stripPostgresNULJSONEscapes (encoded : Runes) : Runes :=
  if decide (nulEscape <:+: encoded) then stripLoop [] 0 encoded else encoded

/-- **What is left is JSON without NUL escapes, and decodes to the value without U+0000.** -/
def StripsExactly (json : Json) : Prop :=
  ∃ out : Json, stripPostgresNULJSONEscapes json.render = out.render ∧
    (∀ tokens ∈ out.strings, ∀ token ∈ tokens, token.isNul = false) ∧
    out.value = json.value.strip

/-! ## Surrogates -/

/-- The unit of U+0000. -/
def CodeUnit.isNul (unit : CodeUnit) : Bool := unit == .rune 0

/-- The same as `Splits`, of units. -/
def SplitsUnits (units : List CodeUnit) : Prop :=
  ∃ before a nuls b behind, units = before ++ .high a :: (nuls ++ .low b :: behind) ∧ nuls ≠ [] ∧
    ∀ nul ∈ nuls, nul.isNul = true

variable {unit : CodeUnit} {units : List CodeUnit} {text : Runes}

theorem splitsUnits_cons :
    SplitsUnits (unit :: units) ↔ SplitsUnits units ∨ ∃ a nuls b behind, unit = .high a ∧
      units = nuls ++ .low b :: behind ∧ nuls ≠ [] ∧ ∀ nul ∈ nuls, nul.isNul = true := by
  constructor
  · rintro ⟨before, a, nuls, b, behind, heq, hne, hnuls⟩
    cases before with
    | nil =>
      obtain ⟨rfl, hrest⟩ := List.cons.inj heq
      exact .inr ⟨a, nuls, b, behind, rfl, hrest, hne, hnuls⟩
    | cons first before =>
      obtain ⟨rfl, hrest⟩ := List.cons.inj heq
      exact .inl ⟨before, a, nuls, b, behind, hrest, hne, hnuls⟩
  · rintro (⟨before, a, nuls, b, behind, rfl, hne, hnuls⟩ |
      ⟨a, nuls, b, behind, rfl, rfl, hne, hnuls⟩)
    · exact ⟨unit :: before, a, nuls, b, behind, rfl, hne, hnuls⟩
    · exact ⟨[], a, nuls, b, behind, rfl, hne, hnuls⟩

variable {rest : List CodeUnit} {c : Char} {rest' : Runes}

/-- The first unit that is not NUL, if it is the second half of a pair. -/
theorem filter_eq_low {b : Nat} :
    (units.filter fun unit => !unit.isNul) = .low b :: rest →
      ∃ nuls behind, units = nuls ++ .low b :: behind ∧ ∀ nul ∈ nuls, nul.isNul = true := by
  induction units with
  | nil => exact nofun
  | cons unit units ih =>
    intro h
    cases hnul : unit.isNul with
    | true =>
      rw [List.filter_cons_of_neg (by simp [hnul])] at h
      obtain ⟨nuls, behind, rfl, hnuls⟩ := ih h
      exact ⟨unit :: nuls, behind, rfl, List.forall_mem_cons.mpr ⟨hnul, hnuls⟩⟩
    | false =>
      rw [List.filter_cons_of_pos (by simp [hnul])] at h
      obtain ⟨rfl, -⟩ := List.cons.inj h
      exact ⟨[], units, rfl, List.forall_mem_nil _⟩

theorem filter_nuls_append {nuls : List CodeUnit} (h : ∀ nul ∈ nuls, nul.isNul = true) :
    ((nuls ++ rest).filter fun unit => !unit.isNul) = rest.filter fun unit => !unit.isNul := by
  rw [List.filter_append, List.filter_eq_nil_iff.mpr fun nul hnul => by simp [h nul hnul],
    List.nil_append]

/-- The same runes, or fewer of them because halves of pairs have met. -/
def Meets (splits : Prop) (stripped expected : List Nat) : Prop :=
  (¬ splits ∧ stripped = expected) ∨ (splits ∧ stripped.length < expected.length)

theorem Meets.cons {splits splits' : Prop} {stripped expected : List Nat}
    (h : Meets splits stripped expected) (hsplits : splits' ↔ splits) (n : Nat) :
    Meets splits' (n :: stripped) (n :: expected) := by
  rcases h with ⟨hno, heq⟩ | ⟨hyes, hlt⟩
  · exact .inl ⟨hsplits.not.mpr hno, by rw [heq]⟩
  · exact .inr ⟨hsplits.mpr hyes, Nat.succ_lt_succ hlt⟩

theorem Meets.length_le {splits : Prop} {stripped expected : List Nat}
    (h : Meets splits stripped expected) : stripped.length ≤ expected.length := by
  rcases h with ⟨-, heq⟩ | ⟨-, hlt⟩
  · rw [heq]
  · exact Nat.le_of_lt hlt

theorem splitsUnits_high_low {a b : Nat} :
    SplitsUnits (.high a :: .low b :: rest) ↔ SplitsUnits rest := by
  rw [splitsUnits_cons, splitsUnits_cons]
  constructor
  · rintro ((h | ⟨a', -, -, -, h, -⟩) | ⟨a', nuls, b', behind, -, heq, hne, hnuls⟩)
    · exact h
    · cases h
    · cases nuls with
      | nil => exact absurd rfl hne
      | cons nul nuls =>
        obtain ⟨rfl, -⟩ := List.cons.inj heq
        cases hnuls _ List.mem_cons_self
  · exact fun h => .inl (.inl h)

theorem splitsUnits_cons_of_ne (h : ∀ a, unit ≠ .high a) :
    SplitsUnits (unit :: rest) ↔ SplitsUnits rest := by
  rw [splitsUnits_cons]
  exact or_iff_left fun ⟨a, _, _, _, heq, _⟩ => h a heq

/-- The first half of a pair that is not followed by the second. It meets one when the NULs between
them are gone, or stands alone as before. -/
theorem Meets.high (hnot : ∀ b behind, rest ≠ .low b :: behind)
    (ih : Meets (SplitsUnits rest) (decodeUnits (rest.filter fun unit => !unit.isNul))
      (stripRunes (decodeUnits rest))) (a : Nat) :
    Meets (SplitsUnits (.high a :: rest))
      (decodeUnits (.high a :: rest.filter fun unit => !unit.isNul))
      (0xFFFD :: stripRunes (decodeUnits rest)) := by
  by_cases hlow : ∃ b more, (rest.filter fun unit => !unit.isNul) = .low b :: more
  · obtain ⟨b, more, hlow⟩ := hlow
    obtain ⟨nuls, behind, heq, hnuls⟩ := filter_eq_low hlow
    have hne : nuls ≠ [] := by
      rintro rfl
      exact hnot b behind heq
    refine .inr ⟨splitsUnits_cons.mpr (.inr ⟨a, nuls, b, behind, rfl, heq, hne, hnuls⟩), ?_⟩
    have hle := ih.length_le
    rw [hlow, decodeUnits] at hle
    rw [hlow, decodeUnits]
    exact Nat.succ_lt_succ hle
  · have hsplits : SplitsUnits (.high a :: rest) ↔ SplitsUnits rest := by
      rw [splitsUnits_cons]
      refine or_iff_left ?_
      rintro ⟨a', nuls, b, behind, -, rfl, -, hnuls⟩
      refine hlow ⟨b, behind.filter fun unit => !unit.isNul, ?_⟩
      rw [filter_nuls_append hnuls]
      rfl
    have hcons : decodeUnits (.high a :: rest.filter fun unit => !unit.isNul) =
        0xFFFD :: decodeUnits (rest.filter fun unit => !unit.isNul) := by
      rw [decodeUnits]
      exact fun b more h => hlow ⟨b, more, h⟩
    rw [hcons]
    exact ih.cons hsplits _

/-- **Without NULs the same runes are decoded, or fewer of them because halves of pairs have
met.** -/
theorem decode_filter (units : List CodeUnit) : Meets (SplitsUnits units)
    (decodeUnits (units.filter fun unit => !unit.isNul)) (stripRunes (decodeUnits units)) := by
  have hreplacement : ∀ rest, stripRunes (0xFFFD :: rest) = 0xFFFD :: stripRunes rest :=
    fun _ => rfl
  induction units using decodeUnits.induct with
  | case1 => exact .inl ⟨by rintro ⟨before, a, nuls, b, behind, h, -⟩; simp at h, rfl⟩
  | case2 a b rest ih =>
    have hfilter : ((.high a :: .low b :: rest : List CodeUnit).filter fun unit => !unit.isNul) =
        .high a :: .low b :: rest.filter fun unit => !unit.isNul := rfl
    rw [hfilter, decodeUnits, decodeUnits, stripRunes, List.filter_cons_of_pos (by simp)]
    exact ih.cons splitsUnits_high_low _
  | case3 n rest ih =>
    have hsplits : SplitsUnits (.rune n :: rest) ↔ SplitsUnits rest := splitsUnits_cons_of_ne nofun
    rw [decodeUnits, stripRunes]
    rcases Nat.eq_zero_or_pos n with rfl | hpos
    · rw [List.filter_cons_of_neg (by decide), List.filter_cons_of_neg (by decide), hsplits]
      exact ih
    · rw [List.filter_cons_of_pos (by simp [CodeUnit.isNul]; omega),
        List.filter_cons_of_pos (by simp; omega), decodeUnits]
      exact ih.cons hsplits n
  | case4 a rest hnot ih =>
    have hfilter : ((.high a :: rest : List CodeUnit).filter fun unit => !unit.isNul) =
        .high a :: rest.filter fun unit => !unit.isNul := rfl
    have hdecode : decodeUnits (.high a :: rest) = 0xFFFD :: decodeUnits rest := by
      rw [decodeUnits]
      exact hnot
    rw [hdecode, hfilter, hreplacement]
    exact Meets.high hnot ih a
  | case5 b rest ih =>
    have hfilter : ((.low b :: rest : List CodeUnit).filter fun unit => !unit.isNul) =
        .low b :: rest.filter fun unit => !unit.isNul := rfl
    have hsplits : SplitsUnits (.low b :: rest) ↔ SplitsUnits rest := splitsUnits_cons_of_ne nofun
    rw [hfilter, decodeUnits, decodeUnits, hreplacement]
    exact ih.cons hsplits _

/-! ## Tokens -/

theorem HexDigit.value_eq_zero (d : HexDigit) : d.value = 0 ↔ d.char = '0' := by
  obtain ⟨c, hvalid⟩ := d
  constructor
  · intro h
    simp only [isHex, Bool.or_eq_true, Bool.and_eq_true, decide_eq_true_eq, Char.le_def,
      UInt32.le_iff_toNat_le] at hvalid
    simp only [HexDigit.value, Char.le_def, UInt32.le_iff_toNat_le] at h
    refine Char.toNat_inj.mp ?_
    simp only [Char.toNat] at *
    grind
  · rintro rfl
    rfl

/-- The escape of U+0000 is the only token that stands for it. -/
theorem StrToken.isNul_unit (token : StrToken) : token.unit.isNul = token.isNul := by
  cases token with
  | raw c valid =>
    have hpos : 32 ≤ c.toNat := valid.2.2
    simp only [StrToken.unit, CodeUnit.isNul, StrToken.isNul, beq_eq_false_iff_ne, ne_eq,
      CodeUnit.rune.injEq]
    omega
  | short e => cases e <;> rfl
  | escape a b c d =>
    rw [Bool.eq_iff_iff]
    simp only [StrToken.isNul, beq_iff_eq, List.cons.injEq, and_true, ← HexDigit.value_eq_zero]
    simp only [StrToken.unit, CodeUnit.isNul]
    split
    · simp
      omega
    · split
      · simp
        omega
      · simp
        omega

theorem unit_stripTokens (tokens : List StrToken) : (stripTokens tokens).map StrToken.unit =
    (tokens.map StrToken.unit).filter fun unit => !unit.isNul := by
  rw [List.filter_map, stripTokens]
  congr 1
  refine List.filter_congr fun token _ => ?_
  rw [Function.comp_apply, StrToken.isNul_unit]

/-- Whether NULs stand between the halves of a pair can be told from the code units. -/
theorem splits_iff (tokens : List StrToken) :
    SplitsUnits (tokens.map StrToken.unit) ↔ Splits tokens := by
  constructor
  · rintro ⟨before, a, nuls, b, behind, heq, hne, hnuls⟩
    obtain ⟨first, rest, rfl, rfl, hrest⟩ := List.map_eq_append_iff.mp heq
    obtain ⟨hi, rest, rfl, hhi, hmid⟩ := List.map_eq_cons_iff.mp hrest
    obtain ⟨mid, rest, rfl, rfl, hlast⟩ := List.map_eq_append_iff.mp hmid
    obtain ⟨lo, rest, rfl, hlo, -⟩ := List.map_eq_cons_iff.mp hlast
    refine ⟨first, hi, mid, lo, rest, rfl, by simpa using hne, fun nul hnul => ?_, ⟨a, hhi⟩, b, hlo⟩
    rw [← StrToken.isNul_unit]
    exact hnuls _ (List.mem_map_of_mem hnul)
  · rintro ⟨before, hi, nuls, lo, behind, rfl, hne, hnuls, ⟨a, hhi⟩, b, hlo⟩
    refine ⟨before.map StrToken.unit, a, nuls.map StrToken.unit, b, behind.map StrToken.unit, ?_,
      by simpa using hne, ?_⟩
    · simp [hhi, hlo]
    · intro nul hnul
      obtain ⟨token, htoken, rfl⟩ := List.mem_map.mp hnul
      rw [StrToken.isNul_unit]
      exact hnuls token htoken

/-- **A string without its NULs decodes to what it should exactly if no pair is split.** -/
theorem decode_stripTokens (tokens : List StrToken) :
    decodeTokens (stripTokens tokens) = stripRunes (decodeTokens tokens) ↔ ¬ Splits tokens := by
  have hmeets := decode_filter (tokens.map StrToken.unit)
  rw [← unit_stripTokens, splits_iff] at hmeets
  rcases hmeets with ⟨hno, heq⟩ | ⟨hyes, hlt⟩
  · exact iff_of_true heq hno
  · refine iff_of_false (fun heq => ?_) (not_not_intro hyes)
    rw [decodeTokens] at heq
    rw [heq] at hlt
    exact absurd hlt (Nat.lt_irrefl _)

/-! ## What the loop does -/

/-- The number of backslashes at the end is even. -/
def EvenEnd (before : Runes) : Prop := (before.takeWhile (· == '\\')).length % 2 = 0

/-- Behind an even number of backslashes the loop turns a text into another one, whatever follows,
and the number is even again. -/
def Scans (text out : Runes) : Prop :=
  ∀ before, EvenEnd before → ∀ rest, ∃ before', EvenEnd before' ∧
    stripLoop before 0 (text ++ rest) = out ++ stripLoop before' 0 rest

theorem scans_nil : Scans [] [] := fun before heven _ => ⟨before, heven, rfl⟩

theorem Scans.append {a a' b b' : Runes} (h : Scans a a') (h' : Scans b b') :
    Scans (a ++ b) (a' ++ b') := by
  intro before heven rest
  obtain ⟨mid, hmid, hfirst⟩ := h before heven (b ++ rest)
  obtain ⟨last, hlast, hsecond⟩ := h' mid hmid rest
  exact ⟨last, hlast, by rw [List.append_assoc, hfirst, hsecond, List.append_assoc]⟩

theorem evenEnd_cons (hc : c ≠ '\\') (before : Runes) : EvenEnd (c :: before) := by
  rw [EvenEnd, List.takeWhile_cons_of_neg (by simpa using hc)]
  rfl

theorem stripLoop_cons {before : Runes} {rest : Runes}
    (h : isPostgresNULJSONEscape before (c :: rest) = false) :
    stripLoop before 0 (c :: rest) = c :: stripLoop (c :: before) 0 rest := by
  rw [stripLoop, h]
  rfl

/-- Only a backslash can begin an escape. -/
theorem stripLoop_plain (hc : c ≠ '\\') (before rest : Runes) :
    stripLoop before 0 (c :: rest) = c :: stripLoop (c :: before) 0 rest := by
  refine stripLoop_cons ?_
  have hprefix : nulEscape.isPrefixOf (c :: rest) = false := by
    simp [nulEscape, List.isPrefixOf, hc.symm]
  rw [isPostgresNULJSONEscape, hprefix, Bool.false_and]

theorem scans_plain (hc : c ≠ '\\') : Scans [c] [c] :=
  fun before _ rest => ⟨c :: before, evenEnd_cons hc before, stripLoop_plain hc before rest⟩

theorem scans_text (h : ∀ c ∈ text, c ≠ '\\') : Scans text text := by
  induction text with
  | nil => exact scans_nil
  | cons c text ih =>
    obtain ⟨hc, htext⟩ := List.forall_mem_cons.mp h
    exact (scans_plain hc).append (ih htext)

theorem HexDigit.char_ne (d : HexDigit) : d.char ≠ '\\' := by
  intro h
  have hvalid := d.valid
  rw [h] at hvalid
  cases hvalid

/-- A backslash and a letter. The letter may be a backslash, and then an odd number stands before
it. -/
theorem scans_short (e : ShortEscape) : Scans ['\\', e.letter] ['\\', e.letter] := by
  intro before heven rest
  have hfirst : isPostgresNULJSONEscape before ('\\' :: e.letter :: rest) = false := by
    cases e <;> simp [isPostgresNULJSONEscape, nulEscape, List.isPrefixOf, ShortEscape.letter]
  by_cases hletter : e.letter = '\\'
  · have hodd : isPostgresNULJSONEscape ('\\' :: before) ('\\' :: rest) = false := by
      rw [isPostgresNULJSONEscape, List.takeWhile_cons_of_pos (by decide), List.length_cons,
        Nat.add_mod, heven]
      simp
    rw [hletter] at hfirst ⊢
    refine ⟨'\\' :: '\\' :: before, ?_, ?_⟩
    · rw [EvenEnd, List.takeWhile_cons_of_pos (by decide), List.takeWhile_cons_of_pos (by decide),
        List.length_cons, List.length_cons, Nat.add_assoc, Nat.add_mod_right]
      exact heven
    · rw [List.cons_append, List.cons_append, List.nil_append, stripLoop_cons hfirst,
        stripLoop_cons hodd]
      rfl
  · refine ⟨e.letter :: '\\' :: before, evenEnd_cons hletter _, ?_⟩
    rw [List.cons_append, List.cons_append, List.nil_append, stripLoop_cons hfirst,
      stripLoop_plain hletter]
    rfl

/-- An escape by number is left out if it is that of U+0000. -/
theorem scans_escape (a b c d : HexDigit) : Scans (StrToken.escape a b c d).render
    (if (StrToken.escape a b c d).isNul then [] else (StrToken.escape a b c d).render) := by
  intro before heven rest
  cases hnul : (StrToken.escape a b c d).isNul with
  | true =>
    have hdigits : [a.char, b.char, c.char, d.char] = ['0', '0', '0', '0'] := by
      simpa [StrToken.isNul] using hnul
    simp only [List.cons.injEq, and_true] at hdigits
    obtain ⟨ha, hb, hc, hd⟩ := hdigits
    have hescape : isPostgresNULJSONEscape before ('\\' :: (['u', '0', '0', '0', '0'] ++ rest)) =
        true := by
      rw [EvenEnd] at heven
      simp [isPostgresNULJSONEscape, nulEscape, List.isPrefixOf, heven]
    refine ⟨nulEscape.reverse ++ before, evenEnd_cons (by decide) _, ?_⟩
    rw [StrToken.render, ha, hb, hc, hd]
    change stripLoop before 0 ('\\' :: (['u', '0', '0', '0', '0'] ++ rest)) = _
    rw [stripLoop, if_pos hescape]
    rfl
  | false =>
    have hfirst : isPostgresNULJSONEscape before
        ('\\' :: 'u' :: a.char :: b.char :: c.char :: d.char :: rest) = false := by
      simp only [StrToken.isNul, beq_eq_false_iff_ne, ne_eq, List.cons.injEq, and_true] at hnul
      simp [isPostgresNULJSONEscape, nulEscape, List.isPrefixOf]
      grind
    refine ⟨d.char :: c.char :: b.char :: a.char :: 'u' :: '\\' :: before,
      evenEnd_cons d.char_ne _, ?_⟩
    change stripLoop before 0 ('\\' :: 'u' :: a.char :: b.char :: c.char :: d.char :: rest) = _
    rw [stripLoop_cons hfirst, stripLoop_plain (by decide), stripLoop_plain a.char_ne,
      stripLoop_plain b.char_ne, stripLoop_plain c.char_ne, stripLoop_plain d.char_ne]
    rfl

theorem scans_token (token : StrToken) :
    Scans token.render (if token.isNul then [] else token.render) := by
  cases token with
  | raw c valid => exact scans_plain valid.2.1
  | short e => exact scans_short e
  | escape a b c d => exact scans_escape a b c d

/-- The scanner drops the NULs of a string and no other token. -/
theorem scans_string (tokens : List StrToken) :
    Scans (renderString tokens) (renderString (stripTokens tokens)) := by
  have htokens : Scans (tokens.flatMap StrToken.render)
      ((stripTokens tokens).flatMap StrToken.render) := by
    induction tokens with
    | nil => exact scans_nil
    | cons token tokens ih =>
      rw [List.flatMap_cons]
      have hboth := (scans_token token).append ih
      cases hnul : token.isNul with
      | true =>
        rw [hnul, if_pos rfl, List.nil_append] at hboth
        rw [stripTokens, List.filter_cons_of_neg (by simp [hnul])]
        exact hboth
      | false =>
        rw [hnul, if_neg (by decide)] at hboth
        rw [stripTokens, List.filter_cons_of_pos (by simp [hnul]), List.flatMap_cons]
        exact hboth
  have hquote := scans_plain (c := '"') (by decide)
  exact hquote.append (htokens.append hquote)

theorem Atom.char_ne (a : Atom) : ∀ c ∈ a.text, c ≠ '\\' := by
  rintro c hc rfl
  have hvalid := List.all_eq_true.mp a.valid _ hc
  revert hvalid
  decide

mutual

/-- **The loop takes out the tokens that are NUL and nothing else.** -/
theorem scans_render : ∀ json : Json, Scans json.render json.dropNuls.render
  | .atom a => scans_text a.char_ne
  | .string tokens => scans_string tokens
  | .array [] => scans_text (by decide)
  | .array (item :: items) =>
    (scans_plain (c := '[') (by decide)).append ((scans_render item).append
      ((scans_items items).append (scans_plain (c := ']') (by decide))))
  | .object [] => scans_text (by decide)
  | .object ((key, item) :: members) =>
    (scans_plain (c := '\x7b') (by decide)).append ((scans_string key).append
      ((scans_plain (c := ':') (by decide)).append ((scans_render item).append
        ((scans_members members).append (scans_plain (c := '\x7d') (by decide))))))

theorem scans_items : ∀ items : List Json,
    Scans (renderItems items) (renderItems (dropNulsItems items))
  | [] => scans_nil
  | item :: items =>
    (scans_plain (c := ',') (by decide)).append ((scans_render item).append (scans_items items))

theorem scans_members : ∀ members : List (List StrToken × Json),
    Scans (renderMembers members) (renderMembers (dropNulsMembers members))
  | [] => scans_nil
  | (key, item) :: members =>
    (scans_plain (c := ',') (by decide)).append ((scans_string key).append
      ((scans_plain (c := ':') (by decide)).append
        ((scans_render item).append (scans_members members))))

end

theorem stripLoop_of_not_infix (h : ¬ nulEscape <:+: text) (before : Runes) :
    stripLoop before 0 text = text := by
  induction text generalizing before with
  | nil => rfl
  | cons c rest ih =>
    have hprefix : isPostgresNULJSONEscape before (c :: rest) = false := by
      rw [isPostgresNULJSONEscape, Bool.and_eq_false_iff]
      refine .inl (Bool.eq_false_iff.mpr fun hp => h ?_)
      exact (List.isPrefixOf_iff_prefix.mp hp).isInfix
    rw [stripLoop_cons hprefix, ih fun hrest => h (hrest.trans (List.suffix_cons c rest).isInfix)]

theorem strip_render (json : Json) :
    stripPostgresNULJSONEscapes json.render = json.dropNuls.render := by
  have hloop : stripLoop [] 0 json.render = json.dropNuls.render := by
    obtain ⟨before, -, h⟩ := scans_render json [] rfl []
    rw [List.append_nil] at h
    rw [h]
    exact List.append_nil _
  rw [stripPostgresNULJSONEscapes]
  split
  · exact hloop
  · rename_i hnone
    rw [← hloop, stripLoop_of_not_infix (by simpa using hnone)]

/-! ## Texts are read in one way -/

theorem ShortEscape.letter_ne (e : ShortEscape) : e.letter ≠ 'u' := by
  cases e <;> decide

/-- A token is read off the front of a text in one way only: escapes begin with a backslash, and the
others have none. -/
theorem StrToken.render_inj {token token' : StrToken} {rest : Runes}
    (h : token.render ++ rest = token'.render ++ rest') : token = token' ∧ rest = rest' := by
  cases token with
  | raw c valid =>
    cases token' with
    | raw c' valid' =>
      obtain ⟨rfl, hrest⟩ := List.cons.inj h
      exact ⟨rfl, hrest⟩
    | short e => exact absurd (List.cons.inj h).1 valid.2.1
    | escape a b c d => exact absurd (List.cons.inj h).1 valid.2.1
  | short e =>
    cases token' with
    | raw c' valid' => exact absurd (List.cons.inj h).1.symm valid'.2.1
    | short e' =>
      obtain ⟨hletter, hrest⟩ := List.cons.inj (List.cons.inj h).2
      have hsame : e = e' := by
        revert hletter
        cases e <;> cases e' <;> decide
      exact ⟨by rw [hsame], hrest⟩
    | escape a b c d => exact absurd (List.cons.inj (List.cons.inj h).2).1 e.letter_ne
  | escape a b c d =>
    cases token' with
    | raw c' valid' => exact absurd (List.cons.inj h).1.symm valid'.2.1
    | short e => exact absurd (List.cons.inj (List.cons.inj h).2).1.symm e.letter_ne
    | escape a' b' c' d' =>
      obtain ⟨a, ha⟩ := a
      obtain ⟨b, hb⟩ := b
      obtain ⟨c, hc⟩ := c
      obtain ⟨d, hd⟩ := d
      obtain ⟨a', ha'⟩ := a'
      obtain ⟨b', hb'⟩ := b'
      obtain ⟨c', hc'⟩ := c'
      obtain ⟨d', hd'⟩ := d'
      simp only [StrToken.render, List.cons_append, List.nil_append, List.cons.injEq,
        true_and] at h
      obtain ⟨rfl, rfl, rfl, rfl, hrest⟩ := h
      exact ⟨rfl, hrest⟩

theorem StrToken.render_ne (token : StrToken) (rest rest' : Runes) :
    token.render ++ rest ≠ '"' :: rest' := by
  intro h
  cases token with
  | raw c valid => exact valid.1 (List.cons.inj h).1
  | short e => exact absurd (List.cons.inj h).1 (by decide)
  | escape a b c d => exact absurd (List.cons.inj h).1 (by decide)

/-- By induction on the tokens; the closing quote is none of them. -/
theorem renderString_inj {tokens tokens' : List StrToken} {rest : Runes}
    (h : renderString tokens ++ rest = renderString tokens' ++ rest') :
    tokens = tokens' ∧ rest = rest' := by
  have hinner : tokens.flatMap StrToken.render ++ '"' :: rest =
      tokens'.flatMap StrToken.render ++ '"' :: rest' := by
    simpa [renderString] using h
  clear h
  induction tokens generalizing tokens' with
  | nil =>
    cases tokens' with
    | nil => exact ⟨rfl, (List.cons.inj hinner).2⟩
    | cons token' tokens' =>
      rw [List.flatMap_cons, List.append_assoc] at hinner
      exact absurd hinner.symm (token'.render_ne _ _)
  | cons token tokens ih =>
    rw [List.flatMap_cons, List.append_assoc] at hinner
    cases tokens' with
    | nil => exact absurd hinner (token.render_ne _ _)
    | cons token' tokens' =>
      rw [List.flatMap_cons, List.append_assoc] at hinner
      obtain ⟨rfl, hrest⟩ := StrToken.render_inj hinner
      obtain ⟨rfl, hend⟩ := ih hrest
      exact ⟨rfl, hend⟩

/-- What follows is no part of an atom. -/
def Ends (rest : Runes) : Prop := ∀ c ∈ rest.head?, atomChar c = false

theorem ends_cons (h : atomChar c = false) (rest : Runes) : Ends (c :: rest) := by
  intro other hother
  cases hother
  exact h

/-- What follows an atom is no character of atoms, so that its end is known. -/
theorem Atom.inj {a a' : Atom} {rest : Runes} (hends : Ends rest) (hends' : Ends rest')
    (h : a.text ++ rest = a'.text ++ rest') : a = a' ∧ rest = rest' := by
  have htake : ∀ (a : Atom) {rest : Runes}, Ends rest →
      (a.text ++ rest).takeWhile atomChar = a.text := by
    intro a rest hends
    rw [List.takeWhile_append_of_pos (List.all_eq_true.mp a.valid)]
    cases rest with
    | nil => exact List.append_nil _
    | cons c rest =>
      rw [List.takeWhile_cons_of_neg (by simpa using hends c rfl), List.append_nil]
  have htext : a.text = a'.text := by rw [← htake a hends, h, htake a' hends']
  obtain ⟨text, hne, hvalid⟩ := a
  obtain ⟨text', hne', hvalid'⟩ := a'
  obtain rfl : text = text' := htext
  exact ⟨rfl, List.append_cancel_left h⟩

/-- What a text is of. -/
inductive Kind : Type
  | atom | string | array | object
deriving DecidableEq

/-- The kind of a text. -/
def Json.kind : Json → Kind
  | .atom _ => .atom
  | .string _ => .string
  | .array _ => .array
  | .object _ => .object

/-- A text of a kind can begin with a character. -/
def Kind.Opens (c : Char) : Kind → Prop
  | .atom => atomChar c = true
  | .string => c = '"'
  | .array => c = '['
  | .object => c = '\x7b'

theorem Kind.opens_inj {kind kind' : Kind} (h : kind.Opens c) (h' : kind'.Opens c) :
    kind = kind' := by
  cases kind <;> cases kind' <;> simp only [Kind.Opens] at h h' <;>
    first
    | rfl
    | (subst h; revert h'; decide)
    | (subst h'; revert h; decide)

theorem Kind.not_opens (kind : Kind) : ¬ kind.Opens ']' := by
  cases kind <;> simp only [Kind.Opens] <;> decide

theorem Json.render_opens (json : Json) :
    ∃ c rest, json.render = c :: rest ∧ json.kind.Opens c := by
  cases json with
  | atom a =>
    cases htext : a.text with
    | nil => exact absurd htext a.nonempty
    | cons c rest =>
      refine ⟨c, rest, htext, List.all_eq_true.mp a.valid c ?_⟩
      rw [htext]
      exact List.mem_cons_self
  | string tokens => exact ⟨_, _, rfl, rfl⟩
  | array items => cases items <;> exact ⟨_, _, rfl, rfl⟩
  | object members => cases members <;> exact ⟨_, _, rfl, rfl⟩

theorem Json.render_ne (json : Json) (rest rest' : Runes) : json.render ++ rest ≠ ']' :: rest' := by
  intro h
  obtain ⟨first, more, hrender, hopens⟩ := json.render_opens
  rw [hrender] at h
  obtain ⟨rfl, -⟩ := List.cons.inj h
  exact json.kind.not_opens hopens

/-- Texts of two kinds begin with different characters. -/
theorem Json.kind_eq {json json' : Json} {rest : Runes}
    (h : json.render ++ rest = json'.render ++ rest') : json.kind = json'.kind := by
  obtain ⟨c, more, hrender, hopens⟩ := json.render_opens
  obtain ⟨c', more', hrender', hopens'⟩ := json'.render_opens
  rw [hrender, hrender'] at h
  obtain ⟨rfl, -⟩ := List.cons.inj h
  exact Kind.opens_inj hopens hopens'

theorem ends_items (items : List Json) (rest : Runes) :
    Ends (renderItems items ++ (']' :: rest)) := by
  cases items <;> exact ends_cons (by decide) _

theorem ends_members (members : List (List StrToken × Json)) (rest : Runes) :
    Ends (renderMembers members ++ ('\x7d' :: rest)) := by
  cases members <;> exact ends_cons (by decide) _

mutual

/-- **A text is written for one JSON only.** -/
theorem render_inj : ∀ (json json' : Json) (rest rest' : Runes), Ends rest → Ends rest' →
    json.render ++ rest = json'.render ++ rest' → json = json' ∧ rest = rest'
  | .atom a, json', rest, rest', hends, hends', h => by
    have hkind := Json.kind_eq h
    cases json' with
    | atom a' =>
      obtain ⟨rfl, hrest⟩ := Atom.inj hends hends' h
      exact ⟨rfl, hrest⟩
    | string tokens' => cases hkind
    | array items' => cases hkind
    | object members' => cases hkind
  | .string tokens, json', rest, rest', _, _, h => by
    have hkind := Json.kind_eq h
    cases json' with
    | atom a' => cases hkind
    | string tokens' =>
      obtain ⟨rfl, hrest⟩ := renderString_inj h
      exact ⟨rfl, hrest⟩
    | array items' => cases hkind
    | object members' => cases hkind
  | .array items, json', rest, rest', _, _, h => by
    have hkind := Json.kind_eq h
    cases json' with
    | atom a' => cases hkind
    | string tokens' => cases hkind
    | object members' => cases hkind
    | array items' =>
      cases items with
      | nil =>
        cases items' with
        | nil => exact ⟨rfl, (List.cons.inj (List.cons.inj h).2).2⟩
        | cons item' items' =>
          simp only [Json.render, List.cons_append, List.append_assoc, List.nil_append,
            List.cons.injEq, true_and] at h
          exact absurd h.symm (item'.render_ne _ _)
      | cons item items =>
        cases items' with
        | nil =>
          simp only [Json.render, List.cons_append, List.append_assoc, List.nil_append,
            List.cons.injEq, true_and] at h
          exact absurd h (item.render_ne _ _)
        | cons item' items' =>
          simp only [Json.render, List.cons_append, List.append_assoc, List.nil_append,
            List.cons.injEq, true_and] at h
          obtain ⟨rfl, htail⟩ := render_inj item item' _ _ (ends_items _ _) (ends_items _ _) h
          obtain ⟨rfl, hrest⟩ := renderItems_inj items items' rest rest' htail
          exact ⟨rfl, hrest⟩
  | .object members, json', rest, rest', _, _, h => by
    have hkind := Json.kind_eq h
    cases json' with
    | atom a' => cases hkind
    | string tokens' => cases hkind
    | array items' => cases hkind
    | object members' =>
      cases members with
      | nil =>
        cases members' with
        | nil => exact ⟨rfl, (List.cons.inj (List.cons.inj h).2).2⟩
        | cons member' members' =>
          exact absurd (List.cons.inj (List.cons.inj h).2).1 (by decide)
      | cons member members =>
        obtain ⟨key, item⟩ := member
        cases members' with
        | nil => exact absurd (List.cons.inj (List.cons.inj h).2).1 (by decide)
        | cons member' members' =>
          obtain ⟨key', item'⟩ := member'
          simp only [Json.render, List.cons_append, List.append_assoc, List.nil_append,
            List.cons.injEq, true_and] at h
          obtain ⟨rfl, hvalue⟩ := renderString_inj h
          obtain ⟨rfl, htail⟩ := render_inj item item' _ _ (ends_members _ _) (ends_members _ _)
            (List.cons.inj hvalue).2
          obtain ⟨rfl, hrest⟩ := renderMembers_inj members members' rest rest' htail
          exact ⟨rfl, hrest⟩

theorem renderItems_inj : ∀ (items items' : List Json) (rest rest' : Runes),
    renderItems items ++ ']' :: rest = renderItems items' ++ ']' :: rest' →
      items = items' ∧ rest = rest'
  | [], [], _, _, h => ⟨rfl, (List.cons.inj h).2⟩
  | [], _ :: _, _, _, h => absurd (List.cons.inj h).1 (by decide)
  | _ :: _, [], _, _, h => absurd (List.cons.inj h).1 (by decide)
  | item :: items, item' :: items', rest, rest', h => by
    simp only [renderItems, List.cons_append, List.append_assoc, List.cons.injEq, true_and] at h
    obtain ⟨rfl, htail⟩ := render_inj item item' _ _ (ends_items _ _) (ends_items _ _) h
    obtain ⟨rfl, hrest⟩ := renderItems_inj items items' rest rest' htail
    exact ⟨rfl, hrest⟩

theorem renderMembers_inj : ∀ (members members' : List (List StrToken × Json)) (rest rest' : Runes),
    renderMembers members ++ '\x7d' :: rest = renderMembers members' ++ '\x7d' :: rest' →
      members = members' ∧ rest = rest'
  | [], [], _, _, h => ⟨rfl, (List.cons.inj h).2⟩
  | [], _ :: _, _, _, h => absurd (List.cons.inj h).1 (by decide)
  | _ :: _, [], _, _, h => absurd (List.cons.inj h).1 (by decide)
  | (key, item) :: members, (key', item') :: members', rest, rest', h => by
    simp only [renderMembers, List.cons_append, List.append_assoc, List.cons.injEq, true_and] at h
    obtain ⟨rfl, hvalue⟩ := renderString_inj h
    obtain ⟨rfl, htail⟩ := render_inj item item' _ _ (ends_members _ _) (ends_members _ _)
      (List.cons.inj hvalue).2
    obtain ⟨rfl, hrest⟩ := renderMembers_inj members members' rest rest' htail
    exact ⟨rfl, hrest⟩

end

/-! ## Values -/

mutual

theorem value_dropNuls : ∀ json : Json, json.dropNuls.value = json.value.strip ↔
    ∀ tokens ∈ json.strings, ¬ Splits tokens
  | .atom a => iff_of_true rfl (List.forall_mem_nil _)
  | .string tokens => by
    simp only [Json.dropNuls, Json.value, Value.strip, Json.strings, Value.string.injEq,
      decode_stripTokens, List.forall_mem_singleton]
  | .array items => by
    simp only [Json.dropNuls, Json.value, Value.strip, Json.strings, Value.array.injEq,
      value_dropNulsItems items]
  | .object members => by
    simp only [Json.dropNuls, Json.value, Value.strip, Json.strings, Value.object.injEq,
      value_dropNulsMembers members]

theorem value_dropNulsItems : ∀ items : List Json,
    valueItems (dropNulsItems items) = stripItems (valueItems items) ↔
      ∀ tokens ∈ stringsItems items, ¬ Splits tokens
  | [] => iff_of_true rfl (List.forall_mem_nil _)
  | item :: items => by
    simp only [dropNulsItems, valueItems, stripItems, stringsItems, List.cons.injEq,
      value_dropNuls item, value_dropNulsItems items, List.forall_mem_append]

theorem value_dropNulsMembers : ∀ members : List (List StrToken × Json),
    valueMembers (dropNulsMembers members) = stripMembers (valueMembers members) ↔
      ∀ tokens ∈ stringsMembers members, ¬ Splits tokens
  | [] => iff_of_true rfl (List.forall_mem_nil _)
  | (key, item) :: members => by
    simp only [dropNulsMembers, valueMembers, stripMembers, stringsMembers, List.cons.injEq,
      Prod.mk.injEq, decode_stripTokens, value_dropNuls item, value_dropNulsMembers members,
      List.forall_mem_cons, List.forall_mem_append, and_assoc]

end

mutual

theorem strings_dropNuls : ∀ json : Json, json.dropNuls.strings = json.strings.map stripTokens
  | .atom _ => rfl
  | .string _ => rfl
  | .array items => strings_dropNulsItems items
  | .object members => strings_dropNulsMembers members

theorem strings_dropNulsItems : ∀ items : List Json,
    stringsItems (dropNulsItems items) = (stringsItems items).map stripTokens
  | [] => rfl
  | item :: items => by
    rw [dropNulsItems, stringsItems, stringsItems, List.map_append, strings_dropNuls item,
      strings_dropNulsItems items]

theorem strings_dropNulsMembers : ∀ members : List (List StrToken × Json),
    stringsMembers (dropNulsMembers members) = (stringsMembers members).map stripTokens
  | [] => rfl
  | (key, item) :: members => by
    rw [dropNulsMembers, stringsMembers, stringsMembers, List.map_cons, List.map_append,
      strings_dropNuls item, strings_dropNulsMembers members]

end

theorem dropNuls_no_nul {json : Json} : ∀ tokens ∈ json.dropNuls.strings, ∀ token ∈ tokens,
    token.isNul = false := by
  intro tokens htokens token htoken
  rw [strings_dropNuls] at htokens
  obtain ⟨old, -, rfl⟩ := List.mem_map.mp htokens
  simpa using (List.mem_filter.mp htoken).2

theorem stripsExactly_iff (json : Json) :
    StripsExactly json ↔ json.dropNuls.value = json.value.strip := by
  constructor
  · rintro ⟨out, hout, -, hvalue⟩
    rw [strip_render] at hout
    have hends : Ends [] := nofun
    obtain ⟨rfl, -⟩ := render_inj json.dropNuls out [] [] hends hends (congrArg (· ++ []) hout)
    exact hvalue
  · exact fun hvalue => ⟨json.dropNuls, strip_render json, dropNuls_no_nul, hvalue⟩

/-- **Stripping is exact exactly if no NUL stands between the halves of a surrogate pair.** -/
theorem strip_exact_iff (json : Json) :
    StripsExactly json ↔ ∀ tokens ∈ json.strings, ¬ Splits tokens :=
  (stripsExactly_iff json).trans (value_dropNuls json)

/-- A hexadecimal digit of a literal. -/
def hex (c : Char) (h : isHex c = true) : HexDigit := ⟨c, h⟩

/-- The two halves of a pair, and NUL between them. -/
def splitPair : List StrToken :=
  [.escape (hex 'd' rfl) (hex '8' rfl) (hex '3' rfl) (hex 'd' rfl),
    .escape (hex '0' rfl) (hex '0' rfl) (hex '0' rfl) (hex '0' rfl),
    .escape (hex 'd' rfl) (hex 'e' rfl) (hex '0' rfl) (hex '0' rfl)]

theorem split_pair_inexact : (Json.string splitPair).value = .string [0xFFFD, 0, 0xFFFD] ∧
    stripPostgresNULJSONEscapes (Json.string splitPair).render =
      "\"\\ud83d\\ude00\"".toList ∧ ¬ StripsExactly (.string splitPair) := by
  have hvalue : decodeTokens (stripTokens splitPair) ≠ stripRunes (decodeTokens splitPair) := by
    decide +kernel
  refine ⟨congrArg Value.string (by decide +kernel), by decide +kernel, fun h => ?_⟩
  rw [stripsExactly_iff, value_dropNuls] at h
  exact (not_iff_not.mpr (decode_stripTokens splitPair)).mp hvalue (h _ List.mem_cons_self)

end Gmeow.NulEscapes
