import Gmeow.Text

/-!
# Patches of variants

A variant of a message is kept as a patch against the canonical text: the lines of the canonical
text, marked with a minus, and those of the variant, marked with a plus. Empty lines are not
written.

* `linePatch` — the patch;
* `linePatch_ne_iff` — the patches of two variants differ exactly if their lines differ, the empty
  ones left aside.
-/

namespace Gmeow

/-- `strings.Split(text, "\n")`. -/
def splitNewline : Bytes → List Bytes
  | [] => [[]]
  | byte :: rest =>
    if byte = 10 then [] :: splitNewline rest
    else match splitNewline rest with
      | [] => [[byte]]
      | line :: lines => (byte :: line) :: lines

/-- One of the loops of `linePatch`: the lines that are not empty, each behind a mark. -/
def markLines (mark : UInt8) (lines : List Bytes) : Bytes :=
  lines.flatMap fun line => if line ≠ [] then mark :: line ++ [10] else []

/-- `linePatch`. -/
def linePatch (base target : Bytes) : Bytes :=
  utf8 "gmeow-patch-v1\n" ++ utf8 "--- canonical\n" ++ utf8 "+++ variant\n" ++
    markLines 45 (splitNewline base) ++ markLines 43 (splitNewline target)

/-- The lines of a text that are not empty. -/
def contentLines (text : Bytes) : List Bytes :=
  (splitNewline text).filter fun line => decide (line ≠ [])

theorem newline_not_mem_splitNewline (text : Bytes) : ∀ line ∈ splitNewline text, 10 ∉ line := by
  induction text with
  | nil =>
    intro line hline
    rw [List.mem_singleton.mp hline]
    exact List.not_mem_nil
  | cons byte rest ih =>
    rw [splitNewline]
    split
    · exact List.forall_mem_cons.mpr ⟨List.not_mem_nil, ih⟩
    · rename_i hbyte
      cases hlines : splitNewline rest with
      | nil => simpa using Ne.symm hbyte
      | cons line lines =>
        rw [hlines] at ih
        obtain ⟨hline, hlines⟩ := List.forall_mem_cons.mp ih
        refine List.forall_mem_cons.mpr ⟨fun hmem => ?_, hlines⟩
        rcases List.mem_cons.mp hmem with heq | hmem
        · exact hbyte heq.symm
        · exact hline hmem

theorem markLines_filter (mark : UInt8) (lines : List Bytes) :
    markLines mark lines = (lines.filter fun line => decide (line ≠ [])).flatMap fun line =>
      mark :: line ++ [10] := by
  induction lines with
  | nil => rfl
  | cons line lines ih =>
    rw [markLines, List.flatMap_cons, ← markLines, ih]
    by_cases hempty : line = []
    · simp [hempty]
    · simp [hempty]

/-- Lines can be read off their marked copies: each ends at the first newline. -/
theorem marked_injective (mark : UInt8) {lines lines' : List Bytes}
    (hlines : ∀ line ∈ lines, 10 ∉ line) (hlines' : ∀ line ∈ lines', 10 ∉ line)
    (heq : (lines.flatMap fun line => mark :: line ++ [10]) =
      lines'.flatMap fun line => mark :: line ++ [10]) : lines = lines' := by
  induction lines generalizing lines' with
  | nil =>
    cases lines' with
    | nil => rfl
    | cons line' lines' => cases heq
  | cons line lines ih =>
    cases lines' with
    | nil => cases heq
    | cons line' lines' =>
      simp only [List.flatMap_cons, List.cons_append, List.append_assoc, List.nil_append,
        List.cons.injEq, true_and] at heq
      obtain ⟨hline, htail⟩ := List.forall_mem_cons.mp hlines
      obtain ⟨hline', htail'⟩ := List.forall_mem_cons.mp hlines'
      obtain ⟨rfl, hrest⟩ := append_separator_inj hline hline' heq
      rw [ih htail htail' hrest]

/-- **A patch tells the lines of the variant that are not empty**, and nothing else. -/
theorem linePatch_ne_iff (base target target' : Bytes) :
    linePatch base target ≠ linePatch base target' ↔ contentLines target ≠ contentLines target' := by
  have hplain : ∀ text, ∀ line ∈ contentLines text, 10 ∉ line :=
    fun text line hline => newline_not_mem_splitNewline text line (List.mem_filter.mp hline).1
  refine not_congr ⟨fun heq => ?_, fun heq => ?_⟩
  · rw [linePatch, linePatch, List.append_cancel_left_eq, markLines_filter,
      markLines_filter] at heq
    exact marked_injective 43 (hplain target) (hplain target') heq
  · rw [linePatch, linePatch, markLines_filter 43, markLines_filter 43, ← contentLines,
      ← contentLines, heq]

/-- Two variants that differ in an empty line have one patch. -/
theorem linePatch_loses_empty_lines :
    utf8 "a\n\nb" ≠ utf8 "a\nb\n" ∧
      linePatch (utf8 "a") (utf8 "a\n\nb") = linePatch (utf8 "a") (utf8 "a\nb\n") := by
  decide

end Gmeow
