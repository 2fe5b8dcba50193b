import Gmeow.Runes

/-!
# The chunks of a text to embed

A long body is embedded in pieces: the analyzer cuts it into windows of at most 1200 runes, ends a
window behind a sentence or a space where its upper half has one, and embeds what is left of a
window without the spaces at its ends, unless it has too few letters.

A text is a list of runes; bytes that are no UTF-8 read as U+FFFD, as Go has it. Which runes are
letters is a table of the package `unicode`; all that matters here is that no space is one. The
lengths are small enough for `math.Min` on floating point numbers to be exact.

* `Tiles` — intervals that follow one another, and hold every number between once;
* `chunkBoundary`, `embeddingLoop`, `chunkEmbeddingText` — the cuts, the loop with its rounds, and the
  segments;
* `chunkEmbeddingText_tiles` — the loop ends, and its windows are the text.
-/

/-! ## Intervals that follow one another -/

namespace Intervals

/-- Non-empty intervals that lead from one number to another, each from where the last ended. -/
def Tiles : Nat → Nat → List (Nat × Nat) → Prop
  | start, stop, [] => start = stop
  | start, stop, window :: rest => window.1 = start ∧ start < window.2 ∧ Tiles window.2 stop rest

variable {start stop : Nat} {windows : List (Nat × Nat)}

/-- No interval starts before the first. -/
theorem Tiles.le_fst (h : Tiles start stop windows) {window : Nat × Nat} (hin : window ∈ windows) :
    start ≤ window.1 := by
  induction windows generalizing start with
  | nil => cases hin
  | cons first rest ih =>
    obtain ⟨hfirst, hlt, hrest⟩ := h
    rcases List.mem_cons.mp hin with rfl | hin
    · exact hfirst.ge
    · exact hlt.le.trans (ih hrest hin)

/-- **Every number is in exactly one interval.** -/
theorem Tiles.existsUnique (h : Tiles start stop windows) {i : Nat} (hstart : start ≤ i)
    (hstop : i < stop) :
    ∃! k : Nat, ∃ window : Nat × Nat, windows[k]? = some window ∧ window.1 ≤ i ∧ i < window.2 := by
  induction windows generalizing start with
  | nil =>
    have hempty : start = stop := h
    omega
  | cons first rest ih =>
    obtain ⟨hfirst, hlt, hrest⟩ := h
    by_cases hi : i < first.2
    · refine ⟨0, ⟨first, rfl, hfirst.le.trans hstart, hi⟩, ?_⟩
      rintro (_ | k) ⟨window, hget, hle, -⟩
      · rfl
      · have hlater := hrest.le_fst (List.mem_of_getElem? hget)
        omega
    · obtain ⟨k, hk, hunique⟩ := ih hrest (Nat.le_of_not_lt hi)
      refine ⟨k + 1, hk, ?_⟩
      rintro (_ | k') ⟨window, hget, hle, hwin⟩
      · obtain rfl := Option.some.inj hget
        exact absurd hwin hi
      · rw [hunique k' ⟨window, hget, hle, hwin⟩]

end Intervals

namespace Gmeow

open Intervals

/-! ## The code -/

/-- `embeddingChunkTargetRunes`. -/
def embeddingChunkTargetRunes : Nat := 1200

/-- `embeddingChunkMinLetters`. -/
def embeddingChunkMinLetters : Nat := 16

/-- `embeddingSegment`. -/
structure EmbeddingSegment where
  kind : String
  sourceDigest : String
  ordinal : Nat
  text : Runes
deriving DecidableEq, Repr

/-- `whitespacePattern`: the class `\s` of the regular expressions. -/
def isPatternSpace (c : Char) : Bool :=
  c == '\t' || c == '\n' || c == '\x0c' || c == '\r' || c == ' '

/-- `whitespacePattern.ReplaceAllString` with a space, inside a run of spaces or not. -/
def collapseSpaces : Bool → Runes → Runes
  | _, [] => []
  | within, c :: rest =>
    if isPatternSpace c then
      if within then collapseSpaces true rest else ' ' :: collapseSpaces true rest
    else c :: collapseSpaces false rest

/-- `normalizeWhitespace`. -/
def normalizeWhitespace (value : Runes) : Runes := Runes.trim (collapseSpaces false value)

/-- `naturalLanguageJoin`. -/
def naturalLanguageJoin (parts : List Runes) : Runes :=
  List.intercalate ['\n'] ((parts.map normalizeWhitespace).filter fun part => !part.isEmpty)

/-- One of the two loops of `chunkBoundary`: the last place behind a rune of a kind, down to a
bound. -/
def lastBehind (stops : Char → Bool) (runes : Runes) (bound : Nat) : Nat → Option Nat
  | 0 => none
  | index + 1 =>
    if index + 1 > bound then
      if runes[index]?.any stops then some (index + 1) else lastBehind stops runes bound index
    else none

/-- The runes a sentence ends with. -/
def endsSentence (c : Char) : Bool := c == '.' || c == '!' || c == '?' || c == '\n'

/-- `chunkBoundary`. -/
def chunkBoundary (runes : Runes) (start fallback : Nat) : Nat :=
  let bound := start + embeddingChunkTargetRunes / 2
  match lastBehind endsSentence runes bound fallback with
  | some index => index
  | none => (lastBehind isSpace runes bound fallback).getD fallback

/-- Where the window from a place ends. -/
def chunkEnd (runes : Runes) (start : Nat) : Nat :=
  let stop := min (start + embeddingChunkTargetRunes) runes.length
  if stop < runes.length then chunkBoundary runes start stop else stop

/-- The runes of a window. -/
def window (runes : Runes) (start stop : Nat) : Runes := (runes.take stop).drop start

/-- A round of the loop: its window, its number, and the segment it appends if it does. -/
structure ChunkRound where
  bounds : Nat × Nat
  ordinal : Nat
  segment : Option EmbeddingSegment

section Letters

variable (isLetter : Char → Bool)

/-- The letters of a text. -/
def letters (text : Runes) : Nat := text.countP isLetter

/-- `usableEmbeddingText`. -/
def usableEmbeddingText (text : Runes) : Bool := letters isLetter text ≥ embeddingChunkMinLetters

/-- The loop of `chunkEmbeddingText`, from a place and a number; nothing when it has not ended
after that many rounds. -/
def embeddingLoop (kind sourceDigest : String) (runes : Runes) :
    Nat → Nat → Nat → Option (List ChunkRound)
  | 0, start, _ => if start < runes.length then none else some []
  | fuel + 1, start, ordinal =>
    if start < runes.length then
      let stop := chunkEnd runes start
      let chunk := Runes.trim (window runes start stop)
      let segment :=
        if usableEmbeddingText isLetter chunk then some ⟨kind, sourceDigest, ordinal, chunk⟩
        else none
      (embeddingLoop kind sourceDigest runes fuel stop (ordinal + 1)).map
        (⟨(start, stop), ordinal, segment⟩ :: ·)
    else some []

/-- `chunkEmbeddingText`, with a round for each rune at most. -/
def chunkEmbeddingText (kind sourceDigest : String) (text : Runes) :
    Option (List EmbeddingSegment) :=
  let text := naturalLanguageJoin [text]
  if !usableEmbeddingText isLetter text then some []
  else if text.length ≤ embeddingChunkTargetRunes then some [⟨kind, sourceDigest, 0, text⟩]
  else
    (embeddingLoop isLetter kind sourceDigest text text.length 0 0).map fun rounds =>
      rounds.filterMap (·.segment)

end Letters

/-! ## The end of a window -/

variable {runes : Runes} {fallback start : Nat}

theorem lastBehind_bounds {stops : Char → Bool} {bound index : Nat}
    (h : lastBehind stops runes bound fallback = some index) :
    bound < index ∧ index ≤ fallback := by
  induction fallback with
  | zero => cases h
  | succ fallback ih =>
    rw [lastBehind] at h
    split at h
    · split at h
      · obtain rfl := Option.some.inj h
        exact ⟨‹_›, Nat.le_refl _⟩
      · obtain ⟨hbound, hle⟩ := ih h
        exact ⟨hbound, hle.trans (Nat.le_succ _)⟩
    · cases h

/-- The boundary is the end there was, or in the upper half of the window. -/
theorem chunkBoundary_bounds (runes : Runes) (h : start < fallback) :
    start < chunkBoundary runes start fallback ∧ chunkBoundary runes start fallback ≤ fallback := by
  rw [chunkBoundary]
  split
  · rename_i index hfound
    have := lastBehind_bounds hfound
    omega
  · cases hspace : lastBehind isSpace runes (start + embeddingChunkTargetRunes / 2) fallback with
    | none => exact ⟨h, Nat.le_refl _⟩
    | some index =>
      have := lastBehind_bounds hspace
      exact ⟨by rw [Option.getD_some]; omega, this.2⟩

/-- A window is not empty, not too long, and in the text. -/
theorem chunkEnd_bounds (h : start < runes.length) :
    start < chunkEnd runes start ∧ chunkEnd runes start ≤ start + embeddingChunkTargetRunes ∧
      chunkEnd runes start ≤ runes.length := by
  have hstop : start < min (start + embeddingChunkTargetRunes) runes.length := by
    rw [embeddingChunkTargetRunes]
    omega
  rw [chunkEnd]
  split
  · obtain ⟨hlt, hle⟩ := chunkBoundary_bounds runes hstop
    omega
  · omega

/-- A text that is short enough is one window. -/
theorem chunkEnd_of_short (h : runes.length ≤ embeddingChunkTargetRunes) :
    chunkEnd runes 0 = runes.length := by
  have hmin : min (0 + embeddingChunkTargetRunes) runes.length = runes.length := by omega
  rw [chunkEnd, hmin]
  exact if_neg (Nat.lt_irrefl _)

/-! ## Letters and spaces -/

theorem countP_dropWhile {p q : Char → Bool} (h : ∀ c, q c = true → p c = false) (l : Runes) :
    (l.dropWhile q).countP p = l.countP p := by
  have hnone : (l.takeWhile q).countP p = 0 := by
    refine List.countP_eq_zero.mpr fun c hc => ?_
    rw [h c (List.mem_takeWhile_imp hc)]
    exact Bool.false_ne_true
  conv_rhs => rw [← List.takeWhile_append_dropWhile (p := q) (l := l), List.countP_append, hnone]
  exact (Nat.zero_add _).symm

/-- Trimming takes no letter away. -/
theorem letters_trim {isLetter : Char → Bool} (hspace : ∀ c, isSpace c = true → isLetter c = false)
    (text : Runes) : letters isLetter (Runes.trim text) = letters isLetter text := by
  rw [letters, letters, Runes.trim, List.rdropWhile, List.countP_reverse, countP_dropWhile hspace,
    List.countP_reverse, countP_dropWhile hspace]

/-- What is embedded has no space at its ends. -/
theorem trim_naturalLanguageJoin (text : Runes) :
    Runes.trim (naturalLanguageJoin [text]) = naturalLanguageJoin [text] := by
  rw [naturalLanguageJoin, List.map_singleton, List.filter_singleton]
  cases (normalizeWhitespace text).isEmpty with
  | true => rfl
  | false =>
    rw [Bool.not_false, cond_true, List.intercalate_singleton]
    exact Runes.trim_of_trimmed (Runes.trimmed_trim _)

/-! ## The loop -/

/-- What a run of the loop does, from a place and a number on. -/
structure Chunks (isLetter : Char → Bool) (kind sourceDigest : String) (runes : Runes)
    (start ordinal : Nat) (rounds : List ChunkRound) : Prop where
  tiles : Tiles start runes.length (rounds.map (·.bounds))
  short : ∀ round ∈ rounds, round.bounds.2 - round.bounds.1 ≤ embeddingChunkTargetRunes
  ordinals : rounds.map (·.ordinal) = List.range' ordinal rounds.length
  segments : ∀ round ∈ rounds, round.segment =
    let runes := window runes round.bounds.1 round.bounds.2
    if letters isLetter runes < embeddingChunkMinLetters then none
    else some ⟨kind, sourceDigest, round.ordinal, Runes.trim runes⟩

section Loop

variable {isLetter : Char → Bool} {kind sourceDigest : String} {runes : Runes}
  {start ordinal : Nat} {rounds : List ChunkRound}

/-- The segment of a window depends on the letters of the window. -/
theorem usable_trim (hspace : ∀ c, isSpace c = true → isLetter c = false) (text : Runes) :
    usableEmbeddingText isLetter (Runes.trim text) = true ↔
      ¬letters isLetter text < embeddingChunkMinLetters := by
  rw [usableEmbeddingText, letters_trim hspace, decide_eq_true_iff, not_lt]

/-- One round more in front. -/
theorem Chunks.cons (hspace : ∀ c, isSpace c = true → isLetter c = false)
    (hstart : start < runes.length)
    (h : Chunks isLetter kind sourceDigest runes (chunkEnd runes start) (ordinal + 1) rounds) :
    Chunks isLetter kind sourceDigest runes start ordinal
      (⟨(start, chunkEnd runes start), ordinal,
        if usableEmbeddingText isLetter (Runes.trim (window runes start (chunkEnd runes start)))
        then some ⟨kind, sourceDigest, ordinal,
          Runes.trim (window runes start (chunkEnd runes start))⟩
        else none⟩ :: rounds) := by
  obtain ⟨hlt, hshort, -⟩ := chunkEnd_bounds hstart
  refine ⟨⟨rfl, hlt, h.tiles⟩, ?_, ?_, ?_⟩
  · refine List.forall_mem_cons.mpr ⟨?_, h.short⟩
    dsimp only
    omega
  · rw [List.map_cons, h.ordinals]
    rfl
  · refine List.forall_mem_cons.mpr ⟨?_, h.segments⟩
    dsimp only
    by_cases hletters : letters isLetter (window runes start (chunkEnd runes start)) <
        embeddingChunkMinLetters
    · rw [if_pos hletters, if_neg fun husable => (usable_trim hspace _).mp husable hletters]
    · rw [if_neg hletters, if_pos ((usable_trim hspace _).mpr hletters)]

/-- At the end of the text the loop is over. -/
theorem embeddingLoop_end (h : ¬start < runes.length) (fuel : Nat) :
    embeddingLoop isLetter kind sourceDigest runes fuel start ordinal = some [] := by
  cases fuel <;> exact if_neg h

/-- **The loop ends**: every round takes a rune at least. -/
theorem embeddingLoop_chunks (hspace : ∀ c, isSpace c = true → isLetter c = false)
    (kind sourceDigest : String) {runes : Runes} (fuel start ordinal : Nat)
    (hfuel : runes.length - start ≤ fuel) (hstart : start ≤ runes.length) :
    ∃ rounds, embeddingLoop isLetter kind sourceDigest runes fuel start ordinal = some rounds ∧
      Chunks isLetter kind sourceDigest runes start ordinal rounds := by
  induction fuel generalizing start ordinal with
  | zero =>
    have hend : start = runes.length := by omega
    exact ⟨[], embeddingLoop_end (by omega) 0, ⟨hend, nofun, rfl, nofun⟩⟩
  | succ fuel ih =>
    by_cases hlt : start < runes.length
    · obtain ⟨hafter, -, hle⟩ := chunkEnd_bounds hlt
      obtain ⟨rounds, hloop, hchunks⟩ := ih (chunkEnd runes start) (ordinal + 1) (by omega) hle
      refine ⟨_, ?_, hchunks.cons hspace hlt⟩
      rw [embeddingLoop, if_pos hlt]
      dsimp only
      rw [hloop]
      rfl
    · have hend : start = runes.length := by omega
      exact ⟨[], embeddingLoop_end hlt _, ⟨hend, nofun, rfl, nofun⟩⟩

/-- The numbers of the segments go up. -/
theorem Chunks.ordinals_lt (h : Chunks isLetter kind sourceDigest runes start ordinal rounds) :
    ((rounds.filterMap (·.segment)).map (·.ordinal)).Pairwise (· < ·) := by
  have hsub : ((rounds.filterMap (·.segment)).map (·.ordinal)).Sublist
      (rounds.map (·.ordinal)) := by
    have hown : ∀ round ∈ rounds, ∀ segment, round.segment = some segment →
        segment.ordinal = round.ordinal := by
      intro round hin segment hsegment
      rw [h.segments round hin] at hsegment
      dsimp only at hsegment
      split at hsegment
      · cases hsegment
      · rw [← Option.some.inj hsegment]
    clear h
    induction rounds with
    | nil => exact List.Sublist.refl _
    | cons round rounds ih =>
      obtain ⟨hfirst, hrest⟩ := List.forall_mem_cons.mp hown
      cases hsegment : round.segment with
      | none =>
        rw [List.filterMap_cons_none hsegment]
        exact (ih hrest).cons _
      | some segment =>
        rw [List.filterMap_cons_some hsegment, List.map_cons, List.map_cons,
          hfirst segment hsegment]
        exact (ih hrest).cons_cons _
  rw [h.ordinals] at hsub
  exact List.Pairwise.sublist hsub List.pairwise_lt_range'

/-- A short text takes the way without the loop, to the same segments. -/
theorem embeddingLoop_of_short (htrim : Runes.trim runes = runes)
    (husable : usableEmbeddingText isLetter runes = true)
    (hshort : runes.length ≤ embeddingChunkTargetRunes)
    (hloop : embeddingLoop isLetter kind sourceDigest runes runes.length 0 0 = some rounds) :
    rounds.filterMap (·.segment) = [⟨kind, sourceDigest, 0, runes⟩] := by
  have hpos : 0 < runes.length := by
    rw [usableEmbeddingText, decide_eq_true_iff] at husable
    exact (Nat.zero_lt_succ 15).trans_le (husable.trans List.countP_le_length)
  obtain ⟨fuel, hfuel⟩ := Nat.exists_eq_add_one.mpr hpos
  have hwindow : window runes 0 runes.length = runes := by
    rw [window, List.take_length, List.drop_zero]
  have hrest : embeddingLoop isLetter kind sourceDigest runes fuel runes.length 1 = some [] :=
    embeddingLoop_end (Nat.lt_irrefl _) fuel
  rw [hfuel, embeddingLoop, if_pos hpos] at hloop
  dsimp only at hloop
  rw [chunkEnd_of_short hshort, hwindow, htrim, if_pos husable, hrest] at hloop
  rw [← Option.some.inj hloop]
  rfl

end Loop

/-- **The chunks are the text, cut.** For every text with enough letters, the loop ends; its windows
follow one another from the start of the text to its end, none is empty or too long, and every rune
is in exactly one of them; a round appends the runes of its window, trimmed, as a segment unless
they have too few letters; and the numbers of the segments go up. -/
theorem chunkEmbeddingText_tiles (isLetter : Char → Bool)
    (hspace : ∀ c, isSpace c = true → isLetter c = false) (kind sourceDigest : String)
    (text : Runes) (husable : usableEmbeddingText isLetter (naturalLanguageJoin [text]) = true) :
    let runes := naturalLanguageJoin [text]
    ∃ rounds segments,
      embeddingLoop isLetter kind sourceDigest runes runes.length 0 0 = some rounds ∧
      chunkEmbeddingText isLetter kind sourceDigest text = some segments ∧
      segments = rounds.filterMap (·.segment) ∧
      Chunks isLetter kind sourceDigest runes 0 0 rounds ∧
      (∀ i < runes.length, ∃! k : Nat, ∃ round : ChunkRound, rounds[k]? = some round ∧
        round.bounds.1 ≤ i ∧ i < round.bounds.2) ∧
      (segments.map (·.ordinal)).Pairwise (· < ·) := by
  intro runes
  obtain ⟨rounds, hloop, hchunks⟩ := embeddingLoop_chunks hspace kind sourceDigest runes.length 0 0
    (Nat.sub_le _ _) (Nat.zero_le _)
  refine ⟨rounds, _, hloop, ?_, rfl, hchunks, fun i hi => ?_, hchunks.ordinals_lt⟩
  · rw [chunkEmbeddingText, husable]
    by_cases hshort : runes.length ≤ embeddingChunkTargetRunes
    · rw [embeddingLoop_of_short (trim_naturalLanguageJoin text) husable hshort hloop,
        if_neg (by decide), if_pos hshort]
    · rw [if_neg (by decide), if_neg hshort, hloop]
      rfl
  · obtain ⟨k, ⟨bounds, hget, hin⟩, hunique⟩ := hchunks.tiles.existsUnique (Nat.zero_le i) hi
    rw [List.getElem?_map, Option.map_eq_some_iff] at hget
    obtain ⟨round, hround, rfl⟩ := hget
    refine ⟨k, ⟨round, hround, hin⟩, ?_⟩
    rintro k' ⟨round', hround', hin'⟩
    exact hunique k' ⟨round'.bounds, by rw [List.getElem?_map, hround']; rfl, hin'⟩

/-- A body of two windows. -/
theorem chunkEmbeddingText_tiles_long :
    let body : Runes := List.replicate 1300 'a'
    usableEmbeddingText (· == 'a') (naturalLanguageJoin [body]) = true ∧
    ∃ rounds segments,
      chunkEmbeddingText (· == 'a') "body_chunk" "d" body = some segments ∧
      segments = rounds.filterMap (·.segment) ∧
      Chunks (· == 'a') "body_chunk" "d" (naturalLanguageJoin [body]) 0 0 rounds := by
  intro body
  have hspace : ∀ c, isSpace c = true → (c == 'a') = false := by
    intro c hc
    refine beq_eq_false_iff_ne.mpr fun heq => ?_
    rw [heq] at hc
    exact absurd hc (by decide)
  have husable : usableEmbeddingText (· == 'a') (naturalLanguageJoin [body]) = true := by
    decide +kernel
  obtain ⟨rounds, segments, -, hsegments, heq, hchunks, -⟩ :=
    chunkEmbeddingText_tiles (· == 'a') hspace "body_chunk" "d" body husable
  exact ⟨husable, rounds, segments, hsegments, heq, hchunks⟩

end Gmeow
