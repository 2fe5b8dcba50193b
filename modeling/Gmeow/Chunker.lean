import Gmeow.Text

/-!
# Content-defined chunking

`chunkContent` cuts a byte string at the places a gear hash chooses, between
`chunkMinSize` and `chunkMaxSize`; `streamChunks` does the same to a reader that
hands out the bytes in pieces, holding about `chunkMaxSize` of them at a time. A
cut only ever looks at the first `chunkMaxSize` bytes (`nextChunkCut_take`), so
how the reader splits its content does not show:

* `flatten_chunkContent` — the chunks are the content, in order;
* `streamChunks_eq` — the stream emits exactly the chunks of the whole content;
* `chunks_of_any_reader` — whatever the reader does, the chunks are those of the whole
  content, none is empty or too large, and only the last one may be small.
-/

namespace Gmeow

/-- `chunkMinSize`. -/
def chunkMinSize : Nat := 2 * 1024

/-- `chunkAvgSize`. -/
def chunkAvgSize : Nat := 8 * 1024

/-- `chunkMaxSize`. -/
def chunkMaxSize : Nat := 64 * 1024

/-! ## Where to cut -/

/-- The output function of `buildGearTable`'s generator. -/
def gearMix (state : UInt64) : UInt64 :=
  let z := state
  let z := (z ^^^ (z >>> 30)) * 0xbf58476d1ce4e5b9
  let z := (z ^^^ (z >>> 27)) * 0x94d049bb133111eb
  z ^^^ (z >>> 31)

/-- `buildGearTable`, `n` entries from a state on. -/
def buildGearTable : Nat → UInt64 → List UInt64
  | 0, _ => []
  | n + 1, state =>
    let state := state + 0x9e3779b97f4a7c15
    gearMix state :: buildGearTable n state

/-- `gearTable`. -/
def gearTable : List UInt64 := buildGearTable 256 0x9e3779b97f4a7c15

/-- `maskS`, the strict mask before the average size. -/
def maskS : UInt64 := 0x0003590703530000

/-- `maskL`, the loose mask after it. -/
def maskL : UInt64 := 0x0000d90003530000

/-- The two loops of `nextChunkCut`: `i` is the index of the next byte, the list
the bytes from there on. -/
def scanCut (normal n : Nat) : Nat → UInt64 → Bytes → Nat
  | _, _, [] => n
  | i, hash, b :: rest =>
    if i < n then
      let hash := (hash <<< 1) + gearTable.getD b.toNat 0
      if hash &&& (if i < normal then maskS else maskL) = 0 then i
      else scanCut normal n (i + 1) hash rest
    else n

/-- `nextChunkCut`. -/
def nextChunkCut (data : Bytes) : Nat :=
  if data.length ≤ chunkMinSize then data.length
  else
    let n := min data.length chunkMaxSize
    scanCut (min chunkAvgSize n) n chunkMinSize 0 (data.drop chunkMinSize)

/-- A cut is never before the place where the scan starts, nor behind the end. -/
theorem scanCut_bounds (normal : Nat) {n : Nat} :
    ∀ (data : Bytes) (i : Nat) (hash : UInt64), i ≤ n →
      i ≤ scanCut normal n i hash data ∧ scanCut normal n i hash data ≤ n := by
  intro data
  induction data with
  | nil => intro i hash hi; exact ⟨hi, le_refl n⟩
  | cons b rest ih =>
    intro i hash hi
    rw [scanCut]
    rcases Nat.lt_or_ge i n with hlt | hge
    · rw [if_pos hlt]
      generalize (if i < normal then maskS else maskL) = mask
      dsimp only
      split
      · exact ⟨le_refl i, hi⟩
      · obtain ⟨hlo, hhi⟩ := ih (i + 1) ((hash <<< 1) + gearTable.getD b.toNat 0) hlt
        exact ⟨by omega, hhi⟩
    · rw [if_neg (by omega)]
      exact ⟨hi, le_refl n⟩

/-- A cut never leaves an empty chunk, nor reads past the content. -/
theorem nextChunkCut_bounds {data : Bytes} (h : data ≠ []) :
    0 < nextChunkCut data ∧ nextChunkCut data ≤ data.length := by
  have hpos : 0 < data.length := List.length_pos_of_ne_nil h
  have hmin : 0 < chunkMinSize := by decide
  have hmm : chunkMinSize ≤ chunkMaxSize := by decide
  rw [nextChunkCut]
  split
  · exact ⟨hpos, le_refl _⟩
  · have hle : chunkMinSize ≤ min data.length chunkMaxSize := by omega
    obtain ⟨hlo, hhi⟩ := scanCut_bounds (min chunkAvgSize (min data.length chunkMaxSize))
      (data.drop chunkMinSize) chunkMinSize 0 hle
    dsimp only
    exact ⟨by omega, by omega⟩

/-- A cut is at most the maximum, and before the end of the content at least the minimum. -/
theorem nextChunkCut_sizes (data : Bytes) :
    nextChunkCut data ≤ chunkMaxSize ∧
      (nextChunkCut data < data.length → chunkMinSize ≤ nextChunkCut data) := by
  have hmm : chunkMinSize ≤ chunkMaxSize := by decide
  rw [nextChunkCut]
  split
  · exact ⟨by omega, fun h => absurd h (lt_irrefl _)⟩
  · have hle : chunkMinSize ≤ min data.length chunkMaxSize := by omega
    obtain ⟨hlo, hhi⟩ := scanCut_bounds (min chunkAvgSize (min data.length chunkMaxSize))
      (data.drop chunkMinSize) chunkMinSize 0 hle
    dsimp only
    exact ⟨by omega, fun _ => hlo⟩

/-- The scan stops at `n`, so bytes past it do not matter. -/
theorem scanCut_take {normal n : Nat} :
    ∀ (data : Bytes) (i m : Nat) (hash : UInt64), n ≤ i + m →
      scanCut normal n i hash (data.take m) = scanCut normal n i hash data := by
  intro data
  induction data with
  | nil => intro i m hash _; rw [List.take_nil]
  | cons b rest ih =>
    intro i m hash hm
    cases m with
    | zero =>
      -- nothing kept: the scan is already at its end
      rw [List.take_zero, scanCut, scanCut, if_neg (by omega)]
    | succ m =>
      have hrest : ∀ hash, scanCut normal n (i + 1) hash (rest.take m) =
          scanCut normal n (i + 1) hash rest := fun hash => ih (i + 1) m hash (by omega)
      simp only [List.take_succ_cons, scanCut, hrest]

/-- A cut is decided by the first `chunkMaxSize` bytes. -/
theorem nextChunkCut_take (data : Bytes) :
    nextChunkCut (data.take chunkMaxSize) = nextChunkCut data := by
  have hmm : chunkMinSize ≤ chunkMaxSize := by decide
  rcases le_or_gt data.length chunkMaxSize with hle | hgt
  · rw [List.take_of_length_le hle]
  · have hlen : (data.take chunkMaxSize).length = chunkMaxSize := by
      rw [List.length_take]; omega
    have hmin : ¬ chunkMaxSize ≤ chunkMinSize := by decide
    rw [nextChunkCut, nextChunkCut, hlen, if_neg hmin, if_neg (by omega)]
    have hn : min data.length chunkMaxSize = chunkMaxSize := by omega
    rw [hn, Nat.min_self, List.drop_take]
    exact scanCut_take _ _ _ _ (by omega)

/-! ## Whole contents -/

/-- The loop of `chunkContent`. -/
def chunkLoop : Nat → Bytes → List Bytes
  | 0, _ => []
  | _ + 1, [] => []
  | fuel + 1, b :: data =>
    let cut := nextChunkCut (b :: data)
    (b :: data).take cut :: chunkLoop fuel ((b :: data).drop cut)

/-- `chunkContent`; each round takes at least one byte, so the length is enough
rounds. -/
def chunkContent (data : Bytes) : List Bytes := chunkLoop data.length data

theorem chunkLoop_cons {fuel : Nat} {data : Bytes} (h : data ≠ []) :
    chunkLoop (fuel + 1) data =
      data.take (nextChunkCut data) :: chunkLoop fuel (data.drop (nextChunkCut data)) := by
  cases data with
  | nil => exact absurd rfl h
  | cons b data => rfl

/-- More rounds than bytes change nothing. -/
theorem chunkLoop_fuel :
    ∀ (fuel : Nat) {data : Bytes}, data.length ≤ fuel → chunkLoop fuel data = chunkContent data := by
  intro fuel
  induction fuel using Nat.strong_induction_on with
  | _ fuel ih =>
    intro data hle
    rcases eq_or_ne data [] with rfl | hne
    · cases fuel <;> rfl
    · obtain ⟨hpos, -⟩ := nextChunkCut_bounds hne
      have hlen : 0 < data.length := List.length_pos_of_ne_nil hne
      obtain ⟨n, rfl⟩ : ∃ n, fuel = n + 1 := ⟨fuel - 1, by omega⟩
      obtain ⟨m, hm⟩ : ∃ m, data.length = m + 1 := ⟨data.length - 1, by omega⟩
      have hdrop : (data.drop (nextChunkCut data)).length ≤ m := by
        rw [List.length_drop]; omega
      rw [chunkContent, hm, chunkLoop_cons hne, chunkLoop_cons hne,
        ih n (Nat.lt_succ_self n) (by omega), ih m (by omega) hdrop]

theorem chunkContent_cons {data : Bytes} (h : data ≠ []) :
    chunkContent data =
      data.take (nextChunkCut data) :: chunkContent (data.drop (nextChunkCut data)) := by
  have hlen : 0 < data.length := List.length_pos_of_ne_nil h
  rw [← chunkLoop_fuel (data.length + 1) (by omega), chunkLoop_cons h,
    chunkLoop_fuel _ (by rw [List.length_drop]; omega)]

/-- The chunks are the content, in order. -/
theorem flatten_chunkContent : ∀ data : Bytes, (chunkContent data).flatten = data := by
  intro data
  induction hn : data.length using Nat.strong_induction_on generalizing data with
  | _ n ih =>
    rcases eq_or_ne data [] with rfl | hne
    · rfl
    · obtain ⟨hpos, -⟩ := nextChunkCut_bounds hne
      have hlen : 0 < data.length := List.length_pos_of_ne_nil hne
      rw [chunkContent_cons hne, List.flatten_cons,
        ih (data.drop (nextChunkCut data)).length (by rw [List.length_drop]; omega) _ rfl,
        List.take_append_drop]

/-- What the chunks of a content look like. -/
structure WellSized (chunks : List Bytes) : Prop where
  nonempty : ∀ chunk ∈ chunks, chunk ≠ []
  atMost : ∀ chunk ∈ chunks, chunk.length ≤ chunkMaxSize
  /-- only the last one may be small -/
  atLeast : ∀ chunk ∈ chunks.dropLast, chunkMinSize ≤ chunk.length

/-- No chunk is empty or longer than the maximum, and only the last one can be shorter than the
minimum. -/
theorem wellSized_chunkContent (data : Bytes) : WellSized (chunkContent data) := by
  induction hn : data.length using Nat.strong_induction_on generalizing data with
  | _ n ih =>
    rcases eq_or_ne data [] with rfl | hne
    · exact ⟨nofun, nofun, nofun⟩
    · obtain ⟨hpos, hle⟩ := nextChunkCut_bounds hne
      obtain ⟨hmax, hmin⟩ := nextChunkCut_sizes data
      have hlen : (data.take (nextChunkCut data)).length = nextChunkCut data :=
        List.length_take_of_le hle
      obtain ⟨hnonempty, hatMost, hatLeast⟩ := ih (data.drop (nextChunkCut data)).length
        (by rw [List.length_drop]; omega) _ rfl
      rw [chunkContent_cons hne]
      refine ⟨List.forall_mem_cons.mpr ⟨?_, hnonempty⟩, List.forall_mem_cons.mpr ⟨?_, hatMost⟩, ?_⟩
      · exact List.ne_nil_of_length_pos (by omega)
      · omega
      · cases hrest : chunkContent (data.drop (nextChunkCut data)) with
        | nil => exact nofun
        | cons next rest =>
          -- there is a next chunk, so the cut left something over
          have hcut : nextChunkCut data < data.length := by
            refine lt_of_le_of_ne hle fun heq => ?_
            rw [heq, List.drop_length] at hrest
            cases hrest
          rw [List.dropLast_cons_of_ne_nil (List.cons_ne_nil next rest), ← hrest]
          refine List.forall_mem_cons.mpr ⟨?_, hatLeast⟩
          rw [hlen]
          exact hmin hcut

/-! ## Streams -/

/-- An `io.Reader` as the sequence of pieces it hands out, each within the
scratch buffer it is given, and the error it ends in, if any. -/
structure Reader : Type where
  /-- what the successive reads return -/
  segments : List Bytes
  /-- an error other than `io.EOF` after the last piece -/
  failure : Option String := none
  /-- a read fills at most the scratch buffer -/
  bounded : ∀ segment ∈ segments, segment.length ≤ chunkMaxSize

/-- Everything the reader hands out. -/
def Reader.content (reader : Reader) : Bytes := reader.segments.flatten

/-- A reader that hands out a short content at once. -/
def Reader.short (content : Bytes) (h : content.length ≤ chunkMaxSize) : Reader where
  segments := [content]
  bounded := by simpa using h

theorem short_a : (utf8 "a").length ≤ chunkMaxSize := by decide

theorem short_b : (utf8 "b").length ≤ chunkMaxSize := by decide

theorem short_compound : (utf8 "compound:x").length ≤ chunkMaxSize := by decide

/-- The inner loop of `streamChunks`: read until the buffer holds a maximal chunk.
Also reports whether the end of the reader was hit. -/
def fillBuffer : List Bytes → Bytes → Bytes × List Bytes × Bool
  | [], buffer => (buffer, [], buffer.length < chunkMaxSize)
  | segment :: rest, buffer =>
    if buffer.length < chunkMaxSize then fillBuffer rest (buffer ++ segment)
    else (buffer, segment :: rest, false)

/-- The outer loop of `streamChunks`: the chunks handed to the callback, and the
reader's error if that is how it ends. -/
def streamLoop (failure : Option String) : Nat → List Bytes → Bytes → List Bytes × Option String
  | 0, _, _ => ([], none)
  | fuel + 1, segments, buffer =>
    let filled := fillBuffer segments buffer
    match failure, filled.2.2 with
    | some e, true => ([], some e)
    | _, _ =>
      if filled.1 = [] then ([], none)
      else
        let cut := nextChunkCut filled.1
        let later := streamLoop failure fuel filled.2.1 (filled.1.drop cut)
        (filled.1.take cut :: later.1, later.2)

/-- `streamChunks`. -/
def streamChunks (reader : Reader) : List Bytes × Option String :=
  streamLoop reader.failure (reader.content.length + 1) reader.segments []

/-- Filling moves bytes from the reader to the buffer, and stops with a full
buffer or at the end. -/
theorem fillBuffer_spec :
    ∀ (segments : List Bytes) (buffer : Bytes),
      (fillBuffer segments buffer).1 ++ (fillBuffer segments buffer).2.1.flatten =
          buffer ++ segments.flatten ∧
        (chunkMaxSize ≤ (fillBuffer segments buffer).1.length ∨
          (fillBuffer segments buffer).2.1 = []) := by
  intro segments
  induction segments with
  | nil => intro buffer; exact ⟨rfl, Or.inr rfl⟩
  | cons segment rest ih =>
    intro buffer
    rw [fillBuffer]
    split
    · obtain ⟨heq, hstop⟩ := ih (buffer ++ segment)
      refine ⟨?_, hstop⟩
      rw [heq, List.flatten_cons, List.append_assoc]
    · exact ⟨rfl, Or.inl (Nat.le_of_not_lt ‹_›)⟩

/-- The cut found in a filled buffer is the cut of everything still to come. -/
theorem nextChunkCut_fillBuffer (segments : List Bytes) (buffer : Bytes) :
    nextChunkCut (fillBuffer segments buffer).1 = nextChunkCut (buffer ++ segments.flatten) := by
  obtain ⟨heq, hfull | hend⟩ := fillBuffer_spec segments buffer
  · rw [← heq, ← nextChunkCut_take (_ ++ _), List.take_append_of_le_length hfull,
      nextChunkCut_take]
  · rw [hend, List.flatten_nil, List.append_nil] at heq
    rw [heq]

/-- **The stream is chunked as the whole content is**, however it is split: by induction on the
fuel, which is more than the bytes that are left. -/
theorem streamLoop_eq :
    ∀ (fuel : Nat) (segments : List Bytes) (buffer : Bytes),
      (buffer ++ segments.flatten).length < fuel →
        streamLoop none fuel segments buffer = (chunkContent (buffer ++ segments.flatten), none) := by
  intro fuel
  induction fuel with
  | zero => intro segments buffer h; omega
  | succ fuel ih =>
    intro segments buffer hfuel
    obtain ⟨heq, hstop⟩ := fillBuffer_spec segments buffer
    have hcut := nextChunkCut_fillBuffer segments buffer
    simp only [streamLoop]
    rcases eq_or_ne (fillBuffer segments buffer).1 [] with hnil | hne
    · -- an empty buffer after filling: nothing is left to read either
      have hrest : (fillBuffer segments buffer).2.1 = [] := by
        rcases hstop with hfull | hend
        · rw [hnil] at hfull
          exact absurd hfull (by decide)
        · exact hend
      rw [if_pos hnil, ← heq, hnil, hrest]
      rfl
    · obtain ⟨hpos, hle⟩ := nextChunkCut_bounds hne
      have hne' : buffer ++ segments.flatten ≠ [] := by
        rw [← heq]
        exact fun h => hne (List.append_eq_nil_iff.mp h).1
      have hdrop : (fillBuffer segments buffer).1.drop (nextChunkCut (fillBuffer segments buffer).1) ++
          (fillBuffer segments buffer).2.1.flatten =
          (buffer ++ segments.flatten).drop (nextChunkCut (buffer ++ segments.flatten)) := by
        rw [← hcut, ← heq, List.drop_append_of_le_length hle]
      have hlt : ((buffer ++ segments.flatten).drop
          (nextChunkCut (buffer ++ segments.flatten))).length < fuel := by
        rw [List.length_drop, ← hcut]
        have := List.length_pos_of_ne_nil hne'
        omega
      rw [if_neg hne, ih _ _ (by rw [hdrop]; exact hlt), hdrop, chunkContent_cons hne', ← hcut,
        ← heq, List.take_append_of_le_length hle]

/-- Stopping short of the reader's end means a full buffer. -/
theorem fillBuffer_full :
    ∀ (segments : List Bytes) (buffer : Bytes),
      (fillBuffer segments buffer).2.2 = false →
        chunkMaxSize ≤ (fillBuffer segments buffer).1.length := by
  intro segments
  induction segments with
  | nil => intro buffer h; exact Nat.le_of_not_lt (of_decide_eq_false h)
  | cons segment rest ih =>
    intro buffer h
    rw [fillBuffer] at h ⊢
    split at h
    · rw [if_pos ‹_›]; exact ih _ h
    · rw [if_neg ‹_›]; exact Nat.le_of_not_lt ‹_›

/-- A reader that fails makes the stream fail, with the reader's error. -/
theorem streamLoop_failure {e : String} :
    ∀ (fuel : Nat) (segments : List Bytes) (buffer : Bytes),
      (buffer ++ segments.flatten).length < fuel →
        (streamLoop (some e) fuel segments buffer).2 = some e := by
  intro fuel
  induction fuel with
  | zero => intro segments buffer h; omega
  | succ fuel ih =>
    intro segments buffer hfuel
    obtain ⟨heq, -⟩ := fillBuffer_spec segments buffer
    have hfull := fillBuffer_full segments buffer
    simp only [streamLoop]
    cases hend : (fillBuffer segments buffer).2.2 with
    | true => rfl
    | false =>
      have hne : (fillBuffer segments buffer).1 ≠ [] := by
        intro hnil
        have := hfull hend
        rw [hnil] at this
        exact absurd this (by decide)
      obtain ⟨hpos, hle⟩ := nextChunkCut_bounds hne
      simp only [if_neg hne]
      refine ih _ _ ?_
      have hlen := congrArg List.length heq
      simp only [List.length_append, List.length_drop] at hlen hfuel ⊢
      omega

/-- **Streaming is chunking.** However the reader splits its content, the stream
hands out the chunks of the whole. -/
theorem streamChunks_eq {reader : Reader} (h : reader.failure = none) :
    streamChunks reader = (chunkContent reader.content, none) := by
  rw [streamChunks, h]
  exact streamLoop_eq _ _ _ (Nat.lt_succ_self _)

/-- **Chunking does not see how the content is read.** -/
theorem chunks_of_any_reader {reader : Reader} (h : reader.failure = none) :
    streamChunks reader = (chunkContent reader.content, none) ∧
      (chunkContent reader.content).flatten = reader.content ∧
      WellSized (chunkContent reader.content) :=
  ⟨streamChunks_eq h, flatten_chunkContent _, wellSized_chunkContent _⟩

/-- A reader that hands out two bytes one by one. -/
theorem chunks_of_two_reads :
    streamChunks ⟨[[104], [105]], none, by decide⟩ = ([[104, 105]], none) :=
  (@chunks_of_any_reader ⟨[[104], [105]], none, by decide⟩ rfl).1

/-- A stream that ends without an error has handed out the chunks of the content. -/
theorem streamChunks_ok (reader : Reader) (h : (streamChunks reader).2 = none) :
    (streamChunks reader).1 = chunkContent reader.content := by
  cases hf : reader.failure with
  | none => rw [streamChunks_eq hf]
  | some e =>
    have hfail : (streamLoop (some e) (reader.content.length + 1) reader.segments []).2 = some e :=
      streamLoop_failure _ _ _ (Nat.lt_succ_self _)
    rw [streamChunks, hf, hfail] at h
    cases h

end Gmeow
