import Gmeow.Text

/-!
# The self-healing sweep

When the scheduler is idle it walks a chunk of the corpus from a cursor on and enqueues the
analyses that are missing. The cursor is the digest of the last object of the chunk, as its
manifest has it, and the next chunk begins with that object again; a chunk that is not full ends
the corpus, and the cursor starts over.

* `nextStart`, `Swept` — windows of a size over a line of positions, each beginning with the last
  position of the one before;
* `healChunk` over a `Corpus` with objects whose manifest cannot be read, `sweepCalls` — calls in
  a row;
* `chunk_passes`, `chunk_cursor` — a chunk is a window;
* `sweep_covers_iff` — in `2 n + 2` calls every object without findings comes by, whatever the
  cursor, if and only if no unreadable manifest ends a chunk in front of such an object, and the
  chunks are larger than one or have nothing to advance to.
-/

namespace Gmeow

/-! ## Windows over a line -/

section Windows

/-- Where the next window begins: at the last position of this one, or at the beginning. -/
def nextStart (k n : Nat) (restart : Nat → Bool) (p : Nat) : Nat :=
  if n < p + k then 0 else if restart (p + k - 1) then 0 else p + k - 1

/-- A position is in one of the first windows. -/
def Swept (k n : Nat) (restart : Nat → Bool) (m p i : Nat) : Prop :=
  ∃ t < m, (nextStart k n restart)^[t] p ≤ i ∧ i < (nextStart k n restart)^[t] p + k

variable {k n i p m : Nat} {restart : Nat → Bool}

theorem Swept.here (hle : p ≤ i) (hlt : i < p + k) : Swept k n restart (m + 1) p i :=
  ⟨0, Nat.succ_pos m, hle, hlt⟩

theorem Swept.later (h : Swept k n restart m (nextStart k n restart p) i) :
    Swept k n restart (m + 1) p i := by
  obtain ⟨t, ht, hin⟩ := h
  exact ⟨t + 1, Nat.succ_lt_succ ht, hin⟩

theorem swept_succ_iff : Swept k n restart (m + 1) p i ↔
    (p ≤ i ∧ i < p + k) ∨ Swept k n restart m (nextStart k n restart p) i := by
  constructor
  · rintro ⟨t, ht, hin⟩
    cases t with
    | zero => exact Or.inl hin
    | succ t => exact Or.inr ⟨t, Nat.lt_of_succ_lt_succ ht, hin⟩
  · rintro (⟨hle, hlt⟩ | hlater)
    · exact .here hle hlt
    · exact .later hlater

theorem Swept.mono {m' : Nat} (h : Swept k n restart m p i) (hle : m ≤ m') :
    Swept k n restart m' p i := by
  obtain ⟨t, ht, hin⟩ := h
  exact ⟨t, ht.trans_le hle, hin⟩

/-- Windows from the beginning on reach a position that no restart comes before. -/
theorem swept_from_multiple (hk : 2 ≤ k) (hi : i < n)
    (hfree : ∀ j, 1 ≤ j → j * (k - 1) < i → restart (j * (k - 1)) = false) :
    ∀ (left j : Nat), i - j * (k - 1) ≤ left → j * (k - 1) ≤ i →
      Swept k n restart (left + 1) (j * (k - 1)) i := by
  intro left
  induction left with
  | zero =>
    intro j hleft hle
    exact .here hle (by omega)
  | succ left ih =>
    intro j hleft hle
    by_cases hin : i < j * (k - 1) + k
    · exact .here hle hin
    · -- the window ends before the position, so the next one begins at its end
      have hnext : (j + 1) * (k - 1) = j * (k - 1) + k - 1 := by
        rw [Nat.succ_mul]
        omega
      have hstart : nextStart k n restart (j * (k - 1)) = (j + 1) * (k - 1) := by
        rw [nextStart, if_neg (by omega), ← hnext, hfree (j + 1) (by omega) (by omega)]
        rfl
      refine .later ?_
      rw [hstart]
      exact ih (j + 1) (by omega) (by omega)

/-- Windows come back to the beginning. -/
theorem swept_of_start (hk : 2 ≤ k) (hstart : Swept k n restart m 0 i) :
    ∀ (left p : Nat), n - p ≤ left → Swept k n restart (left + 1 + m) p i := by
  intro left
  induction left with
  | zero =>
    intro p hleft
    rw [Nat.zero_add, Nat.add_comm]
    refine .later ?_
    rwa [nextStart, if_pos (by omega)]
  | succ left ih =>
    intro p hleft
    have hcount : left + 1 + 1 + m = left + 1 + m + 1 := by omega
    rw [hcount]
    refine .later ?_
    rw [nextStart]
    split
    · exact hstart.mono (by omega)
    · split
      · exact hstart.mono (by omega)
      · exact ih (p + k - 1) (by omega)

/-- **A sweep is complete**: two rounds are enough, from wherever it begins. -/
theorem swept_of_free (hk : 2 ≤ k) (hi : i < n)
    (hfree : ∀ j, 1 ≤ j → j * (k - 1) < i → restart (j * (k - 1)) = false) (p : Nat) :
    Swept k n restart (2 * n + 2) p i := by
  have hstart : Swept k n restart (i + 1) 0 i := by
    have h := swept_from_multiple hk hi hfree i 0 (by omega) (by omega)
    rwa [Nat.zero_mul] at h
  exact (swept_of_start hk hstart n p (by omega)).mono (by omega)

/-- **A sweep is stuck** in front of a restart, when it begins at the beginning. -/
theorem not_swept_of_restart {j : Nat} (hj : 1 ≤ j) (hi : j * (k - 1) < i) (hk : 1 ≤ k)
    (hrestart : restart (j * (k - 1)) = true) (m : Nat) : ¬ Swept k n restart m 0 i := by
  -- every window begins at a multiple before the restart
  have hinv : ∀ t, ∃ l < j, (nextStart k n restart)^[t] 0 = l * (k - 1) := by
    intro t
    induction t with
    | zero => exact ⟨0, hj, (Nat.zero_mul _).symm⟩
    | succ t ih =>
      obtain ⟨l, hl, heq⟩ := ih
      have hnext : (l + 1) * (k - 1) = l * (k - 1) + k - 1 := by
        rw [Nat.succ_mul]
        omega
      rw [Function.iterate_succ_apply', heq, nextStart]
      split
      · exact ⟨0, hj, (Nat.zero_mul _).symm⟩
      · split
        · exact ⟨0, hj, (Nat.zero_mul _).symm⟩
        · rename_i hgo
          rw [← hnext] at hgo ⊢
          refine ⟨l + 1, lt_of_le_of_ne hl fun heq => ?_, rfl⟩
          rw [heq] at hgo
          exact hgo hrestart
  rintro ⟨t, -, -, hlt⟩
  obtain ⟨l, hl, heq⟩ := hinv t
  rw [heq] at hlt
  have hmul : (l + 1) * (k - 1) ≤ j * (k - 1) := Nat.mul_le_mul_right _ hl
  rw [Nat.succ_mul] at hmul
  omega

/-- Windows of one position do not advance. -/
theorem not_swept_one (hp : p = 0 ∨ p < n ∧ restart p = false) (hne : i ≠ p) (m : Nat) :
    ¬ Swept 1 n restart m p i := by
  have hfixed : nextStart 1 n restart p = p := by
    rw [nextStart]
    rcases hp with rfl | ⟨hlt, hgo⟩
    · split
      · rfl
      · split
        · rfl
        · rfl
    · rw [if_neg (by omega), Nat.add_sub_cancel, hgo]
      rfl
  rintro ⟨t, -, hle, hlt⟩
  rw [Function.iterate_fixed hfixed] at hle hlt
  omega

end Windows

/-! ## The sweep -/

/-- An object as `WalkProjection` hands it out. -/
structure SweptObject : Type where
  /-- the digest it is stored under -/
  digest : String
  /-- `manifest_read_failed`: the manifest is left empty -/
  unreadable : Bool := false
  /-- `annotation_read_failed` -/
  annotationsUnreadable : Bool := false

namespace SweptObject

/-- Whether it has findings. -/
def findings (object : SweptObject) : Bool := object.unreadable || object.annotationsUnreadable

/-- `object.Manifest.ObjectDigest`. -/
def manifestDigest (object : SweptObject) : String :=
  if object.unreadable then "" else object.digest

end SweptObject

/-- What a chunk keeps while it walks, with the objects passed to `jobsForObject`. -/
structure ChunkWalk : Type where
  count : Nat := 0
  started : Bool := false
  lastDigest : String := ""
  passed : List String := []

/-- The walk of `selfHealChunk`; no publish fails. -/
def walkChunk (startPos : String) (chunkSize : Nat) : List SweptObject → ChunkWalk → ChunkWalk
  | [], walk => walk
  | object :: rest, walk =>
    if !walk.started && object.manifestDigest < startPos then walkChunk startPos chunkSize rest walk
    else if walk.count ≥ chunkSize then { walk with started := true }
    else
      walkChunk startPos chunkSize rest
        { count := walk.count + 1, started := true, lastDigest := object.manifestDigest
          passed := if object.findings then walk.passed else walk.passed ++ [object.digest] }

/-- `SelfHealChunkSize` as `NewService` sets it. -/
def selfHealChunkSize (configured : Int) : Nat := if configured ≤ 0 then 500 else configured.toNat

/-- `selfHealChunk`: the objects passed on, and the cursor for the next call. -/
def healChunk (chunkSize : Nat) (objects : List SweptObject) (sweepPos : String) :
    List String × String :=
  let walk := walkChunk sweepPos chunkSize objects { }
  (walk.passed, if walk.count < chunkSize then "" else walk.lastDigest)

/-- The objects passed on by calls in a row. -/
def sweepCalls (chunkSize : Nat) (objects : List SweptObject) : Nat → String → List String
  | 0, _ => []
  | calls + 1, sweepPos =>
    let out := healChunk chunkSize objects sweepPos
    out.1 ++ sweepCalls chunkSize objects calls out.2

/-- The objects of the store, in the order of their keys. -/
structure Corpus : Type where
  objects : List SweptObject
  ascending : objects.Pairwise fun earlier later => earlier.digest < later.digest
  named : ∀ object ∈ objects, object.digest ≠ ""

/-! ## A chunk is a window -/

section Chunk

variable {startPos : String} {chunkSize : Nat}

/-- The objects of a list that are passed on. -/
def passedOf (objects : List SweptObject) : List String :=
  (objects.filter fun object => !object.findings).map SweptObject.digest

theorem passedOf_cons (object : SweptObject) (rest : List SweptObject) :
    passedOf (object :: rest) =
      (if object.findings then [] else [object.digest]) ++ passedOf rest := by
  rw [passedOf, List.filter_cons, passedOf]
  cases object.findings with
  | true => rfl
  | false => rfl

/-- A walk that has started takes the objects that come until the chunk is full. -/
theorem walkChunk_started : ∀ (objects : List SweptObject) (walk : ChunkWalk),
    walk.started = true → walk.count ≤ chunkSize →
      (walkChunk startPos chunkSize objects walk).passed =
        walk.passed ++ passedOf (objects.take (chunkSize - walk.count)) ∧
      (walkChunk startPos chunkSize objects walk).count =
        walk.count + (objects.take (chunkSize - walk.count)).length ∧
      (walkChunk startPos chunkSize objects walk).lastDigest =
        ((objects.take (chunkSize - walk.count)).getLast?.map SweptObject.manifestDigest).getD
          walk.lastDigest := by
  intro objects
  induction objects with
  | nil => simp [walkChunk, passedOf]
  | cons object rest ih =>
    intro walk hstarted hle
    rw [walkChunk, if_neg (by simp [hstarted])]
    split
    · rename_i hfull
      rw [Nat.sub_eq_zero_of_le hfull]
      simp [passedOf]
    · rename_i hroom
      obtain ⟨left, hleft⟩ : ∃ left, chunkSize - walk.count = left + 1 :=
        ⟨chunkSize - walk.count - 1, by omega⟩
      have hleft' : chunkSize - (walk.count + 1) = left := by omega
      obtain ⟨hpassed, hcount, hlast⟩ := ih
        { count := walk.count + 1, started := true, lastDigest := object.manifestDigest
          passed := if object.findings then walk.passed else walk.passed ++ [object.digest] }
        rfl (by dsimp only; omega)
      rw [hpassed, hcount, hlast, hleft]
      dsimp only
      rw [hleft', List.take_succ_cons, passedOf_cons, List.length_cons]
      refine ⟨?_, by omega, ?_⟩
      · rw [← List.append_assoc]
        cases object.findings with
        | true => rw [if_pos rfl, if_pos rfl, List.append_nil]
        | false => rfl
      · cases rest.take left with
        | nil => rfl
        | cons next more => rw [List.getLast?_cons_cons, List.getLast?_cons]; rfl

/-- A walk that has not started looks for the cursor. -/
theorem walkChunk_start (startPos : String) (chunkSize : Nat) (objects : List SweptObject) :
    (walkChunk startPos chunkSize objects { }).passed =
        (walkChunk startPos chunkSize
          (objects.dropWhile fun object => object.manifestDigest < startPos)
          { started := true }).passed ∧
      (walkChunk startPos chunkSize objects { }).count =
        (walkChunk startPos chunkSize
          (objects.dropWhile fun object => object.manifestDigest < startPos)
          { started := true }).count ∧
      (walkChunk startPos chunkSize objects { }).lastDigest =
        (walkChunk startPos chunkSize
          (objects.dropWhile fun object => object.manifestDigest < startPos)
          { started := true }).lastDigest := by
  induction objects with
  | nil => exact ⟨rfl, rfl, rfl⟩
  | cons object rest ih =>
    rw [List.dropWhile_cons]
    by_cases hbefore : object.manifestDigest < startPos
    · rw [if_pos (by simpa using hbefore), walkChunk, if_pos (by simpa using hbefore)]
      exact ih
    · have hsame : walkChunk startPos chunkSize (object :: rest) { } =
          walkChunk startPos chunkSize (object :: rest) { started := true } := by
        simp only [walkChunk, hbefore, decide_false, Bool.and_false, Bool.false_eq_true, if_false]
      rw [if_neg (by simpa using hbefore), hsame]
      exact ⟨rfl, rfl, rfl⟩

/-- The position of the cursor. -/
def cursorIndex (objects : List SweptObject) (sweepPos : String) : Nat :=
  objects.findIdx fun object => !decide (object.manifestDigest < sweepPos)

/-- **A chunk** passes on the objects of a window without findings. -/
theorem chunk_passes (objects : List SweptObject) (sweepPos : String) :
    (healChunk chunkSize objects sweepPos).1 =
      passedOf ((objects.drop (cursorIndex objects sweepPos)).take chunkSize) := by
  obtain ⟨hpassed, -, -⟩ := walkChunk_start sweepPos chunkSize objects
  rw [healChunk, hpassed, (walkChunk_started _ { started := true } rfl (Nat.zero_le _)).1,
    List.nil_append, Nat.sub_zero, List.dropWhile_eq_drop_findIdx_not, cursorIndex]

/-- The cursor after a chunk. -/
theorem chunk_cursor (objects : List SweptObject) (sweepPos : String) :
    (healChunk chunkSize objects sweepPos).2 =
      (let window := (objects.drop (cursorIndex objects sweepPos)).take chunkSize
       if window.length < chunkSize then ""
       else (window.getLast?.map SweptObject.manifestDigest).getD "") := by
  obtain ⟨-, hcount, hlast⟩ := walkChunk_start sweepPos chunkSize objects
  obtain ⟨-, hcount', hlast'⟩ := @walkChunk_started sweepPos chunkSize
    (objects.dropWhile fun object => object.manifestDigest < sweepPos) { started := true } rfl
    (Nat.zero_le _)
  rw [healChunk, hcount, hlast, hcount', hlast', Nat.sub_zero, Nat.zero_add,
    List.dropWhile_eq_drop_findIdx_not, cursorIndex]

end Chunk

/-! ## Calls in a row -/

namespace Corpus

variable (corpus : Corpus) (chunkSize : Nat)

/-- The number of objects. -/
def size : Nat := corpus.objects.length

/-- The positions whose manifest cannot be read. -/
def unreadableAt (e : Nat) : Bool := corpus.objects[e]?.any (·.unreadable)

variable {corpus chunkSize}

variable {object : SweptObject} {i : Nat}

theorem manifestDigest_lt {other : SweptObject} {j : Nat} (hij : i < j)
    (hi : corpus.objects[i]? = some object) (hj : corpus.objects[j]? = some other)
    (hreadable : other.unreadable = false) : object.manifestDigest < other.manifestDigest := by
  obtain ⟨hilt, rfl⟩ := List.getElem?_eq_some_iff.mp hi
  obtain ⟨hjlt, rfl⟩ := List.getElem?_eq_some_iff.mp hj
  have hlt := List.pairwise_iff_getElem.mp corpus.ascending i j hilt hjlt hij
  rw [SweptObject.manifestDigest, SweptObject.manifestDigest, hreadable]
  split
  · exact lt_of_le_of_ne (empty_le _) (corpus.named _ (List.getElem_mem hjlt)).symm
  · exact hlt

/-- The cursor of an object that can be read is its position. -/
theorem cursorIndex_digest {e : Nat} (he : corpus.objects[e]? = some object)
    (hreadable : object.unreadable = false) :
    cursorIndex corpus.objects object.manifestDigest = e := by
  obtain ⟨hlt, heq⟩ := List.getElem?_eq_some_iff.mp he
  rw [cursorIndex, List.findIdx_eq hlt, heq]
  refine ⟨by simp, fun j hj => ?_⟩
  have hjlt : j < corpus.objects.length := hj.trans hlt
  have hbefore := manifestDigest_lt hj (List.getElem?_eq_getElem hjlt) he hreadable
  simpa using hbefore

/-- The empty cursor is the first position. -/
theorem cursorIndex_empty : cursorIndex corpus.objects "" = 0 := by
  rw [cursorIndex]
  cases corpus.objects with
  | nil => rfl
  | cons object rest =>
    have hnot : ¬ object.manifestDigest < "" := not_lt.mpr (empty_le _)
    rw [List.findIdx_cons, decide_eq_false hnot]
    rfl

/-- **The next chunk** begins where the next window does. -/
theorem cursorIndex_next (hk : 1 ≤ chunkSize) (sweepPos : String) :
    cursorIndex corpus.objects (healChunk chunkSize corpus.objects sweepPos).2 =
      nextStart chunkSize corpus.size corpus.unreadableAt (cursorIndex corpus.objects sweepPos) := by
  rw [chunk_cursor, nextStart]
  have hle : cursorIndex corpus.objects sweepPos ≤ corpus.size := List.findIdx_le_length
  generalize cursorIndex corpus.objects sweepPos = p at hle ⊢
  have hlength : ((corpus.objects.drop p).take chunkSize).length < chunkSize ↔
      corpus.size < p + chunkSize := by
    rw [List.length_take, List.length_drop, ← size]
    omega
  dsimp only
  by_cases hshort : corpus.size < p + chunkSize
  · rw [if_pos (hlength.mpr hshort), if_pos hshort]
    exact cursorIndex_empty
  · rw [if_neg (hlength.not.mpr hshort), if_neg hshort]
    have hlt : p + chunkSize - 1 < corpus.objects.length := by
      rw [← size]
      omega
    have hget := List.getElem?_eq_getElem hlt
    have hlast : ((corpus.objects.drop p).take chunkSize).getLast? =
        some corpus.objects[p + chunkSize - 1] := by
      have hlen : ((corpus.objects.drop p).take chunkSize).length = chunkSize := by
        rw [List.length_take, List.length_drop, ← size]
        omega
      have hindex : p + (chunkSize - 1) = p + chunkSize - 1 := by omega
      rw [List.getLast?_eq_getElem?, hlen, List.getElem?_take_of_lt (by omega), List.getElem?_drop,
        hindex, hget]
    rw [hlast, unreadableAt, hget, Option.any_some, Option.map_some, Option.getD_some]
    cases hreadable : corpus.objects[p + chunkSize - 1].unreadable with
    | true =>
      have hempty : corpus.objects[p + chunkSize - 1].manifestDigest = "" := by
        rw [SweptObject.manifestDigest, hreadable]
        rfl
      rw [hempty]
      exact cursorIndex_empty
    | false => exact cursorIndex_digest hget hreadable

/-- Digests tell positions apart. -/
theorem index_unique {other : SweptObject} {j : Nat} (hi : corpus.objects[i]? = some object)
    (hj : corpus.objects[j]? = some other) (heq : object.digest = other.digest) : i = j := by
  obtain ⟨hilt, rfl⟩ := List.getElem?_eq_some_iff.mp hi
  obtain ⟨hjlt, rfl⟩ := List.getElem?_eq_some_iff.mp hj
  by_contra hne
  rcases Nat.lt_or_gt_of_ne hne with hlt | hgt
  · exact (List.pairwise_iff_getElem.mp corpus.ascending i j hilt hjlt hlt).ne heq
  · exact (List.pairwise_iff_getElem.mp corpus.ascending j i hjlt hilt hgt).ne heq.symm

/-- An object without findings is passed on by the windows it is in. -/
theorem mem_window_iff (hi : corpus.objects[i]? = some object) (hfindings : object.findings = false)
    (p : Nat) :
    object.digest ∈ passedOf ((corpus.objects.drop p).take chunkSize) ↔
      p ≤ i ∧ i < p + chunkSize := by
  rw [passedOf, List.mem_map]
  constructor
  · rintro ⟨other, hmem, heq⟩
    obtain ⟨j, hj⟩ := List.mem_iff_getElem?.mp (List.mem_filter.mp hmem).1
    by_cases hlt : j < chunkSize
    · rw [List.getElem?_take_of_lt hlt, List.getElem?_drop] at hj
      have hij := index_unique hi hj heq.symm
      omega
    · rw [List.getElem?_take_eq_none (by omega)] at hj
      cases hj
  · rintro ⟨hle, hlt⟩
    refine ⟨object, List.mem_filter.mpr ⟨List.mem_iff_getElem?.mpr ⟨i - p, ?_⟩, ?_⟩, rfl⟩
    · have hindex : p + (i - p) = i := by omega
      rw [List.getElem?_take_of_lt (by omega), List.getElem?_drop, hindex, hi]
    · rw [hfindings]
      rfl

/-- **Calls in a row** pass on the objects their windows sweep. -/
theorem mem_sweepCalls_iff (hi : corpus.objects[i]? = some object)
    (hfindings : object.findings = false) (hk : 1 ≤ chunkSize) :
    ∀ (calls : Nat) (sweepPos : String),
      object.digest ∈ sweepCalls chunkSize corpus.objects calls sweepPos ↔
        Swept chunkSize corpus.size corpus.unreadableAt calls
          (cursorIndex corpus.objects sweepPos) i := by
  intro calls
  induction calls with
  | zero =>
    intro sweepPos
    refine iff_of_false List.not_mem_nil ?_
    rintro ⟨t, ht, -⟩
    cases ht
  | succ calls ih =>
    intro sweepPos
    rw [sweepCalls, List.mem_append, chunk_passes, mem_window_iff hi hfindings, ih,
      cursorIndex_next hk, swept_succ_iff]

/-- What it takes for a sweep to come by every object without findings. -/
def Coverable (corpus : Corpus) (chunkSize : Nat) : Prop :=
  if chunkSize = 1 then
    (∀ object ∈ corpus.objects, object.findings = true) ∨
      ∀ object ∈ corpus.objects.tail, object.unreadable = true
  else
    ∀ i object, corpus.objects[i]? = some object → object.findings = false →
      ∀ j, 1 ≤ j → j * (chunkSize - 1) < i → corpus.unreadableAt (j * (chunkSize - 1)) = false

theorem selfHealChunkSize_pos (configured : Int) : 1 ≤ selfHealChunkSize configured := by
  rw [selfHealChunkSize]
  split
  · decide
  · omega

theorem unreadableAt_eq (hi : corpus.objects[i]? = some object) :
    corpus.unreadableAt i = object.unreadable := by
  rw [unreadableAt, hi, Option.any_some]

theorem lt_size (hi : corpus.objects[i]? = some object) :
    i < corpus.size := (List.getElem?_eq_some_iff.mp hi).1

/-- With chunks of one object the first object is all that is come by. -/
theorem swept_first (htail : ∀ other ∈ corpus.objects.tail, other.unreadable = true)
    (sweepPos : String) :
    Swept 1 corpus.size corpus.unreadableAt (2 * corpus.size + 2)
      (cursorIndex corpus.objects sweepPos) 0 := by
  have hle : cursorIndex corpus.objects sweepPos ≤ corpus.size := List.findIdx_le_length
  rcases Nat.eq_zero_or_pos (cursorIndex corpus.objects sweepPos) with hzero | hpos
  · rw [hzero]
    exact .here (le_refl _) (by omega)
  · -- the cursor is behind the first object, and no other object can be read
    have hend : cursorIndex corpus.objects sweepPos = corpus.size := by
      by_contra hne
      have hlt : cursorIndex corpus.objects sweepPos < corpus.objects.length := by
        rw [← size]
        omega
      have hfound : ¬ corpus.objects[cursorIndex corpus.objects sweepPos].manifestDigest <
          sweepPos := by
        have hget := List.findIdx_getElem (w := hlt)
        rw [Bool.not_eq_true'] at hget
        exact of_decide_eq_false hget
      have hunreadable : corpus.objects[cursorIndex corpus.objects sweepPos].unreadable = true := by
        refine htail _ (List.mem_iff_getElem?.mpr
          ⟨cursorIndex corpus.objects sweepPos - 1, ?_⟩)
        rw [List.getElem?_tail, Nat.sub_add_cancel hpos, List.getElem?_eq_getElem hlt]
      rw [SweptObject.manifestDigest, hunreadable, if_pos rfl] at hfound
      have hempty : sweepPos = "" := le_antisymm (not_lt.mp hfound) (empty_le _)
      rw [hempty, cursorIndex_empty] at hpos
      cases hpos
    refine .later ?_
    rw [hend, nextStart, if_pos (by omega)]
    exact .here (le_refl _) (by omega)

/-- **What a sweep comes by.** In `2 n + 2` calls, from whatever cursor, every object without
findings is passed to `jobsForObject`, if and only if: with chunks of more than one object, no
manifest that ends a chunk of the round from the beginning is unreadable in front of such an
object; with chunks of one, there is no such object or nothing else can be read. -/
theorem sweep_covers_iff (corpus : Corpus) (configured : Int) :
    (∀ sweepPos, ∀ object ∈ corpus.objects, object.findings = false →
        object.digest ∈ sweepCalls (selfHealChunkSize configured) corpus.objects
          (2 * corpus.size + 2) sweepPos) ↔
      corpus.Coverable (selfHealChunkSize configured) := by
  have hk := selfHealChunkSize_pos configured
  generalize selfHealChunkSize configured = k at hk ⊢
  rw [Coverable]
  split
  · rename_i hone
    subst hone
    constructor
    · intro hcovers
      by_contra hnot
      rw [not_or] at hnot
      obtain ⟨hsome, htail⟩ := hnot
      push Not at hsome htail
      obtain ⟨object, hmem, hfindings⟩ := hsome
      obtain ⟨other, hother, hreadable⟩ := htail
      rw [ne_eq, Bool.not_eq_true] at hfindings hreadable
      obtain ⟨i, hi⟩ := List.mem_iff_getElem?.mp hmem
      obtain ⟨p, hp⟩ := List.mem_iff_getElem?.mp hother
      rw [List.getElem?_tail] at hp
      by_cases hip : i = p + 1
      · -- the sweep stays at the first object
        have h := (mem_sweepCalls_iff hi hfindings hk _ "").mp (hcovers "" object hmem hfindings)
        rw [cursorIndex_empty] at h
        exact not_swept_one (Or.inl rfl) (by omega) _ h
      · have h := (mem_sweepCalls_iff hi hfindings hk _ other.manifestDigest).mp
          (hcovers other.manifestDigest object hmem hfindings)
        rw [cursorIndex_digest hp hreadable] at h
        exact not_swept_one (Or.inr ⟨lt_size hp, (unreadableAt_eq hp).trans hreadable⟩) hip _ h
    · rintro (hall | htail) sweepPos object hmem hfindings
      · exact absurd (hfindings.symm.trans (hall object hmem)) Bool.false_ne_true
      · obtain ⟨i, hi⟩ := List.mem_iff_getElem?.mp hmem
        cases i with
        | zero => exact (mem_sweepCalls_iff hi hfindings hk _ sweepPos).mpr (swept_first htail _)
        | succ i =>
          have hunreadable := htail object (List.mem_iff_getElem?.mpr
            ⟨i, by rw [List.getElem?_tail, hi]⟩)
          rw [SweptObject.findings, hunreadable, Bool.true_or] at hfindings
          cases hfindings
  · rename_i hne
    constructor
    · intro hcovers i object hi hfindings j hj hlt
      by_contra hunreadable
      rw [Bool.not_eq_false] at hunreadable
      have h := (mem_sweepCalls_iff hi hfindings hk _ "").mp
        (hcovers "" object (List.mem_of_getElem? hi) hfindings)
      rw [cursorIndex_empty] at h
      exact not_swept_of_restart hj hlt hk hunreadable _ h
    · intro hfree sweepPos object hmem hfindings
      obtain ⟨i, hi⟩ := List.mem_iff_getElem?.mp hmem
      exact (mem_sweepCalls_iff hi hfindings hk _ sweepPos).mpr
        (swept_of_free (by omega) (lt_size hi) (hfree i object hi hfindings) _)

/-- Two objects that can be read. -/
def twoObjects : Corpus :=
  ⟨[{ digest := "a" }, { digest := "b" }], by decide, by decide⟩

/-- Three objects, the second with an unreadable manifest. -/
def brokenBetween : Corpus :=
  ⟨[{ digest := "a" }, { digest := "b", unreadable := true }, { digest := "c" }], by decide,
    by decide⟩

/-- **The sweep is stuck**: with chunks of one object it never comes to the second, and with
chunks of two it never comes behind an unreadable manifest. -/
theorem sweep_stuck :
    "b" ∉ sweepCalls (selfHealChunkSize 1) twoObjects.objects (2 * twoObjects.size + 2) "" ∧
      "c" ∉ sweepCalls (selfHealChunkSize 2) brokenBetween.objects
        (2 * brokenBetween.size + 2) "" := by
  decide +kernel

end Corpus

end Gmeow
