import Gmeow.ChunkStore
import Gmeow.Runs

/-!
# Calls of a streaming reader

Whoever opens an object with a digest to verify calls `Read` as often as they like, with buffers of
any size, and other writers change the store between the calls. The digest is compared once, when
the recipe is used up.

* `Session`, `call` — a reader with the bytes it has handed out; each call finds a store of its own;
* `Handing` — what is handed out, pending and hashed at every point of a session;
* `eof_is_whole` — as long as nobody goes on reading behind a mismatch, `io.EOF` means that the
  whole content was handed out and has the digest; behind a mismatch the next call answers `io.EOF`
  all the same (`eof_behind_mismatch`).
-/

namespace Gmeow.RecipeReader

open Prog Runs

variable {D : Type} [LinearOrder D] {E : Env D}

/-- A content that `readChunk` returns for a hash, in some state of the store. -/
def Returned (E : Env D) (hash : D) (chunk : Bytes) : Prop :=
  ∃ w w', (readChunk E hash).run (handle E) w = some (.ok (.ok chunk), w')

/-- A reader in use: what it has handed out, and what it answered last. -/
structure Session (D : Type) : Type where
  reader : ChunkRecipeReader D
  out : Bytes := []
  answer : Option ReadOutcome := none

/-- The reader that `openBlobReader` returns. -/
def Session.opened (hashes : List D) (digest : D) : Session D where
  reader := { hashes := hashes, verifyDigest := some digest }

/-- The bytes of an answer. -/
def bytesOf : ReadOutcome → Bytes
  | .bytes got => got
  | .eof => []
  | .error _ => []

/-- A call of `Read` with a buffer of some size, in a state of the store. -/
def call (E : Env D) (s : Session D) (c : Nat × World D) : Option (Session D) :=
  match (s.reader.read E c.1).run (handle E) c.2 with
  | some (.ok (outcome, reader), _) =>
    some { reader := reader, out := s.out ++ bytesOf outcome, answer := some outcome }
  | _ => none

/-- The bytes are the whole content of the recipe and have the digest. -/
structure Whole (E : Env D) (hashes : List D) (digest : D) (out : Bytes) : Prop where
  content : ∃ chunks, List.Forall₂ (Returned E) hashes chunks ∧ out = chunks.flatten
  hashed : E.blake3Hex out = digest

/-- The reader has not reported a mismatch. -/
def Unspoilt (E : Env D) (s : Session D) (_ : Nat × World D) : Prop :=
  s.reader.verified = true → s.reader.verifyDigest = some (E.blake3Hex s.reader.hasher)

instance (E : Env D) (s : Session D) (c : Nat × World D) : Decidable (Unspoilt E s c) :=
  inferInstanceAs (Decidable (s.reader.verified = true →
    s.reader.verifyDigest = some (E.blake3Hex s.reader.hasher)))

/-! ## What a call does -/

/-- The bytes that were fetched; where fetching failed, none were. -/
def bytesIn : Except String Bytes → Bytes
  | .ok chunk => chunk
  | .error _ => []

/-- What the loop of `Read` fetches: chunks for the first of the hashes, of which only the last one
has bytes, and no bytes only at the end or on a failure. -/
structure Fetched (E : Env D) (hashes : List D) (hasher : Bytes)
    (result : Except String Bytes × List D × Bytes) : Prop where
  chunks : ∃ read chunks, hashes = read ++ result.2.1 ∧ List.Forall₂ (Returned E) read chunks ∧
    chunks.flatten = bytesIn result.1
  hashed : result.2.2 = hasher ++ bytesIn result.1
  atEnd : result.1 = .ok [] → result.2.1 = []

variable {hashes : List D} {digest : D} {s : Session D}
  {result : Except String Bytes × List D × Bytes}

theorem Fetched.cons_nil {hash : D} {hasher : Bytes} (h : Fetched E hashes hasher result)
    (hreturned : Returned E hash []) : Fetched E (hash :: hashes) hasher result := by
  obtain ⟨⟨read, chunks, rfl, hall, hflat⟩, hhashed, hend⟩ := h
  exact ⟨⟨hash :: read, [] :: chunks, rfl, .cons hreturned hall, hflat⟩, hhashed, hend⟩

/-- Chunks are read up to the first one with bytes, or the first that fails. What is handed out has
gone to the hasher. -/
theorem fetchPending_fetched (hashes : List D) (hasher : Bytes) (w : World D) :
    (fetchPending E true hashes hasher).wlp (handle E) w fun r _ =>
      ∀ result, r = .ok result → Fetched E hashes hasher result := by
  induction hashes generalizing hasher w with
  | nil =>
    rintro result ⟨⟩
    exact ⟨⟨[], [], rfl, .nil, rfl⟩, (List.append_nil _).symm, fun _ => rfl⟩
  | cons hash rest ih =>
    rw [fetchPending]
    refine wlp_bind.mpr (wlp_of_run ?_)
    rintro (e | e | chunk) w' hrun
    · exact nofun
    · rintro result ⟨⟩
      exact ⟨⟨[], [], rfl, .nil, rfl⟩, (List.append_nil _).symm, nofun⟩
    · have hreturned : Returned E hash chunk := ⟨w, w', hrun⟩
      dsimp only [after]
      by_cases hempty : chunk = []
      · -- an empty chunk: the loop goes on
        rw [if_pos rfl, if_pos hempty, hempty, List.append_nil]
        rw [hempty] at hreturned
        exact wlp_mono (ih hasher w') fun r _ h result hr => (h result hr).cons_nil hreturned
      · rw [if_pos rfl, if_neg hempty]
        rintro result ⟨⟩
        refine ⟨⟨[hash], [chunk], rfl, .cons hreturned .nil, ?_⟩, rfl, fun hnil => ?_⟩
        · rw [List.flatten_singleton, bytesIn]
        · exact absurd (Except.ok.inj hnil) hempty

/-! ## What holds throughout a session -/

/-- The chunks fetched so far are what was handed out and what is pending, and were hashed; the
digest has been compared only at the end. -/
structure Handing (E : Env D) (hashes : List D) (digest : D) (s : Session D) : Prop where
  chunks : ∃ read chunks, hashes = read ++ s.reader.hashes ∧
    List.Forall₂ (Returned E) read chunks ∧ chunks.flatten = s.out ++ s.reader.pending
  hasher : s.reader.hasher = s.out ++ s.reader.pending
  verifies : s.reader.verifyDigest = some digest
  verified : s.reader.verified = true → s.reader.hashes = [] ∧ s.reader.pending = []

theorem Handing.opened (hashes : List D) (digest : D) :
    Handing E hashes digest (Session.opened hashes digest) where
  chunks := ⟨[], [], rfl, .nil, rfl⟩
  hasher := rfl
  verifies := rfl
  verified := nofun

/-- With nothing pending and nothing to fetch, everything was handed out. -/
theorem Handing.whole (h : Handing E hashes digest s) (hhashes : s.reader.hashes = [])
    (hpending : s.reader.pending = []) (hhashed : E.blake3Hex s.reader.hasher = digest) :
    Whole E hashes digest s.out := by
  obtain ⟨read, chunks, hread, hall, hflat⟩ := h.chunks
  have hhasher := h.hasher
  rw [hhashes, List.append_nil] at hread
  rw [hpending, List.append_nil] at hflat hhasher
  exact ⟨⟨chunks, hread ▸ hall, hflat.symm⟩, hhasher ▸ hhashed⟩

/-- Fetching keeps it. -/
theorem Handing.fetch (h : Handing E hashes digest s) (hpending : s.reader.pending = [])
    (hresult : Fetched E s.reader.hashes s.reader.hasher result) :
    Handing E hashes digest { s with reader := { s.reader with
      hashes := result.2.1, hasher := result.2.2, pending := bytesIn result.1 } } := by
  obtain ⟨⟨read', chunks', hread', hall', hflat'⟩, hhashed, -⟩ := hresult
  obtain ⟨read, chunks, hread, hall, hflat⟩ := h.chunks
  have hhasher := h.hasher
  rw [hpending, List.append_nil] at hflat hhasher
  refine ⟨⟨read ++ read', chunks ++ chunks', ?_, List.rel_append hall hall', ?_⟩, ?_, h.verifies, ?_⟩
  · rw [hread, hread', List.append_assoc]
  · rw [List.flatten_append, hflat, hflat']
  · rw [hhashed, hhasher]
  · intro hverified
    obtain ⟨hnone, -⟩ := h.verified hverified
    rw [hnone] at hread'
    obtain ⟨rfl, hrest⟩ := List.append_eq_nil_iff.mp hread'.symm
    cases hall'
    exact ⟨hrest, hflat'.symm⟩

/-- What a call leaves. -/
structure Called (E : Env D) (hashes : List D) (digest : D) (s : Session D) : Prop
    extends Handing E hashes digest s where
  eof : s.answer = some .eof → Whole E hashes digest s.out

/-- A session behind one more answer. -/
def Session.next (s : Session D) (result : ReadOutcome × ChunkRecipeReader D) : Session D where
  reader := result.2
  out := s.out ++ bytesOf result.1
  answer := some result.1

/-- The end of a call: what is pending is handed out, or the digest is compared. -/
theorem Handing.handOut (reader : ChunkRecipeReader D) {pending : Bytes}
    (h : Handing E hashes digest { s with reader := { reader with pending := pending } })
    (hend : pending = [] → reader.hashes = [])
    (hunspoilt : reader.verified = true → E.blake3Hex reader.hasher = digest)
    (hnone : reader.pending = []) (size : Nat) (w : World D) :
    (reader.handOut E pending size).wlp (handle E) w fun r _ =>
      ∀ result, r = .ok result → Called E hashes digest (s.next result) := by
  rw [ChunkRecipeReader.handOut]
  by_cases hempty : pending = []
  · have hverifies : reader.verifyDigest = some digest := h.verifies
    rw [if_neg (not_not.mpr hempty), hverifies]
    subst hempty
    have hsame : { reader with pending := [] } = reader := by rw [← hnone]
    rw [hsame] at h
    have hnothing : s.out ++ bytesOf .eof = s.out := List.append_nil _
    have hverified : Handing E hashes digest
        { s with reader := { reader with verified := true } } :=
      ⟨h.chunks, h.hasher, h.verifies, fun _ => ⟨hend rfl, hnone⟩⟩
    cases hchecked : reader.verified with
    | true =>
      rintro result ⟨⟩
      rw [Session.next, hnothing]
      exact ⟨⟨h.chunks, h.hasher, h.verifies, h.verified⟩,
        fun _ => h.whole (hend rfl) hnone (hunspoilt hchecked)⟩
    | false =>
      refine wlp_ask_bind ?_
      rintro actual w' ⟨⟩
      split
      · rintro result ⟨⟩
        rw [Session.next, bytesOf, List.append_nil]
        exact ⟨⟨h.chunks, h.hasher, rfl, hverified.verified⟩, nofun⟩
      · rename_i hmatch
        rintro result ⟨⟩
        rw [Session.next, hnothing]
        exact ⟨⟨h.chunks, h.hasher, rfl, hverified.verified⟩,
          fun _ => h.whole (hend rfl) hnone (not_not.mp hmatch)⟩
  · rw [if_pos hempty]
    rintro result ⟨⟩
    obtain ⟨read, chunks, hread, hall, hflat⟩ := h.chunks
    have hsplit : s.out ++ pending.take size ++ pending.drop size = s.out ++ pending := by
      rw [List.append_assoc, List.take_append_drop]
    refine ⟨⟨⟨read, chunks, hread, hall, hflat.trans hsplit.symm⟩, h.hasher.trans hsplit.symm,
      h.verifies, fun hverified => ?_⟩, nofun⟩
    exact absurd (h.verified hverified).2 hempty

/-- **Each call keeps what holds of the session**, unless it follows a mismatch. -/
theorem Called.call {s' : Session D} {c : Nat × World D} (h : Called E hashes digest s)
    (hcall : Runs.within (Unspoilt E) (call E) s c = some s') : Called E hashes digest s' := by
  obtain ⟨hunspoilt, hcall⟩ := within_eq_some.mp hcall
  have hchecked : s.reader.verified = true → E.blake3Hex s.reader.hasher = digest := fun hverified =>
    (Option.some.inj (h.verifies.symm.trans (hunspoilt hverified))).symm
  have hread : (s.reader.read E c.1).wlp (handle E) c.2 fun r _ =>
      ∀ result, r = .ok result → Called E hashes digest (s.next result) := by
    rw [ChunkRecipeReader.read, h.verifies]
    by_cases hpending : s.reader.pending = []
    · rw [if_pos hpending]
      refine wlp_bind.mpr (wlp_mono (fetchPending_fetched _ _ _) ?_)
      rintro (e | result) w' hfetched
      · exact nofun
      · obtain ⟨got, rest, hasher⟩ := result
        have hresult := hfetched _ rfl
        have hhanding := h.toHanding.fetch hpending hresult
        cases got with
        | error e =>
          rintro result ⟨⟩
          rw [Session.next, bytesOf, List.append_nil, ← h.verifies]
          exact ⟨⟨hhanding.chunks, hhanding.hasher, hhanding.verifies, hhanding.verified⟩, nofun⟩
        | ok pending =>
          rw [← h.verifies]
          refine Handing.handOut _ hhanding (fun hnil => ?_) (fun hverified => ?_) rfl c.1 w'
          · exact hresult.atEnd (congrArg Except.ok hnil)
          · -- a reader that has compared the digest has nothing left to fetch
            rw [← hchecked hverified]
            have hhasher := hhanding.hasher
            obtain ⟨-, hnil⟩ := hhanding.verified hverified
            dsimp only at hhasher hnil
            rw [hhasher, hnil, h.hasher, hpending]
    · rw [if_neg hpending, ← h.verifies]
      exact Handing.handOut { s.reader with pending := [] } h.toHanding
        (fun hnil => absurd hnil hpending) hchecked rfl c.1 c.2
  rw [RecipeReader.call] at hcall
  split at hcall
  · rename_i outcome reader w' hrun
    cases hcall
    exact wlp_run hread hrun _ rfl
  · cases hcall

/-- **`io.EOF` means that everything was handed out**, with the digest that was asked for, in every
session in which nobody reads on behind a mismatch. -/
theorem eof_is_whole {hashes : List D} {digest : D} {calls : List (Nat × World D)} {s : Session D}
    (hrun : exec (Runs.within (Unspoilt E) (call E)) (Session.opened hashes digest) calls = some s)
    (heof : s.answer = some .eof) : Whole E hashes digest s.out := by
  have hopened : Called E hashes digest (Session.opened hashes digest) :=
    ⟨Handing.opened hashes digest, nofun⟩
  exact (exec_invariant (fun h hcall => Called.call h hcall) hopened hrun).eof heof

/-- A store that has a chunk of two bytes in its cache. -/
def cachedWorld : World Nat where
  chunkCache := [(plainEnv.blake3Hex [1, 2], [1, 2])]

/-- The chunk is read in two calls; the third one is the end. -/
theorem eof_is_whole_cached :
    Whole plainEnv [plainEnv.blake3Hex [1, 2]] (plainEnv.blake3Hex [1, 2]) [1, 2] :=
  have hrun : exec (Runs.within (Unspoilt plainEnv) (call plainEnv))
      (Session.opened [plainEnv.blake3Hex [1, 2]] (plainEnv.blake3Hex [1, 2]))
      [(1, cachedWorld), (8, cachedWorld), (8, cachedWorld)] =
        some ⟨⟨[], [], some (plainEnv.blake3Hex [1, 2]), [1, 2], true⟩, [1, 2], some .eof⟩ := rfl
  eof_is_whole hrun rfl

/-- A recipe without chunks, opened with the digest of another content: the mismatch is reported
once, then the reader is at its end. -/
theorem eof_behind_mismatch :
    ((exec (call plainEnv) (Session.opened [] (plainEnv.blake3Hex [1])) [(8, {}), (8, {})]).map
        fun s => (s.answer, s.out)) = some (some .eof, []) ∧
      ¬ Whole plainEnv [] (plainEnv.blake3Hex [1]) [] := by
  refine ⟨rfl, fun h => ?_⟩
  exact absurd h.hashed (by decide)

end Gmeow.RecipeReader
