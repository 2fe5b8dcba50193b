import Gmeow.Collecting

/-!
# A put beside repack

One `put` and one `repack` over the same store, in every interleaving: does every index
entry still name bytes that decode to its chunk?

`repack` takes the packs other than the active pack it saw first for sealed, and the
chunks it scanned for all there are. A `put` that fills the active pack and rotates to a
new one appends to a pack that `repack` then lists, finds no scanned chunk in, and
removes — between the `put`'s sync and its commit, or after it.

* `Decodes` — an index entry names bytes that decode to its chunk;
* `put_beside_repack` — the result, for schedules whose removals meet `RemovalOK`.
-/

namespace Gmeow

open Prog

variable {D : Type} [LinearOrder D] {E : Env D} {w w' : World D}

/-- An index entry names a pack that exists and whose bytes at the recorded place decode,
under the recorded dictionary, to a chunk of its hash. -/
def Decodes (E : Env D) (w : World D) (hash : D) (entry : ChunkIndexEntry D) : Prop :=
  ∃ raw dict chunk, readPackAt w.packs entry.packID entry.offset entry.length = .ok raw ∧
    dictionaryBytes w.dicts entry.dictID = some dict ∧ E.zstdDecode dict raw = some chunk ∧
    E.blake3Hex chunk = hash

theorem Stored.decodes {H : Bytes → Prop} {hash : D} {entry : ChunkIndexEntry D}
    {chunk dict : Bytes} (hz : E.ZstdLossless) (hs : Stored E H w hash entry chunk dict) :
    Decodes E w hash entry := by
  obtain ⟨pack, hpack, -, hle, hsynced, hslice⟩ := hs.pack
  refine ⟨E.zstdEncode dict chunk, dict, chunk, ?_, hs.chosen, hz dict chunk, hs.hash_eq⟩
  rw [readPackAt, hpack]
  dsimp only
  rw [if_pos (by omega)]
  exact congrArg _ hslice

/-- The removals of `repack` are in order. -/
def RemovalsInOrder (_ : World D) (known : Role → Observed D) : Role → Prim D → Prop
  | .maintenance, p => RemovalOK (known .maintenance) (known .put) p
  | .put, _ => True

instance (w : World D) (known : Role → Observed D) (i : Role) (p : Prim D) :
    Decidable (RemovalsInOrder w known i p) :=
  match i with
  | .maintenance => inferInstanceAs (Decidable (RemovalOK (known .maintenance) (known .put) p))
  | .put => .isTrue trivial

/-- What the two callers keep to. -/
def repackingPre (E : Env D) (request : PutRequest D) : Role → Observed D → Prim D → Prop
  | .put => storing E (E.blake3Hex request.reader.content)
  | .maintenance => (repackContract E).pre

/-- **A `put` beside `repack`.** In every interleaving whose removals are in order, every
index entry names a pack that exists and bytes that decode to its chunk. -/
theorem put_beside_repack {request : PutRequest D} {w : World D} (hz : E.ZstdLossless)
    (hs : Sound E (fun _ => True) w) {schedule : List Role}
    (horder : Pool.AllSteps (handle E) learn RemovalsInOrder (beside E request .repack w)
      schedule) {hash : D} {entry : ChunkIndexEntry D}
    (hget : (runBeside E request .repack w schedule).state.db.chunks.get hash = some entry) :
    Decodes E (runBeside E request .repack w schedule).state hash entry := by
  have hstep : ∀ w₁ known i p r w₂,
      (RepackInv E (fun _ => True) w₁ (known .maintenance) (known .put) ∧
        ((known .put).commits = [] → (known .put).stored = [])) →
      repackingPre E request i (known i) p → RemovalsInOrder w₁ known i p →
      handle E p w₁ = some (r, w₂) →
      (objectContract E none).post p r ∧
        RepackInv E (fun _ => True) w₂ (Function.update known i (learn (known i) p r) .maintenance)
          (Function.update known i (learn (known i) p r) .put) ∧
        ((Function.update known i (learn (known i) p r) .put).commits = [] →
          (Function.update known i (learn (known i) p r) .put).stored = []) := by
    rintro w₁ known i p r w₂ ⟨hi, hwait⟩ hpre hcond hp
    refine ⟨handle_objectContract none hp, ?_⟩
    cases i with
    | put =>
      rw [Function.update_self, Function.update_of_ne (by decide)]
      by_cases hdb : p.footprint = .db
      · cases p with
        | commit writes =>
          cases hp
          exact ⟨hi.put_commit_step hpre.1 (hwait hpre.2.first)
              (by rw [hpre.2.recipes]; exact List.cons_ne_nil _ _),
            fun hnil => absurd hnil (List.cons_ne_nil _ _)⟩
        | _ => cases hdb
      · have hrm : p.isRemoval = false := by
          cases p with
          | removePack id => exact hpre.1.elim
          | _ => rfl
        refine ⟨hi.put_quiet_step hdb hrm hpre.1 hp, ?_⟩
        rw [learn_stored _ _ hdb, learn_commits _ _ hdb]
        exact hwait
    | maintenance =>
      rw [Function.update_self, Function.update_of_ne (by decide)]
      exact ⟨hi.repack_step hpre hcond hp, hwait⟩
  obtain ⟨⟨hi, -⟩, -⟩ := Pool.invariant (Q := fun _ _ _ => True) hstep schedule
    (beside E request .repack w)
    (fun i => by
      cases i
      · exact (put_storing request).mono fun _ _ _ => trivial
      · exact obeys_void (repack_obeys []))
    ⟨.start hs, fun _ => rfl⟩ horder
  obtain ⟨chunk, dict, hstored⟩ := hi.chunks hash entry hget
  exact hstored.decodes hz

/-- A store whose active pack is full and holds nothing live. -/
def fullPack : World Nat where
  packs := OrdMap.set ∅ 0
    { bytes := List.replicate packTargetBytes 0, synced := packTargetBytes, linked := true }
  active := some (0, packTargetBytes)

theorem fullPack_sound : Sound plainEnv (fun _ => True) fullPack := by
  have hpack : ∀ {id pack}, fullPack.packs.get id = some pack →
      id = 0 ∧ pack.bytes = List.replicate packTargetBytes 0 ∧ pack.synced = packTargetBytes := by
    intro id pack hget
    rw [fullPack, OrdMap.get_set] at hget
    split at hget
    · cases hget
      exact ⟨‹_›, rfl, rfl⟩
    · cases hget
  refine ⟨⟨fun id pack hget => ?_, fun id size hactive => ?_⟩, ?_, ?_, ?_, ?_, ?_, ?_⟩
  · obtain ⟨-, hbytes, hsynced⟩ := hpack hget
    rw [hbytes, hsynced, List.length_replicate]
  · cases hactive
    exact ⟨⟨_, OrdMap.get_set_self .., List.length_replicate⟩,
      fun other pack hget => (hpack hget).1.le⟩
  · intro _ h; cases h
  · intro _ _ h; cases h
  · intro _ _ h; cases h
  · intro _ _ h; cases h
  · intro _ _ h; cases h
  · intro _ h; cases h

/-- The `put` rotates to pack 1 after `repack` has seen pack 0 active; `repack` removes
pack 1 between the `put`'s sync and its commit. -/
theorem put_beside_repack_dangles :
    ∃ schedule,
      let pool := runBeside plainEnv smallRequest .repack fullPack schedule
      (pool.threads .put).prog = .ret (some (numeral (utf8 "a"))) ∧
      (pool.threads .maintenance).prog = .ret none ∧
      ∃ entry, pool.state.db.chunks.get (numeral (utf8 "a")) = some entry ∧
        pool.state.packs.has entry.packID = false := by
  let schedule : List Role := List.replicate 2 .maintenance ++ List.replicate 16 .put ++
    List.replicate 12 .maintenance ++ List.replicate 5 .put
  have heval : (
      let pool := runBeside plainEnv smallRequest .repack fullPack schedule
      decide ((pool.threads .put).prog.returned = some (some (numeral (utf8 "a")))) &&
      decide ((pool.threads .maintenance).prog.returned = some none) &&
      (pool.state.db.chunks.get (numeral (utf8 "a"))).any fun entry =>
        !pool.state.packs.has entry.packID) = true := by
    decide +kernel
  simp only [Bool.and_eq_true, decide_eq_true_eq] at heval
  obtain ⟨⟨hput, hrepack⟩, hentry⟩ := heval
  obtain ⟨entry, hget, hgone⟩ := (Option.any_eq_true _ _).mp hentry
  exact ⟨schedule, eq_ret_of_returned hput, eq_ret_of_returned hrepack, entry, hget,
    by simpa using hgone⟩

/-- Once the `put` has rotated, `repack` sees pack 1 active and removes pack 0 only. -/
theorem put_beside_repack_rotated :
    ∃ schedule, let pool := runBeside plainEnv smallRequest .repack fullPack schedule
      pool.state.packs.has 0 = false ∧
      ∃ entry, pool.state.db.chunks.get (numeral (utf8 "a")) = some entry ∧
        Decodes plainEnv pool.state (numeral (utf8 "a")) entry := by
  let schedule : List Role := List.replicate 8 .put ++ List.replicate 14 .maintenance ++
    List.replicate 16 .put
  have heval : (
      let pool := runBeside plainEnv smallRequest .repack fullPack schedule
      Pool.checkSteps (handle plainEnv) learn RemovalsInOrder
        (beside plainEnv smallRequest .repack fullPack) schedule &&
      !pool.state.packs.has 0 && (pool.state.db.chunks.get (numeral (utf8 "a"))).isSome) = true := by
    decide +kernel
  simp only [Bool.and_eq_true, Bool.not_eq_true'] at heval
  obtain ⟨⟨hsteps, hgone⟩, hsome⟩ := heval
  obtain ⟨entry, hget⟩ := Option.isSome_iff_exists.mp hsome
  exact ⟨schedule, hgone, entry, hget, put_beside_repack plainEnv_lossless fullPack_sound
    (Pool.allSteps_of_check hsteps) hget⟩

end Gmeow
