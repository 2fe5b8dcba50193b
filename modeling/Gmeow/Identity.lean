import Gmeow.Calls

/-!
# File digests and compound digests

`Put` keeps an object under the hash of its content, `PutCompound` under the hash of its
prefixed id, both in one key space. A file whose content is the prefixed id of a compound
therefore has the compound's digest, and the two calls merge into one manifest.

* `Mixes` — a call that merges a file and a compound;
* `never_mixed_iff` — a sequence of calls has none exactly when no content in it is the
  prefixed id of a compound in it.
-/

namespace Gmeow

open Prog

variable {D : Type} [LinearOrder D] {E : Env D} {w w' : World D}

/-! ## Sequences of ingestions -/

/-- `Put` or `PutCompound`. -/
inductive Ingestion (D : Type) [LinearOrder D] : Type where
  | file : PutRequest D → Ingestion D
  | compound : CompoundPutRequest D → Ingestion D

/-- The call, and the digest it returns. -/
def Ingestion.prog (E : Env D) : Ingestion D → Proc D D
  | .file request => put E request
  | .compound request => putCompound E request

/-- What is hashed into the digest. -/
def Ingestion.identity : Ingestion D → Bytes
  | .file request => request.reader.content
  | .compound request => compoundIdentity (trimSpace request.objectID)

/-- The identity strategy of the manifest the call hands in. -/
def Ingestion.strategy : Ingestion D → IdentityStrategy
  | .file _ => .fileBlake3
  | .compound _ => .compoundStableID

/-- Successful ingestions one after the other: their digests and the store after them. -/
def runIngestions (E : Env D) : List (Ingestion D) → World D → Option (List D × World D)
  | [], w => some ([], w)
  | op :: rest, w =>
    match runAlone E (op.prog E) w with
    | some (.ok digest, w₁) => (runIngestions E rest w₁).map fun out => (digest :: out.1, out.2)
    | _ => none

/-- The call finds a manifest of the other strategy under its digest, and merges into it. -/
def Mixes (E : Env D) (w : World D) (op : Ingestion D) : Prop :=
  ∃ existing, w.db.manifests.get (E.blake3Hex op.identity) = some existing ∧
    existing.identityStrategy ≠ op.strategy

/-- No call of the sequence mixes a file and a compound. -/
def NeverMixed (E : Env D) : List (Ingestion D) → World D → Prop
  | [], _ => True
  | op :: rest, w => ¬Mixes E w op ∧
    ∀ digest w₁, runAlone E (op.prog E) w = some (.ok digest, w₁) → NeverMixed E rest w₁

/-- No content of the sequence is the prefixed id of a compound of the sequence. -/
def Apart (calls : List (Ingestion D)) : Prop :=
  ∀ file compound, Ingestion.file file ∈ calls → Ingestion.compound compound ∈ calls →
    file.reader.content ≠ compoundIdentity (trimSpace compound.objectID)

/-! ## One ingestion -/

theorem WrittenOver.strategy {m : Meta D} {digest : D} {incoming manifest : Manifest D} {now : Time}
    (h : WrittenOver m digest incoming now manifest) :
    manifest.identityStrategy = ((m.manifests.get digest).map fun existing =>
      existing.identityStrategy).getD incoming.identityStrategy := by
  obtain ⟨size, rfl⟩ := h
  rw [Meta.merged]
  cases m.manifests.get digest <;> rfl

/-- A successful ingestion returns the hash of its identity and writes the manifest there;
an existing manifest keeps its strategy. -/
theorem Ingestion.writes (op : Ingestion D) {digest : D}
    (h : runAlone E (op.prog E) w = some (.ok digest, w')) :
    digest = E.blake3Hex op.identity ∧ ∃ manifest,
      w'.db.manifests = w.db.manifests.set digest manifest ∧
      manifest.identityStrategy = ((w.db.manifests.get digest).map fun existing =>
        existing.identityStrategy).getD op.strategy := by
  cases op with
  | file request =>
    have h : runAlone E (put E request) w = some (.ok digest, w') := h
    obtain ⟨-, ⟨_, heq, -⟩ | ⟨heq, -, c₁, manifest, -, hover, hupdated⟩⟩ := (put_does request).run h
    · cases heq
    · cases heq
      exact ⟨rfl, manifest, hupdated.manifests, hover.strategy⟩
  | compound request =>
    have h : runAlone E (putCompound E request) w = some (.ok digest, w') := h
    obtain ⟨-, ⟨_, heq, -⟩ | ⟨c₁, m₁, manifest, -, hover, hupdated, -, hadded, hdigest⟩⟩ :=
      (putCompound_does request).run h
    · cases heq
    · obtain ⟨rfl, -⟩ := hdigest digest rfl
      refine ⟨rfl, manifest, ?_, hover.strategy⟩
      rw [hadded.outside.manifests (by decide), hupdated.manifests]

/-! ## Sequences -/

theorem runIngestions_cons {op : Ingestion D} {rest : List (Ingestion D)} {digests : List D}
    (h : runIngestions E (op :: rest) w = some (digests, w')) :
    ∃ digest w₁ digests', runAlone E (op.prog E) w = some (.ok digest, w₁) ∧
      runIngestions E rest w₁ = some (digests', w') := by
  rw [runIngestions] at h
  split at h
  · rename_i digest w₁ hrun
    obtain ⟨⟨digests', w₂⟩, hrest, heq⟩ := Option.map_eq_some_iff.mp h
    cases heq
    exact ⟨digest, w₁, digests', hrun, hrest⟩
  · cases h

/-- Strategies stay as they are, and if nothing was mixed every call's manifest has the
call's own. -/
theorem NeverMixed.strategies :
    ∀ {calls : List (Ingestion D)} {w : World D} {digests : List D}, NeverMixed E calls w →
      runIngestions E calls w = some (digests, w') →
      (∀ digest existing, w.db.manifests.get digest = some existing → ∃ manifest,
        w'.db.manifests.get digest = some manifest ∧
          manifest.identityStrategy = existing.identityStrategy) ∧
      ∀ op ∈ calls, ∃ manifest, w'.db.manifests.get (E.blake3Hex op.identity) = some manifest ∧
        manifest.identityStrategy = op.strategy := by
  intro calls
  induction calls with
  | nil =>
    intro w digests _ h
    cases h
    exact ⟨fun _ existing hget => ⟨existing, hget, rfl⟩, fun _ hmem => nomatch hmem⟩
  | cons op rest ih =>
    intro w digests hmixed h
    obtain ⟨digest, w₁, digests', hrun, hrest⟩ := runIngestions_cons h
    obtain ⟨rfl, written, hset, hstrategy⟩ := op.writes hrun
    obtain ⟨hkept, hrest⟩ := ih (hmixed.2 _ w₁ hrun) hrest
    -- what is under the call's digest now has the call's strategy
    have hown : written.identityStrategy = op.strategy := by
      rw [hstrategy]
      cases hget : w.db.manifests.get (E.blake3Hex op.identity) with
      | none => rfl
      | some existing => exact not_not.mp fun hne => hmixed.1 ⟨existing, hget, hne⟩
    refine ⟨fun other existing hget => ?_, fun call hmem => ?_⟩
    · by_cases heq : other = E.blake3Hex op.identity
      · subst heq
        rw [hget] at hstrategy
        obtain ⟨manifest, hmanifest, hsame⟩ := hkept _ written (by rw [hset, OrdMap.get_set_self])
        exact ⟨manifest, hmanifest, hsame.trans hstrategy⟩
      · exact hkept other existing (by rw [hset, OrdMap.get_set_ne _ _ heq, hget])
    · rcases List.mem_cons.mp hmem with rfl | hmem
      · obtain ⟨manifest, hmanifest, hsame⟩ := hkept _ written (by rw [hset, OrdMap.get_set_self])
        exact ⟨manifest, hmanifest, hsame.trans hown⟩
      · exact hrest call hmem

/-- Calls of one digest and different strategies are a file and a compound of it. -/
theorem Apart.same_strategy {calls : List (Ingestion D)} (h : Apart calls)
    (hinj : Function.Injective E.blake3Hex) {first second : Ingestion D} (hfirst : first ∈ calls)
    (hsecond : second ∈ calls) (heq : E.blake3Hex first.identity = E.blake3Hex second.identity) :
    first.strategy = second.strategy := by
  have heq := hinj heq
  cases first with
  | file file =>
    cases second with
    | file other => rfl
    | compound compound => exact absurd heq (h file compound hfirst hsecond)
  | compound compound =>
    cases second with
    | file file => exact absurd heq.symm (h file compound hsecond hfirst)
    | compound other => rfl

/-- Every manifest has the strategy of a call made before. -/
theorem Apart.neverMixed (hinj : Function.Injective E.blake3Hex) :
    ∀ {calls : List (Ingestion D)} (done : List (Ingestion D)) {w : World D},
      Apart (done ++ calls) →
      (∀ digest manifest, w.db.manifests.get digest = some manifest → ∃ op ∈ done,
        E.blake3Hex op.identity = digest ∧ op.strategy = manifest.identityStrategy) →
      NeverMixed E calls w := by
  intro calls
  induction calls with
  | nil => exact fun _ _ _ _ => trivial
  | cons op rest ih =>
    intro done w hapart hdone
    have hop : op ∈ done ++ op :: rest := List.mem_append_right _ (List.mem_cons_self ..)
    refine ⟨?_, fun digest w₁ hrun => ?_⟩
    · rintro ⟨existing, hget, hne⟩
      obtain ⟨earlier, hmem, hdigest, hstrategy⟩ := hdone _ existing hget
      exact hne (hstrategy.symm.trans
        (hapart.same_strategy hinj (List.mem_append_left _ hmem) hop hdigest))
    · have happend : done ++ op :: rest = (done ++ [op]) ++ rest := by simp
      refine ih (done ++ [op]) (happend ▸ hapart) fun other manifest hget => ?_
      obtain ⟨rfl, written, hset, hstrategy⟩ := op.writes hrun
      rw [hset, OrdMap.get_set] at hget
      split at hget
      · rename_i heq
        cases hget
        cases hold : w.db.manifests.get (E.blake3Hex op.identity) with
        | none =>
          rw [hold] at hstrategy
          exact ⟨op, List.mem_append_right _ (List.mem_singleton_self _), heq.symm, hstrategy.symm⟩
        | some existing =>
          rw [hold] at hstrategy
          obtain ⟨earlier, hmem, hdigest, hsame⟩ := hdone _ existing hold
          exact ⟨earlier, List.mem_append_left _ hmem, hdigest.trans heq.symm,
            hsame.trans hstrategy.symm⟩
      · obtain ⟨earlier, hmem, hdigest, hsame⟩ := hdone other manifest hget
        exact ⟨earlier, List.mem_append_left _ hmem, hdigest, hsame⟩

/-- **Files and compounds are apart exactly when no content is a prefixed id.** With BLAKE3
injective: a `Put` and a `PutCompound` return different digests exactly when the content is
not the prefixed id; and a sequence of successful calls on an empty store never merges a
file manifest with a compound manifest exactly when no content in it is the prefixed id of a
compound in it. -/
theorem never_mixed_iff (hinj : Function.Injective E.blake3Hex) :
    (∀ (file : PutRequest D) (compound : CompoundPutRequest D) (w₁ w₁' w₂ w₂' : World D)
      (digest digest' : D), runAlone E (put E file) w₁ = some (.ok digest, w₁') →
      runAlone E (putCompound E compound) w₂ = some (.ok digest', w₂') →
      (digest ≠ digest' ↔
        file.reader.content ≠ compoundIdentity (trimSpace compound.objectID))) ∧
    ∀ (calls : List (Ingestion D)) (clock : Nat → Time) (digests : List D) (w : World D),
      runIngestions E calls { clock := clock } = some (digests, w) →
      (NeverMixed E calls { clock := clock } ↔ Apart calls) := by
  refine ⟨fun file compound w₁ w₁' w₂ w₂' digest digest' hfile hcompound => ?_,
    fun calls clock digests w hrun => ⟨fun hmixed => ?_, fun hapart => ?_⟩⟩
  · obtain ⟨rfl, -⟩ := (Ingestion.file file).writes hfile
    obtain ⟨rfl, -⟩ := (Ingestion.compound compound).writes hcompound
    exact not_congr hinj.eq_iff
  · intro file compound hfile hcompound heq
    obtain ⟨-, hstrategies⟩ := hmixed.strategies hrun
    obtain ⟨manifest, hget, hstrategy⟩ := hstrategies _ hfile
    obtain ⟨manifest', hget', hstrategy'⟩ := hstrategies _ hcompound
    have hsame : E.blake3Hex (Ingestion.file file).identity =
        E.blake3Hex (Ingestion.compound compound).identity := congrArg E.blake3Hex heq
    rw [hsame, hget'] at hget
    cases hget
    cases hstrategy.symm.trans hstrategy'
  · exact Apart.neverMixed hinj [] hapart fun _ _ hget => nomatch hget

/-! ## A file that is the id of a compound -/

/-- The file with the text `compound:x`, and the compound with the id `x`. -/
def aliasIngestions : List (Ingestion Nat) :=
  [.file { reader := .short (utf8 "compound:x") short_compound, facets := [{ kind := "file" }] },
    .compound { objectID := "x", facets := [{ kind := "message" }] }]

/-- Both get one digest, and the second call merges into the manifest of the first: the
record is a file by its strategy and a compound by its parts. -/
theorem file_and_compound_mixed :
    ∃ digest w manifest, runIngestions plainEnv aliasIngestions {} = some ([digest, digest], w) ∧
      w.db.manifests.get digest = some manifest ∧ manifest.identityStrategy = .fileBlake3 ∧
      manifest.compound.isCompound = true ∧ ¬NeverMixed plainEnv aliasIngestions {} := by
  let digest := plainEnv.blake3Hex (utf8 "compound:x")
  have heval : (runIngestions plainEnv aliasIngestions {}).any (fun out =>
      decide (out.1 = [digest, digest]) && (out.2.db.manifests.get digest).any fun manifest =>
        decide (manifest.identityStrategy = .fileBlake3) && manifest.compound.isCompound) = true := by
    decide +kernel
  obtain ⟨⟨digests, w⟩, hrun, hout⟩ := (Option.any_eq_true _ _).mp heval
  rw [Bool.and_eq_true, decide_eq_true_eq] at hout
  obtain ⟨rfl, hout⟩ := hout
  obtain ⟨manifest, hget, hout⟩ := (Option.any_eq_true _ _).mp hout
  rw [Bool.and_eq_true, decide_eq_true_eq] at hout
  refine ⟨digest, w, manifest, hrun, hget, hout.1, hout.2, fun hmixed => ?_⟩
  obtain ⟨-, hstrategies⟩ := hmixed.strategies hrun
  obtain ⟨other, hother, hstrategy⟩ := hstrategies (.compound _) (List.mem_cons_of_mem _
    (List.mem_singleton_self _))
  have hidentity : compoundIdentity (trimSpace "x") = utf8 "compound:x" := by decide +kernel
  have hsame : some manifest = some other := by
    rw [← hget, ← hother]
    exact congrArg (fun identity => w.db.manifests.get (plainEnv.blake3Hex identity)) hidentity.symm
  cases hsame
  cases hout.1.symm.trans hstrategy

/-- The same file, and the compound with the id `y`. -/
def apartIngestions : List (Ingestion Nat) :=
  [.file { reader := .short (utf8 "compound:x") short_compound, facets := [{ kind := "file" }] },
    .compound { objectID := "y", facets := [{ kind := "message" }] }]

theorem never_mixed_iff_apart :
    (∃ out, runIngestions plainEnv apartIngestions {} = some out) ∧
      NeverMixed plainEnv apartIngestions {} := by
  have hsome : (runIngestions plainEnv apartIngestions {}).isSome = true := by decide +kernel
  obtain ⟨out, hrun⟩ := Option.isSome_iff_exists.mp hsome
  refine ⟨⟨out, hrun⟩, ((never_mixed_iff numeral_injective).2 apartIngestions _ out.1 out.2
    hrun).mpr ?_⟩
  intro file compound hfile hcompound
  have hne : utf8 "compound:x" ≠ compoundIdentity (trimSpace "y") := by decide +kernel
  rcases List.mem_cons.mp hfile with heq | hfile
  · cases heq
    rcases List.mem_cons.mp hcompound with heq | hcompound
    · cases heq
    · cases List.mem_singleton.mp hcompound
      exact hne
  · cases List.mem_singleton.mp hfile

end Gmeow
