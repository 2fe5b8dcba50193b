import Gmeow.Dictionary

/-!
# Training dictionaries

A chunk is compressed with the active dictionary of its family and remembers the id. The active
dictionaries come from the default seeds and from training, both of which write several files; any
of these writes may be the last one before a crash. All of them are synced but one: the trained
dictionary itself is written by `zstd`, and nothing syncs it. A power loss may take it away when its
registry record, its marker and chunks that need it are on disk.

* `DictWrite`, `bootstrapWrites`, `trainWrites` — the writes, in their order;
* `DictEvent`, `TrainingStore.step` — opens, bootstraps, training, chunk writes, reads, crashes and
  power losses;
* `Bound` — a registered id with the bytes of its file, which no write touches again;
* `LossSpared`, `dictionary_binding` — committed chunks find the bytes that they were compressed
  with exactly if each power loss spares the files they need;
* `dictionary_lost` — a power loss that does not.

The layout from before the registry (one marker for all families), which nothing writes any more, is
left out.
-/

namespace Gmeow

/-! ## Writes -/

/-- A write under `dictionaries/`. -/
inductive DictWrite : Type where
  | file (id : String) (bytes : Bytes) : DictWrite
  | registry (records : OrdMap String String) : DictWrite
  | marker (name id : String) : DictWrite

/-- The directory behind a write. -/
def DictWrite.apply (d : Dictionaries) : DictWrite → Dictionaries
  | .file id bytes => { d with files := d.files.set id bytes }
  | .registry records => { d with registry := records }
  | .marker name id => { d with current := d.current.set name id }

/-- The writes of `bootstrapDefaultDictionaries`: all files, the registry, all markers. -/
def bootstrapWrites (d : Dictionaries) : List DictWrite :=
  if hasDictionaryState d then []
  else defaultDictionarySeeds.map (fun seed => .file seed.id seed.bytes) ++
    .registry (defaultDictionarySeeds.foldl (fun m seed => m.set seed.id seed.family) ∅) ::
      defaultDictionarySeeds.map fun seed => .marker seed.family seed.id

/-- The loop of `nextDictionaryID`. -/
def maxDictionaryID : List String → Except String Nat
  | [] => .ok 0
  | id :: rest =>
    match parseUint32 id with
    | none => .error ("invalid dictionary id \"" ++ id ++ "\"")
    | some parsed => (maxDictionaryID rest).map (max parsed)

/-- `nextDictionaryID`. -/
def nextDictionaryID (d : Dictionaries) : Except String String :=
  (maxDictionaryID (d.registry.entries.map Prod.fst)).map fun maxID =>
    String.ofList (Nat.toDigits 10 (maxID + 1))

/-- The writes of `trainDictionaryFamily`. The file is written by `zstd`, not at once and not
synced: `torn` is what it holds in between. -/
def trainWrites (d : Dictionaries) (id family : String) (torn : List Bytes) (bytes : Bytes) :
    List DictWrite :=
  torn.map (.file id) ++ [.file id bytes, .registry (d.registry.set id family),
    .marker (sanitizeDictionaryFamily family) id]

/-! ## The store -/

/-- The dictionaries, the codecs of this process, and the chunks: ids with the bytes that were
used. -/
structure TrainingStore : Type where
  dicts : Dictionaries
  encoders : OrdMap String Bytes := ∅
  decoders : OrdMap String Bytes := ∅
  /-- compressed, not yet committed -/
  pending : List (String × Bytes) := []
  chunks : List (String × Bytes) := []
  /-- the ids whose files were written and not synced -/
  unsynced : List String := []

/-- `dictEncoder`; an encoder is the dictionary it was made with. -/
def TrainingStore.dictEncoder (store : TrainingStore) (id : String) (dict : Bytes) :
    Except String Bytes × TrainingStore :=
  match store.encoders.get id with
  | some used => (.ok used, store)
  | none =>
    if dict ≠ [] ∧ parseUint32 id = none then
      (.error ("invalid dictionary id \"" ++ id ++ "\""), store)
    else (.ok dict, { store with encoders := store.encoders.set id dict })

/-- `compressChunkContent`. -/
def TrainingStore.compress (store : TrainingStore) (family : String) : TrainingStore :=
  match activeDictionary store.dicts family with
  | (.error _, d) => { store with dicts := d }
  | (.ok (id, dict), d) =>
    match TrainingStore.dictEncoder { store with dicts := d } id dict with
    | (.error _, store) => store
    | (.ok used, store) => { store with pending := store.pending ++ [(id, used)] }

/-- `dictDecoder`. -/
def TrainingStore.dictDecoder (store : TrainingStore) (id : String) :
    Except String Bytes × TrainingStore :=
  match store.decoders.get id with
  | some dict => (.ok dict, store)
  | none =>
    if id = "" then (.ok [], { store with decoders := store.decoders.set id [] })
    else match store.dicts.files.get id with
      | none => (.error ("open dictionaries/" ++ id ++ ".dict: no such file or directory"), store)
      | some dict =>
        if parseUint32 id = none then
          (.error ("invalid dictionary id \"" ++ id ++ "\""), store)
        else (.ok dict, { store with decoders := store.decoders.set id dict })

/-- What can happen to a store. A bootstrap or a training stops behind so many writes, by an error
or by a crash; a crash is followed by `reopen`. -/
inductive DictEvent : Type where
  | reopen : DictEvent
  /-- what is left of each file that was not synced, if anything -/
  | powerLoss (left : String → Option Bytes) : DictEvent
  /-- an atomic write that a crash stops leaves its temporary file -/
  | litter (name text : String) : DictEvent
  /-- `ensureDictionaryBootstrap` -/
  | bootstrap (writes : Nat) : DictEvent
  /-- `trainDictionaryFamily` -/
  | train (family : String) (torn : List Bytes) (bytes : Bytes) (writes : Nat) : DictEvent
  /-- a chunk is compressed -/
  | compress (family : String) : DictEvent
  /-- a compressed chunk is committed -/
  | commit (chunk : Nat) : DictEvent
  /-- a committed chunk is read -/
  | read (chunk : Nat) : DictEvent

/-- A new process opens the store. -/
def TrainingStore.reopen (store : TrainingStore) : TrainingStore where
  dicts := { store.dicts with bootstrapped := false, active := none }
  chunks := store.chunks
  unsynced := store.unsynced

/-- The power is lost, and a new process opens the store. What it finds is on disk. -/
def TrainingStore.powerLoss (store : TrainingStore) (left : String → Option Bytes) :
    TrainingStore where
  dicts := { store.dicts with
    files := store.unsynced.foldl (fun files id => files.put id (left id)) store.dicts.files
    bootstrapped := false, active := none }
  chunks := store.chunks

/-- One event; nothing happens where it is not possible. -/
def TrainingStore.step (store : TrainingStore) : DictEvent → TrainingStore
  | .reopen => store.reopen
  | .powerLoss left => store.powerLoss left
  | .litter name text =>
    if store.dicts.current.get name = none then
      { store with dicts := DictWrite.apply store.dicts (.marker name text) }
    else store
  | .bootstrap writes =>
    if store.dicts.bootstrapped then store
    else
      let all := bootstrapWrites store.dicts
      let d := (all.take writes).foldl DictWrite.apply store.dicts
      { store with dicts := { d with bootstrapped := decide (all.length ≤ writes) } }
  | .train family torn bytes writes =>
    match nextDictionaryID store.dicts with
    | .error _ => store
    | .ok id =>
      let all := trainWrites store.dicts id family torn bytes
      let d := (all.take writes).foldl DictWrite.apply store.dicts
      let unsynced := if writes = 0 then store.unsynced else id :: store.unsynced
      if all.length ≤ writes then
        -- `reloadDictionaries`
        { store with
          dicts := { d with active := none }, encoders := ∅, decoders := ∅, unsynced := unsynced }
      else { store with dicts := d, unsynced := unsynced }
  | .compress family => store.compress family
  | .commit chunk =>
    match store.pending[chunk]? with
    | none => store
    | some compressed => { store with chunks := store.chunks ++ [compressed] }
  | .read chunk =>
    match store.chunks[chunk]? with
    | none => store
    | some stored => (store.dictDecoder stored.1).2

/-- The store behind some events. -/
def TrainingStore.run (store : TrainingStore) (events : List DictEvent) : TrainingStore :=
  events.foldl TrainingStore.step store

/-! ## Bindings -/

/-- No dictionary, or a registered one with the bytes of its file. -/
def Bound (d : Dictionaries) (id : String) (bytes : Bytes) : Prop :=
  (id = "" ∧ bytes = []) ∨
    (id ≠ "" ∧ bytes ≠ [] ∧ d.files.get id = some bytes ∧
      ∃ family, d.registry.get id = some family)

/-- A codec can be made of it. -/
def Usable (d : Dictionaries) (id : String) (bytes : Bytes) : Prop :=
  Bound d id bytes ∧ (bytes ≠ [] → parseUint32 id ≠ none)

/-- What is bound stays so. -/
def KeepsBound (d d' : Dictionaries) : Prop := ∀ id bytes, Bound d id bytes → Bound d' id bytes

variable {d d' : Dictionaries} {id : String} {bytes : Bytes}

theorem Bound.unique {other : Bytes} (h : Bound d id bytes) (hother : Bound d id other) :
    bytes = other := by
  rcases h with ⟨hid, rfl⟩ | ⟨hid, -, hfile, -⟩ <;>
    rcases hother with ⟨hid', rfl⟩ | ⟨hid', -, hfile', -⟩
  · rfl
  · exact absurd hid hid'
  · exact absurd hid' hid
  · exact Option.some.inj (hfile.symm.trans hfile')

theorem KeepsBound.refl (d : Dictionaries) : KeepsBound d d := fun _ _ h => h

theorem KeepsBound.trans {d'' : Dictionaries} (h : KeepsBound d d') (h' : KeepsBound d' d'') :
    KeepsBound d d'' := fun id bytes hbound => h' id bytes (h id bytes hbound)

theorem KeepsBound.usable (h : KeepsBound d d') (husable : Usable d id bytes) :
    Usable d' id bytes :=
  ⟨h id bytes husable.1, husable.2⟩

/-- A write that leaves what is bound alone: files of ids that are not registered, and registries
that keep all ids. -/
def DictWrite.Safe (d : Dictionaries) : DictWrite → Prop
  | .file id _ => d.registry.get id = none
  | .registry records => ∀ id family, d.registry.get id = some family →
      ∃ family', records.get id = some family'
  | .marker _ _ => True

theorem DictWrite.Safe.keeps {write : DictWrite} (h : write.Safe d) :
    KeepsBound d (write.apply d) := by
  rintro id bytes (hnone | ⟨hid, hne, hfile, family, hfamily⟩)
  · exact .inl hnone
  · refine .inr ⟨hid, hne, ?_⟩
    cases write with
    | file other new =>
      have hother : id ≠ other := by
        rintro rfl
        exact absurd (hfamily.symm.trans h) nofun
      exact ⟨(OrdMap.get_set_ne _ _ hother).trans hfile, family, hfamily⟩
    | registry records => exact ⟨hfile, h id family hfamily⟩
    | marker name text => exact ⟨hfile, family, hfamily⟩

/-- All writes are safe where they are made. -/
def SafeWrites : Dictionaries → List DictWrite → Prop
  | _, [] => True
  | d, write :: rest => write.Safe d ∧ SafeWrites (write.apply d) rest

/-- **However many of the writes are made, what is bound stays bound.** -/
theorem SafeWrites.keeps {writes : List DictWrite} (h : SafeWrites d writes) (n : Nat) :
    KeepsBound d ((writes.take n).foldl DictWrite.apply d) := by
  induction writes generalizing d n with
  | nil => rw [List.take_nil]; exact .refl d
  | cons write rest ih =>
    cases n with
    | zero => exact .refl d
    | succ n => exact h.1.keeps.trans (ih h.2 n)

/-- Files may be written before anything else as long as their ids are not registered. -/
theorem safeWrites_files {ι : Type} (id : ι → String) (bytes : ι → Bytes) {rest : List DictWrite}
    (items : List ι) : ∀ d : Dictionaries, (∀ item ∈ items, d.registry.get (id item) = none) →
      (∀ d' : Dictionaries, d'.registry = d.registry → SafeWrites d' rest) →
      SafeWrites d (items.map (fun item => .file (id item) (bytes item)) ++ rest) := by
  induction items with
  | nil => exact fun d _ hrest => hrest d rfl
  | cons item items ih =>
    intro d hitems hrest
    exact ⟨hitems item List.mem_cons_self, ih _ (fun other hother =>
      hitems other (List.mem_cons_of_mem _ hother)) hrest⟩

theorem safeWrites_markers (markers : List (String × String)) :
    ∀ d : Dictionaries, SafeWrites d (markers.map fun marker => .marker marker.1 marker.2) := by
  induction markers with
  | nil => exact fun _ => trivial
  | cons marker markers ih => exact fun d => ⟨trivial, ih _⟩

/-! ## The bootstrap -/

theorem registry_empty (h : hasDictionaryState d = false) : d.registry = ∅ := by
  simp only [hasDictionaryState, Bool.or_eq_false_iff, Bool.not_eq_false', List.isEmpty_iff] at h
  refine OrdMap.ext_get fun id => ?_
  rw [OrdMap.get, h.1.1]
  rfl

theorem safeWrites_bootstrap (d : Dictionaries) : SafeWrites d (bootstrapWrites d) := by
  unfold bootstrapWrites
  split
  · trivial
  · rename_i hstate
    have hnone : ∀ id, d.registry.get id = none := by
      intro id
      rw [registry_empty (Bool.eq_false_iff.mpr hstate)]
      exact OrdMap.get_empty id
    refine safeWrites_files _ _ _ d (fun seed _ => hnone seed.id) fun d' hd' => ⟨?_, ?_⟩
    · intro id family hfamily
      rw [hd', hnone id] at hfamily
      cases hfamily
    · have hmarkers := safeWrites_markers
        (defaultDictionarySeeds.map fun seed => (seed.family, seed.id))
      rw [List.map_map] at hmarkers
      exact hmarkers _

/-- The writes of the bootstrap make what `bootstrapDefaultDictionaries` says. -/
theorem foldl_bootstrapWrites (d : Dictionaries) :
    (bootstrapWrites d).foldl DictWrite.apply d = bootstrapDefaultDictionaries d := by
  unfold bootstrapWrites bootstrapDefaultDictionaries
  split
  · rfl
  · rename_i hstate
    have hfiles : ∀ (seeds : List DefaultDictionary) (d : Dictionaries),
        (seeds.map fun seed => DictWrite.file seed.id seed.bytes).foldl DictWrite.apply d =
          { d with files := seeds.foldl (fun m seed => m.set seed.id seed.bytes) d.files } := by
      intro seeds
      induction seeds with
      | nil => exact fun d => rfl
      | cons seed seeds ih => exact fun d => ih _
    have hmarkers : ∀ (seeds : List DefaultDictionary) (d : Dictionaries),
        (seeds.map fun seed => DictWrite.marker seed.family seed.id).foldl DictWrite.apply d =
          { d with current := seeds.foldl (fun m s => m.set s.family s.id) d.current } := by
      intro seeds
      induction seeds with
      | nil => exact fun d => rfl
      | cons seed seeds ih => exact fun d => ih _
    have hinstall : ∀ (seeds : List DefaultDictionary) (d : Dictionaries),
        seeds.foldl installDictionary d =
          { d with
            files := seeds.foldl (fun m seed => m.set seed.id seed.bytes) d.files
            registry := seeds.foldl (fun m seed => m.set seed.id seed.family) d.registry
            current := seeds.foldl (fun m seed => m.set seed.family seed.id) d.current } := by
      intro seeds
      induction seeds with
      | nil => exact fun d => rfl
      | cons seed seeds ih => exact fun d => ih _
    rw [List.foldl_append, List.foldl_cons, hfiles, hmarkers, hinstall,
      registry_empty (Bool.eq_false_iff.mpr hstate)]
    rfl

theorem keepsBound_ensure (d : Dictionaries) : KeepsBound d (ensureDictionaryBootstrap d) := by
  unfold ensureDictionaryBootstrap
  split
  · exact .refl d
  · have hkeeps := (safeWrites_bootstrap d).keeps (bootstrapWrites d).length
    rw [List.take_length, foldl_bootstrapWrites] at hkeeps
    exact hkeeps

/-! ## Training -/

/-- Every id is a number up to the maximum, since any other one is an error. -/
theorem le_maxDictionaryID {ids : List String} {maxID : Nat} (h : maxDictionaryID ids = .ok maxID)
    (hid : id ∈ ids) : ∃ n ≤ maxID, parseUint32 id = some n := by
  induction ids generalizing maxID with
  | nil => cases hid
  | cons first rest ih =>
    rw [maxDictionaryID] at h
    cases hparse : parseUint32 first with
    | none => simp [hparse] at h
    | some parsed =>
      cases hrest : maxDictionaryID rest with
      | error e => simp [hparse, hrest, Except.map] at h
      | ok most =>
        simp only [hparse, hrest, Except.map, Except.ok.injEq] at h
        rcases List.mem_cons.mp hid with rfl | hid
        · exact ⟨parsed, h ▸ le_max_left _ _, hparse⟩
        · obtain ⟨n, hn, hparse⟩ := ih hrest hid
          exact ⟨n, h ▸ hn.trans (le_max_right _ _), hparse⟩

/-- What is read from the digits of a number is this number. -/
theorem parseUint32_digits {n m : Nat}
    (h : parseUint32 (String.ofList (Nat.toDigits 10 n)) = some m) : m = n := by
  unfold parseUint32 at h
  split at h
  · cases h
  · simp only [String.toList_ofList] at h
    change (if Nat.ofDigitChars 10 (Nat.toDigits 10 n) 0 < 2 ^ 32 then
      some (Nat.ofDigitChars 10 (Nat.toDigits 10 n) 0) else none) = some m at h
    rw [Nat.ofDigitChars_ten_toDigits] at h
    exact (Option.some.inj (Option.ite_none_right_eq_some.mp h).2).symm

/-- **The next id is not registered.** -/
theorem nextDictionaryID_fresh (h : nextDictionaryID d = .ok id) : d.registry.get id = none := by
  unfold nextDictionaryID at h
  cases hmax : maxDictionaryID (d.registry.entries.map Prod.fst) with
  | error e => simp [hmax, Except.map] at h
  | ok maxID =>
    simp only [hmax, Except.map, Except.ok.injEq] at h
    cases hget : d.registry.get id with
    | none => rfl
    | some family =>
      have hin : id ∈ d.registry.entries.map Prod.fst :=
        List.mem_map.mpr ⟨(id, family), OrdMap.mem_entries_iff.mpr hget, rfl⟩
      obtain ⟨n, hn, hparse⟩ := le_maxDictionaryID hmax hin
      rw [← h] at hparse
      have := parseUint32_digits hparse
      omega

/-- Training writes a file under a new id, so no dictionary in use is overwritten. -/
theorem safeWrites_train (h : nextDictionaryID d = .ok id) (family : String) (torn : List Bytes)
    (bytes : Bytes) : SafeWrites d (trainWrites d id family torn bytes) := by
  have hfresh := nextDictionaryID_fresh h
  have hgrows : ∀ other found, d.registry.get other = some found →
      ∃ found', (d.registry.set id family).get other = some found' := by
    intro other found hfound
    rw [OrdMap.get_set]
    split
    · exact ⟨_, rfl⟩
    · exact ⟨found, hfound⟩
  refine safeWrites_files (fun _ => id) (fun bytes => bytes) torn d (fun _ _ => hfresh) ?_
  intro d' hd'
  refine ⟨?_, ?_, trivial, trivial⟩
  · rw [DictWrite.Safe, hd']
    exact hfresh
  · intro other found hfound
    exact hgrows other found (hd' ▸ hfound)

/-! ## Active dictionaries -/

/-- What a marker names is bound. -/
theorem sourced_bound : Sourced Bound where
  empty _ := .inl ⟨rfl, rfl⟩
  marker h := .inr (loadActiveDictionaryMarker_spec h)
  bootstrap h := keepsBound_ensure _ _ _ h
  reload h _ := h

/-- The loaded set of a directory, if there is one, is bound. -/
def LoadedBound (d : Dictionaries) : Prop := LoadedAll Bound d

theorem LoadedBound.keeps (h : LoadedBound d) (hkeeps : KeepsBound d d')
    (hactive : d'.active = d.active) : LoadedBound d' := by
  intro active hsome family id bytes hget
  exact hkeeps id bytes (h active (hactive ▸ hsome) family id bytes hget)

/-! ## Runs -/

/-- Whatever names a dictionary names one that is bound. -/
structure TrainingStore.Binds (store : TrainingStore) : Prop where
  loaded : LoadedBound store.dicts
  encoders : ∀ id bytes, store.encoders.get id = some bytes → Usable store.dicts id bytes
  decoders : ∀ id bytes, store.decoders.get id = some bytes → Bound store.dicts id bytes
  pending : ∀ chunk ∈ store.pending, Usable store.dicts chunk.1 chunk.2
  chunks : ∀ chunk ∈ store.chunks, Usable store.dicts chunk.1 chunk.2

namespace TrainingStore

variable {store : TrainingStore} {id : String} {bytes : Bytes} {d : Dictionaries}

theorem not_get_empty {P : Prop} (h : (∅ : OrdMap String Bytes).get id = some bytes) : P := by
  rw [OrdMap.get_empty] at h
  cases h

theorem Binds.dicts (h : store.Binds) (hkeeps : KeepsBound store.dicts d)
    (hloaded : LoadedBound d) : Binds { store with dicts := d } where
  loaded := hloaded
  encoders id bytes hget := hkeeps.usable (h.encoders id bytes hget)
  decoders id bytes hget := hkeeps id bytes (h.decoders id bytes hget)
  pending chunk hchunk := hkeeps.usable (h.pending chunk hchunk)
  chunks chunk hchunk := hkeeps.usable (h.chunks chunk hchunk)

/-- A new process, or one that drops its codecs. -/
theorem Binds.forget (h : store.Binds) (hkeeps : KeepsBound store.dicts d)
    (hactive : d.active = none) {pending : List (String × Bytes)}
    (hpending : pending ⊆ store.pending) (unsynced : List String) :
    Binds { dicts := d, pending := pending, chunks := store.chunks, unsynced := unsynced } where
  loaded _ hsome := absurd (hactive.symm.trans hsome) nofun
  encoders _ _ hget := not_get_empty hget
  decoders _ _ hget := not_get_empty hget
  pending chunk hchunk := hkeeps.usable (h.pending chunk (hpending hchunk))
  chunks chunk hchunk := hkeeps.usable (h.chunks chunk hchunk)

theorem foldl_apply_active (writes : List DictWrite) (d : Dictionaries) :
    (writes.foldl DictWrite.apply d).active = d.active := by
  induction writes generalizing d with
  | nil => rfl
  | cons write rest ih =>
    rw [List.foldl_cons, ih]
    cases write <;> rfl

/-- Some of the writes were made. -/
theorem Binds.writes (h : store.Binds) {writes : List DictWrite}
    (hsafe : SafeWrites store.dicts writes) (n : Nat) :
    Binds { store with dicts := (writes.take n).foldl DictWrite.apply store.dicts } :=
  h.dicts (hsafe.keeps n) (h.loaded.keeps (hsafe.keeps n) (foldl_apply_active _ _))

/-- **A chunk is compressed with a dictionary that is bound.** -/
theorem Binds.compress (h : store.Binds) (family : String) : (store.compress family).Binds := by
  obtain ⟨hkeeps, hloaded, hbound⟩ := sourced_bound.activeDictionary h.loaded family
  unfold TrainingStore.compress
  generalize hout : activeDictionary store.dicts family = out at hkeeps hloaded hbound
  obtain ⟨result, d⟩ := out
  have hbinds : Binds { store with dicts := d } := h.dicts hkeeps hloaded
  cases result with
  | error e => exact hbinds
  | ok chosen =>
    obtain ⟨id, dict⟩ := chosen
    have hchosen : Bound d id dict := hbound id dict rfl
    dsimp only [TrainingStore.dictEncoder]
    cases hget : store.encoders.get id with
    | some used =>
      refine ⟨hbinds.loaded, hbinds.encoders, hbinds.decoders, ?_, hbinds.chunks⟩
      intro chunk hchunk
      rcases List.mem_append.mp hchunk with hchunk | hchunk
      · exact hbinds.pending chunk hchunk
      · rw [List.mem_singleton.mp hchunk]
        exact hbinds.encoders id used hget
    | none =>
      dsimp only
      by_cases hbad : dict ≠ [] ∧ parseUint32 id = none
      · rw [if_pos hbad]
        exact hbinds
      · rw [if_neg hbad]
        have husable : Usable d id dict := ⟨hchosen, fun hne hnone => hbad ⟨hne, hnone⟩⟩
        refine ⟨hbinds.loaded, ?_, hbinds.decoders, ?_, hbinds.chunks⟩
        · intro other bytes hother
          rw [OrdMap.get_set] at hother
          split at hother
          · rename_i heq
            cases hother
            rw [heq]
            exact husable
          · exact hbinds.encoders other bytes hother
        · intro chunk hchunk
          rcases List.mem_append.mp hchunk with hchunk | hchunk
          · exact hbinds.pending chunk hchunk
          · rw [List.mem_singleton.mp hchunk]
            exact husable

/-- A dictionary that codecs can be made of is found, and the decoder keeps it. -/
theorem Binds.dictDecoder (h : store.Binds) (husable : Usable store.dicts id bytes) :
    (store.dictDecoder id).1 = .ok bytes ∧ (store.dictDecoder id).2.Binds := by
  have hset : Binds { store with decoders := store.decoders.set id bytes } := by
    refine ⟨h.loaded, h.encoders, ?_, h.pending, h.chunks⟩
    intro other found hget
    rw [OrdMap.get_set] at hget
    split at hget
    · rename_i heq
      cases hget
      rw [heq]
      exact husable.1
    · exact h.decoders other found hget
  unfold TrainingStore.dictDecoder
  cases hget : store.decoders.get id with
  | some dict =>
    rw [(h.decoders id dict hget).unique husable.1]
    exact ⟨rfl, h⟩
  | none =>
    dsimp only
    rcases husable with ⟨⟨rfl, rfl⟩ | ⟨hid, hne, hfile, -⟩, hparse⟩
    · rw [if_pos rfl]
      exact ⟨rfl, hset⟩
    · rw [if_neg hid, hfile]
      dsimp only
      rw [if_neg (hparse hne)]
      exact ⟨rfl, hset⟩

/-- The committed chunks find the bytes that they were compressed with. -/
def Resolves (store : TrainingStore) : Prop :=
  ∀ chunk ∈ store.chunks, (store.dictDecoder chunk.1).1 = .ok chunk.2

theorem Binds.resolves (h : store.Binds) : store.Resolves :=
  fun chunk hchunk => (h.dictDecoder (h.chunks chunk hchunk)).1

/-- **A power loss spares what the committed chunks need**: of the files that were not synced, those
of their dictionaries are left as they were. -/
def LossSpared (store : TrainingStore) (left : String → Option Bytes) : Prop :=
  ∀ chunk ∈ store.chunks, chunk.1 ≠ "" → chunk.1 ∈ store.unsynced →
    left chunk.1 = store.dicts.files.get chunk.1

/-- Files that were not synced are what the disk has left of them. -/
theorem powerLoss_files (left : String → Option Bytes) (id : String) :
    (store.powerLoss left).dicts.files.get id =
      if id ∈ store.unsynced then left id else store.dicts.files.get id := by
  show (store.unsynced.foldl _ store.dicts.files).get id = _
  generalize store.dicts.files = files
  induction store.unsynced generalizing files with
  | nil => rfl
  | cons first rest ih =>
    rw [List.foldl_cons, ih]
    by_cases hrest : id ∈ rest
    · rw [if_pos hrest, if_pos (List.mem_cons_of_mem _ hrest)]
    · rw [if_neg hrest]
      by_cases hfirst : id = first
      · rw [hfirst, OrdMap.get_put_self, if_pos List.mem_cons_self]
      · rw [OrdMap.get_put_ne _ _ hfirst, if_neg fun hmem =>
          (List.mem_cons.mp hmem).elim hfirst hrest]

instance (store : TrainingStore) (left : String → Option Bytes) :
    Decidable (store.LossSpared left) :=
  inferInstanceAs (Decidable (∀ chunk ∈ store.chunks, chunk.1 ≠ "" → chunk.1 ∈ store.unsynced →
    left chunk.1 = store.dicts.files.get chunk.1))

/-- What is spared is still bound: the registry is synced, and the codecs are those of the old
process. -/
theorem Binds.powerLoss (h : store.Binds) {left : String → Option Bytes}
    (hspared : store.LossSpared left) : (store.powerLoss left).Binds := by
  refine ⟨nofun, fun _ _ hget => not_get_empty hget, fun _ _ hget => not_get_empty hget, nofun,
    fun chunk hchunk => ?_⟩
  obtain ⟨hbound, hparse⟩ := h.chunks chunk hchunk
  refine ⟨?_, hparse⟩
  rcases hbound with hnone | ⟨hid, hne, hfile, hfamily⟩
  · exact .inl hnone
  · refine .inr ⟨hid, hne, ?_, hfamily⟩
    rw [powerLoss_files]
    split
    · rename_i hunsynced
      rw [hspared chunk hchunk hid hunsynced, hfile]
    · exact hfile

/-- And only what is spared is found: the new process has no decoder yet and reads the file. -/
theorem LossSpared.of_resolves (h : store.Binds) {left : String → Option Bytes}
    (hresolves : (store.powerLoss left).Resolves) : store.LossSpared left := by
  intro chunk hchunk hid hunsynced
  rcases (h.chunks chunk hchunk).1 with ⟨hempty, -⟩ | ⟨-, -, hfile, -⟩
  · exact absurd hempty hid
  have hread := hresolves chunk hchunk
  rw [TrainingStore.dictDecoder, show (store.powerLoss left).decoders.get chunk.1 = none from
    OrdMap.get_empty _] at hread
  dsimp only at hread
  rw [if_neg hid, powerLoss_files, if_pos hunsynced] at hread
  cases hleft : left chunk.1 with
  | none =>
    rw [hleft] at hread
    cases hread
  | some bytes =>
    rw [hleft] at hread
    dsimp only at hread
    split at hread
    · cases hread
    · rw [hfile, Except.ok.inj hread]

/-- An event spares what the committed chunks need; only a power loss may not. -/
def Spares (store : TrainingStore) : DictEvent → Prop
  | .powerLoss left => store.LossSpared left
  | _ => True

/-- **Every event that spares the dictionaries keeps the bindings.** -/
theorem Binds.step (h : store.Binds) {event : DictEvent} (hspares : store.Spares event) :
    (store.step event).Binds := by
  cases event with
  | powerLoss left => exact h.powerLoss hspares
  | reopen =>
    have hkeeps : KeepsBound store.dicts
        { store.dicts with bootstrapped := false, active := none } := fun _ _ hbound => hbound
    exact h.forget hkeeps rfl (List.nil_subset _) _
  | litter name text =>
    dsimp only [TrainingStore.step]
    split
    · have hsafe : SafeWrites store.dicts [.marker name text] := ⟨trivial, trivial⟩
      exact h.writes hsafe 1
    · exact h
  | bootstrap writes =>
    dsimp only [TrainingStore.step]
    split
    · exact h
    · have hsome := h.writes (safeWrites_bootstrap store.dicts) writes
      exact ⟨hsome.loaded, hsome.encoders, hsome.decoders, hsome.pending, hsome.chunks⟩
  | train family torn bytes writes =>
    dsimp only [TrainingStore.step]
    cases hnext : nextDictionaryID store.dicts with
    | error e => exact h
    | ok id =>
      have hsafe := safeWrites_train hnext family torn bytes
      dsimp only
      split
      · have hkeeps : KeepsBound store.dicts
            { ((trainWrites store.dicts id family torn bytes).take writes).foldl DictWrite.apply
              store.dicts with active := none } := hsafe.keeps writes
        exact h.forget hkeeps rfl (List.Subset.refl _) _
      · have hsome := h.writes hsafe writes
        exact ⟨hsome.loaded, hsome.encoders, hsome.decoders, hsome.pending, hsome.chunks⟩
  | compress family => exact h.compress family
  | commit chunk =>
    dsimp only [TrainingStore.step]
    split
    · exact h
    · rename_i compressed hpending
      refine ⟨h.loaded, h.encoders, h.decoders, h.pending, ?_⟩
      intro other hother
      rcases List.mem_append.mp hother with hother | hother
      · exact h.chunks other hother
      · rw [List.mem_singleton.mp hother]
        exact h.pending compressed (List.mem_of_getElem? hpending)
  | read chunk =>
    dsimp only [TrainingStore.step]
    split
    · exact h
    · rename_i stored hstored
      exact (h.dictDecoder (h.chunks stored (List.mem_of_getElem? hstored))).2

/-- Each event spares what the chunks committed by then need. -/
def Spared : TrainingStore → List DictEvent → Prop
  | _, [] => True
  | store, event :: rest => store.Spares event ∧ Spared (store.step event) rest

/-- The bindings hold along the events exactly if each power loss spares them: behind the first one
that does not, a chunk is not found. -/
theorem Binds.spared_iff (h : store.Binds) (events : List DictEvent) :
    store.Spared events ↔ ∀ n, (store.run (events.take n)).Resolves := by
  induction events generalizing store with
  | nil =>
    refine iff_of_true trivial fun n => ?_
    rw [List.take_nil]
    exact h.resolves
  | cons event rest ih =>
    constructor
    · rintro ⟨hspares, hrest⟩ (_ | n)
      · exact h.resolves
      · exact (ih (h.step hspares)).mp hrest n
    · intro hall
      have hspares : store.Spares event := by
        cases event with
        | powerLoss left => exact .of_resolves h (hall 1)
        | _ => exact trivial
      exact ⟨hspares, (ih (h.step hspares)).mpr fun n => hall (n + 1)⟩

end TrainingStore

/-- A store without chunks, over any dictionary directory that is on disk. -/
def TrainingStore.opened (d : Dictionaries) : TrainingStore := TrainingStore.reopen { dicts := d }

theorem TrainingStore.opened_binds (d : Dictionaries) : (TrainingStore.opened d).Binds :=
  ⟨nofun, fun _ _ hget => not_get_empty hget, fun _ _ hget => not_get_empty hget, nofun, nofun⟩

/-- **The id of a committed chunk is found, behind every event of a run, with the bytes that the
chunk was compressed with, exactly if each power loss spares** the trained dictionaries that
committed chunks need. -/
theorem dictionary_binding (d : Dictionaries) (events : List DictEvent) :
    (TrainingStore.opened d).Spared events ↔
      ∀ n, ∀ chunk ∈ ((TrainingStore.opened d).run (events.take n)).chunks,
        (((TrainingStore.opened d).run (events.take n)).dictDecoder chunk.1).1 = .ok chunk.2 :=
  (TrainingStore.opened_binds d).spared_iff events

/-- A seed, a training that stops before the registry, and one that does not. -/
def trainedTwice : List DictEvent :=
  [.compress "patch-text", .commit 0, .train "patch-text" [] [7] 1, .reopen,
    .train "patch-text" [] [8] 3, .compress "patch-text", .commit 0]

/-- The dictionary was written back before the power is lost. -/
theorem dictionary_binding_trained :
    let store := (TrainingStore.opened { }).run (trainedTwice ++ [.powerLoss fun _ => some [8]])
    store.chunks.map Prod.fst = ["1005", "1006"] ∧ (store.dictDecoder "1006").1 = .ok [8] := by
  intro store
  have hids : store.chunks.map Prod.fst = ["1005", "1006"] := by decide +kernel
  have hchunk : ("1006", [8]) ∈ store.chunks := by decide +kernel
  have hloss : ((TrainingStore.opened { }).run trainedTwice).LossSpared fun _ => some [8] := by
    decide +kernel
  have hspared : (TrainingStore.opened { }).Spared (trainedTwice ++ [.powerLoss fun _ => some [8]]) :=
    ⟨trivial, trivial, trivial, trivial, trivial, trivial, trivial, hloss, trivial⟩
  exact ⟨hids, (dictionary_binding _ _).mp hspared 8 _ hchunk⟩

/-- **A trained dictionary is lost.** Registry, marker and chunk are on disk, the dictionary is
not. -/
theorem dictionary_lost :
    let store := (TrainingStore.opened { }).run (trainedTwice ++ [.powerLoss fun _ => none])
    ("1006", [8]) ∈ store.chunks ∧ (store.dictDecoder "1006").1 =
      .error "open dictionaries/1006.dict: no such file or directory" := by
  decide +kernel

end Gmeow
