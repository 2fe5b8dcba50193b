import Gmeow.Operations

/-!
# Store integrity

What a store in order looks like, and that the object operations keep it so.

* `Sound` — every index entry points to durable bytes that decode to a chunk of that
  hash, every recipe lists indexed chunks of one blob, every manifest has its recipe.
  The predicate `H` collects the contents hashed so far.
* `Evidence`, `Found` — the caller's observations are true of the world: of the packs
  and dictionaries, which only grow, and of the tables, which others may change.
* `objectContract_keeps` — one request of a caller that keeps `objectContract` keeps
  `Sound` and the truth of its observations; with `Gmeow.Operations` this covers every
  object operation at once.
-/

namespace Gmeow

open Prog

variable {D : Type} [LinearOrder D] {E : Env D} {w w' : World D} {k : Observed D}

/-! ## Packs -/

/-- Bytes `[offset, offset + length)`. -/
def slice (bytes : Bytes) (offset length : Nat) : Bytes := (bytes.drop offset).take length

theorem slice_extended {bytes bytes' : Bytes} (h : bytes <+: bytes') {offset length : Nat}
    (hle : offset + length ≤ bytes.length) : slice bytes' offset length = slice bytes offset length := by
  obtain ⟨rest, rfl⟩ := h
  rw [slice, slice, List.drop_append_of_le_length (by omega),
    List.take_append_of_le_length (by rw [List.length_drop]; omega)]

theorem slice_append_self (bytes more : Bytes) :
    slice (bytes ++ more) bytes.length more.length = more := by
  rw [slice, List.drop_left, List.take_length]

/-- Every pack is still there, with more bytes and more of them on disk. -/
def PacksGrow (packs packs' : OrdMap Nat PackFile) : Prop :=
  ∀ id pack, packs.get id = some pack →
    ∃ pack', packs'.get id = some pack' ∧ pack.bytes <+: pack'.bytes ∧
      pack.synced ≤ pack'.synced ∧ (pack.linked = true → pack'.linked = true)

theorem PacksGrow.refl (packs : OrdMap Nat PackFile) : PacksGrow packs packs :=
  fun _ pack h => ⟨pack, h, List.prefix_refl _, le_refl _, fun h => h⟩

/-- The cached active pack is the last one, and its size is the file's. -/
structure PacksOK (w : World D) : Prop where
  synced : ∀ id pack, w.packs.get id = some pack → pack.synced ≤ pack.bytes.length
  active : ∀ id size, w.active = some (id, size) →
    (∃ pack, w.packs.get id = some pack ∧ pack.bytes.length = size) ∧
      ∀ other pack, w.packs.get other = some pack → other ≤ id

/-- Packs are in the order of their ids, so that the last one is the highest. -/
theorem le_highestPack {packs : OrdMap Nat PackFile} {id : Nat} {pack : PackFile}
    (h : packs.get id = some pack) : id ≤ (highestPack packs).1 := by
  have hmem := OrdMap.mem_entries_iff.mpr h
  rw [highestPack]
  cases hlast : packs.entries.getLast? with
  | none =>
    rw [List.getLast?_eq_none_iff] at hlast
    rw [hlast] at hmem
    cases hmem
  | some item =>
    obtain ⟨init, hinit⟩ := List.getLast?_eq_some_iff.mp hlast
    have hsorted := packs.sorted
    rw [hinit, List.pairwise_append] at hsorted
    rw [hinit] at hmem
    rcases List.mem_append.mp hmem with hmem | hmem
    · exact le_of_lt (hsorted.2.2 _ hmem _ (List.mem_singleton.mpr rfl))
    · cases List.mem_singleton.mp hmem
      exact le_refl _

/-- The highest pack, when there is any, with its size. -/
theorem highestPack_spec (packs : OrdMap Nat PackFile) :
    (packs.entries = [] ∧ highestPack packs = (0, 0)) ∨
      ∃ pack, packs.get (highestPack packs).1 = some pack ∧
        pack.bytes.length = (highestPack packs).2 := by
  rw [highestPack]
  cases hlast : packs.entries.getLast? with
  | none => exact Or.inl ⟨List.getLast?_eq_none_iff.mp hlast, rfl⟩
  | some item =>
    refine Or.inr ⟨item.2, ?_, rfl⟩
    exact OrdMap.mem_entries_iff.mp (List.mem_of_getLast? hlast)

/-- Where the next append goes: the end of the last pack, or a new pack after it. -/
theorem appendTarget_spec (hok : PacksOK w) :
    ((w.packs.get (appendTarget w).1 = none ∧ (appendTarget w).2 = 0) ∨
      ∃ pack, w.packs.get (appendTarget w).1 = some pack ∧
        pack.bytes.length = (appendTarget w).2) ∧
    ∀ id pack, w.packs.get id = some pack → id ≤ (appendTarget w).1 := by
  -- the pack taken to be active, before rotation
  obtain ⟨known, hknown⟩ : ∃ known, known = w.active.getD (highestPack w.packs) := ⟨_, rfl⟩
  have hspec : ((w.packs.get known.1 = none ∧ known.2 = 0) ∨
      ∃ pack, w.packs.get known.1 = some pack ∧ pack.bytes.length = known.2) ∧
      ∀ id pack, w.packs.get id = some pack → id ≤ known.1 := by
    cases hactive : w.active with
    | some cached =>
      rw [hactive, Option.getD_some] at hknown
      rw [hknown]
      obtain ⟨hpack, hmax⟩ := hok.active cached.1 cached.2 hactive
      exact ⟨Or.inr hpack, hmax⟩
    | none =>
      rw [hactive, Option.getD_none] at hknown
      rw [hknown]
      refine ⟨?_, fun id pack h => le_highestPack h⟩
      rcases highestPack_spec w.packs with ⟨hnil, heq⟩ | hpack
      · left
        rw [heq]
        refine ⟨?_, rfl⟩
        rw [OrdMap.get, hnil]
        rfl
      · exact Or.inr hpack
  rw [appendTarget, ← hknown]
  split
  · refine ⟨Or.inl ⟨?_, rfl⟩, fun id pack h => Nat.le_succ_of_le (hspec.2 id pack h)⟩
    cases hget : w.packs.get (known.1 + 1) with
    | none => rfl
    | some pack => have := hspec.2 _ _ hget; omega
  · exact hspec

/-- What an append does: the target pack ends with the new bytes, at the offset
returned. -/
theorem appendPack_spec (hok : PacksOK w) (bytes : Bytes) :
    PacksGrow w.packs (appendPack w.packs (appendTarget w).1 bytes) ∧
      (∃ pack, (appendPack w.packs (appendTarget w).1 bytes).get (appendTarget w).1 = some pack ∧
        pack.bytes.length = (appendTarget w).2 + bytes.length ∧
        slice pack.bytes (appendTarget w).2 bytes.length = bytes ∧
        pack.synced ≤ (appendTarget w).2) ∧
      ∀ id, id ≠ (appendTarget w).1 →
        (appendPack w.packs (appendTarget w).1 bytes).get id = w.packs.get id := by
  obtain ⟨htarget, -⟩ := appendTarget_spec hok
  generalize appendTarget w = target at htarget ⊢
  rcases htarget with ⟨hnone, hzero⟩ | ⟨pack, hpack, hsize⟩
  · simp only [appendPack, hnone]
    refine ⟨?_, ⟨_, OrdMap.get_set_self .., ?_, ?_, Nat.zero_le _⟩,
      fun id hne => OrdMap.get_set_ne _ _ hne⟩
    · intro id pack hget
      refine ⟨pack, ?_, List.prefix_refl _, le_refl _, fun h => h⟩
      rw [OrdMap.get_set_ne _ _ (by rintro rfl; rw [hnone] at hget; cases hget)]
      exact hget
    · rw [hzero, Nat.zero_add]
    · rw [hzero]
      exact slice_append_self [] bytes
  · simp only [appendPack, hpack]
    refine ⟨?_, ⟨_, OrdMap.get_set_self .., ?_, ?_, ?_⟩, fun id hne => OrdMap.get_set_ne _ _ hne⟩
    · intro id other hget
      by_cases hid : id = target.1
      · subst hid
        rw [hpack] at hget
        cases hget
        exact ⟨_, OrdMap.get_set_self .., List.prefix_append .., le_refl _, fun h => h⟩
      · exact ⟨other, by rw [OrdMap.get_set_ne _ _ hid]; exact hget, List.prefix_refl _, le_refl _,
          fun h => h⟩
    · rw [List.length_append, hsize]
    · rw [← hsize]
      exact slice_append_self pack.bytes bytes
    · rw [← hsize]
      exact hok.synced _ _ hpack

theorem get_linkPacks (packs : OrdMap Nat PackFile) (id : Nat) :
    (linkPacks packs).get id = (packs.get id).map fun pack => { pack with linked := true } := by
  cases hget : packs.get id with
  | none =>
    cases hlink : (linkPacks packs).get id with
    | none => rfl
    | some pack =>
      obtain ⟨item, hmem, heq⟩ := List.mem_map.mp (OrdMap.mem_entries_iff.mpr hlink)
      cases heq
      rw [OrdMap.mem_entries_iff.mp hmem] at hget
      cases hget
  | some pack =>
    refine OrdMap.mem_entries_iff.mp (List.mem_map.mpr ⟨(id, pack), ?_, rfl⟩)
    exact OrdMap.mem_entries_iff.mpr hget

/-- A sync changes no bytes; behind it all of the file is on disk. -/
theorem syncFile_spec (hok : PacksOK w) (id : Nat) :
    PacksGrow w.packs (syncFile w.packs id) ∧
      (∀ other pack, (syncFile w.packs id).get other = some pack →
        ∃ pack', w.packs.get other = some pack' ∧ pack.bytes = pack'.bytes ∧
          pack.synced ≤ pack.bytes.length ∧ (other = id → pack.synced = pack.bytes.length)) := by
  cases hget : w.packs.get id with
  | none =>
    simp only [syncFile, hget]
    refine ⟨.refl _, fun other pack h => ⟨pack, h, rfl, hok.synced _ _ h, ?_⟩⟩
    rintro rfl
    rw [hget] at h
    cases h
  | some file =>
    simp only [syncFile, hget]
    refine ⟨?_, ?_⟩
    · intro other pack h
      by_cases hid : other = id
      · subst hid
        rw [hget] at h
        cases h
        exact ⟨_, OrdMap.get_set_self .., List.prefix_refl _, hok.synced _ _ hget, fun h => h⟩
      · exact ⟨pack, by rw [OrdMap.get_set_ne _ _ hid]; exact h, List.prefix_refl _, le_refl _,
          fun h => h⟩
    · intro other pack h
      by_cases hid : other = id
      · subst hid
        rw [OrdMap.get_set_self] at h
        cases h
        exact ⟨file, hget, rfl, le_refl _, fun _ => rfl⟩
      · rw [OrdMap.get_set_ne _ _ hid] at h
        exact ⟨pack, h, rfl, hok.synced _ _ h, fun heq => absurd heq hid⟩

/-- Whether a request removes a pack. -/
def Prim.isRemoval : Prim D → Bool
  | .removePack _ => true
  | _ => false

variable {p : Prim D} {r : Resp p} {H H' : Bytes → Prop} {digest key : D} {item : D × Bytes}
  {hashed chunks : List Bytes} {cache : SizedLRU D}

/-- Packs only grow, unless one is removed. -/
theorem handle_packsGrow (hok : PacksOK w) (hp : p.isRemoval = false)
    (h : handle E p w = some (r, w')) : PacksGrow w.packs w'.packs ∧ PacksOK w' := by
  by_cases hf : p.footprint = .packs
  · cases p with
    | appendToActivePackNoSync bytes =>
      cases h
      obtain ⟨hgrow, ⟨pack, hpack, hlength, -, hsynced⟩, hother⟩ := appendPack_spec hok bytes
      obtain ⟨-, hmax⟩ := appendTarget_spec hok
      refine ⟨hgrow, ?_, ?_⟩
      · intro id file hget
        by_cases hid : id = (appendTarget w).1
        · subst hid
          rw [show (_ : Option PackFile) = some pack from hpack] at hget
          cases hget
          omega
        · rw [show (_ : Option PackFile) = w.packs.get id from hother id hid] at hget
          exact hok.synced _ _ hget
      · intro id size hactive
        cases hactive
        refine ⟨⟨pack, hpack, hlength⟩, fun other file hget => ?_⟩
        by_cases hid : other = (appendTarget w).1
        · rw [hid]
        · rw [show (_ : Option PackFile) = w.packs.get other from hother other hid] at hget
          exact hmax other file hget
    | forgetActivePack =>
      cases h
      exact ⟨.refl _, hok.synced, fun id size hactive => nomatch hactive⟩
    | syncPack id =>
      cases h
      obtain ⟨hgrow, hspec⟩ := syncFile_spec hok id
      refine ⟨hgrow, ?_, ?_⟩
      · intro other pack hget
        obtain ⟨-, -, -, hle, -⟩ := hspec other pack hget
        exact hle
      · intro active size hactive
        obtain ⟨⟨pack, hpack, hlength⟩, hmax⟩ := hok.active active size hactive
        obtain ⟨pack', hpack', -⟩ := hgrow active pack hpack
        obtain ⟨old, hold, hbytes, -⟩ := hspec active pack' hpack'
        rw [hpack] at hold
        cases hold
        refine ⟨⟨pack', hpack', by rw [hbytes, hlength]⟩, fun other file hget => ?_⟩
        obtain ⟨old, hold, -⟩ := hspec other file hget
        exact hmax other old hold
    | syncPackDir =>
      cases h
      have hget : ∀ id, (linkPacks w.packs).get id =
          (w.packs.get id).map fun pack => { pack with linked := true } := get_linkPacks w.packs
      refine ⟨?_, ?_, ?_⟩
      · intro id pack hpack
        refine ⟨{ pack with linked := true }, ?_, List.prefix_refl _, le_refl _, fun _ => rfl⟩
        show (linkPacks w.packs).get id = _
        rw [hget, hpack]
        rfl
      · intro id pack hpack
        rw [show (_ : Option PackFile) = _ from hget id] at hpack
        obtain ⟨old, hold, rfl⟩ := Option.map_eq_some_iff.mp hpack
        exact hok.synced id old hold
      · intro id size hactive
        obtain ⟨⟨pack, hpack, hlength⟩, hmax⟩ := hok.active id size hactive
        refine ⟨⟨{ pack with linked := true }, ?_, hlength⟩, fun other file hfile => ?_⟩
        · show (linkPacks w.packs).get id = _
          rw [hget, hpack]
          rfl
        · rw [show (_ : Option PackFile) = _ from hget other] at hfile
          obtain ⟨old, hold, -⟩ := Option.map_eq_some_iff.mp hfile
          exact hmax other old hold
    | removePack id => cases hp
    | _ => cases hf
  · have hsame := handle_sameBut h
    have hpacks := hsame.packs hf
    refine ⟨by rw [hpacks]; exact .refl _, ?_, ?_⟩
    · rw [hpacks]; exact hok.synced
    · rw [hpacks, hsame.active hf]; exact hok.active

/-- Dictionary files are never lost. -/
theorem handle_dicts (hok : DictionariesOK w.dicts) (h : handle E p w = some (r, w')) :
    FilesKept w.dicts w'.dicts ∧ DictionariesOK w'.dicts := by
  by_cases hf : p.footprint = .dicts
  · cases p with
    | activeDictionary family =>
      obtain ⟨hkept, hok', -⟩ := activeDictionary_spec hok family
      rw [(handle_activeDictionary h).2]
      exact ⟨hkept, hok'⟩
    | _ => cases hf
  · rw [(handle_sameBut h).dicts hf]
    exact ⟨fun _ _ h => h, hok⟩

/-! ## True observations -/

/-- What the caller knows of packs and dictionaries is so: its bytes are where it
appended them, on disk where it synced them, and the dictionaries it chose are the
files behind their ids. -/
structure Evidence (w : World D) (k : Observed D) : Prop where
  appended : ∀ id offset bytes, (id, offset, bytes) ∈ k.appended →
    ∃ pack, w.packs.get id = some pack ∧ offset + bytes.length ≤ pack.bytes.length ∧
      slice pack.bytes offset bytes.length = bytes ∧
      (id ∈ k.synced → offset + bytes.length ≤ pack.synced) ∧
      (k.linked = true → pack.linked = true)
  dicts : ∀ id dict, (id, dict) ∈ k.dicts → dictionaryBytes w.dicts id = some dict

theorem Evidence.empty : Evidence w { hashed := hashed } where
  appended _ _ _ h := nomatch h
  dicts _ _ h := nomatch h

/-- Evidence stays good as packs and dictionaries grow. -/
theorem Evidence.mono (he : Evidence w k) (hpacks : PacksGrow w.packs w'.packs)
    (hfiles : FilesKept w.dicts w'.dicts) : Evidence w' k where
  appended id offset bytes hmem := by
    obtain ⟨pack, hpack, hle, hslice, hsync, hlink⟩ := he.appended id offset bytes hmem
    obtain ⟨pack', hpack', hfront, hsynced, hlinked⟩ := hpacks id pack hpack
    have := hfront.length_le
    refine ⟨pack', hpack', by omega, ?_, fun h => le_trans (hsync h) hsynced,
      fun h => hlinked (hlink h)⟩
    rw [slice_extended hfront hle, hslice]
  dicts id dict hmem := hfiles.bytes (he.dicts id dict hmem)

/-- Only requests about packs teach about packs. -/
theorem learn_packs (k : Observed D) (r : Resp p) (hp : p.footprint ≠ .packs) :
    (learn k p r).appended = k.appended ∧ (learn k p r).synced = k.synced ∧
      (learn k p r).linked = k.linked := by
  cases p with
  | appendToActivePackNoSync | syncPack | syncPackDir => exact absurd rfl hp
  | getChunk | getRecipe | getManifest | activeDictionary | readPack =>
    cases r <;> exact ⟨rfl, rfl, rfl⟩
  | _ => exact ⟨rfl, rfl, rfl⟩

/-- Only a choice of dictionary teaches about dictionaries. -/
theorem learn_dicts (k : Observed D) (r : Resp p) (hp : p.footprint ≠ .dicts) :
    (learn k p r).dicts = k.dicts := by
  cases p with
  | activeDictionary => exact absurd rfl hp
  | getChunk | getRecipe | getManifest | syncPack | readPack => cases r <;> rfl
  | _ => rfl

/-- The caller's own request keeps its evidence good, and adds to it. -/
theorem Evidence.learn (he : Evidence w k) (hok : PacksOK w) (hd : DictionariesOK w.dicts)
    (hp : p.isRemoval = false) (h : handle E p w = some (r, w')) : Evidence w' (learn k p r) := by
  obtain ⟨hgrow, hok'⟩ := handle_packsGrow hok hp h
  obtain ⟨hfiles, -⟩ := handle_dicts hd h
  have hmono := he.mono hgrow hfiles
  refine ⟨?_, ?_⟩
  · by_cases hf : p.footprint = .packs
    · cases p with
      | appendToActivePackNoSync bytes =>
        cases h
        obtain ⟨-, ⟨pack, hpack, hlength, hslice, hsynced⟩, -⟩ := appendPack_spec hok bytes
        intro id offset content hmem
        rcases List.mem_cons.mp hmem with heq | hmem
        · cases heq
          refine ⟨pack, hpack, le_of_eq hlength.symm, hslice, ?_, fun hl => nomatch hl⟩
          intro hs
          simp [learn] at hs
        · obtain ⟨pack', hpack', hle, hslice', hsync, hlink⟩ := hmono.appended id offset content hmem
          refine ⟨pack', hpack', hle, hslice', fun hs => hsync ?_, fun hl => nomatch hl⟩
          exact (List.mem_filter.mp hs).1
      | forgetActivePack => exact hmono.appended
      | syncPack target =>
        intro id offset content hmem
        cases h
        cases hhas : w.packs.has target with
        | false => rw [hhas] at hmem; exact hmono.appended id offset content hmem
        | true =>
          rw [hhas] at hmem
          obtain ⟨pack, hpack, hle, hslice, hsync, hlink⟩ := hmono.appended id offset content hmem
          refine ⟨pack, hpack, hle, hslice, fun hs => ?_, hlink⟩
          rcases List.mem_cons.mp hs with rfl | hs
          · obtain ⟨-, -, -, -, hfull⟩ := (syncFile_spec hok id).2 id pack hpack
            rw [hfull rfl]
            exact hle
          · exact hsync hs
      | syncPackDir =>
        cases h
        intro id offset content hmem
        obtain ⟨pack, hpack, hle, hslice, hsync, -⟩ := hmono.appended id offset content hmem
        refine ⟨pack, hpack, hle, hslice, hsync, fun _ => ?_⟩
        rw [show (_ : Option PackFile) = _ from get_linkPacks w.packs id] at hpack
        obtain ⟨old, -, rfl⟩ := Option.map_eq_some_iff.mp hpack
        rfl
      | removePack id => cases hp
      | _ => cases hf
    · obtain ⟨happ, hsync, hlink⟩ := learn_packs k r hf
      rw [happ, hsync, hlink]
      exact hmono.appended
  · by_cases hf : p.footprint = .dicts
    · cases p with
      | activeDictionary family =>
        intro id dict hmem
        obtain ⟨hr, hw⟩ := handle_activeDictionary h
        cases r with
        | error e => exact hmono.dicts id dict hmem
        | ok dictionary =>
          rcases List.mem_cons.mp hmem with rfl | hmem
          · obtain ⟨-, -, hchosen⟩ := activeDictionary_spec hd family
            rw [hw]
            exact hchosen _ _ hr.symm
          · exact hmono.dicts id dict hmem
      | _ => cases hf
    · rw [learn_dicts k r hf]
      exact hmono.dicts

/-- What the caller found in the tables is still so. -/
structure Found (w : World D) (k : Observed D) : Prop where
  hits : ∀ hash ∈ k.hits, w.db.chunks.has hash = true
  recipes : ∀ digest ∈ k.recipes, w.db.recipes.has digest = true
  noRecipes : ∀ digest ∈ k.noRecipes, w.db.recipes.get digest = none
  manifests : ∀ digest ∈ k.manifests, w.db.manifests.has digest = true

/-- What was found and is not undone by others adding to the store. -/
structure Standing (w : World D) (k : Observed D) : Prop where
  hits : ∀ hash ∈ k.hits, w.db.chunks.has hash = true
  recipes : ∀ digest ∈ k.recipes, w.db.recipes.has digest = true
  manifests : ∀ digest ∈ k.manifests, w.db.manifests.has digest = true

theorem Found.standing (hf : Found w k) : Standing w k := ⟨hf.hits, hf.recipes, hf.manifests⟩

theorem Found.empty : Found w { hashed := hashed } where
  hits _ h := nomatch h
  recipes _ h := nomatch h
  noRecipes _ h := nomatch h
  manifests _ h := nomatch h

/-- A request that commits nothing keeps what was found, and adds to it. -/
theorem Standing.learn (hf : Standing w k) (hp : p.footprint ≠ .db)
    (h : handle E p w = some (r, w')) : Standing w' (learn k p r) := by
  have hdb := (handle_sameBut h).db hp
  obtain ⟨hhits, hrecipes, hmanifests⟩ := hf
  rw [← hdb] at hhits hrecipes hmanifests
  cases p with
  | commit writes => exact absurd rfl hp
  | getChunk hash =>
    cases h
    cases hget : w.db.chunks.get hash with
    | none => exact ⟨hhits, hrecipes, hmanifests⟩
    | some entry =>
      refine ⟨fun other hmem => ?_, hrecipes, hmanifests⟩
      rcases List.mem_cons.mp hmem with rfl | hmem
      · exact OrdMap.has_iff.mpr ⟨entry, hget⟩
      · exact hhits other hmem
  | getRecipe digest =>
    cases h
    cases hget : w.db.recipes.get digest with
    | none => exact ⟨hhits, hrecipes, hmanifests⟩
    | some recipe =>
      refine ⟨hhits, fun other hmem => ?_, hmanifests⟩
      rcases List.mem_cons.mp hmem with rfl | hmem
      · exact OrdMap.has_iff.mpr ⟨recipe, hget⟩
      · exact hrecipes other hmem
  | getManifest digest =>
    cases h
    cases hget : w.db.manifests.get digest with
    | none => exact ⟨hhits, hrecipes, hmanifests⟩
    | some manifest =>
      refine ⟨hhits, hrecipes, fun other hmem => ?_⟩
      rcases List.mem_cons.mp hmem with rfl | hmem
      · exact OrdMap.has_iff.mpr ⟨manifest, hget⟩
      · exact hmanifests other hmem
  | activeDictionary | syncPack | readPack => cases r <;> exact ⟨hhits, hrecipes, hmanifests⟩
  | _ => exact ⟨hhits, hrecipes, hmanifests⟩

theorem Found.learn (hf : Found w k) (hp : p.footprint ≠ .db) (h : handle E p w = some (r, w')) :
    Found w' (learn k p r) := by
  obtain ⟨hhits, hrecipes, hmanifests⟩ := hf.standing.learn hp h
  refine ⟨hhits, hrecipes, ?_, hmanifests⟩
  have hno := hf.noRecipes
  rw [← (handle_sameBut h).db hp] at hno
  cases p with
  | commit writes => exact absurd rfl hp
  | getRecipe digest =>
    cases h
    cases hget : w.db.recipes.get digest with
    | none =>
      intro other hmem
      rcases List.mem_cons.mp hmem with rfl | hmem
      · exact hget
      · exact hno other hmem
    | some recipe => exact hno
  | getChunk | getManifest | activeDictionary | syncPack | readPack => cases r <;> exact hno
  | _ => exact hno

/-! ## A sound store -/

/-- An index entry is stored: it names durable bytes that are the compressed form of
a chunk of that hash. -/
structure Stored (E : Env D) (H : Bytes → Prop) (w : World D) (hash : D)
    (entry : ChunkIndexEntry D) (chunk dict : Bytes) : Prop where
  hashed : H chunk
  hash_eq : E.blake3Hex chunk = hash
  chunkHash : entry.chunkHash = hash
  chosen : dictionaryBytes w.dicts entry.dictID = some dict
  readable : dict ≠ [] → parseUint32 entry.dictID ≠ none
  pack : ∃ pack, w.packs.get entry.packID = some pack ∧ pack.linked = true ∧
    entry.offset + entry.length ≤ pack.synced ∧ pack.synced ≤ pack.bytes.length ∧
    slice pack.bytes entry.offset entry.length = E.zstdEncode dict chunk

/-- What a recipe is: the hashes of chunks that make up one content under its hash. -/
structure RecipeOf (E : Env D) (H : Bytes → Prop) (recipe : ObjectRecipe D)
    (chunks : List Bytes) : Prop where
  hashes : recipe.chunkHashes = chunks.map E.blake3Hex
  hashed : ∀ chunk ∈ chunks, H chunk

/-- Whose recipe is kept under a digest: that of the content it hashes, or a
compound's. -/
def OwnedBy (E : Env D) (H : Bytes → Prop) (digest : D) (chunks : List Bytes) : Prop :=
  (H chunks.flatten ∧ E.blake3Hex chunks.flatten = digest) ∨
    ∃ objectID, H (compoundIdentity objectID) ∧ E.blake3Hex (compoundIdentity objectID) = digest

/-- A store in order. `H` are the contents hashed so far. -/
structure Sound (E : Env D) (H : Bytes → Prop) (w : World D) : Prop where
  packs : PacksOK w
  dicts : DictionariesOK w.dicts
  /-- cached chunks have the hash they are cached under -/
  cache : ∀ hash value, (hash, value) ∈ w.chunkCache → H value ∧ E.blake3Hex value = hash
  /-- index entries are stored -/
  chunks : ∀ hash entry, w.db.chunks.get hash = some entry →
    ∃ chunk dict, Stored E H w hash entry chunk dict
  /-- recipes list indexed chunks -/
  indexed : ∀ digest recipe, w.db.recipes.get digest = some recipe →
    ∀ hash ∈ recipe.chunkHashes, w.db.chunks.has hash = true
  /-- recipes are recipes of something -/
  recipes : ∀ digest recipe, w.db.recipes.get digest = some recipe →
    ∃ chunks, RecipeOf E H recipe chunks ∧ OwnedBy E H digest chunks
  /-- manifests come with a recipe -/
  manifests : ∀ digest, w.db.manifests.has digest = true → w.db.recipes.has digest = true

/-- An entry stays stored while packs and dictionaries grow. -/
theorem Stored.mono {hash : D} {entry : ChunkIndexEntry D} {chunk dict : Bytes}
    (hs : Stored E H w hash entry chunk dict) (hH : ∀ c, H c → H' c) (hok' : PacksOK w')
    (hpacks : PacksGrow w.packs w'.packs) (hfiles : FilesKept w.dicts w'.dicts) :
    Stored E H' w' hash entry chunk dict := by
  refine { hs with hashed := hH _ hs.hashed, chosen := hfiles.bytes hs.chosen, pack := ?_ }
  obtain ⟨pack, hpack, hlink, hle, hsynced, hslice⟩ := hs.pack
  obtain ⟨pack', hpack', hfront, hsynced', hlinked⟩ := hpacks _ _ hpack
  refine ⟨pack', hpack', hlinked hlink, by omega, hok'.synced _ _ hpack', ?_⟩
  rw [slice_extended hfront (by omega), hslice]

omit [LinearOrder D] in
theorem OwnedBy.mono (h : OwnedBy E H digest chunks) (hH : ∀ c, H c → H' c) :
    OwnedBy E H' digest chunks := by
  rcases h with ⟨hh, heq⟩ | ⟨objectID, hh, heq⟩
  · exact Or.inl ⟨hH _ hh, heq⟩
  · exact Or.inr ⟨objectID, hH _ hh, heq⟩

omit [LinearOrder D] in
theorem RecipeOf.mono {recipe : ObjectRecipe D} (h : RecipeOf E H recipe chunks)
    (hH : ∀ c, H c → H' c) : RecipeOf E H' recipe chunks :=
  ⟨h.hashes, fun chunk hc => hH _ (h.hashed chunk hc)⟩

/-- A new store is sound. -/
theorem Sound.empty (H : Bytes → Prop) (clock : Nat → Time) : Sound E H { clock := clock } := by
  constructor
  · constructor <;> (intro _ _ h; cases h)
  · intro _ h; cases h
  · intro _ _ h; cases h
  · intro _ _ h; cases h
  · intro _ _ h; cases h
  · intro _ _ h; cases h
  · intro _ h; cases h

/-- Soundness only asks for contents to have been hashed at some time. -/
theorem Sound.mono {w : World D} (hs : Sound E H w) (hH : ∀ c, H c → H' c) :
    Sound E H' w where
  packs := hs.packs
  dicts := hs.dicts
  cache hash value hmem := ⟨hH _ (hs.cache hash value hmem).1, (hs.cache hash value hmem).2⟩
  chunks hash entry hget := by
    obtain ⟨chunk, dict, hstored⟩ := hs.chunks hash entry hget
    exact ⟨chunk, dict, hstored.mono hH hs.packs (.refl _) fun _ _ h => h⟩
  indexed := hs.indexed
  recipes digest recipe hget := by
    obtain ⟨chunks, hrecipe, howned⟩ := hs.recipes digest recipe hget
    exact ⟨chunks, hrecipe.mono hH, howned.mono hH⟩
  manifests := hs.manifests

theorem mem_cacheLookup (h : item ∈ (cacheLookup cache key).2) : item ∈ cache := by
  rw [cacheLookup] at h
  split at h
  · exact h
  · rename_i found hfind
    rcases List.mem_cons.mp h with rfl | h
    · exact List.mem_of_find?_eq_some hfind
    · exact (List.mem_filter.mp h).1

omit [LinearOrder D] in
theorem mem_evictToFit :
    ∀ {budget : Nat} {cache : SizedLRU D}, item ∈ evictToFit budget cache → item ∈ cache := by
  intro budget cache
  induction cache generalizing budget with
  | nil => intro h; cases h
  | cons first rest ih =>
    intro h
    rw [evictToFit] at h
    split at h
    · rcases List.mem_cons.mp h with rfl | h
      · exact List.mem_cons_self ..
      · exact List.mem_cons_of_mem _ (ih h)
    · cases h

theorem mem_cacheInsert {value : Bytes} (h : item ∈ cacheInsert cache key value) :
    item = (key, value) ∨ item ∈ cache := by
  rw [cacheInsert] at h
  split at h
  · exact Or.inr (List.mem_filter.mp h).1
  · rcases List.mem_cons.mp (mem_evictToFit h) with rfl | h
    · exact Or.inl rfl
    · exact Or.inr (List.mem_filter.mp h).1

/-- A request that neither commits, caches nor removes a pack keeps the store sound. -/
theorem Sound.step (hs : Sound E H w) (hH : ∀ c, H c → H' c) (hdb : p.footprint ≠ .db)
    (hrm : p.isRemoval = false)
    (hcache : ∀ hash value, p = .cachePut hash value → H value ∧ E.blake3Hex value = hash)
    (h : handle E p w = some (r, w')) : Sound E H' w' := by
  obtain ⟨hgrow, hpacks'⟩ := handle_packsGrow hs.packs hrm h
  obtain ⟨hfiles, hdicts'⟩ := handle_dicts hs.dicts h
  have hsame := handle_sameBut h
  refine ⟨hpacks', hdicts', ?_, ?_, ?_, ?_, ?_⟩
  · intro hash value hmem
    have hold : (hash, value) ∈ w.chunkCache → H' value ∧ E.blake3Hex value = hash := fun hmem =>
      ⟨hH _ (hs.cache hash value hmem).1, (hs.cache hash value hmem).2⟩
    by_cases hf : p.footprint = .chunkCache
    · cases p with
      | cacheGet key => cases h; exact hold (mem_cacheLookup hmem)
      | cachePut key content =>
        cases h
        rcases mem_cacheInsert hmem with heq | hmem
        · cases heq
          exact ⟨hH _ (hcache _ _ rfl).1, (hcache _ _ rfl).2⟩
        · exact hold hmem
      | _ => cases hf
    · rw [hsame.chunkCache hf] at hmem
      exact hold hmem
  · rw [hsame.db hdb]
    intro hash entry hget
    obtain ⟨chunk, dict, hstored⟩ := hs.chunks hash entry hget
    exact ⟨chunk, dict, hstored.mono hH hpacks' hgrow hfiles⟩
  · rw [hsame.db hdb]; exact hs.indexed
  · rw [hsame.db hdb]
    intro digest recipe hget
    obtain ⟨chunks, hrecipe, howned⟩ := hs.recipes digest recipe hget
    exact ⟨chunks, hrecipe.mono hH, howned.mono hH⟩
  · rw [hsame.db hdb]; exact hs.manifests

/-! ## Committing a backed batch -/

section Commit

variable {compound : Option D} {writes : List (Write D)} {hash : D} {H : Bytes → Prop}

theorem Backed.chunk_some (hb : Backed E compound k writes) {value : Option (ChunkIndexEntry D)}
    (h : Write.chunk hash value ∈ writes) : ∃ entry, value = some entry := by
  obtain ⟨entry, -, -, hvalue, -⟩ := hb.chunks hash value h
  exact ⟨entry, hvalue⟩

/-- A backed batch removes no chunk from the index. -/
theorem Backed.has_chunk (hb : Backed E compound k writes) {db : Meta D}
    (h : db.chunks.has hash = true ∨ hash ∈ chunksAdded writes) :
    (db.applyAll writes).chunks.has hash = true := by
  rcases db.applyAll_chunks writes hash with ⟨value, hmem, hget⟩ | ⟨hnone, hget⟩
  · obtain ⟨entry, rfl⟩ := hb.chunk_some hmem
    exact OrdMap.has_iff.mpr ⟨entry, hget⟩
  · rcases h with h | h
    · obtain ⟨entry, hentry⟩ := OrdMap.has_iff.mp h
      exact OrdMap.has_iff.mpr ⟨entry, by rw [hget, hentry]⟩
    · obtain ⟨entry, hentry⟩ := mem_chunksAdded.mp h
      exact absurd hentry (hnone _)

/-- A backed entry whose pack was synced is stored. -/
theorem ChunkBacked.stored {entry : ChunkIndexEntry D} {chunk dict : Bytes}
    (hb : ChunkBacked E k hash entry chunk dict) (hd : Durable k entry) (he : Evidence w k)
    (hok : PacksOK w) (hH : ∀ c ∈ k.hashed, H c) : Stored E H w hash entry chunk dict := by
  obtain ⟨pack, hpack, hle, hslice, hsync, hlink⟩ := he.appended _ _ _ hb.appended
  refine ⟨hH _ hb.hashed, hb.hash_eq, hb.chunkHash, he.dicts _ _ hb.chosen, hb.readable,
    ⟨pack, hpack, hlink hd.2, ?_, hok.synced _ _ hpack, ?_⟩⟩
  · rw [hb.length]; exact hsync hd.1
  · rw [hb.length]; exact hslice

/-- **Committing.** A backed batch keeps a sound store sound. -/
theorem Sound.commit (hs : Sound E H w) (hH : ∀ c ∈ k.hashed, H c) (he : Evidence w k)
    (hf : Standing w k) (hb : Backed E compound k writes) :
    Sound E H { w with db := w.db.applyAll writes } := by
  have hpacks : PacksOK { w with db := w.db.applyAll writes } := ⟨hs.packs.synced, hs.packs.active⟩
  refine ⟨hpacks, hs.dicts, hs.cache, ?_, ?_, ?_, ?_⟩
  · intro hash entry hget
    have hstored : ∃ chunk dict, Stored E H w hash entry chunk dict := by
      rcases w.db.applyAll_chunks writes hash with ⟨value, hmem, hvalue⟩ | ⟨-, hold⟩
      · obtain ⟨entry', chunk, dict, rfl, hchunk, hdurable⟩ := hb.chunks hash value hmem
        have heq : entry' = entry := Option.some.inj (hvalue.symm.trans hget)
        rw [← heq]
        exact ⟨chunk, dict, hchunk.stored hdurable he hs.packs hH⟩
      · exact hs.chunks hash entry (hold.symm.trans hget)
    obtain ⟨chunk, dict, hstored⟩ := hstored
    exact ⟨chunk, dict, hstored.mono (fun _ h => h) hpacks (.refl _) (fun _ _ h => h)⟩
  · intro digest recipe hget hash hmem
    rcases w.db.applyAll_recipes writes digest with ⟨value, hwrite, hvalue⟩ | ⟨-, hold⟩
    · have heq : value = some recipe := hvalue.symm.trans hget
      rw [heq] at hwrite
      obtain ⟨chunks, hrecipe⟩ := hb.recipes digest recipe hwrite
      refine hb.has_chunk ?_
      rcases hrecipe.indexed hash hmem with hhit | hadd
      · exact Or.inl (hf.hits hash hhit)
      · exact Or.inr hadd
    · exact hb.has_chunk (Or.inl (hs.indexed digest recipe (hold.symm.trans hget) hash hmem))
  · intro digest recipe hget
    rcases w.db.applyAll_recipes writes digest with ⟨value, hwrite, hvalue⟩ | ⟨-, hold⟩
    · have heq : value = some recipe := hvalue.symm.trans hget
      rw [heq] at hwrite
      obtain ⟨chunks, hrecipe⟩ := hb.recipes digest recipe hwrite
      refine ⟨chunks, ⟨hrecipe.hashes, fun c hc => hH c (hrecipe.hashed c hc)⟩, ?_⟩
      rcases hrecipe.owner with ⟨hhashed, heq⟩ | ⟨-, -, objectID, hhashed, heq⟩
      · exact Or.inl ⟨hH _ hhashed, heq⟩
      · exact Or.inr ⟨objectID, hH _ hhashed, heq⟩
    · exact hs.recipes digest recipe (hold.symm.trans hget)
  · intro digest hhas
    obtain ⟨manifest, hget⟩ := OrdMap.has_iff.mp hhas
    -- a deleted recipe takes its manifest with it, and no batch writes that manifest back
    have hkeep : w.db.recipes.has digest = true ∨ digest ∈ recipesAdded writes := by
      rcases w.db.applyAll_manifests writes digest with ⟨value, hwrite, hvalue⟩ | ⟨-, hold⟩
      · have heq : value = some manifest := hvalue.symm.trans hget
        rw [heq] at hwrite
        rcases hb.manifests digest manifest hwrite with h | h | h
        · exact Or.inr h
        · exact Or.inl (hf.recipes digest h)
        · exact Or.inl (hs.manifests digest (hf.manifests digest h))
      · exact Or.inl (hs.manifests digest (OrdMap.has_iff.mpr ⟨manifest, hold.symm.trans hget⟩))
    have hdeleted : Write.manifest digest none ∉ writes := by
      intro hdel
      rcases w.db.applyAll_manifests writes digest with ⟨value, hwrite, hvalue⟩ | ⟨hnone, -⟩
      · have heq : value = some manifest := hvalue.symm.trans hget
        rw [heq] at hwrite
        exact hb.consistent digest manifest hwrite hdel
      · exact hnone _ hdel
    show (w.db.applyAll writes).recipes.has digest = true
    rcases w.db.applyAll_recipes writes digest with ⟨value, hwrite, hvalue⟩ | ⟨hnone, hold⟩
    · cases value with
      | none => exact absurd (hb.deletions digest hwrite).2 hdeleted
      | some recipe => exact OrdMap.has_iff.mpr ⟨recipe, hvalue⟩
    · rcases hkeep with h | h
      · obtain ⟨recipe, hrecipe⟩ := OrdMap.has_iff.mp h
        exact OrdMap.has_iff.mpr ⟨recipe, hold.trans hrecipe⟩
      · obtain ⟨recipe, hrecipe⟩ := mem_recipesAdded.mp h
        exact absurd hrecipe (hnone _)

theorem Standing.commit (hf : Standing w k) (hb : Backed E compound k writes) :
    Standing { w with db := w.db.applyAll writes } (Gmeow.learn k (.commit writes) ()) where
  hits hash hmem := by
    refine hb.has_chunk ?_
    rcases List.mem_append.mp hmem with h | h
    · exact Or.inr h
    · exact Or.inl (hf.hits hash h)
  recipes _ h := nomatch h
  manifests _ h := nomatch h

theorem Found.commit (hf : Found w k) (hb : Backed E compound k writes) :
    Found { w with db := w.db.applyAll writes } (Gmeow.learn k (.commit writes) ()) where
  hits := (hf.standing.commit hb).hits
  recipes _ h := nomatch h
  noRecipes _ h := nomatch h
  manifests _ h := nomatch h

end Commit

/-! ## One request of an object operation -/

/-- Whatever recipe is kept under a digest is that of a content with this hash. -/
def ContentOnly (E : Env D) (H : Bytes → Prop) (db : Meta D) (digest : D) : Prop :=
  ∀ recipe, db.recipes.get digest = some recipe →
    ∃ chunks, RecipeOf E H recipe chunks ∧ H chunks.flatten ∧ E.blake3Hex chunks.flatten = digest

theorem ContentOnly.mono {db : Meta D} (h : ContentOnly E H db digest) (hH : ∀ c, H c → H' c) :
    ContentOnly E H' db digest := by
  intro recipe hget
  obtain ⟨chunks, hrecipe, hh, heq⟩ := h recipe hget
  exact ⟨chunks, hrecipe.mono hH, hH _ hh, heq⟩

/-- The invariant of an object operation that may write the compound `compound`:
the store is sound, its observations are true, and the digests acknowledged before
(`acked`) still stand for contents only. -/
structure ObjectInv (E : Env D) (compound : Option D) (acked : List D) (w : World D)
    (k : Observed D) : Prop where
  sound : Sound E (· ∈ k.hashed) w
  evidence : Evidence w k
  found : Found w k
  content : ∀ digest, digest ∈ acked ∨ (compound = none ∧ digest ∈ k.stored) →
    ContentOnly E (· ∈ k.hashed) w.db digest
  /-- a compound under an acknowledged digest finds a recipe there -/
  guard : ∀ digest ∈ acked, compound = some digest → w.db.recipes.has digest = true

/-- Only a commit stores recipes. -/
theorem learn_stored (k : Observed D) (r : Resp p) (hp : p.footprint ≠ .db) :
    (learn k p r).stored = k.stored := by
  cases p with
  | commit => exact absurd rfl hp
  | getChunk | getRecipe | getManifest | activeDictionary | syncPack | readPack => cases r <;> rfl
  | _ => rfl

/-- A backed batch puts only contents under acknowledged digests. -/
theorem ObjectInv.contentOnly_commit {compound : Option D} {acked : List D}
    {writes : List (Write D)} (hi : ObjectInv E compound acked w k)
    (hb : Backed E compound k writes)
    (hd : digest ∈ acked ∨ (compound = none ∧ digest ∈ (learn k (.commit writes) ()).stored)) :
    ContentOnly E (· ∈ k.hashed) (w.db.applyAll writes) digest := by
  intro recipe hget
  rcases w.db.applyAll_recipes writes digest with ⟨value, hwrite, hvalue⟩ | ⟨hnone, hold⟩
  · have heq : value = some recipe := hvalue.symm.trans hget
    rw [heq] at hwrite
    obtain ⟨chunks, hrecipe⟩ := hb.recipes digest recipe hwrite
    refine ⟨chunks, ⟨hrecipe.hashes, hrecipe.hashed⟩, ?_⟩
    rcases hrecipe.owner with howner | ⟨hcompound, hno, -⟩
    · exact howner
    · -- a compound is written only where no recipe was found
      rcases hd with hd | ⟨hnone, -⟩
      · have hhas := hi.guard digest hd hcompound
        rw [OrdMap.has, hi.found.noRecipes digest hno] at hhas
        cases hhas
      · rw [hnone] at hcompound
        cases hcompound
  · refine hi.content digest ?_ recipe (hold.symm.trans hget)
    rcases hd with hd | ⟨hcompound, hd⟩
    · exact Or.inl hd
    · rcases List.mem_append.mp hd with hd | hd
      · obtain ⟨recipe', hwrite⟩ := mem_recipesAdded.mp hd
        exact absurd hwrite (hnone _)
      · exact Or.inr ⟨hcompound, hd⟩

/-- **One request.** A caller that keeps `objectContract` keeps the store sound and its
observations true. -/
theorem objectContract_keeps (compound : Option D) (acked : List D) :
    (objectContract E compound).Keeps (handle E) (ObjectInv E compound acked) := by
  intro w k p r w' hi hpre h
  have hgrows := grows_learn k p r
  refine ⟨handle_objectContract _ h, ?_⟩
  · by_cases hf : p.footprint = .db
    · cases p with
      | commit writes =>
        cases h
        have hb : Backed E compound k writes := hpre
        refine ⟨hi.sound.commit (fun _ h => h) hi.evidence hi.found.standing hb, ?_,
          hi.found.commit hb, fun digest hd => hi.contentOnly_commit hb hd, ?_⟩
        · exact ⟨hi.evidence.appended, hi.evidence.dicts⟩
        · intro digest hd hcompound
          show (w.db.applyAll writes).recipes.has digest = true
          rcases w.db.applyAll_recipes writes digest with ⟨value, hwrite, hvalue⟩ | ⟨-, hold⟩
          · cases value with
            | none =>
              have hnone := (hb.deletions digest hwrite).1
              rw [hcompound] at hnone
              cases hnone
            | some recipe => exact OrdMap.has_iff.mpr ⟨recipe, hvalue⟩
          · rw [OrdMap.has, hold]
            exact hi.guard digest hd hcompound
      | _ => cases hf
    · have hrm : p.isRemoval = false := by
        cases p with
        | removePack id => exact hpre.elim
        | _ => rfl
      have hdb := (handle_sameBut h).db hf
      refine ⟨hi.sound.step hgrows.hashed hf hrm ?_ h,
        hi.evidence.learn hi.sound.packs hi.sound.dicts hrm h, hi.found.learn hf h, ?_, ?_⟩
      · rintro hash value rfl
        exact hpre
      · intro digest hd
        rw [hdb]
        refine ContentOnly.mono (hi.content digest ?_) hgrows.hashed
        rw [show (objectContract E compound).learn = learn from rfl, learn_stored k r hf] at hd
        exact hd
      · rw [hdb]
        exact hi.guard

end Gmeow
