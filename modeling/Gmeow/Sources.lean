import Gmeow.Annotations
import Gmeow.Projection
import Gmeow.Sweep

/-!
# Finding objects by their source

The source index keeps one owner for each source reference, the object last written under
it. Several objects may carry one reference, so the index can be read as long as the owner
is not deleted before the others.

* `lookupSourceObject` — the row of a reference, then the alias, each checked against the
  manifest it leads to;
* `SourcesIndexed` — every reference an object carries has a row that leads to an object
  that carries it;
* `lookup_finds_source` — so it is in every store made by calls none of which deletes the
  owner of a reference that is still carried;
* `lookup_loses_source` — a run in which one does.
-/

namespace Gmeow

open Prog

variable {D : Type} [LinearOrder D] {E : Env D} {m m' : Meta D}

/-! ## LookupSourceObject -/

/-- The index files of the v1 layout, by the key of their path. -/
structure LegacyFiles (D : Type) : Type where
  /-- `source-index/<key>.json` -/
  sourceIndex : OrdMap String (SourceIndexEntry D) := ∅

/-- `sourceRefMatches`. -/
def sourceRefMatches (item : Provenance) (ref : SourceObjectRef) : Bool :=
  sourceObjectRefFromProvenance item = ref

/-- `lookupSourceObjectViaAlias`: the version is not compared. -/
def lookupSourceObjectViaAlias (E : Env D) (ref : SourceObjectRef) : Proc D (Option D) := do
  match ← ask (.getSourceAlias (sourceAliasKey E ref)) with
  | none => return none
  | some aliased =>
    match ← ask (.getManifest aliased.digest) with
    | none => return none
    | some manifest =>
      if manifest.provenance.any fun item => item.sourceKind = ref.sourceKind &&
          item.sourceName = ref.sourceName && item.externalID = ref.externalID then
        return some aliased.digest
      else return none

/-- `LookupSourceObject`, in a store with these legacy files. -/
def lookupSourceObject (E : Env D) (legacy : LegacyFiles D) (ref : SourceObjectRef) :
    Proc D (Option D) := do
  ofExcept (validateSourceObjectRef ref)
  let packed ← ask (.getSourceIndex (sourceObjectRefKey E ref))
  match packed.or (legacy.sourceIndex.get (sourceObjectRefKey E ref)) with
  | none => lookupSourceObjectViaAlias E ref
  | some entry =>
    if entry.sourceObject ≠ ref then .fail "source object index key does not match payload"
    else
      match ← ask (.getManifest entry.objectDigest) with
      | none => return none
      | some manifest =>
        if manifest.provenance.any fun item => sourceRefMatches item ref then
          return some entry.objectDigest
        else return none

/-! ## References -/

/-- An object whose manifest has an entry of the reference. -/
def Carries (m : Meta D) (digest : D) (ref : SourceObjectRef) : Prop := ref ∈ m.refs digest

variable {ref : SourceObjectRef} {w : World D}

theorem carries_iff {digest : D} :
    Carries m digest ref ↔ ∃ manifest, m.manifests.get digest = some manifest ∧
      ∃ item ∈ manifest.provenance, sourceObjectRefFromProvenance item = ref := by
  rw [Carries, Meta.refs]
  cases m.manifests.get digest with
  | none => simp
  | some manifest => simp

/-- An entry of a reference with all that an index row needs. -/
def SourceObjectRef.Full (ref : SourceObjectRef) : Prop :=
  ref.sourceKind ≠ "" ∧ ref.sourceName ≠ "" ∧ ref.externalID ≠ ""

instance (ref : SourceObjectRef) : Decidable ref.Full :=
  inferInstanceAs (Decidable (_ ∧ _))

/-- A reference whose row leads to an object that carries it. -/
def Indexed (E : Env D) (m : Meta D) (ref : SourceObjectRef) : Prop :=
  ∃ entry, m.sourceIndex.get (sourceObjectRefKey E ref) = some entry ∧ entry.sourceObject = ref ∧
    Carries m entry.objectDigest ref

/-- The references carried have keys of their own. -/
def KeysApart (E : Env D) (refs : List SourceObjectRef) : Prop :=
  ∀ a ∈ refs, ∀ b ∈ refs, sourceObjectRefKey E a = sourceObjectRefKey E b → a = b

instance (refs : List SourceObjectRef) : Decidable (KeysApart E refs) :=
  inferInstanceAs (Decidable (∀ a ∈ refs, ∀ b ∈ refs, _))

/-- All references carried. -/
def Meta.carried (m : Meta D) : List SourceObjectRef :=
  m.manifests.entries.flatMap fun item => item.2.provenance.map sourceObjectRefFromProvenance

theorem Carries.mem {digest : D} (h : Carries m digest ref) : ref ∈ m.carried := by
  obtain ⟨manifest, hget, item, hmem, heq⟩ := carries_iff.mp h
  refine List.mem_flatMap.mpr ⟨(digest, manifest), OrdMap.mem_entries_iff.mpr hget, ?_⟩
  exact List.mem_map.mpr ⟨item, hmem, heq⟩

theorem mem_carried (h : ref ∈ m.carried) : ∃ digest, Carries m digest ref := by
  obtain ⟨⟨digest, manifest⟩, hentry, hmem⟩ := List.mem_flatMap.mp h
  obtain ⟨item, hitem, heq⟩ := List.mem_map.mp hmem
  exact ⟨digest, carries_iff.mpr ⟨manifest, OrdMap.mem_entries_iff.mp hentry, item, hitem, heq⟩⟩

/-- **The index is complete**, for the references in `P`. -/
structure SourcesIndexed (E : Env D) (P : SourceObjectRef → Prop) (m : Meta D) : Prop where
  valid : ∀ digest ref, Carries m digest ref → ref.Full → validateSourceObjectRef ref = .ok ()
  rows : ∀ digest ref, Carries m digest ref → ref.Full → P ref → Indexed E m ref
  apart : KeysApart E m.carried

/-! ## Rows written -/

section Rows

variable {digest : D} {provenance : List Provenance} {rows : List (Write D)}

/-- The rows written are rows of the references given. -/
theorem SourceRows.of_index (h : SourceRows E digest provenance rows) {key : String}
    {value : Option (SourceIndexEntry D)} (hmem : Write.sourceIndex key value ∈ rows) :
    ∃ item ∈ provenance, ∃ entry, value = some entry ∧
      key = sourceObjectRefKey E (sourceObjectRefFromProvenance item) ∧
      entry.objectDigest = digest ∧ entry.sourceObject = sourceObjectRefFromProvenance item := by
  induction h with
  | nil => cases hmem
  | @skip item rest rows _ _ ih =>
    obtain ⟨item, hitem, hrow⟩ := ih hmem
    exact ⟨item, List.mem_cons_of_mem _ hitem, hrow⟩
  | @row item rest rows entry aliased _ _ howner hsource _ _ ih =>
    simp only [List.mem_cons, Write.sourceIndex.injEq, reduceCtorEq, false_or] at hmem
    rcases hmem with ⟨rfl, rfl⟩ | hmem
    · exact ⟨item, List.mem_cons_self .., entry, rfl, rfl, howner, hsource⟩
    · obtain ⟨item, hitem, hrow⟩ := ih hmem
      exact ⟨item, List.mem_cons_of_mem _ hitem, hrow⟩

/-- Every full reference given is valid and gets a row. -/
theorem SourceRows.index (h : SourceRows E digest provenance rows) {item : Provenance}
    (hmem : item ∈ provenance) (hfull : (sourceObjectRefFromProvenance item).Full) :
    validateSourceObjectRef (sourceObjectRefFromProvenance item) = .ok () ∧
      ∃ entry, Write.sourceIndex (sourceObjectRefKey E (sourceObjectRefFromProvenance item))
        (some entry) ∈ rows := by
  induction h with
  | nil => cases hmem
  | skip hskip _ ih =>
    rcases List.mem_cons.mp hmem with rfl | hmem
    · obtain ⟨hkind, hname, hid⟩ := hfull
      rcases hskip with h | h | h
      · exact absurd h hkind
      · exact absurd h hname
      · exact absurd h hid
    · exact ih hmem
  | row _ hvalid _ _ _ _ ih =>
    rcases List.mem_cons.mp hmem with rfl | hmem
    · exact ⟨hvalid, _, List.mem_cons_self ..⟩
    · obtain ⟨hvalid, entry, hrow⟩ := ih hmem
      exact ⟨hvalid, entry, List.mem_cons_of_mem _ (List.mem_cons_of_mem _ hrow)⟩

/-- The index after the rows: a row of a reference given, or the old row of another key. -/
theorem SourceRows.get (h : SourceRows E digest provenance rows) (m : Meta D) (key : String) :
    (∃ item ∈ provenance, ∃ entry, (m.applyAll rows).sourceIndex.get key = some entry ∧
        key = sourceObjectRefKey E (sourceObjectRefFromProvenance item) ∧
        entry.objectDigest = digest ∧ entry.sourceObject = sourceObjectRefFromProvenance item) ∨
      ((m.applyAll rows).sourceIndex.get key = m.sourceIndex.get key ∧
        ∀ item ∈ provenance, (sourceObjectRefFromProvenance item).Full →
          key ≠ sourceObjectRefKey E (sourceObjectRefFromProvenance item)) := by
  rcases m.applyAll_sourceIndex rows key with ⟨value, hmem, hvalue⟩ | ⟨hnone, hold⟩
  · obtain ⟨item, hitem, entry, rfl, hkey, howner, hsource⟩ := h.of_index hmem
    exact Or.inl ⟨item, hitem, entry, hvalue, hkey, howner, hsource⟩
  · refine Or.inr ⟨hold, fun item hitem hfull hkey => ?_⟩
    obtain ⟨-, entry, hrow⟩ := h.index hitem hfull
    rw [← hkey] at hrow
    exact hnone _ hrow

end Rows

/-! ## Writes -/

omit [LinearOrder D] in
theorem sourceObjectRefKey_mergeKey (E : Env D) (item : Provenance) :
    sourceObjectRefKey E (sourceObjectRefFromProvenance item) =
      E.sha256Hex (utf8 (provenanceMergeKey item)) := rfl

/-- A manifest with the references stored before and those of `provenance`, up to their keys. -/
structure Absorbs (E : Env D) (m : Meta D) (digest : D) (provenance : List Provenance)
    (manifest : Manifest D) : Prop where
  source : ∀ item ∈ manifest.provenance,
    Carries m digest (sourceObjectRefFromProvenance item) ∨ item ∈ provenance
  stored : ∀ ref, Carries m digest ref → ∃ item ∈ manifest.provenance,
    sourceObjectRefKey E (sourceObjectRefFromProvenance item) = sourceObjectRefKey E ref
  given : ∀ other ∈ provenance, ∃ item ∈ manifest.provenance,
    sourceObjectRefKey E (sourceObjectRefFromProvenance item) =
      sourceObjectRefKey E (sourceObjectRefFromProvenance other)

section Absorbing

variable {digest : D} {provenance : List Provenance} {manifest : Manifest D}

/-- The first manifest of an object. -/
theorem Absorbs.first (hnone : m.manifests.get digest = none)
    (h : manifest.provenance = normalizeProvenance provenance) :
    Absorbs E m digest provenance manifest := by
  have hmem : ∀ item, item ∈ manifest.provenance ↔ item ∈ provenance := by
    intro item
    rw [h, normalizeProvenance, mem_sliceStable]
  refine ⟨fun item hitem => Or.inr ((hmem item).mp hitem), fun ref hcarries => ?_,
    fun other hother => ⟨other, (hmem other).mpr hother, rfl⟩⟩
  obtain ⟨stored, hget, -⟩ := carries_iff.mp hcarries
  rw [hnone] at hget
  cases hget

/-- A manifest merged into the one stored. -/
theorem Absorbs.merge {stored : Manifest D} {incoming : List Provenance}
    (hget : m.manifests.get digest = some stored)
    (hincoming : ∀ item, item ∈ incoming ↔ item ∈ provenance)
    (h : manifest.provenance = mergeProvenance stored.provenance incoming) :
    Absorbs E m digest provenance manifest := by
  have hkey : ∀ item, item ∈ stored.provenance ∨ item ∈ provenance →
      ∃ other ∈ manifest.provenance, sourceObjectRefKey E (sourceObjectRefFromProvenance other) =
        sourceObjectRefKey E (sourceObjectRefFromProvenance item) := by
    intro item hitem
    obtain ⟨other, hother, heq⟩ := mergeProvenance_key (hitem.imp_right (hincoming item).mpr)
    refine ⟨other, h ▸ hother, ?_⟩
    rw [sourceObjectRefKey_mergeKey, sourceObjectRefKey_mergeKey, heq]
  refine ⟨fun item hitem => ?_, fun ref hcarries => ?_, fun other hother => hkey other (Or.inr hother)⟩
  · rw [h] at hitem
    rcases mem_mergeProvenance hitem with hold | hnew
    · exact Or.inl (carries_iff.mpr ⟨stored, hget, item, hold, rfl⟩)
    · exact Or.inr ((hincoming item).mp hnew)
  · obtain ⟨other, hother, item, hitem, rfl⟩ := carries_iff.mp hcarries
    rw [hget] at hother
    cases hother
    exact hkey item (Or.inl hitem)

theorem WrittenOver.absorbs {incoming : Manifest D} {now : Time}
    (h : WrittenOver m digest incoming now manifest)
    (hincoming : incoming.provenance = normalizeProvenance provenance) :
    Absorbs E m digest provenance manifest := by
  obtain ⟨size, rfl⟩ := h
  rw [Meta.merged]
  cases hget : m.manifests.get digest with
  | none => exact .first hget hincoming
  | some stored =>
    have hmem : ∀ item, item ∈ incoming.provenance ↔ item ∈ provenance := by
      intro item
      rw [hincoming, normalizeProvenance, mem_sliceStable]
    exact .merge hget hmem rfl

end Absorbing

section Writing

variable {digest : D} {provenance : List Provenance} {manifest : Manifest D}
  {P : SourceObjectRef → Prop}

theorem carries_set (hset : m'.manifests = m.manifests.set digest manifest) (other : D)
    (ref : SourceObjectRef) :
    Carries m' other ref ↔
      if other = digest then ref ∈ manifest.provenance.map sourceObjectRefFromProvenance
      else Carries m other ref := by
  rw [Carries, Meta.refs, hset, OrdMap.get_set]
  split
  · rfl
  · rfl

/-- A write of an object keeps the index complete, if keys are not shared. -/
theorem SourcesIndexed.updated (h : SourcesIndexed E P m)
    (hupdated : Updated E digest manifest provenance m m')
    (habsorbs : Absorbs E m digest provenance manifest)
    (hapart : KeysApart E (m.carried ++ provenance.map sourceObjectRefFromProvenance)) :
    SourcesIndexed E P m' := by
  obtain ⟨rows, hrows, hindex, -⟩ := hupdated.rows
  have hset := carries_set hupdated.manifests
  -- a reference carried now was carried before or is given
  have hsource : ∀ other ref, Carries m' other ref →
      (∃ before, Carries m before ref) ∨ ∃ item ∈ provenance, sourceObjectRefFromProvenance item = ref := by
    intro other ref hcarries
    rw [hset] at hcarries
    split at hcarries
    · obtain ⟨item, hitem, rfl⟩ := List.mem_map.mp hcarries
      rcases habsorbs.source item hitem with hold | hnew
      · exact Or.inl ⟨digest, hold⟩
      · exact Or.inr ⟨item, hnew, rfl⟩
    · exact Or.inl ⟨other, hcarries⟩
  have hknown : ∀ other ref, Carries m' other ref →
      ref ∈ m.carried ++ provenance.map sourceObjectRefFromProvenance := by
    intro other ref hcarries
    rcases hsource other ref hcarries with ⟨before, hold⟩ | ⟨item, hitem, rfl⟩
    · exact List.mem_append_left _ hold.mem
    · exact List.mem_append_right _ (List.mem_map.mpr ⟨item, hitem, rfl⟩)
  -- the object written carries what it carried and what is given
  have hcarries : ∀ ref, ref ∈ m.carried ++ provenance.map sourceObjectRefFromProvenance →
      (∃ item ∈ manifest.provenance, sourceObjectRefKey E (sourceObjectRefFromProvenance item) =
        sourceObjectRefKey E ref) → Carries m' digest ref := by
    rintro ref href ⟨item, hitem, hkey⟩
    have hcarry : Carries m' digest (sourceObjectRefFromProvenance item) := by
      rw [hset, if_pos rfl]
      exact List.mem_map.mpr ⟨item, hitem, rfl⟩
    rw [← hapart _ (hknown _ _ hcarry) ref href hkey]
    exact hcarry
  refine ⟨fun other ref hcarry hfull => ?_, fun other ref hcarry hfull hP => ?_, ?_⟩
  · rcases hsource other ref hcarry with ⟨before, hold⟩ | ⟨item, hitem, rfl⟩
    · exact h.valid before ref hold hfull
    · exact (hrows.index hitem hfull).1
  · have href := hknown other ref hcarry
    rw [Indexed, hindex]
    rcases hrows.get m (sourceObjectRefKey E ref) with
      ⟨item, hitem, entry, hget, hkey, howner, hrow⟩ | ⟨hsame, hnone⟩
    · -- the row now has the reference given, which is this one
      have hgiven : sourceObjectRefFromProvenance item ∈
          m.carried ++ provenance.map sourceObjectRefFromProvenance :=
        List.mem_append_right _ (List.mem_map.mpr ⟨item, hitem, rfl⟩)
      have heq := hapart _ href _ hgiven hkey
      refine ⟨entry, hget, hrow.trans heq.symm, ?_⟩
      rw [howner, heq]
      exact hcarries _ hgiven (habsorbs.given item hitem)
    · rcases hsource other ref hcarry with ⟨before, hold⟩ | ⟨item, hitem, rfl⟩
      · obtain ⟨entry, hget, hrow, howner⟩ := h.rows before ref hold hfull hP
        refine ⟨entry, hsame.trans hget, hrow, ?_⟩
        by_cases hdigest : entry.objectDigest = digest
        · rw [hdigest] at howner ⊢
          exact hcarries ref href (habsorbs.stored ref howner)
        · rw [hset, if_neg hdigest]
          exact howner
      · exact absurd rfl (hnone item hitem hfull)
  · intro a ha b hb hkey
    obtain ⟨x, hx⟩ := mem_carried ha
    obtain ⟨y, hy⟩ := mem_carried hb
    exact hapart a (hknown x a hx) b (hknown y b hy) hkey

end Writing

/-! ## Deletions -/

section Deleting

variable {digest : D} {P : SourceObjectRef → Prop}

theorem carries_erase (herase : m'.manifests = m.manifests.erase digest) (other : D)
    (ref : SourceObjectRef) : Carries m' other ref ↔ other ≠ digest ∧ Carries m other ref := by
  rw [Carries, Carries, Meta.refs, Meta.refs, herase, OrdMap.get_erase]
  split
  · rename_i heq
    simp [heq]
  · rename_i hne
    simp [hne]

omit [LinearOrder D] in
theorem KeysApart.mono {refs refs' : List SourceObjectRef} (h : KeysApart E refs)
    (hsub : ∀ ref ∈ refs', ref ∈ refs) : KeysApart E refs' :=
  fun a ha b hb hkey => h a (hsub a ha) b (hsub b hb) hkey

theorem carried_sub (h : ∀ other ref, Carries m' other ref → Carries m other ref) :
    ∀ ref ∈ m'.carried, ref ∈ m.carried := by
  intro ref href
  obtain ⟨other, hcarries⟩ := mem_carried href
  exact (h other ref hcarries).mem

/-- A deletion of an object that owns no row of a reference another carries. -/
theorem SourcesIndexed.deleted (h : SourcesIndexed E P m) (hdeleted : Deleted E digest m m')
    (howned : ∀ ref entry, ref.Full → P ref →
      m.sourceIndex.get (sourceObjectRefKey E ref) = some entry → entry.objectDigest = digest →
      Carries m digest ref → ∀ other, other ≠ digest → ¬Carries m other ref) :
    SourcesIndexed E P m' := by
  have herase := carries_erase hdeleted.manifests
  have hsub : ∀ other ref, Carries m' other ref → Carries m other ref :=
    fun other ref hcarries => ((herase other ref).mp hcarries).2
  refine ⟨fun other ref hcarries hfull => h.valid other ref (hsub other ref hcarries) hfull,
    fun other ref hcarries hfull hP => ?_, h.apart.mono (carried_sub hsub)⟩
  obtain ⟨hne, hcarries⟩ := (herase other ref).mp hcarries
  obtain ⟨entry, hget, hrow, howner⟩ := h.rows other ref hcarries hfull hP
  have hother : entry.objectDigest ≠ digest := fun heq =>
    howned ref entry hfull hP hget heq (heq ▸ howner) other hne hcarries
  refine ⟨entry, ?_, hrow, (herase _ ref).mpr ⟨hother, howner⟩⟩
  rcases hdeleted.disowned.sourceIndex (sourceObjectRefKey E ref) with hsame | ⟨-, -, -, -, old, hold, heq⟩
  · rw [hsame, hget]
  · rw [hget] at hold
    cases hold
    exact absurd heq hother

/-- A reference of the source. -/
def SourceObjectRef.OfSource (sourceKind sourceName : String) (ref : SourceObjectRef) : Prop :=
  ref.sourceKind = sourceKind ∧ ref.sourceName = sourceName

theorem ofSource_iff {sourceKind sourceName : String} {item : Provenance} :
    item.ofSource sourceKind sourceName = true ↔
      (sourceObjectRefFromProvenance item).OfSource sourceKind sourceName := by
  rw [Provenance.ofSource, Bool.and_eq_true, decide_eq_true_eq, decide_eq_true_eq]
  rfl

variable {sourceKind sourceName : String} {now : Time}

/-- A source that is detached takes its own references from the object, and nothing else changes. -/
theorem carries_without {manifest : Manifest D} (hget : m.manifests.get digest = some manifest)
    (hset : m'.manifests = m.manifests.set digest (manifest.without sourceKind sourceName now))
    (other : D) (ref : SourceObjectRef) :
    Carries m' other ref ↔
      Carries m other ref ∧ (other = digest → ¬ref.OfSource sourceKind sourceName) := by
  rw [carries_set hset]
  split
  · rename_i heq
    rw [heq, carries_iff, hget, List.mem_map]
    simp only [Manifest.without, List.mem_filter, Bool.not_eq_true', Option.some.injEq,
      exists_eq_left', forall_const]
    constructor
    · rintro ⟨item, ⟨hitem, hkept⟩, rfl⟩
      refine ⟨⟨item, hitem, rfl⟩, fun hof => ?_⟩
      rw [ofSource_iff.mpr hof] at hkept
      cases hkept
    · rintro ⟨⟨item, hitem, rfl⟩, hof⟩
      exact ⟨item, ⟨hitem, Bool.eq_false_iff.mpr fun h => hof (ofSource_iff.mp h)⟩, rfl⟩
  · rename_i hne
    exact ⟨fun h => ⟨h, fun heq => absurd heq hne⟩, fun h => h.1⟩

/-- Detaching a source from an object: its references of that source are gone, and nothing
is carried that was not before. -/
theorem Detached.carries (h : Detached E sourceKind sourceName digest now m m') (other : D)
    (ref : SourceObjectRef) :
    (Carries m' other ref → Carries m other ref) ∧
      (ref.OfSource sourceKind sourceName → ¬Carries m' digest ref) ∧
      (¬ref.OfSource sourceKind sourceName → Carries m other ref → Carries m' other ref) := by
  cases h with
  | nothing hnone =>
    refine ⟨fun h => h, fun hof hcarries => ?_, fun _ h => h⟩
    obtain ⟨manifest, hget, item, hitem, rfl⟩ := carries_iff.mp hcarries
    have hfalse := hnone manifest hget
    rw [manifestHasSource, List.any_eq_false] at hfalse
    exact hfalse item hitem (ofSource_iff.mpr hof)
  | @deleted manifest _ hget _ hall hdeleted =>
    have herase := carries_erase hdeleted.manifests
    refine ⟨fun h => ((herase other ref).mp h).2, fun _ h => ((herase digest ref).mp h).1 rfl,
      fun hof h => (herase other ref).mpr ⟨?_, h⟩⟩
    -- everything the object carries is of the source
    rintro rfl
    obtain ⟨stored, hstored, item, hitem, rfl⟩ := carries_iff.mp h
    rw [hget] at hstored
    cases hstored
    exact hof (ofSource_iff.mp (hall item hitem))
  | @removed manifest m₁ _ hget _ _ hupdated houtside _ =>
    have hset : m'.manifests = m.manifests.set digest (manifest.without sourceKind sourceName now) :=
      (houtside.manifests (by decide)).trans hupdated.manifests
    have hwithout := carries_without hget hset
    refine ⟨fun h => ((hwithout other ref).mp h).1, fun hof h => ((hwithout digest ref).mp h).2 rfl hof,
      fun hof h => (hwithout other ref).mpr ⟨h, fun _ => hof⟩⟩

/-- Detaching a source keeps the rows of all other references. -/
theorem SourcesIndexed.detached (h : SourcesIndexed E (fun ref => ¬ref.OfSource sourceKind sourceName) m)
    (hdetached : Detached E sourceKind sourceName digest now m m') :
    SourcesIndexed E (fun ref => ¬ref.OfSource sourceKind sourceName) m' := by
  have hcarries := hdetached.carries
  cases hdetached with
  | nothing => exact h
  | @deleted manifest _ hget _ hall hdeleted =>
    refine h.deleted hdeleted fun ref entry _ hof _ _ hcarry => ?_
    obtain ⟨stored, hstored, item, hitem, rfl⟩ := carries_iff.mp hcarry
    rw [hget] at hstored
    cases hstored
    exact absurd (ofSource_iff.mp (hall item hitem)) hof
  | @removed manifest m₁ _ hget _ _ hupdated houtside hdisowned =>
    have hsub : ∀ other ref, Carries m' other ref → Carries m other ref :=
      fun other ref => (hcarries other ref).1
    refine ⟨fun other ref hcarry hfull => h.valid other ref (hsub other ref hcarry) hfull,
      fun other ref hcarry hfull hof => ?_, h.apart.mono (carried_sub hsub)⟩
    obtain ⟨entry, hentry, hrow, howner⟩ := h.rows other ref (hsub other ref hcarry) hfull hof
    refine ⟨entry, ?_, hrow, (hcarries _ ref).2.2 hof howner⟩
    have hindex : m₁.sourceIndex = m.sourceIndex := by
      obtain ⟨rows, hrows, hindex, -⟩ := hupdated.rows
      cases hrows
      exact hindex
    rcases hdisowned.sourceIndex (sourceObjectRefKey E ref) with hsame | ⟨-, removed, hmem, hkey, -⟩
    · rw [hsame, hindex, hentry]
    · -- the row deleted is of a reference of the source, so it has another key
      obtain ⟨item, hitem, rfl⟩ := List.mem_map.mp hmem
      obtain ⟨hitem, hof'⟩ := List.mem_filter.mp hitem
      have hremoved : Carries m digest (sourceObjectRefFromProvenance item) :=
        carries_iff.mpr ⟨manifest, hget, item, hitem, rfl⟩
      have heq := h.apart _ (hsub other ref hcarry).mem _ hremoved.mem hkey
      rw [heq] at hof
      exact absurd (ofSource_iff.mp hof') hof

/-- **After `DeleteImport`** nothing of the source is carried. -/
theorem Detaches.carries {digests : List D} (h : Detaches E sourceKind sourceName digests m m') :
    (∀ other ref, Carries m' other ref → Carries m other ref) ∧
      ∀ other ∈ digests, ∀ ref : SourceObjectRef, ref.OfSource sourceKind sourceName →
        ¬Carries m' other ref := by
  induction h with
  | nil => exact ⟨fun _ _ h => h, fun _ h => nomatch h⟩
  | cons hdetached _ ih =>
    obtain ⟨hsub, hgone⟩ := ih
    refine ⟨fun other ref h => (hdetached.carries other ref).1 (hsub other ref h),
      fun other hmem ref hof h => ?_⟩
    rcases List.mem_cons.mp hmem with rfl | hmem
    · exact (hdetached.carries other ref).2.1 hof (hsub other ref h)
    · exact hgone other hmem ref hof h

theorem Detaches.ofSource_gone (h : Detaches E sourceKind sourceName (m.ofSource sourceKind sourceName) m m')
    {other : D} {ref : SourceObjectRef} (hcarries : Carries m' other ref) :
    ¬ref.OfSource sourceKind sourceName := by
  intro hof
  obtain ⟨hsub, hgone⟩ := h.carries
  refine hgone other ?_ ref hof hcarries
  obtain ⟨manifest, hget, item, hitem, rfl⟩ := carries_iff.mp (hsub other ref hcarries)
  refine List.mem_map.mpr ⟨(other, manifest), List.mem_filter.mpr ⟨OrdMap.mem_entries_iff.mpr hget, ?_⟩, rfl⟩
  exact List.any_eq_true.mpr ⟨item, hitem, ofSource_iff.mpr hof⟩

theorem SourcesIndexed.detaches {digests : List D}
    (h : SourcesIndexed E (fun ref => ¬ref.OfSource sourceKind sourceName) m)
    (hdetaches : Detaches E sourceKind sourceName digests m m') :
    SourcesIndexed E (fun ref => ¬ref.OfSource sourceKind sourceName) m' := by
  induction hdetaches with
  | nil => exact h
  | cons hdetached _ ih => exact ih (h.detached hdetached)

end Deleting

/-! ## Calls -/

/-- The object owns no row of a reference that another object carries. -/
def OwnersKept (E : Env D) (m : Meta D) (digest : D) : Prop :=
  ∀ ref ∈ m.refs digest,
    (m.sourceIndex.get (sourceObjectRefKey E ref)).map (fun entry => entry.objectDigest) =
      some digest →
    ∀ item ∈ m.manifests.entries, item.1 ≠ digest →
      ref ∉ item.2.provenance.map sourceObjectRefFromProvenance

/-- The writes and deletions, as long as no two references share a key and no owner of a
reference is deleted before the others that carry it. -/
def SourcesKept (E : Env D) (w : World D) : Call D → Prop
  | .put request =>
    KeysApart E (w.db.carried ++ request.provenance.map sourceObjectRefFromProvenance)
  | .putCompound request =>
    KeysApart E (w.db.carried ++ request.provenance.map sourceObjectRefFromProvenance)
  | .attachProvenance _ provenance =>
    KeysApart E (w.db.carried ++ provenance.map sourceObjectRefFromProvenance)
  | .deleteObject digest => OwnersKept E w.db digest
  | .deleteImport _ _ => True
  | _ => False

instance (w : World D) : ∀ op : Call D, Decidable (SourcesKept E w op)
  | .put _ => inferInstanceAs (Decidable (KeysApart E _))
  | .putCompound _ => inferInstanceAs (Decidable (KeysApart E _))
  | .attachProvenance _ _ => inferInstanceAs (Decidable (KeysApart E _))
  | .deleteObject digest =>
    inferInstanceAs (Decidable (∀ ref ∈ w.db.refs digest, _ → ∀ item ∈ w.db.manifests.entries, _))
  | .deleteImport _ _ => inferInstanceAs (Decidable True)
  | .writeAnnotationRecord _ => inferInstanceAs (Decidable False)
  | .writeOverlays _ _ => inferInstanceAs (Decidable False)
  | .gcWithGrace _ => inferInstanceAs (Decidable False)
  | .repack => inferInstanceAs (Decidable False)

theorem SourcesIndexed.same {P : SourceObjectRef → Prop} (h : SourcesIndexed E P m)
    (hmanifests : m'.manifests = m.manifests) (hindex : m'.sourceIndex = m.sourceIndex) :
    SourcesIndexed E P m' := by
  have hcarries : ∀ digest ref, Carries m' digest ref ↔ Carries m digest ref := by
    intro digest ref
    rw [Carries, Carries, Meta.refs, Meta.refs, hmanifests]
  refine ⟨fun digest ref hcarry => h.valid digest ref ((hcarries digest ref).mp hcarry),
    fun digest ref hcarry hfull hP => ?_, ?_⟩
  · obtain ⟨entry, hget, hrow, howner⟩ := h.rows digest ref ((hcarries digest ref).mp hcarry) hfull hP
    exact ⟨entry, by rw [hindex, hget], hrow, (hcarries _ ref).mpr howner⟩
  · rw [Meta.carried, hmanifests]
    exact h.apart

/-- One call. -/
theorem SourcesIndexed.call {w' : World D} {op : Call D} {r : Except String (Option D)}
    (h : SourcesIndexed E (fun _ => True) w.db) (hcond : SourcesKept E w op)
    (hrun : runAlone E (op.prog E) w = some (r, w')) : SourcesIndexed E (fun _ => True) w'.db := by
  cases op with
  | put request =>
    obtain ⟨r', hrun⟩ := run_void hrun
    obtain ⟨-, ⟨-, -, hsame⟩ | ⟨-, -, c₁, manifest, -, hover, hupdated⟩⟩ := (put_does request).run hrun
    · rw [hsame]; exact h
    · exact h.updated hupdated (hover.absorbs rfl) hcond
  | putCompound request =>
    obtain ⟨r', hrun⟩ := run_void hrun
    obtain ⟨-, ⟨-, -, hsame⟩ | ⟨c₁, m₁, manifest, -, hover, hupdated, -, hadded, -⟩⟩ :=
      (putCompound_does request).run hrun
    · rw [hsame]; exact h
    · have hwritten := h.updated hupdated (hover.absorbs rfl) hcond
      exact hwritten.same (hadded.outside.manifests (by decide))
        (hadded.outside.sourceIndex (by decide))
  | attachProvenance digest provenance =>
    obtain ⟨r', hrun⟩ := run_void hrun
    obtain ⟨-, ⟨hsame, -⟩ | ⟨-, manifest, hget, hupdated⟩⟩ :=
      (attachProvenance_does digest provenance).run hrun
    · rw [hsame]; exact h
    · exact h.updated hupdated (.merge hget (fun _ => Iff.rfl) rfl) hcond
  | deleteObject digest =>
    obtain ⟨r', hrun⟩ := run_void hrun
    obtain ⟨-, -, hdeleted⟩ := (deleteObject_does digest).run hrun
    refine h.deleted hdeleted fun ref entry _ _ hget howner hcarry other hne hcarries => ?_
    obtain ⟨manifest, hmanifest, item, hitem, heq⟩ := carries_iff.mp hcarries
    refine hcond ref hcarry (by rw [hget, ← howner]; rfl) (other, manifest)
      (OrdMap.mem_entries_iff.mpr hmanifest) hne ?_
    exact List.mem_map.mpr ⟨item, hitem, heq⟩
  | deleteImport sourceKind sourceName =>
    obtain ⟨r', hrun⟩ := run_void hrun
    obtain ⟨-, ⟨-, -, hsame⟩ | ⟨-, hdetaches⟩⟩ := (deleteImport_does sourceKind sourceName).run hrun
    · rw [hsame]; exact h
    · have hothers := SourcesIndexed.detaches
        ⟨h.valid, fun digest ref hcarries hfull _ => h.rows digest ref hcarries hfull trivial, h.apart⟩
        hdetaches
      exact ⟨hothers.valid, fun digest ref hcarries hfull _ =>
        hothers.rows digest ref hcarries hfull (hdetaches.ofSource_gone hcarries), hothers.apart⟩
  | _ => exact hcond.elim

theorem CallsFrom.sourcesIndexed {clock : Nat → Time}
    (h : CallsFrom E (SourcesKept E) { clock := clock } w) :
    SourcesIndexed E (fun _ => True) w.db := by
  induction h with
  | start =>
    refine ⟨fun digest ref hcarries => ?_, fun digest ref hcarries => ?_, fun a ha => nomatch ha⟩
    · obtain ⟨manifest, hget, -⟩ := carries_iff.mp hcarries
      cases hget
    · obtain ⟨manifest, hget, -⟩ := carries_iff.mp hcarries
      cases hget
  | call _ hcond hrun ih => exact ih.call hcond hrun

/-- **Reading the index.** A reference with a row of its own is found. -/
theorem lookupSourceObject_finds (legacy : LegacyFiles D)
    (hvalid : validateSourceObjectRef ref = .ok ()) (h : Indexed E w.db ref) :
    ∃ found, ReadsBack E (lookupSourceObject E legacy ref) w (some found) ∧
      Carries w.db found ref := by
  obtain ⟨entry, hentry, hrow, hcarries⟩ := h
  obtain ⟨manifest, hmanifest, item, hitem, hitemref⟩ := carries_iff.mp hcarries
  refine ⟨entry.objectDigest, ?_, hcarries⟩
  have hwp : (lookupSourceObject E legacy ref).wp (handle E) w fun r w' =>
      r = .ok (some entry.objectDigest) := by
    rw [lookupSourceObject, hvalid]
    refine wp_ask_bind rfl ?_
    rw [hentry, Option.some_or]
    dsimp only
    rw [if_neg (not_not.mpr hrow)]
    refine wp_ask_bind rfl ?_
    rw [hmanifest]
    dsimp only
    rw [if_pos (List.any_eq_true.mpr ⟨item, hitem, decide_eq_true hitemref⟩)]
    rfl
  obtain ⟨r, w', hrun, rfl⟩ := wp_iff_run.mp hwp
  exact ⟨w', hrun⟩

/-- **The source index is complete.** In every store made by calls none of which makes two
references share a key or deletes the owner of a reference that others carry, every full
reference of every object is found, and the object found carries it. -/
theorem lookup_finds_source {clock : Nat → Time} {w : World D}
    (h : CallsFrom E (SourcesKept E) { clock := clock } w) {digest : D} {manifest : Manifest D}
    (hget : w.db.manifests.get digest = some manifest) {item : Provenance}
    (hitem : item ∈ manifest.provenance) (hfull : (sourceObjectRefFromProvenance item).Full) :
    ∃ found, ReadsBack E (lookupSourceObject E { } (sourceObjectRefFromProvenance item)) w
        (some found) ∧
      Carries w.db found (sourceObjectRefFromProvenance item) := by
  have hcarries : Carries w.db digest (sourceObjectRefFromProvenance item) :=
    carries_iff.mpr ⟨manifest, hget, item, hitem, rfl⟩
  have hindexed := h.sourcesIndexed
  exact lookupSourceObject_finds { } (hindexed.valid digest _ hcarries hfull)
    (hindexed.rows digest _ hcarries hfull trivial)

/-! ## An owner deleted -/

/-- `codecEnv` with index keys that show what they are made of. -/
def namedEnv : Env Nat :=
  { codecEnv with sha256Hex := fun bytes => String.ofList (bytes.map fun b => Char.ofNat b.toNat) }

/-- A message seen by one source. -/
def seenMessage : Provenance :=
  { sourceKind := "gmail", sourceName := "primary", externalID := "message-1" }

/-- A letter, put as the message. -/
def putSeen (second : Bool) : Call Nat :=
  .put { reader := if second then .short (utf8 "b") short_b else .short (utf8 "a") short_a
         facets := [{ kind := "file" }], provenance := [seenMessage] }

/-- The message is put as `a`, then as `b`, and `b` is deleted: `a` carries the reference and
is not found. -/
theorem lookup_loses_source :
    ∃ w : World Nat, runSequence namedEnv [putSeen false, putSeen true,
        .deleteObject (namedEnv.blake3Hex (utf8 "b"))] { } = some w ∧
      Carries w.db (namedEnv.blake3Hex (utf8 "a")) (sourceObjectRefFromProvenance seenMessage) ∧
      (sourceObjectRefFromProvenance seenMessage).Full ∧
      ReadsBack namedEnv (lookupSourceObject namedEnv { } (sourceObjectRefFromProvenance seenMessage))
        w none := by
  have heval : ((runSequence namedEnv [putSeen false, putSeen true,
      .deleteObject (namedEnv.blake3Hex (utf8 "b"))] { }).any fun w =>
      decide (sourceObjectRefFromProvenance seenMessage ∈
        w.db.refs (namedEnv.blake3Hex (utf8 "a"))) &&
      decide (readResult namedEnv (lookupSourceObject namedEnv { }
        (sourceObjectRefFromProvenance seenMessage)) w = some none)) = true := by
    decide +kernel
  obtain ⟨w, hw, heval⟩ := (Option.any_eq_true _ _).mp heval
  rw [Bool.and_eq_true, decide_eq_true_eq, decide_eq_true_eq] at heval
  exact ⟨w, hw, heval.1, by decide, readsBack_of_result heval.2⟩

/-- The message is put as `a`, then as `b`, and `a` is deleted: the reference leads to `b`. -/
theorem lookup_finds_source_owner :
    ∃ (w : World Nat) (found : Nat), runSequence namedEnv [putSeen false, putSeen true,
        .deleteObject (namedEnv.blake3Hex (utf8 "a"))] { } = some w ∧
      ReadsBack namedEnv (lookupSourceObject namedEnv { } (sourceObjectRefFromProvenance seenMessage))
        w (some found) ∧
      Carries w.db found (sourceObjectRefFromProvenance seenMessage) := by
  have heval : (checkSequence namedEnv (SourcesKept namedEnv) [putSeen false, putSeen true,
      .deleteObject (namedEnv.blake3Hex (utf8 "a"))] { } &&
      (runSequence namedEnv [putSeen false, putSeen true,
        .deleteObject (namedEnv.blake3Hex (utf8 "a"))] { }).any fun w =>
          (w.db.manifests.get (namedEnv.blake3Hex (utf8 "b"))).any fun manifest =>
            decide (seenMessage ∈ manifest.provenance)) = true := by
    decide +kernel
  rw [Bool.and_eq_true] at heval
  obtain ⟨hcheck, heval⟩ := heval
  obtain ⟨w, hw, heval⟩ := (Option.any_eq_true _ _).mp heval
  obtain ⟨manifest, hget, hitem⟩ := (Option.any_eq_true _ _).mp heval
  obtain ⟨found, hfound, hcarries⟩ := lookup_finds_source (.sequence .start hcheck hw) hget
    (of_decide_eq_true hitem) (by decide)
  exact ⟨w, found, hw, hfound, hcarries⟩

end Gmeow
