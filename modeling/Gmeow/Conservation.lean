import Gmeow.Repair

/-!
# What a repair conserves

`Repair` folds entities together, round after round, and Go visits the members of a round in any
order. Whatever the order, every entity has one successor among those that are left; the successor
holds its claims, each with a span that contains the one before, and it holds nothing that none of
its entities held.

Bounds are compared as texts where spans are widened, and read as times where they are used: one
that is empty or cannot be read is unbounded then. Texts of times are not ordered as the times are,
`2020-01-01T00:00:00.5Z` comes before `2020-01-01T00:00:00Z`. So there are two notions of a span that
contains another one, and the first implies the second where the bounds of a claim are aligned.

* `ClaimEntry.Covers` — a span contains another one, by the order of the texts;
* `ClaimEntry.Contains` — the same in time; `Aligned`, `Aligned.contains`;
* `ClaimEntry.DrawnFrom` — an entry has no bounds that were not there before;
* `EntityLedger.Conserves` — ledgers before and after; `foldMembers_conserves` — the fold, in any
  order;
* `Indexed`, `Adds`, `rebuild_indexed` — the indexes of a ledger, and what adding claims does;
* `repairSuccessor` — where an entity goes in a repair;
* `repair_conserves` — what a repair does, whether it fails or not;
* `Refolds`, `repair_refolds` — the same without the spans.
-/

namespace Gmeow

/-! ## Spans -/

/-- A claim as an entity holds it first. -/
def ClaimInput.held (claim : ClaimInput) : ClaimEntry :=
  ⟨claim.text, claim.validFrom, claim.validUntil⟩

/-- A span that begins with the first bound begins no later than one with the second, by the order
of the texts. -/
def BeginsBy (bound bound' : String) : Prop := bound = "" ∨ bound' ≠ "" ∧ bound ≤ bound'

/-- A span that ends with the first bound ends no earlier than one with the second, by the order of
the texts. -/
def EndsAfter (bound bound' : String) : Prop := bound = "" ∨ bound' ≠ "" ∧ bound' ≤ bound

variable {a : String} {entry : ClaimEntry} {row : OrdMap String ClaimEntry}
  {assign : OrdMap String String}

theorem BeginsBy.rfl : BeginsBy a a := by
  by_cases h : a = ""
  · exact Or.inl h
  · exact Or.inr ⟨h, le_refl a⟩

theorem EndsAfter.rfl : EndsAfter a a := by
  by_cases h : a = ""
  · exact Or.inl h
  · exact Or.inr ⟨h, le_refl a⟩

theorem BeginsBy.trans {b c : String} (h : BeginsBy a b) (h' : BeginsBy b c) : BeginsBy a c := by
  rcases h with h | ⟨hne, hle⟩
  · exact Or.inl h
  rcases h' with h' | ⟨hne', hle'⟩
  · exact absurd h' hne
  · exact Or.inr ⟨hne', hle.trans hle'⟩

theorem EndsAfter.trans {b c : String} (h : EndsAfter a b) (h' : EndsAfter b c) :
    EndsAfter a c := by
  rcases h with h | ⟨hne, hle⟩
  · exact Or.inl h
  rcases h' with h' | ⟨hne', hle'⟩
  · exact absurd h' hne
  · exact Or.inr ⟨hne', hle'.trans hle⟩

theorem earlierBound_begins (a b : String) :
    BeginsBy (earlierBound a b) a ∧ BeginsBy (earlierBound a b) b := by
  rw [earlierBound]
  split
  · exact ⟨Or.inl rfl, Or.inl rfl⟩
  rename_i hne
  obtain ⟨ha, hb⟩ := not_or.mp hne
  split
  · rename_i hlt
    exact ⟨Or.inr ⟨ha, hlt.le⟩, .rfl⟩
  · rename_i hnot
    exact ⟨.rfl, Or.inr ⟨hb, not_lt.mp hnot⟩⟩

theorem laterBound_ends (a b : String) :
    EndsAfter (laterBound a b) a ∧ EndsAfter (laterBound a b) b := by
  rw [laterBound]
  split
  · exact ⟨Or.inl rfl, Or.inl rfl⟩
  rename_i hne
  obtain ⟨ha, hb⟩ := not_or.mp hne
  split
  · rename_i hlt
    exact ⟨Or.inr ⟨ha, hlt.le⟩, .rfl⟩
  · rename_i hnot
    exact ⟨.rfl, Or.inr ⟨hb, not_lt.mp hnot⟩⟩

/-- The span of an entry contains that of two bounds. -/
structure ClaimEntry.Covers (entry : ClaimEntry) (validFrom validUntil : String) : Prop where
  begins : BeginsBy entry.validFrom validFrom
  ends : EndsAfter entry.validUntil validUntil

theorem ClaimEntry.Covers.rfl :
    entry.Covers entry.validFrom entry.validUntil := ⟨.rfl, .rfl⟩

theorem ClaimEntry.Covers.trans {entry' : ClaimEntry} {validFrom validUntil : String}
    (h : entry.Covers entry'.validFrom entry'.validUntil)
    (h' : entry'.Covers validFrom validUntil) : entry.Covers validFrom validUntil :=
  ⟨h.begins.trans h'.begins, h.ends.trans h'.ends⟩

/-! ### Bounds as times -/

/-- A bound as `parseValidity` reads it, for `time.Parse` of RFC 3339 texts. -/
def boundTime (parseTime : String → Option Int) (bound : String) : Option Int :=
  if bound = "" then none else parseTime bound

/-- The span of an entry contains that of two bounds, in time. A side without a time is unbounded. -/
structure ClaimEntry.Contains (parseTime : String → Option Int) (entry : ClaimEntry)
    (validFrom validUntil : String) : Prop where
  begins : ∀ t ∈ boundTime parseTime entry.validFrom, ∃ t' ∈ boundTime parseTime validFrom, t ≤ t'
  ends : ∀ t ∈ boundTime parseTime entry.validUntil, ∃ t' ∈ boundTime parseTime validUntil, t' ≤ t

variable {parseTime : String → Option Int} {entries : Set ClaimEntry} {old : ClaimEntry}

instance (validFrom validUntil : String) :
    Decidable (entry.Contains parseTime validFrom validUntil) :=
  decidable_of_iff (_ ∧ _) ⟨fun h => ⟨h.1, h.2⟩, fun h => ⟨h.begins, h.ends⟩⟩

theorem ClaimEntry.Contains.trans {validFrom validUntil : String}
    (h : entry.Contains parseTime old.validFrom old.validUntil)
    (h' : old.Contains parseTime validFrom validUntil) :
    entry.Contains parseTime validFrom validUntil := by
  constructor
  · intro t ht
    obtain ⟨t', ht', hle⟩ := h.begins t ht
    obtain ⟨t'', ht'', hle'⟩ := h'.begins t' ht'
    exact ⟨t'', ht'', hle.trans hle'⟩
  · intro t ht
    obtain ⟨t', ht', hle⟩ := h.ends t ht
    obtain ⟨t'', ht'', hle'⟩ := h'.ends t' ht'
    exact ⟨t'', ht'', hle'.trans hle⟩

/-- If the one entry comes first with the bound it begins with, or last with the bound it ends with,
as a text, then also in time. -/
def AlignedWith (parseTime : String → Option Int) (x y : ClaimEntry) : Prop :=
  (y.validFrom ≠ "" → x.validFrom ≤ y.validFrom →
    ∀ t ∈ boundTime parseTime x.validFrom, ∃ t' ∈ boundTime parseTime y.validFrom, t ≤ t') ∧
  (y.validUntil ≠ "" → y.validUntil ≤ x.validUntil →
    ∀ t ∈ boundTime parseTime x.validUntil, ∃ t' ∈ boundTime parseTime y.validUntil, t' ≤ t)

instance (x y : ClaimEntry) : Decidable (AlignedWith parseTime x y) :=
  inferInstanceAs (Decidable (_ ∧ _))

/-- **The bounds of some entries are aligned**: their texts are ordered as the times are. -/
def Aligned (parseTime : String → Option Int) (entries : Set ClaimEntry) : Prop :=
  ∀ x ∈ entries, ∀ y ∈ entries, AlignedWith parseTime x y

/-- Each bound of an entry is open or that of one of these entries. -/
structure ClaimEntry.DrawnFrom (entry : ClaimEntry) (entries : Set ClaimEntry) : Prop where
  validFrom : entry.validFrom = "" ∨ ∃ old ∈ entries, old.validFrom = entry.validFrom
  validUntil : entry.validUntil = "" ∨ ∃ old ∈ entries, old.validUntil = entry.validUntil

/-- Where bounds are aligned, a span that contains another one does so in time. -/
theorem Aligned.contains (h : Aligned parseTime entries) (hdrawn : entry.DrawnFrom entries)
    (hold : old ∈ entries) (hcovers : entry.Covers old.validFrom old.validUntil) :
    entry.Contains parseTime old.validFrom old.validUntil := by
  have hopen : ∀ {bound : String} {t : Int}, t ∈ boundTime parseTime bound → bound ≠ "" := by
    rintro bound t ht rfl
    cases ht
  constructor
  · intro t ht
    obtain ⟨other, hother, heq⟩ := hdrawn.validFrom.resolve_left (hopen ht)
    obtain ⟨hne, hle⟩ := hcovers.begins.resolve_left (hopen ht)
    rw [← heq] at ht hle
    exact (h other hother old hold).1 hne hle t ht
  · intro t ht
    obtain ⟨other, hother, heq⟩ := hdrawn.validUntil.resolve_left (hopen ht)
    obtain ⟨hne, hle⟩ := hcovers.ends.resolve_left (hopen ht)
    rw [← heq] at ht hle
    exact (h other hother old hold).2 hne hle t ht

theorem ClaimEntry.DrawnFrom.of_mem (h : entry ∈ entries) : entry.DrawnFrom entries :=
  ⟨Or.inr ⟨entry, h, rfl⟩, Or.inr ⟨entry, h, rfl⟩⟩

theorem ClaimEntry.DrawnFrom.trans {entries' : Set ClaimEntry} (h : entry.DrawnFrom entries)
    (h' : ∀ old ∈ entries, old.DrawnFrom entries') : entry.DrawnFrom entries' := by
  constructor
  · rcases h.validFrom with hopen | ⟨old, hold, heq⟩
    · exact Or.inl hopen
    · exact heq ▸ (h' old hold).validFrom
  · rcases h.validUntil with hopen | ⟨old, hold, heq⟩
    · exact Or.inl hopen
    · exact heq ▸ (h' old hold).validUntil

/-- A span that was widened by another one. -/
theorem ClaimEntry.DrawnFrom.wider (h : entry.DrawnFrom entries) (h' : old.DrawnFrom entries)
    (text : String) : ClaimEntry.DrawnFrom ⟨text, earlierBound entry.validFrom old.validFrom,
      laterBound entry.validUntil old.validUntil⟩ entries := by
  constructor
  · dsimp only [earlierBound]
    split_ifs
    · exact Or.inl rfl
    · exact h'.validFrom
    · exact h.validFrom
  · dsimp only [laterBound]
    split_ifs
    · exact Or.inl rfl
    · exact h'.validUntil
    · exact h.validUntil

/-- The bounds of the claims of a row are drawn from entries of these claims. -/
def RowDrawn (sources : String → Set ClaimEntry) (row : OrdMap String ClaimEntry) : Prop :=
  ∀ hash entry, row.get hash = some entry → entry.DrawnFrom (sources hash)

theorem RowDrawn.set {sources : String → Set ClaimEntry} {hash : String}
    (h : RowDrawn sources row) (hentry : entry.DrawnFrom (sources hash)) :
    RowDrawn sources (row.set hash entry) := by
  intro other entry' hget
  rw [OrdMap.get_set] at hget
  split at hget
  · rename_i heq
    rw [heq, ← Option.some.inj hget]
    exact hentry
  · exact h other entry' hget

/-! ### Rows -/

/-- The claims of a row are all in another one, with spans that contain theirs. -/
def RowCovers (row row' : OrdMap String ClaimEntry) : Prop :=
  ∀ hash entry, row.get hash = some entry →
    ∃ entry', row'.get hash = some entry' ∧ entry'.Covers entry.validFrom entry.validUntil

theorem RowCovers.rfl : RowCovers row row :=
  fun _ entry hget => ⟨entry, hget, .rfl⟩

theorem RowCovers.trans {row' row'' : OrdMap String ClaimEntry} (h : RowCovers row row')
    (h' : RowCovers row' row'') : RowCovers row row'' := by
  intro hash entry hget
  obtain ⟨entry', hget', hcovers⟩ := h hash entry hget
  obtain ⟨entry'', hget'', hcovers'⟩ := h' hash entry' hget'
  exact ⟨entry'', hget'', hcovers'.trans hcovers⟩

/-- One entry of a row is replaced by one with a wider span. -/
theorem RowCovers.set {hash : String}
    (h : ∀ old, row.get hash = some old → entry.Covers old.validFrom old.validUntil) :
    RowCovers row (row.set hash entry) := by
  intro other old hget
  by_cases heq : other = hash
  · subst heq
    exact ⟨entry, OrdMap.get_set_self _ _ _, h old hget⟩
  · exact ⟨old, (OrdMap.get_set_ne _ _ heq).trans hget, .rfl⟩

/-- One claim of a member. -/
theorem foldClaims_spec (row : OrdMap String ClaimEntry) (item : String × ClaimEntry) :
    ∃ entry, foldClaims row item = row.set item.1 entry ∧
      entry.Covers item.2.validFrom item.2.validUntil ∧
      ∀ old, row.get item.1 = some old → entry.Covers old.validFrom old.validUntil := by
  rw [foldClaims]
  cases hget : row.get item.1 with
  | none => exact ⟨item.2, rfl, .rfl, fun old hold => absurd hold.symm (Option.some_ne_none old)⟩
  | some existing =>
    obtain ⟨hfrom, hfrom'⟩ := earlierBound_begins existing.validFrom item.2.validFrom
    obtain ⟨huntil, huntil'⟩ := laterBound_ends existing.validUntil item.2.validUntil
    refine ⟨_, rfl, ⟨hfrom', huntil'⟩, fun old hold => ?_⟩
    obtain rfl := Option.some.inj hold
    exact ⟨hfrom, huntil⟩

/-- **The row of a canonical entity** after the claims of a member: both are covered, and nothing
else is in it. -/
theorem foldl_foldClaims (items : List (String × ClaimEntry)) (row : OrdMap String ClaimEntry) :
    RowCovers row (items.foldl foldClaims row) ∧
      (∀ item ∈ items, ∃ entry, (items.foldl foldClaims row).get item.1 = some entry ∧
        entry.Covers item.2.validFrom item.2.validUntil) ∧
      ∀ hash, (items.foldl foldClaims row).has hash = true →
        row.has hash = true ∨ ∃ entry, (hash, entry) ∈ items := by
  induction items generalizing row with
  | nil => exact ⟨.rfl, fun item hin => absurd hin List.not_mem_nil, fun _ h => Or.inl h⟩
  | cons item items ih =>
    obtain ⟨entry, hset, hitem, hold⟩ := foldClaims_spec row item
    obtain ⟨hcovers, hitems, horigin⟩ := ih (foldClaims row item)
    rw [List.foldl_cons]
    rw [hset] at hcovers hitems horigin ⊢
    refine ⟨(RowCovers.set hold).trans hcovers, List.forall_mem_cons.mpr ⟨?_, hitems⟩, ?_⟩
    · obtain ⟨entry', hget, hwider⟩ := hcovers item.1 entry (OrdMap.get_set_self _ _ _)
      exact ⟨entry', hget, hwider.trans hitem⟩
    · intro hash hhas
      rcases horigin hash hhas with hhas | ⟨entry', hin⟩
      · rw [OrdMap.has, OrdMap.get_set] at hhas
        split at hhas
        · rename_i heq
          exact Or.inr ⟨item.2, heq ▸ List.mem_cons_self⟩
        · exact Or.inl hhas
      · exact Or.inr ⟨entry', List.mem_cons_of_mem _ hin⟩

/-- Folding claims into a row makes no new bounds. -/
theorem RowDrawn.foldl {sources : String → Set ClaimEntry} {items : List (String × ClaimEntry)}
    (h : RowDrawn sources row) (hitems : ∀ item ∈ items, item.2.DrawnFrom (sources item.1)) :
    RowDrawn sources (items.foldl foldClaims row) := by
  induction items generalizing row with
  | nil => exact h
  | cons item items ih =>
    obtain ⟨hitem, hitems⟩ := List.forall_mem_cons.mp hitems
    refine ih ?_ hitems
    rw [foldClaims]
    cases hget : row.get item.1 with
    | none => exact h.set hitem
    | some existing => exact h.set ((h item.1 existing hget).wider hitem _)

/-! ## Ledgers before and after -/

namespace EntityLedger

/-- The entries that entities have for a claim. -/
def entriesOf (l : EntityLedger) (hash : String) : Set ClaimEntry :=
  {entry | ∃ entity, (l.claimsOf entity).get hash = some entry}

/-- The bounds of each claim are aligned. -/
def Aligned (parseTime : String → Option Int) (l : EntityLedger) : Prop :=
  ∀ hash, Gmeow.Aligned parseTime (l.entriesOf hash)

/-- What an entity holds is in one of the rows. -/
theorem mem_rows_of_get {l : EntityLedger} {entity hash : String} {entry : ClaimEntry}
    (hget : (l.claimsOf entity).get hash = some entry) :
    ∃ row ∈ l.claims.entries, (hash, entry) ∈ row.2.entries := by
  rw [claimsOf] at hget
  cases hclaims : l.claims.get entity with
  | none =>
    rw [hclaims] at hget
    cases hget
  | some row =>
    rw [hclaims] at hget
    exact ⟨(entity, row), OrdMap.mem_entries_iff.mpr hclaims, OrdMap.mem_entries_iff.mpr hget⟩

/-- Every entity has a successor: those that are left are their own, they were there before, and
they hold the claims of the entities they succeed and no others. -/
structure Conserves (next : String → String) (l l' : EntityLedger) : Prop where
  entities : ∀ entity, l.claims.has entity = true → l'.claims.has (next entity) = true
  survivors : ∀ entity, l'.claims.has entity = true →
    l.claims.has entity = true ∧ next entity = entity
  held : ∀ entity, RowCovers (l.claimsOf entity) (l'.claimsOf (next entity))
  drawn : ∀ entity, RowDrawn l.entriesOf (l'.claimsOf entity)
  origin : ∀ entity hash, l'.has entity hash = true →
    ∃ old, next old = entity ∧ l.has old hash = true

variable {l l' l'' : EntityLedger} {next next' : String → String}

theorem Conserves.of_claims (h : l'.claims = l.claims) : Conserves id l l' := by
  have hrow : ∀ entity, l'.claimsOf entity = l.claimsOf entity := by
    intro entity
    rw [claimsOf, claimsOf, h]
  refine ⟨fun entity hin => ?_, fun entity hin => ⟨?_, rfl⟩, fun entity => ?_,
    fun entity hash entry hget => ?_, fun entity hash hin => ⟨entity, rfl, ?_⟩⟩
  · rwa [id, h]
  · rwa [h] at hin
  · rw [id, hrow]
    exact .rfl
  · exact .of_mem ⟨entity, hrow entity ▸ hget⟩
  · rwa [has, hrow] at hin

theorem Conserves.trans (h : Conserves next l l') (h' : Conserves next' l' l'') :
    Conserves (next' ∘ next) l l'' := by
  refine ⟨fun entity hin => h'.entities _ (h.entities entity hin), fun entity hin => ?_,
    fun entity => (h.held entity).trans (h'.held _), fun entity hash entry hget => ?_,
    fun entity hash hin => ?_⟩
  · obtain ⟨hin', hstays'⟩ := h'.survivors entity hin
    obtain ⟨hin, hstays⟩ := h.survivors entity hin'
    exact ⟨hin, by rw [Function.comp_apply, hstays, hstays']⟩
  · refine (h'.drawn entity hash entry hget).trans ?_
    rintro old ⟨middle, hold⟩
    exact h.drawn middle hash old hold
  · obtain ⟨middle, hnext', hin'⟩ := h'.origin entity hash hin
    obtain ⟨old, hnext, hin⟩ := h.origin middle hash hin'
    exact ⟨old, by rw [Function.comp_apply, hnext, hnext'], hin⟩

/-- The rows after one member is folded into its canonical entity. -/
theorem foldMember_claimsOf (l : EntityLedger) {member canonical entity : String}
    (hne : entity ≠ member) : (l.foldMember (member, canonical)).claimsOf entity =
      if entity = canonical
      then (l.claimsOf member).entries.foldl foldClaims (l.claimsOf canonical)
      else l.claimsOf entity := by
  rw [claimsOf, foldMember, OrdMap.get_erase_ne _ hne, OrdMap.get_set]
  split <;> rfl

/-- **One member** is folded into another entity. -/
theorem foldMember_conserves {member canonical : String} (hne : canonical ≠ member)
    (hcanonical : l.claims.has canonical = true) :
    Conserves (fun entity => if entity = member then canonical else entity) l
      (l.foldMember (member, canonical)) := by
  have hgone : (l.foldMember (member, canonical)).claims.get member = none :=
    OrdMap.get_erase_self _ _
  have hhas : ∀ entity, entity ≠ member →
      ((l.foldMember (member, canonical)).claims.has entity = true ↔
        l.claims.has entity = true) := by
    intro entity hentity
    rw [OrdMap.has, OrdMap.has, foldMember, OrdMap.get_erase_ne _ hentity, OrdMap.get_set]
    split
    · rename_i heq
      exact iff_of_true rfl (heq ▸ hcanonical)
    · exact Iff.rfl
  obtain ⟨hcovers, hitems, horigin⟩ :=
    foldl_foldClaims (l.claimsOf member).entries (l.claimsOf canonical)
  have hgone' : (l.foldMember (member, canonical)).claimsOf member = ∅ := by
    rw [claimsOf, hgone]
    rfl
  have hsource : ∀ entity, RowDrawn l.entriesOf (l.claimsOf entity) :=
    fun entity hash entry hget => .of_mem ⟨entity, hget⟩
  refine ⟨fun entity hin => ?_, fun entity hin => ?_, fun entity => ?_, fun entity => ?_,
    fun entity hash hin => ?_⟩
  · split
    · exact (hhas canonical hne).mpr hcanonical
    · rename_i hentity
      exact (hhas entity hentity).mpr hin
  · have hentity : entity ≠ member := by
      rintro rfl
      rw [OrdMap.has, hgone] at hin
      cases hin
    exact ⟨(hhas entity hentity).mp hin, if_neg hentity⟩
  · split
    · rename_i heq
      rw [heq, l.foldMember_claimsOf hne, if_pos rfl]
      intro hash entry hget
      exact hitems (hash, entry) (OrdMap.mem_entries_iff.mpr hget)
    · rename_i hentity
      rw [l.foldMember_claimsOf hentity]
      split
      · rename_i heq
        rw [heq]
        exact hcovers
      · exact .rfl
  · by_cases hentity : entity = member
    · rw [hentity, hgone']
      intro hash entry hget
      cases hget
    · rw [l.foldMember_claimsOf hentity]
      split
      · exact (hsource canonical).foldl fun item hitem =>
          hsource member item.1 item.2 (OrdMap.mem_entries_iff.mp hitem)
      · exact hsource entity
  · have hentity : entity ≠ member := by
      rintro rfl
      rw [has, hgone'] at hin
      cases hin
    rw [has, l.foldMember_claimsOf hentity] at hin
    split at hin
    · rename_i heq
      rcases horigin hash hin with hin | ⟨entry, hin⟩
      · exact ⟨entity, if_neg hentity, heq ▸ hin⟩
      · exact ⟨member, (if_pos rfl).trans heq.symm,
          OrdMap.has_iff.mpr ⟨entry, OrdMap.mem_entries_iff.mp hin⟩⟩
    · exact ⟨entity, if_neg hentity, hin⟩

/-- **Members are folded one after the other**, in any order: none of them is folded into. -/
theorem foldMembers_conserves (items : List (String × String))
    (hstays : ∀ item ∈ items, OrdMap.lookup items item.2 = none)
    (hcanonical : ∀ item ∈ items, l.claims.has item.2 = true) :
    Conserves (fun entity => (OrdMap.lookup items entity).getD entity) l
      (items.foldl foldMember l) := by
  induction items generalizing l with
  | nil => exact .of_claims rfl
  | cons item items ih =>
    obtain ⟨member, canonical⟩ := item
    have hlookup : ∀ other, OrdMap.lookup ((member, canonical) :: items) other =
        if other = member then some canonical else OrdMap.lookup items other := fun _ => rfl
    have hkept : ∀ other, OrdMap.lookup ((member, canonical) :: items) other = none →
        other ≠ member ∧ OrdMap.lookup items other = none := by
      intro other hnone
      rw [hlookup] at hnone
      split at hnone
      · cases hnone
      · rename_i hother
        exact ⟨hother, hnone⟩
    obtain ⟨hne, hnone⟩ := hkept canonical (hstays _ List.mem_cons_self)
    have hfirst := foldMember_conserves hne (hcanonical _ List.mem_cons_self)
    have hlater := ih (fun item hitem => (hkept _ (hstays item (List.mem_cons_of_mem _ hitem))).2)
      fun item hitem => by
        have hentity := (hkept _ (hstays item (List.mem_cons_of_mem _ hitem))).1
        have hin := hfirst.entities _ (hcanonical item (List.mem_cons_of_mem _ hitem))
        rwa [if_neg hentity] at hin
    have hnext : (fun entity => (OrdMap.lookup ((member, canonical) :: items) entity).getD entity) =
        (fun entity => (OrdMap.lookup items entity).getD entity) ∘
          fun entity => if entity = member then canonical else entity := by
      funext entity
      rw [Function.comp_apply, hlookup]
      split
      · rw [hnone, Option.getD_some, Option.getD_none]
      · rfl
    rw [hnext]
    exact hfirst.trans hlater

end EntityLedger

/-! ## The indexes of a ledger -/

/-- What an identifier claim is indexed by; others are not. -/
def identKey (text : String) : Option String :=
  let (concept, value) := splitClaimText text
  if value = "" ∨ concept ∉ identifierConcepts then none else some (concept ++ "\x00" ++ value)

namespace EntityLedger

/-- How many entities hold a claim. -/
def holders (l : EntityLedger) (hash : String) : Nat :=
  l.claims.entries.countP fun item => item.2.has hash

/-- How many claims of an entity have that identifier. -/
def mentions (l : EntityLedger) (key entity : String) : Nat :=
  (l.claimsOf entity).entries.countP fun item => identKey item.2.text = some key

/-- `df`. -/
def docFreq (l : EntityLedger) (hash : String) : Nat := (l.df.get hash).getD 0

/-- The entities with that identifier. -/
def listed (l : EntityLedger) (key : String) : List String := (l.ident.get key).getD []

/-- The indexes are those of the claims: `df` is the number of holders, and an entity is listed
once for each claim with the identifier. -/
structure Indexed (l : EntityLedger) : Prop where
  counted : ∀ hash, l.docFreq hash = l.holders hash
  listed : ∀ key entity, (l.listed key).count entity = l.mentions key entity

/-- The indexes have changed as the claims have. -/
structure Follows (l l' : EntityLedger) : Prop where
  counted : ∀ hash, l'.docFreq hash + l.holders hash = l.docFreq hash + l'.holders hash
  listed : ∀ key entity, (l'.listed key).count entity + l.mentions key entity =
    (l.listed key).count entity + l'.mentions key entity

variable {l l' : EntityLedger} {entity hash : String} {row : OrdMap String ClaimEntry}
  {entry : ClaimEntry}

theorem Indexed.follows (h : l.Indexed) (h' : Follows l l') : l'.Indexed := by
  refine ⟨fun hash => ?_, fun key entity => ?_⟩
  · have hbefore := h.counted hash
    have hchange := h'.counted hash
    omega
  · have hbefore := h.listed key entity
    have hchange := h'.listed key entity
    omega

theorem Follows.of_claims (hclaims : l'.claims = l.claims) (hdf : l'.df = l.df)
    (hident : l'.ident = l.ident) : Follows l l' := by
  refine ⟨fun hash => ?_, fun key entity => ?_⟩
  · rw [docFreq, docFreq, holders, holders, hdf, hclaims]
  · have hrow : l'.claimsOf entity = l.claimsOf entity := by rw [claimsOf, claimsOf, hclaims]
    rw [EntityLedger.listed, EntityLedger.listed, hident, mentions, mentions, hrow]

/-- A row is replaced. -/
theorem holders_set (h : l'.claims = l.claims.set entity row) (hash : String) :
    l'.holders hash + ((l.claimsOf entity).has hash).toNat =
      l.holders hash + (row.has hash).toNat := by
  have hone : ∀ row : OrdMap String ClaimEntry,
      (if row.has hash = true then 1 else 0) = (row.has hash).toNat := by
    intro row
    cases row.has hash <;> rfl
  have hset : l'.holders hash =
      ((l.claims.erase entity).entries.countP fun item => item.2.has hash) +
        (row.has hash).toNat := by
    rw [holders, h, (OrdMap.set_perm _ _ _).countP_eq, List.countP_cons, hone]
  have hold : l.holders hash =
      ((l.claims.erase entity).entries.countP fun item => item.2.has hash) +
        ((l.claimsOf entity).has hash).toNat := by
    rw [holders, claimsOf]
    cases hget : l.claims.get entity with
    | none => rw [OrdMap.erase_of_get_none hget]; rfl
    | some old => rw [(OrdMap.entries_perm hget).countP_eq, List.countP_cons, hone]; rfl
  omega

theorem claimsOf_set (h : l'.claims = l.claims.set entity row) (other : String) :
    l'.claimsOf other = if other = entity then row else l.claimsOf other := by
  rw [claimsOf, h, OrdMap.get_set]
  split <;> rfl

@[simp] theorem indexIdentifier_df (l : EntityLedger) (entity text : String) :
    (l.indexIdentifier entity text).df = l.df := by
  dsimp only [indexIdentifier]
  split <;> rfl

theorem listed_indexIdentifier (l : EntityLedger) (entity text key : String) :
    (l.indexIdentifier entity text).listed key =
      l.listed key ++ if identKey text = some key then [entity] else [] := by
  dsimp only [indexIdentifier, identKey]
  split
  · rw [if_neg (Option.some_ne_none key).symm, List.append_nil]
  · rw [listed, OrdMap.get_set]
    by_cases hkey : key = (splitClaimText text).1 ++ "\x00" ++ (splitClaimText text).2
    · rw [if_pos hkey, if_pos (congrArg some hkey.symm), hkey]
      rfl
    · rw [if_neg hkey, if_neg fun h => hkey (Option.some.inj h).symm, List.append_nil]
      rfl

/-- A claim that the entity does not hold. -/
theorem Follows.of_new
    (hclaims : l'.claims = l.claims.set entity ((l.claimsOf entity).set hash entry))
    (hnone : (l.claimsOf entity).get hash = none)
    (hdf : ∀ other, l'.docFreq other = l.docFreq other + if other = hash then 1 else 0)
    (hlisted : ∀ key, l'.listed key =
      l.listed key ++ if identKey entry.text = some key then [entity] else []) :
    Follows l l' := by
  refine ⟨fun other => ?_, fun key other => ?_⟩
  · have hholders := holders_set hclaims other
    have hrow : (((l.claimsOf entity).set hash entry).has other).toNat =
        ((l.claimsOf entity).has other).toNat + if other = hash then 1 else 0 := by
      rw [OrdMap.has, OrdMap.has, OrdMap.get_set]
      split
      · rename_i heq
        rw [heq, hnone]
        rfl
      · rfl
    have hchange := hdf other
    omega
  · rw [hlisted, List.count_append, mentions, mentions, claimsOf_set hclaims]
    by_cases hother : other = entity
    · rw [if_pos hother, hother, (OrdMap.set_perm _ _ _).countP_eq, List.countP_cons,
        OrdMap.erase_of_get_none hnone]
      by_cases hkey : identKey entry.text = some key
      · simp [hkey]
        omega
      · simp [hkey]
    · rw [if_neg hother]
      by_cases hkey : identKey entry.text = some key
      · simp [hkey, Ne.symm hother]
      · simp [hkey]

/-- A claim that the entity holds, with the same text. -/
theorem Follows.of_held {old : ClaimEntry}
    (hclaims : l'.claims = l.claims.set entity ((l.claimsOf entity).set hash entry))
    (hold : (l.claimsOf entity).get hash = some old) (htext : entry.text = old.text)
    (hdf : l'.df = l.df) (hident : l'.ident = l.ident) : Follows l l' := by
  refine ⟨fun other => ?_, fun key other => ?_⟩
  · have hholders := holders_set hclaims other
    have hrow : ((l.claimsOf entity).set hash entry).has other = (l.claimsOf entity).has other := by
      rw [OrdMap.has, OrdMap.has, OrdMap.get_set]
      split
      · rename_i heq
        rw [heq, hold]
        rfl
      · rfl
    rw [hrow] at hholders
    rw [docFreq, docFreq, hdf]
    omega
  · have hmentions : l'.mentions key other = l.mentions key other := by
      rw [mentions, mentions, claimsOf_set hclaims]
      split
      · rename_i heq
        rw [heq, (OrdMap.set_perm _ _ _).countP_eq, (OrdMap.entries_perm hold).countP_eq,
          List.countP_cons, List.countP_cons, htext]
      · rfl
    rw [hmentions, EntityLedger.listed, EntityLedger.listed, hident]

/-- **One claim** is added: the span covers it and what was there, and the indexes follow. -/
theorem addClaim_spec (l : EntityLedger) (entity : String) (claim : ClaimInput) :
    ∃ entry, (l.addClaim entity claim).claims =
        l.claims.set entity ((l.claimsOf entity).set claim.hash entry) ∧
      entry.Covers claim.validFrom claim.validUntil ∧
      (∀ old, (l.claimsOf entity).get claim.hash = some old →
        entry.Covers old.validFrom old.validUntil) ∧
      (∀ entries, claim.held ∈ entries →
        (∀ old, (l.claimsOf entity).get claim.hash = some old → old.DrawnFrom entries) →
          entry.DrawnFrom entries) ∧
      Follows l (l.addClaim entity claim) := by
  rw [addClaim]
  cases hget : (l.claimsOf entity).get claim.hash with
  | none =>
    refine ⟨claim.held, by simp [ClaimInput.held], ⟨.rfl, .rfl⟩,
      fun old hold => absurd hold.symm (Option.some_ne_none old),
      fun entries hclaim _ => .of_mem hclaim, ?_⟩
    refine .of_new (congrArg (OrdMap.set · entity _) (indexIdentifier_claims _ _ _)) hget
      (fun other => ?_) fun key => ?_
    · rw [docFreq, docFreq, indexIdentifier_df, OrdMap.get_set]
      split
      · rename_i heq
        rw [heq]
        rfl
      · rfl
    · exact listed_indexIdentifier _ entity claim.text key
  | some existing =>
    obtain ⟨hfrom, hfrom'⟩ := earlierBound_begins existing.validFrom claim.validFrom
    obtain ⟨huntil, huntil'⟩ := laterBound_ends existing.validUntil claim.validUntil
    refine ⟨existing.widen claim.validFrom claim.validUntil, rfl, ⟨hfrom', huntil'⟩,
      fun old hold => ?_, fun entries hclaim hold => ?_, .of_held rfl hget rfl rfl rfl⟩
    · obtain rfl := Option.some.inj hold
      exact ⟨hfrom, huntil⟩
    · exact (hold existing rfl).wider (.of_mem hclaim) existing.text

/-- What adding claims to an entity does. -/
structure Adds (entity : String) (claims : List ClaimInput) (l l' : EntityLedger) : Prop where
  others : ∀ other, other ≠ entity → l'.claimsOf other = l.claimsOf other
  row : RowCovers (l.claimsOf entity) (l'.claimsOf entity)
  added : ∀ claim ∈ claims, ∃ entry, (l'.claimsOf entity).get claim.hash = some entry ∧
    entry.Covers claim.validFrom claim.validUntil
  rest : ∀ hash, (∀ claim ∈ claims, claim.hash ≠ hash) →
    (l'.claimsOf entity).get hash = (l.claimsOf entity).get hash
  drawn : ∀ sources : String → Set ClaimEntry, RowDrawn sources (l.claimsOf entity) →
    (∀ claim ∈ claims, claim.held ∈ sources claim.hash) → RowDrawn sources (l'.claimsOf entity)
  indexed : l.Indexed → l'.Indexed

/-- By induction on the claims: each makes an entry, or widens the one of its hash. -/
theorem Adds.foldl (entity : String) (claims : List ClaimInput) (l : EntityLedger) :
    Adds entity claims l (claims.foldl (addClaim entity) l) := by
  induction claims generalizing l with
  | nil =>
    exact ⟨fun _ _ => rfl, .rfl, fun claim hin => absurd hin List.not_mem_nil, fun _ _ => rfl,
      fun _ h _ => h, fun h => h⟩
  | cons claim claims ih =>
    obtain ⟨entry, hclaims, hcovers, hold, hdrawn, hfollows⟩ := l.addClaim_spec entity claim
    have hrow := claimsOf_set hclaims entity
    rw [if_pos rfl] at hrow
    have hlater := ih (l.addClaim entity claim)
    refine ⟨fun other hother => (hlater.others other hother).trans ?_, ?_,
      List.forall_mem_cons.mpr ⟨?_, hlater.added⟩, fun hash hne => ?_,
      fun sources hrows hsources => ?_, fun h => hlater.indexed (h.follows hfollows)⟩
    · rw [claimsOf_set hclaims, if_neg hother]
    · exact (hrow ▸ RowCovers.set hold).trans hlater.row
    · obtain ⟨entry', hget, hwider⟩ := hlater.row claim.hash entry (by
        rw [hrow, OrdMap.get_set_self])
      exact ⟨entry', hget, hwider.trans hcovers⟩
    · obtain ⟨hfirst, hne⟩ := List.forall_mem_cons.mp hne
      exact (hlater.rest hash hne).trans (by rw [hrow, OrdMap.get_set_ne _ _ hfirst.symm])
    · obtain ⟨hclaim, hsources⟩ := List.forall_mem_cons.mp hsources
      refine hlater.drawn sources (hrow ▸ hrows.set ?_) hsources
      exact hdrawn _ hclaim fun old hget => hrows claim.hash old hget

/-- **Adding claims** to an entity. -/
theorem add_adds (l : EntityLedger) (entity : String) (claims : List ClaimInput) :
    Adds entity claims l (l.add entity claims) := by
  have hlater := Adds.foldl entity claims
    { l with claims := l.claims.set entity (l.claimsOf entity) }
  have hclaims : ({ l with claims := l.claims.set entity (l.claimsOf entity) } :
    EntityLedger).claims = l.claims.set entity (l.claimsOf entity) := rfl
  have hrow : ∀ other, claimsOf { l with claims := l.claims.set entity (l.claimsOf entity) } other =
      l.claimsOf other := by
    intro other
    rw [claimsOf_set hclaims]
    split
    · rename_i heq
      rw [heq]
    · rfl
  refine ⟨fun other hother => (hlater.others other hother).trans (hrow other),
    hrow entity ▸ hlater.row, hlater.added, fun hash hne =>
      (hlater.rest hash hne).trans (by rw [hrow]), fun sources hrows => hlater.drawn sources
        ((hrow entity).symm ▸ hrows), fun h => hlater.indexed (h.follows ?_)⟩
  refine ⟨fun hash => ?_, fun key other => ?_⟩
  · have hholders := holders_set hclaims hash
    rw [Nat.add_right_cancel hholders]
    rfl
  · rw [mentions, mentions, hrow]
    rfl

/-- Observing claims counts them, and no more. -/
theorem observe_follows (l : EntityLedger) (claims : List ClaimInput) :
    Follows l (l.observe claims) := by
  have hfold : ∀ (claims : List ClaimInput) (acc : EntityLedger × List String),
      (claims.foldl observeClaim acc).1.df = acc.1.df ∧
        (claims.foldl observeClaim acc).1.ident = acc.1.ident := by
    intro claims
    induction claims with
    | nil => exact fun _ => ⟨rfl, rfl⟩
    | cons claim claims ih =>
      intro acc
      rw [List.foldl_cons, (ih _).1, (ih _).2, observeClaim]
      split <;> exact ⟨rfl, rfl⟩
  exact .of_claims (l.observe_claims claims) (hfold claims _).1 (hfold claims _).2

/-- A claim is in a row once or not at all. -/
theorem countP_row (row : OrdMap String ClaimEntry) (hash : String) :
    (row.entries.countP fun item => item.1 = hash) = (row.has hash).toNat := by
  have hcount : (row.entries.countP fun item => item.1 = hash) =
      (row.entries.map Prod.fst).count hash := by
    rw [List.count, List.countP_map]
    rfl
  rw [hcount, row.nodup_keys.count]
  cases hhas : row.has hash with
  | true =>
    obtain ⟨entry, hget⟩ := OrdMap.has_iff.mp hhas
    exact if_pos (List.mem_map.mpr ⟨(hash, entry), OrdMap.mem_entries_iff.mpr hget, rfl⟩)
  | false =>
    refine if_neg fun hin => ?_
    obtain ⟨⟨_, entry⟩, hentry, rfl⟩ := List.mem_map.mp hin
    rw [OrdMap.has_iff.mpr ⟨entry, OrdMap.mem_entries_iff.mp hentry⟩] at hhas
    cases hhas

/-- One row of `rebuild`. -/
theorem rebuildRow_indexes (entity : String) (items : List (String × ClaimEntry))
    (l : EntityLedger) :
    (∀ hash, (items.foldl (rebuildClaim entity) l).docFreq hash =
        l.docFreq hash + items.countP fun item => item.1 = hash) ∧
      ∀ key other, ((items.foldl (rebuildClaim entity) l).listed key).count other =
        (l.listed key).count other + if other = entity
          then items.countP fun item => identKey item.2.text = some key else 0 := by
  induction items generalizing l with
  | nil => exact ⟨fun _ => rfl, fun _ _ => by simp⟩
  | cons item items ih =>
    obtain ⟨hcounted, hlisted⟩ := ih (rebuildClaim entity l item)
    refine ⟨fun hash => ?_, fun key other => ?_⟩
    · rw [List.foldl_cons, hcounted, List.countP_cons, rebuildClaim, docFreq, docFreq,
        indexIdentifier_df, OrdMap.get_set]
      by_cases heq : item.1 = hash
      · simp [heq]
        omega
      · simp [heq, Ne.symm heq]
    · rw [List.foldl_cons, hlisted, List.countP_cons, rebuildClaim, listed_indexIdentifier,
        List.count_append]
      have hrest : EntityLedger.listed
          { l with df := l.df.set item.1 ((l.df.get item.1).getD 0 + 1) } key = l.listed key := rfl
      rw [hrest]
      by_cases hother : other = entity
      · by_cases hkey : identKey item.2.text = some key
        · simp [hother, hkey]
          omega
        · simp [hother, hkey]
      · by_cases hkey : identKey item.2.text = some key
        · simp [hother, hkey, Ne.symm hother]
        · simp [hother, hkey]

/-- **The indexes are right after `rebuild`.** -/
theorem rebuild_indexed (l : EntityLedger) : l.rebuild.Indexed := by
  have hrows : ∀ (rows : List (String × OrdMap String ClaimEntry)) (l : EntityLedger),
      (∀ hash, (rows.foldl (fun l item => item.2.entries.foldl (rebuildClaim item.1) l) l).docFreq
          hash = l.docFreq hash + rows.countP fun item => item.2.has hash) ∧
        ∀ key other, ((rows.foldl (fun l item => item.2.entries.foldl (rebuildClaim item.1) l)
            l).listed key).count other =
          (l.listed key).count other + (rows.map fun item => if other = item.1
            then item.2.entries.countP fun item => identKey item.2.text = some key else 0).sum := by
    intro rows
    induction rows with
    | nil => exact fun _ => ⟨fun _ => rfl, fun _ _ => rfl⟩
    | cons row rows ih =>
      intro l
      obtain ⟨hcounted, hlisted⟩ := rebuildRow_indexes row.1 row.2.entries l
      obtain ⟨hcounted', hlisted'⟩ := ih (row.2.entries.foldl (rebuildClaim row.1) l)
      refine ⟨fun hash => ?_, fun key other => ?_⟩
      · rw [List.foldl_cons, hcounted', hcounted, countP_row, List.countP_cons]
        cases row.2.has hash with
        | true => simp; omega
        | false => simp
      · rw [List.foldl_cons, hlisted', hlisted, List.map_cons, List.sum_cons, Nat.add_assoc]
  obtain ⟨hcounted, hlisted⟩ := hrows l.claims.entries { l with df := ∅, ident := ∅ }
  refine ⟨fun hash => ?_, fun key entity => ?_⟩
  · rw [holders, rebuild_claims]
    exact (hcounted hash).trans (Nat.zero_add _)
  · refine (hlisted key entity).trans ?_
    have hrow : l.rebuild.claimsOf entity = l.claimsOf entity := by
      rw [claimsOf, claimsOf, rebuild_claims]
    rw [mentions, hrow, claimsOf]
    -- only the row of the entity counts
    cases hget : l.claims.get entity with
    | none =>
      have hzero : ∀ item ∈ l.claims.entries, (if entity = item.1
          then item.2.entries.countP fun item => identKey item.2.text = some key else 0) = 0 := by
        intro item hitem
        refine if_neg ?_
        rintro rfl
        rw [OrdMap.mem_entries_iff.mp hitem] at hget
        cases hget
      rw [List.map_congr_left hzero]
      simp [listed]
    | some row =>
      have hzero : ∀ item ∈ (l.claims.erase entity).entries, (if entity = item.1
          then item.2.entries.countP fun item => identKey item.2.text = some key else 0) = 0 := by
        intro item hitem
        refine if_neg ?_
        rintro rfl
        have hgone := OrdMap.mem_entries_iff.mp hitem
        rw [OrdMap.get_erase_self] at hgone
        cases hgone
      rw [((OrdMap.entries_perm hget).map _).sum_eq, List.map_cons, List.sum_cons,
        List.map_congr_left hzero]
      simp [listed]

end EntityLedger

/-! ## The members of the clusters -/

variable {C I V F : Type} {entities : List String} {s s' : Service C I V}

/-- The clusters have no other members than the entities. -/
def MembersIn (entities : List String) (members : OrdMap String (List String)) : Prop :=
  ∀ root l, members.get root = some l → ∀ x ∈ l, x ∈ entities

/-- Clusters are made of the entities alone. -/
theorem MembersIn.start (entities : List String) :
    MembersIn entities (Clustering.start entities).members := by
  have hfold : ∀ (rest : List String) (members : OrdMap String (List String)),
      (∀ x ∈ rest, x ∈ entities) → MembersIn entities members →
        MembersIn entities (rest.foldl (fun members e => members.set e [e]) members) := by
    intro rest
    induction rest with
    | nil => exact fun members _ h => h
    | cons e rest ih =>
      intro members hrest h
      obtain ⟨he, hrest⟩ := List.forall_mem_cons.mp hrest
      refine ih _ hrest fun root l hget => ?_
      rw [OrdMap.get_set] at hget
      split at hget
      · rw [← Option.some.inj hget]
        exact fun x hx => List.mem_singleton.mp hx ▸ he
      · exact h root l hget
  exact hfold entities ∅ (fun _ hx => hx) fun root l hget =>
    absurd hget.symm (Option.some_ne_none l)

/-- Two clusters become one. -/
theorem MembersIn.join {members : OrdMap String (List String)} (h : MembersIn entities members)
    {root other : String} {merged : List String} (hmerged : ∀ x ∈ merged, x ∈ entities) :
    MembersIn entities ((members.set root merged).erase other) := by
  intro root' l hget
  rw [OrdMap.get_erase] at hget
  split at hget
  · cases hget
  rw [OrdMap.get_set] at hget
  split at hget
  · rwa [← Option.some.inj hget]
  · exact h root' l hget

theorem MembersIn.link {c : Clustering} (h : MembersIn entities c.members)
    (cannot : List (String × String)) (edge : SignedEdge F) :
    MembersIn entities (c.link cannot edge).members := by
  have hof : ∀ root, ∀ x ∈ c.membersOf root, x ∈ entities := by
    intro root x hx
    rw [Clustering.membersOf] at hx
    cases hget : c.members.get root with
    | none =>
      rw [hget] at hx
      exact absurd hx List.not_mem_nil
    | some l =>
      rw [hget] at hx
      exact h root l hget x hx
  rw [Clustering.link]
  dsimp only
  split
  · exact h
  · exact h.join fun x hx => (List.mem_append.mp hx).elim (hof _ x) (hof _ x)

section Scores

variable [LE F] [DecidableLE F] [LT F] [DecidableLT F] [DecidableEq F] {entities : List String}
  {positive : List (SignedEdge F)} {cannot : List (String × String)}

omit [LE F] [DecidableLE F] in
/-- Linkage invents no entity. -/
theorem mem_entities_of_cluster {members : List String}
    (h : members ∈ clusterByConstrainedLinkage entities positive cannot) {x : String}
    (hx : x ∈ members) : x ∈ entities := by
  have hfold : ∀ (edges : List (SignedEdge F)) (c : Clustering), MembersIn entities c.members →
      MembersIn entities (edges.foldl (Clustering.link cannot) c).members := by
    intro edges
    induction edges with
    | nil => exact fun _ h => h
    | cons edge edges ih => exact fun c h => ih _ (h.link cannot edge)
  rw [clusterByConstrainedLinkage, mem_sliceStable, List.mem_map] at h
  obtain ⟨⟨root, l⟩, hin, rfl⟩ := h
  exact hfold _ _ (.start entities) root l (OrdMap.mem_entries_iff.mp hin) x
    ((List.mem_insertionSort _).mp hx)

omit [LE F] [DecidableLE F] in
/-- Every canonical entity is one of the entities. -/
theorem canonical_mem_entities {member canonical : String}
    (h : (assignmentsOf (clusterByConstrainedLinkage entities positive cannot)).get member =
      some canonical) : canonical ∈ entities := by
  obtain ⟨rest, hin, -⟩ := assignmentsOf_get h
  exact mem_entities_of_cluster hin List.mem_cons_self

end Scores

/-! ## A repair -/

/-- The ledger is conserved, its indexes stay right, and the memo points at the successors. -/
structure Conserves (next : String → String) (s s' : Service C I V) : Prop where
  ledger : s.ledger.Conserves next s'.ledger
  indexed : s.ledger.Indexed → s'.ledger.Indexed
  memo : ∀ obs, s'.seenObs.get obs = (s.seenObs.get obs).map next

theorem Conserves.of_same (h : SameEntities s s') : Conserves id s s' := by
  refine ⟨.of_claims (by rw [h.ledger]), fun hindexed => h.ledger ▸ hindexed, fun obs => ?_⟩
  rw [h.seenObs, Option.map_id]
  rfl

theorem Conserves.trans {next next' : String → String} {s'' : Service C I V}
    (h : Conserves next s s') (h' : Conserves next' s' s'') : Conserves (next' ∘ next) s s'' :=
  ⟨h.ledger.trans h'.ledger, fun hindexed => h'.indexed (h.indexed hindexed),
    fun obs => by rw [h'.memo, h.memo, Option.map_map]⟩

/-- Looking a key up does not depend on the order of the entries. -/
theorem VisitOrder.lookup_members (order : VisitOrder) (assign : OrdMap String String)
    (entity : String) :
    OrdMap.lookup (order.members assign.entries) entity = assign.get entity := by
  have hperm := order.members_perm assign.entries
  refine Option.ext fun canonical => ?_
  rw [OrdMap.lookup_eq_some_iff_of_nodup ((hperm.map Prod.fst).nodup_iff.mpr assign.nodup_keys),
    hperm.mem_iff]
  exact OrdMap.mem_entries_iff

/-- The ledger and the memo after a fold, if no entity is both kept and given up. -/
theorem foldAssigned_conserves (order : VisitOrder)
    (hstays : ∀ member canonical, assign.get member = some canonical → assign.get canonical = none)
    (hentities : ∀ member canonical, assign.get member = some canonical →
      s.ledger.claims.has canonical = true) :
    Conserves (successor assign) s (foldAssigned order assign s) := by
  have hget : ∀ item ∈ order.members assign.entries, assign.get item.1 = some item.2 :=
    fun item hitem => OrdMap.mem_entries_iff.mp ((order.members_perm _).mem_iff.mp hitem)
  have hfold := EntityLedger.foldMembers_conserves (order.members assign.entries)
    (fun item hitem => (order.lookup_members assign _).trans (hstays _ _ (hget item hitem)))
    (fun item hitem => hentities _ _ (hget item hitem))
  simp only [order.lookup_members] at hfold
  refine ⟨?_, fun _ => EntityLedger.rebuild_indexed _, fun obs => OrdMap.get_mapValues _ _ _⟩
  exact hfold.trans (.of_claims (EntityLedger.rebuild_claims _))

theorem successor_of_isEmpty (h : assign.entries.isEmpty = true) : successor assign = id := by
  funext entity
  rw [successor, OrdMap.get, List.isEmpty_iff.mp h]
  rfl

/-- Canonical entities stay and are in the ledger, so every claim of a member has a place to go. -/
theorem applyAssignments_conserves (order : VisitOrder) (E : Embedding C I V F)
    (hstays : ∀ member canonical, assign.get member = some canonical → assign.get canonical = none)
    (hentities : ∀ member canonical, assign.get member = some canonical →
      s.ledger.claims.has canonical = true) :
    Conserves (successor assign) s (applyAssignments order E assign s).2 := by
  rw [applyAssignments]
  split
  · rename_i hempty
    rw [successor_of_isEmpty hempty]
    exact .of_same .rfl
  · have hpooled := poolCanonicals_same E
      (order.canonicals ((mergesByCanonical order assign).entries.map (·.1))) ∅
      (foldAssigned order assign s)
    have hfolded := (foldAssigned_conserves order hstays hentities).trans (.of_same hpooled)
    dsimp only
    generalize poolCanonicals E _ ∅ (foldAssigned order assign s) = out at hfolded ⊢
    obtain ⟨e | centroids, s'⟩ := out
    · exact hfolded
    · exact ⟨hfolded.ledger, hfolded.indexed, hfolded.memo⟩

section Scores

variable [LE F] [DecidableLE F] [LT F] [DecidableLT F] [DecidableEq F]

/-- Where a round moves an entity. -/
def roundSuccessor (E : Embedding C I V F) (p : RepairParams F) (s : Service C I V) :
    String → String :=
  match (repairEdges E p (entityIDs s) {} s).1 with
  | .error _ => id
  | .ok found =>
    successor (assignmentsOf (clusterByConstrainedLinkage (entityIDs s) found.positive
      found.cannot))

/-- Where the rounds move an entity. -/
def roundsSuccessor (order : Nat → VisitOrder) (E : Embedding C I V F) (p : RepairParams F) :
    Nat → Service C I V → String → String
  | 0, _ => id
  | rounds + 1, s =>
    match repairRound (order rounds) E p s with
    | (.error _, _) => roundSuccessor E p s
    | (.ok (merges, _), s') =>
      if merges = 0 then roundSuccessor E p s
      else roundsSuccessor order E p rounds s' ∘ roundSuccessor E p s

/-- Where a repair moves an entity. -/
def repairSuccessor [Zero F] (order : Nat → VisitOrder) (E : Embedding C I V F)
    (p : RepairParams F) (s : Service C I V) : String → String :=
  roundsSuccessor order E (p.withDefaults E) repairMaxRounds s

/-- One round moves every entity to its canonical one, also where the centroids fail behind the
fold. -/
theorem repairRound_conserves (order : VisitOrder) (E : Embedding C I V F) (p : RepairParams F)
    (s : Service C I V) : Conserves (roundSuccessor E p s) s (repairRound order E p s).2 := by
  rw [repairRound, roundSuccessor]
  have hscored := repairEdges_same E p (entityIDs s) {} s
  generalize repairEdges E p (entityIDs s) {} s = out at hscored ⊢
  obtain ⟨e | found, s'⟩ := out
  · exact .of_same hscored
  · dsimp only
    have hgrouped := clusterByConstrainedLinkage_grouped (entityIDs s) found.positive found.cannot
    have hentities : ∀ member canonical,
        (assignmentsOf (clusterByConstrainedLinkage (entityIDs s) found.positive
          found.cannot)).get member = some canonical →
        s'.ledger.claims.has canonical = true := by
      intro member canonical hget
      rw [hscored.ledger]
      obtain ⟨⟨_, row⟩, hin, rfl⟩ := List.mem_map.mp (canonical_mem_entities hget)
      exact OrdMap.has_iff.mpr ⟨row, OrdMap.mem_entries_iff.mp hin⟩
    have hround := (Conserves.of_same hscored).trans (applyAssignments_conserves order E
      (fun _ _ => hgrouped.canonical_stays) hentities)
    generalize applyAssignments order E _ s' = answer at hround ⊢
    obtain ⟨e | _, s''⟩ := answer
    · exact hround
    · exact hround

/-- By induction on the rounds; the last one may fail and still conserves. -/
theorem repairRounds_conserves (order : Nat → VisitOrder) (E : Embedding C I V F)
    (p : RepairParams F) (rounds : Nat) (totals : Nat × Nat) (s : Service C I V) :
    Conserves (roundsSuccessor order E p rounds s) s
      (repairRounds order E p rounds totals s).2 := by
  induction rounds generalizing totals s with
  | zero => exact .of_same .rfl
  | succ rounds ih =>
    rw [repairRounds, roundsSuccessor]
    have hround := repairRound_conserves (order rounds) E p s
    generalize repairRound (order rounds) E p s = out at hround ⊢
    obtain ⟨e | ⟨merges, clusters⟩, s'⟩ := out
    · exact hround
    · dsimp only
      split
      · exact hround
      · exact hround.trans (ih _ s')

/-- **A repair conserves** the ledger and the memo, whatever the orders. -/
theorem repair_conserves [Zero F] (order : Nat → VisitOrder) (E : Embedding C I V F)
    (p : RepairParams F) (s : Service C I V) :
    Conserves (repairSuccessor order E p s) s (repair order E p s).2 := by
  have hrounds := repairRounds_conserves order E (p.withDefaults E) repairMaxRounds (0, 0) s
  change Conserves (repairSuccessor order E p s) s _ at hrounds
  rw [repair]
  generalize repairRounds order E (p.withDefaults E) repairMaxRounds (0, 0) s = out
    at hrounds ⊢
  obtain ⟨e | ⟨merges, clusters⟩, s'⟩ := out
  · exact hrounds
  · exact hrounds

/-- Each entity has a successor that holds its claims, and the memo points at the successors. -/
def Refolds (s s' : Service C I V) : Prop :=
  ∃ next : String → String,
    (∀ obs, s'.seenObs.get obs = (s.seenObs.get obs).map next) ∧
    (∀ entity, s.ledger.claims.has entity = true → s'.ledger.claims.has (next entity) = true) ∧
    ∀ entity hash, s.ledger.has entity hash = true → s'.ledger.has (next entity) hash = true

/-- **A repair** moves every entity and its claims on to a successor, and the memo with them. -/
theorem repair_refolds [Zero F] (order : Nat → VisitOrder) (E : Embedding C I V F)
    (p : RepairParams F) (s : Service C I V) : Refolds s (repair order E p s).2 := by
  obtain ⟨hledger, -, hmemo⟩ := repair_conserves order E p s
  refine ⟨_, hmemo, hledger.entities, fun entity hash hin => ?_⟩
  obtain ⟨entry, hget⟩ := OrdMap.has_iff.mp hin
  obtain ⟨entry', hget', -⟩ := hledger.held entity hash entry hget
  exact OrdMap.has_iff.mpr ⟨entry', hget'⟩

end Scores

end Gmeow
