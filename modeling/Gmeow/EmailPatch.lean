import Gmeow.JmapEmail

/-!
# Patches of an email

`Email/set` patches an email by paths: `mailboxIds` and `keywords` replace a property as a whole,
`mailboxIds/x` and `keywords/x` switch one entry of it. The paths come as a Go map and are read in
any order, and a whole property and its entries are written to the same map.

* `patchWrite` — what one path writes;
* `mutationFromJMAPPatch` — the paths in one order;
* `Unambiguous` — an error, or the same mailboxes and keywords for every order;
* `patch_unambiguous_iff` — so it is exactly if no entry is switched both ways.

How a raw value is read is a parameter.
-/

namespace Gmeow.JmapEmail

/-! ## Reading a patch -/

/-- The properties that can be patched. -/
inductive PatchProperty : Type
  | mailboxIds | keywords
deriving DecidableEq

/-- The path of a property. -/
def PatchProperty.name : PatchProperty → String
  | .mailboxIds => "mailboxIds"
  | .keywords => "keywords"

/-- The path of an entry of a property. -/
def PatchProperty.path (property : PatchProperty) (key : String) : String :=
  property.name ++ "/" ++ key

/-- How the raw values are read, and how a path is quoted. -/
structure PatchReader (Raw : Type) : Type where
  boolMapFromRaw : Raw → Except String (OrdMap String Bool)
  boolPatchValue : Raw → Except String Bool
  quote : String → String

/-- What a path writes: entries of a property, which are all of it or not. -/
structure PatchWrite : Type where
  property : PatchProperty
  values : OrdMap String Bool
  replace : Bool

variable {Raw : Type} (reader : PatchReader Raw)

/-- The case of a whole property. -/
def wholeWrite (property : PatchProperty) (raw : Raw) : Except String PatchWrite :=
  match reader.boolMapFromRaw raw with
  | .error e => .error (property.name ++ ": " ++ e)
  | .ok values => .ok ⟨property, values, true⟩

/-- The case of an entry. -/
def entryWrite (property : PatchProperty) (path : String) (raw : Raw) : Except String PatchWrite :=
  match reader.boolPatchValue raw with
  | .error e => .error (path ++ ": " ++ e)
  | .ok value =>
    let key := String.ofList (path.toList.drop (property.path "").length)
    .ok ⟨property, (∅ : OrdMap String Bool).set key value, false⟩

/-- One path of `mutationFromJMAPPatch`. -/
def patchWrite (patch : String × Raw) : Except String PatchWrite :=
  if patch.1 = "mailboxIds" then wholeWrite reader .mailboxIds patch.2
  else if hasPrefix patch.1 "mailboxIds/" then entryWrite reader .mailboxIds patch.1 patch.2
  else if patch.1 = "keywords" then wholeWrite reader .keywords patch.2
  else if hasPrefix patch.1 "keywords/" then entryWrite reader .keywords patch.1 patch.2
  else .error ("unsupported patch " ++ reader.quote patch.1)

/-- A property of the mutation. -/
structure PatchField : Type where
  values : OrdMap String Bool := ∅
  replace : Bool := false

/-- `JMAPEmailMutation`, by its properties. -/
abbrev PatchMutation : Type := PatchProperty → PatchField

/-- What a path leaves of the mutation. -/
def PatchMutation.write (mutation : PatchMutation) (new : PatchWrite) : PatchMutation :=
  fun property => if property = new.property then
    ⟨(mutation property).values.merge new.values, (mutation property).replace || new.replace⟩
  else mutation property

/-- The loop of `mutationFromJMAPPatch`. -/
def patchLoop : List (String × Raw) → PatchMutation → Except String PatchMutation
  | [], mutation => .ok mutation
  | patch :: rest, mutation =>
    match patchWrite reader patch with
    | .error e => .error e
    | .ok new => patchLoop rest (mutation.write new)

/-- `mutationFromJMAPPatch`, with the patches as they are enumerated. -/
def mutationFromJMAPPatch (order : List (String × Raw)) : Except String PatchMutation :=
  patchLoop reader order fun _ => {}

/-- The list that is patched. -/
def EmailState.listOf (state : EmailState) : PatchProperty → List String
  | .mailboxIds => state.mailboxIDs
  | .keywords => state.keywords

/-- **The patch is an error, or gives the same sets for every order** of its paths, and of the maps
of the mutation. -/
def Unambiguous (patches : OrdMap String Raw) (state : EmailState) : Prop :=
  (∀ order, order.Perm patches.entries → ∃ e, mutationFromJMAPPatch reader order = .error e) ∨
  ∃ sets : PatchProperty → List String, ∀ order, order.Perm patches.entries →
    ∃ mutation, mutationFromJMAPPatch reader order = .ok mutation ∧
      ∀ property enum, enum.Perm (mutation property).values.entries →
        applyJMAPBoolMap (state.listOf property) enum (mutation property).replace = sets property

/-- The whole property and the path of one of its entries say different things of it. -/
def Clashes (patches : OrdMap String Raw) (property : PatchProperty) (key : String) : Prop :=
  key ≠ "" ∧ ∃ whole values entry value, patches.get property.name = some whole ∧
    reader.boolMapFromRaw whole = .ok values ∧ patches.get (property.path key) = some entry ∧
    reader.boolPatchValue entry = .ok value ∧ values.get key = some (!value)

/-! ## What the paths write -/

theorem name_ne_path (p q : PatchProperty) (key : String) : p.name ≠ q.path key := by
  intro h
  have hslash : '/' ∈ p.name.toList := by
    rw [h, PatchProperty.path, String.toList_append, String.toList_append]
    exact List.mem_append_left _ (List.mem_append_right _ List.mem_cons_self)
  revert hslash
  cases p <;> decide

theorem name_inj {p q : PatchProperty} (h : p.name = q.name) : p = q := by
  revert h
  cases p <;> cases q <;> decide

theorem toList_path (property : PatchProperty) (key : String) :
    (property.path key).toList = property.name.toList ++ '/' :: key.toList := by
  rw [PatchProperty.path, String.toList_append, String.toList_append, List.append_assoc]
  rfl

variable {key key' : String} {property : PatchProperty} {order : List (String × Raw)}
  {enum : List (String × Bool)} {value replace value' : Bool} {mutation : PatchMutation}
  {existing : List String}

theorem path_inj {p q : PatchProperty} (h : p.path key = q.path key') : p = q ∧ key = key' := by
  have hlist := congrArg String.toList h
  rw [toList_path, toList_path] at hlist
  have hsame : p = q := by
    have hhead := congrArg List.head? hlist
    cases p <;> cases q
    · rfl
    · cases hhead
    · cases hhead
    · rfl
  subst hsame
  exact ⟨rfl, String.toList_injective (List.cons.inj (List.append_cancel_left hlist)).2⟩

/-- The key of an entry. -/
theorem path_drop {path : String} (h : hasPrefix path (property.path "") = true) :
    path = property.path (String.ofList (path.toList.drop (property.path "").length)) := by
  obtain ⟨rest, hrest⟩ := List.isPrefixOf_iff_prefix.mp h
  refine String.toList_injective ?_
  rw [toList_path, String.toList_ofList, ← hrest, ← String.length_toList, List.drop_left,
    toList_path]
  simp

variable {reader} {patch : String × Raw} {new : PatchWrite}

/-- **A path writes a whole property or one entry of it.** -/
theorem patchWrite_inv (h : patchWrite reader patch = .ok new) :
    (patch.1 = new.property.name ∧ reader.boolMapFromRaw patch.2 = .ok new.values ∧
      new.replace = true) ∨
    ∃ key value, patch.1 = new.property.path key ∧ reader.boolPatchValue patch.2 = .ok value ∧
      new.values = (∅ : OrdMap String Bool).set key value ∧ new.replace = false := by
  have hwhole : ∀ {property : PatchProperty}, patch.1 = property.name →
      wholeWrite reader property patch.2 = .ok new → patch.1 = new.property.name ∧
        reader.boolMapFromRaw patch.2 = .ok new.values ∧ new.replace = true := by
    intro property hname h
    rw [wholeWrite] at h
    split at h
    · cases h
    · obtain rfl := Except.ok.inj h
      exact ⟨hname, ‹_›, rfl⟩
  have hentry : ∀ {property : PatchProperty}, hasPrefix patch.1 (property.path "") = true →
      entryWrite reader property patch.1 patch.2 = .ok new → ∃ key value,
        patch.1 = new.property.path key ∧ reader.boolPatchValue patch.2 = .ok value ∧
          new.values = (∅ : OrdMap String Bool).set key value ∧ new.replace = false := by
    intro property hpath h
    rw [entryWrite] at h
    split at h
    · cases h
    · obtain rfl := Except.ok.inj h
      exact ⟨_, _, path_drop hpath, ‹_›, rfl, rfl⟩
  rw [patchWrite] at h
  split at h
  · exact .inl (@hwhole .mailboxIds ‹_› h)
  split at h
  · exact .inr (@hentry .mailboxIds ‹_› h)
  split at h
  · exact .inl (@hwhole .keywords ‹_› h)
  split at h
  · exact .inr (@hentry .keywords ‹_› h)
  · cases h

/-- The value under a key was written, or nothing wrote to it. -/
theorem get_writes (news : List PatchWrite) (mutation : PatchMutation) :
    (∃ new ∈ news, new.property = property ∧ ∃ value, new.values.get key = some value ∧
      ((news.foldl PatchMutation.write mutation) property).values.get key = some value) ∨
    (∀ new ∈ news, new.property = property → new.values.get key = none) ∧
      ((news.foldl PatchMutation.write mutation) property).values.get key =
        (mutation property).values.get key := by
  induction news generalizing mutation with
  | nil => exact .inr ⟨fun _ hin => absurd hin List.not_mem_nil, rfl⟩
  | cons first rest ih =>
    rw [List.foldl_cons]
    rcases ih (mutation.write first) with ⟨new, hin, hnew⟩ | ⟨hnone, hget⟩
    · exact .inl ⟨new, List.mem_cons_of_mem _ hin, hnew⟩
    · rw [hget, PatchMutation.write]
      by_cases hfirst : property = first.property
      · rw [if_pos hfirst, OrdMap.get_merge]
        cases hvalue : first.values.get key with
        | none => exact .inr ⟨List.forall_mem_cons.mpr ⟨fun _ => hvalue, hnone⟩, rfl⟩
        | some value => exact .inl ⟨first, List.mem_cons_self, hfirst.symm, value, hvalue, rfl⟩
      · rw [if_neg hfirst]
        exact .inr ⟨List.forall_mem_cons.mpr ⟨fun h => absurd h.symm hfirst, hnone⟩, rfl⟩

theorem replace_writes (news : List PatchWrite) (mutation : PatchMutation) :
    ((news.foldl PatchMutation.write mutation) property).replace =
      ((mutation property).replace ||
        news.any fun new => decide (property = new.property) && new.replace) := by
  induction news generalizing mutation with
  | nil => simp
  | cons first rest ih =>
    rw [List.foldl_cons, ih, List.any_cons, PatchMutation.write]
    by_cases hfirst : property = first.property
    · simp [hfirst, Bool.or_assoc]
    · simp [hfirst]

/-! ## The loop -/

/-- The paths that can be read, read. -/
def written (reader : PatchReader Raw) (order : List (String × Raw)) : List PatchWrite :=
  order.filterMap fun patch => (patchWrite reader patch).toOption

theorem mem_written :
    new ∈ written reader order ↔ ∃ patch ∈ order, patchWrite reader patch = .ok new := by
  rw [written, List.mem_filterMap]
  refine exists_congr fun patch => and_congr_right fun _ => ?_
  cases patchWrite reader patch with
  | error e => exact ⟨nofun, nofun⟩
  | ok found => simp [Except.toOption]

theorem patchLoop_ok (h : ∀ patch ∈ order, ∃ new, patchWrite reader patch = .ok new) :
    patchLoop reader order mutation =
      .ok ((written reader order).foldl PatchMutation.write mutation) := by
  induction order generalizing mutation with
  | nil => rfl
  | cons patch rest ih =>
    obtain ⟨⟨new, hnew⟩, hrest⟩ := List.forall_mem_cons.mp h
    rw [patchLoop, hnew, written, List.filterMap_cons, hnew]
    exact ih hrest

theorem patchLoop_error (h : ∃ patch ∈ order, ∃ e, patchWrite reader patch = .error e) :
    ∃ e, patchLoop reader order mutation = .error e := by
  induction order generalizing mutation with
  | nil =>
    obtain ⟨patch, hin, -⟩ := h
    exact absurd hin List.not_mem_nil
  | cons first rest ih =>
    rw [patchLoop]
    cases hfirst : patchWrite reader first with
    | error e => exact ⟨e, rfl⟩
    | ok new =>
      obtain ⟨patch, hin, e, he⟩ := h
      rcases List.mem_cons.mp hin with rfl | hin
      · cases hfirst.symm.trans he
      · exact ih ⟨patch, hin, e, he⟩

/-! ## The sets -/

/-- What the entries of a map make of a list, in any order. -/
theorem mem_foldl_enum (hnodup : (enum.map Prod.fst).Nodup) {values : List String} {value : String}
    (hne : value ≠ "") :
    value ∈ enum.foldl patchEntry values ↔
      (value, true) ∈ enum ∨ value ∈ values ∧ (value, false) ∉ enum := by
  induction enum generalizing values with
  | nil => simp
  | cons entry rest ih =>
    obtain ⟨key, enabled⟩ := entry
    obtain ⟨hnew, hnodup⟩ := List.nodup_cons.mp hnodup
    have hnot : ∀ flag, (key, flag) ∉ rest := fun flag hin => hnew (List.mem_map.mpr ⟨_, hin, rfl⟩)
    rw [List.foldl_cons, ih hnodup, patchEntry]
    by_cases hkey : value = key
    · subst hkey
      cases enabled <;> simp [hne, hnot]
    · by_cases hblank : key = ""
      · simp [hblank, hne]
      · cases enabled <;> simp [hkey, hblank]

/-- **What `applyJMAPBoolMap` computes**, whatever the order of the map. -/
theorem mem_apply {values : OrdMap String Bool} (henum : enum.Perm values.entries)
    {value : String} :
    value ∈ applyJMAPBoolMap existing enum replace ↔ value ≠ "" ∧ (values.get value = some true ∨
      values.get value = none ∧ replace = false ∧ value ∈ existing) := by
  have hnodup : (enum.map Prod.fst).Nodup := (henum.map Prod.fst).nodup_iff.mpr values.nodup_keys
  have hflag : ∀ flag, (value, flag) ∈ enum ↔ values.get value = some flag :=
    fun flag => henum.mem_iff.trans OrdMap.mem_entries_iff
  rw [applyJMAPBoolMap, sortStrings, (List.perm_insertionSort _ _).mem_iff, List.mem_dedup]
  by_cases hne : value = ""
  · refine iff_of_false (fun hin => ?_) fun h => h.1 hne
    rcases mem_foldl_patchEntry hin with hin | hin
    · split at hin
      · cases hin
      · exact of_decide_eq_true (List.mem_filter.mp hin).2 hne
    · exact hin.1 hne
  · rw [mem_foldl_enum hnodup hne, hflag, hflag, and_iff_right hne]
    cases values.get value with
    | none => cases replace <;> simp [hne]
    | some flag => cases flag <;> simp

theorem apply_congr {existing' : List String} {enum' : List (String × Bool)} {replace' : Bool}
    (h : ∀ value, value ∈ applyJMAPBoolMap existing enum replace ↔
      value ∈ applyJMAPBoolMap existing' enum' replace') :
    applyJMAPBoolMap existing enum replace = applyJMAPBoolMap existing' enum' replace' := by
  refine List.Perm.eq_of_pairwise' (List.pairwise_insertionSort _ _)
    (List.pairwise_insertionSort _ _) ?_
  have hnodup : ∀ l : List String, (sortStrings l.dedup).Nodup :=
    fun l => (List.perm_insertionSort _ _).nodup_iff.mpr (List.nodup_dedup l)
  exact (List.perm_ext_iff_of_nodup (hnodup _) (hnodup _)).mpr h

/-! ## When a patch is unambiguous -/

variable {patches : OrdMap String Raw} {state : EmailState}

/-- A path that cannot be read is an error in every order. -/
theorem Unambiguous.of_error
    (h : ∃ patch ∈ patches.entries, ∃ e, patchWrite reader patch = .error e) :
    Unambiguous reader patches state := by
  refine .inl fun order horder => patchLoop_error ?_
  obtain ⟨patch, hin, he⟩ := h
  exact ⟨patch, horder.mem_iff.mpr hin, he⟩

theorem get_single (h : ((∅ : OrdMap String Bool).set key value).get key' = some value') :
    key' = key ∧ value' = value := by
  rw [OrdMap.get_set] at h
  split at h
  · exact ⟨‹_›, (Option.some.inj h).symm⟩
  · rw [OrdMap.get_empty] at h
    cases h

/-- Two writes to one entry agree: those of one path, and those of a property and its entry. -/
theorem written_agree (hclash : ∀ property key, ¬ Clashes reader patches property key)
    {new new' : PatchWrite} (hnew : new ∈ written reader patches.entries)
    (hnew' : new' ∈ written reader patches.entries) (hsame : new.property = new'.property)
    (hkey : key ≠ "") (hvalue : new.values.get key = some value)
    (hvalue' : new'.values.get key = some value') : value = value' := by
  obtain ⟨⟨path, raw⟩, hin, hwrite⟩ := mem_written.mp hnew
  obtain ⟨⟨path', raw'⟩, hin', hwrite'⟩ := mem_written.mp hnew'
  rw [OrdMap.mem_entries_iff] at hin hin'
  rcases patchWrite_inv hwrite with ⟨hpath, hread, -⟩ | ⟨k, v, hpath, hread, hset, -⟩
  all_goals
    rcases patchWrite_inv hwrite' with ⟨hpath', hread', -⟩ | ⟨k', v', hpath', hread', hset', -⟩
  all_goals dsimp only at hpath hread hpath' hread'
  · rw [hpath', ← hsame, ← hpath, hin] at hin'
    rw [Option.some.inj hin', hread'] at hread
    rw [Except.ok.inj hread, hvalue] at hvalue'
    exact Option.some.inj hvalue'
  · by_contra hne
    obtain ⟨rfl, rfl⟩ := get_single (hset' ▸ hvalue')
    refine hclash new.property key ⟨hkey, raw, _, raw', _, hpath ▸ hin, hread, ?_, hread', ?_⟩
    · rw [hsame, ← hpath', hin']
    · rw [hvalue, Bool.eq_not.mpr hne]
  · by_contra hne
    obtain ⟨rfl, rfl⟩ := get_single (hset ▸ hvalue)
    refine hclash new.property key ⟨hkey, raw', _, raw, _, ?_, hread', hpath ▸ hin, hread, ?_⟩
    · rw [hsame, ← hpath', hin']
    · rw [hvalue', Bool.eq_not.mpr (Ne.symm hne)]
  · obtain ⟨rfl, rfl⟩ := get_single (hset ▸ hvalue)
    obtain ⟨rfl, rfl⟩ := get_single (hset' ▸ hvalue')
    rw [hpath', ← hsame, ← hpath, hin] at hin'
    rw [Option.some.inj hin', hread'] at hread
    exact (Except.ok.inj hread).symm

/-- The entries do not depend on the order. -/
theorem get_written_perm (hclash : ∀ property key, ¬ Clashes reader patches property key)
    (horder : order.Perm patches.entries) (hkey : key ≠ "") (mutation : PatchMutation) :
    (((written reader order).foldl PatchMutation.write mutation) property).values.get key =
      (((written reader patches.entries).foldl PatchMutation.write mutation) property).values.get
        key := by
  have hin : ∀ {new}, new ∈ written reader order ↔ new ∈ written reader patches.entries :=
    (horder.filterMap _).mem_iff
  rcases get_writes (written reader order) mutation with
    ⟨new, hnew, hprop, value, hvalue, hget⟩ | ⟨hnone, hget⟩
  all_goals rcases get_writes (written reader patches.entries) mutation with
    ⟨new', hnew', hprop', value', hvalue', hget'⟩ | ⟨hnone', hget'⟩
  all_goals rw [hget, hget']
  · rw [written_agree hclash (hin.mp hnew) hnew' (hprop.trans hprop'.symm) hkey hvalue hvalue']
  · rw [hnone' new (hin.mp hnew) hprop] at hvalue
    cases hvalue
  · rw [hnone new' (hin.mpr hnew') hprop'] at hvalue'
    cases hvalue'

/-- Without a clash the writes of one key agree, so their order does not count. -/
theorem Unambiguous.of_agreeing
    (hok : ∀ patch ∈ patches.entries, ∃ new, patchWrite reader patch = .ok new)
    (hclash : ∀ property key, ¬ Clashes reader patches property key) :
    Unambiguous reader patches state := by
  refine .inr ⟨fun property =>
    let field := ((written reader patches.entries).foldl PatchMutation.write fun _ => {}) property
    applyJMAPBoolMap (state.listOf property) field.values.entries field.replace, ?_⟩
  intro order horder
  have hwritten : (written reader order).Perm (written reader patches.entries) :=
    horder.filterMap _
  refine ⟨_, patchLoop_ok fun patch hin => hok patch (horder.mem_iff.mp hin), ?_⟩
  intro property enum henum
  refine apply_congr fun value => ?_
  rw [mem_apply henum, mem_apply (List.Perm.refl _)]
  refine and_congr_right fun hne => ?_
  rw [get_written_perm hclash horder hne, replace_writes, replace_writes, hwritten.any_eq]

/-- The path that is read last wins. -/
theorem last_wins (hok : ∀ patch ∈ patches.entries, ∃ new, patchWrite reader patch = .ok new)
    {sets : PatchProperty → List String} (h : ∀ order, order.Perm patches.entries → ∃ mutation,
      mutationFromJMAPPatch reader order = .ok mutation ∧
        ∀ property enum, enum.Perm (mutation property).values.entries →
          applyJMAPBoolMap (state.listOf property) enum (mutation property).replace = sets property)
    {patch : String × Raw} (hin : patch ∈ patches.entries) {new : PatchWrite}
    (hnew : patchWrite reader patch = .ok new) (hkey : key ≠ "")
    (hvalue : new.values.get key = some value) : key ∈ sets new.property ↔ value = true := by
  obtain ⟨before, after, hsplit⟩ := List.append_of_mem hin
  have horder : (before ++ after ++ [patch]).Perm patches.entries := by
    rw [hsplit]
    exact (List.perm_append_singleton _ _).trans List.perm_middle.symm
  obtain ⟨mutation, hmutation, hsets⟩ := h _ horder
  rw [mutationFromJMAPPatch, patchLoop_ok fun patch hin => hok patch (horder.mem_iff.mp hin)]
    at hmutation
  have hget : (mutation new.property).values.get key = some value := by
    rw [← Except.ok.inj hmutation, written, List.filterMap_append, List.foldl_append,
      List.filterMap_cons, hnew]
    show ((PatchMutation.write _ new) new.property).values.get key = some value
    rw [PatchMutation.write, if_pos rfl, OrdMap.get_merge, hvalue]
    rfl
  rw [← hsets new.property _ (List.Perm.refl _), mem_apply (List.Perm.refl _), hget]
  simp [hkey]

/-- The property and the path can be applied in either order, and the key is set by one of the
orders only. -/
theorem not_unambiguous_of_clash
    (hok : ∀ patch ∈ patches.entries, ∃ new, patchWrite reader patch = .ok new)
    (h : Clashes reader patches property key) : ¬ Unambiguous reader patches state := by
  obtain ⟨hkey, whole, values, entry, value, hwhole, hvalues, hentry, hvalue, hget⟩ := h
  rw [← OrdMap.mem_entries_iff] at hwhole hentry
  obtain ⟨new, hnew⟩ := hok _ hwhole
  obtain ⟨new', hnew'⟩ := hok _ hentry
  rintro (herror | ⟨sets, h⟩)
  · obtain ⟨e, he⟩ := herror _ (List.Perm.refl _)
    rw [mutationFromJMAPPatch, patchLoop_ok hok] at he
    cases he
  · -- the whole property last, then the entry last
    have hfirst : key ∈ sets property ↔ (!value) = true := by
      rcases patchWrite_inv hnew with ⟨hname, hread, -⟩ | ⟨k, v, hname, -⟩
      · rw [name_inj hname]
        refine last_wins hok h hwhole hnew hkey ?_
        rw [← Except.ok.inj (hvalues.symm.trans hread), hget]
      · exact absurd hname (name_ne_path _ _ _)
    have hsecond : key ∈ sets property ↔ value = true := by
      rcases patchWrite_inv hnew' with ⟨hname, -⟩ | ⟨k, v, hname, hread, hset, -⟩
      · exact absurd hname.symm (name_ne_path _ _ _)
      · obtain ⟨hproperty, rfl⟩ := path_inj hname
        rw [hproperty]
        refine last_wins hok h hentry hnew' hkey ?_
        rw [hset, OrdMap.get_set_self, Except.ok.inj (hvalue.symm.trans hread)]
    cases value with
    | false => exact absurd (hsecond.mp (hfirst.mpr rfl)) Bool.false_ne_true
    | true => exact absurd (hfirst.mp (hsecond.mpr rfl)) Bool.false_ne_true

/-- **A patch is unambiguous exactly if one of its paths cannot be read, or no entry is switched one
way by a whole property and the other way by its own path.** -/
theorem patch_unambiguous_iff (reader : PatchReader Raw) (patches : OrdMap String Raw)
    (state : EmailState) :
    Unambiguous reader patches state ↔
      (∃ patch ∈ patches.entries, ∃ e, patchWrite reader patch = .error e) ∨
        ∀ property key, ¬ Clashes reader patches property key := by
  by_cases hok : ∃ patch ∈ patches.entries, ∃ e, patchWrite reader patch = .error e
  · exact iff_of_true (.of_error hok) (.inl hok)
  · rw [or_iff_right hok]
    have hok' : ∀ patch ∈ patches.entries, ∃ new, patchWrite reader patch = .ok new := by
      intro patch hin
      cases hwrite : patchWrite reader patch with
      | error e => exact absurd ⟨patch, hin, e, hwrite⟩ hok
      | ok new => exact ⟨new, rfl⟩
    exact ⟨fun h property key hclash => not_unambiguous_of_clash hok' hclash h,
      fun hclash => .of_agreeing hok' hclash⟩

/-- Raw values that are maps or flags. -/
def plainReader : PatchReader (OrdMap String Bool ⊕ Bool) where
  boolMapFromRaw
    | .inl values => .ok values
    | .inr _ => .error "cannot unmarshal bool into Go value of type map[string]bool"
  boolPatchValue
    | .inl _ => .error "cannot unmarshal object into Go value of type bool"
    | .inr value => .ok value
  quote := id

/-- One keyword. -/
def seenKeyword : OrdMap String Bool := (∅ : OrdMap String Bool).set "$seen" true

/-- All keywords are set to `$seen`, which is switched off. -/
def seenPatches : OrdMap String (OrdMap String Bool ⊕ Bool) :=
  ((∅ : OrdMap String _).set "keywords" (.inl seenKeyword)).set "keywords/$seen" (.inr false)

/-- **The email is seen or not.** -/
theorem seen_ambiguous : ¬ Unambiguous plainReader seenPatches ⟨["inbox"], []⟩ := by
  have hentries : seenPatches.entries =
      [("keywords", .inl seenKeyword), ("keywords/$seen", .inr false)] := by decide +kernel
  have hok : ∀ patch ∈ seenPatches.entries, ∃ new, patchWrite plainReader patch = .ok new := by
    rw [hentries]
    simp only [List.forall_mem_cons, List.not_mem_nil, false_imp_iff, implies_true, and_true]
    exact ⟨⟨_, rfl⟩, ⟨_, rfl⟩⟩
  have hclash : Clashes plainReader seenPatches .keywords "$seen" := by
    refine ⟨by decide, .inl seenKeyword, seenKeyword, .inr false, false, ?_, rfl, ?_, rfl, ?_⟩
    · exact OrdMap.mem_entries_iff.mp (hentries ▸ List.mem_cons_self)
    · exact OrdMap.mem_entries_iff.mp (hentries ▸ List.mem_cons_of_mem _ List.mem_cons_self)
    · exact OrdMap.get_set_self _ _ _
  exact not_unambiguous_of_clash hok hclash

end Gmeow.JmapEmail
