import Mathlib.Data.List.Nodup
import Scratchpad.Proofs.Catalog.Lookup

/-! Building catalogs. A list of presets is refused if it is empty or if a name in it repeats, and
then the first name that is taken already is reported. Every other list becomes a catalog as it is,
in which each preset is found by its name.
-/

namespace Scratchpad.Catalog

------------------------------------------------------------------------------------------
-- Repeated names
------------------------------------------------------------------------------------------

/-- At an index stands a name that is taken: by one of those seen before, or at an earlier index. -/
def TakenAt (seen names : List String) (index : Nat) (name : String) : Prop :=
  names[index]? = some name ∧ name ∈ seen ++ names.take index

/-- The name at the smallest index at which a name is taken. -/
def FirstTaken (seen names : List String) (name : String) : Prop :=
  ∃ index, TakenAt seen names index name
    ∧ ∀ earlier < index, ∀ other, ¬ TakenAt seen names earlier other

theorem takenAt_zero {seen names : List String} {first name : String}
    : TakenAt seen (first :: names) 0 name ↔ first = name ∧ name ∈ seen := by
  simp [TakenAt]

theorem takenAt_succ {seen names : List String} {first name : String} {index : Nat}
    : TakenAt seen (first :: names) (index + 1) name
      ↔ TakenAt (seen ++ [first]) names index name := by
  simp [TakenAt]

/-- If the first name is taken it is the first that is, and else the search goes on behind it. -/
theorem firstTaken_cons {seen names : List String} {first name : String}
    : FirstTaken seen (first :: names) name
      ↔ if first ∈ seen then first = name else FirstTaken (seen ++ [first]) names name := by
  constructor
  · rintro ⟨index, taken, fresh⟩
    cases index with
    | zero =>
        obtain ⟨rfl, within⟩ := takenAt_zero.mp taken
        rw [if_pos within]
    | succ index =>
        have isNew : first ∉ seen := fun within =>
          fresh 0 (Nat.succ_pos index) first (takenAt_zero.mpr ⟨rfl, within⟩)
        rw [if_neg isNew]
        refine ⟨index, takenAt_succ.mp taken, fun earlier before other early => ?_⟩
        exact fresh (earlier + 1) (Nat.succ_lt_succ before) other (takenAt_succ.mpr early)
  · by_cases within : first ∈ seen
    · rw [if_pos within]
      rintro rfl
      exact ⟨0, takenAt_zero.mpr ⟨rfl, within⟩, fun earlier before => by omega⟩
    · rw [if_neg within]
      rintro ⟨index, taken, fresh⟩
      refine ⟨index + 1, takenAt_succ.mpr taken, fun earlier before other early => ?_⟩
      cases earlier with
      | zero =>
          obtain ⟨rfl, known⟩ := takenAt_zero.mp early
          exact within known
      | succ earlier =>
          exact fresh earlier (Nat.lt_of_succ_lt_succ before) other (takenAt_succ.mp early)

/-- The search finds the first name that is taken, by induction on the names left to look at. -/
theorem firstRepeat?_eq_some_iff {seen names : List String} {name : String}
    : firstRepeat? seen names = some name ↔ FirstTaken seen names name := by
  induction names generalizing seen with
  | nil => simp [firstRepeat?, FirstTaken, TakenAt]
  | cons first names hyp =>
      rw [firstTaken_cons, firstRepeat?]
      by_cases within : first ∈ seen
      · simp [within]
      · simp [within, hyp]

/-- A name is taken exactly if names repeat. -/
theorem exists_firstRepeat?_iff {names : List String}
    : (∃ name, firstRepeat? [] names = some name) ↔ ¬ names.Nodup := by
  constructor
  · rintro ⟨name, found⟩ distinct
    obtain ⟨index, ⟨listed, taken⟩, -⟩ := firstRepeat?_eq_some_iff.mp found
    obtain ⟨inside, same⟩ := List.getElem?_eq_some_iff.mp listed
    rw [← List.take_append_drop index names, List.drop_eq_getElem_cons inside, same] at distinct
    exact (List.nodup_append.mp distinct).2.2 name taken name List.mem_cons_self rfl
  · intro repeats
    rw [← Option.isSome_iff_exists, Option.isSome_iff_ne_none]
    intro fresh
    exact repeats (by simpa using nodup_of_firstRepeat .nil fresh)

------------------------------------------------------------------------------------------
-- Catalogs of lists
------------------------------------------------------------------------------------------

variable {presets : List Preset}

theorem ofList?_of_repeat {name : String} (nonempty : presets ≠ [])
    (found : firstRepeat? [] (Preset.names presets) = some name)
    : ofList? presets = .error (.duplicateExample name) := by
  rw [ofList?, dif_neg nonempty]
  split <;> simp_all

theorem ofList?_of_nodup (nonempty : presets ≠ []) (distinct : (Preset.names presets).Nodup)
    : ofList? presets = .ok ⟨presets, nonempty, distinct⟩ := by
  have fresh : firstRepeat? [] (Preset.names presets) = none := by
    rw [← Option.not_isSome_iff_eq_none, Option.isSome_iff_exists, exists_firstRepeat?_iff]
    exact not_not_intro distinct
  rw [ofList?, dif_neg nonempty]
  split <;> simp_all

/-- A list of presets is empty, has a name that repeats, or is a catalog. -/
theorem ofList?_cases (presets : List Preset)
    : (presets = [] ∧ ofList? presets = .error .emptyCatalog)
      ∨ (∃ name,
          presets ≠ [] ∧ firstRepeat? [] (Preset.names presets) = some name
          ∧ ofList? presets = .error (.duplicateExample name))
      ∨ ∃ nonempty distinct, ofList? presets = .ok ⟨presets, nonempty, distinct⟩ := by
  by_cases empty : presets = []
  · subst empty
    exact .inl ⟨rfl, rfl⟩
  · by_cases distinct : (Preset.names presets).Nodup
    · exact .inr (.inr ⟨empty, distinct, ofList?_of_nodup empty distinct⟩)
    · obtain ⟨name, found⟩ := exists_firstRepeat?_iff.mpr distinct
      exact .inr (.inl ⟨name, empty, found, ofList?_of_repeat empty found⟩)

theorem ofList?_eq_empty_iff
    : ofList? presets = .error .emptyCatalog ↔ presets = [] := by
  rcases ofList?_cases presets with ⟨empty, built⟩ | ⟨name, full, -, built⟩ | ⟨full, _, built⟩
  · exact iff_of_true built empty
  · simp [full, built]
  · simp [full, built]

theorem ofList?_eq_duplicate_iff {name : String}
    : ofList? presets = .error (.duplicateExample name)
      ↔ FirstTaken [] (Preset.names presets) name := by
  rw [← firstRepeat?_eq_some_iff]
  rcases ofList?_cases presets with ⟨rfl, built⟩ | ⟨name, -, found, built⟩ | ⟨_, distinct, built⟩
  · simp [built, Preset.names, firstRepeat?]
  · simp [built, found]
  · have fresh : firstRepeat? [] (Preset.names presets) ≠ some name := fun found =>
      exists_firstRepeat?_iff.mp ⟨name, found⟩ distinct
    simp [built, fresh]

theorem ofList?_eq_ok_iff {catalog : Catalog}
    : ofList? presets = .ok catalog ↔ catalog.presets = presets := by
  constructor
  · intro built
    rcases ofList?_cases presets with ⟨-, other⟩ | ⟨name, -, -, other⟩ | ⟨_, _, other⟩
    · cases built.symm.trans other
    · cases built.symm.trans other
    · obtain rfl := Except.ok.inj (built.symm.trans other)
      rfl
  · rintro rfl
    exact ofList?_of_nodup catalog.nonempty catalog.distinct

------------------------------------------------------------------------------------------
-- Finding presets again
------------------------------------------------------------------------------------------

/-- A catalog has presets as they are listed. -/
structure Lists (catalog : Catalog) (given : List Preset) : Prop where
  presets : catalog.presets = given
  names : catalog.names = given.map (·.name)
  distinct : catalog.names.Pairwise (· ≠ ·)
  size : catalog.size = given.length
  isEmpty : catalog.isEmpty = false
  defaultName : some catalog.defaultName = given.head?.map (·.name)

/-- A catalog finds each of its presets by the name that is listed for it, and no others. -/
structure Finds (catalog : Catalog) : Prop where
  contains_iff : ∀ name, catalog.contains name = true ↔ name ∈ catalog.names
  get_iff : ∀ name, (∃ text, catalog.get name = .ok text) ↔ name ∈ catalog.names
  get_listed
    : ∀ index : Nat,
        catalog.names[index]?.map catalog.get
        = catalog.presets[index]?.map fun preset => .ok preset.text
  get_other
    : ∀ name, name ∉ catalog.names → catalog.get name = .error (.unknownExample name)

theorem lists_presets (catalog : Catalog)
    : catalog.Lists catalog.presets := by
  refine ⟨rfl, rfl, catalog.distinct, rfl, ?_, ?_⟩
  · simpa [isEmpty] using catalog.nonempty
  · rw [presets_eq_cons]
    rfl

/-- A preset is found by its name, as no other preset has that name. -/
theorem get_name {catalog : Catalog} {preset : Preset} (listed : preset ∈ catalog.presets)
    : catalog.get preset.name = .ok preset.text := by
  obtain ⟨other, found⟩ := Option.isSome_iff_exists.mp
    ((catalog.find?_isSome_iff preset.name).mpr (List.mem_map_of_mem listed))
  have named : other.name = preset.name := by simpa using List.find?_some found
  have same : other = preset :=
    List.inj_on_of_nodup_map catalog.distinct (List.mem_of_find?_eq_some found) listed named
  rw [get, found, same]

theorem finds (catalog : Catalog)
    : catalog.Finds := by
  refine ⟨catalog.contains_iff, fun name => ⟨?_, get_of_mem⟩, fun index => ?_,
    fun _ => get_of_not_mem⟩
  · rintro ⟨text, found⟩
    by_contra unlisted
    cases found.symm.trans (get_of_not_mem unlisted)
  · rw [names, Preset.names, List.getElem?_map, Option.map_map]
    exact Option.map_congr fun preset listed => get_name (List.mem_of_getElem? listed)

/-- Building refuses exactly the empty list, and the lists in which a name repeats, for the first
name that is taken. It keeps every other list as it is; then the presets are found by the names that
are listed and by no others.
-/
theorem listed_and_found (presets : List Preset)
    : (ofList? presets = .error .emptyCatalog ↔ presets = [])
      ∧ (∀ name,
          ofList? presets = .error (.duplicateExample name)
          ↔ FirstTaken [] (Preset.names presets) name)
      ∧ ((∃ name, ofList? presets = .error (.duplicateExample name))
          ↔ ¬ (Preset.names presets).Nodup)
      ∧ ((∃ catalog, ofList? presets = .ok catalog)
          ↔ presets ≠ [] ∧ (Preset.names presets).Nodup)
      ∧ ∀ catalog, ofList? presets = .ok catalog → catalog.Lists presets ∧ catalog.Finds := by
  refine ⟨ofList?_eq_empty_iff, fun name => ofList?_eq_duplicate_iff, ?_, ⟨?_, ?_⟩, ?_⟩
  · rw [← exists_firstRepeat?_iff]
    exact exists_congr fun name =>
      ofList?_eq_duplicate_iff.trans firstRepeat?_eq_some_iff.symm
  · rintro ⟨catalog, built⟩
    obtain rfl := ofList?_eq_ok_iff.mp built
    exact ⟨catalog.nonempty, catalog.distinct⟩
  · rintro ⟨nonempty, distinct⟩
    exact ⟨_, ofList?_of_nodup nonempty distinct⟩
  · intro catalog built
    obtain rfl := ofList?_eq_ok_iff.mp built
    exact ⟨catalog.lists_presets, catalog.finds⟩

end Scratchpad.Catalog
