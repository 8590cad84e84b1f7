import Scratchpad.Error

/-! The catalog of preset programs. A catalog has at least one preset, and no two of one name; it
keeps the order in which presets were given, and the first is loaded at start.
-/

namespace Scratchpad

/-- A named program. -/
structure Preset where
  name : String
  text : String
deriving DecidableEq

/-- The names of presets, in order. -/
def Preset.names (presets : List Preset) : List String :=
  presets.map Preset.name

/-- Presets in order, at least one and with names of their own. -/
structure Catalog where
  presets : List Preset
  nonempty : presets ≠ []
  distinct : (Preset.names presets).Nodup

namespace Catalog

/-- The first name that has occurred before, where those in `seen` have. -/
def firstRepeat? (seen : List String) : List String → Option String
  | [] => none
  | name :: rest =>
    if seen.contains name then some name else firstRepeat? (seen ++ [name]) rest

theorem nodup_of_firstRepeat {seen names : List String} (unseen : seen.Nodup)
    (fresh : firstRepeat? seen names = none)
    : (seen ++ names).Nodup := by
  induction names generalizing seen with
  | nil => simpa using unseen
  | cons name rest ih =>
    unfold firstRepeat? at fresh
    split at fresh
    · contradiction
    · rename_i isNew
      have isNew : name ∉ seen := by simpa using isNew
      have distinct : (seen ++ [name]).Nodup := by
        refine List.nodup_append.2 ⟨unseen, by simp, fun old mem new isName same => isNew ?_⟩
        rw [← List.mem_singleton.1 isName, ← same]
        exact mem
      simpa using ih distinct fresh

/-- The catalog of the given presets, unless there are none or a name repeats. -/
def ofList? (presets : List Preset) : Except Error Catalog :=
  if nonempty : presets = [] then
    .error .emptyCatalog
  else
    match fresh : firstRepeat? [] (Preset.names presets) with
    | some name => .error (.duplicateExample name)
    | none => .ok ⟨presets, nonempty, by simpa using nodup_of_firstRepeat .nil fresh⟩

/-- The names of the presets, in order. -/
def names (catalog : Catalog) : List String :=
  Preset.names catalog.presets

/-- The preset of a name. -/
def find? (catalog : Catalog) (name : String) : Option Preset :=
  catalog.presets.find? (·.name == name)

/-- The text of the preset of a name. -/
def get (catalog : Catalog) (name : String) : Except Error String :=
  match catalog.find? name with
  | some preset => .ok preset.text
  | none => .error (.unknownExample name)

/-- Whether a preset has the name. -/
def contains (catalog : Catalog) (name : String) : Bool :=
  catalog.presets.any (·.name == name)

/-- The first preset. -/
def first (catalog : Catalog) : Preset :=
  catalog.presets.head catalog.nonempty

/-- The name of the preset that is loaded at start. -/
def defaultName (catalog : Catalog) : String :=
  catalog.first.name

/-- The number of presets. -/
def size (catalog : Catalog) : Nat :=
  catalog.presets.length

/-- Whether there are no presets, which no catalog allows. -/
def isEmpty (catalog : Catalog) : Bool :=
  catalog.presets.isEmpty

end Catalog

end Scratchpad
