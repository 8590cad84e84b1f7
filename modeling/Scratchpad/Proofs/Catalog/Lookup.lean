import Scratchpad.Document
import Scratchpad.Settings

/-! Finding presets by name. A preset is found exactly if its name is listed, and the one that is
loaded at start unless another is asked for is the first.
-/

namespace Scratchpad

namespace Catalog

theorem contains_iff (catalog : Catalog) (name : String)
    : catalog.contains name = true ↔ name ∈ catalog.names := by
  simp [contains, names, Preset.names]

theorem find?_isSome_iff (catalog : Catalog) (name : String)
    : (catalog.find? name).isSome = true ↔ name ∈ catalog.names := by
  simp [find?, names, Preset.names]

theorem get_of_mem {catalog : Catalog} {name : String} (listed : name ∈ catalog.names)
    : ∃ text, catalog.get name = .ok text := by
  obtain ⟨preset, found⟩ := Option.isSome_iff_exists.mp ((catalog.find?_isSome_iff name).mpr listed)
  exact ⟨preset.text, by rw [get, found]⟩

theorem get_of_not_mem {catalog : Catalog} {name : String} (unlisted : name ∉ catalog.names)
    : catalog.get name = .error (.unknownExample name) := by
  have missing : catalog.find? name = none := by
    rw [← Option.not_isSome_iff_eq_none, find?_isSome_iff]
    exact unlisted
  rw [get, missing]

theorem presets_eq_cons (catalog : Catalog)
    : catalog.presets = catalog.first :: catalog.presets.tail :=
  (List.cons_head_tail catalog.nonempty).symm

theorem defaultName_mem (catalog : Catalog)
    : catalog.defaultName ∈ catalog.names :=
  List.mem_map_of_mem (List.head_mem catalog.nonempty)

theorem get_defaultName (catalog : Catalog)
    : catalog.get catalog.defaultName = .ok catalog.first.text := by
  have found : catalog.find? catalog.defaultName = some catalog.first := by
    rw [find?, presets_eq_cons]
    exact List.find?_cons_of_pos (by simp [defaultName])
  rw [get, found]

end Catalog

namespace Document

theorem preset_of_mem {catalog : Catalog} {name : String} (listed : name ∈ catalog.names)
    : ∃ document, preset catalog name = .ok document := by
  obtain ⟨text, found⟩ := Catalog.get_of_mem listed
  exact ⟨⟨text, .preset name⟩, by rw [preset, found]; rfl⟩

theorem preset_of_not_mem {catalog : Catalog} {name : String} (unlisted : name ∉ catalog.names)
    : preset catalog name = .error (.unknownExample name) := by
  rw [preset, Catalog.get_of_not_mem unlisted]
  rfl

/-- The document with the first preset of a catalog. -/
def ofFirst (catalog : Catalog) : Document :=
  ⟨catalog.first.text, .preset catalog.first.name⟩

theorem preset_defaultName (catalog : Catalog)
    : preset catalog catalog.defaultName = .ok (ofFirst catalog) := by
  rw [preset, Catalog.get_defaultName]
  rfl

end Document

/-- The preset that the settings ask for at start is listed. -/
theorem Settings.mem_of_startName {settings : Settings} {catalog : Catalog} {name : String}
    (named : settings.startName catalog = .ok name)
    : name ∈ catalog.names := by
  rw [startName] at named
  split at named
  · obtain rfl := Except.ok.inj named
    exact catalog.defaultName_mem
  · split at named
    · rename_i contained
      obtain rfl := Except.ok.inj named
      exact (catalog.contains_iff _).mp contained
    · cases named

end Scratchpad
