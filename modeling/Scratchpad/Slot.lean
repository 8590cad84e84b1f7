/-! Slots: places outside a session that hold one text, such as the fragment of an address. -/

namespace Scratchpad

/-- Something that holds a text. What is read may start with `#`; what is written does not. -/
class Slot (τ : Type) where
  read : τ → String
  write : String → τ → τ

/-- A slot that remembers all that was written to it, oldest first. -/
structure RecordedSlot where
  value : String
  writes : Array String
deriving DecidableEq

namespace RecordedSlot

/-- An empty slot. -/
def empty : RecordedSlot := ⟨"", #[]⟩

/-- A slot that already holds a text. -/
def holding (value : String) : RecordedSlot := ⟨value, #[]⟩

instance : Slot RecordedSlot where
  read slot := slot.value
  write text slot := ⟨text, slot.writes.push text⟩

end RecordedSlot

end Scratchpad
