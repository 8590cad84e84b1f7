import Scratchpad.Event

/-! Results with the events that led to them, oldest first. -/

namespace Scratchpad

/-- A value and the events on the way to it. -/
structure Traced (α : Type) where
  value : α
  events : List Event

namespace Traced

instance : Monad Traced where
  pure value := ⟨value, []⟩
  bind first next :=
    let second := next first.value
    ⟨second.value, first.events ++ second.events⟩

/-- An event and nothing else. -/
def log (event : Event) : Traced Unit :=
  ⟨(), [event]⟩

@[simp]
theorem value_pure {α : Type} (value : α)
    : (pure value : Traced α).value = value := rfl

@[simp]
theorem value_bind {α β : Type} (first : Traced α) (next : α → Traced β)
    : (first >>= next).value = (next first.value).value := rfl

instance : LawfulMonad Traced :=
  LawfulMonad.mk' Traced
    (fun _ => by simp [Functor.map])
    (fun _ _ => rfl)
    (fun _ _ _ => by simp [Bind.bind, List.append_assoc])

end Traced

end Scratchpad
