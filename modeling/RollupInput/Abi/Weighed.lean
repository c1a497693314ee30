import RollupInput.Abi.Misfit

/-!
# Weighed readings

Reading has an outcome, a value or a misfit, and a weight: the room in bytes that the values met
on the way take, up to the misfit if there is one. A misfit ends reading, so what would come after
it weighs nothing. Since weights add up, a reading can be put together from readings of its parts
that are known already.
-/

namespace RollupInput.Abi

/-- What reading came to, and the room that it took. -/
structure Weighed (α : Type) where
  /-- The room in bytes. -/
  weight : Nat
  /-- The value read, or why there is none. -/
  outcome : Except Misfit α
  deriving Repr

namespace Weighed

/-- A value at hand. -/
def pure {α : Type} (a : α) : Weighed α := ⟨0, .ok a⟩

/-- A misfit. -/
def fail {α : Type} (e : Misfit) : Weighed α := ⟨0, .error e⟩

/-- Take room. -/
def take (bytes : Nat) : Weighed Unit := ⟨bytes, .ok ()⟩

/-- Go on with the value of a reading. -/
def bind {α β : Type} (x : Weighed α) (f : α → Weighed β) : Weighed β :=
  match x.outcome with
  | .error e => ⟨x.weight, .error e⟩
  | .ok a =>
    let y := f a
    ⟨x.weight + y.weight, y.outcome⟩

instance : Monad Weighed where
  pure := Weighed.pure
  bind := Weighed.bind

/-- Readings are a lawful monad: misfits end them and weights add up. -/
instance : LawfulMonad Weighed := LawfulMonad.mk' Weighed
  (by rintro α ⟨n, e | a⟩ <;> rfl)
  (by intro α β a f; simp [Pure.pure, Bind.bind, Weighed.pure, Weighed.bind])
  (by
    rintro α β γ ⟨n, e | a⟩ f g
    · rfl
    · simp only [Bind.bind, Weighed.bind]
      cases h : (f a).outcome <;> simp [Nat.add_assoc])

/-- The outcome of a reading that may take a given room in all. -/
def within {α : Type} (room : Nat) (x : Weighed α) : Except Misfit α :=
  if room < x.weight then .error .tooLarge else x.outcome

end Weighed

end RollupInput.Abi
