/-!
# Counted results

A result together with the number of changes that made it. Sequencing adds the numbers.
-/

namespace ProviderMigration

structure Counted (α : Type) where
  value : α
  count : Nat
deriving Repr

namespace Counted

instance : Monad Counted where
  pure a := ⟨a, 0⟩
  bind x f :=
    let y := f x.value
    ⟨y.value, x.count + y.count⟩

/-- A result of one change. -/
def one {α : Type} (a : α) : Counted α := ⟨a, 1⟩

/-- One change if there is a new value, else none. -/
def ofOption {α : Type} (old : α) : Option α → Counted α
  | some new => one new
  | none => pure old

/-- Whether there was a change. -/
def changed {α : Type} (x : Counted α) : Bool :=
  x.count != 0

end Counted

end ProviderMigration
