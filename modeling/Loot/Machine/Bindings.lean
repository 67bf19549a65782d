import Loot.Text.Basic
/-!
# Bindings

A table from names to things, in the order in which the names came. Binding a name again changes its
entry where it stands.
-/
namespace Loot

structure Bindings (α : Type) where
  entries : List (Text × α) := []
deriving DecidableEq

namespace Bindings

variable {α : Type}

def get? (b : Bindings α) (name : Text) : Option α := b.entries.lookup name

def setIn (name : Text) (a : α) : List (Text × α) → List (Text × α)
  | [] => [(name, a)]
  | (n, x) :: rest => if n = name then (n, a) :: rest else (n, x) :: setIn name a rest

def set (b : Bindings α) (name : Text) (a : α) : Bindings α := ⟨setIn name a b.entries⟩

def map {β : Type} (f : α → β) (b : Bindings α) : Bindings β :=
  ⟨b.entries.map fun (n, a) => (n, f a)⟩

end Bindings

end Loot
