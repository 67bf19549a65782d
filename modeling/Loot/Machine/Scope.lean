import Loot.Fault
import Loot.Machine.Bindings
import Loot.Value.Basic
/-!
# Scopes

There is one table of variables. A call saves it whole and works in the live table, so it sees every
variable of its caller. When the call ends, the saved table comes back, and whatever the call bound
or changed is gone.
-/
namespace Loot

/-- The variables, and the tables that the open calls saved, the last one first. -/
structure Scope where
  vars : Bindings Value := {}
  saved : List (Bindings Value) := []
deriving DecidableEq

namespace Scope

def depth (s : Scope) : Nat := s.saved.length

def get (s : Scope) (name : Text) (line : Line) : Except Fault Value :=
  match s.vars.get? name with
  | some v => .ok v
  | none => .error { cause := .undefinedVariable name, line }

def set (s : Scope) (name : Text) (v : Value) : Scope := { s with vars := s.vars.set name v }

def push (s : Scope) : Scope := { s with saved := s.vars :: s.saved }

def pop? (s : Scope) : Option Scope :=
  match s.saved with
  | [] => none
  | vars :: saved => some { vars, saved }

end Scope

end Loot
