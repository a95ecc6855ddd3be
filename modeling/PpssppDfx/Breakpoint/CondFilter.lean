import Mathlib.Algebra.Group.Int.Defs
import Mathlib.Data.Int.Notation
import Mathlib.Data.Nat.Notation
import Mathlib.Logic.Function.Basic
import PpssppDfx.Python.Value

/-!
# Condition filters

The emulator ignores conditions on registers, so a conditional breakpoint is armed without
its condition there and the condition is kept here, by session and address. The server
evaluates it at every hit.
-/

set_option autoImplicit false

namespace Breakpoint

open Function Python

/-- An entry of the registry. -/
structure Filter where
  condition : String
  filtered : ℕ
  hits : ℕ
  deriving DecidableEq

/-- `_filters`, by session and address. -/
abbrev Filters := String × ℤ → Option Filter

namespace Filters

variable (f : Filters) (sessionId : String) (address : ℤ)

def register (condition : String) : Filters :=
  update f (sessionId, address) (some ⟨condition, 0, 0⟩)

def get : Option Filter := f (sessionId, address)

def bumpHit : Filters :=
  update f (sessionId, address)
    ((f (sessionId, address)).map fun entry => { entry with hits := entry.hits + 1 })

def bumpFiltered : Filters :=
  update f (sessionId, address)
    ((f (sessionId, address)).map fun entry => { entry with filtered := entry.filtered + 1 })

def drop : Filters := update f (sessionId, address) none

def dropSession : Filters := fun key => if key.1 = sessionId then none else f key

end Filters

/-- `format_address`. -/
def formatAddress (value : ℤ) : String := "0x" ++ hex08 (value % 2 ^ 32)

end Breakpoint
