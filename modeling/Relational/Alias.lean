/-!
# Aliases

The name of a source or a select inside one statement: a number, written `t0`, `t1` and so on.
-/

namespace Relational

structure Alias where
  id : Nat
deriving DecidableEq

def Alias.text (a : Alias) : String := "t" ++ Nat.repr a.id

/-- The alias after this one. -/
def Alias.next (a : Alias) : Alias := ⟨a.id + 1⟩

end Relational
