/-!
# Powers of two and ten

Word sizes and mantissas are bounded by powers of two, scales are powers of ten.
-/

namespace Relational

def pow2 (n : Nat) : Nat := Nat.pow 2 n

def pow10 (n : Nat) : Nat := Nat.pow 10 n

end Relational
