import Mathlib

/-!
# Conventions of the model

A `u64`, and a `usize` on the kernel's target, is a natural number below `2 ^ 64`; where the source leaves an operation on them
unchecked the model wraps it, and where the source checks it the model has the check. The standard library's ordered map is
`Std.ExtTreeMap`.
-/

namespace GolemKernel

/-- `alloc::collections::BTreeMap`. -/
abbrev BTreeMap (κ β : Type) [Ord κ] : Type := Std.ExtTreeMap κ β compare

end GolemKernel
