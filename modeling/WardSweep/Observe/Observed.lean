import WardSweep.Observe.Late
import WardSweep.Observe.Rendered

/-!
# From the registry to a diff

A diff of two captures speaks of what the registry held at the two times.  A value is spoken of when
it was kept once only, or twice and not alike.
-/

namespace WardSweep.Observe.Registry

open Utf8 Str Ordered Relation Tree

/-! ## Keys and their names -/

section

variable {policy : Policy} {view : Text} {root key key' : Key}

theorem Reached.below (h : Reached policy view root key) {child : Key}
    (hchild : child ∈ below policy view key) : Reached policy view root child := by
  obtain ⟨hallowed, top, htop, hreach⟩ := h
  exact ⟨hallowed, top, htop, hreach.tail hchild⟩

end

section

variable {policy : Policy} {trees : Text → Text → KeyTree}

end

/-! ## Values -/

end WardSweep.Observe.Registry
