import Mathlib.Data.Fintype.Basic
import Mathlib.Data.Nat.Bitwise
import Ospray.Volume.BvhInvariants

/-!
# The references of a hierarchy

A reference to a leaf keeps the number of its primitives in three bits, and is taken for a
pair of nodes where these are zero. Division ends with more than 7 primitives only where
all their centers are one point, and never separates primitives with one center. So the
references of a hierarchy are understood as they were meant unless 8 primitives share their
center.
-/

namespace Ospray.Unstructured

open Library.BoxTrees Library.Hulls Library.Partitions Library.StackTraversals BuiltTree

/-! ## Encoding and decoding -/

/-- What a reference is taken for. -/
inductive Meaning where
  | leaf (offset count : Nat)
  | inner (offset : Nat)
  deriving DecidableEq

/-- The rule of the traversals: `nodeRef & 0x7` primitives, or else a pair of nodes. The offset of
primitives is counted in references, that of nodes in bytes. -/
def decode (nodeRef : Nat) : Meaning :=
  let numPrimsInNode := nodeRef &&& 7
  if numPrimsInNode = 0 then .inner (nodeRef >>> 3 <<< 3) else .leaf (nodeRef >>> 3) numPrimsInNode

variable {primBounds : Nat → Box4} {prims : List Nat}

/-- The place of a primitive. -/
def centerOf (primBounds : Nat → Box4) (prim : Nat) : Fin 3 → ℚ := xyz (center (primBounds prim))

end Ospray.Unstructured
