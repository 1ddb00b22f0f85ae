/-!
The containers of a story: the places in it that can be entered.
-/
namespace Narrative

structure ContainerId where
  index : UInt32
  deriving DecidableEq, Inhabited

/-- The index that no container has. -/
def ContainerId.none : ContainerId := ⟨0xffffffff⟩

end Narrative
