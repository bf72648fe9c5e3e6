import Allotment.Binary64.Basic
import Allotment.Resource.Basic

/-!
# Resources times a number

Each amount becomes a double, is multiplied, and is rounded back into the word of its dimension.
-/

namespace Allotment.Resource

/-- Every amount times `factor`, rounded. -/
def scale (mode : Binary64.Rounding) (factor : Float) (r : Resource) : Resource :=
  ofFn fun d => Binary64.toInt d.word mode (Float.ofInt (r.get d) * factor)

@[simp] theorem get_scale {mode : Binary64.Rounding} {factor : Float} {r : Resource}
    {d : Dimension} :
    (r.scale mode factor).get d =
      Binary64.toInt d.word mode (Float.ofInt (r.get d) * factor) := by
  rw [scale, get_ofFn, Word.clamp_eq_self (Binary64.toInt_holds _ _ _)]

end Allotment.Resource
