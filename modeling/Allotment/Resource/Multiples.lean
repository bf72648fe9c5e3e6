import Allotment.Resource.Scaling

/-!
# Rounding to multiples

Schedulers hand out resources in steps. The amounts are worked out in 64-bit words, whatever the
dimension, and the word of the dimension then keeps the low bits. A quotient that no 64-bit word
holds, the least one over `-1`, has no answer: the operations return an `Option`.
-/

namespace Allotment

/-- The quotient rounded up, `0` over zero: the truncated quotient, and one more if something is
left over and the signs agree. -/
def ceilDiv? (value divisor : Int) : Option Int :=
  if divisor = 0 then
    some 0
  else
    let q := value.tdiv divisor
    if Word.word64.Holds q then
      some (if value.tmod divisor ≠ 0 ∧ (0 < value ↔ 0 < divisor) then q + 1 else q)
    else
      none

/-- The least multiple of `step` that is not below `value`, stopped at the bounds of the word. Over
a negative step the multiples count down. Without a step the value stays as it is. -/
def roundUp? (value step : Int) : Option Int :=
  if step = 0 then some value
  else (ceilDiv? value step).map fun q => Word.word64.clamp (q * step)

/-- The greatest multiple of `step` that is not above `value`. Without a step the value stays as it
is. -/
def roundDown? (value step : Int) : Option Int :=
  if step = 0 then some value
  else if Word.word64.Holds (value / step) then
    some (Word.word64.wrap (value / step * step))
  else none

namespace Resource

/-- Collects amounts that were worked out in 64-bit words; each dimension keeps the low bits that
its own word holds. -/
def ofWords? (f : Dimension → Option Int) : Option Resource := do
  let memory ← f .memory
  let vcores ← f .cpu
  let gpuMemory ← f .gpuMemory
  return ofFn fun
    | .memory => Dimension.memory.word.wrap memory
    | .cpu => Dimension.cpu.word.wrap vcores
    | .gpuMemory => Dimension.gpuMemory.word.wrap gpuMemory

def divideUp? (r : Resource) (divisor : Int) : Option Resource :=
  ofWords? fun d => ceilDiv? (r.get d) divisor

/-- Every amount rounded up to a multiple of the step of its dimension. -/
def roundUp? (r step : Resource) : Option Resource :=
  ofWords? fun d => Allotment.roundUp? (r.get d) (step.get d)

/-- Every amount rounded down to a multiple of the step of its dimension. -/
def roundDown? (r step : Resource) : Option Resource :=
  ofWords? fun d => Allotment.roundDown? (r.get d) (step.get d)

/-- Every amount raised to at least `lower`, rounded up to a multiple of `increment`, and capped at
`upper`. -/
def normalize? (r lower upper increment : Resource) : Option Resource :=
  ofWords? fun d =>
    (Allotment.roundUp? (max (r.get d) (lower.get d)) (increment.get d)).map
      (min · (upper.get d))

/-- Every amount times `factor`, rounded up to a multiple of the step of its dimension. -/
def scaleUp? (r : Resource) (factor : Float) (step : Resource) : Option Resource :=
  (r.scale .up factor).roundUp? step

/-- Every amount times `factor`, rounded down to a multiple of the step of its dimension. -/
def scaleDown? (r : Resource) (factor : Float) (step : Resource) : Option Resource :=
  (r.scale .down factor).roundDown? step

theorem get_ofWords? {f : Dimension → Option Int} {r : Resource} (h : ofWords? f = some r)
    (d : Dimension) : (f d).map d.word.wrap = some (r.get d) := by
  simp only [ofWords?, Option.bind_eq_bind, Option.bind_eq_some_iff, Option.pure_def,
    Option.some.injEq] at h
  obtain ⟨m, hm, c, hc, g, hg, rfl⟩ := h
  cases d
  · simp [hm, Word.clamp_eq_self Word.holds_wrap]
  · simp [hc, Word.clamp_eq_self Word.holds_wrap]
  · simp [hg, Word.clamp_eq_self Word.holds_wrap]

end Resource

end Allotment
