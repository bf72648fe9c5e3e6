import Allotment.Proofs.Demand.Canonical
import Allotment.Proofs.Demand.Sweep

/-!
# Arithmetic of canonical profiles

Adding a profile enters points and takes those out that have become zero, so points vanish where two
profiles cancel and come back when one of them is taken away again. A canonical profile is known
from what it tells at every instant, and there the amounts are added and subtracted like integers as
long as the words hold the results. So the canonical profiles of one step add up in any order, and
what was added can be subtracted again without a trace.
-/

namespace Allotment

/-! ## Amounts that the words hold -/

namespace Resource

variable {a b c : Resource} {d : Dimension}

theorem get_add_of_holds (h : d.word.Holds (a.get d + b.get d)) :
    (a + b).get d = a.get d + b.get d := by
  rw [get_add, Word.clamp_eq_self h]

theorem get_sub_of_holds (h : d.word.Holds (a.get d - b.get d)) :
    (a - b).get d = a.get d - b.get d := by
  rw [get_sub, Word.clamp_eq_self h]

theorem add_assoc (hab : ∀ d : Dimension, d.word.Holds (a.get d + b.get d))
    (hbc : ∀ d : Dimension, d.word.Holds (b.get d + c.get d)) : a + b + c = a + (b + c) := by
  apply ext_get
  intro d
  rw [get_add, get_add_of_holds (hab d), get_add, get_add_of_holds (hbc d), Int.add_assoc]

theorem add_sub_cancel (h : ∀ d : Dimension, d.word.Holds (a.get d + b.get d)) : a + b - b = a := by
  apply ext_get
  intro d
  rw [get_sub, get_add_of_holds (h d), Int.add_sub_cancel, Word.clamp_eq_self (holds_get a d)]

theorem sub_add_cancel (h : ∀ d : Dimension, d.word.Holds (a.get d - b.get d)) : a - b + b = a := by
  apply ext_get
  intro d
  rw [get_add, get_sub_of_holds (h d), Int.sub_add_cancel, Word.clamp_eq_self (holds_get a d)]

theorem sub_self : a - a = 0 := by
  apply ext_get
  intro d
  rw [get_sub, Int.sub_self, Word.clamp_eq_self Word.holds_zero, get_zero]

end Resource

namespace Demand.Profile

variable {p q r : Profile} {s : Step} {b t : Int} {d : Dimension}

/-! ## What profiles tell -/

@[simp] theorem demandAt_empty : (∅ : Profile).demandAt s t = 0 :=
  get_empty

@[simp] theorem demandAt_add : (p + q).demandAt s t = p.demandAt s t + q.demandAt s t :=
  get_add

@[simp] theorem demandAt_sub : (p - q).demandAt s t = p.demandAt s t - q.demandAt s t :=
  get_sub

/-- A canonical profile is known from what it tells at every instant. -/
theorem Canonical.eq_of_demandAt (hp : p.Canonical s) (hq : q.Canonical s)
    (h : ∀ t, p.demandAt s t = q.demandAt s t) : p = q := by
  apply hp.reduced.eq_of_get hq.reduced
  intro b
  by_cases hb : s.Starts b
  · have hat := h b
    unfold demandAt at hat
    rwa [hb.align_eq] at hat
  · rw [get_of_not_mem fun hmem => hb (hp.aligned b hmem),
      get_of_not_mem fun hmem => hb (hq.aligned b hmem)]

/-- The words hold the sums of what the profiles tell. -/
def SumsFit (s : Step) (p q : Profile) : Prop :=
  ∀ t (d : Dimension), d.word.Holds ((p.demandAt s t).get d + (q.demandAt s t).get d)

/-- The words hold the differences of what the profiles tell. -/
def DifferencesFit (s : Step) (p q : Profile) : Prop :=
  ∀ t (d : Dimension), d.word.Holds ((p.demandAt s t).get d - (q.demandAt s t).get d)

/-! ## Laws of addition -/

section Laws

variable (hp : p.Canonical s) (hq : q.Canonical s) (hr : r.Canonical s)

include hp hq

theorem Canonical.add_comm : p + q = q + p :=
  (hp.add hq.aligned).eq_of_demandAt (hq.add hp.aligned) fun _ => by
    rw [demandAt_add, demandAt_add, Resource.add_comm]

theorem Canonical.add_sub_cancel (h : SumsFit s p q) : p + q - q = p :=
  ((hp.add hq.aligned).sub hq.aligned).eq_of_demandAt hp fun t => by
    rw [demandAt_sub, demandAt_add, Resource.add_sub_cancel (h t)]

theorem Canonical.sub_add_cancel (h : DifferencesFit s p q) : p - q + q = p :=
  ((hp.sub hq.aligned).add hq.aligned).eq_of_demandAt hp fun t => by
    rw [demandAt_add, demandAt_sub, Resource.sub_add_cancel (h t)]

include hr

theorem Canonical.add_assoc (hpq : SumsFit s p q) (hqr : SumsFit s q r) :
    p + q + r = p + (q + r) :=
  ((hp.add hq.aligned).add hr.aligned).eq_of_demandAt (hp.add (hq.add hr.aligned).aligned)
    fun t => by simp only [demandAt_add, Resource.add_assoc (hpq t) (hqr t)]

omit hq hr

theorem Canonical.sub_self : p - p = ∅ :=
  (hp.sub hp.aligned).eq_of_demandAt canonical_empty fun _ => by
    rw [demandAt_sub, Resource.sub_self, demandAt_empty]

end Laws

/-- **Canonical profiles add and subtract like integers**, as long as the words hold the amounts,
and those that tell the same at every instant are the same. -/
theorem canonical_profiles_add_and_subtract (hp : p.Canonical s) (hq : q.Canonical s)
    (hr : r.Canonical s) :
    (p + q).Canonical s ∧ (p - q).Canonical s ∧
    (SumsFit s p q → ∀ t d,
      ((p + q).demandAt s t).get d = (p.demandAt s t).get d + (q.demandAt s t).get d) ∧
    (DifferencesFit s p q → ∀ t d,
      ((p - q).demandAt s t).get d = (p.demandAt s t).get d - (q.demandAt s t).get d) ∧
    p + q = q + p ∧
    (SumsFit s p q → SumsFit s q r → p + q + r = p + (q + r)) ∧
    (SumsFit s p q → p + q - q = p) ∧
    (DifferencesFit s p q → p - q + q = p) ∧
    p - p = ∅ ∧
    ((∀ t, p.demandAt s t = q.demandAt s t) → p = q) := by
  refine ⟨hp.add hq.aligned, hp.sub hq.aligned, ?_, ?_, hp.add_comm hq, hp.add_assoc hq hr,
    hp.add_sub_cancel hq, hp.sub_add_cancel hq, hp.sub_self, hp.eq_of_demandAt hq⟩
  · intro h t d
    rw [demandAt_add, Resource.get_add_of_holds (h t d)]
  · intro h t d
    rw [demandAt_sub, Resource.get_sub_of_holds (h t d)]

namespace Sample

/-- Cores in one bucket, and memory in the next. -/
def taken : Profile :=
  ((∅ : Profile).set 0 (.ofAmounts 0 4 0)).set 20 (.ofAmounts 50 0 0)

/-- Gives the cores back, and asks for memory two buckets later. -/
def returned : Profile :=
  ((∅ : Profile).set 0 (.ofAmounts 0 (-4) 0)).set 40 (.ofAmounts 7 0 1)

end Sample

/-- The point at which both cancel is not stored in the sum, and it is stored again once the second
has been subtracted. -/
theorem taken_and_returned :
    (Sample.taken + Sample.returned).points[(0 : Int)]? = none ∧
    ((Sample.taken + Sample.returned).demandAt ⟨20, by decide⟩ 5).get .cpu = 4 + -4 ∧
    Sample.taken + Sample.returned + Sample.taken =
      Sample.taken + (Sample.returned + Sample.taken) ∧
    Sample.taken + Sample.returned - Sample.returned = Sample.taken := by
  have htaken : Sample.taken.Canonical ⟨20, by decide⟩ :=
    (canonical_empty.set (by decide)).set (by decide)
  have hreturned : Sample.returned.Canonical ⟨20, by decide⟩ :=
    (canonical_empty.set (by decide)).set (by decide)
  have hfit : SumsFit ⟨20, by decide⟩ Sample.taken Sample.returned := by
    intro t d
    simp only [demandAt, Sample.taken, Sample.returned, get_set, get_empty]
    split_ifs <;> cases d <;> decide
  have hfit' : SumsFit ⟨20, by decide⟩ Sample.returned Sample.taken := by
    intro t d
    rw [Int.add_comm]
    exact hfit t d
  obtain ⟨_, _, hadd, _, _, hassoc, hback, _⟩ :=
    canonical_profiles_add_and_subtract htaken hreturned htaken
  refine ⟨by decide +kernel, ?_, hassoc hfit hfit', hback hfit⟩
  rw [hadd hfit]
  decide +kernel

end Demand.Profile

end Allotment
