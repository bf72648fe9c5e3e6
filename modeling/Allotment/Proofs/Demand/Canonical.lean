import Allotment.Demand.Profile
import Allotment.Proofs.Demand.Bucket

/-!
# Canonical profiles

A profile is reduced if it stores no zero. Of a reduced profile the stored points are known from the
demands of its buckets, and so is the profile itself. It is canonical if besides it stores points at
the starts of buckets only. Adding and subtracting keep a profile reduced whatever the other one
stores, and canonical if the other one stores points at the starts of buckets only.
-/

namespace Allotment.Demand.Profile

variable {p q : Profile} {s : Step} {b c t : Int} {r : Resource}

/-- No point is zero. -/
def Reduced (p : Profile) : Prop :=
  ∀ b ∈ p.points, p.get b ≠ 0

/-- Points at the starts of buckets, none of them zero. -/
structure Canonical (s : Step) (p : Profile) : Prop where
  aligned : ∀ b ∈ p.points, s.Starts b
  reduced : p.Reduced

theorem get_of_not_mem (h : b ∉ p.points) : p.get b = 0 :=
  Std.ExtTreeMap.getD_eq_fallback h

theorem mem_of_get_ne_zero (h : p.get b ≠ 0) : b ∈ p.points := by
  by_cases hb : b ∈ p.points
  · exact hb
  · exact absurd (get_of_not_mem hb) h

theorem getElem?_points_of_mem (h : b ∈ p.points) : p.points[b]? = some (p.get b) := by
  unfold get
  rw [Std.ExtTreeMap.getElem?_eq_some_getElem h, Std.ExtTreeMap.getD_eq_getD_getElem?,
    Std.ExtTreeMap.getElem?_eq_some_getElem h, Option.getD_some]

theorem mem_toList_iff : (b, r) ∈ p.toList ↔ b ∈ p.points ∧ p.get b = r := by
  unfold toList
  rw [Std.ExtTreeMap.mem_toList_iff_getElem?_eq_some]
  constructor
  · intro h
    have hb : b ∈ p.points := by
      rw [Std.ExtTreeMap.mem_iff_isSome_getElem?, h]
      rfl
    rw [getElem?_points_of_mem hb] at h
    exact ⟨hb, Option.some.inj h⟩
  · rintro ⟨hb, rfl⟩
    exact getElem?_points_of_mem hb

/-- Two profiles that store the same buckets with the same demands are the same. -/
theorem ext_of_mem_iff (hmem : ∀ b, b ∈ p.points ↔ b ∈ q.points)
    (hget : ∀ b, p.get b = q.get b) : p = q := by
  apply Profile.ext
  apply Std.ExtTreeMap.ext_getElem?
  intro b
  by_cases hb : b ∈ p.points
  · rw [getElem?_points_of_mem hb, getElem?_points_of_mem ((hmem b).1 hb), hget]
  · rw [Std.ExtTreeMap.getElem?_eq_none hb,
      Std.ExtTreeMap.getElem?_eq_none fun h => hb ((hmem b).2 h)]

theorem get_of_not_dvd (hp : ∀ b ∈ p.points, s.Starts b) (hb : ¬s.ms ∣ b) : p.get b = 0 :=
  get_of_not_mem fun h => hb (hp b h).1

/-- Every instant reads the bucket that holds it. Where the bucket starts below the word, nothing is
stored for it, nor where aligning leads instead. -/
theorem demandAt_eq_get_floor (hp : ∀ b ∈ p.points, s.Starts b) (ht : Word.word64.Holds t) :
    p.demandAt s t = p.get (s.floor t) := by
  unfold demandAt
  by_cases halign : s.Aligns t
  · rw [Step.align_eq_floor halign]
  · rw [get_of_not_dvd hp (Step.not_dvd_align ht halign),
      get_of_not_mem fun h => halign (hp _ h).2]

/-! ## Profiles without zeros -/

theorem reduced_empty : Reduced ∅ :=
  fun _ h => absurd h Std.ExtTreeMap.not_mem_empty

theorem Reduced.mem_iff (hp : p.Reduced) : b ∈ p.points ↔ p.get b ≠ 0 :=
  ⟨hp b, mem_of_get_ne_zero⟩

/-- Reduced profiles are known by the demands of their buckets. -/
theorem Reduced.eq_of_get (hp : p.Reduced) (hq : q.Reduced) (h : ∀ b, p.get b = q.get b) :
    p = q := by
  apply ext_of_mem_iff
  · intro b
    rw [hp.mem_iff, hq.mem_iff, h]
  · exact h

theorem mem_set : c ∈ (p.set b r).points ↔ if b = c then r ≠ 0 else c ∈ p.points := by
  by_cases hr : r = 0
  · by_cases hc : b = c
    · simp [set, hr, hc]
    · simp [set, hr, hc]
  · by_cases hc : b = c
    · simp [set, hr, hc]
    · simp [set, hr, hc]

theorem Reduced.set (hp : p.Reduced) : (p.set b r).Reduced := by
  intro c hc
  rw [mem_set] at hc
  rw [get_set]
  split at hc
  · rwa [if_pos ‹_›]
  · rw [if_neg ‹_›]
    exact hp c hc

theorem Reduced.merge {f : Resource → Resource → Resource} (hp : p.Reduced) :
    (merge f p q).Reduced := by
  unfold Profile.merge
  induction q.toList generalizing p with
  | nil => exact hp
  | cons x l ih => exact ih hp.set

theorem Reduced.add (hp : p.Reduced) : (p + q).Reduced :=
  hp.merge

theorem Reduced.sub (hp : p.Reduced) : (p - q).Reduced :=
  hp.merge

/-! ## Points at the starts of buckets -/

theorem canonical_empty : Canonical s ∅ where
  aligned _ h := absurd h Std.ExtTreeMap.not_mem_empty
  reduced := reduced_empty

theorem Canonical.get_of_not_dvd (hp : p.Canonical s) (hb : ¬s.ms ∣ b) : p.get b = 0 :=
  Profile.get_of_not_dvd hp.aligned hb

theorem mem_or_mem_of_mem_merge {f : Resource → Resource → Resource}
    (h : b ∈ (merge f p q).points) : b ∈ p.points ∨ b ∈ q.points := by
  have hfold : ∀ (l : List (Int × Resource)) (p : Profile),
      b ∈ (l.foldl (fun p x => p.set x.1 (f (p.get x.1) x.2)) p).points →
        b ∈ p.points ∨ ∃ x ∈ l, x.1 = b := by
    intro l
    induction l with
    | nil => exact fun _ h => .inl h
    | cons x l ih =>
        intro p h
        rcases ih _ h with hmem | ⟨y, hy, hb⟩
        · rw [mem_set] at hmem
          split at hmem
          · next heq => exact .inr ⟨x, List.mem_cons_self, heq⟩
          · exact .inl hmem
        · exact .inr ⟨y, List.mem_cons_of_mem x hy, hb⟩
  rcases hfold _ _ h with hmem | ⟨x, hx, rfl⟩
  · exact .inl hmem
  · exact .inr (mem_toList_iff.1 hx).1

theorem Canonical.merge {f : Resource → Resource → Resource} (hp : p.Canonical s)
    (hq : ∀ b ∈ q.points, s.Starts b) : (merge f p q).Canonical s where
  aligned b hb := (mem_or_mem_of_mem_merge hb).elim (hp.aligned b) (hq b)
  reduced := hp.reduced.merge

theorem Canonical.set (hp : p.Canonical s) (hb : s.Starts b) : (p.set b r).Canonical s := by
  refine ⟨fun c hc => ?_, hp.reduced.set⟩
  rw [mem_set] at hc
  split at hc
  · next heq => exact heq ▸ hb
  · exact hp.aligned c hc

theorem Canonical.add (hp : p.Canonical s) (hq : ∀ b ∈ q.points, s.Starts b) :
    (p + q).Canonical s :=
  hp.merge hq

theorem Canonical.sub (hp : p.Canonical s) (hq : ∀ b ∈ q.points, s.Starts b) :
    (p - q).Canonical s :=
  hp.merge hq

end Allotment.Demand.Profile
