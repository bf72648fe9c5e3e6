import Std.Data.ExtTreeMap
import Allotment.Demand.Interval
import Allotment.Resource.Basic

/-!
# Demand profiles

A `Profile` tells the demand over time, bucket by bucket. The point stored at the start of a bucket
is the demand throughout the bucket; where no point is stored there is no demand. Profiles are
added and subtracted point by point, and a point that becomes zero is dropped.

The profile of a set of intervals is found by a sweep: the changes of demand are collected by
instant, and each stretch between two changes raises the buckets that it meets to the level of
demand during the stretch. A bucket in which demand changes thus keeps the largest amount of each
dimension, so a profile never tells less than the demand.
-/

namespace Allotment.Demand

/-- Demand by the start of the bucket. -/
@[ext] structure Profile where
  points : Std.ExtTreeMap Int Resource

namespace Profile

/-- No demand at all. -/
instance : EmptyCollection Profile :=
  ⟨⟨∅⟩⟩

instance : Inhabited Profile :=
  ⟨∅⟩

/-- The stored points in time order. -/
def toList (p : Profile) : List (Int × Resource) :=
  p.points.toList

/-- The number of stored points. -/
def size (p : Profile) : Nat :=
  p.points.size

/-- No point is stored. -/
def isEmpty (p : Profile) : Bool :=
  p.points.isEmpty

/-- The demand stored for the bucket that starts at `b`. -/
def get (p : Profile) (b : Int) : Resource :=
  p.points.getD b 0

/-- The demand at an instant. -/
def demandAt (p : Profile) (s : Step) (t : Int) : Resource :=
  p.get (s.align t)

/-- Stores a demand for a bucket; a demand of zero is not stored. -/
def set (p : Profile) (b : Int) (r : Resource) : Profile :=
  if r = 0 then ⟨p.points.erase b⟩ else ⟨p.points.insert b r⟩

/-- Changes the points at which `q` has one: each becomes `f` of its value in `p` and in `q`. -/
def merge (f : Resource → Resource → Resource) (p q : Profile) : Profile :=
  q.toList.foldl (fun p x => p.set x.1 (f (p.get x.1) x.2)) p

instance : Add Profile :=
  ⟨merge (· + ·)⟩

instance : Sub Profile :=
  ⟨merge (· - ·)⟩

/-- The points from the aligned start of the interval up to its end, in time order. -/
def within (p : Profile) (s : Step) (i : Interval) : List (Int × Resource) :=
  p.toList.filter fun x => s.align i.start ≤ x.1 ∧ x.1 < i.stop

/-- Raises the buckets of the interval to at least the given level. -/
def raise (p : Profile) (s : Step) (i : Interval) (level : Resource) : Profile :=
  (s.buckets i).foldl (fun p b => ⟨p.points.insert b ((p.get b).sup level)⟩) p

/-- The profile of a list of demands, each made during its interval. -/
def ofIntervals (s : Step) (demands : List (Interval × Resource)) : Profile :=
  sweep 0 (changes demands).toList ∅
where
  /-- The change of demand by instant: what starts there less what stops there. -/
  changes (demands : List (Interval × Resource)) : Std.ExtTreeMap Int Resource :=
    demands.foldl (fun m (i, r) =>
      if i.IsEmpty ∨ r = 0 then m
      else
        let m := m.insert i.start (m.getD i.start 0 + r)
        m.insert i.stop (m.getD i.stop 0 - r)) ∅
  /-- Walks the changes in time order with the level of demand before the first of them. -/
  sweep (level : Resource) : List (Int × Resource) → Profile → Profile
    | (t, change) :: (u, change') :: rest, p =>
      let level := level + change
      let p := if level = 0 then p else p.raise s ⟨t, u⟩ level
      sweep level ((u, change') :: rest) p
    | _, p => p

/-! ### The demand of each bucket

Every operation is known by the demand that it leaves in each bucket. -/

variable {p q : Profile} {b c : Int} {r : Resource}

theorem isEmpty_iff : p.isEmpty = true ↔ p = ∅ := by
  constructor
  · intro h
    apply Profile.ext
    exact Std.ExtTreeMap.isEmpty_iff.1 h
  · rintro rfl
    exact Std.ExtTreeMap.isEmpty_empty

@[simp] theorem get_empty : (∅ : Profile).get b = 0 := by
  show (∅ : Std.ExtTreeMap Int Resource).getD b 0 = 0
  simp

theorem get_set : (p.set b r).get c = if b = c then r else p.get c := by
  unfold set
  by_cases hzero : r = 0
  · simp [hzero, get, Std.ExtTreeMap.getD_erase]
  · simp [hzero, get, Std.ExtTreeMap.getD_insert]

theorem get_eq_of_mem_toList (h : (b, r) ∈ p.toList) : p.get b = r := by
  have h : p.points[b]? = some r := Std.ExtTreeMap.mem_toList_iff_getElem?_eq_some.1 h
  simp [get, Std.ExtTreeMap.getD_eq_getD_getElem?, h]

theorem get_eq_zero_of_forall_mem (h : ∀ x ∈ p.toList, x.1 ≠ b) : p.get b = 0 := by
  have h : p.points[b]? = none := by
    rw [Option.eq_none_iff_forall_ne_some]
    intro r hr
    exact h (b, r) (Std.ExtTreeMap.mem_toList_iff_getElem?_eq_some.2 hr) rfl
  simp [get, Std.ExtTreeMap.getD_eq_getD_getElem?, h]

/-- Each bucket has one point at most. -/
theorem distinct_toList : p.toList.Pairwise fun x y => x.1 ≠ y.1 := by
  have h := Std.ExtTreeMap.distinct_keys_toList (t := p.points)
  simpa [toList] using h

theorem get_foldl_of_not_mem {f : Resource → Resource → Resource} {l : List (Int × Resource)}
    (h : ∀ x ∈ l, x.1 ≠ b) :
    (l.foldl (fun p x => p.set x.1 (f (p.get x.1) x.2)) p).get b = p.get b := by
  induction l generalizing p with
  | nil => rfl
  | cons x l ih =>
    rw [List.foldl_cons, ih fun y hy => h y (by simp [hy]), get_set, if_neg (h x (by simp))]

theorem get_foldl_of_mem {f : Resource → Resource → Resource} {l : List (Int × Resource)}
    (hl : l.Pairwise fun x y => x.1 ≠ y.1) (h : (b, r) ∈ l) :
    (l.foldl (fun p x => p.set x.1 (f (p.get x.1) x.2)) p).get b = f (p.get b) r := by
  induction l generalizing p with
  | nil => simp at h
  | cons x l ih =>
    obtain ⟨hx, hl⟩ := List.pairwise_cons.1 hl
    rw [List.foldl_cons]
    rcases List.mem_cons.1 h with rfl | h
    · rw [get_foldl_of_not_mem fun y hy => (hx y hy).symm, get_set, if_pos rfl]
    · rw [ih hl h, get_set, if_neg (hx _ h)]

/-- A merge combines the demands of each bucket if `f` leaves alone what it is given along with
zero. -/
theorem get_merge {f : Resource → Resource → Resource} (hf : ∀ x, f x 0 = x) :
    (merge f p q).get b = f (p.get b) (q.get b) := by
  by_cases h : ∃ r, (b, r) ∈ q.toList
  · obtain ⟨r, h⟩ := h
    rw [get_eq_of_mem_toList h]
    exact get_foldl_of_mem distinct_toList h
  · have h : ∀ x ∈ q.toList, x.1 ≠ b := by
      rintro ⟨c, r⟩ hx rfl
      exact h ⟨r, hx⟩
    rw [get_eq_zero_of_forall_mem h, hf]
    exact get_foldl_of_not_mem h

@[simp] theorem get_add : (p + q).get b = p.get b + q.get b :=
  get_merge fun _ => Resource.add_zero

@[simp] theorem get_sub : (p - q).get b = p.get b - q.get b :=
  get_merge fun _ => Resource.sub_zero

end Profile

end Allotment.Demand
