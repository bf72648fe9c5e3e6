import Allotment.Word

/-!
# Time

Instants are whole milliseconds that a signed word of 64 bits holds. An `Interval` is half-open: it
holds its start and stops short of its end. A `Step` cuts time into buckets of equal length, one of
which starts at zero. `Step.floor` is the start of the bucket that holds an instant, `Step.align` is
what the word makes of it: the bucket of the least instant may start before the word does.
-/

namespace Allotment.Demand

/-- The instants from `start` up to, but not including, `stop`. -/
structure Interval where
  start : Int
  stop : Int
deriving DecidableEq, Repr

namespace Interval

instance : Membership Int Interval where
  mem i t := i.start ≤ t ∧ t < i.stop

instance (t : Int) (i : Interval) : Decidable (t ∈ i) :=
  inferInstanceAs (Decidable (_ ∧ _))

/-- The number of instants from the start to the end, as far as the word can tell it; negative if
the end comes first. -/
def duration (i : Interval) : Int :=
  Word.word64.wrap (i.stop - i.start)

/-- An interval without instants. -/
def IsEmpty (i : Interval) : Prop :=
  i.stop ≤ i.start

instance (i : Interval) : Decidable i.IsEmpty :=
  inferInstanceAs (Decidable (_ ≤ _))

/-- One interval lies inside another, bound by bound. -/
instance : LE Interval where
  le i j := j.start ≤ i.start ∧ i.stop ≤ j.stop

instance (i j : Interval) : Decidable (i ≤ j) :=
  inferInstanceAs (Decidable (_ ∧ _))

/-- By start, then by end. -/
def compare (i j : Interval) : Ordering :=
  compareLex (compareOn Interval.start) (compareOn Interval.stop) i j

/-- The bounds, as reports write them. -/
def text (i : Interval) : String :=
  "[" ++ toString i.start ++ ", " ++ toString i.stop ++ ")"

theorem mem_iff {t : Int} {i : Interval} : t ∈ i ↔ i.start ≤ t ∧ t < i.stop :=
  Iff.rfl

theorem isEmpty_iff {i : Interval} : i.IsEmpty ↔ ∀ t, t ∉ i := by
  simp only [IsEmpty, mem_iff]
  constructor
  · intro h t
    omega
  · intro h
    have := h i.start
    omega

theorem compare_eq_eq {i j : Interval} : compare i j = .eq ↔ i = j := by
  cases i
  cases j
  simp [compare, compareLex, compareOn, Ordering.then_eq_eq]

instance : Std.TransCmp compare :=
  inferInstanceAs (Std.TransCmp (compareLex _ _))

instance : Std.LawfulEqCmp compare where
  eq_of_compare := compare_eq_eq.1

end Interval

/-- The length of a bucket of time. -/
structure Step where
  ms : Int
  bounds : 0 < ms ∧ ms ≤ Word.word64.greatest := by decide
deriving DecidableEq

namespace Step

theorem pos (s : Step) : 0 < s.ms :=
  s.bounds.1

theorem le_greatest (s : Step) : s.ms ≤ Word.word64.greatest :=
  s.bounds.2

/-- The step of the given length, at least one millisecond. -/
def ofInt (ms : Int) : Step where
  ms := max 1 (min Word.word64.greatest ms)
  bounds := by
    have := Word.word64.greatest_pos
    omega

/-- The start of the bucket that holds the instant, whether or not the word holds it. -/
def floor (s : Step) (t : Int) : Int :=
  t / s.ms * s.ms

/-- The start of the bucket that holds the instant, with the high bits dropped that no word has. -/
def align (s : Step) (t : Int) : Int :=
  Word.word64.wrap (s.floor t)

/-- The bucket that starts at `b`. -/
def bucket (s : Step) (b : Int) : Interval :=
  ⟨b, b + s.ms⟩

/-- The starts of buckets from the aligned start of the interval up to its end, in time order. -/
def buckets (s : Step) (i : Interval) : List Int :=
  let first := s.align i.start
  let count := ((i.stop - first + s.ms - 1) / s.ms).toNat
  (List.range count).map fun (k : Nat) => first + k * s.ms

variable {s : Step} {t : Int}

theorem floor_le : s.floor t ≤ t :=
  Int.ediv_mul_le t (Int.ne_of_gt s.pos)

theorem lt_floor_add : t < s.floor t + s.ms := by
  have h := Int.lt_ediv_add_one_mul_self t s.pos
  rw [Int.add_mul, Int.one_mul] at h
  exact h

theorem mem_bucket_floor : t ∈ s.bucket (s.floor t) :=
  ⟨floor_le, lt_floor_add⟩

end Step

end Allotment.Demand
