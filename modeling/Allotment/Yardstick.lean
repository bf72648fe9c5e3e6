import Allotment.Resource.Scaling

/-!
# Yardsticks

A yardstick says which of two resources is the larger. One looks at host memory alone; the other
at the shares of a cluster that a resource takes, the largest share first. The order that a
yardstick gives is `Yardstick.compare`, and the other comparisons are read off it.
-/

namespace Allotment

/-- A way to compare resources. -/
inductive Yardstick where
  /-- By host memory alone. -/
  | memoryOnly
  /-- By the shares of the cluster, from the largest down. -/
  | dominantShare
deriving DecidableEq, Repr

/-- The part that `amount` is of `total`; no part of an empty total. -/
def share (amount total : Int) : Float :=
  if total = 0 then 0.0 else Float.ofInt amount / Float.ofInt total

namespace Resource

/-- The share of the cluster in each dimension, from the largest down. -/
def sortedShares (cluster r : Resource) : List Float :=
  (Dimension.all.map fun d => share (r.get d) (cluster.get d)).mergeSort
    fun x y => (Binary64.compare y x).isLE

/-- The largest share of the cluster that the resource takes in a dimension. -/
def dominantShare (cluster r : Resource) : Float :=
  (sortedShares cluster r).headD 0.0

end Resource

namespace Yardstick

open Resource (sortedShares)

def name : Yardstick → String
  | memoryOnly => "default"
  | dominantShare => "dominant"

/-- The first of the answers that tells a difference. -/
def firstDifference (answers : List Ordering) : Ordering :=
  (answers.find? (· != .eq)).getD .eq

/-- Orders two resources relative to the cluster. Equal resources need no shares; otherwise the
first position at which the shares differ decides. -/
def compare (y : Yardstick) (cluster a b : Resource) : Ordering :=
  match y with
  | memoryOnly => Ord.compare a.memory b.memory
  | dominantShare =>
    if a = b then .eq
    else
      firstDifference
        (List.zipWith Binary64.compare (sortedShares cluster a) (sortedShares cluster b))

def isLess (y : Yardstick) (cluster a b : Resource) : Bool :=
  y.compare cluster a b == .lt

def isLessOrEqual (y : Yardstick) (cluster a b : Resource) : Bool :=
  y.compare cluster a b != .gt

def isGreater (y : Yardstick) (cluster a b : Resource) : Bool :=
  y.compare cluster a b == .gt

def isGreaterOrEqual (y : Yardstick) (cluster a b : Resource) : Bool :=
  y.compare cluster a b != .lt

/-- The smaller of two resources, the left one if they are equivalent. -/
def min (y : Yardstick) (cluster a b : Resource) : Resource :=
  if y.isLessOrEqual cluster a b then a else b

/-- The larger of two resources, the left one if they are equivalent. -/
def max (y : Yardstick) (cluster a b : Resource) : Resource :=
  if y.isGreaterOrEqual cluster a b then a else b

/-- The dimensions in which the yardstick counts and divides. -/
def dimensions : Yardstick → List Dimension
  | memoryOnly => [.memory]
  | dominantShare => Dimension.all

/-- A resource that no other can be divided by: it is zero in a dimension that counts. -/
def IsZeroDivisor (y : Yardstick) (r : Resource) : Prop :=
  ∃ d ∈ y.dimensions, r.get d = 0

instance (y : Yardstick) (r : Resource) : Decidable (y.IsZeroDivisor r) :=
  inferInstanceAs (Decidable (∃ d ∈ _, _))

/-- How many times `required` goes into `available`: the least quotient over the dimensions that
count and are asked for, and the greatest word if there is none. A quotient that no 64-bit word
holds leaves no answer. -/
def containers? (y : Yardstick) (available required : Resource) : Option Int := do
  let quotients ← (y.dimensions.filter fun d => required.get d ≠ 0).mapM fun d =>
    let q := (available.get d).tdiv (required.get d)
    if Word.word64.Holds q then some q else none
  return quotients.foldl Min.min Word.word64.greatest

/-- The ratio of two resources, whatever the cluster: of their memory, or the largest over the
dimensions in which `b` is not zero, at least zero. -/
def ratio (y : Yardstick) (a b : Resource) : Float :=
  match y with
  | memoryOnly => Float.ofInt a.memory / Float.ofInt b.memory
  | dominantShare =>
    ((Dimension.all.filter fun d => b.get d ≠ 0).map fun d =>
        Float.ofInt (a.get d) / Float.ofInt (b.get d)).foldl
      (fun greatest x => if greatest < x then x else greatest) 0.0

/-- The ratio of two resources relative to the cluster: of their memory, or of their dominant
shares. Without a share on the right it is infinite, and zero if there is none on the left
either. -/
def divide (y : Yardstick) (cluster a b : Resource) : Float :=
  match y with
  | memoryOnly => ratio memoryOnly a b
  | dominantShare =>
    let l := Resource.dominantShare cluster a
    let r := Resource.dominantShare cluster b
    if r == 0.0 then
      if l == 0.0 then 0.0 else Binary64.infinity
    else
      l / r

end Yardstick

end Allotment
