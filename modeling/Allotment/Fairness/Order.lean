import Allotment.Binary64.Basic
import Allotment.Fairness.Reorder
import Allotment.Resource.Basic

/-!
# Dominant resource fairness

Contenders for the resources of a cluster are served in the order of their weighted shares of it,
the largest share of each compared first: who has the smaller dominant share comes first. A
contender is needy if it has less than its guarantee in the dimension of its dominant share. The
needy come before all others, and among them the further below the guarantee the earlier.

Shares and ratios are compared in the total order of doubles, so `FairOrder.compare` is a total
preorder on contenders, and `FairOrder.sort` may sort by keys that are worked out once.
-/

namespace Allotment.Fairness

structure Weights where
  memory : Float
  cpu : Float
  gpuMemory : Float

namespace Weights

def uniform (x : Float) : Weights :=
  ⟨x, x, x⟩

def neutral : Weights :=
  uniform 1.0

instance : Inhabited Weights :=
  ⟨neutral⟩

def get (w : Weights) : Dimension → Float
  | .memory => w.memory
  | .cpu => w.cpu
  | .gpuMemory => w.gpuMemory

def set (w : Weights) (d : Dimension) (x : Float) : Weights :=
  match d with
  | .memory => { w with memory := x }
  | .cpu => { w with cpu := x }
  | .gpuMemory => { w with gpuMemory := x }

theorem get_set {w : Weights} {d e : Dimension} {x : Float} :
    (w.set d x).get e = if e = d then x else w.get e := by
  cases d <;> cases e <;> rfl

end Weights

/-- Somebody who competes for the resources of a cluster. -/
structure Contender where
  name : String
  usage : Resource
  guarantee : Resource
  weights : Weights := .neutral

/-- The weighted part that `usage` is of `capacity`. Without weight any use is too much, and so is
any use of what is not there. -/
def weightedShare (usage capacity : Int) (weight : Float) : Float :=
  if weight ≤ 0.0 then Binary64.infinity
  else if capacity = 0 then
    if 0 < usage then Binary64.infinity else 0.0
  else
    Float.ofInt usage / weight / Float.ofInt capacity

/-- The part of the guarantee that is used, infinite without a guarantee. -/
def guaranteeRatio (usage guarantee : Int) : Float :=
  if guarantee ≤ 0 then Binary64.infinity else Float.ofInt usage / Float.ofInt guarantee

def compareShares : List Float → List Float → Ordering :=
  List.compareLex Binary64.compare

/-- Weighted shares by dimension, from the largest down. -/
structure Shares where
  entries : List (Dimension × Float)

namespace Shares

def order (s : Shares) : List Dimension :=
  s.entries.map (·.1)

def values (s : Shares) : List Float :=
  s.entries.map (·.2)

def get? (s : Shares) (d : Dimension) : Option Float :=
  s.entries.lookup d

def dominant? (s : Shares) : Option (Dimension × Float) :=
  s.entries.head?

end Shares

def name : String :=
  "drf"

structure FairOrder where
  capacity : Resource
  /-- The dimensions that count, each once. -/
  dimensions : List Dimension

structure Key where
  /-- For the needy, the used parts of the guarantees, in the order of the shares. -/
  need : Option (List Float)
  shares : List Float

def Key.compare (a b : Key) : Ordering :=
  match a.need, b.need with
  | some _, none => .lt
  | none, some _ => .gt
  | some x, some y => (compareShares x y).then (compareShares a.shares b.shares)
  | none, none => compareShares a.shares b.shares

namespace FairOrder

/-- The order over the given dimensions; repetitions do not count. -/
def ofDimensions (capacity : Resource) (dimensions : List Dimension) : FairOrder :=
  ⟨capacity, dimensions.eraseDups⟩

def ofCapacity (capacity : Resource) : FairOrder :=
  ofDimensions capacity Dimension.all

/-- The weighted shares of a usage. Equal shares stay in the order of the dimensions. -/
def shares (o : FairOrder) (usage : Resource) (w : Weights) : Shares :=
  let all := o.dimensions.map fun d =>
    (d, weightedShare (usage.get d) (o.capacity.get d) (w.get d))
  ⟨all.mergeSort fun x y => (Binary64.compare y.2 x.2).isLE⟩

def key (o : FairOrder) (c : Contender) : Key :=
  let s := o.shares c.usage c.weights
  let ratios := s.order.map fun d => guaranteeRatio (c.usage.get d) (c.guarantee.get d)
  let needy := match ratios with
    | [] => false
    | dominant :: _ => dominant < 1.0
  ⟨if needy then some ratios else none, s.values⟩

def compare (o : FairOrder) (a b : Contender) : Ordering :=
  (o.key a).compare (o.key b)

def compareAt (keys : Array Key) (i j : Nat) : Ordering :=
  match keys[i]?, keys[j]? with
  | some a, some b => a.compare b
  | _, _ => .eq

/-- The contenders in the order in which they are served; those in no order to each other stay as
they came. -/
def sort (o : FairOrder) (items : Array Contender) : Array Contender :=
  let keys := items.map o.key
  let order := (List.range items.size).mergeSort fun i j => (compareAt keys i j).isLE
  reorder items order.toArray

end FairOrder

end Allotment.Fairness
