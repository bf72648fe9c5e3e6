import Allotment.Dimension

/-!
# Resources

A `Resource` is an amount in each dimension. Every operation is given by what it does in one
dimension: `Resource.ofFn` collects three integers and clamps each into the word of its dimension,
and `Resource.get_ofFn` is the only fact about it that later proofs need.

## Implementation notes

The bounds are fields of the structure, so an amount outside its word cannot be built. Arithmetic
stops at the bounds: adding to `Resource.unbounded` leaves it as it is.
-/

namespace Allotment

/-- An amount of host memory, virtual cores and GPU memory. -/
@[ext] structure Resource where
  /-- Host memory in MiB. -/
  memory : Int
  /-- Virtual cores. -/
  vcores : Int
  /-- GPU memory in MiB. -/
  gpuMemory : Int
  holds_memory : Dimension.memory.word.Holds memory := by decide
  holds_vcores : Dimension.cpu.word.Holds vcores := by decide
  holds_gpuMemory : Dimension.gpuMemory.word.Holds gpuMemory := by decide
deriving DecidableEq

namespace Resource

/-- The amount in one dimension. -/
def get (r : Resource) : Dimension → Int
  | .memory => r.memory
  | .cpu => r.vcores
  | .gpuMemory => r.gpuMemory

/-- The resource with the amount `f d` in dimension `d`, clamped to what `d` can hold. -/
def ofFn (f : Dimension → Int) : Resource where
  memory := Dimension.memory.word.clamp (f .memory)
  vcores := Dimension.cpu.word.clamp (f .cpu)
  gpuMemory := Dimension.gpuMemory.word.clamp (f .gpuMemory)
  holds_memory := Word.holds_clamp
  holds_vcores := Word.holds_clamp
  holds_gpuMemory := Word.holds_clamp

/-- The resource with the given amounts, each clamped to what its dimension can hold. -/
def ofAmounts (memory vcores gpuMemory : Int) : Resource :=
  ofFn fun
    | .memory => memory
    | .cpu => vcores
    | .gpuMemory => gpuMemory

/-- The resource with the given amounts, or `none` if one of them does not fit its dimension. -/
def ofAmounts? (memory vcores gpuMemory : Int) : Option Resource :=
  if h : Dimension.memory.word.Holds memory ∧ Dimension.cpu.word.Holds vcores ∧
      Dimension.gpuMemory.word.Holds gpuMemory then
    some ⟨memory, vcores, gpuMemory, h.1, h.2.1, h.2.2⟩
  else
    none

/-- The empty resource. -/
instance : Zero Resource :=
  ⟨{ memory := 0, vcores := 0, gpuMemory := 0 }⟩

instance : Inhabited Resource :=
  ⟨0⟩

/-- The largest amount in every dimension. -/
def unbounded : Resource :=
  ofFn fun d => d.word.greatest

/-- A request for memory; it takes one core as soon as it takes any host memory. -/
def ofMemory (memory gpuMemory : Int) : Resource :=
  ofAmounts memory (if 0 < memory then 1 else 0) gpuMemory

instance : Add Resource :=
  ⟨fun a b => ofFn fun d => a.get d + b.get d⟩

instance : Sub Resource :=
  ⟨fun a b => ofFn fun d => a.get d - b.get d⟩

instance : Neg Resource :=
  ⟨fun a => 0 - a⟩

/-- The smaller amount of the two in each dimension. -/
def inf (a b : Resource) : Resource :=
  ofFn fun d => min (a.get d) (b.get d)

/-- The larger amount of the two in each dimension. -/
def sup (a b : Resource) : Resource :=
  ofFn fun d => max (a.get d) (b.get d)

/-- The sum of a list, added up from the left. -/
def sum (l : List Resource) : Resource :=
  l.foldl (· + ·) 0

/-- One resource fits in another: it asks for no more in any dimension. -/
instance : LE Resource :=
  ⟨fun a b => ∀ d, a.get d ≤ b.get d⟩

theorem le_iff {a b : Resource} : a ≤ b ↔ ∀ d, a.get d ≤ b.get d :=
  Iff.rfl

theorem forall_dimension {p : Dimension → Prop} :
    (∀ d, p d) ↔ p .memory ∧ p .cpu ∧ p .gpuMemory := by
  constructor
  · intro h
    exact ⟨h _, h _, h _⟩
  · rintro ⟨h₁, h₂, h₃⟩ (_ | _ | _) <;> assumption

instance (a b : Resource) : Decidable (a ≤ b) :=
  decidable_of_iff (a.memory ≤ b.memory ∧ a.vcores ≤ b.vcores ∧ a.gpuMemory ≤ b.gpuMemory)
    (forall_dimension (p := fun d => a.get d ≤ b.get d)).symm

/-- The amounts by name, as reports write them. -/
def text (r : Resource) : String :=
  "<memory:" ++ toString r.memory ++ ", vCores:" ++ toString r.vcores ++ ", gpuMemory:" ++
    toString r.gpuMemory ++ ">"

/-! ### Amounts of each operation -/

variable {a b : Resource} {d : Dimension}

theorem holds_get (r : Resource) (d : Dimension) : d.word.Holds (r.get d) := by
  cases d
  · exact r.holds_memory
  · exact r.holds_vcores
  · exact r.holds_gpuMemory

theorem holds_word64 (r : Resource) (d : Dimension) : Word.word64.Holds (r.get d) := by
  have hholds := r.holds_get d
  cases d <;> simp only [Dimension.word, Word.Holds, Word.least, Word.greatest] at hholds ⊢ <;>
    omega

theorem ext_get (h : ∀ d, a.get d = b.get d) : a = b :=
  Resource.ext (h .memory) (h .cpu) (h .gpuMemory)

theorem ext_get_iff : a = b ↔ ∀ d, a.get d = b.get d :=
  ⟨fun h _ => h ▸ rfl, ext_get⟩

@[simp] theorem get_ofFn {f : Dimension → Int} : (ofFn f).get d = d.word.clamp (f d) := by
  cases d <;> rfl

@[simp] theorem get_zero : (0 : Resource).get d = 0 := by
  cases d <;> rfl

@[simp] theorem get_unbounded : unbounded.get d = d.word.greatest := by
  simp [unbounded, Word.clamp_eq_self Word.holds_greatest]

@[simp] theorem get_add : (a + b).get d = d.word.clamp (a.get d + b.get d) :=
  get_ofFn

@[simp] theorem get_sub : (a - b).get d = d.word.clamp (a.get d - b.get d) :=
  get_ofFn

@[simp] theorem get_neg : (-a).get d = d.word.clamp (-a.get d) := by
  show (0 - a).get d = _
  simp

@[simp] theorem get_inf : (a.inf b).get d = min (a.get d) (b.get d) := by
  have ha := holds_get a d
  have hb := holds_get b d
  simp only [Word.Holds] at ha hb
  simp only [inf, get_ofFn, Word.clamp]
  omega

@[simp] theorem get_sup : (a.sup b).get d = max (a.get d) (b.get d) := by
  have ha := holds_get a d
  have hb := holds_get b d
  simp only [Word.Holds] at ha hb
  simp only [sup, get_ofFn, Word.clamp]
  omega

theorem ofFn_get : ofFn a.get = a := by
  apply ext_get
  intro d
  rw [get_ofFn, Word.clamp_eq_self (holds_get a d)]

@[simp] theorem add_zero : a + 0 = a := by
  apply ext_get
  intro d
  rw [get_add, get_zero, Int.add_zero, Word.clamp_eq_self (holds_get a d)]

@[simp] theorem sub_zero : a - 0 = a := by
  apply ext_get
  intro d
  rw [get_sub, get_zero, Int.sub_zero, Word.clamp_eq_self (holds_get a d)]

theorem add_comm : a + b = b + a := by
  apply ext_get
  intro d
  rw [get_add, get_add, Int.add_comm]

@[simp] theorem zero_add : 0 + a = a := by
  rw [add_comm, add_zero]

theorem le_refl (a : Resource) : a ≤ a :=
  fun _ => Int.le_refl _

theorem get_nonneg (h : 0 ≤ a) (d : Dimension) : 0 ≤ a.get d :=
  get_zero (d := d) ▸ h d

/-- Of an amount there is left what the word can hold along with what was added for a while. -/
theorem get_add_sub (hb : 0 ≤ b) :
    (a + b - b).get d = min (a.get d) (d.word.greatest - b.get d) := by
  rw [get_sub, get_add]
  exact Word.clamp_clamp_add_sub (holds_get a d) (get_nonneg hb d) (holds_get b d).2

/-- What asks for nothing below zero and is not empty asks for something. -/
theorem exists_get_pos (hnonneg : 0 ≤ a) (hne : a ≠ 0) : ∃ d, 0 < a.get d := by
  apply Classical.byContradiction
  intro hnone
  apply hne
  apply ext_get
  intro d
  have hle := get_nonneg hnonneg d
  have hnot : ¬0 < a.get d := fun h => hnone ⟨d, h⟩
  rw [get_zero]
  omega

end Resource

end Allotment
