import Allotment.Word

/-!
# The dimensions of a resource

Host memory, virtual cores and GPU memory. Each dimension is measured in whole units and held in
a signed word of its own width.
-/

namespace Allotment

/-- What is shared out: host memory in MiB, virtual cores, GPU memory in MiB. -/
inductive Dimension where
  | memory
  | cpu
  | gpuMemory
deriving DecidableEq, Repr

namespace Dimension

def all : List Dimension :=
  [memory, cpu, gpuMemory]

/-- The word that holds an amount of this dimension. -/
def word : Dimension → Word
  | memory => .word64
  | cpu => .word32
  | gpuMemory => .word64

def label : Dimension → String
  | memory => "memory"
  | cpu => "vCores"
  | gpuMemory => "gpuMemory"

/-- The name by which settings and requests refer to the dimension. -/
def key : Dimension → String
  | memory => "memory"
  | cpu => "cpu"
  | gpuMemory => "gpu-memory"

def ofKey? (s : String) : Option Dimension :=
  all.find? fun d => d.key == s

theorem mem_all (d : Dimension) : d ∈ all := by
  cases d <;> decide

theorem ofKey?_key (d : Dimension) : ofKey? d.key = some d := by
  cases d <;> decide

end Dimension

end Allotment
