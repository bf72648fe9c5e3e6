import Allotment.Device.Gauge
import Allotment.Report
import Allotment.Resource.Basic

/-!
# Placement

A container is placed on the device that `DeviceStatus.choose?` finds. What happens if no device has
the memory it needs is the choice of the caller: best effort takes the least utilized device all the
same and says that it does not fit, strict placement refuses.
-/

namespace Allotment

/-- The device for a container. -/
structure Placement where
  device : Nat
  /-- The device had enough free memory when it was chosen. -/
  fits : Bool
deriving DecidableEq, Repr

namespace Placement

/-- Whether a container may be placed where it does not fit. -/
inductive Mode where
  | bestEffort
  | strict
deriving DecidableEq, Repr

instance : Inhabited Mode :=
  ⟨.bestEffort⟩

/-- Why a container was not placed. -/
inductive Refusal where
  | noDevices
  /-- No device has this much memory free. -/
  | noRoom (required : Int)
deriving DecidableEq

def Refusal.report : Refusal → Report
  | noDevices => ⟨.exhausted, "No GPU devices observed"⟩
  | noRoom required => ⟨.exhausted, "No GPU has " ++ toString required ++ " MiB free"⟩

/-- The first entry for a device shows at least the required free memory. -/
def hasRoom (l : List DeviceStatus) (device : Nat) (required : Int) : Bool :=
  match l.find? fun s => s.device = device with
  | some s => required ≤ s.free
  | none => false

/-- Places a container that asks for the given resource. -/
def choose (mode : Mode) (l : List DeviceStatus) (request : Resource) :
    Except Refusal Placement :=
  match DeviceStatus.choose? l request.gpuMemory with
  | none => .error .noDevices
  | some s =>
    let fits := hasRoom l s.device request.gpuMemory
    if mode = .strict ∧ ¬fits then .error (.noRoom request.gpuMemory)
    else .ok ⟨s.device, fits⟩

end Placement

end Allotment
