import Std.Data.ExtTreeMap
import Allotment.Text.Hex

/-!
# Reservation identifiers

An identifier is a number of 128 bits. It is written as 32 hexadecimal digits, with or without
hyphens after the eighth, twelfth, sixteenth and twentieth, and identifiers are ordered as numbers.
-/

namespace Allotment

/-- The identifier of a reservation. -/
structure ReservationId where
  bits : BitVec 128
deriving DecidableEq

namespace ReservationId

instance : Inhabited ReservationId :=
  ⟨⟨0⟩⟩

/-- The order as numbers. -/
def compare (a b : ReservationId) : Ordering :=
  compareOn (fun i => i.bits.toNat) a b

instance : Std.TransCmp compare :=
  inferInstanceAs (Std.TransCmp (compareOn _))

instance : Std.LawfulEqCmp compare where
  eq_of_compare {a b} h := by
    simp only [compare, compareOn, Nat.compare_eq_eq] at h
    cases a
    cases b
    simpa [BitVec.toNat_inj] using h

/-- All digits, without hyphens. -/
def digits (i : ReservationId) : List Char :=
  Text.Hex.encode 32 i.bits.toNat

/-- The digits in groups of eight, four, four, four and twelve. -/
def hyphenated (i : ReservationId) : String :=
  let group (start count : Nat) := (i.digits.drop start).take count
  String.ofList ("-".toList.intercalate
    [group 0 8, group 8 4, group 12 4, group 16 4, group 20 12])

/-- The identifier as reports write it. -/
def text (i : ReservationId) : String :=
  "reservation_" ++ String.ofList i.digits

/-- Reads an identifier of 32 digits, wherever its hyphens stand. -/
def ofText? (s : String) : Option ReservationId := do
  let ds := s.toList.filter (· ≠ '-')
  if ds.length = 32 then some ⟨BitVec.ofNat 128 (← Text.Hex.decode? ds)⟩ else none

theorem decode?_digits (i : ReservationId) : Text.Hex.decode? i.digits = some i.bits.toNat := by
  rw [digits, Text.Hex.decode?_encode]
  exact congrArg some (Nat.mod_eq_of_lt (by simpa using i.bits.isLt))

end ReservationId

end Allotment
