/-!
# Hexadecimal numerals

`Hex.encode` writes a number with a fixed count of lower-case digits and `Hex.decode?` reads digits
of either case. Reading back what was written gives the number if the count of digits suffices.
-/

namespace Allotment.Text.Hex

/-- The value of a hexadecimal digit. -/
def digit? (c : Char) : Option Nat :=
  if '0' ≤ c ∧ c ≤ '9' then some (c.toNat - '0'.toNat)
  else if 'a' ≤ c ∧ c ≤ 'f' then some (c.toNat - 'a'.toNat + 10)
  else if 'A' ≤ c ∧ c ≤ 'F' then some (c.toNat - 'A'.toNat + 10)
  else none

/-- The last `count` digits of a number. -/
def encode : (count n : Nat) → List Char
  | 0, _ => []
  | count + 1, n => encode count (n / 16) ++ [Nat.digitChar (n % 16)]

/-- The number that the digits write, after a part that has been read already. -/
def decodeFrom? (n : Nat) : List Char → Option Nat
  | [] => some n
  | c :: cs => do decodeFrom? (16 * n + (← digit? c)) cs

/-- The number that the digits write. -/
def decode? (cs : List Char) : Option Nat :=
  decodeFrom? 0 cs

theorem digit?_digitChar {d : Nat} (h : d < 16) : digit? (Nat.digitChar d) = some d := by
  have : ∀ d : Fin 16, digit? (Nat.digitChar d) = some d.val := by decide
  exact this ⟨d, h⟩

@[simp] theorem length_encode {count n : Nat} : (encode count n).length = count := by
  induction count generalizing n with
  | zero => rfl
  | succ count ih => simp [encode, ih]

theorem decodeFrom?_append {n : Nat} {cs ds : List Char} :
    decodeFrom? n (cs ++ ds) = (decodeFrom? n cs).bind (decodeFrom? · ds) := by
  induction cs generalizing n with
  | nil => rfl
  | cons c cs ih =>
    simp only [List.cons_append, decodeFrom?]
    cases digit? c with
    | none => rfl
    | some d => simp [ih]

/-- Reading what was written gives the number, less what its digits could not hold. -/
theorem decode?_encode {count n : Nat} :
    decode? (encode count n) = some (n % Nat.pow 16 count) := by
  induction count generalizing n with
  | zero => simp [encode, decode?, decodeFrom?, Nat.mod_one]
  | succ count ih =>
    have h : n % 16 < 16 := Nat.mod_lt _ (by decide)
    have ih : decodeFrom? 0 (encode count (n / 16)) = some (n / 16 % Nat.pow 16 count) := ih
    show decodeFrom? 0 (encode count (n / 16) ++ [Nat.digitChar (n % 16)]) = _
    rw [decodeFrom?_append, ih]
    simp only [Option.bind_some, decodeFrom?, digit?_digitChar h, Option.bind_eq_bind,
      Option.some.injEq]
    rw [Nat.pow_eq, Nat.pow_eq, Nat.pow_succ, Nat.mul_comm _ 16, Nat.mod_mul]
    omega

end Allotment.Text.Hex
