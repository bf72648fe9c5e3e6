/-!
# UTF-8

`Utf8.decode` reads a sequence of bytes as UTF-8. At the first byte that cannot be read it stops
with a `Utf8.Fault`, which names the place where the unreadable character begins and how many of
its bytes had been fine, or that the bytes ended within a character.
-/

namespace Allotment.Text.Utf8

/-- Why bytes are not UTF-8. -/
inductive Fault where
  /-- No character begins with the `length` bytes at `start`. -/
  | invalid (start length : Nat)
  /-- The bytes end within the character that begins at `start`. -/
  | incomplete (start : Nat)
deriving DecidableEq, Repr

def Fault.text : Fault → String
  | invalid start length =>
    "invalid utf-8 sequence of " ++ toString length ++ " bytes from index " ++ toString start
  | incomplete start => "incomplete utf-8 byte sequence from index " ++ toString start

/-- A character of which some bytes have been read. -/
structure Begun where
  /-- Where its first byte stands. -/
  start : Nat
  /-- How many bytes have been read. -/
  read : Nat
  /-- How many bytes are still to come, less one. -/
  missing : Nat
  /-- The least value of the next byte. -/
  low : Nat
  /-- The greatest value of the next byte. -/
  high : Nat
  /-- The bits of the character read so far. -/
  bits : Nat

/-- The character that the byte `b` at `start` begins, if it is longer than that byte. Bounds on
the second byte rule out longer forms than needed, surrogates and what is above the last
character. -/
def Begun.ofLead? (start b : Nat) : Option Begun :=
  if 0xC2 ≤ b ∧ b ≤ 0xDF then some ⟨start, 1, 0, 0x80, 0xBF, b % 0x20⟩
  else if 0xE0 ≤ b ∧ b ≤ 0xEF then
    some ⟨start, 1, 1, if b = 0xE0 then 0xA0 else 0x80, if b = 0xED then 0x9F else 0xBF,
      b % 0x10⟩
  else if 0xF0 ≤ b ∧ b ≤ 0xF4 then
    some ⟨start, 1, 2, if b = 0xF0 then 0x90 else 0x80, if b = 0xF4 then 0x8F else 0xBF,
      b % 0x08⟩
  else none

/-- Reads the bytes from position `index` on, within a character or between two. -/
def decodeFrom (index : Nat) : Option Begun → List UInt8 → Except Fault (List Char)
  | none, [] => .ok []
  | some p, [] => .error (.incomplete p.start)
  | none, b :: bs =>
    if b < 0x80 then
      (Char.ofNat b.toNat :: ·) <$> decodeFrom (index + 1) none bs
    else
      match Begun.ofLead? index b.toNat with
      | some p => decodeFrom (index + 1) (some p) bs
      | none => .error (.invalid index 1)
  | some p, b :: bs =>
    if p.low ≤ b.toNat ∧ b.toNat ≤ p.high then
      let bits := p.bits * 0x40 + b.toNat % 0x40
      match p.missing with
      | 0 => (Char.ofNat bits :: ·) <$> decodeFrom (index + 1) none bs
      | missing + 1 =>
        decodeFrom (index + 1) (some ⟨p.start, p.read + 1, missing, 0x80, 0xBF, bits⟩) bs
    else
      .error (.invalid p.start p.read)

def decode (bytes : List UInt8) : Except Fault String :=
  String.ofList <$> decodeFrom 0 none bytes

theorem decodeFrom_ascii {bs : List UInt8} (h : ∀ b ∈ bs, b < 0x80) (index : Nat) :
    decodeFrom index none bs = .ok (bs.map fun b => Char.ofNat b.toNat) := by
  induction bs generalizing index with
  | nil => rfl
  | cons b bs ih =>
    simp only [decodeFrom, h b (by simp), ih (fun c hc => h c (by simp [hc])) (index + 1)]
    rfl

end Allotment.Text.Utf8
