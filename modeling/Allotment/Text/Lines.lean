/-!
# Lines

A text is cut after each line feed. The line feed and one carriage return before it do not belong
to the line, and a text that ends in a line feed has no further line after it.
-/

namespace Allotment.Text

variable {α : Type}

/-- Cuts a sequence after each element of the class; the last piece may lack such an end. -/
def piecesAfter (isEnd : α → Bool) : List α → List (List α)
  | [] => []
  | c :: cs =>
    if isEnd c then
      [c] :: piecesAfter isEnd cs
    else
      match piecesAfter isEnd cs with
      | [] => [[c]]
      | piece :: pieces => (c :: piece) :: pieces

/-- Drops the line feed at the end, and one carriage return before it. A carriage return alone
stays. -/
def withoutLineEnd (cs : List Char) : List Char :=
  match cs.reverse with
  | '\n' :: '\r' :: r => r.reverse
  | '\n' :: r => r.reverse
  | _ => cs

def lines (s : String) : List String :=
  (piecesAfter (· == '\n') s.toList).map fun piece => String.ofList (withoutLineEnd piece)

theorem flatten_piecesAfter (isEnd : α → Bool) (cs : List α) :
    (piecesAfter isEnd cs).flatten = cs := by
  induction cs with
  | nil => rfl
  | cons c cs ih =>
    simp only [piecesAfter]
    split
    · simp [ih]
    · split
      · next h => simp_all
      · next h => rw [h] at ih; simp_all

end Allotment.Text
