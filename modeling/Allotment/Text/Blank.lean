/-!
# Blanks and words

The blanks are the characters with the Unicode property of white space. A word is a run of
characters that are not blank; `word` is the first word of a text and `afterWord` what follows it.
-/

namespace Allotment.Text

/-- The blank characters. -/
def isBlank (c : Char) : Bool :=
  let n := c.toNat
  0x09 ≤ n && n ≤ 0x0D || n == 0x20 || n == 0x85 || n == 0xA0 || n == 0x1680 ||
    0x2000 ≤ n && n ≤ 0x200A || n == 0x2028 || n == 0x2029 || n == 0x202F || n == 0x205F ||
    n == 0x3000

/-- The first word; empty if there is none. -/
def word (cs : List Char) : List Char :=
  (cs.dropWhile isBlank).takeWhile fun c => !isBlank c

/-- What follows the first word. -/
def afterWord (cs : List Char) : List Char :=
  (cs.dropWhile isBlank).dropWhile fun c => !isBlank c

theorem isBlank_of_isWhitespace {c : Char} (h : c.isWhitespace = true) : isBlank c = true := by
  simp only [Char.isWhitespace, Bool.or_eq_true, decide_eq_true_eq] at h
  rcases h with ((rfl | rfl) | rfl) | rfl <;> decide

theorem not_isBlank_of_mem_word {c : Char} {cs : List Char} (h : c ∈ word cs) :
    isBlank c = false := by
  simpa using List.all_eq_true.1 List.all_takeWhile c h

/-- The first word is found whatever blanks stand before it. -/
theorem word_append {bs w rest : List Char} (hb : ∀ c ∈ bs, isBlank c = true)
    (hw : ∀ c ∈ w, isBlank c = false) (hne : w ≠ [])
    (hr : ∀ c ∈ rest.head?, isBlank c = true) :
    word (bs ++ w ++ rest) = w ∧ afterWord (bs ++ w ++ rest) = rest := by
  obtain ⟨c, w, rfl⟩ := List.exists_cons_of_ne_nil hne
  have hdrop : (bs ++ (c :: w) ++ rest).dropWhile isBlank = (c :: w) ++ rest := by
    rw [List.append_assoc, List.dropWhile_append_of_pos hb]
    simp [hw c (by simp)]
  have hw' : ∀ d ∈ c :: w, (!isBlank d) = true := fun d hd => by simp [hw d hd]
  simp only [word, afterWord, hdrop, List.takeWhile_append_of_pos hw',
    List.dropWhile_append_of_pos hw']
  cases rest with
  | nil => simp
  | cons d rest => simp [hr d (by simp)]

end Allotment.Text
