import Allotment.Status.Row
import Allotment.Proofs.Text.Digit
import Allotment.Proofs.Text.Reader

/-!
# What a process row is made of

A line that is read as a process row consists of the columns before the name, the name, and its end
with the memory. The columns before the name hold few characters and end in a context mark.
-/

namespace Allotment

namespace Status

open Text (isBlank isDigit not_isBlank_of_isDigit not_isDigit_of_isBlank)
open Text.Reader

/-! ## Blanks that are passed -/

theorem takes_gap {P : Char → Prop} (h : ∀ x, isBlank x → P x) : Takes P gap :=
  (takes_run1 h).bind fun _ => takes_pure

theorem space_eq_some_iff {y : Unit} {s rest : List Char} :
    space s = some (y, rest) ↔ s.dropWhile isBlank = rest := by
  rw [space, bind_of_some (run_eq_some_iff.2 ⟨rfl, rfl⟩), pure_eq_some_iff]
  simp

theorem takes_space {P : Char → Prop} (h : ∀ x, isBlank x → P x) : Takes P space :=
  (takes_run h).bind fun _ => takes_pure

namespace Row

variable {cs line : List Char} {c : Cells}

/-! ## Trimmed text -/

theorem trim_append (cs : List Char) : ∃ before after, cs = before ++ (trim cs ++ after) ∧
    (∀ x ∈ before, isBlank x) ∧ ∀ x ∈ after, isBlank x := by
  let body := cs.dropWhile isBlank
  refine ⟨cs.takeWhile isBlank, (body.reverse.takeWhile isBlank).reverse, ?_, ?_, ?_⟩
  · have hbody : trim cs ++ (body.reverse.takeWhile isBlank).reverse = body := by
      rw [trim, ← List.reverse_append, List.takeWhile_append_dropWhile, List.reverse_reverse]
    rw [hbody]
    exact List.takeWhile_append_dropWhile.symm
  · intro x hx
    exact List.mem_takeWhile_imp hx
  · intro x hx
    exact List.mem_takeWhile_imp (List.mem_reverse.1 hx)

theorem not_isBlank_getLast?_trim : ∀ x ∈ (trim cs).getLast?, isBlank x = false := by
  intro x hx
  rw [trim, List.getLast?_reverse] at hx
  have hstop := List.head?_dropWhile_not isBlank (cs.dropWhile isBlank).reverse
  rw [Option.mem_def.1 hx] at hstop
  simpa using hstop

theorem not_isBlank_head?_trim : ∀ x ∈ (trim cs).head?, isBlank x = false := by
  intro x hx
  have hstop := List.head?_dropWhile_not isBlank cs
  have hprefix : trim cs <+: cs.dropWhile isBlank := by
    rw [trim, ← List.reverse_suffix, List.reverse_reverse]
    exact List.dropWhile_suffix _
  obtain ⟨after, hafter⟩ := hprefix
  rw [← hafter, List.head?_append, Option.mem_def.1 hx] at hstop
  simpa using hstop

/-- A text with a blank at each end has blanks around it. -/
theorem trim_append_of_ends (hne : trim cs ≠ []) (hhead : cs.head?.any isBlank)
    (hlast : cs.getLast?.any isBlank) :
    ∃ before after, cs = before ++ (trim cs ++ after) ∧ before ≠ [] ∧ after ≠ [] ∧
      (∀ x ∈ before, isBlank x) ∧ ∀ x ∈ after, isBlank x := by
  obtain ⟨before, after, hsplit, hbefore, hafter⟩ := trim_append cs
  refine ⟨before, after, hsplit, ?_, ?_, hbefore, hafter⟩
  · rintro rfl
    obtain ⟨x, hx, hblank⟩ := (Option.any_eq_true _ _).1 hhead
    rw [hsplit, List.nil_append, List.head?_append_of_ne_nil _ hne] at hx
    simp [not_isBlank_head?_trim x hx] at hblank
  · rintro rfl
    obtain ⟨x, hx, hblank⟩ := (Option.any_eq_true _ _).1 hlast
    rw [hsplit, List.append_nil, List.getLast?_append_of_ne_nil _ hne] at hx
    simp [not_isBlank_getLast?_trim x hx] at hblank

/-! ## The columns before the name -/

/-- The characters that may stand before the mark of the context. -/
def IsLead (x : Char) : Prop :=
  isBlank x ∨ isDigit x ∨ x ∈ ['|', 'N', '/', 'A']

theorem takes_digits : Takes IsLead (run1 isDigit) :=
  takes_run1 fun _ h => .inr (.inl h)

theorem takes_bar : Takes IsLead bar :=
  (takes_char (.inr (.inr (by decide)))).optional.bind fun _ => takes_pure

theorem takes_instanceColumn : Takes IsLead instanceColumn := by
  have hliteral : Takes IsLead (literal "N/A") := takes_literal fun x hx => by
    have hmem : x = 'N' ∨ x = '/' ∨ x = 'A' := by simpa using hx
    rcases hmem with rfl | rfl | rfl <;> exact .inr (.inr (by decide))
  exact (hliteral.orElse (takes_digits.bind fun _ => takes_pure)).bind fun _ =>
    takes_gap fun _ h => .inl h

/-- The columns before the context. -/
def leadColumns : Text.Reader (List Char × List Char) := do
  bar
  space
  let device ← run1 isDigit
  gap
  let _ ← optional (instanceColumn *> instanceColumn)
  let process ← run1 isDigit
  gap
  return (device, process)

theorem takes_leadColumns : Takes IsLead leadColumns :=
  have hgap : Takes IsLead gap := takes_gap fun _ h => .inl h
  have hinstances : Takes IsLead (instanceColumn *> instanceColumn) :=
    takes_instanceColumn.bind fun _ => takes_instanceColumn
  takes_bar.bind fun _ => (takes_space fun _ h => .inl h).bind fun _ =>
    takes_digits.bind fun _ => hgap.bind fun _ => hinstances.optional.bind fun _ =>
    takes_digits.bind fun _ => hgap.bind fun _ => takes_pure

theorem lead_eq :
    lead = leadColumns >>= fun x => contextMark >>= fun c => pure (x.1, x.2, c) := by
  simp [lead, leadColumns]

theorem eq_of_contextMark {s rest : List Char} {context : Context}
    (h : contextMark s = some (context, rest)) : s = context.mark.toList ++ rest := by
  have hone : ∀ {c : Context}, (do literal c.mark; return c : Text.Reader Context) s =
      some (context, rest) → s = context.mark.toList ++ rest := by
    intro c hc
    obtain ⟨_, middle, hmark, hpure⟩ := bind_eq_some_iff.1 hc
    obtain ⟨rfl, rfl⟩ := pure_eq_some_iff.1 hpure
    exact literal_eq_some_iff.1 hmark
  rcases orElse_eq_some h with hboth | h
  · exact hone hboth
  · rcases orElse_eq_some h with hcompute | hgraphics
    · exact hone hcompute
    · exact hone hgraphics

/-- What is read before the name ends in the mark of the context. -/
theorem exists_of_lead {s rest device process : List Char} {context : Context}
    (h : lead s = some ((device, process, context), rest)) :
    ∃ opening, s = opening ++ (context.mark.toList ++ rest) ∧ ∀ x ∈ opening, IsLead x := by
  rw [lead_eq] at h
  obtain ⟨x, middle, hread, h⟩ := bind_eq_some_iff.1 h
  obtain ⟨c, last, hmark, hpure⟩ := bind_eq_some_iff.1 h
  obtain ⟨heq, rfl⟩ := pure_eq_some_iff.1 hpure
  obtain ⟨-, -, rfl⟩ : x.1 = device ∧ x.2 = process ∧ c = context := by simpa using heq
  obtain ⟨opening, rfl, hopening⟩ := takes_leadColumns hread
  exact ⟨opening, by rw [eq_of_contextMark hmark], hopening⟩

/-! ## The end of a row -/

/-- The memory of a row and what follows it: at most one blank, the unit, and what closes the
row. -/
structure Amount where
  memory : List Char
  unitGap : List Char
  closing : List Char
  memory_ne_nil : memory ≠ []
  isDigit_of_mem_memory : ∀ x ∈ memory, isDigit x
  isBlank_of_mem_unitGap : ∀ x ∈ unitGap, isBlank x
  length_unitGap_le : unitGap.length ≤ 1
  mem_closing : ∀ x ∈ closing, isBlank x ∨ x = '|'

def Amount.unit (a : Amount) : List Char :=
  a.unitGap ++ ("MiB".toList ++ a.closing)

def Amount.text (a : Amount) : List Char :=
  a.memory ++ a.unit

/-- The text of a row from behind its name on. -/
structure Ending extends Amount where
  gap : List Char
  gap_ne_nil : gap ≠ []
  isBlank_of_mem_gap : ∀ x ∈ gap, isBlank x

def Ending.text (e : Ending) : List Char :=
  e.gap ++ e.toAmount.text

/-- The plain way to write an amount of memory behind a name. -/
def Ending.ofMemory (memory : Nat) : Ending where
  memory := Nat.toDigits 10 memory
  unitGap := []
  closing := []
  memory_ne_nil := Nat.toDigits_ne_nil
  isDigit_of_mem_memory x hx := by
    rw [isDigit, Text.Numeral.isDigit_of_mem_toDigits hx, Bool.true_or]
  isBlank_of_mem_unitGap := by simp
  length_unitGap_le := by simp
  mem_closing := by simp
  gap := [' ']
  gap_ne_nil := by decide
  isBlank_of_mem_gap x hx := by
    obtain rfl := List.mem_singleton.1 hx
    decide

/-- What closes a row has at most one bar. -/
def IsClosing (cs : List Char) : Prop :=
  ∃ inner bar outer, cs = inner ++ (bar ++ outer) ∧ (∀ x ∈ inner, isBlank x) ∧
    (bar = [] ∨ bar = ['|']) ∧ ∀ x ∈ outer, isBlank x

theorem exists_of_bar {y : Unit} {s rest : List Char} (h : bar s = some (y, rest)) :
    ∃ b, s = b ++ rest ∧ (b = [] ∨ b = ['|']) := by
  obtain ⟨x, middle, hread, hpure⟩ := bind_eq_some_iff.1 h
  obtain ⟨-, rfl⟩ := pure_eq_some_iff.1 hpure
  obtain ⟨b, rfl, hlength, hb⟩ := exists_of_optional_satisfying hread
  refine ⟨b, rfl, ?_⟩
  match b, hlength with
  | [], _ => exact .inl rfl
  | [x], _ =>
      obtain rfl : x = '|' := by simpa using hb x (by simp)
      exact .inr rfl

theorem IsClosing.isBlank_or_eq {cs : List Char} {x : Char} (h : IsClosing cs) (hx : x ∈ cs) :
    isBlank x ∨ x = '|' := by
  obtain ⟨inner, bar, outer, rfl, hinner, hbar, houter⟩ := h
  simp only [List.mem_append] at hx
  grind

theorem exists_of_lastMemory {s memory between : List Char}
    (h : lastMemory s = some (memory, between)) :
    ∃ a : Amount, s.reverse = between.reverse ++ a.text ∧ a.memory = memory ∧
      IsClosing a.closing ∧ ∀ x ∈ between.head?, isDigit x = false := by
  have hspace : Takes (fun x => isBlank x) space := takes_space fun _ h => h
  obtain ⟨_, _, hread₁, h₁⟩ := bind_eq_some_iff.1 h
  obtain ⟨_, _, hread₂, h₂⟩ := bind_eq_some_iff.1 h₁
  obtain ⟨_, _, hread₃, h₃⟩ := bind_eq_some_iff.1 h₂
  obtain ⟨_, _, hunit, h₄⟩ := bind_eq_some_iff.1 h₃
  obtain ⟨_, last, hunitGap, h₅⟩ := bind_eq_some_iff.1 h₄
  obtain ⟨digits, _, hdigits, hpure⟩ := bind_eq_some_iff.1 h₅
  obtain ⟨rfl, rfl⟩ := pure_eq_some_iff.1 hpure
  obtain ⟨t, rfl, ht⟩ := hspace hread₁
  obtain ⟨u, rfl, hu⟩ := exists_of_bar hread₂
  obtain ⟨v, rfl, hv⟩ := hspace hread₃
  obtain rfl := literal_eq_some_iff.1 hunit
  obtain ⟨g, rfl, hlength, hg⟩ := exists_of_optional_satisfying hunitGap
  obtain ⟨hne, rfl, rfl⟩ := run1_eq_some_iff.1 hdigits
  have hclosing : IsClosing (t ++ (u ++ v)).reverse := by
    refine ⟨v.reverse, u.reverse, t.reverse, by simp, ?_, ?_, ?_⟩
    · exact fun x hx => hv x (List.mem_reverse.1 hx)
    · rcases hu with rfl | rfl
      · exact .inl rfl
      · exact .inr rfl
    · exact fun x hx => ht x (List.mem_reverse.1 hx)
  let amount : Amount := {
    memory := (last.takeWhile isDigit).reverse
    unitGap := g.reverse
    closing := (t ++ (u ++ v)).reverse
    memory_ne_nil := by simpa using hne
    isDigit_of_mem_memory := fun x hx => List.mem_takeWhile_imp (List.mem_reverse.1 hx)
    isBlank_of_mem_unitGap := fun x hx => hg x (List.mem_reverse.1 hx)
    length_unitGap_le := by rwa [List.length_reverse]
    mem_closing := fun x hx => hclosing.isBlank_or_eq hx }
  refine ⟨amount, ?_, rfl, hclosing, ?_⟩
  · have hlast : last.reverse =
        (last.dropWhile isDigit).reverse ++ (last.takeWhile isDigit).reverse := by
      rw [← List.reverse_append, List.takeWhile_append_dropWhile]
    have hmark : "BiM".toList.reverse = "MiB".toList := rfl
    simp only [Amount.text, Amount.unit, amount, List.reverse_append, hlast, hmark,
      List.append_assoc]
  · intro x hx
    have hstop := List.head?_dropWhile_not isDigit last
    rw [Option.mem_def.1 hx] at hstop
    simpa using hstop

/-- The text has an end that is not blank, or is empty. -/
def Sealed (cs : List Char) : Prop :=
  ∀ x ∈ cs.getLast?, isBlank x = false

/-- What stands between the context and the memory is a name between two gaps, or nothing but
blanks, one of which is the name. -/
theorem programBetween?_cases {between program : List Char}
    (h : programBetween? between = some program) :
    (∃ before after, between = before ++ (program ++ after) ∧ before ≠ [] ∧ after ≠ [] ∧
      (∀ x ∈ before, isBlank x) ∧ (∀ x ∈ after, isBlank x) ∧ program ≠ [] ∧ Sealed program) ∨
    between ≠ [] ∧ (∀ x ∈ between, isBlank x) ∧ ∃ b, isBlank b ∧ program = [b] := by
  obtain ⟨before, after, hsplit, hbefore, hafter⟩ := trim_append between
  unfold programBetween? at h
  split at h
  · next hempty =>
    right
    rw [hempty, List.nil_append] at hsplit
    have hblank : ∀ x ∈ between, isBlank x := by
      rw [hsplit]
      simp only [List.mem_append]
      grind
    obtain ⟨b, hb, rfl⟩ := Option.map_eq_some_iff.1 h
    have hinner : b ∈ (between.drop 1).dropLast :=
      List.mem_reverse.1 (List.mem_of_find?_eq_some hb)
    have hmem : b ∈ between := List.mem_of_mem_drop (List.mem_of_mem_dropLast hinner)
    exact ⟨List.ne_nil_of_mem hmem, hblank, b, hblank b hmem, rfl⟩
  · next hne =>
    left
    split at h
    · next hends =>
      obtain rfl := Option.some.inj h
      obtain ⟨before, after, hsplit, hbefore, hafter, hblankBefore, hblankAfter⟩ :=
        trim_append_of_ends hne hends.1 hends.2.1
      exact ⟨before, after, hsplit, hbefore, hafter, hblankBefore, hblankAfter, hne,
        not_isBlank_getLast?_trim⟩
    · simp at h

/-- A line that is read as a process row. -/
theorem exists_of_cells? (h : cells? line = some c) :
    ∃ (opening : List Char) (e : Ending), (∀ x ∈ opening, IsLead x) ∧ e.memory = c.memory ∧
      ((∃ before, line = opening ++ (c.context.mark.toList ++ (before ++ (c.program ++ e.text))) ∧
          before ≠ [] ∧ (∀ x ∈ before, isBlank x) ∧ c.program ≠ [] ∧ Sealed c.program) ∨
        ∃ b, isBlank b ∧ c.program = [b] ∧
          line = opening ++ (c.context.mark.toList ++ e.text)) := by
  obtain ⟨⟨⟨device, process, context⟩, rest⟩, hlead, h⟩ := Option.bind_eq_some_iff.1 h
  obtain ⟨⟨memory, between⟩, hmemory, h⟩ := Option.bind_eq_some_iff.1 h
  obtain ⟨program, hprogram, h⟩ := Option.bind_eq_some_iff.1 h
  obtain rfl := Option.some.inj h
  obtain ⟨opening, rfl, hopening⟩ := exists_of_lead hlead
  obtain ⟨amount, hrest, hamount, -, -⟩ := exists_of_lastMemory hmemory
  rw [List.reverse_reverse] at hrest
  rcases programBetween?_cases hprogram with
    ⟨before, after, hsplit, hbefore, hafter, hblankBefore, hblankAfter, hnamed, hsealed⟩ |
    ⟨hbetween, hblank, b, hb, rfl⟩
  · refine ⟨opening, ⟨amount, after, hafter, hblankAfter⟩, hopening, hamount,
      .inl ⟨before, ?_, hbefore, hblankBefore, hnamed, hsealed⟩⟩
    simp only [hrest, hsplit, List.append_assoc, Ending.text]
  · refine ⟨opening, ⟨amount, between.reverse, hbetween, hblank⟩, hopening, hamount,
      .inr ⟨b, hb, rfl, ?_⟩⟩
    simp only [hrest, Ending.text]

end Row
end Status
end Allotment
