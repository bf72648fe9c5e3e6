import Mathlib.Algebra.Order.Ring.Int
import Mathlib.Algebra.Order.Ring.Nat
import Allotment.Proofs.Status.Pattern

/-!
# Process rows read back

A `Layout` is a way to write a process row: where there are bars, with what blanks the columns are
kept apart, and what stands in the two columns after the device, if they are there. In whatever way
a row is written, it is read back, even if its name looks like other columns.
-/

namespace Allotment

namespace Status

open Text (isBlank isDigit isDigit_of_mem_toDigits not_isBlank_of_isDigit not_isDigit_of_isBlank)
open Text.Reader

namespace Row

/-! ## Layouts -/

abbrev Blanks := {cs : List Char // ∀ x ∈ cs, isBlank x}

abbrev Gap := {cs : List Char // cs ≠ [] ∧ ∀ x ∈ cs, isBlank x}

/-- What stands in one of the two columns after the device. -/
abbrev Instance := {cs : List Char // cs = "N/A".toList ∨ cs ≠ [] ∧ ∀ x ∈ cs, isDigit x}

/-- The two columns after the device, each with the gap behind it. -/
structure Instances where
  first : Instance
  afterFirst : Gap
  second : Instance
  afterSecond : Gap

def Instances.text (i : Instances) : List Char :=
  i.first.val ++ (i.afterFirst.val ++ (i.second.val ++ i.afterSecond.val))

def barIf (b : Bool) : List Char :=
  if b then ['|'] else []

/-- A way to write a process row. -/
structure Layout where
  /-- Whether the row begins with a bar. -/
  opens : Bool
  indent : Blanks
  afterDevice : Gap
  instances : Option Instances
  afterProcess : Gap
  afterContext : Gap
  afterProgram : Gap
  /-- What stands between the memory and its unit. -/
  unitGap : Option {x : Char // isBlank x}
  afterUnit : Blanks
  /-- Whether the row ends with a bar. -/
  closes : Bool
  afterBar : Blanks

/-- The columns of the row as they are written. -/
def cells (r : Row) : Cells where
  device := Nat.toDigits 10 r.device
  process := Nat.toDigits 10 r.process
  context := r.context
  program := r.program.toList
  memory := Nat.toDigits 10 r.memory.toNat

namespace Layout

def lead (l : Layout) (c : Cells) : List Char :=
  barIf l.opens ++ (l.indent.val ++ (c.device ++ (l.afterDevice.val ++
    (l.instances.elim [] Instances.text ++ (c.process ++ l.afterProcess.val)))))

def ending (l : Layout) (c : Cells) : List Char :=
  l.afterProgram.val ++ (c.memory ++ (l.unitGap.toList.map (·.val) ++ ("MiB".toList ++
    (l.afterUnit.val ++ (barIf l.closes ++ l.afterBar.val)))))

def text (l : Layout) (c : Cells) : List Char :=
  l.lead c ++ (c.context.mark.toList ++ (l.afterContext.val ++ (c.program ++ l.ending c)))

/-- The row as it is written. -/
def line (l : Layout) (r : Row) : String :=
  String.ofList (l.text r.cells)

end Layout

/-! ## The columns before the name -/

variable {s : List Char} {c : Cells} {l : Layout}

theorem gap_append (g : Gap) (hs : ∀ x ∈ s.head?, isBlank x = false) :
    gap (g.val ++ s) = some ((), s) := by
  have hrun : run1 isBlank (g.val ++ s) = some (g.val, s) :=
    Text.Reader.run1_eq_some_iff.2 ⟨g.2.1, Text.Reader.takeWhile_append_of_all g.2.2 hs⟩
  exact bind_of_some hrun

theorem bar_append {b : Bool} (hs : ∀ x ∈ s.head?, x ≠ '|') :
    bar (barIf b ++ s) = some ((), s) := by
  cases b with
  | true => rfl
  | false => exact bar_of_ne hs

theorem contextMark_append {context : Context} (hs : ∀ x ∈ s.head?, isBlank x) :
    contextMark (context.mark.toList ++ s) = some (context, s) := by
  have hmark : ∀ c : Context, (do literal c.mark; return c : Text.Reader Context)
      (c.mark.toList ++ s) = some (c, s) := fun c => bind_of_some literal_append
  cases context with
  | both => exact orElse_of_some (hmark .both)
  | graphics =>
      have hboth : literal "C+G" ('G' :: s) = none := rfl
      have hcompute : literal "C" ('G' :: s) = none := rfl
      exact (orElse_of_none (bind_of_none hboth)).trans
        ((orElse_of_none (bind_of_none hcompute)).trans (hmark .graphics))
  | compute =>
      -- behind the short mark there is a blank, which is not in the long one
      have hboth : literal "C+G" ('C' :: s) = none := by
        rw [Option.eq_none_iff_forall_ne_some]
        rintro ⟨y, rest⟩ h
        have hsplit : s = '+' :: 'G' :: rest := List.tail_eq_of_cons_eq (literal_eq_some_iff.1 h)
        have hblank := hs '+' (by rw [hsplit]; rfl)
        revert hblank
        decide
      exact (orElse_of_none (bind_of_none hboth)).trans (orElse_of_some (hmark .compute))

theorem instanceColumn_append (i : Instance) (g : Gap) (hs : ∀ x ∈ s.head?, isBlank x = false) :
    instanceColumn (i.val ++ (g.val ++ s)) = some ((), s) := by
  have hgap := gap_append g hs
  obtain ⟨column, rfl | ⟨hne, hdigits⟩⟩ := i
  · exact (bind_of_some (orElse_of_some literal_append)).trans hgap
  · have hstop : ∀ x ∈ (g.val ++ s).head?, isDigit x = false :=
      forall_mem_head?_append g.2.1 fun x hx => not_isDigit_of_isBlank (g.2.2 x hx)
    have hread : (do let _ ← run1 isDigit : Text.Reader Unit) (column ++ (g.val ++ s)) =
        some ((), g.val ++ s) := bind_of_some (digits_append hne hdigits hstop)
    have hliteral : literal "N/A" (column ++ (g.val ++ s)) = none := by
      rw [Option.eq_none_iff_forall_ne_some]
      rintro ⟨y, rest⟩ h
      obtain ⟨x, column, rfl⟩ := List.exists_cons_of_ne_nil hne
      obtain rfl : x = 'N' := List.head_eq_of_cons_eq (literal_eq_some_iff.1 h)
      have hN := hdigits 'N' (by simp)
      revert hN
      decide
    exact (bind_of_some ((orElse_of_none hliteral).trans hread)).trans hgap

/-- The columns of a row that can be written. -/
structure Cells.Written (c : Cells) : Prop where
  device_ne_nil : c.device ≠ []
  isDigit_of_mem_device : ∀ x ∈ c.device, isDigit x
  process_ne_nil : c.process ≠ []
  isDigit_of_mem_process : ∀ x ∈ c.process, isDigit x
  memory_ne_nil : c.memory ≠ []
  isDigit_of_mem_memory : ∀ x ∈ c.memory, isDigit x
  program_ne_nil : c.program ≠ []
  not_mem_program : '\n' ∉ c.program
  not_isBlank_head? : ∀ x ∈ c.program.head?, isBlank x = false
  not_isBlank_getLast? : ∀ x ∈ c.program.getLast?, isBlank x = false

theorem not_isBlank_head?_digits {w : List Char} (hne : w ≠ []) (hw : ∀ x ∈ w, isDigit x) :
    ∀ x ∈ (w ++ s).head?, isBlank x = false :=
  forall_mem_head?_append hne fun x hx => not_isBlank_of_isDigit (hw x hx)

theorem not_isDigit_head?_gap (g : Gap) : ∀ x ∈ (g.val ++ s).head?, isDigit x = false :=
  forall_mem_head?_append g.2.1 fun x hx => not_isDigit_of_isBlank (g.2.2 x hx)

theorem not_isBlank_head?_instance (i : Instance) :
    ∀ x ∈ (i.val ++ s).head?, isBlank x = false := by
  obtain ⟨column, rfl | ⟨hne, hdigits⟩⟩ := i
  · rintro x ⟨⟩
    decide
  · exact not_isBlank_head?_digits hne hdigits

theorem not_isBlank_head?_mark (context : Context) (s : List Char) :
    ∀ x ∈ (context.mark.toList ++ s).head?, isBlank x = false := by
  cases context <;> rintro x ⟨⟩ <;> decide

theorem ne_bar_head? {b : Blanks} {w : List Char} (hne : w ≠ []) (hw : ∀ x ∈ w, isDigit x) :
    ∀ x ∈ (b.val ++ (w ++ s)).head?, x ≠ '|' := by
  have hbar : ∀ x, isBlank x ∨ isDigit x → x ≠ '|' := by
    rintro x hx rfl
    revert hx
    decide
  obtain ⟨b, hb⟩ := b
  cases b with
  | nil => exact forall_mem_head?_append (w := w) hne fun x hx => hbar x (.inr (hw x hx))
  | cons x b =>
      rintro x ⟨⟩
      exact hbar x (.inl (hb x (by simp)))

/-- The process and the context are not taken for the two columns after the device. -/
theorem optional_instances (hc : c.Written) (instances : Option Instances) {g : Gap}
    (hs : ∀ x ∈ s.head?, isBlank x) :
    ∃ y, (optional (instanceColumn *> instanceColumn)) (instances.elim [] Instances.text ++
        (c.process ++ (g.val ++ (c.context.mark.toList ++ s)))) =
      some (y, c.process ++ (g.val ++ (c.context.mark.toList ++ s))) := by
  cases instances with
  | none =>
      let process : Instance := ⟨c.process, .inr ⟨hc.process_ne_nil, hc.isDigit_of_mem_process⟩⟩
      have hmark : instanceColumn (c.context.mark.toList ++ s) = none := by
        rw [Option.eq_none_iff_forall_ne_some]
        rintro ⟨y, rest⟩ h
        have hnone := contextMark_of_instanceColumn h
        rw [contextMark_append hs] at hnone
        contradiction
      have hnone := bind_of_some (f := fun _ => instanceColumn)
        (instanceColumn_append process g (not_isBlank_head?_mark c.context s))
      exact ⟨none, optional_of_none (hnone.trans hmark)⟩
  | some i =>
      have hprocess : ∀ x ∈ (c.process ++ (g.val ++ (c.context.mark.toList ++ s))).head?,
          isBlank x = false :=
        not_isBlank_head?_digits hc.process_ne_nil hc.isDigit_of_mem_process
      have hread := (bind_of_some (f := fun _ => instanceColumn)
        (instanceColumn_append i.first i.afterFirst (not_isBlank_head?_instance i.second))).trans
        (instanceColumn_append i.second i.afterSecond hprocess)
      refine ⟨some (), ?_⟩
      simp only [Option.elim_some, Instances.text, List.append_assoc]
      exact optional_of_some hread

theorem lead_layout (hc : c.Written) (hs : ∀ x ∈ s.head?, isBlank x) :
    lead (l.lead c ++ (c.context.mark.toList ++ s)) =
      some ((c.device, c.process, c.context), s) := by
  let processText := c.process ++ (l.afterProcess.val ++ (c.context.mark.toList ++ s))
  let columnText := l.instances.elim [] Instances.text ++ processText
  let deviceText := c.device ++ (l.afterDevice.val ++ columnText)
  have hprocess : run1 isDigit processText = some (c.process, _) :=
    digits_append hc.process_ne_nil hc.isDigit_of_mem_process (not_isDigit_head?_gap l.afterProcess)
  obtain ⟨y, hinstances⟩ := optional_instances hc l.instances hs
  have hcolumn : ∀ x ∈ columnText.head?, isBlank x = false := by
    unfold columnText
    cases l.instances with
    | none =>
        rw [Option.elim_none, List.nil_append]
        exact not_isBlank_head?_digits hc.process_ne_nil hc.isDigit_of_mem_process
    | some i =>
        rw [Option.elim_some, Instances.text, List.append_assoc]
        exact not_isBlank_head?_instance i.first
  have hdevice : run1 isDigit deviceText = some (c.device, _) :=
    digits_append hc.device_ne_nil hc.isDigit_of_mem_device (not_isDigit_head?_gap l.afterDevice)
  have hspace : space (l.indent.val ++ deviceText) = some ((), deviceText) :=
    space_append l.indent.2 (not_isBlank_head?_digits hc.device_ne_nil hc.isDigit_of_mem_device)
  have hbar : bar (barIf l.opens ++ (l.indent.val ++ deviceText)) =
      some ((), l.indent.val ++ deviceText) :=
    bar_append (ne_bar_head? hc.device_ne_nil hc.isDigit_of_mem_device)
  have htext : l.lead c ++ (c.context.mark.toList ++ s) =
      barIf l.opens ++ (l.indent.val ++ deviceText) := by
    simp only [Layout.lead, deviceText, columnText, processText, List.append_assoc]
  rw [htext, lead, bind_of_some hbar, bind_of_some hspace, bind_of_some hdevice,
    bind_of_some (gap_append l.afterDevice hcolumn), bind_of_some hinstances,
    bind_of_some hprocess,
    bind_of_some (gap_append l.afterProcess (not_isBlank_head?_mark c.context s)),
    bind_of_some (contextMark_append hs)]
  rfl

/-! ## The name and the memory -/

theorem dropWhile_of_head? {p : Char → Bool} (hs : ∀ x ∈ s.head?, p x = false) :
    s.dropWhile p = s := by
  cases s with
  | nil => rfl
  | cons x s => simp [hs x rfl]

theorem trim_of_ends (hhead : ∀ x ∈ s.head?, isBlank x = false)
    (hlast : ∀ x ∈ s.getLast?, isBlank x = false) : trim s = s := by
  have hreverse : ∀ x ∈ s.reverse.head?, isBlank x = false := by rwa [List.head?_reverse]
  rw [trim, dropWhile_of_head? hhead, dropWhile_of_head? hreverse, List.reverse_reverse]

theorem isClosing_ending : IsClosing (l.afterUnit.val ++ (barIf l.closes ++ l.afterBar.val)) := by
  refine ⟨_, _, _, rfl, l.afterUnit.2, ?_, l.afterBar.2⟩
  cases l.closes with
  | true => exact .inr rfl
  | false => exact .inl rfl

theorem exists_ending (hc : c.Written) :
    ∃ e : Ending, e.text = l.ending c ∧ e.memory = c.memory ∧ IsClosing e.closing :=
  ⟨{ memory := c.memory
     unitGap := l.unitGap.toList.map (·.val)
     closing := l.afterUnit.val ++ (barIf l.closes ++ l.afterBar.val)
     memory_ne_nil := hc.memory_ne_nil
     isDigit_of_mem_memory := hc.isDigit_of_mem_memory
     isBlank_of_mem_unitGap := by
       cases l.unitGap with
       | none => simp
       | some x => simpa using x.2
     length_unitGap_le := by cases l.unitGap <;> simp
     mem_closing := fun x hx => isClosing_ending.isBlank_or_eq hx
     gap := l.afterProgram.val
     gap_ne_nil := l.afterProgram.2.1
     isBlank_of_mem_gap := l.afterProgram.2.2 }, rfl, rfl, isClosing_ending⟩

theorem cells?_text (hc : c.Written) : cells? (l.text c) = some c := by
  obtain ⟨e, hending, hmemory, he⟩ := exists_ending (l := l) hc
  let rest := l.afterContext.val ++ (c.program ++ e.text)
  have hrest : ∀ x ∈ rest.head?, isBlank x :=
    forall_mem_head?_append l.afterContext.2.1 l.afterContext.2.2
  have hlead : Row.lead (l.text c) = some ((c.device, c.process, c.context), rest) := by
    rw [Layout.text, ← hending]
    exact lead_layout hc hrest
  have hlast : lastMemory rest.reverse =
      some (c.memory, (l.afterContext.val ++ (c.program ++ e.gap)).reverse) := by
    unfold rest
    rw [← List.append_assoc, lastMemory_reverse_ending he, hmemory, List.append_assoc]
  have hprogram : programBetween? (l.afterContext.val ++ (c.program ++ e.gap)) =
      some c.program := by
    have htrim := trim_of_ends hc.not_isBlank_head? hc.not_isBlank_getLast?
    have hsharing : Sharing (l.afterContext.val ++ (c.program ++ e.gap)) l.afterContext.val
        c.program e.gap :=
      ⟨rfl, l.afterContext.2.1, hc.program_ne_nil, e.gap_ne_nil, l.afterContext.2.2,
        e.isBlank_of_mem_gap, hc.not_mem_program⟩
    rw [hsharing.programBetween?_of_trim (by rw [htrim]; exact hc.program_ne_nil), htrim]
  rw [cells?, hlead]
  simp only [Option.bind_eq_bind, Option.bind_some, hlast, List.reverse_reverse, hprogram]
  rfl

theorem written_cells {r : Row} (hprogram : r.program ≠ "") (hline : '\n' ∉ r.program.toList)
    (hhead : ∀ x ∈ r.program.toList.head?, isBlank x = false)
    (hlast : ∀ x ∈ r.program.toList.getLast?, isBlank x = false) : r.cells.Written := by
  have hdigits : ∀ n, ∀ x ∈ Nat.toDigits 10 n, isDigit x := fun _ _ => isDigit_of_mem_toDigits
  exact ⟨Nat.toDigits_ne_nil, hdigits _, Nat.toDigits_ne_nil, hdigits _, Nat.toDigits_ne_nil,
    hdigits _, by simpa [cells] using hprogram, hline, hhead, hlast⟩

/-- **Process rows read back**, in whatever way they are written, if the numbers are in range and
the name has no line feed and no blanks around it. -/
theorem rows_read_back (l : Layout) (r : Row) (hdevice : r.device < 2 ^ 32)
    (hprocess : r.process < 2 ^ 32) (hmemory : 0 ≤ r.memory ∧ r.memory < 2 ^ 63)
    (hprogram : r.program ≠ "") (hline : '\n' ∉ r.program.toList)
    (hhead : ∀ x ∈ r.program.toList.head?, isBlank x = false)
    (hlast : ∀ x ∈ r.program.toList.getLast?, isBlank x = false) :
    pattern.first? (l.line r).toList = some r.cells ∧ ofLine? (l.line r) = some r := by
  have hcells : cells? (l.line r).toList = some r.cells := by
    rw [Layout.line, String.toList_ofList]
    exact cells?_text (written_cells hprogram hline hhead hlast)
  have hdevice' : r.device ≤ Text.Numeral.greatest32 := Nat.le_of_lt_succ hdevice
  have hprocess' : r.process ≤ Text.Numeral.greatest32 := Nat.le_of_lt_succ hprocess
  have hmemory' : r.memory.toNat ≤ Text.Numeral.greatest63 := by
    unfold Text.Numeral.greatest63
    omega
  refine ⟨(first?_pattern _).trans hcells, ?_⟩
  rw [ofLine?, hcells]
  simp only [Option.bind_eq_bind, Option.bind_some, cells, Text.Numeral.ofDigits?_toDigits hdevice',
    Text.Numeral.ofDigits?_toDigits hprocess', Text.Numeral.ofDigits?_toDigits hmemory',
    String.ofList_toList, Int.toNat_of_nonneg hmemory.1]
  rfl

def Blanks.of (cs : List Char) (h : cs.all isBlank = true) : Blanks :=
  ⟨cs, List.all_eq_true.1 h⟩

def Gap.of (x : Char) (cs : List Char) (h : (x :: cs).all isBlank = true) : Gap :=
  ⟨x :: cs, List.cons_ne_nil x cs, List.all_eq_true.1 h⟩

def Instance.unavailable : Instance :=
  ⟨"N/A".toList, .inl rfl⟩

def Instance.ofNat (n : Nat) : Instance :=
  ⟨Nat.toDigits 10 n, .inr ⟨Nat.toDigits_ne_nil, fun _ => isDigit_of_mem_toDigits⟩⟩

/-- A name that looks like other columns. -/
def Sample.row : Row :=
  ⟨0, 31337, .both, "1 C 12MiB | x", 2048⟩

def Sample.layout : Layout where
  opens := true
  indent := .of [' ', '\t'] rfl
  afterDevice := .of ' ' [] rfl
  instances := some ⟨.unavailable, .of ' ' [] rfl, .ofNat 7, .of ' ' [' '] rfl⟩
  afterProcess := .of ' ' [] rfl
  afterContext := .of ' ' ['\n'] rfl
  afterProgram := .of '\t' [] rfl
  unitGap := some ⟨' ', rfl⟩
  afterUnit := .of [' '] rfl
  closes := true
  afterBar := .of [] rfl

theorem sample_row_reads_back :
    ofLine? "| \t0 N/A 7  31337 C+G \n1 C 12MiB | x\t2048 MiB |" = some Sample.row := by
  have hline : Sample.layout.line Sample.row =
      "| \t0 N/A 7  31337 C+G \n1 C 12MiB | x\t2048 MiB |" := by decide +kernel
  have hhead : Sample.row.program.toList.head? = some '1' := by decide
  have hlast : Sample.row.program.toList.getLast? = some 'x' := by decide
  rw [← hline]
  refine (rows_read_back Sample.layout Sample.row (by decide) (by decide) (by decide) (by decide)
    (by decide) ?_ ?_).2
  · rw [hhead]
    rintro x ⟨⟩
    decide
  · rw [hlast]
    rintro x ⟨⟩
    decide

end Row

end Status

end Allotment
