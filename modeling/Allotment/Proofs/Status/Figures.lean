import Allotment.Status.Listing
import Allotment.Proofs.Status.Row

/-!
# Figures in process rows

The name of a program may look like the figures of a device. Nothing else in a process row does: the
columns before the name hold neither a unit of memory nor a percent sign, and behind the name there
is no slash. So what a process row tells of a device is what its name and its memory tell.
-/

namespace Allotment.Status

open Text (isBlank isDigit not_isBlank_of_isDigit not_isDigit_of_isBlank ne_of_isBlank
  Numeral.ofDigits? Numeral.greatest63 Numeral.ofDigits?_toDigits Numeral.le_of_ofDigits?)
open Text.Reader
open Row (Amount Ending IsLead Sealed)

variable {α : Type} {f : List Char → Text.Reader α} {s t w opening before : List Char}
  {b x m : Char} {context : Context} {e e' : Ending}

/-! ## The form of figures -/

/-- A blank and digits, and what makes them a figure. -/
def figure (f : List Char → Text.Reader α) : Text.Reader α := do
  let _ ← satisfying isBlank
  f (← run1 isDigit)

/-- The slash between two amounts of memory. -/
def slash : Text.Reader Unit := do
  space
  let _ ← char '/'

/-- The digits behind the slash. -/
def memoryTotal : Text.Reader (List Char) := do
  space
  let total ← run1 isDigit
  mebibytes
  return total

/-- The percent sign, with at most one blank before it. -/
def percentSign : Text.Reader Unit := do
  let _ ← optional (satisfying isBlank)
  let _ ← char '%'

/-- The compute mode behind a utilization. -/
def computeMode : Text.Reader Unit := do
  gap
  literal "Default"

theorem memoryDigits_eq : memoryDigits = figure fun used => do
    mebibytes
    slash
    let total ← memoryTotal
    return (used, total) := by
  simp [memoryDigits, figure, slash, memoryTotal]

theorem utilizationDigits_eq : utilizationDigits = figure fun percent => do
    percentSign
    computeMode
    return percent := by
  simp [utilizationDigits, figure, percentSign, computeMode]

theorem figure_cons_of_blank (hb : isBlank b) : figure f (b :: s) = figure f (' ' :: s) := by
  have hfirst : satisfying isBlank (b :: s) = some (b, s) := satisfying_eq_some_iff.2 ⟨rfl, hb⟩
  have hspace : satisfying isBlank (' ' :: s) = some (' ', s) :=
    satisfying_eq_some_iff.2 ⟨rfl, by decide⟩
  rw [figure, bind_of_some hfirst, bind_of_some hspace]

theorem figure_of_blank_of_blank (hb : isBlank b) (hx : isBlank x) :
    figure f (b :: x :: s) = none := by
  have hfirst : satisfying isBlank (b :: x :: s) = some (b, x :: s) :=
    satisfying_eq_some_iff.2 ⟨rfl, hb⟩
  have hdigits : run1 isDigit (x :: s) = none :=
    bind_of_none (satisfying_cons_of_neg (not_isDigit_of_isBlank hx))
  rw [figure, bind_of_some hfirst, bind_of_none hdigits]

/-! ## Before the name -/

/-- What stands before the sign that makes digits a figure. -/
def IsFigure (x : Char) : Prop :=
  isBlank x ∨ isDigit x

instance : DecidablePred IsFigure :=
  fun x => inferInstanceAs (Decidable (isBlank x ∨ isDigit x))

theorem takes_mebibytes : Takes (fun _ => True) mebibytes :=
  (takes_satisfying fun _ _ => trivial).optional.bind fun _ => takes_literal fun _ _ => trivial

theorem takes_slash : Takes (fun _ => True) slash :=
  (takes_space fun _ _ => trivial).bind fun _ =>
    (takes_char trivial).bind fun _ => takes_pure

theorem takes_percentSign : Takes (fun _ => True) percentSign :=
  (takes_satisfying fun _ _ => trivial).optional.bind fun _ =>
    (takes_char trivial).bind fun _ => takes_pure

theorem meets_figure (hf : ∀ digits, Meets IsFigure m (f digits)) :
    Meets IsFigure m (figure f) :=
  (takes_satisfying fun _ h => .inl h).meets fun _ => (takes_run1 fun _ h => .inr h).meets hf

theorem meets_mebibytes {P : Char → Prop} (hP : ∀ x, isBlank x → P x) : Meets P 'M' mebibytes :=
  (takes_satisfying hP).optional.meets fun _ => meets_literal rfl

theorem meets_slash {P : Char → Prop} (hP : ∀ x, isBlank x → P x) : Meets P '/' slash :=
  (takes_space hP).meets fun _ => meets_char.bind

theorem slash_of_not_mem (h : '/' ∉ s) : slash s = none :=
  Meets.eq_none_of_not_mem (meets_slash (P := fun _ => True) fun _ _ => trivial) h

theorem meets_percentSign {P : Char → Prop} (hP : ∀ x, isBlank x → P x) :
    Meets P '%' percentSign :=
  (takes_satisfying hP).optional.meets fun _ => meets_char.bind

theorem meets_computeMode : Meets (fun _ => True) 'D' computeMode :=
  (takes_gap fun _ _ => trivial).meets fun _ => meets_literal rfl

/-- The columns before the name do not begin a figure: they end in a letter, and the sign comes
after it. -/
theorem search_figure_of_opening (hf : ∀ digits, Meets IsFigure m (f digits))
    (hm : m ∉ ['|', 'N', '/', 'A', 'C', '+', 'G']) (hmfigure : ¬IsFigure m)
    (hopening : ∀ x ∈ opening, IsLead x) :
    search (figure f) (opening ++ (context.mark.toList ++ s)) = search (figure f) s := by
  have hnot : m ∉ opening ++ context.mark.toList := by
    intro hmem
    rcases List.mem_append.1 hmem with hmem | hmem
    · rcases hopening m hmem with hblank | hdigit | hlead
      · exact hmfigure (.inl hblank)
      · exact hmfigure (.inr hdigit)
      · simp only [List.mem_cons] at hlead hm
        grind
    · cases context <;> simp [Context.mark] at hmem <;> simp at hm <;> grind
  have hlast : ∃ u x, opening ++ context.mark.toList = u ++ [x] ∧ ¬IsFigure x := by
    cases context with
    | compute => exact ⟨opening, 'C', rfl, by decide⟩
    | graphics => exact ⟨opening, 'G', rfl, by decide⟩
    | both =>
      refine ⟨opening ++ ['C', '+'], 'G', ?_, by decide⟩
      rw [List.append_assoc]
      rfl
  obtain ⟨u, x, hux, hx⟩ := hlast
  rw [hux] at hnot
  rw [← List.append_assoc, hux]
  apply search_append_of_none
  intro v hv hne
  obtain rfl | ⟨v', rfl, hv'⟩ := List.suffix_concat_iff.1 hv
  · contradiction
  · rw [List.append_assoc]
    exact (meets_figure hf).eq_none_of_blocked hx fun hmem => hnot (hv.subset hmem)

/-- Of the blanks before the name only the last one can begin a figure. -/
theorem search_figure_of_blanks (hne : before ≠ []) (hbefore : ∀ x ∈ before, isBlank x) :
    search (figure f) (before ++ s) = search (figure f) (' ' :: s) := by
  obtain ⟨u, b, rfl⟩ := (List.eq_nil_or_concat' before).resolve_left hne
  have hb : isBlank b := hbefore b (by simp)
  rw [List.append_assoc, search_append_of_none]
  · simp only [List.cons_append, List.nil_append, search, figure_cons_of_blank hb]
  · intro v hv hv'
    have hblank : ∀ x ∈ v, isBlank x := fun x hx =>
      hbefore x (List.mem_append_left _ (hv.subset hx))
    obtain ⟨x, v, rfl⟩ := List.exists_cons_of_ne_nil hv'
    cases v with
    | nil => exact figure_of_blank_of_blank (hblank x (by simp)) hb
    | cons y v => exact figure_of_blank_of_blank (hblank x (by simp)) (hblank y (by simp))

/-! ## Behind the name -/

theorem isBlank_head?_text : ∀ x ∈ e.text.head?, isBlank x := by
  obtain ⟨b, gap, hgap⟩ := List.exists_cons_of_ne_nil e.gap_ne_nil
  intro x hx
  obtain rfl : b = x := by simpa [Ending.text, hgap] using hx
  exact e.isBlank_of_mem_gap b (hgap ▸ List.mem_cons_self)

theorem not_isDigit_head?_text : ∀ x ∈ e.text.head?, isDigit x = false :=
  fun x hx => not_isDigit_of_isBlank (isBlank_head?_text x hx)

theorem not_mem_text (hx : ¬IsFigure x) (hx' : x ∉ ['M', 'i', 'B', '|']) : x ∉ e.text := by
  have hgap : x ∉ e.gap := fun hmem => hx (.inl (e.isBlank_of_mem_gap x hmem))
  have hmemory : x ∉ e.memory := fun hmem => hx (.inr (e.isDigit_of_mem_memory x hmem))
  have hunitGap : x ∉ e.unitGap := fun hmem => hx (.inl (e.isBlank_of_mem_unitGap x hmem))
  have hclosing : x ∉ e.closing := by
    intro hmem
    rcases e.mem_closing x hmem with hblank | rfl
    · exact hx (.inl hblank)
    · simp at hx'
  simp only [Ending.text, Amount.text, Amount.unit, List.mem_append]
  simp at hx' ⊢
  grind

theorem mebibytes_text : mebibytes e.text = none := by
  obtain ⟨d, digits, hdigits⟩ := List.exists_cons_of_ne_nil e.memory_ne_nil
  have hd : isDigit d := e.isDigit_of_mem_memory d (hdigits ▸ List.mem_cons_self)
  have hmet : 'M' ∉ e.gap ++ [d] := by
    intro hmem
    rcases List.mem_append.1 hmem with hmem | hmem
    · exact ne_of_isBlank (e.isBlank_of_mem_gap _ hmem) (by decide) rfl
    · obtain rfl := List.mem_singleton.1 hmem
      revert hd
      decide
  rw [Ending.text, Amount.text, hdigits, List.cons_append]
  apply (meets_mebibytes (P := (isBlank ·)) fun _ h => h).eq_none_of_blocked _ hmet
  simp [not_isBlank_of_isDigit hd]

theorem mebibytes_unit (a : Amount) : mebibytes a.unit = some ((), a.closing) := by
  have hliteral : literal "MiB" ("MiB".toList ++ a.closing) = some ((), a.closing) :=
    literal_eq_some_iff.2 rfl
  cases hgap : a.unitGap with
  | nil =>
      have hunit : a.unit = 'M' :: ("iB".toList ++ a.closing) := by simp [Amount.unit, hgap]
      have hnone : satisfying isBlank a.unit = none := by
        rw [hunit]
        exact satisfying_cons_of_neg (by decide)
      rw [mebibytes, bind_of_some (optional_of_none hnone), hunit]
      exact hliteral
  | cons b g =>
      have hb : isBlank b := a.isBlank_of_mem_unitGap b (hgap ▸ List.mem_cons_self)
      obtain rfl : g = [] := by simpa [hgap] using a.length_unitGap_le
      have hsome : satisfying isBlank a.unit = some (b, "MiB".toList ++ a.closing) :=
        satisfying_eq_some_iff.2 ⟨by simp [Amount.unit, hgap], hb⟩
      rw [mebibytes, bind_of_some (optional_of_some hsome)]
      exact hliteral

theorem run1_isDigit_amount (a : Amount) : run1 isDigit a.text = some (a.memory, a.unit) := by
  have hstop : ∀ x ∈ a.unit.head?, isDigit x = false := by
    intro x hx
    cases hgap : a.unitGap with
    | nil =>
        obtain rfl : 'M' = x := by simpa [Amount.unit, hgap] using hx
        decide
    | cons b g =>
        obtain rfl : b = x := by simpa [Amount.unit, hgap] using hx
        exact not_isDigit_of_isBlank (a.isBlank_of_mem_unitGap b (hgap ▸ List.mem_cons_self))
  exact run1_eq_some_iff.2
    ⟨a.memory_ne_nil, takeWhile_append_of_all a.isDigit_of_mem_memory hstop⟩

theorem space_text : space e.text = some ((), e.toAmount.text) := by
  have hstop : ∀ x ∈ e.toAmount.text.head?, isBlank x = false := by
    obtain ⟨d, digits, hdigits⟩ := List.exists_cons_of_ne_nil e.memory_ne_nil
    intro x hx
    obtain rfl : d = x := by simpa [Amount.text, hdigits] using hx
    exact not_isBlank_of_isDigit (e.isDigit_of_mem_memory d (hdigits ▸ List.mem_cons_self))
  exact space_eq_some_iff.2 (takeWhile_append_of_all e.isBlank_of_mem_gap hstop).2

theorem memoryTotal_text : memoryTotal e.text = some (e.memory, e.closing) := by
  rw [memoryTotal, bind_of_some space_text, bind_of_some (run1_isDigit_amount _),
    bind_of_some (mebibytes_unit _), pure_eq_some_iff]
  exact ⟨rfl, rfl⟩

/-! ## Within the name -/

theorem Row.Sealed.suffix {v : List Char} (h : Sealed w) (hv : v <:+ w) : Sealed v := by
  obtain ⟨u, rfl⟩ := hv
  intro x hx
  exact h x (by simp [List.getLast?_append, Option.mem_def.1 hx])

theorem Row.Sealed.dropWhile_ne_nil (h : Sealed w) (hne : w ≠ []) : w.dropWhile isBlank ≠ [] := by
  intro hnil
  have hlast := List.dropWhile_eq_nil_iff.1 hnil _ (List.getLast_mem hne)
  simp [h _ (List.getLast?_eq_some_getLast hne)] at hlast

theorem within_literal_text {l : String} (hl : l.toList.all fun x => !isBlank x) :
    Within (literal l) w e.text :=
  within_literal fun x hx hmem => by
    have hletter := List.all_eq_true.1 hl x hmem
    simp [isBlank_head?_text x hx] at hletter

theorem within_mebibytes (hw : Sealed w) : Within mebibytes w e.text := by
  by_cases hne : w = []
  · subst hne
    exact within_of_none rfl mebibytes_text
  · have hgap : Within (satisfying isBlank) w e.text := within_satisfying fun h => absurd h hne
    exact hgap.optional.bind fun _ _ _ => within_literal_text (by decide)

theorem within_space (hw : Sealed w) (hne : w ≠ []) : Within space w e.text :=
  (within_run fun h => absurd h (hw.dropWhile_ne_nil hne)).bind fun _ _ _ => within_pure

theorem within_slash (hw : Sealed w) : Within slash w e.text := by
  by_cases hne : w = []
  · subst hne
    have hslash : '/' ∉ e.text := not_mem_text (by decide) (by decide)
    exact within_of_none rfl (slash_of_not_mem hslash)
  · refine (within_space hw hne).bind fun _ rest hread => ?_
    obtain rfl := space_eq_some_iff.1 hread
    have hslash : Within (char '/') (w.dropWhile isBlank) e.text :=
      within_satisfying fun h => absurd h (hw.dropWhile_ne_nil hne)
    exact hslash.bind fun _ _ _ => within_pure

theorem within_memoryTotal (hw : Sealed w) (hne : w ≠ []) : Within memoryTotal w e.text := by
  refine (within_space hw hne).bind fun _ rest hread => ?_
  obtain rfl := space_eq_some_iff.1 hread
  refine (within_run1 fun _ => not_isDigit_head?_text).bind fun _ rest hread => ?_
  obtain ⟨-, -, rfl⟩ := run1_eq_some_iff.1 hread
  have hrest : Sealed ((w.dropWhile isBlank).dropWhile isDigit) :=
    (hw.suffix (List.dropWhile_suffix _)).suffix (List.dropWhile_suffix _)
  exact (within_mebibytes hrest).bind fun _ _ _ => within_pure

theorem within_percentSign : Within percentSign w e.text := by
  by_cases hne : w = []
  · subst hne
    have hsign : '%' ∉ e.text := not_mem_text (by decide) (by decide)
    exact within_of_none rfl ((meets_percentSign fun _ h => h).eq_none_of_not_mem hsign)
  · have hgap : Within (satisfying isBlank) w e.text := within_satisfying fun h => absurd h hne
    refine hgap.optional.bind fun _ rest _ => ?_
    have hsign : Within (char '%') rest e.text := within_satisfying fun _ x hx => by
      simpa using ne_of_isBlank (isBlank_head?_text x hx) (by decide)
    exact hsign.bind fun _ _ _ => within_pure

theorem within_computeMode (hw : Sealed w) : Within computeMode w e.text := by
  by_cases hne : w = []
  · subst hne
    have hletter : 'D' ∉ e.text := not_mem_text (by decide) (by decide)
    exact within_of_none rfl (meets_computeMode.eq_none_of_not_mem hletter)
  · have hgap : Within gap w e.text :=
      (within_run1 fun h => absurd h (hw.dropWhile_ne_nil hne)).bind fun _ _ _ => within_pure
    exact hgap.bind fun _ _ _ => within_literal_text (by decide)

/-! ## What is found in a name -/

variable {γ : Type} {h : α → γ} {t' : List Char}

theorem agree_figure (ht : ∀ x ∈ t.head?, isDigit x = false)
    (ht' : ∀ x ∈ t'.head?, isDigit x = false) (hw : Sealed w) (hne : w ≠ [])
    (hf : ∀ digits rest, Sealed rest → Agree h (f digits) (rest ++ t) (rest ++ t')) :
    Agree h (figure f) (w ++ t) (w ++ t') := by
  have hblank : ∀ u, Within (satisfying isBlank) w u := fun _ =>
    within_satisfying fun h => absurd h hne
  refine (hblank t).agree_bind (hblank t') fun _ rest hread => ?_
  obtain ⟨rfl, -⟩ := satisfying_eq_some_iff.1 hread
  have hrest : Sealed rest := hw.suffix (List.suffix_cons _ _)
  refine (within_run1 fun _ => ht).agree_bind (within_run1 fun _ => ht') fun _ last hread => ?_
  obtain ⟨-, -, rfl⟩ := run1_eq_some_iff.1 hread
  exact hf _ _ (hrest.suffix (List.dropWhile_suffix _))

/-- The figures that two runs of digits write. -/
def MemoryFigures.ofDigits? (x : List Char × List Char) : Option MemoryFigures := do
  return {
    used := ← Numeral.ofDigits? Numeral.greatest63 x.1
    total := ← Numeral.ofDigits? Numeral.greatest63 x.2 }

theorem MemoryFigures.ofLine?_eq {line : String} :
    ofLine? line = ((search memoryDigits line.toList).map ofDigits?).join := by
  unfold ofLine?
  cases search memoryDigits line.toList <;> rfl

/-- Where a figure begins in a name, it ends there or with the memory of the row. -/
theorem agree_memoryDigits (hw : Sealed w) (hne : w ≠ [])
    (hmemory : Numeral.ofDigits? Numeral.greatest63 e.memory =
      Numeral.ofDigits? Numeral.greatest63 e'.memory) :
    Agree MemoryFigures.ofDigits? memoryDigits (w ++ e.text) (w ++ e'.text) := by
  rw [memoryDigits_eq]
  refine agree_figure not_isDigit_head?_text not_isDigit_head?_text hw hne fun used w hw => ?_
  refine (within_mebibytes hw).agree_bind (within_mebibytes hw) fun _ rest hread => ?_
  have hrest : Sealed rest := hw.suffix (takes_mebibytes.suffix hread)
  refine (within_slash hrest).agree_bind (within_slash hrest) fun _ last hread => ?_
  have hlast : Sealed last := hrest.suffix (takes_slash.suffix hread)
  by_cases hnil : last = []
  · -- the name ends in the slash, and the memory of the row follows it
    subst hnil
    unfold Agree
    have htotal : ∀ e : Ending,
        (memoryTotal >>= fun total => (pure (used, total) : Text.Reader _)) ([] ++ e.text) =
          some ((used, e.memory), e.closing) := by
      intro e
      rw [List.nil_append, bind_of_some memoryTotal_text]
      exact pure_eq_some_iff.2 ⟨rfl, rfl⟩
    rw [htotal e, htotal e']
    simp [MemoryFigures.ofDigits?, hmemory]
  · have htotal : ∀ e : Ending, Within (memoryTotal >>= fun total => pure (used, total)) last
        e.text := fun _ => (within_memoryTotal hlast hnil).bind fun _ _ _ => within_pure
    exact (htotal e).agree (htotal e')

theorem agree_utilizationDigits (hw : Sealed w) (hne : w ≠ []) :
    Agree id utilizationDigits (w ++ e.text) (w ++ []) := by
  rw [utilizationDigits_eq]
  refine agree_figure not_isDigit_head?_text (by simp) hw hne fun percent w hw => ?_
  refine within_percentSign.agree_bind (within_nil _ _) fun _ rest hread => ?_
  have hrest : Sealed rest := hw.suffix (takes_percentSign.suffix hread)
  refine (within_computeMode hrest).agree_bind (within_nil _ _) fun _ _ _ => ?_
  exact within_pure.agree (within_nil _ _)

theorem Row.Sealed.cons (h : Sealed w) (hne : w ≠ []) : Sealed (b :: w) := by
  intro x hx
  rw [List.getLast?_cons_of_ne_nil hne] at hx
  exact h x hx

theorem search_memoryDigits_of_not_mem (h : '/' ∉ s) : search memoryDigits s = none := by
  have hmeets : Meets (fun _ => True) '/' memoryDigits := by
    rw [memoryDigits_eq]
    exact (takes_satisfying fun _ _ => trivial).meets fun _ =>
      (takes_run1 fun _ _ => trivial).meets fun _ => takes_mebibytes.meets fun _ =>
        (meets_slash fun _ _ => trivial).bind
  exact hmeets.search_eq_none h

theorem search_utilizationDigits_of_not_mem (h : '%' ∉ s) : search utilizationDigits s = none := by
  have hmeets : Meets IsFigure '%' utilizationDigits := by
    rw [utilizationDigits_eq]
    exact meets_figure fun _ => (meets_percentSign fun _ h => .inl h).bind
  exact hmeets.search_eq_none h

/-- A figure in a process row begins behind the columns before the name. -/
theorem search_figure_of_cells? {r : Text.Reader α} {c : Row.Cells} (hr : r = figure f)
    (hf : ∀ digits, Meets IsFigure m (f digits))
    (hm : m ∉ ['|', 'N', '/', 'A', 'C', '+', 'G']) (hmfigure : ¬IsFigure m)
    (hc : Row.cells? s = some c) : ∃ e : Ending, e.memory = c.memory ∧
      ((c.program ≠ [] ∧ Sealed c.program ∧
          search r s = search r (' ' :: c.program ++ e.text)) ∨
        ∃ b, isBlank b ∧ c.program = [b] ∧ search r s = search r e.text) := by
  subst hr
  obtain ⟨opening, e, hopening, he, hname⟩ := Row.exists_of_cells? hc
  refine ⟨e, he, ?_⟩
  rcases hname with ⟨before, rfl, hbefore, hblank, hnamed, hsealed⟩ | ⟨b, hb, hprogram, rfl⟩
  · left
    refine ⟨hnamed, hsealed, ?_⟩
    rw [search_figure_of_opening hf hm hmfigure hopening, search_figure_of_blanks hbefore hblank]
    rfl
  · right
    exact ⟨b, hb, hprogram, search_figure_of_opening hf hm hmfigure hopening⟩

/-- The memory figures in a process row are those in its name, where the memory of the row may be
the total. -/
theorem search_memoryDigits_of_cells? {c : Row.Cells} (hc : Row.cells? s = some c)
    (hmemory : Numeral.ofDigits? Numeral.greatest63 c.memory =
      Numeral.ofDigits? Numeral.greatest63 e'.memory) :
    (search memoryDigits s).map MemoryFigures.ofDigits? =
      (search memoryDigits (' ' :: c.program ++ e'.text)).map MemoryFigures.ofDigits? := by
  have hslash : ∀ e : Ending, search memoryDigits e.text = none := fun _ =>
    search_memoryDigits_of_not_mem (not_mem_text (by decide) (by decide))
  obtain ⟨e, he, ⟨hnamed, hsealed, hsearch⟩ | ⟨b, hb, hprogram, hsearch⟩⟩ :=
    search_figure_of_cells? memoryDigits_eq
      (fun _ => (meets_mebibytes fun _ h => .inl h).bind) (by decide) (by decide) hc
  · rw [hsearch]
    refine search_append_congr (fun v hv hne => ?_) ?_
    · exact agree_memoryDigits ((hsealed.cons hnamed).suffix hv) hne (he ▸ hmemory)
    · rw [hslash e, hslash e']
  · -- a name that is a blank
    have hnone : '/' ∉ ' ' :: c.program ++ e'.text := by
      have hb' : '/' ≠ b := (ne_of_isBlank hb (by decide)).symm
      have he' : '/' ∉ e'.text := not_mem_text (by decide) (by decide)
      simp [hprogram, hb', he']
    rw [hsearch, hslash e, search_memoryDigits_of_not_mem hnone]

/-- The utilization in a process row is that in its name. -/
theorem search_utilizationDigits_of_cells? {c : Row.Cells} (hc : Row.cells? s = some c) :
    search utilizationDigits s = search utilizationDigits (' ' :: c.program) := by
  have hsign : ∀ e : Ending, search utilizationDigits e.text = none := fun _ =>
    search_utilizationDigits_of_not_mem (not_mem_text (by decide) (by decide))
  obtain ⟨e, -, ⟨hnamed, hsealed, hsearch⟩ | ⟨b, hb, hprogram, hsearch⟩⟩ :=
    search_figure_of_cells? utilizationDigits_eq
      (fun _ => (meets_percentSign fun _ h => .inl h).bind) (by decide) (by decide) hc
  · have hsame : (search utilizationDigits (' ' :: c.program ++ e.text)).map id =
        (search utilizationDigits (' ' :: c.program ++ [])).map id := by
      refine search_append_congr (fun v hv hne => ?_) ?_
      · exact agree_utilizationDigits ((hsealed.cons hnamed).suffix hv) hne
      · rw [hsign e]
        rfl
    rw [hsearch]
    simpa using hsame
  · have hnone : '%' ∉ ' ' :: c.program := by
      have hb' : '%' ≠ b := (ne_of_isBlank hb (by decide)).symm
      simp [hprogram, hb']
    rw [hsearch, hsign e, search_utilizationDigits_of_not_mem hnone]

/-! ## Lines -/

namespace Row

/-- The name and the memory of a row, as they stand in it. -/
def nameAndMemory (r : Row) : String :=
  " " ++ r.program ++ " " ++ toString r.memory ++ "MiB"

variable {line : String} {r : Row}

theorem exists_cells?_of_ofLine? (h : ofLine? line = some r) :
    ∃ (c : Cells) (n : Nat), cells? line.toList = some c ∧ r.program = String.ofList c.program ∧
      r.memory = n ∧ Numeral.ofDigits? Numeral.greatest63 c.memory = some n := by
  obtain ⟨c, hc, h⟩ := Option.bind_eq_some_iff.1 h
  obtain ⟨device, -, h⟩ := Option.bind_eq_some_iff.1 h
  obtain ⟨process, -, h⟩ := Option.bind_eq_some_iff.1 h
  obtain ⟨memory, hmemory, h⟩ := Option.bind_eq_some_iff.1 h
  obtain rfl := Option.some.inj h
  exact ⟨c, memory, hc, rfl, rfl, hmemory⟩

theorem memoryFigures_of_row (h : ofLine? line = some r) :
    MemoryFigures.ofLine? line = MemoryFigures.ofLine? r.nameAndMemory := by
  obtain ⟨c, n, hc, hprogram, hmemory, hn⟩ := exists_cells?_of_ofLine? h
  have htext : r.nameAndMemory.toList = ' ' :: c.program ++ (Ending.ofMemory n).text := by
    simp [nameAndMemory, hprogram, hmemory, Ending.text, Amount.text, Amount.unit,
      Ending.ofMemory, toString, Int.repr]
  have hwritten : Numeral.ofDigits? Numeral.greatest63 c.memory =
      Numeral.ofDigits? Numeral.greatest63 (Ending.ofMemory n).memory := by
    rw [hn]
    exact (Numeral.ofDigits?_toDigits (Numeral.le_of_ofDigits? hn)).symm
  rw [MemoryFigures.ofLine?_eq, MemoryFigures.ofLine?_eq, htext,
    search_memoryDigits_of_cells? hc hwritten]

theorem utilization_of_row (h : ofLine? line = some r) :
    utilization? line = utilization? (" " ++ r.program) := by
  obtain ⟨c, n, hc, hprogram, -⟩ := exists_cells?_of_ofLine? h
  have htext : (" " ++ r.program).toList = ' ' :: c.program := by
    simp [hprogram]
  unfold utilization?
  rw [htext, search_utilizationDigits_of_cells? hc]

end Row

end Allotment.Status
