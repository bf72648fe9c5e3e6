import Allotment.Proofs.Status.Lead
import Allotment.Proofs.Status.Ending
import Allotment.Proofs.Status.Sharing

/-!
# Process rows are read as their pattern says

What `Row.cells?` finds in a line is what the preferred match of `Row.pattern` tells. Up to the
context the pattern has no choice. Behind it the row has one end only, but the gap before the name
and the name may share what stands before that end in several ways, and the preferred one comes
first.
-/

namespace Allotment

namespace Status

open Text (isBlank not_isDigit_of_isBlank)
open Text.Matcher

namespace Row

variable {s t rest between program memory : List Char}

theorem forall_mem_ne_iff {d : Char} : (∀ x ∈ s, (x != d) = true) ↔ d ∉ s := by
  simp only [bne_iff_ne, ne_eq]
  exact ⟨fun h hmem => h _ hmem rfl, fun h x hx hxd => h (hxd ▸ hx)⟩

theorem mem_afterName {v : List Char} : ((v, memory), rest) ∈ Pattern.afterName program s ↔
    v = program ∧ rest = [] ∧
      ∃ e : Ending, IsClosing e.closing ∧ e.memory = memory ∧ s = e.text := by
  simp only [Pattern.afterName, mem_bind, mem_ending, mem_pure, Prod.mk.injEq]
  constructor
  · rintro ⟨_, _, ⟨rfl, e, he, rfl, rfl⟩, ⟨rfl, rfl⟩, rfl⟩
    exact ⟨rfl, rfl, e, he, rfl, rfl⟩
  · rintro ⟨rfl, rfl, e, he, rfl, rfl⟩
    exact ⟨e.memory, [], ⟨rfl, e, he, rfl, rfl⟩, ⟨rfl, rfl⟩, rfl⟩

theorem mem_naming : ((program, memory), rest) ∈ Pattern.naming s ↔
    rest = [] ∧ program ≠ [] ∧ '\n' ∉ program ∧
      ∃ e : Ending, IsClosing e.closing ∧ e.memory = memory ∧ s = program ++ e.text := by
  simp only [Pattern.naming, mem_bind, mem_lazy1, mem_afterName, forall_mem_ne_iff]
  constructor
  · rintro ⟨_, _, ⟨hne, rfl, hnamed⟩, rfl, rfl, e, he, rfl, rfl⟩
    exact ⟨rfl, hne, hnamed, e, he, rfl, rfl⟩
  · rintro ⟨rfl, hne, hnamed, e, he, rfl, rfl⟩
    exact ⟨program, e.text, ⟨hne, rfl, hnamed⟩, rfl, rfl, e, he, rfl, rfl⟩

/-- Every way to find the end of a row finds the same one. -/
theorem lastMemory_reverse_ending {e : Ending} (he : IsClosing e.closing) :
    lastMemory (t ++ e.text).reverse = some (e.memory, (t ++ e.gap).reverse) := by
  rw [Ending.text, ← List.append_assoc]
  refine lastMemory_reverse he fun x hx => ?_
  rw [List.getLast?_append_of_ne_nil _ e.gap_ne_nil] at hx
  exact not_isDigit_of_isBlank (e.isBlank_of_mem_gap x (List.mem_of_getLast? hx))

theorem sharing_of_naming {before : List Char}
    (hlast : lastMemory (before ++ s).reverse = some (memory, between)) (hbefore : before ≠ [])
    (hblank : ∀ x ∈ before, isBlank x) {y : List Char × List Char}
    (h : (y, rest) ∈ Pattern.naming s) :
    y.2 = memory ∧ ∃ after, Sharing between.reverse before y.1 after := by
  obtain ⟨-, hne, hnamed, e, he, hmemory, rfl⟩ := mem_naming.1 h
  rw [← List.append_assoc, lastMemory_reverse_ending he] at hlast
  obtain ⟨rfl, rfl⟩ : e.memory = memory ∧ ((before ++ y.1) ++ e.gap).reverse = between := by
    simpa using hlast
  refine ⟨hmemory.symm, e.gap, ?_, hbefore, hne, e.gap_ne_nil, hblank, e.isBlank_of_mem_gap,
    hnamed⟩
  rw [List.reverse_reverse, List.append_assoc]

theorem trail_eq : Pattern.trail = greedy1 isBlank >>= fun _ => Pattern.naming := by
  rw [Pattern.trail, Pattern.gap, bind_assoc]
  simp only [pure_bind]

theorem head?_afterName {e : Ending} (he : IsClosing e.closing) :
    (Pattern.afterName program e.text).head? = some ((program, e.memory), []) := by
  have hne : Pattern.afterName program e.text ≠ [] :=
    List.ne_nil_of_mem (mem_afterName.2 ⟨rfl, rfl, e, he, rfl, rfl⟩)
  have hfirst := List.head_mem hne
  rw [List.head?_eq_some_head hne, Option.some_inj]
  generalize (Pattern.afterName program e.text).head hne = y at hfirst
  obtain ⟨⟨v, memory⟩, rest⟩ := y
  obtain ⟨rfl, rfl, e', he', rfl, htext⟩ := mem_afterName.1 hfirst
  have hsame := lastMemory_reverse_ending (t := []) he
  rw [htext, lastMemory_reverse_ending he', Option.some_inj, Prod.mk.injEq] at hsame
  rw [hsame.1]

/-- The name of the preferred sharing comes first. -/
theorem head?_naming_of_preferred {before : List Char} {e : Ending} (he : IsClosing e.closing)
    (h : Sharing.Preferred between.reverse before program e.gap)
    (hlast : lastMemory (before ++ (program ++ e.text)).reverse = some (memory, between)) :
    (Pattern.naming (program ++ e.text)).head? = some ((program, e.memory), []) := by
  have hfirst : (Pattern.afterName program e.text).head? = some ((program, e.memory), []) :=
    head?_afterName he
  have hne : Pattern.afterName program e.text ≠ [] := by
    intro hnil
    rw [hnil] at hfirst
    contradiction
  have hline : ∀ x ∈ program, (x != '\n') = true := forall_mem_ne_iff.2 h.not_mem_program
  rw [Pattern.naming, head?_lazy1_bind h.program_ne_nil hline ?_ hne, hfirst]
  intro v v' hsplit hv hv'
  rw [List.eq_nil_iff_forall_not_mem]
  rintro ⟨⟨u, memory'⟩, rest⟩ hmem
  have hnaming : ((u, memory'), rest) ∈ Pattern.naming (v ++ (v' ++ e.text)) := by
    refine mem_bind.2 ⟨v, v' ++ e.text, mem_lazy1.2 ⟨hv, rfl, fun x hx => hline x ?_⟩, hmem⟩
    exact hsplit ▸ List.mem_append_left v' hx
  obtain ⟨rfl, -⟩ := mem_afterName.1 hmem
  rw [hsplit, List.append_assoc] at hlast
  obtain ⟨-, after', hsharing⟩ :=
    sharing_of_naming hlast h.before_ne_nil h.isBlank_of_mem_before hnaming
  have hle := h.laziest u after' hsharing
  rw [hsplit, List.length_append] at hle
  have hpos := List.length_pos_iff.2 hv'
  omega

/-- The preferred sharing comes first. -/
theorem head?_trail_of_preferred {before after : List Char}
    (h : Sharing.Preferred between.reverse before program after)
    (hlast : lastMemory s.reverse = some (memory, between)) :
    (Pattern.trail s).head? = some ((program, memory), []) := by
  obtain ⟨a, hs, rfl, ha, -⟩ := exists_of_lastMemory hlast
  let e : Ending := ⟨a, after, h.after_ne_nil, h.isBlank_of_mem_after⟩
  have hs : s = before ++ (program ++ e.text) := by
    rw [List.reverse_reverse, h.eq_append] at hs
    simp only [hs, Ending.text, e, List.append_assoc]
  subst hs
  have hnaming := head?_naming_of_preferred (e := e) ha h hlast
  rw [trail_eq, head?_greedy1_bind h.before_ne_nil h.isBlank_of_mem_before, hnaming]
  · intro v rest' hsplit hv hblank
    rw [List.eq_nil_iff_forall_not_mem]
    rintro ⟨y, rest⟩ hmem
    rw [hsplit, ← List.append_assoc] at hlast
    have hlonger : ∀ x ∈ before ++ v, isBlank x := fun x hx =>
      (List.mem_append.1 hx).elim (h.isBlank_of_mem_before x) (hblank x)
    obtain ⟨-, after', hsharing⟩ :=
      sharing_of_naming hlast (List.append_ne_nil_of_left_ne_nil h.before_ne_nil v) hlonger hmem
    exact h.greediest v y.1 after' hv hsharing
  · intro hnil
    rw [hnil] at hnaming
    contradiction

theorem trail_eq_nil (h : ∀ memory between, lastMemory s.reverse = some (memory, between) →
    programBetween? between.reverse = none) : Pattern.trail s = [] := by
  rw [List.eq_nil_iff_forall_not_mem]
  rintro ⟨⟨program, memory⟩, rest⟩ hmem
  rw [trail_eq] at hmem
  obtain ⟨before, middle, hgap, hnaming⟩ := mem_bind.1 hmem
  obtain ⟨hbefore, rfl, hblank⟩ := mem_greedy1.1 hgap
  obtain ⟨-, hne, hnamed, e, he, rfl, rfl⟩ := mem_naming.1 hnaming
  have hlast : lastMemory (before ++ (program ++ e.text)).reverse =
      some (e.memory, ((before ++ program) ++ e.gap).reverse) := by
    rw [← List.append_assoc, lastMemory_reverse_ending he]
  obtain ⟨-, after, hsharing⟩ := sharing_of_naming hlast hbefore hblank hnaming
  exact hsharing.programBetween?_ne_none (h _ _ hlast)

theorem first?_trail (s : List Char) : Pattern.trail.first? s =
    (lastMemory s.reverse).bind fun x =>
      (programBetween? x.2.reverse).map fun program => (program, x.1) := by
  unfold first?
  cases hlast : lastMemory s.reverse with
  | none =>
      rw [trail_eq_nil fun memory between h => by simp [hlast] at h]
      rfl
  | some x =>
      obtain ⟨memory, between⟩ := x
      cases hprogram : programBetween? between.reverse with
      | none =>
          have hnone : ∀ memory' between', lastMemory s.reverse = some (memory', between') →
              programBetween? between'.reverse = none := by
            intro memory' between' h
            obtain ⟨rfl, rfl⟩ : memory = memory' ∧ between = between' := by simpa [hlast] using h
            exact hprogram
          rw [trail_eq_nil hnone, Option.bind_some, hprogram]
          rfl
      | some program =>
          obtain ⟨before, after, hpreferred⟩ := exists_preferred hprogram
          rw [head?_trail_of_preferred hpreferred hlast, Option.bind_some, hprogram]
          rfl

theorem rejects_trail : Rejects (· == '+') Pattern.trail :=
  (rejects_gap (forall_beq_iff.2 (by decide))).bind

/-- **Process rows are read as their pattern says.** The columns that are found in a line are those
of the preferred match of the pattern. -/
theorem first?_pattern (line : List Char) : pattern.first? line = cells? line := by
  let row (x : List Char × List Char × Context) (y : List Char × List Char) : Cells :=
    { device := x.1, process := x.2.1, context := x.2.2, program := y.1, memory := y.2 }
  have hpattern : pattern = Pattern.lead >>= fun x => row x <$> Pattern.trail := rfl
  have hlead := commits_lead (f := fun x => row x <$> Pattern.trail)
    (fun _ => rejects_trail.bind) line
  unfold cells?
  rw [first?, hpattern, hlead]
  cases lead line with
  | none => rfl
  | some x =>
      obtain ⟨⟨device, process, context⟩, rest⟩ := x
      have htrail : (row (device, process, context) <$> Pattern.trail).first? rest =
          (Pattern.trail.first? rest).map (row (device, process, context)) := first?_map
      rw [first?_trail] at htrail
      refine htrail.trans ?_
      simp only [Option.bind_eq_bind, Option.bind_some]
      cases lastMemory rest.reverse with
      | none => rfl
      | some y =>
          obtain ⟨memory, between⟩ := y
          simp only [Option.bind_some]
          cases programBetween? between.reverse with
          | none => rfl
          | some program => rfl

end Row

end Status

end Allotment
