import Allotment.Proofs.Status.Row

/-!
# Names between two gaps

What stands between the context and the memory of a row is shared by a gap, the name and a gap. That
can be done in several ways where the name has blanks in it or is a blank itself. An engine takes as
much as it can into the first gap and then as little as it can into the name, and that is the name
that `Row.programBetween?` gives.
-/

namespace Allotment

namespace Status

open Text (isBlank isDigit not_isDigit_of_isBlank)

namespace Row

variable {s t between program : List Char}

theorem trim_blank_append (h : ∀ x ∈ s, isBlank x) : trim (s ++ t) = trim t := by
  rw [trim, List.dropWhile_append_of_pos h]
  rfl

theorem trim_append_blank (h : ∀ x ∈ t, isBlank x) : trim (s ++ t) = trim s := by
  have hreverse : ∀ x ∈ t.reverse, isBlank x := fun x hx => h x (List.mem_reverse.1 hx)
  unfold trim
  rw [List.dropWhile_append]
  split
  · next hempty =>
    rw [List.dropWhile_eq_nil_iff.2 h, List.isEmpty_iff.1 hempty]
  · rw [List.reverse_append, List.dropWhile_append_of_pos hreverse]

/-- How the gap before the name, the name and the gap after it share a text. -/
structure Sharing (between before program after : List Char) : Prop where
  eq_append : between = before ++ (program ++ after)
  before_ne_nil : before ≠ []
  program_ne_nil : program ≠ []
  after_ne_nil : after ≠ []
  isBlank_of_mem_before : ∀ x ∈ before, isBlank x
  isBlank_of_mem_after : ∀ x ∈ after, isBlank x
  not_mem_program : '\n' ∉ program

theorem mem_of_mem_trim {x : Char} (h : x ∈ trim s) : x ∈ s := by
  obtain ⟨before, after, hsplit, -, -⟩ := trim_append s
  rw [hsplit]
  exact List.mem_append_right before (List.mem_append_left after h)

theorem Sharing.programBetween?_of_trim {before after : List Char}
    (h : Sharing between before program after) (hne : trim program ≠ []) :
    programBetween? between = some (trim program) := by
  obtain ⟨rfl, hbefore, -, hafter, hblankBefore, hblankAfter, hline⟩ := h
  have htrim : trim (before ++ (program ++ after)) = trim program := by
    rw [trim_blank_append hblankBefore, trim_append_blank hblankAfter]
  have hhead : (before ++ (program ++ after)).head?.any isBlank := by
    obtain ⟨b, before, rfl⟩ := List.exists_cons_of_ne_nil hbefore
    exact hblankBefore b (by simp)
  have hlast : (before ++ (program ++ after)).getLast?.any isBlank := by
    rw [← List.append_assoc, List.getLast?_append_of_ne_nil _ hafter,
      List.getLast?_eq_some_getLast hafter]
    exact hblankAfter _ (List.getLast_mem hafter)
  have hnamed : '\n' ∉ trim program := fun hmem => hline (mem_of_mem_trim hmem)
  rw [programBetween?, htrim, if_neg hne, if_pos ⟨hhead, hlast, hnamed⟩]

theorem Sharing.programBetween?_ne_none {before after : List Char}
    (h : Sharing between before program after) : programBetween? between ≠ none := by
  by_cases htrim : trim program = []
  · obtain ⟨rfl, hbefore, hprogram, hafter, hblankBefore, hblankAfter, hline⟩ := h
    have hinner : ((before ++ (program ++ after)).drop 1).dropLast =
        before.drop 1 ++ (program ++ after.dropLast) := by
      obtain ⟨b, before, rfl⟩ := List.exists_cons_of_ne_nil hbefore
      have hne : program ++ after ≠ [] := List.append_ne_nil_of_left_ne_nil hprogram after
      simp only [List.cons_append, List.drop_succ_cons, List.drop_zero]
      rw [List.dropLast_append_of_ne_nil hne, List.dropLast_append_of_ne_nil hafter]
    have hblank : trim (before ++ (program ++ after)) = [] := by
      rw [trim_blank_append hblankBefore, trim_append_blank hblankAfter, htrim]
    obtain ⟨c, program, rfl⟩ := List.exists_cons_of_ne_nil hprogram
    rw [programBetween?, if_pos hblank, hinner, ne_eq, Option.map_eq_none_iff, List.find?_eq_none]
    intro hnone
    have hc : c = '\n' := by simpa using hnone c (by simp)
    exact hline (by simp [hc])
  · rw [h.programBetween?_of_trim htrim]
    exact Option.some_ne_none _

/-- The sharing that an engine prefers: no longer gap before the name will do, and with that gap no
shorter name. -/
structure Sharing.Preferred (between before program after : List Char) : Prop extends
    Sharing between before program after where
  greediest : ∀ longer program' after', longer ≠ [] →
    ¬Sharing between (before ++ longer) program' after'
  laziest : ∀ program' after', Sharing between before program' after' →
    program.length ≤ program'.length

/-- Of blanks the name is the last one that may be a name. -/
theorem exists_preferred_of_blank (hblank : ∀ x ∈ between, isBlank x) {c : Char}
    (h : (between.drop 1).dropLast.reverse.find? (· ≠ '\n') = some c) :
    ∃ before after, Sharing.Preferred between before [c] after := by
  obtain ⟨hc, lineFeeds, earlier, hreverse, hlineFeeds⟩ := List.find?_eq_some_iff_append.1 h
  have hinner : (between.drop 1).dropLast =
      earlier.reverse ++ c :: lineFeeds.reverse := by
    rw [← List.reverse_reverse (between.drop 1).dropLast, hreverse]
    simp
  obtain ⟨first, last, hsplit⟩ : ∃ first last, between =
      first :: earlier.reverse ++ ([c] ++ (lineFeeds.reverse ++ [last])) := by
    cases between with
    | nil => simp at hinner
    | cons first tail =>
        have htail : tail ≠ [] := by
          rintro rfl
          simp at hinner
        refine ⟨first, tail.getLast htail, ?_⟩
        rw [List.drop_succ_cons, List.drop_zero] at hinner
        have hlast := List.dropLast_append_getLast htail
        rw [hinner] at hlast
        exact congrArg (first :: ·) (hlast.symm.trans (by simp))
  refine ⟨first :: earlier.reverse, lineFeeds.reverse ++ [last], ⟨hsplit, by simp, by simp,
    by simp, ?_, ?_, ?_⟩, ?_, ?_⟩
  · exact fun x hx => hblank x (hsplit ▸ List.mem_append_left _ hx)
  · exact fun x hx => hblank x (hsplit ▸ List.mem_append_right _ (List.mem_append_right _ hx))
  · simpa using fun h => (by simpa using hc : c ≠ '\n') h.symm
  · intro longer program' after' hlonger h
    obtain ⟨b, longer, rfl⟩ := List.exists_cons_of_ne_nil hlonger
    obtain ⟨x, program', rfl⟩ := List.exists_cons_of_ne_nil h.program_ne_nil
    have heq : [c] ++ (lineFeeds.reverse ++ [last]) =
        b :: longer ++ (x :: program' ++ after') :=
      List.append_cancel_left (hsplit.symm.trans (by rw [h.eq_append, List.append_assoc]))
    -- the name would begin among the line feeds
    have hfeeds : lineFeeds.reverse = longer ++ (x :: program' ++ after'.dropLast) := by
      have htail : lineFeeds.reverse ++ [last] = longer ++ (x :: program' ++ after') :=
        List.tail_eq_of_cons_eq heq
      have hdrop := congrArg List.dropLast htail
      rwa [List.dropLast_concat, List.dropLast_append_of_ne_nil (by simp),
        List.dropLast_append_of_ne_nil h.after_ne_nil] at hdrop
    have hmem : x ∈ lineFeeds := by
      rw [← List.mem_reverse, hfeeds]
      simp
    have hx : x = '\n' := by simpa using hlineFeeds x hmem
    exact h.not_mem_program (by simp [hx])
  · intro program' after' h
    exact List.length_pos_iff.2 h.program_ne_nil

theorem exists_preferred_of_trim (hne : trim between ≠ [])
    (hhead : between.head?.any isBlank) (hlast : between.getLast?.any isBlank)
    (hline : '\n' ∉ trim between) :
    ∃ before after, Sharing.Preferred between before (trim between) after := by
  obtain ⟨before, after, hsplit, hbefore, hafter, hblankBefore, hblankAfter⟩ :=
    trim_append_of_ends hne hhead hlast
  refine ⟨before, after, ⟨hsplit, hbefore, hne, hafter, hblankBefore, hblankAfter, hline⟩, ?_, ?_⟩
  · intro longer program' after' hlonger h
    obtain ⟨b, longer, rfl⟩ := List.exists_cons_of_ne_nil hlonger
    have heq : trim between ++ after = b :: longer ++ (program' ++ after') :=
      List.append_cancel_left (hsplit.symm.trans (by rw [h.eq_append, List.append_assoc]))
    have hb : b ∈ (trim between).head? := by
      rw [← List.head?_append_of_ne_nil _ hne, heq]
      rfl
    have hblank := h.isBlank_of_mem_before b (by simp)
    rw [not_isBlank_head?_trim b hb] at hblank
    contradiction
  · intro program' after' h
    have heq : trim between ++ after = program' ++ after' :=
      List.append_cancel_left (hsplit.symm.trans h.eq_append)
    rcases List.append_eq_append_iff.1 heq with ⟨m, rfl, -⟩ | ⟨m, htrim, rfl⟩
    · simp
    · by_contra hshorter
      have hm : m ≠ [] := by
        rintro rfl
        simp [htrim] at hshorter
      have hlastBlank := h.isBlank_of_mem_after (m.getLast hm) (by simp)
      have hmem : m.getLast hm ∈ (trim between).getLast? := by
        rw [htrim, List.getLast?_append_of_ne_nil _ hm, List.getLast?_eq_some_getLast hm]
        rfl
      rw [not_isBlank_getLast?_trim _ hmem] at hlastBlank
      contradiction

theorem exists_preferred (h : programBetween? between = some program) :
    ∃ before after, Sharing.Preferred between before program after := by
  unfold programBetween? at h
  split at h
  · next hempty =>
    obtain ⟨before, after, hsplit, hbefore, hafter⟩ := trim_append between
    obtain ⟨c, hc, rfl⟩ := Option.map_eq_some_iff.1 h
    refine exists_preferred_of_blank (fun x hx => ?_) hc
    rw [hsplit, hempty, List.nil_append] at hx
    exact (List.mem_append.1 hx).elim (hbefore x) (hafter x)
  · next hne =>
    split at h
    · next hends =>
      obtain rfl := Option.some.inj h
      exact exists_preferred_of_trim hne hends.1 hends.2.1 hends.2.2
    · contradiction

end Row

end Status

end Allotment
