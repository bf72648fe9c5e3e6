import Allotment.Status.Pattern
import Allotment.Proofs.Status.Row
import Allotment.Proofs.Text.Matcher

/-!
# The columns before the name have no choice

Each column that the pattern of process rows has before the name ends where a character stands that
the next one needs. So there is one way at most to match them, and `Row.lead` reads on along it.
-/

namespace Allotment

namespace Status

open Text (Matcher isBlank isDigit not_isBlank_of_isDigit not_isDigit_of_isBlank)
open Text.Reader (run1)
open Text.Matcher

namespace Row

variable {β : Type} {s rest device : List Char}

theorem commits_gap {f : Unit → Matcher β} (hf : Rejects isBlank (f ())) :
    Commits Pattern.gap gap f :=
  (commits_greedy1 fun _ => hf.pure_bind).bind fun _ => commits_pure

theorem commits_space {f : Unit → Matcher β} (hf : Rejects isBlank (f ())) :
    Commits Pattern.space space f :=
  (commits_greedy fun _ => hf.pure_bind).bind fun _ => commits_pure

theorem commits_bar {f : Unit → Matcher β} (hf : Rejects (· == '|') (f ())) :
    Commits Pattern.bar bar f := by
  refine (commits_one.perhaps ?_).bind fun _ => commits_pure
  rintro s ⟨c, rest⟩ hread
  obtain ⟨rfl, hc⟩ := Text.Reader.satisfying_eq_some_iff.1 hread
  exact hf.pure_bind c rest hc

theorem rejects_gap {p : Char → Bool} (h : ∀ c, p c → isBlank c = false) : Rejects p Pattern.gap :=
  (rejects_greedy1 h).bind

theorem rejects_space_bind {p : Char → Bool} {f : Unit → Matcher β}
    (h : ∀ c, p c → isBlank c = false) (hf : Rejects p (f ())) :
    Rejects p (Pattern.space >>= f) := by
  unfold Pattern.space
  rw [bind_assoc]
  exact Rejects.greedy_bind h hf.pure_bind

theorem rejects_instanceColumn : Rejects isBlank Pattern.instanceColumn :=
  ((rejects_literal rfl (by decide)).orElse
    (rejects_greedy1 fun _ => not_isDigit_of_isBlank).bind).bind

theorem commits_instanceColumn {f : Unit → Matcher β} (hf : Rejects isBlank (f ())) :
    Commits Pattern.instanceColumn instanceColumn f := by
  refine Commits.bind (.orElse commits_literal ?_ ?_) fun _ => commits_gap hf
  · refine (commits_greedy1 fun _ => Rejects.pure_bind ?_).bind fun _ => commits_pure
    exact (rejects_gap fun _ => not_isBlank_of_isDigit).bind
  · intro s x hread
    have hs : s = 'N' :: '/' :: 'A' :: x.2 := Text.Reader.literal_eq_some_iff.1 hread
    have hdigits : Rejects (· == 'N') (greedy1 isDigit) :=
      rejects_greedy1 (forall_beq_iff.2 (by decide))
    rw [hs]
    exact hdigits.bind.bind _ _ rfl

theorem rejects_contextMark {p : Char → Bool} (hC : p 'C' = false) (hG : p 'G' = false) :
    Rejects p Pattern.contextMark :=
  (rejects_literal rfl hC).bind.orElse
    ((rejects_literal rfl hC).bind.orElse (rejects_literal rfl hG).bind)

theorem commits_contextMark {f : Context → Matcher β} (hf : ∀ c, Rejects (· == '+') (f c)) :
    Commits Pattern.contextMark contextMark f := by
  have hmark : ∀ c : Context, Commits (do literal c.mark; return c : Matcher Context)
      (do Text.Reader.literal c.mark; return c : Text.Reader Context) f :=
    fun c => commits_literal.bind fun _ => commits_pure
  have hgraphics : ∀ s,
      ((do literal "G"; return .graphics : Matcher Context) >>= f) ('C' :: s) = [] :=
    fun s => (rejects_literal (p := (· == 'C')) rfl rfl).bind.bind _ _ rfl
  refine Commits.orElse (hmark .both) (.orElse (hmark .compute) (hmark .graphics) ?_) ?_
  · rintro s ⟨context, rest⟩ hread
    obtain ⟨_, middle, hliteral, -⟩ := Text.Reader.bind_eq_some_iff.1 hread
    obtain rfl := Text.Reader.literal_eq_some_iff.1 hliteral
    exact hgraphics middle
  · rintro s ⟨context, rest⟩ hread
    obtain ⟨_, middle, hliteral, -⟩ := Text.Reader.bind_eq_some_iff.1 hread
    obtain rfl := Text.Reader.literal_eq_some_iff.1 hliteral
    have hcompute := hmark .compute ('C' :: '+' :: 'G' :: middle)
    change _ = f .compute ('+' :: 'G' :: middle) at hcompute
    rw [hf .compute '+' _ rfl] at hcompute
    exact orElse_bind.trans (List.append_eq_nil_iff.2 ⟨hcompute, hgraphics _⟩)

/-- A text that begins with an instance column does not begin with the mark of a context. -/
theorem contextMark_of_instanceColumn {y : Unit} (h : instanceColumn s = some (y, rest)) :
    contextMark s = none := by
  obtain ⟨_, middle, hcolumn, -⟩ := Text.Reader.bind_eq_some_iff.1 h
  have hhead : ∃ c tail, s = c :: tail ∧ (c = 'N' ∨ isDigit c) := by
    rcases Text.Reader.orElse_eq_some hcolumn with hliteral | hdigits
    · exact ⟨'N', _, Text.Reader.literal_eq_some_iff.1 hliteral, .inl rfl⟩
    · obtain ⟨w, _, hrun, -⟩ := Text.Reader.bind_eq_some_iff.1 hdigits
      obtain ⟨c, tail, hfirst, -⟩ := Text.Reader.bind_eq_some_iff.1 hrun
      obtain ⟨rfl, hc⟩ := Text.Reader.satisfying_eq_some_iff.1 hfirst
      exact ⟨c, tail, rfl, .inr hc⟩
  obtain ⟨c, tail, rfl, hc⟩ := hhead
  rw [Option.eq_none_iff_forall_ne_some]
  rintro ⟨context, rest⟩ hmark
  have hsplit := eq_of_contextMark hmark
  have hfirst : c = 'C' ∨ c = 'G' := by
    cases context with
    | compute => exact .inl (List.head_eq_of_cons_eq hsplit)
    | graphics => exact .inr (List.head_eq_of_cons_eq hsplit)
    | both => exact .inl (List.head_eq_of_cons_eq hsplit)
  revert hc
  rcases hfirst with rfl | rfl <;> decide

/-- The process and the context, read behind the given device. -/
def processColumns (device : List Char) : Text.Reader (List Char × List Char × Context) := do
  let process ← run1 isDigit
  gap
  return (device, process, ← contextMark)

/-- Where there are instance columns, there is no other way to read on. -/
theorem processColumns_of_instanceColumns {x : Unit × List Char}
    (h : (instanceColumn *> instanceColumn) s = some x) : processColumns device s = none := by
  obtain ⟨_, middle, hfirst, hsecond⟩ := Text.Reader.bind_eq_some_iff.1 h
  obtain ⟨_, last, hcolumn, hgap⟩ := Text.Reader.bind_eq_some_iff.1 hfirst
  unfold processColumns
  rcases Text.Reader.orElse_eq_some hcolumn with hliteral | hdigits
  · obtain rfl := Text.Reader.literal_eq_some_iff.1 hliteral
    rfl
  · obtain ⟨w, last', hrun, hpure⟩ := Text.Reader.bind_eq_some_iff.1 hdigits
    obtain ⟨-, rfl⟩ := Text.Reader.pure_eq_some_iff.1 hpure
    rw [Text.Reader.bind_of_some hrun, Text.Reader.bind_of_some hgap]
    exact Text.Reader.bind_of_none (contextMark_of_instanceColumn hsecond)

theorem rejects_processColumns : Rejects isBlank (Pattern.processColumns device) :=
  (rejects_greedy1 fun _ => not_isDigit_of_isBlank).bind

variable {f : List Char × List Char × Context → Matcher β}

theorem commits_processColumns (hf : ∀ x, Rejects (· == '+') (f x)) :
    Commits (Pattern.processColumns device) (processColumns device) f := by
  have hblank : Rejects isBlank Pattern.contextMark := rejects_contextMark (by decide) (by decide)
  have hgap : Rejects isDigit Pattern.gap := rejects_gap fun _ => not_isBlank_of_isDigit
  refine .bind (commits_greedy1 fun _ => hgap.bind.bind) fun _ => ?_
  refine .bind (commits_gap hblank.bind.bind) fun _ => ?_
  exact .bind (commits_contextMark fun _ => (hf _).pure_bind) fun _ => commits_pure

theorem commits_instanceColumns {f : Unit → Matcher β} (hf : Rejects isBlank (f ())) :
    Commits (Pattern.instanceColumn *> Pattern.instanceColumn) (instanceColumn *> instanceColumn)
      f :=
  Commits.bind (commits_instanceColumn rejects_instanceColumn.bind) fun _ =>
    commits_instanceColumn hf

/-- Up to the context there is at most one way to match a row, and the row is read along it. -/
theorem commits_lead (hf : ∀ x, Rejects (· == '+') (f x)) : Commits Pattern.lead lead f := by
  have hdigits : Rejects isBlank (greedy1 isDigit) :=
    rejects_greedy1 fun _ => not_isDigit_of_isBlank
  have hgap : Rejects isDigit Pattern.gap := rejects_gap fun _ => not_isBlank_of_isDigit
  have hinstances : Rejects isBlank (Pattern.instanceColumn *> Pattern.instanceColumn) :=
    rejects_instanceColumn.bind (f := fun _ => Pattern.instanceColumn)
  refine .bind (commits_bar ?_) fun _ => ?_
  · refine (rejects_space_bind ?_ (rejects_greedy1 ?_).bind).bind
    · exact forall_beq_iff.2 (by decide)
    · exact forall_beq_iff.2 (by decide)
  refine .bind (commits_space hdigits.bind.bind) fun _ => ?_
  refine .bind (commits_greedy1 fun _ => hgap.bind.bind) fun device => ?_
  refine .bind (commits_gap ?_) fun _ => ?_
  · exact (Rejects.perhaps_bind hinstances rejects_processColumns).bind
  refine .bind (.perhaps (commits_instanceColumns ?_) ?_) fun _ => commits_processColumns hf
  · exact rejects_processColumns.bind
  · intro s x h
    rw [commits_processColumns hf s, processColumns_of_instanceColumns h]
    rfl

end Row

end Status

end Allotment
