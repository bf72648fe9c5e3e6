import Mathlib.Algebra.Order.Ring.Int
import Mathlib.Order.Bounds.Basic
import Mathlib.Tactic.Linarith
import Allotment.Resource.Multiples

/-!
# Rounding single amounts

What rounding is to give is said without division: the least multiple of the step that is not below
the value, or the greatest one that is not above it. `RoundsUp` also says what becomes of a multiple
that a word cannot hold. The amounts that are worked out in 64-bit words meet both.
-/

namespace Allotment

/-- The multiples of the step that are not below the value. -/
def multiplesFrom (value step : Int) : Set Int :=
  {m | step ∣ m ∧ value ≤ m}

/-- The multiples of the step that are not above the value. -/
def multiplesUpTo (value step : Int) : Set Int :=
  {m | step ∣ m ∧ m ≤ value}

/-- What a value is rounded up to in a word. -/
inductive RoundsUp (w : Word) (value step : Int) : Int → Prop where
  /-- Without a step the value stays as it is. -/
  | asIs : step = 0 → RoundsUp w value step value
  | multiple {m : Int} : 0 < step → IsLeast (multiplesFrom value step) m → m ≤ w.greatest →
      RoundsUp w value step m
  /-- If no such multiple fits the word, its greatest integer stands for it. -/
  | beyond {m : Int} : 0 < step → IsLeast (multiplesFrom value step) m → w.greatest < m →
      RoundsUp w value step w.greatest

/-- What a value is rounded down to. -/
inductive RoundsDown (value step : Int) : Int → Prop where
  | asIs : step = 0 → RoundsDown value step value
  | multiple {m : Int} : 0 < step → IsGreatest (multiplesUpTo value step) m →
      RoundsDown value step m

variable {w : Word} {value value' step m x x' : Int}

/-! ## Least and greatest multiples -/

theorem isLeast_multiplesFrom {q : Int} (hstep : 0 < step) (hle : value ≤ q * step)
    (hlt : q * step < value + step) : IsLeast (multiplesFrom value step) (q * step) := by
  refine ⟨⟨Int.dvd_mul_left q step, hle⟩, ?_⟩
  rintro _ ⟨⟨k, rfl⟩, hk⟩
  have hless : (q - 1) * step < k * step := by linarith
  have hq : q - 1 < k := lt_of_mul_lt_mul_right hless hstep.le
  have hqk : q ≤ k := by omega
  calc
    q * step ≤ k * step := Int.mul_le_mul_of_nonneg_right hqk hstep.le
    _ = step * k := Int.mul_comm k step

theorem isGreatest_multiplesUpTo (hstep : 0 < step) :
    IsGreatest (multiplesUpTo value step) (value / step * step) := by
  refine ⟨⟨Int.dvd_mul_left _ step, Int.ediv_mul_le value hstep.ne'⟩, ?_⟩
  rintro _ ⟨⟨k, rfl⟩, hk⟩
  rw [Int.mul_comm] at hk ⊢
  have hle : k ≤ value / step := (Int.le_ediv_iff_mul_le hstep).2 hk
  exact Int.mul_le_mul_of_nonneg_right hle hstep.le

theorem lt_add_of_isLeast (hstep : 0 < step) (hm : IsLeast (multiplesFrom value step) m) :
    m < value + step := by
  obtain ⟨⟨hdvd, hle⟩, hleast⟩ := hm
  by_contra hge
  have hbelow : m ≤ m - step := hleast ⟨Int.dvd_sub hdvd (Int.dvd_refl step), by omega⟩
  omega

/-! ## What is rounded up -/

namespace RoundsUp

theorem le (hvalue : value ≤ w.greatest) (h : RoundsUp w value step x) : value ≤ x := by
  cases h with
  | asIs => exact Int.le_refl _
  | multiple _ hm => exact hm.1.2
  | beyond => exact hvalue

theorem le_greatest (hvalue : value ≤ w.greatest) (h : RoundsUp w value step x) :
    x ≤ w.greatest := by
  cases h with
  | asIs => exact hvalue
  | multiple _ _ hfits => exact hfits
  | beyond => exact Int.le_refl _

theorem dvd_or_eq (hstep : 0 < step) (h : RoundsUp w value step x) :
    step ∣ x ∨ x = w.greatest := by
  cases h with
  | asIs hzero => omega
  | multiple _ hm => exact .inl hm.1.1
  | beyond => exact .inr rfl

/-- A value between one that is rounded up and what that comes to is rounded up to the same. -/
theorem of_between (h : RoundsUp w value step x) (hle : value ≤ value') (hle' : value' ≤ x) :
    RoundsUp w value' step x := by
  have hsame {m : Int} (hm : IsLeast (multiplesFrom value step) m) (hbound : value' ≤ m) :
      IsLeast (multiplesFrom value' step) m :=
    ⟨⟨hm.1.1, hbound⟩, fun n hn => hm.2 ⟨hn.1, Int.le_trans hle hn.2⟩⟩
  cases h with
  | asIs hzero =>
      obtain rfl : value' = value := Int.le_antisymm hle' hle
      exact .asIs hzero
  | multiple hstep hm hfits => exact .multiple hstep (hsame hm hle') hfits
  | beyond hstep hm hbeyond => exact .beyond hstep (hsame hm (by omega)) hbeyond

/-- What has been rounded up stays as it is. -/
theorem again (hvalue : value ≤ w.greatest) (h : RoundsUp w value step x) : RoundsUp w x step x :=
  h.of_between (h.le hvalue) (Int.le_refl x)

theorem mono (hle : value ≤ value') (h : RoundsUp w value step x)
    (h' : RoundsUp w value' step x') (hvalue : value' ≤ w.greatest) : x ≤ x' := by
  cases h with
  | asIs => exact Int.le_trans hle (h'.le hvalue)
  | multiple hstep hm hfits =>
      cases h' with
      | asIs hzero => omega
      | multiple _ hm' => exact hm.2 ⟨hm'.1.1, Int.le_trans hle hm'.1.2⟩
      | beyond => exact hfits
  | beyond hstep hm hbeyond =>
      cases h' with
      | asIs hzero => omega
      | multiple _ hm' hfits' =>
          have hless := hm.2 ⟨hm'.1.1, Int.le_trans hle hm'.1.2⟩
          omega
      | beyond => exact Int.le_refl _

theorem unique (hvalue : value ≤ w.greatest) (h : RoundsUp w value step x)
    (h' : RoundsUp w value step x') : x = x' :=
  Int.le_antisymm (h.mono (Int.le_refl _) h' hvalue) (h'.mono (Int.le_refl _) h hvalue)

/-- What fits a narrower word is rounded up to the same in it. -/
theorem narrow {v : Word} (hfits : x ≤ v.greatest) (hless : v.greatest < w.greatest)
    (h : RoundsUp w value step x) : RoundsUp v value step x := by
  cases h with
  | asIs hzero => exact .asIs hzero
  | multiple hstep hm => exact .multiple hstep hm hfits
  | beyond => omega

end RoundsUp

/-! ## What is rounded down -/

namespace RoundsDown

theorem le (h : RoundsDown value step x) : x ≤ value := by
  cases h with
  | asIs => exact Int.le_refl _
  | multiple _ hm => exact hm.1.2

theorem nonneg (hvalue : 0 ≤ value) (h : RoundsDown value step x) : 0 ≤ x := by
  cases h with
  | asIs => exact hvalue
  | multiple _ hm => exact hm.2 ⟨Int.dvd_zero step, hvalue⟩

/-- What has been rounded down stays as it is. -/
theorem again (h : RoundsDown value step x) : RoundsDown x step x := by
  cases h with
  | asIs hzero => exact .asIs hzero
  | multiple hstep hm =>
      exact .multiple hstep ⟨⟨hm.1.1, Int.le_refl x⟩, fun n hn => hn.2⟩

theorem unique (h : RoundsDown value step x) (h' : RoundsDown value step x') : x = x' := by
  cases h with
  | asIs hzero =>
      cases h' with
      | asIs => rfl
      | multiple hstep => omega
  | multiple hstep hm =>
      cases h' with
      | asIs hzero => omega
      | multiple _ hm' => exact hm.unique hm'

end RoundsDown

/-! ## Quotients rounded up -/

theorem holds_tdiv (hvalue : Word.word64.Holds value) (hstep : 0 < step) :
    Word.word64.Holds (value.tdiv step) := by
  have habs := Int.natAbs_tdiv_le_natAbs value step
  have hsign : value < 0 → value.tdiv step ≤ 0 := by
    intro hneg
    have hopposite := Int.tdiv_nonneg (a := -value) (by omega) hstep.le
    rw [Int.neg_tdiv] at hopposite
    omega
  simp only [Word.Holds, Word.least, Word.greatest] at hvalue ⊢
  omega

theorem tmod_nonpos (hvalue : value ≤ 0) : value.tmod step ≤ 0 := by
  have hopposite := Int.tmod_nonneg step (a := -value) (by omega)
  rw [Int.neg_tmod] at hopposite
  omega

/-- The truncated quotient is the one rounded up unless something is left over of a value above
zero. -/
theorem ceilDiv?_of_pos (hvalue : Word.word64.Holds value) (hstep : 0 < step) :
    ∃ q, ceilDiv? value step = some q ∧ value ≤ q * step ∧ q * step < value + step := by
  have hsplit := Int.tdiv_mul_add_tmod value step
  have hlt := Int.tmod_lt_of_pos value hstep
  have hgt := Int.lt_tmod_of_pos value hstep
  have hceil : ceilDiv? value step = some (if value.tmod step ≠ 0 ∧ (0 < value ↔ 0 < step) then
      value.tdiv step + 1 else value.tdiv step) := by
    unfold ceilDiv?
    rw [if_neg hstep.ne', if_pos (holds_tdiv hvalue hstep)]
  by_cases hover : value.tmod step ≠ 0 ∧ (0 < value ↔ 0 < step)
  · refine ⟨_, hceil, ?_⟩
    have hleft := Int.tmod_nonneg step (hover.2.2 hstep).le
    rw [if_pos hover, Int.add_mul, Int.one_mul]
    omega
  · refine ⟨_, hceil, ?_⟩
    have hleft : value.tmod step ≤ 0 := by
      by_cases hpos : 0 < value
      · have hzero : value.tmod step = 0 := by
          by_contra hne
          exact hover ⟨hne, by simp [hpos, hstep]⟩
        omega
      · exact tmod_nonpos (by omega)
    rw [if_neg hover]
    omega

/-! ## The amounts that are worked out -/

theorem roundUp?_roundsUp (hvalue : Word.word64.Holds value) (hstep : 0 ≤ step) :
    ∃ x, roundUp? value step = some x ∧ RoundsUp .word64 value step x := by
  by_cases hzero : step = 0
  · exact ⟨value, if_pos hzero, .asIs hzero⟩
  · have hpos : 0 < step := by omega
    obtain ⟨q, hq, hle, hlt⟩ := ceilDiv?_of_pos hvalue hpos
    have hleast := isLeast_multiplesFrom hpos hle hlt
    have hround : roundUp? value step = some (Word.word64.clamp (q * step)) := by
      unfold roundUp?
      rw [if_neg hzero, hq, Option.map_some]
    by_cases hfits : q * step ≤ Word.word64.greatest
    · refine ⟨q * step, ?_, .multiple hpos hleast hfits⟩
      rw [hround, Word.clamp_eq_self ⟨Int.le_trans hvalue.1 hle, hfits⟩]
    · refine ⟨Word.word64.greatest, ?_, .beyond hpos hleast (by omega)⟩
      have hbound := Word.word64.least_eq
      have hgreatest := Word.word64.greatest_pos
      rw [hround]
      simp only [Word.clamp, Option.some.injEq]
      omega

example : roundUp? (-7) 4 = some (-4) ∧
    roundUp? 9223372036854775800 1024 = some 9223372036854775807 := by decide

theorem roundUp?_eq_some (hvalue : Word.word64.Holds value) (hstep : 0 ≤ step)
    (hx : RoundsUp .word64 value step x) : roundUp? value step = some x := by
  obtain ⟨z, hround, hz⟩ := roundUp?_roundsUp hvalue hstep
  rw [hround, hz.unique hvalue.2 hx]

theorem roundDown?_roundsDown (hvalue : Word.word64.Holds value) (hnonneg : 0 ≤ value)
    (hstep : 0 ≤ step) : ∃ x, roundDown? value step = some x ∧ RoundsDown value step x := by
  by_cases hzero : step = 0
  · exact ⟨value, if_pos hzero, .asIs hzero⟩
  · have hpos : 0 < step := by omega
    have hquotient : value / step ≤ value := Int.ediv_le_self step hnonneg
    have hproduct : value / step * step ≤ value := Int.ediv_mul_le value hzero
    have hleast := Word.word64.least_eq
    have hbelow : 0 ≤ value / step := Int.ediv_nonneg hnonneg hstep
    have hbelow' : 0 ≤ value / step * step := Int.mul_nonneg hbelow hstep
    have hgreatest := hvalue.2
    have hfits : Word.word64.Holds (value / step) := ⟨by omega, by omega⟩
    have hfits' : Word.word64.Holds (value / step * step) := ⟨by omega, by omega⟩
    refine ⟨value / step * step, ?_, .multiple hpos (isGreatest_multiplesUpTo hpos)⟩
    unfold roundDown?
    rw [if_neg hzero, if_pos hfits, Word.wrap_eq_self hfits']

/-! ## Resources of such amounts -/

namespace Resource

variable {f : Dimension → Option Int} {r : Resource} {d : Dimension}

theorem ofWords?_eq_some_iff :
    ofWords? f = some r ↔ ∀ d, (f d).map d.word.wrap = some (r.get d) := by
  constructor
  · exact get_ofWords?
  · intro h
    obtain ⟨m, hm, hm'⟩ := Option.map_eq_some_iff.1 (h .memory)
    obtain ⟨c, hc, hc'⟩ := Option.map_eq_some_iff.1 (h .cpu)
    obtain ⟨g, hg, hg'⟩ := Option.map_eq_some_iff.1 (h .gpuMemory)
    simp only [ofWords?, hm, hc, hg, hm', hc', hg', Option.bind_eq_bind, Option.bind_some]
    apply congrArg some
    apply ext_get
    intro d
    have hholds := r.holds_get d
    rw [get_ofFn]
    cases d <;> exact Word.clamp_eq_self hholds

theorem exists_ofWords? (h : ∀ d, ∃ x, f d = some x) : ∃ r, ofWords? f = some r := by
  choose x hx using h
  refine ⟨ofFn fun d => d.word.wrap (x d), ofWords?_eq_some_iff.2 fun d => ?_⟩
  rw [hx d, get_ofFn, Word.clamp_eq_self Word.holds_wrap, Option.map_some]

end Resource

end Allotment
