import Allotment.Proofs.Resource.Multiples

/-!
# Resources rounded to steps

Whatever the yardstick, rounding down brackets from below. Rounding up brackets from above in the
dimensions that are held in the 64-bit word in which the multiples are worked out. Cores are held in
a narrower word, and of a multiple that it cannot hold only the low bits are kept: it comes out
below zero.
-/

namespace Allotment.Resource

variable {r step down up again : Resource} {d : Dimension}

/-! ## Rounding down -/

theorem roundDown?_eq_some_iff (hr : 0 ≤ r) (hstep : 0 ≤ step) :
    r.roundDown? step = some down ↔ ∀ d, RoundsDown (r.get d) (step.get d) (down.get d) := by
  unfold roundDown?
  rw [ofWords?_eq_some_iff]
  apply forall_congr'
  intro d
  have hnonneg := get_nonneg hr d
  have hholds := r.holds_get d
  obtain ⟨x, hround, hx⟩ :=
    roundDown?_roundsDown (r.holds_word64 d) hnonneg (get_nonneg hstep d)
  have hle := hx.le
  have hpos := hx.nonneg hnonneg
  have hwrap : d.word.wrap x = x := by
    have hleast := d.word.least_eq
    simp only [Word.Holds] at hholds
    exact Word.wrap_eq_self ⟨by omega, by omega⟩
  simp only [hround, Option.map_some, Option.some.injEq, hwrap]
  constructor
  · rintro rfl
    exact hx
  · exact hx.unique

theorem exists_roundDown? (hr : 0 ≤ r) (hstep : 0 ≤ step) :
    ∃ down, r.roundDown? step = some down := by
  apply exists_ofWords?
  intro d
  obtain ⟨x, hround, -⟩ :=
    roundDown?_roundsDown (r.holds_word64 d) (get_nonneg hr d) (get_nonneg hstep d)
  exact ⟨x, hround⟩

/-! ## Rounding up -/

theorem roundUp?_eq_some_iff (hstep : 0 ≤ step) :
    r.roundUp? step = some up ↔
      ∀ d, ∃ x, RoundsUp .word64 (r.get d) (step.get d) x ∧ up.get d = d.word.wrap x := by
  unfold roundUp?
  rw [ofWords?_eq_some_iff]
  apply forall_congr'
  intro d
  have hbound := (r.holds_word64 d).2
  obtain ⟨x, hround, hx⟩ := roundUp?_roundsUp (r.holds_word64 d) (get_nonneg hstep d)
  simp only [hround, Option.map_some, Option.some.injEq]
  constructor
  · intro h
    exact ⟨x, hx, h.symm⟩
  · rintro ⟨z, hz, hup⟩
    rw [hup, hx.unique hbound hz]

theorem exists_roundUp? (hstep : 0 ≤ step) (r : Resource) : ∃ up, r.roundUp? step = some up := by
  apply exists_ofWords?
  intro d
  obtain ⟨x, hround, -⟩ := roundUp?_roundsUp (r.holds_word64 d) (get_nonneg hstep d)
  exact ⟨x, hround⟩

/-- The low bits are the whole amount if it is not too large for the word of the dimension. -/
theorem get_roundUp? (hstep : 0 ≤ step) (hup : r.roundUp? step = some up) {x : Int}
    (hx : RoundsUp .word64 (r.get d) (step.get d) x) (hfits : x ≤ d.word.greatest) :
    up.get d = x := by
  have hbound := (r.holds_word64 d).2
  obtain ⟨z, hz, hget⟩ := (roundUp?_eq_some_iff hstep).1 hup d
  obtain rfl : z = x := hz.unique hbound hx
  rw [hget]
  exact Word.wrap_eq_self ⟨Int.le_trans (r.holds_get d).1 (hz.le hbound), hfits⟩

theorem roundsUp_of_fits {x : Int} (hx : RoundsUp .word64 (r.get d) (step.get d) x)
    (hfits : x ≤ d.word.greatest) : RoundsUp d.word (r.get d) (step.get d) x := by
  cases d with
  | memory => exact hx
  | cpu => exact hx.narrow hfits (by decide)
  | gpuMemory => exact hx

/-- Only of cores a multiple may be held in the 64-bit word and not in the word of the dimension. -/
theorem fits_of_ne_cpu {x : Int} (hd : d ≠ .cpu) (hx : RoundsUp .word64 (r.get d) (step.get d) x) :
    x ≤ d.word.greatest := by
  have hle := hx.le_greatest (r.holds_word64 d).2
  cases d with
  | memory => exact hle
  | cpu => contradiction
  | gpuMemory => exact hle

theorem settles_of_fits (hstep : 0 ≤ step) (hup : r.roundUp? step = some up)
    (hagain : up.roundUp? step = some again) {x : Int}
    (hx : RoundsUp .word64 (r.get d) (step.get d) x) (hfits : x ≤ d.word.greatest) :
    r.get d ≤ up.get d ∧ RoundsUp d.word (r.get d) (step.get d) (up.get d) ∧
      again.get d = up.get d := by
  have hbound := (r.holds_word64 d).2
  have hsame : up.get d = x := get_roundUp? hstep hup hx hfits
  have hstays : RoundsUp .word64 (up.get d) (step.get d) x := by
    rw [hsame]
    exact hx.again hbound
  rw [get_roundUp? hstep hagain hstays hfits, hsame]
  exact ⟨hx.le hbound, roundsUp_of_fits hx hfits, rfl⟩

theorem cores_lt_modulus {x : Int}
    (hx : RoundsUp .word64 (r.get .cpu) (step.get .cpu) x) : x < Word.word32.modulus := by
  have hr := (r.holds_get .cpu).2
  have hstep := (step.holds_get .cpu).2
  simp only [Dimension.word, Word.greatest, Word.modulus] at hr hstep ⊢
  cases hx with
  | asIs => omega
  | multiple hpos hm =>
      have hlt := lt_add_of_isLeast hpos hm
      omega
  | beyond hpos hm hbeyond =>
      have hlt := lt_add_of_isLeast hpos hm
      simp only [Word.greatest] at hbeyond
      omega

theorem wrap_of_greatest_lt {x : Int} (hbeyond : Word.word32.greatest < x)
    (hlt : x < Word.word32.modulus) : Word.word32.wrap x = x - Word.word32.modulus := by
  simp only [Word.greatest, Word.modulus, Word.wrap, Int.bmod] at hbeyond hlt ⊢
  omega

/-- **Rounding brackets a resource until its cores overflow**: down to the greatest multiples below
it, up to the least ones above it if the word of cores holds theirs. -/
theorem rounding_brackets_until_cores_overflow (hr : 0 ≤ r) (hstep : 0 ≤ step) :
    (∃ down, r.roundDown? step = some down ∧ down ≤ r ∧
      (∀ d, RoundsDown (r.get d) (step.get d) (down.get d)) ∧ down.roundDown? step = some down) ∧
    ∃ up again, r.roundUp? step = some up ∧ up.roundUp? step = some again ∧
      (∀ d, d ≠ .cpu → r.get d ≤ up.get d ∧ RoundsUp d.word (r.get d) (step.get d) (up.get d) ∧
        again.get d = up.get d) ∧
      ∃ cores, RoundsUp .word64 (r.get .cpu) (step.get .cpu) cores ∧
        (cores ≤ Word.word32.greatest →
          r ≤ up ∧ (∀ d, RoundsUp d.word (r.get d) (step.get d) (up.get d)) ∧ again = up) ∧
        (Word.word32.greatest < cores →
          up.get .cpu = cores - Word.word32.modulus ∧ up.get .cpu < 0) := by
  constructor
  · obtain ⟨down, hdown⟩ := exists_roundDown? hr hstep
    have hget := (roundDown?_eq_some_iff hr hstep).1 hdown
    have hnonneg : 0 ≤ down := by
      intro d
      rw [get_zero]
      exact (hget d).nonneg (get_nonneg hr d)
    exact ⟨down, hdown, fun d => (hget d).le, hget,
      (roundDown?_eq_some_iff hnonneg hstep).2 fun d => (hget d).again⟩
  · obtain ⟨up, hup⟩ := exists_roundUp? hstep r
    obtain ⟨again, hagain⟩ := exists_roundUp? hstep up
    have hget := (roundUp?_eq_some_iff hstep).1 hup
    have hothers (d : Dimension) (hd : d ≠ .cpu) : r.get d ≤ up.get d ∧
        RoundsUp d.word (r.get d) (step.get d) (up.get d) ∧ again.get d = up.get d := by
      obtain ⟨x, hx, -⟩ := hget d
      exact settles_of_fits hstep hup hagain hx (fits_of_ne_cpu hd hx)
    obtain ⟨cores, hcores, hcpu⟩ := hget .cpu
    refine ⟨up, again, hup, hagain, hothers, cores, hcores, fun hfits => ?_, fun hbeyond => ?_⟩
    · have hall (d : Dimension) : r.get d ≤ up.get d ∧
          RoundsUp d.word (r.get d) (step.get d) (up.get d) ∧ again.get d = up.get d := by
        by_cases hd : d = .cpu
        · rw [hd]
          exact settles_of_fits hstep hup hagain hcores hfits
        · exact hothers d hd
      exact ⟨fun d => (hall d).1, fun d => (hall d).2.1, ext_get fun d => (hall d).2.2⟩
    · have hlt := cores_lt_modulus hcores
      have hwrap : up.get .cpu = cores - Word.word32.modulus :=
        hcpu.trans (wrap_of_greatest_lt hbeyond hlt)
      exact ⟨hwrap, by omega⟩

/-- All host memory goes up to what no word holds, the cores to what their word holds, and GPU
memory has no step. -/
theorem sample_rounding_brackets :
    let r := ofAmounts 9223372036854775807 3 77
    let step := ofAmounts 1024 2 0
    0 ≤ r ∧ 0 ≤ step ∧
      (∃ down, r.roundDown? step = some down ∧ down ≤ r ∧
        down = ofAmounts 9223372036854774784 2 77) ∧
      ∃ up, r.roundUp? step = some up ∧ r ≤ up ∧
        up = ofAmounts 9223372036854775807 4 77 ∧ up.roundUp? step = some up := by
  intro r step
  have hr : 0 ≤ r := by decide
  have hstep : 0 ≤ step := by decide
  obtain ⟨⟨down, hdown, hle, -⟩, up, again, hup, hagain, -, cores, hcores, hfit, -⟩ :=
    rounding_brackets_until_cores_overflow hr hstep
  have hfour : cores = 4 := by
    have hround : Allotment.roundUp? 3 2 = some cores :=
      roundUp?_eq_some (by decide) (by decide) hcores
    have hvalue : Allotment.roundUp? 3 2 = some 4 := by decide
    exact Option.some.inj (hround.symm.trans hvalue)
  obtain ⟨hbracket, -, hsame⟩ := hfit (by rw [hfour]; decide)
  have hdown' : r.roundDown? step = some (ofAmounts 9223372036854774784 2 77) := by
    decide +kernel
  have hup' : r.roundUp? step = some (ofAmounts 9223372036854775807 4 77) := by
    decide +kernel
  exact ⟨hr, hstep, ⟨down, hdown, hle, Option.some.inj (hdown.symm.trans hdown')⟩, up, hup,
    hbracket, Option.some.inj (hup.symm.trans hup'), hsame ▸ hagain⟩

/-- The cores of the largest resource are no multiple of three. Rounded up they come out below zero.
-/
theorem unbounded_cores_overflow :
    let step := ofAmounts 1024 3 0
    let up := ofAmounts 9223372036854775807 (-2147483647) 9223372036854775807
    0 ≤ unbounded ∧ 0 ≤ step ∧ unbounded.roundUp? step = some up ∧ ¬unbounded ≤ up ∧
      ¬RoundsUp .word32 (unbounded.get .cpu) (step.get .cpu) (up.get .cpu) ∧
      up.roundUp? step ≠ some up := by
  intro step up
  have hoverflow : ¬RoundsUp .word32 2147483647 3 (-2147483647) := by
    intro h
    have hle := h.le (by decide)
    omega
  exact ⟨by decide, by decide, by decide +kernel, by decide, hoverflow, by decide +kernel⟩

end Allotment.Resource
