import Allotment.Proofs.Resource.Multiples

/-!
# Normalized resources

A request is raised to what is handed out at least, rounded up to what is handed out at a time, and
capped at what is handed out at most, in the same way under every yardstick. What comes out lies
between the request or the cap and the cap, which are amounts of the same dimension: so no word
drops a bit, although the amounts are worked out in 64-bit words.
-/

namespace Allotment.Resource

variable {r r' n n' lower upper increment : Resource} {d : Dimension}

/-- An amount raised to at least `lower` is rounded up to `x`. -/
def RaisesTo (r lower increment : Resource) (d : Dimension) (x : Int) : Prop :=
  RoundsUp .word64 (max (r.get d) (lower.get d)) (increment.get d) x

theorem holds_raised (r lower : Resource) (d : Dimension) :
    Word.word64.Holds (max (r.get d) (lower.get d)) := by
  have hr := r.holds_word64 d
  have hlower := lower.holds_word64 d
  simp only [Word.Holds] at hr hlower ⊢
  omega

theorem exists_raisesTo (hincrement : 0 ≤ increment) (r lower : Resource) (d : Dimension) :
    ∃ x, Allotment.roundUp? (max (r.get d) (lower.get d)) (increment.get d) = some x ∧
      r.RaisesTo lower increment d x :=
  roundUp?_roundsUp (holds_raised r lower d) (get_nonneg hincrement d)

/-- A cap brings an amount back into the word of its dimension. -/
theorem wrap_capped {x : Int} (hx : r.RaisesTo lower increment d x) (upper : Resource) :
    d.word.wrap (min x (upper.get d)) = min x (upper.get d) := by
  have hle := hx.le (holds_raised r lower d).2
  have hr := r.holds_get d
  have hupper := upper.holds_get d
  apply Word.wrap_eq_self
  simp only [Word.Holds] at hr hupper ⊢
  omega

/-- In each dimension the request, raised and rounded up, or the cap: nothing else comes out, and
something always does. -/
theorem normalize?_eq_some_iff (hincrement : 0 ≤ increment) :
    r.normalize? lower upper increment = some n ↔
      ∀ d, ∃ x, r.RaisesTo lower increment d x ∧ n.get d = min x (upper.get d) := by
  unfold normalize?
  rw [ofWords?_eq_some_iff]
  apply forall_congr'
  intro d
  obtain ⟨x, hround, hx⟩ := exists_raisesTo hincrement r lower d
  simp only [hround, Option.map_some, Option.some.injEq, wrap_capped hx upper]
  constructor
  · intro h
    exact ⟨x, hx, h.symm⟩
  · rintro ⟨z, hz, hn⟩
    rw [hn, hz.unique (holds_raised r lower d).2 hx]

theorem exists_normalize? (hincrement : 0 ≤ increment) (r lower upper : Resource) :
    ∃ n, r.normalize? lower upper increment = some n := by
  apply exists_ofWords?
  intro d
  obtain ⟨x, hround, -⟩ := exists_raisesTo hincrement r lower d
  exact ⟨min x (upper.get d), by rw [hround, Option.map_some]⟩

/-! ## What has been normalized -/

theorem normalize?_idempotent (hincrement : 0 ≤ increment)
    (hn : r.normalize? lower upper increment = some n) :
    n.normalize? lower upper increment = some n := by
  rw [normalize?_eq_some_iff hincrement] at hn ⊢
  intro d
  obtain ⟨x, hx, hget⟩ := hn d
  have hle := hx.le (holds_raised r lower d).2
  by_cases hcap : x ≤ upper.get d
  · -- nothing is raised, as the amount was raised to the least already
    have hsame : n.get d = x := by omega
    refine ⟨x, ?_, hget⟩
    exact hx.of_between (by omega) (by omega)
  · obtain ⟨z, -, hz⟩ := exists_raisesTo hincrement n lower d
    have habove := hz.le (holds_raised n lower d).2
    exact ⟨z, hz, by omega⟩

theorem normalize?_mono (hincrement : 0 ≤ increment) (hle : r ≤ r')
    (hn : r.normalize? lower upper increment = some n)
    (hn' : r'.normalize? lower upper increment = some n') : n ≤ n' := by
  rw [normalize?_eq_some_iff hincrement] at hn hn'
  intro d
  obtain ⟨x, hx, hget⟩ := hn d
  obtain ⟨x', hx', hget'⟩ := hn' d
  have hraised : max (r.get d) (lower.get d) ≤ max (r'.get d) (lower.get d) := by
    have hrle := hle d
    omega
  have hxle := hx.mono hraised hx' (holds_raised r' lower d).2
  omega

/-- **Normalizing keeps its promises.** It gives the upper bound or, if that is less, the least
multiple of the increment that is not below the request and the lower bound. -/
theorem normalize_keeps_promises (r lower upper : Resource) (hincrement : 0 ≤ increment) :
    ∃ n, r.normalize? lower upper increment = some n ∧
      (∀ d, ∃ x, RoundsUp .word64 (max (r.get d) (lower.get d)) (increment.get d) x ∧
        n.get d = min x (upper.get d)) ∧
      n ≤ upper ∧ (∀ d, lower.get d ≤ upper.get d → lower.get d ≤ n.get d) ∧
      (∀ d, 0 < increment.get d → increment.get d ∣ n.get d ∨ n.get d = upper.get d) ∧
      n.normalize? lower upper increment = some n ∧
      ∀ r', r ≤ r' → ∃ n', r'.normalize? lower upper increment = some n' ∧ n ≤ n' := by
  obtain ⟨n, hn⟩ := exists_normalize? hincrement r lower upper
  have hget := (normalize?_eq_some_iff hincrement).1 hn
  refine ⟨n, hn, hget, ?_, ?_, ?_, normalize?_idempotent hincrement hn, ?_⟩
  · intro d
    obtain ⟨x, -, hcap⟩ := hget d
    omega
  · intro d hbounds
    obtain ⟨x, hx, hcap⟩ := hget d
    have hle := hx.le (holds_raised r lower d).2
    omega
  · intro d hpos
    obtain ⟨x, hx, hcap⟩ := hget d
    have hupper := (upper.holds_word64 d).2
    by_cases hless : x < upper.get d
    · left
      have hsame : n.get d = x := by omega
      obtain hdvd | hgreatest := hx.dvd_or_eq hpos
      · rwa [hsame]
      · omega
    · right
      omega
  · intro r' hle
    obtain ⟨n', hn'⟩ := exists_normalize? hincrement r' lower upper
    exact ⟨n', hn', normalize?_mono hincrement hle hn hn'⟩

/-- Of memory no word holds a multiple, of cores only the 64-bit word does, and of GPU memory the
lower bound is below zero. -/
theorem sample_normalize_keeps_promises :
    let lower := ofAmounts 1024 1 (-256)
    let upper := ofAmounts 9223372036854775807 2147483647 100
    let increment := ofAmounts 1024 2 7
    0 ≤ increment ∧
      ∃ n, (ofAmounts 9223372036854775800 2147483647 (-300)).normalize? lower upper increment =
          some n ∧
        n ≤ upper ∧ lower.get .gpuMemory ≤ n.get .gpuMemory ∧
        n = ofAmounts 9223372036854775807 2147483647 (-252) ∧
        n.normalize? lower upper increment = some n := by
  intro lower upper increment
  have hincrement : 0 ≤ increment := by decide
  obtain ⟨n, hn, -, hupper, hlower, -, hagain, -⟩ := normalize_keeps_promises
    (ofAmounts 9223372036854775800 2147483647 (-300)) lower upper hincrement
  have hvalue : (ofAmounts 9223372036854775800 2147483647 (-300)).normalize? lower upper increment =
      some (ofAmounts 9223372036854775807 2147483647 (-252)) := by decide +kernel
  refine ⟨hincrement, n, hn, hupper, hlower .gpuMemory (by decide), ?_, hagain⟩
  exact Option.some.inj (hn.symm.trans hvalue)

end Allotment.Resource
