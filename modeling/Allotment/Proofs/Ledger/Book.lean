import Allotment.Proofs.Reservation.Load
import Allotment.Reservation.Admission

/-!
# Books

A book is a profile that is kept for a set of reservations under a limit: in every bucket it tells
the exact sum of their peaks, and the sum fits in the limit if it is not zero. Taking a reservation
out leaves a book. Putting one in leaves a book unless some bucket is exceeded, and this is just
what the admission rule finds out, although it reads stored points of the window alone and adds with
saturation: the earliest bucket that it objects to is the earliest one that is exceeded. All of this
is about reservations in time; of any other the rule may read no point at all.
-/

namespace Allotment

open Demand (Interval Step Profile)
open Reservation (totalPeak)

/-- The reservations together need something in the bucket that starts at `b`, and the limit does
not allow it. -/
def Exceeds (s : Step) (rs : List Reservation) (limit : Resource) (b : Int) : Prop :=
  s.ms ∣ b ∧ (∃ d, totalPeak s rs d b ≠ 0) ∧ ∃ d, limit.get d < totalPeak s rs d b

/-- The profile is kept for the reservations under the limit. -/
structure Book (s : Step) (p : Profile) (rs : List Reservation) (limit : Resource) : Prop where
  canonical : p.Canonical s
  exact : ∀ b d, s.ms ∣ b → (p.get b).get d = totalPeak s rs d b
  fits : ∀ b, p.get b = 0 ∨ p.get b ≤ limit

/-- The demand of the bucket is not allowed by the limit. -/
def Offends (p : Profile) (limit : Resource) (b : Int) : Prop :=
  p.get b ≠ 0 ∧ ¬p.get b ≤ limit

variable {p : Profile} {s : Step} {r : Reservation} {rs others : List Reservation}
  {limit : Resource} {window : Interval} {d : Dimension} {b : Int}

/-- What some of the reservations exceed, all of them exceed. -/
theorem Exceeds.mono (h : Exceeds s rs limit b) (hsome : rs.Subperm others)
    (hothers : ∀ r ∈ others, r.Valid) : Exceeds s others limit b := by
  obtain ⟨hb, ⟨d, hne⟩, d', hlt⟩ := h
  have hle : ∀ d, totalPeak s rs d b ≤ totalPeak s others d b :=
    fun d => Reservation.totalPeak_le_of_subperm hsome hothers
  have hnonneg : 0 ≤ totalPeak s rs d b :=
    Reservation.totalPeak_nonneg fun r hr => hothers r (hsome.subset hr)
  refine ⟨hb, ⟨d, ?_⟩, d', Int.lt_of_lt_of_le hlt (hle d')⟩
  have := hle d
  omega

theorem exceeds_perm (hperm : rs.Perm others) :
    Exceeds s rs limit b ↔ Exceeds s others limit b := by
  simp only [Exceeds, Reservation.totalPeak_perm hperm]

/-! ## What the admission rule looks at -/

namespace AdmissionRule

theorem mem_within_iff {x : Int × Resource} :
    x ∈ p.within s window ↔
      x ∈ p.toList ∧ s.align window.start ≤ x.1 ∧ x.1 < window.stop := by
  unfold Profile.within
  rw [List.mem_filter, decide_eq_true_eq]

theorem overrun?_eq_none_iff (hp : p.Reduced) :
    overrun? s window p limit = none ↔
      ∀ b, s.align window.start ≤ b → b < window.stop → ¬Offends p limit b := by
  unfold overrun?
  rw [Option.map_eq_none_iff, List.find?_eq_none]
  constructor
  · rintro h b hstart hstop ⟨hne, hnot⟩
    have hmem : (b, p.get b) ∈ p.within s window :=
      mem_within_iff.2 ⟨Profile.mem_toList_iff.2
        ⟨Profile.mem_of_get_ne_zero hne, rfl⟩, hstart, hstop⟩
    exact h _ hmem (by simpa using hnot)
  · rintro h ⟨b, r⟩ hmem hnot
    obtain ⟨hlist, hstart, hstop⟩ := mem_within_iff.1 hmem
    obtain ⟨hb, rfl⟩ := Profile.mem_toList_iff.1 hlist
    exact h b hstart hstop ⟨hp b hb, by simpa using hnot⟩

/-- The rule names the earliest bucket of the window that offends. -/
theorem overrun?_eq_some (hp : p.Reduced) (hstart : s.align window.start ≤ b)
    (hstop : b < window.stop) (hoffends : Offends p limit b)
    (hfirst : ∀ c < b, ¬Offends p limit c) :
    overrun? s window p limit = some ⟨b, p.get b, limit⟩ := by
  have hmem : (b, p.get b) ∈ p.within s window :=
    mem_within_iff.2 ⟨Profile.mem_toList_iff.2
      ⟨Profile.mem_of_get_ne_zero hoffends.1, rfl⟩, hstart, hstop⟩
  have hsorted : (p.within s window).Pairwise fun x y => x.1 < y.1 :=
    (Demand.pairwise_toList p.points).filter _
  unfold overrun?
  cases hfind : (p.within s window).find? fun x => ¬x.2 ≤ limit with
  | none => exact absurd hoffends.2 (by simpa using List.find?_eq_none.1 hfind _ hmem)
  | some x =>
      obtain ⟨hnot, before, after, hsplit, hpass⟩ := List.find?_eq_some_iff_append.1 hfind
      obtain ⟨hlist, _⟩ := mem_within_iff.1 (List.mem_of_find?_eq_some hfind)
      obtain ⟨hx, hget⟩ := Profile.mem_toList_iff.1 hlist
      -- what stands before `x` passes, and what stands after it is later
      have hle : x.1 ≤ b := by
        rw [hsplit] at hmem hsorted
        rcases List.mem_append.1 hmem with hmem | hmem
        · exact absurd hoffends.2 (by simpa using hpass _ hmem)
        · rcases List.mem_cons.1 hmem with hmem | hmem
          · rw [← hmem]
          · exact Int.le_of_lt
              ((List.pairwise_cons.1 (List.pairwise_append.1 hsorted).2.1).1 _ hmem)
      have hge : b ≤ x.1 := by
        by_contra hlt
        apply hfirst x.1 (Int.not_le.1 hlt)
        exact ⟨hp x.1 hx, by simpa [hget] using hnot⟩
      obtain rfl : x.1 = b := Int.le_antisymm hle hge
      simp [hget]

/-- The limit that the rule sets to the demand of one user. -/
def userBound (rule : AdmissionRule) (capacity : Resource) : Resource :=
  match rule with
  | noOverCommit => Resource.unbounded
  | userShareCap maxShare => userLimit maxShare capacity

theorem le_unbounded (r : Resource) : r ≤ Resource.unbounded := by
  intro d
  rw [Resource.get_unbounded]
  exact (Resource.holds_get r d).2

/-- Both rules look at the total first and at the user second. -/
theorem violation?_eq {rule : AdmissionRule} {capacity : Resource} {total user : Profile} :
    rule.violation? s window capacity total user =
      (overrun? s window total capacity).or
        (overrun? s window user (rule.userBound capacity)) := by
  cases rule with
  | userShareCap maxShare => rfl
  | noOverCommit =>
      have hnone : overrun? s window user Resource.unbounded = none := by
        unfold overrun?
        rw [Option.map_eq_none_iff, List.find?_eq_none]
        intro x _
        simpa using le_unbounded x.2
      simp only [violation?, userBound, hnone, Option.or_none]

end AdmissionRule

/-! ## Exact sums in one dimension -/

/-- In one dimension the profile tells the exact sums of the peaks of the reservations, and nothing
but at the starts of buckets. -/
structure Tells (s : Step) (p : Profile) (rs : List Reservation) (d : Dimension) : Prop where
  exact : ∀ b, s.ms ∣ b → (p.get b).get d = totalPeak s rs d b
  zero : ∀ b, ¬s.ms ∣ b → (p.get b).get d = 0

namespace Tells

theorem perm (h : Tells s p rs d) (hperm : rs.Perm others) : Tells s p others d where
  exact b hb := (h.exact b hb).trans (Reservation.totalPeak_perm hperm)
  zero := h.zero

/-- Where the words hold the sum of the peaks, they hold the loads of each reservation. -/
theorem load_le_greatest {t : Int} (hrs : ∀ x ∈ rs, x.Valid)
    (hsum : totalPeak s (r :: rs) d (s.floor t) ≤ d.word.greatest) :
    r.load d t ≤ d.word.greatest := by
  have hload : r.load d t ≤ r.peak s d (s.floor t) :=
    Reservation.load_le_peak Step.mem_bucket_floor
  have hrest := Reservation.totalPeak_nonneg hrs (s := s) (d := d) (b := s.floor t)
  rw [Reservation.totalPeak_cons] at hsum
  omega

section Steps

variable (hr : r.Valid) (htime : r.InTime s) (hrs : ∀ x ∈ rs, x.Valid)

include hr htime hrs

/-- The candidate tells the sum as far as the word can hold it. -/
theorem get_add (h : Tells s p rs d) (hb : s.ms ∣ b)
    (hload : ∀ t < b, r.load d t ≤ d.word.greatest) :
    ((p + r.profile s).get b).get d = d.word.clamp (totalPeak s (r :: rs) d b) := by
  rw [Profile.get_add, Resource.get_add, h.exact b hb, hr.get_profile htime hb hload,
    Word.clamp_add_clamp (Reservation.totalPeak_nonneg hrs) hr.peak_nonneg,
    Reservation.totalPeak_cons, Int.add_comm]

theorem sub (h : Tells s p (r :: rs) d) (hload : ∀ t, r.load d t ≤ d.word.greatest) :
    Tells s (p - r.profile s) rs d := by
  refine ⟨fun b hb => ?_, fun b hb => ?_⟩
  · have hword := (Resource.holds_get (p.get b) d).2
    have hpeak := hr.peak_nonneg (s := s) (d := d) (b := b)
    have hrest := Reservation.totalPeak_nonneg hrs (s := s) (d := d) (b := b)
    have hsum := h.exact b hb
    rw [Reservation.totalPeak_cons] at hsum
    rw [Profile.get_sub, Resource.get_sub, hr.get_profile_of_le htime hload hb,
      Word.clamp_eq_self_of_le (by omega) (by omega)]
    omega
  · rw [Profile.get_sub, hr.get_profile_of_not_dvd htime hb, Resource.sub_zero, h.zero b hb]

theorem add (h : Tells s p rs d)
    (hsum : ∀ b, s.ms ∣ b → totalPeak s (r :: rs) d b ≤ d.word.greatest) :
    Tells s (p + r.profile s) (r :: rs) d := by
  refine ⟨fun b hb => ?_, fun b hb => ?_⟩
  · have hload : ∀ t, r.load d t ≤ d.word.greatest :=
      fun t => load_le_greatest hrs (hsum _ Step.dvd_floor)
    have hnonneg : 0 ≤ totalPeak s (r :: rs) d b :=
      Reservation.totalPeak_nonneg (List.forall_mem_cons.2 ⟨hr, hrs⟩)
    rw [h.get_add hr htime hrs hb fun t _ => hload t, Word.clamp_eq_self_of_le hnonneg (hsum b hb)]
  · rw [Profile.get_add, hr.get_profile_of_not_dvd htime hb, Resource.add_zero, h.zero b hb]

end Steps

end Tells

/-! ## Keeping a book -/

namespace Book

theorem empty : Book s ∅ [] limit where
  canonical := Profile.canonical_empty
  exact b d _ := by simp [totalPeak]
  fits b := .inl Profile.get_empty

theorem perm (h : Book s p rs limit) (hperm : rs.Perm others) : Book s p others limit where
  canonical := h.canonical
  exact b d hb := (h.exact b d hb).trans (Reservation.totalPeak_perm hperm)
  fits := h.fits

/-- In each dimension a book tells the exact sums. -/
theorem tells (h : Book s p rs limit) (d : Dimension) : Tells s p rs d where
  exact b := h.exact b d
  zero b hb := by rw [h.canonical.get_of_not_dvd hb, Resource.get_zero]

/-- A profile is known by the reservations for which it is kept. -/
theorem eq_of_perm {q : Profile} {bound : Resource} (hp : Book s p rs limit)
    (hq : Book s q others bound) (hperm : rs.Perm others) : p = q := by
  apply hp.canonical.reduced.eq_of_get hq.canonical.reduced
  intro b
  by_cases hb : s.ms ∣ b
  · apply Resource.ext_get
    intro d
    rw [hp.exact b d hb, hq.exact b d hb, Reservation.totalPeak_perm hperm]
  · rw [hp.canonical.get_of_not_dvd hb, hq.canonical.get_of_not_dvd hb]

/-- No bucket of a book is exceeded. -/
theorem not_exceeds (h : Book s p rs limit) : ¬Exceeds s rs limit b := by
  rintro ⟨hb, ⟨d, hne⟩, d', hlt⟩
  rcases h.fits b with hzero | hle
  · rw [← h.exact b d hb, hzero] at hne
    exact hne Resource.get_zero
  · have := hle d'
    rw [h.exact b d' hb] at this
    omega

theorem le_greatest_of_not_exceeds (h : ¬Exceeds s rs limit b) (hb : s.ms ∣ b) (d : Dimension) :
    totalPeak s rs d b ≤ d.word.greatest := by
  by_contra hgt
  have hgreatest := d.word.greatest_pos
  have hlimit := (Resource.holds_get limit d).2
  exact h ⟨hb, ⟨d, by omega⟩, d, by omega⟩

/-- As long as no bucket has been exceeded, the words hold the loads of the proposal. -/
theorem load_le_greatest (hrs : ∀ x ∈ rs, x.Valid) {t : Int}
    (h : ¬Exceeds s (r :: rs) limit (s.floor t)) : r.load d t ≤ d.word.greatest :=
  Tells.load_le_greatest hrs (le_greatest_of_not_exceeds h Step.dvd_floor d)

section Steps

variable (hr : r.Valid) (htime : r.InTime s) (hrs : ∀ x ∈ rs, x.Valid)

include hr htime hrs

/-- Taking a reservation out of a book leaves a book. -/
theorem sub (h : Book s p (r :: rs) limit) (hfaithful : r.Faithful) :
    Book s (p - r.profile s) rs limit := by
  have hexact : ∀ b d, s.ms ∣ b → ((p - r.profile s).get b).get d = totalPeak s rs d b :=
    fun b d => ((h.tells d).sub hr htime hrs (hfaithful d)).exact b
  have hcanonical : (p - r.profile s).Canonical s :=
    h.canonical.sub fun _ => hr.starts_of_mem_profile htime
  refine ⟨hcanonical, hexact, fun b => ?_⟩
  by_cases hb : s.ms ∣ b
  · have hle : ∀ d, totalPeak s rs d b ≤ (p.get b).get d := by
      intro d
      have hpeak := hr.peak_nonneg (s := s) (d := d) (b := b)
      rw [h.exact b d hb, Reservation.totalPeak_cons]
      omega
    rcases h.fits b with hzero | hfits
    · left
      apply Resource.ext_get
      intro d
      have hrest := Reservation.totalPeak_nonneg hrs (s := s) (d := d) (b := b)
      have hle := hle d
      rw [hzero, Resource.get_zero] at hle
      rw [hexact b d hb, Resource.get_zero]
      omega
    · right
      intro d
      rw [hexact b d hb]
      exact Int.le_trans (hle d) (hfits d)
  · exact .inl (hcanonical.get_of_not_dvd hb)

/-! ## Putting a reservation into a book -/

omit hrs in
theorem canonical_add (h : Book s p rs limit) : (p + r.profile s).Canonical s :=
  h.canonical.add fun _ => hr.starts_of_mem_profile htime

omit hrs in
theorem dvd_of_offends_add (h : Book s p rs limit) (hoffends : Offends (p + r.profile s) limit b) :
    s.ms ∣ b :=
  ((h.canonical_add hr htime).aligned b (Profile.mem_of_get_ne_zero hoffends.1)).1

/-- Up to the first bucket that is exceeded, the candidate tells the exact sum as far as the words
can hold it. -/
theorem get_add (h : Book s p rs limit) (hb : s.ms ∣ b)
    (hbefore : ∀ c < b, ¬Exceeds s (r :: rs) limit c) :
    ((p + r.profile s).get b).get d = d.word.clamp (totalPeak s (r :: rs) d b) := by
  have hload : ∀ t < b, r.load d t ≤ d.word.greatest := by
    intro t ht
    exact load_le_greatest hrs (hbefore _ (Int.lt_of_le_of_lt Step.floor_le ht))
  exact (h.tells d).get_add hr htime hrs hb hload

/-- Up to the first bucket that is exceeded, a bucket offends if and only if it is exceeded. -/
theorem offends_add_iff (h : Book s p rs limit)
    (hlimit : ∀ d, d.word.greatest < totalPeak s (r :: rs) d b → limit.get d < d.word.greatest)
    (hb : s.ms ∣ b) (hbefore : ∀ c < b, ¬Exceeds s (r :: rs) limit c) :
    Offends (p + r.profile s) limit b ↔ Exceeds s (r :: rs) limit b := by
  have hnonneg : ∀ d, 0 ≤ totalPeak s (r :: rs) d b := fun d =>
    Reservation.totalPeak_nonneg (by simpa using ⟨hr, hrs⟩)
  have hget := fun d => h.get_add hr htime hrs hb hbefore (d := d)
  have hzero : (p + r.profile s).get b ≠ 0 ↔ ∃ d, totalPeak s (r :: rs) d b ≠ 0 := by
    rw [Ne, Resource.ext_get_iff, not_forall]
    apply exists_congr
    intro d
    rw [hget, Resource.get_zero, Word.clamp_eq_zero_iff]
  have hover : ¬(p + r.profile s).get b ≤ limit ↔ ∃ d, limit.get d < totalPeak s (r :: rs) d b := by
    rw [Resource.le_iff, not_forall]
    apply exists_congr
    intro d
    rw [hget, Int.not_le, Word.lt_clamp_iff (hnonneg d) (hlimit d)]
  unfold Offends Exceeds
  rw [hzero, hover, and_iff_right hb]

omit htime hrs in
/-- Only buckets that meet the window of the proposal can be exceeded by it. -/
theorem within_window_of_exceeds (h : Book s p rs limit)
    (hexceeds : Exceeds s (r :: rs) limit b) :
    s.floor r.window.start ≤ b ∧ b < r.window.stop := by
  have hpeak : ∃ d, r.peak s d b ≠ 0 := by
    by_contra hnone
    have hsame : ∀ d, totalPeak s (r :: rs) d b = totalPeak s rs d b := by
      intro d
      rw [Reservation.totalPeak_cons, Decidable.not_not.1 (not_exists.1 hnone d), Int.zero_add]
    unfold Exceeds at hexceeds
    simp only [hsame] at hexceeds
    exact h.not_exceeds hexceeds
  obtain ⟨d, hd⟩ := hpeak
  exact hr.within_window_of_peak_ne_zero hexceeds.1 hd

/-- If no bucket is exceeded, the rule finds no fault. -/
theorem overrun?_eq_none (h : Book s p rs limit)
    (hlimit : ∀ b d, s.ms ∣ b → d.word.greatest < totalPeak s (r :: rs) d b →
      limit.get d < d.word.greatest)
    (hnone : ∀ b, ¬Exceeds s (r :: rs) limit b) :
    AdmissionRule.overrun? s r.window (p + r.profile s) limit = none := by
  rw [AdmissionRule.overrun?_eq_none_iff (h.canonical_add hr htime).reduced]
  intro b _ _ hoffends
  have hb := h.dvd_of_offends_add hr htime hoffends
  exact hnone b ((h.offends_add_iff hr htime hrs (fun d => hlimit b d hb) hb
    fun c _ => hnone c).1 hoffends)

/-- If some bucket is exceeded, the rule names the earliest of them and the demand there. -/
theorem overrun?_eq_some (h : Book s p rs limit)
    (hlimit : ∀ b d, s.ms ∣ b → d.word.greatest < totalPeak s (r :: rs) d b →
      limit.get d < d.word.greatest)
    (hsome : ∃ b, Exceeds s (r :: rs) limit b) :
    ∃ b, IsLeast {b | Exceeds s (r :: rs) limit b} b ∧
      AdmissionRule.overrun? s r.window (p + r.profile s) limit =
        some ⟨b, Resource.ofFn fun d => totalPeak s (r :: rs) d b, limit⟩ := by
  obtain ⟨b, hb, hleast⟩ := Int.exists_least_of_bdd
    ⟨_, fun c hc => (h.within_window_of_exceeds hr hc).1⟩ hsome
  have hbefore : ∀ c < b, ¬Exceeds s (r :: rs) limit c :=
    fun c hc hexceeds => absurd (hleast c hexceeds) (Int.not_le.2 hc)
  have hdemand : (p + r.profile s).get b = Resource.ofFn fun d => totalPeak s (r :: rs) d b := by
    apply Resource.ext_get
    intro d
    rw [h.get_add hr htime hrs hb.1 hbefore, Resource.get_ofFn]
  obtain ⟨hstart, hstop⟩ := h.within_window_of_exceeds hr hb
  refine ⟨b, ⟨hb, fun c hc => hleast c hc⟩, ?_⟩
  rw [← hdemand]
  rw [← hr.align_start htime] at hstart
  apply AdmissionRule.overrun?_eq_some (h.canonical_add hr htime).reduced hstart hstop
  · exact (h.offends_add_iff hr htime hrs (fun d => hlimit b d hb.1) hb.1 hbefore).2 hb
  · intro c hc hoffends
    have hdvd := h.dvd_of_offends_add hr htime hoffends
    exact hbefore c hc ((h.offends_add_iff hr htime hrs (fun d => hlimit c d hdvd) hdvd
      fun e he => hbefore e (Int.lt_trans he hc)).1 hoffends)

/-- If no bucket is exceeded, putting the reservation in leaves a book. -/
theorem add (h : Book s p rs limit) (hnone : ∀ b, ¬Exceeds s (r :: rs) limit b) :
    Book s (p + r.profile s) (r :: rs) limit := by
  have hexact : ∀ b d, s.ms ∣ b →
      ((p + r.profile s).get b).get d = totalPeak s (r :: rs) d b :=
    fun b d => ((h.tells d).add hr htime hrs
      fun c hc => le_greatest_of_not_exceeds (hnone c) hc d).exact b
  have hcanonical := h.canonical_add hr htime
  refine ⟨hcanonical, hexact, fun b => ?_⟩
  by_cases hb : s.ms ∣ b
  · by_cases hzero : ∃ d, totalPeak s (r :: rs) d b ≠ 0
    · right
      intro d
      rw [hexact b d hb]
      by_contra hgt
      exact hnone b ⟨hb, hzero, d, Int.not_le.1 hgt⟩
    · left
      apply Resource.ext_get
      intro d
      rw [hexact b d hb, Resource.get_zero]
      exact Decidable.not_not.1 (not_exists.1 hzero d)
  · exact .inl (hcanonical.get_of_not_dvd hb)

end Steps

end Book

end Allotment
