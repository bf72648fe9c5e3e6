import Allotment.Proofs.Ledger.Balance

/-!
# No over-commitment

Whatever is asked of a ledger in time, and however the requests are mixed, what its reservations ask
for together stays within the capacity at every single instant, not only at the starts of buckets.
If the rule caps the share of a user, what the reservations of any one user ask for stays within the
limit likewise, whoever made the requests.
-/

namespace Allotment.Ledger

open Demand (Step Profile)
open Reservation (totalLoad)

variable {l : Ledger} {rs : List Reservation}

/-- In a book the loads of any instant fit in the limit, unless nothing is asked for. -/
theorem load_fits_of_book {s : Step} {p : Profile} {limit : Resource} (h : Book s p rs limit)
    (hrs : ∀ r ∈ rs, r.Valid) (t : Int) :
    (∀ d, totalLoad rs d t = 0) ∨ ∀ d, totalLoad rs d t ≤ limit.get d := by
  have hle : ∀ d, totalLoad rs d t ≤ (p.get (s.floor t)).get d := by
    intro d
    rw [h.exact _ d Step.dvd_floor]
    exact Reservation.totalLoad_le_totalPeak Step.mem_bucket_floor
  rcases h.fits (s.floor t) with hzero | hfits
  · left
    intro d
    have hload := hle d
    have hnonneg := Reservation.totalLoad_nonneg hrs (d := d) (t := t)
    rw [hzero, Resource.get_zero] at hload
    omega
  · right
    exact fun d => Int.le_trans (hle d) (hfits d)

variable {queue : String} {ms : Int} {capacity : Resource} {ops : List Operation}

/-- The terms on which a ledger was opened stay with every run, and a run in time keeps the
balance. -/
theorem balanced_run {rule : AdmissionRule} (hopen : open? queue ms capacity rule = .ok l)
    (hbounded : ∀ d, capacity.get d < d.word.greatest)
    (hops : ∀ op ∈ ops, op.InTime l.terms.step) :
    (l.run ops).terms.capacity = capacity ∧ (l.run ops).terms.rule = rule ∧
      (l.run ops).Balanced := by
  have htimely : (l.run ops).Timely := Timely.run (.opened hopen) hops
  have hterms : (l.run ops).terms = l.terms := (Reachable.opened hopen).keyed.terms_run ops
  obtain ⟨_, rfl⟩ := open?_eq_ok hopen
  refine ⟨by rw [hterms]; rfl, by rw [hterms]; rfl, htimely.balanced ?_⟩
  unfold Terms.Bounded
  rw [hterms]
  exact hbounded

/-- **No over-commitment.** After any operations in time, at any instant, the exact sum of all
demands is zero or fits in the capacity. -/
theorem run_never_over_commits {rule : AdmissionRule}
    (hopen : open? queue ms capacity rule = .ok l)
    (hbounded : ∀ d, capacity.get d < d.word.greatest) (ops : List Operation)
    (hops : ∀ op ∈ ops, op.InTime l.terms.step) (t : Int) :
    (∀ d, totalLoad (l.run ops).admitted d t = 0) ∨
      ∀ d, totalLoad (l.run ops).admitted d t ≤ capacity.get d := by
  obtain ⟨hcapacity, _, hbalanced⟩ := balanced_run hopen hbounded hops
  rw [← hcapacity]
  exact load_fits_of_book hbalanced.total hbalanced.valid t

/-- The sample requests fill the capacity up, and do not pass it. -/
theorem requests_never_over_commit :
    totalLoad Sample.ledger.admitted .memory 25 = Sample.terms.capacity.get .memory ∧
      ∀ t, (∀ d, totalLoad Sample.ledger.admitted d t = 0) ∨
        ∀ d, totalLoad Sample.ledger.admitted d t ≤ Sample.terms.capacity.get d := by
  refine ⟨by decide +kernel, fun t => ?_⟩
  exact run_never_over_commits Sample.open?_terms Sample.bounded_terms Sample.requests (by decide) t

/-! ## The share of a user -/

/-- **No user passes the limit.** After any operations in time, at any instant, the exact sum of the
demands of one user is zero or fits in the limit. -/
theorem run_never_passes_user_limit {maxShare : Float}
    (hopen : open? queue ms capacity (.userShareCap maxShare) = .ok l)
    (hbounded : ∀ d, capacity.get d < d.word.greatest) (ops : List Operation)
    (hops : ∀ op ∈ ops, op.InTime l.terms.step) (user : String) (t : Int) :
    (∀ d, totalLoad ((l.run ops).ownedBy user) d t = 0) ∨
      ∀ d, totalLoad ((l.run ops).ownedBy user) d t ≤
        (AdmissionRule.userLimit maxShare capacity).get d := by
  obtain ⟨hcapacity, hrule, hbalanced⟩ := balanced_run hopen hbounded hops
  have hbook := hbalanced.user user
  rw [hcapacity, hrule] at hbook
  exact load_fits_of_book hbook hbalanced.valid_ownedBy t

namespace Sample

def sharedTerms : Terms :=
  { terms with rule := .userShareCap 0.5 }

/-- Asks for the whole share of `u1` from the middle of a bucket on. -/
def wholeShare : Reservation :=
  ⟨⟨4⟩, "u1", "dedicated", ⟨5, 30⟩, .ofList [(⟨5, 30⟩, .ofAmounts 50 2 5)]⟩

/-- Fits beside `wholeShare` for any user but `u1`. -/
def beside (id : ReservationId) (user : String) : Reservation :=
  ⟨id, user, "dedicated", ⟨0, 20⟩, .ofList [(⟨0, 20⟩, .ofAmounts 30 1 0)]⟩

/-- The second is refused because `u1` has nothing left, the last because `u2` has not enough. -/
def sharedRequests : List Operation :=
  [.add wholeShare, .add (beside ⟨5⟩ "u1"), .add (beside ⟨6⟩ "u2"), .add (beside ⟨7⟩ "u2")]

end Sample

/-- Of the sample requests `u1` is left with exactly the limit, and `u2` with less than it. -/
theorem shared_requests_never_pass_user_limit :
    totalLoad (((empty Sample.sharedTerms).run Sample.sharedRequests).ownedBy "u1") .memory 25 =
        (AdmissionRule.userLimit 0.5 (.ofAmounts 100 10 10)).get .memory ∧
      ((empty Sample.sharedTerms).run Sample.sharedRequests).size = 2 ∧
      ∀ user t, (∀ d, totalLoad (((empty Sample.sharedTerms).run
          Sample.sharedRequests).ownedBy user) d t = 0) ∨
        ∀ d, totalLoad (((empty Sample.sharedTerms).run Sample.sharedRequests).ownedBy user) d t ≤
          (AdmissionRule.userLimit 0.5 (.ofAmounts 100 10 10)).get d := by
  refine ⟨by decide +kernel, by decide +kernel, fun user t => ?_⟩
  have hopen : open? "dedicated" 10 (.ofAmounts 100 10 10) (.userShareCap 0.5) =
      .ok (empty Sample.sharedTerms) := rfl
  have hbounded : ∀ d : Dimension, (Resource.ofAmounts 100 10 10).get d < d.word.greatest :=
    Sample.bounded_terms
  exact run_never_passes_user_limit hopen hbounded Sample.sharedRequests (by decide) user t

/-- Asked for ten times the capacity from the least instant on, the ledger takes it on. -/
theorem early_passes_user_limit :
    open? "dedicated" 10 (.ofAmounts 100 10 10) (.userShareCap 0.5) =
        .ok (empty Sample.sharedTerms) ∧
      (∀ d : Dimension, (Resource.ofAmounts 100 10 10).get d < d.word.greatest) ∧
      ¬((∀ d, totalLoad (((empty Sample.sharedTerms).run
            [.add (Sample.early ⟨1⟩ ⟨0, 10⟩ (.ofAmounts 1000 100 100))]).ownedBy "u1") d 0 = 0) ∨
        ∀ d, totalLoad (((empty Sample.sharedTerms).run
            [.add (Sample.early ⟨1⟩ ⟨0, 10⟩ (.ofAmounts 1000 100 100))]).ownedBy "u1") d 0 ≤
          (AdmissionRule.userLimit 0.5 (.ofAmounts 100 10 10)).get d) := by
  refine ⟨rfl, Sample.bounded_terms, ?_⟩
  rintro (hnone | hfits)
  · exact absurd (hnone .memory) (by decide +kernel)
  · exact absurd (hfits .memory) (by decide +kernel)

end Allotment.Ledger
