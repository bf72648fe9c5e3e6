import Allotment.Proofs.Ledger.Book
import Allotment.Proofs.Ledger.Timely

/-!
# Balanced ledgers

A ledger is balanced if its total is a book of all its reservations under the capacity, and the
demand of each user a book of the user's own reservations under the bound of the rule. Every timely
ledger is balanced if the capacity stays below the greatest amounts of the words: an amount that was
lost by saturation is then itself beyond the capacity, so that no proposal with such an amount is
taken on.
-/

namespace Allotment

open Demand (Interval Step Profile)
open Reservation (totalPeak)

/-- The capacity is below the greatest amount of every dimension. -/
def Terms.Bounded (terms : Terms) : Prop :=
  ∀ d, terms.capacity.get d < d.word.greatest

namespace Ledger

variable {l m : Ledger} {r : Reservation} {rs : List Reservation} {user : String} {s : Step}
  {d : Dimension} {t b : Int}

theorem Sample.bounded_terms : Sample.terms.Bounded := by
  intro d
  cases d <;> decide

theorem Sample.bounded_ledger : Sample.ledger.terms.Bounded :=
  Sample.terms_ledger ▸ Sample.bounded_terms

/-- The reservations of one user. -/
def ownedBy (l : Ledger) (user : String) : List Reservation :=
  l.admitted.filter fun r => r.user = user

/-- The books of the ledger are those of its reservations. -/
structure Balanced (l : Ledger) : Prop where
  valid : ∀ r ∈ l.admitted, r.Valid
  inTime : ∀ r ∈ l.admitted, r.InTime l.terms.step
  faithful : ∀ r ∈ l.admitted, r.Faithful
  total : Book l.terms.step l.total l.admitted l.terms.capacity
  user : ∀ user, Book l.terms.step (l.userDemand user) (l.ownedBy user)
    (l.terms.rule.userBound l.terms.capacity)

/-! ## The reservations of a user -/

theorem Balanced.valid_ownedBy (h : l.Balanced) : ∀ x ∈ l.ownedBy user, x.Valid :=
  fun x hx => h.valid x (List.mem_filter.1 hx).1

/-- Reservations that differ by one from those of the ledger differ by it, or not at all, where a
user is concerned. -/
theorem filter_user_perm (h : l.admitted.Perm (r :: rs)) (user : String) :
    (l.ownedBy user).Perm (if r.user = user then r :: rs.filter (fun r => r.user = user)
      else rs.filter fun r => r.user = user) := by
  have hperm := h.filter fun r => decide (r.user = user)
  simp only [List.filter_cons, decide_eq_true_eq] at hperm
  exact hperm

theorem totalPeak_ownedBy_le (hvalid : ∀ x ∈ l.admitted, x.Valid) :
    totalPeak s (l.ownedBy user) d b ≤ totalPeak s l.admitted d b :=
  Reservation.totalPeak_le_of_subperm List.filter_sublist.subperm hvalid

section Users

variable {R : Profile → List Reservation → Prop}
  (hperm : ∀ {p rs others}, R p rs → rs.Perm others → R p others)
  (hl : ∀ user, R (l.userDemand user) (l.ownedBy user))

include hperm hl

/-- Striking concerns the owner alone: what the demands say of the reservations of each user, they
say on if the owner's do. -/
theorem forall_user_of_strike (hr : l.get? r.id = some r)
    (howner : R (l.userDemand r.user) (r :: (l.strike r).ownedBy r.user) →
      R (l.userDemand r.user - r.profile l.terms.step) ((l.strike r).ownedBy r.user))
    (user : String) : R ((l.strike r).userDemand user) ((l.strike r).ownedBy user) := by
  have huser := hperm (hl user) (filter_user_perm (admitted_perm_cons_strike hr) user)
  rw [userDemand_strike]
  by_cases hsame : r.user = user
  · subst hsame
    rw [if_pos rfl] at huser ⊢
    exact howner huser
  · rw [if_neg hsame] at huser ⊢
    exact huser

theorem forall_user_of_add (hadd : l.add r = .ok m)
    (howner : R (l.userDemand r.user) (l.ownedBy r.user) →
      R (l.userDemand r.user + r.profile l.terms.step) (r :: l.ownedBy r.user))
    (user : String) : R (m.userDemand user) (m.ownedBy user) := by
  have hfilter := (filter_user_perm (admitted_perm_of_add hadd) user).symm
  rw [userDemand_of_add hadd]
  by_cases hsame : r.user = user
  · subst hsame
    rw [if_pos rfl] at hfilter ⊢
    exact hperm (howner (hl r.user)) hfilter
  · rw [if_neg hsame] at hfilter ⊢
    exact hperm (hl user) hfilter

end Users

/-! ## Striking keeps the balance -/

theorem balanced_empty {terms : Terms} : (empty terms).Balanced := by
  have hnone : (empty terms).admitted = [] := by
    simp [admitted, empty]
  refine ⟨?_, ?_, ?_, ?_, fun user => ?_⟩
  · simp [hnone]
  · simp [hnone]
  · simp [hnone]
  · rw [hnone]
    exact Book.empty
  · have huser : (empty terms).userDemand user = ∅ := by
      simp [userDemand, empty]
    rw [ownedBy, hnone, huser]
    exact Book.empty

theorem Balanced.strike (h : l.Balanced) (hr : l.get? r.id = some r) : (l.strike r).Balanced := by
  have hperm := admitted_perm_cons_strike hr
  have hmem : ∀ x ∈ r :: (l.strike r).admitted, x ∈ l.admitted := fun x hx => hperm.mem_iff.2 hx
  have hvalid : ∀ x ∈ (l.strike r).admitted, x.Valid :=
    fun x hx => h.valid x (hmem x (List.mem_cons_of_mem r hx))
  have hr' : r ∈ l.admitted := hmem r List.mem_cons_self
  have hrest : ∀ x ∈ (l.strike r).admitted, x ∈ l.admitted :=
    fun x hx => hmem x (List.mem_cons_of_mem r hx)
  refine ⟨hvalid, fun x hx => h.inTime x (hrest x hx), fun x hx => h.faithful x (hrest x hx),
    ?_, ?_⟩
  · exact (h.total.perm hperm).sub (h.valid r hr') (h.inTime r hr') hvalid (h.faithful r hr')
  · refine forall_user_of_strike
      (R := (Book l.terms.step · · (l.terms.rule.userBound l.terms.capacity)))
      Book.perm h.user hr fun hown => ?_
    exact hown.sub (h.valid r hr') (h.inTime r hr')
      (fun x hx => hvalid x (List.mem_filter.1 hx).1) (h.faithful r hr')

/-! ## The decision on a proposal -/

/-- What the rule objects to in a proposal. -/
def objection? (l : Ledger) (r : Reservation) : Option Violation :=
  l.terms.rule.violation? l.terms.step r.window l.terms.capacity
    (l.total + r.profile l.terms.step) (l.userDemand r.user + r.profile l.terms.step)

/-- All reservations and the proposal exceed the capacity in the bucket. -/
def TotalExceeded (l : Ledger) (r : Reservation) (b : Int) : Prop :=
  Exceeds l.terms.step (r :: l.admitted) l.terms.capacity b

/-- The reservations of the proposing user and the proposal exceed the limit in the bucket. -/
def UserExceeded (l : Ledger) (r : Reservation) (limit : Resource) (b : Int) : Prop :=
  Exceeds l.terms.step (r :: l.ownedBy r.user) limit b

section Decision

variable (h : l.Balanced) (hbounded : l.terms.Bounded) (hr : r.Valid)
  (htime : r.InTime l.terms.step)

include h

/-- Where the total is not exceeded, the words hold the peaks of a user. -/
theorem Balanced.user_le_greatest (htotal : ¬l.TotalExceeded r b) (hb : l.terms.step.ms ∣ b) :
    totalPeak l.terms.step (r :: l.ownedBy r.user) d b ≤ d.word.greatest := by
  have hle : totalPeak l.terms.step (l.ownedBy r.user) d b ≤
      totalPeak l.terms.step l.admitted d b := totalPeak_ownedBy_le h.valid
  have hsum := Book.le_greatest_of_not_exceeds htotal hb d
  rw [Reservation.totalPeak_cons] at hsum ⊢
  omega

include hbounded hr htime

/-- The total is judged by its earliest exceeded bucket. -/
theorem Balanced.objection?_of_total_exceeded (hsome : ∃ b, l.TotalExceeded r b) :
    ∃ b, IsLeast {b | l.TotalExceeded r b} b ∧
      l.objection? r = some ⟨b,
        Resource.ofFn fun d => totalPeak l.terms.step (r :: l.admitted) d b, l.terms.capacity⟩ := by
  obtain ⟨b, hleast, hoverrun⟩ :=
    h.total.overrun?_eq_some hr htime h.valid (fun _ d _ _ => hbounded d) hsome
  refine ⟨b, hleast, ?_⟩
  rw [objection?, AdmissionRule.violation?_eq, hoverrun, Option.some_or]

/-- A total that is not exceeded leaves the decision to the demand of the user. -/
theorem Balanced.objection?_of_total_fits (htotal : ∀ b, ¬l.TotalExceeded r b) :
    l.objection? r = AdmissionRule.overrun? l.terms.step r.window
      (l.userDemand r.user + r.profile l.terms.step)
      (l.terms.rule.userBound l.terms.capacity) := by
  rw [objection?, AdmissionRule.violation?_eq,
    h.total.overrun?_eq_none hr htime h.valid (fun _ d _ _ => hbounded d) htotal, Option.none_or]

/-- The user is judged by the earliest exceeded bucket as well, unless the total is exceeded. -/
theorem Balanced.objection?_of_user_exceeded (htotal : ∀ b, ¬l.TotalExceeded r b)
    (hsome : ∃ b, l.UserExceeded r (l.terms.rule.userBound l.terms.capacity) b) :
    ∃ b, IsLeast {b | l.UserExceeded r (l.terms.rule.userBound l.terms.capacity) b} b ∧
      l.objection? r = some ⟨b,
        Resource.ofFn fun d => totalPeak l.terms.step (r :: l.ownedBy r.user) d b,
        l.terms.rule.userBound l.terms.capacity⟩ := by
  obtain ⟨b, hleast, hoverrun⟩ := (h.user r.user).overrun?_eq_some hr htime h.valid_ownedBy
    (fun b _ hb hgt => absurd hgt (Int.not_lt.2 (h.user_le_greatest (htotal b) hb))) hsome
  refine ⟨b, hleast, ?_⟩
  rw [h.objection?_of_total_fits hbounded hr htime htotal, hoverrun]

/-- The rule allows a proposal if and only if no bucket is exceeded. -/
theorem Balanced.objection?_eq_none_iff :
    l.objection? r = none ↔ (∀ b, ¬l.TotalExceeded r b) ∧
      ∀ b, ¬l.UserExceeded r (l.terms.rule.userBound l.terms.capacity) b := by
  constructor
  · intro hnone
    have htotal : ∀ b, ¬l.TotalExceeded r b := by
      intro b hb
      obtain ⟨_, _, hsome⟩ := h.objection?_of_total_exceeded hbounded hr htime ⟨b, hb⟩
      rw [hsome] at hnone
      simp at hnone
    refine ⟨htotal, fun b hb => ?_⟩
    obtain ⟨_, _, hsome⟩ := h.objection?_of_user_exceeded hbounded hr htime htotal ⟨b, hb⟩
    rw [hsome] at hnone
    simp at hnone
  · rintro ⟨htotal, huser⟩
    rw [h.objection?_of_total_fits hbounded hr htime htotal]
    exact (h.user r.user).overrun?_eq_none hr htime h.valid_ownedBy
      (fun b _ hb hgt => absurd hgt (Int.not_lt.2 (h.user_le_greatest (htotal b) hb))) huser

end Decision

/-! ## Adding keeps the balance -/

theorem Balanced.of_add (h : l.Balanced) (hbounded : l.terms.Bounded)
    (htime : r.InTime l.terms.step) (hadd : l.add r = .ok m) : m.Balanced := by
  obtain ⟨hcheck, _, henter⟩ := add_eq_ok_iff.1 hadd
  obtain ⟨_, hr⟩ := checkProposal_eq_ok_iff.1 hcheck
  obtain ⟨hnone, _⟩ := enter_eq_ok_iff.1 henter
  obtain ⟨htotal, huser⟩ := (h.objection?_eq_none_iff hbounded hr htime).1 hnone
  have hterms := terms_of_add hadd
  have hrfaithful : r.Faithful := fun d t => Book.load_le_greatest h.valid (htotal _)
  refine ⟨forall_mem_admitted_of_add hadd hr h.valid, ?_,
    forall_mem_admitted_of_add hadd hrfaithful h.faithful, ?_, ?_⟩
  · rw [hterms]
    exact forall_mem_admitted_of_add hadd htime h.inTime
  · rw [hterms, total_of_add hadd]
    exact (h.total.add hr htime h.valid htotal).perm (admitted_perm_of_add hadd).symm
  · rw [hterms]
    exact forall_user_of_add
      (R := (Book l.terms.step · · (l.terms.rule.userBound l.terms.capacity)))
      Book.perm h.user hadd fun hown => hown.add hr htime h.valid_ownedBy huser

/-- Every timely ledger is balanced if its capacity is bounded. -/
theorem Timely.balanced (h : l.Timely) (hbounded : l.terms.Bounded) : l.Balanced := by
  refine Timely.of_strike_of_add (P := fun l => l.terms.Bounded → l.Balanced) ?_ ?_ ?_ h hbounded
  · intro terms _
    exact balanced_empty
  · intro l r hl hr hbounded
    exact (hl hbounded).strike hr
  · intro l r m htime hl hadd hbounded
    rw [terms_of_add hadd] at hbounded
    exact (hl hbounded).of_add hbounded htime hadd

end Ledger

end Allotment
