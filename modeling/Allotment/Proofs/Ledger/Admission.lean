import Allotment.Proofs.Ledger.Balance

/-!
# Admission

A ledger takes a proposal on exactly if nothing is wrong with it and it exceeds no bucket, and a
ledger that refuses a proposal for what it exceeds names the earliest bucket and the exact demand
there, as far as the words can tell it. Both are said in terms of the admitted reservations alone,
of a timely ledger and a proposal in time. The books by which the ledger decides do not appear.
-/

namespace Allotment.Ledger

open Reservation (totalPeak)

variable {l : Ledger} {r : Reservation} {v : Violation}

/-! ## From the rule to the ledger -/

/-- A new proposal with which nothing is wrong is refused for what the rule objects to. -/
theorem add_eq_error_of_objection (hqueue : r.queue = l.terms.queue) (hr : r.Valid)
    (hnew : l.get? r.id = none) (hobjection : l.objection? r = some v) :
    l.add r = .error (.overCommitted r.id v) := by
  have hcheck : l.checkProposal r = .ok () := checkProposal_eq_ok_iff.2 ⟨hqueue, hr⟩
  unfold objection? at hobjection
  rw [add_eq_enter hcheck hnew, enter, hobjection]

/-- A proposal is taken on if there is nothing wrong with it and the rule does not object. -/
theorem exists_add_eq_ok_iff :
    (∃ m, l.add r = .ok m) ↔
      r.queue = l.terms.queue ∧ r.Valid ∧ l.get? r.id = none ∧ l.objection? r = none := by
  constructor
  · rintro ⟨m, hm⟩
    obtain ⟨hcheck, hnew, henter⟩ := add_eq_ok_iff.1 hm
    obtain ⟨hqueue, hr⟩ := checkProposal_eq_ok_iff.1 hcheck
    exact ⟨hqueue, hr, hnew, (enter_eq_ok_iff.1 henter).1⟩
  · rintro ⟨hqueue, hr, hnew, hobjection⟩
    have hcheck : l.checkProposal r = .ok () := checkProposal_eq_ok_iff.2 ⟨hqueue, hr⟩
    exact ⟨_, add_eq_ok_iff.2 ⟨hcheck, hnew, enter_eq_ok_iff.2 ⟨hobjection, rfl⟩⟩⟩

/-- Only the rule that caps the share of a user has something to say once the total fits. -/
theorem Balanced.user_fits_iff (h : l.Balanced) (htotal : ∀ b, ¬l.TotalExceeded r b) :
    (∀ b, ¬l.UserExceeded r (l.terms.rule.userBound l.terms.capacity) b) ↔
      ∀ maxShare, l.terms.rule = .userShareCap maxShare →
        ∀ b, ¬l.UserExceeded r (AdmissionRule.userLimit maxShare l.terms.capacity) b := by
  cases hrule : l.terms.rule with
  | userShareCap maxShare => simp [AdmissionRule.userBound]
  | noOverCommit =>
      constructor
      · simp
      · rintro _ b ⟨hb, _, d, hlt⟩
        have hle := h.user_le_greatest (htotal b) hb (d := d)
        rw [AdmissionRule.userBound, Resource.get_unbounded] at hlt
        omega

/-! ## The decision -/

/-- **The admission decision is exact.** A proposal in time is taken on if and only if nothing
stands against it, and is otherwise refused for the earliest bucket that is exceeded, the capacity
looked at before the limit of the user. -/
theorem add_decides_exactly (h : l.Timely) (hbounded : l.terms.Bounded) (r : Reservation)
    (htime : r.InTime l.terms.step) :
    ((∃ m, l.add r = .ok m) ↔
      r.queue = l.terms.queue ∧ r.Valid ∧ l.get? r.id = none ∧
        (∀ b, ¬l.TotalExceeded r b) ∧
        ∀ maxShare, l.terms.rule = .userShareCap maxShare →
          ∀ b, ¬l.UserExceeded r (AdmissionRule.userLimit maxShare l.terms.capacity) b) ∧
    (r.queue = l.terms.queue → r.Valid → l.get? r.id = none →
      ((∃ b, l.TotalExceeded r b) →
        ∃ b, IsLeast {b | l.TotalExceeded r b} b ∧
          l.add r = .error (.overCommitted r.id ⟨b,
            Resource.ofFn fun d => totalPeak l.terms.step (r :: l.admitted) d b,
            l.terms.capacity⟩)) ∧
      ((∀ b, ¬l.TotalExceeded r b) →
        ∀ maxShare, l.terms.rule = .userShareCap maxShare →
          (∃ b, l.UserExceeded r (AdmissionRule.userLimit maxShare l.terms.capacity) b) →
          ∃ b, IsLeast
              {b | l.UserExceeded r (AdmissionRule.userLimit maxShare l.terms.capacity) b} b ∧
            l.add r = .error (.overCommitted r.id ⟨b,
              Resource.ofFn fun d => totalPeak l.terms.step (r :: l.ownedBy r.user) d b,
              AdmissionRule.userLimit maxShare l.terms.capacity⟩))) := by
  have hl := h.balanced hbounded
  refine ⟨?_, fun hqueue hr hnew => ⟨fun hsome => ?_, fun htotal maxShare hrule hsome => ?_⟩⟩
  · rw [exists_add_eq_ok_iff]
    refine and_congr_right fun _ => and_congr_right fun hr => and_congr_right fun _ => ?_
    rw [hl.objection?_eq_none_iff hbounded hr htime]
    exact and_congr_right hl.user_fits_iff
  · obtain ⟨b, hleast, hobjection⟩ := hl.objection?_of_total_exceeded hbounded hr htime hsome
    exact ⟨b, hleast, add_eq_error_of_objection hqueue hr hnew hobjection⟩
  · have hbound : l.terms.rule.userBound l.terms.capacity =
        AdmissionRule.userLimit maxShare l.terms.capacity := by
      rw [hrule]
      rfl
    rw [← hbound] at hsome ⊢
    obtain ⟨b, hleast, hobjection⟩ := hl.objection?_of_user_exceeded hbounded hr htime htotal hsome
    exact ⟨b, hleast, add_eq_error_of_objection hqueue hr hnew hobjection⟩

/-- The sample ledger refuses the demands whose sum no word can hold for the earliest bucket that
they exceed. -/
theorem sample_add_decides_exactly :
    (¬∃ m, Sample.ledger.add Sample.saturating = .ok m) ∧
    ∃ b, IsLeast {b | Sample.ledger.TotalExceeded Sample.saturating b} b ∧
      Sample.ledger.add Sample.saturating = .error (.overCommitted ⟨3⟩ ⟨b,
        Resource.ofFn fun d =>
          totalPeak Sample.ledger.terms.step (Sample.saturating :: Sample.ledger.admitted) d b,
        Sample.ledger.terms.capacity⟩) := by
  have hexceeded : Sample.ledger.TotalExceeded Sample.saturating 0 :=
    ⟨Int.dvd_zero _, ⟨.memory, by decide +kernel⟩, .memory, by decide +kernel⟩
  obtain ⟨hiff, hrefused⟩ :=
    add_decides_exactly Sample.timely_ledger Sample.bounded_ledger Sample.saturating
      (by decide +kernel)
  constructor
  · intro hok
    exact (hiff.1 hok).2.2.2.1 0 hexceeded
  · exact (hrefused (by decide +kernel) (by decide +kernel) (by rfl)).1 ⟨0, hexceeded⟩

end Allotment.Ledger
