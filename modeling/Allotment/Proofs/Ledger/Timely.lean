import Allotment.Proofs.Ledger.Run
import Allotment.Proofs.Reservation.Load

/-!
# Ledgers in time

A ledger is timely if every reservation that it was ever asked to take on was in time, admitted or
not and still there or not. Of a reservation that is not in time the aligned start of the window may
come after its end. The rule then reads no point of the window, and what such a reservation has left
in the books stays there, so nothing can be told of the books from the reservations alone.
-/

namespace Allotment.Ledger

open Demand (Interval Step)

/-- What the operation puts in, if it puts something in, is in time. -/
def Operation.InTime (s : Step) (op : Operation) : Prop :=
  op.Asks (·.InTime s)

instance (s : Step) (op : Operation) : Decidable (op.InTime s) :=
  match op with
  | .add r | .replace r => inferInstanceAs (Decidable (r.InTime s))
  | .remove _ _ | .archive _ => isTrue trivial

/-- The ledgers that come about from new ones by operations in time. -/
inductive Timely : Ledger → Prop where
  | opened {queue : String} {ms : Int} {capacity : Resource} {rule : AdmissionRule} {l : Ledger} :
      open? queue ms capacity rule = .ok l → Timely l
  | step {l : Ledger} {op : Operation} : Timely l → op.InTime l.terms.step → Timely (l.apply op)

variable {l m : Ledger} {r : Reservation}

theorem Timely.reachable (h : l.Timely) : l.Reachable := by
  induction h with
  | opened hopen => exact .opened hopen
  | step _ _ ih => exact ih.step _

theorem Timely.run (h : l.Timely) {ops : List Operation}
    (hops : ∀ op ∈ ops, op.InTime l.terms.step) : (l.run ops).Timely := by
  induction ops generalizing l with
  | nil => exact h
  | cons op ops ih =>
      obtain ⟨hop, hops⟩ := List.forall_mem_cons.1 hops
      refine ih (h.step hop) fun x hx => ?_
      rw [h.reachable.keyed.terms_apply op]
      exact hops x hx

theorem Timely.of_add (h : l.Timely) (htime : r.InTime l.terms.step) (hadd : l.add r = .ok m) :
    m.Timely := by
  have hstep : (l.apply (.add r)).Timely := h.step htime
  rwa [apply_add, hadd] at hstep

/-- What holds of empty ledgers, and is kept by striking and by adding in time, holds of every
timely ledger. -/
theorem Timely.of_strike_of_add {P : Ledger → Prop} (hempty : ∀ terms, P (empty terms))
    (hstrike : ∀ l r, P l → l.get? r.id = some r → P (l.strike r))
    (hadd : ∀ l r m, r.InTime l.terms.step → P l → l.add r = .ok m → P m) (h : l.Timely) :
    P l := by
  induction h with
  | opened hopen =>
      obtain ⟨_, rfl⟩ := open?_eq_ok hopen
      exact hempty _
  | @step l op h hop ih =>
      refine (apply_of_strike_of_add (P := fun m => m.terms = l.terms ∧ P m)
        (Q := (·.InTime l.terms.step)) ?_ ?_ h.reachable.keyed ⟨rfl, ih⟩ hop).2
      · rintro k r ⟨hterms, hk⟩ hr
        exact ⟨hterms, hstrike k r hk hr⟩
      · rintro k r m htime ⟨hterms, hk⟩ hm
        exact ⟨(terms_of_add hm).trans hterms, hadd k r m (hterms ▸ htime) hk hm⟩

theorem Timely.inTime (h : l.Timely) : ∀ r ∈ l.admitted, r.InTime l.terms.step := by
  refine h.of_strike_of_add (P := fun l => ∀ r ∈ l.admitted, r.InTime l.terms.step) ?_ ?_ ?_
  · intro terms r hr
    simp [admitted, empty] at hr
  · intro l r hl _ x hx
    exact hl x (mem_admitted_of_strike hx)
  · intro l r m htime hl hm
    rw [terms_of_add hm]
    exact forall_mem_admitted_of_add hm htime hl

namespace Sample

theorem timely_ledger : ledger.Timely :=
  Timely.run (.opened open?_terms) (by decide)

/-- Has a window from the least instant on, where no bucket starts that the word holds. -/
def early (id : ReservationId) (i : Interval) (demand : Resource) : Reservation :=
  ⟨id, "u1", "dedicated", ⟨Word.word64.least, 10⟩, .ofList [(i, demand)]⟩

/-- The window is left behind by the aligned start. -/
example : terms.step.align Word.word64.least = 9223372036854775806 := by decide

end Sample

end Allotment.Ledger
