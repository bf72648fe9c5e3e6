import Allotment.Proofs.Ledger.Run

/-!
# Replacing

To replace a reservation is to remove the old version and to add the new one, under any capacity and
either rule, and however much the sums of the books were cut off: the ledger reached is the very
same, and so is the refusal. What sets the two apart is a refusal alone. Replacing then leaves the
old version in force, where it is gone once it has been removed.
-/

namespace Allotment.Ledger

variable {l : Ledger} {r old : Reservation}

/-- **Replacing is removing and adding, or nothing.** It gives the same answer and the same ledger,
except that a refusal does not lose the old version. -/
theorem replace_is_remove_then_add (h : l.Reachable) (hqueue : r.queue = l.terms.queue)
    (hr : r.Valid) (hold : l.get? r.id = some old) (huser : old.user = r.user) :
    ∃ k, l.remove r.id r.user = .ok (old, k) ∧ l.replace r = k.add r ∧
      (∀ m, l.replace r = .ok m →
        l.apply (.replace r) = m ∧ l.run [.remove r.id r.user, .add r] = m) ∧
      ∀ e, l.replace r = .error e →
        l.apply (.replace r) = l ∧ l.run [.remove r.id r.user, .add r] = k ∧
          k.get? r.id = none := by
  have hid : old.id = r.id := h.keyed r.id old hold
  have hsame : l.replace r = (l.strike old).add r :=
    replace_eq_add_strike (checkProposal_eq_ok_iff.2 ⟨hqueue, hr⟩) hold hid huser
  have hrun : l.run [.remove r.id r.user, .add r] = (l.strike old).apply (.add r) := by
    rw [← apply_remove hold huser]
    rfl
  refine ⟨l.strike old, remove_eq_ok hold huser, hsame, fun m hm => ?_, fun e he => ?_⟩
  · rw [apply_replace, hrun, apply_add, ← hsame, hm]
    exact ⟨rfl, rfl⟩
  · rw [apply_replace, hrun, apply_add, ← hsame, he, get?_strike, if_pos hid]
    exact ⟨rfl, rfl, rfl⟩

namespace Sample

/-- Another version of `filling` that asks for less and for longer. -/
def shrunk : Reservation :=
  ⟨⟨2⟩, "u2", "dedicated", ⟨20, 50⟩, .ofList [(⟨20, 50⟩, .ofAmounts 40 1 0)]⟩

/-- A version that does not fit beside `misaligned`. -/
def grown : Reservation :=
  ⟨⟨2⟩, "u2", "dedicated", ⟨20, 40⟩, .ofList [(⟨20, 40⟩, .ofAmounts 61 1 0)]⟩

end Sample

/-- `shrunk` takes the place of `filling` either way; `grown` is refused, and `filling` stays. -/
theorem sample_replace_is_remove_then_add :
    (∃ m, Sample.ledger.replace Sample.shrunk = .ok m ∧
      Sample.ledger.run [.remove ⟨2⟩ "u2", .add Sample.shrunk] = m) ∧
    ∃ e, Sample.ledger.replace Sample.grown = .error e ∧
      Sample.ledger.apply (.replace Sample.grown) = Sample.ledger ∧
      (Sample.ledger.run [.remove ⟨2⟩ "u2", .add Sample.grown]).get? ⟨2⟩ = none := by
  have hfilling : Sample.ledger.get? ⟨2⟩ = some Sample.filling := by rfl
  constructor
  · obtain ⟨_, _, _, htaken, _⟩ := replace_is_remove_then_add (r := Sample.shrunk)
      Sample.reachable_ledger (by decide +kernel) (by decide +kernel) hfilling rfl
    obtain ⟨m, hm⟩ := exists_eq_ok_of_isOk (x := Sample.ledger.replace Sample.shrunk)
      (by decide +kernel)
    exact ⟨m, hm, (htaken m hm).2⟩
  · obtain ⟨_, _, _, _, hrefused⟩ := replace_is_remove_then_add (r := Sample.grown)
      Sample.reachable_ledger (by decide +kernel) (by decide +kernel) hfilling rfl
    obtain ⟨e, he⟩ := exists_eq_error_of_not_isOk (x := Sample.ledger.replace Sample.grown)
      (by decide +kernel)
    obtain ⟨hkept, hrun, hgone⟩ := hrefused e he
    exact ⟨e, he, hkept, hrun ▸ hgone⟩

end Allotment.Ledger
