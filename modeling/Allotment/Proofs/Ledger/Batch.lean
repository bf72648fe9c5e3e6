import Allotment.Proofs.Ledger.Admission
import Allotment.Proofs.Ledger.Canonical

/-!
# Admission in any order

Whether proposals in time are taken on by a timely ledger depends on what they ask for together with
the reservations that are admitted already, and on nothing else. So fewer reservations never stand
in the way of a proposal, and proposals that are all taken on one after another are all taken on in
every other order, and leave the same ledger.
-/

namespace Allotment

open Demand (Step)

/-- The terms allow the reservations: no bucket is exceeded, neither by all of them nor by those of
one user. -/
structure Terms.Allow (terms : Terms) (rs : List Reservation) : Prop where
  total : ∀ b, ¬Exceeds terms.step rs terms.capacity b
  user : ∀ user b, ¬Exceeds terms.step (rs.filter fun r => r.user = user)
    (terms.rule.userBound terms.capacity) b

theorem Terms.Allow.of_subperm {terms : Terms} {rs others : List Reservation}
    (h : terms.Allow others) (hsome : rs.Subperm others) (hothers : ∀ r ∈ others, r.Valid) :
    terms.Allow rs where
  total b hexceeds := h.total b (hexceeds.mono hsome hothers)
  user user b hexceeds := h.user user b
    (hexceeds.mono (hsome.filter _) fun r hr => hothers r (List.mem_filter.1 hr).1)

theorem Terms.allow_perm {terms : Terms} {rs others : List Reservation} (hperm : rs.Perm others) :
    terms.Allow rs ↔ terms.Allow others := by
  constructor
  · intro h
    exact ⟨fun b => mt (exceeds_perm hperm).2 (h.total b),
      fun user b => mt (exceeds_perm (hperm.filter _)).2 (h.user user b)⟩
  · intro h
    exact ⟨fun b => mt (exceeds_perm hperm).1 (h.total b),
      fun user b => mt (exceeds_perm (hperm.filter _)).1 (h.user user b)⟩

namespace Ledger

variable {l k m : Ledger} {r : Reservation} {rs others : List Reservation}

/-! ## One proposal -/

/-- Nothing is wrong with the proposal, and its identifier is new. -/
def Proper (l : Ledger) (r : Reservation) : Prop :=
  r.queue = l.terms.queue ∧ r.Valid ∧ l.get? r.id = none

theorem Balanced.allow (h : l.Balanced) : l.terms.Allow l.admitted where
  total _ := h.total.not_exceeds
  user user _ := (h.user user).not_exceeds

/-- A proposal exceeds no bucket if the terms allow it along with the reservations. -/
theorem Balanced.allow_cons_iff (h : l.Balanced) :
    l.terms.Allow (r :: l.admitted) ↔ (∀ b, ¬l.TotalExceeded r b) ∧
      ∀ b, ¬l.UserExceeded r (l.terms.rule.userBound l.terms.capacity) b := by
  have howner : (r :: l.admitted).filter (fun x => x.user = r.user) = r :: l.ownedBy r.user :=
    List.filter_cons_of_pos (by simp)
  constructor
  · intro hallow
    refine ⟨hallow.total, fun b => ?_⟩
    have huser := hallow.user r.user b
    rwa [howner] at huser
  · rintro ⟨htotal, huser⟩
    refine ⟨htotal, fun user b => ?_⟩
    by_cases hsame : r.user = user
    · rw [← hsame, howner]
      exact huser b
    · rw [List.filter_cons_of_neg (by simpa using hsame)]
      exact (h.user user).not_exceeds

theorem Timely.exists_add_eq_ok_iff (h : l.Timely) (hbounded : l.terms.Bounded)
    (htime : r.InTime l.terms.step) :
    (∃ m, l.add r = .ok m) ↔ l.Proper r ∧ l.terms.Allow (r :: l.admitted) := by
  have hl := h.balanced hbounded
  rw [Ledger.exists_add_eq_ok_iff, hl.allow_cons_iff, Proper, and_assoc, and_assoc]
  refine and_congr_right fun _ => and_congr_right fun hr => and_congr_right fun _ => ?_
  exact hl.objection?_eq_none_iff hbounded hr htime

theorem Proper.of_subset (h : l.Proper r) (hl : l.Keyed) (hk : k.Keyed) (hterms : k.terms = l.terms)
    (hsome : ∀ x ∈ k.admitted, x ∈ l.admitted) : k.Proper r := by
  obtain ⟨hqueue, hr, hnew⟩ := h
  refine ⟨hterms ▸ hqueue, hr, ?_⟩
  cases hx : k.get? r.id with
  | none => rfl
  | some x =>
      have hid : x.id = r.id := hk r.id x hx
      have hmem := hl.mem_admitted_iff.1 (hsome x (mem_admitted_iff.2 ⟨r.id, hx⟩))
      rw [hid, hnew] at hmem
      simp at hmem

theorem Timely.exists_add_of_subset (hl : l.Timely) (hk : k.Timely) (hbounded : l.terms.Bounded)
    (hterms : k.terms = l.terms) (hsome : ∀ x ∈ k.admitted, x ∈ l.admitted)
    (htime : r.InTime l.terms.step) (hadd : ∃ m, l.add r = .ok m) : ∃ m, k.add r = .ok m := by
  obtain ⟨hproper, hallow⟩ := (hl.exists_add_eq_ok_iff hbounded htime).1 hadd
  have hsubperm : (r :: k.admitted).Subperm (r :: l.admitted) :=
    (List.subperm_cons r).2 (List.subperm_of_subset hk.reachable.keyed.nodup_admitted hsome)
  have hvalid : ∀ x ∈ r :: l.admitted, x.Valid :=
    List.forall_mem_cons.2 ⟨hproper.2.1, (hl.balanced hbounded).valid⟩
  apply (hk.exists_add_eq_ok_iff (hterms ▸ hbounded) (hterms ▸ htime)).2
  refine ⟨hproper.of_subset hl.reachable.keyed hk.reachable.keyed hterms hsome, ?_⟩
  rw [hterms]
  exact hallow.of_subperm hsubperm hvalid

theorem Reachable.mem_admitted_of_releases (h : l.Reachable) {ops : List Operation}
    (hops : ∀ op ∈ ops, op.IsRelease) {x : Reservation} (hx : x ∈ (l.run ops).admitted) :
    x ∈ l.admitted := by
  induction ops generalizing l with
  | nil => exact hx
  | cons op ops ih =>
      have hrest : x ∈ (l.apply op).admitted :=
        ih (h.step op) (fun y hy => hops y (List.mem_cons_of_mem op hy)) hx
      refine apply_of_strike (P := fun m => ∀ y ∈ m.admitted, y ∈ l.admitted) ?_ h.keyed
        (fun _ hy => hy) (hops op List.mem_cons_self) x hrest
      intro m r hm _ y hy
      exact hm y (mem_admitted_of_strike hy)

/-! ## Many proposals -/

/-- Takes proposals on one after another, or none of them. -/
def addAll (l : Ledger) (rs : List Reservation) : Except Refusal Ledger :=
  rs.foldlM add l

theorem addAll_nil : l.addAll [] = .ok l := rfl

theorem addAll_cons_eq_ok_iff :
    l.addAll (r :: rs) = .ok m ↔ ∃ k, l.add r = .ok k ∧ k.addAll rs = .ok m := by
  unfold addAll
  rw [List.foldlM_cons]
  cases l.add r with
  | error e => simp [bind, Except.bind]
  | ok k => simp [bind, Except.bind]

theorem Timely.of_addAll (h : l.Timely) (htime : ∀ r ∈ rs, r.InTime l.terms.step)
    (hm : l.addAll rs = .ok m) :
    m.Timely ∧ m.terms = l.terms ∧ m.admitted.Perm (rs ++ l.admitted) := by
  induction rs generalizing l with
  | nil =>
      obtain rfl := Except.ok.inj hm
      exact ⟨h, rfl, .refl _⟩
  | cons r rs ih =>
      obtain ⟨k, hadd, hrest⟩ := addAll_cons_eq_ok_iff.1 hm
      obtain ⟨hr, htime⟩ := List.forall_mem_cons.1 htime
      obtain ⟨htimely, hterms, hperm⟩ :=
        ih (h.of_add hr hadd) (terms_of_add hadd ▸ htime) hrest
      refine ⟨htimely, hterms.trans (terms_of_add hadd), hperm.trans ?_⟩
      exact ((admitted_perm_of_add hadd).append_left rs).trans List.perm_middle

theorem proper_iff_of_add (hadd : l.add r = .ok k) {x : Reservation} :
    k.Proper x ↔ l.Proper x ∧ r.id ≠ x.id := by
  unfold Proper
  rw [terms_of_add hadd, get?_of_add hadd]
  by_cases hid : r.id = x.id
  · simp [hid]
  · simp [hid]

/-- Adding one more proposal leaves the same to be said of those that follow. -/
theorem proper_and_allow_of_add (hadd : l.add r = .ok k) :
    ((∀ x ∈ rs, k.Proper x) ∧ k.terms.Allow (rs ++ k.admitted)) ↔
      (∀ x ∈ rs, l.Proper x) ∧ (∀ x ∈ rs, r.id ≠ x.id) ∧
        l.terms.Allow (r :: rs ++ l.admitted) := by
  have hperm : (rs ++ k.admitted).Perm (r :: rs ++ l.admitted) :=
    ((admitted_perm_of_add hadd).append_left rs).trans List.perm_middle
  simp only [proper_iff_of_add hadd, forall₂_and, and_assoc, terms_of_add hadd,
    Terms.allow_perm hperm]

/-- Proposals are taken on one after another if and only if each of them is proper, no two share an
identifier, and the terms allow all of them along with the reservations. -/
theorem Timely.exists_addAll_eq_ok_iff (h : l.Timely) (hbounded : l.terms.Bounded)
    (htime : ∀ r ∈ rs, r.InTime l.terms.step) :
    (∃ m, l.addAll rs = .ok m) ↔
      (∀ r ∈ rs, l.Proper r) ∧ rs.Pairwise (fun x y => x.id ≠ y.id) ∧
        l.terms.Allow (rs ++ l.admitted) := by
  induction rs generalizing l with
  | nil =>
      have hallow := (h.balanced hbounded).allow
      simpa [addAll_nil] using hallow
  | cons r rs ih =>
      obtain ⟨hrtime, htime⟩ := List.forall_mem_cons.1 htime
      have hrest : ∀ k, l.add r = .ok k → ((∃ m, k.addAll rs = .ok m) ↔
          (∀ r ∈ rs, k.Proper r) ∧ rs.Pairwise (fun x y => x.id ≠ y.id) ∧
            k.terms.Allow (rs ++ k.admitted)) :=
        fun k hadd => ih (h.of_add hrtime hadd) (terms_of_add hadd ▸ hbounded)
          (terms_of_add hadd ▸ htime)
      constructor
      · rintro ⟨m, hm⟩
        obtain ⟨k, hadd, hmore⟩ := addAll_cons_eq_ok_iff.1 hm
        obtain ⟨hproper, hdistinct, hallow⟩ := (hrest k hadd).1 ⟨m, hmore⟩
        obtain ⟨hproper, hids, hallow⟩ := (proper_and_allow_of_add hadd).1 ⟨hproper, hallow⟩
        have hr : l.Proper r := ((h.exists_add_eq_ok_iff hbounded hrtime).1 ⟨k, hadd⟩).1
        exact ⟨List.forall_mem_cons.2 ⟨hr, hproper⟩, List.pairwise_cons.2 ⟨hids, hdistinct⟩, hallow⟩
      · rintro ⟨hproper, hdistinct, hallow⟩
        obtain ⟨hids, hdistinct⟩ := List.pairwise_cons.1 hdistinct
        obtain ⟨hr, hothers⟩ := List.forall_mem_cons.1 hproper
        have hvalid : ∀ x ∈ r :: rs ++ l.admitted, x.Valid := by
          intro x hx
          rcases List.mem_append.1 hx with hx | hx
          · exact (hproper x hx).2.1
          · exact (h.balanced hbounded).valid x hx
        -- what is allowed together is allowed for the first of them alone
        have hfirst : l.terms.Allow (r :: l.admitted) :=
          hallow.of_subperm ((List.sublist_append_right rs l.admitted).cons_cons r).subperm hvalid
        obtain ⟨k, hadd⟩ := (h.exists_add_eq_ok_iff hbounded hrtime).2 ⟨hr, hfirst⟩
        obtain ⟨hproper, hallow⟩ := (proper_and_allow_of_add hadd).2 ⟨hothers, hids, hallow⟩
        obtain ⟨m, hmore⟩ := (hrest k hadd).2 ⟨hproper, hdistinct, hallow⟩
        exact ⟨m, addAll_cons_eq_ok_iff.2 ⟨k, hadd, hmore⟩⟩

/-- Proposals that are all taken on in one order are taken on in every other, and leave the same
ledger. -/
theorem Timely.addAll_eq_ok_of_perm (h : l.Timely) (hbounded : l.terms.Bounded)
    (htime : ∀ r ∈ rs, r.InTime l.terms.step) (hperm : rs.Perm others)
    (hm : l.addAll rs = .ok m) : l.addAll others = .ok m := by
  have htime' : ∀ r ∈ others, r.InTime l.terms.step := fun r hr => htime r (hperm.mem_iff.2 hr)
  obtain ⟨hproper, hdistinct, hallow⟩ := (h.exists_addAll_eq_ok_iff hbounded htime).1 ⟨m, hm⟩
  obtain ⟨n, hn⟩ : ∃ n, l.addAll others = .ok n := by
    apply (h.exists_addAll_eq_ok_iff hbounded htime').2
    refine ⟨fun x hx => hproper x (hperm.mem_iff.2 hx), ?_, ?_⟩
    · exact (hperm.pairwise_iff fun hne => hne.symm).1 hdistinct
    · exact (Terms.allow_perm (hperm.append_right _)).1 hallow
  obtain ⟨hmtimely, hmterms, hmperm⟩ := h.of_addAll htime hm
  obtain ⟨hntimely, hnterms, hnperm⟩ := h.of_addAll htime' hn
  have hsame : n = m := by
    apply hmtimely.eq_of_perm hntimely (hmterms ▸ hbounded) (hnterms.trans hmterms.symm)
    exact hnperm.trans ((hperm.symm.append_right _).trans hmperm.symm)
  rw [hn, hsame]

/-! ## The order of proposals, and the reservations before them -/

theorem Operation.IsRelease.inTime {op : Operation} (h : op.IsRelease) {s : Step} :
    op.InTime s := by
  cases op with
  | add r => exact h.elim
  | replace r => exact h.elim
  | remove id user => trivial
  | archive now => trivial

/-- **Admission is monotone and knows no order.** What is taken on is taken on with fewer
reservations as well, and what is taken on one after another in every other order. -/
theorem admission_is_monotone_and_unordered (h : l.Timely) (hbounded : l.terms.Bounded) :
    (∀ k : Ledger, k.Timely → k.terms = l.terms → (∀ x ∈ k.admitted, x ∈ l.admitted) →
      ∀ r, r.InTime l.terms.step → (∃ m, l.add r = .ok m) → ∃ m, k.add r = .ok m) ∧
    (∀ ops : List Operation, (∀ op ∈ ops, op.IsRelease) →
      ∀ r, r.InTime l.terms.step → (∃ m, l.add r = .ok m) → ∃ m, (l.run ops).add r = .ok m) ∧
    ∀ rs others : List Reservation, (∀ r ∈ rs, r.InTime l.terms.step) → rs.Perm others →
      ∀ m, l.addAll rs = .ok m → l.addAll others = .ok m := by
  refine ⟨fun k hk hterms hsome r htime hadd => ?_, fun ops hops r htime hadd => ?_,
    fun rs others htime hperm m hm => ?_⟩
  · exact h.exists_add_of_subset hk hbounded hterms hsome htime hadd
  · have hrun : (l.run ops).Timely := h.run fun op hop => (hops op hop).inTime
    apply h.exists_add_of_subset hrun hbounded (h.reachable.keyed.terms_run ops) ?_ htime hadd
    exact fun x hx => h.reachable.mem_admitted_of_releases hops hx
  · exact h.addAll_eq_ok_of_perm hbounded htime hperm hm

namespace Sample

/-- Asks for all of the capacity once `filling` is over. -/
def following : Reservation :=
  ⟨⟨4⟩, "u3", "dedicated", ⟨40, 55⟩, .ofList [(⟨40, 55⟩, .ofAmounts 100 3 5)]⟩

end Sample

/-- What the sample ledger takes on is taken on after releases as well, and by the empty ledger; and
its two reservations can be added in either order. -/
theorem sample_admission_is_monotone_and_unordered :
    (∃ m, (Sample.ledger.run [.remove ⟨2⟩ "u2", .archive 30]).add Sample.following = .ok m) ∧
    (∃ m, (empty Sample.terms).add Sample.following = .ok m) ∧
    ∃ m, (empty Sample.terms).addAll [Sample.misaligned, Sample.filling] = .ok m ∧
      (empty Sample.terms).addAll [Sample.filling, Sample.misaligned] = .ok m := by
  have hempty : (empty Sample.terms).Timely := .opened Sample.open?_terms
  have hfollowing : ∃ m, Sample.ledger.add Sample.following = .ok m :=
    exists_eq_ok_of_isOk (by decide +kernel)
  obtain ⟨hsubset, hreleases, _⟩ :=
    admission_is_monotone_and_unordered Sample.timely_ledger Sample.bounded_ledger
  obtain ⟨_, _, horder⟩ := admission_is_monotone_and_unordered hempty Sample.bounded_terms
  refine ⟨?_, ?_, ?_⟩
  · apply hreleases _ ?_ _ (by decide +kernel) hfollowing
    simp [Operation.IsRelease]
  · apply hsubset _ hempty Sample.terms_ledger.symm ?_ _ (by decide +kernel) hfollowing
    simp [admitted, empty]
  · obtain ⟨m, hm⟩ := exists_eq_ok_of_isOk
      (x := (empty Sample.terms).addAll [Sample.misaligned, Sample.filling]) (by decide +kernel)
    exact ⟨m, hm, horder _ _ (by decide) (.swap _ _ _) m hm⟩

namespace Sample

/-- Asks for all memory in the first bucket. -/
def usual : Reservation :=
  ⟨⟨5⟩, "u2", "dedicated", ⟨0, 10⟩, .ofList [(⟨0, 10⟩, .ofAmounts 100 1 0)]⟩

end Sample

/-- What starts at the least instant is taken on after `usual`, but `usual` is refused after it. -/
theorem early_admission_knows_order :
    (empty Sample.terms).Reachable ∧ Sample.terms.Bounded ∧
      (∃ m, (empty Sample.terms).addAll
        [Sample.usual, Sample.early ⟨6⟩ ⟨0, 10⟩ (.ofAmounts 100 1 0)] = .ok m) ∧
      ∃ e, (empty Sample.terms).addAll
        [Sample.early ⟨6⟩ ⟨0, 10⟩ (.ofAmounts 100 1 0), Sample.usual] = .error e :=
  ⟨.opened Sample.open?_terms, Sample.bounded_terms, exists_eq_ok_of_isOk (by decide +kernel),
    exists_eq_error_of_not_isOk (by decide +kernel)⟩

end Ledger

end Allotment
