import Mathlib.Data.List.Nodup
import Mathlib.Data.List.Perm.Basic
import Allotment.Device.Placement

/-!
# Containers are placed on the least utilized device

As long as no two entries tell of the same device, one of them precedes all others: it is less
utilized, or as much and of the smaller number. A container is placed on the device of the entry
that precedes all others with enough free memory; without one, best effort takes the entry that
precedes all others of the list, and tells that it does not fit, while strict placement refuses.
The order of the list is of no account.
-/

namespace Allotment

namespace DeviceStatus

variable {l others : List DeviceStatus} {s t : DeviceStatus} {required : Int}

/-- No two entries tell of the same device. -/
def Distinct (l : List DeviceStatus) : Prop :=
  (l.map (·.device)).Nodup

/-- The entry of the list that precedes every other one. -/
structure IsFirst (l : List DeviceStatus) (s : DeviceStatus) : Prop where
  mem : s ∈ l
  precedes : ∀ t ∈ l, t ≠ s → s.Precedes t

/-! ## The order of the entries -/

theorem Precedes.asymm (h : s.Precedes t) : ¬t.Precedes s := by
  simp only [Precedes] at h ⊢
  omega

/-- What precedes an entry precedes all that do not precede it. -/
theorem Precedes.of_not_precedes {u : DeviceStatus} (hst : s.Precedes t) (hut : ¬u.Precedes t) :
    s.Precedes u := by
  simp only [Precedes] at hst hut ⊢
  omega

theorem precedes_of_not_precedes (hne : s.device ≠ t.device) (h : ¬t.Precedes s) :
    s.Precedes t := by
  simp only [Precedes] at h ⊢
  omega

theorem IsFirst.unique (hs : IsFirst l s) (ht : IsFirst l t) : s = t := by
  by_contra hne
  exact (hs.precedes t ht.mem (Ne.symm hne)).asymm (ht.precedes s hs.mem hne)

theorem isFirst_perm (hperm : others.Perm l) : IsFirst others s ↔ IsFirst l s := by
  constructor
  · intro h
    exact ⟨hperm.mem_iff.1 h.mem, fun t ht => h.precedes t (hperm.mem_iff.2 ht)⟩
  · intro h
    exact ⟨hperm.mem_iff.2 h.mem, fun t ht => h.precedes t (hperm.mem_iff.1 ht)⟩

theorem Distinct.filter (h : Distinct l) (p : DeviceStatus → Bool) : Distinct (l.filter p) :=
  h.sublist (List.filter_sublist.map _)

theorem Distinct.of_perm (h : Distinct l) (hperm : others.Perm l) : Distinct others :=
  (hperm.map _).nodup_iff.2 h

/-! ## The search -/

theorem not_precedes_leastUtilized? (h : leastUtilized? l = some s) :
    ∀ t ∈ l, ¬t.Precedes s := by
  induction l generalizing s with
  | nil => simp [leastUtilized?] at h
  | cons a l ih =>
      have hself : ¬a.Precedes a := fun haa => haa.asymm haa
      simp only [leastUtilized?] at h
      cases hbest : leastUtilized? l with
      | none =>
          obtain rfl : a = s := by simpa [hbest] using h
          obtain rfl : l = [] := leastUtilized?_eq_none_iff.1 hbest
          simpa using hself
      | some best =>
          simp only [hbest] at h
          have hrest := ih hbest
          by_cases hprecedes : best.Precedes a
          · obtain rfl : best = s := by simpa [hprecedes] using h
            exact List.forall_mem_cons.2 ⟨hprecedes.asymm, hrest⟩
          · obtain rfl : a = s := by simpa [hprecedes] using h
            exact List.forall_mem_cons.2
              ⟨hself, fun t ht hta => hrest t ht (hta.of_not_precedes hprecedes)⟩

theorem Distinct.isFirst_leastUtilized? (h : Distinct l) (hs : leastUtilized? l = some s) :
    IsFirst l s := by
  refine ⟨leastUtilized?_mem hs, fun t ht hne => ?_⟩
  have hdevice : s.device ≠ t.device := by
    intro hsame
    exact hne (List.inj_on_of_nodup_map h ht (leastUtilized?_mem hs) hsame.symm)
  exact precedes_of_not_precedes hdevice (not_precedes_leastUtilized? hs t ht)

theorem exists_leastUtilized? (hs : s ∈ l) : ∃ t, leastUtilized? l = some t := by
  apply Option.ne_none_iff_exists'.1
  intro hnone
  rw [leastUtilized?_eq_none_iff.1 hnone] at hs
  simp at hs

theorem Distinct.leastUtilized?_eq_some_iff (h : Distinct l) :
    leastUtilized? l = some s ↔ IsFirst l s := by
  constructor
  · exact h.isFirst_leastUtilized?
  · intro hs
    obtain ⟨t, ht⟩ := exists_leastUtilized? hs.mem
    rw [ht, hs.unique (h.isFirst_leastUtilized? ht)]

theorem Distinct.leastUtilized?_perm (h : Distinct l) (hperm : others.Perm l) :
    leastUtilized? others = leastUtilized? l := by
  apply Option.ext
  intro s
  rw [(h.of_perm hperm).leastUtilized?_eq_some_iff, h.leastUtilized?_eq_some_iff,
    isFirst_perm hperm]

/-! ## The choice -/

/-- The entries with enough free memory. -/
def roomy (l : List DeviceStatus) (required : Int) : List DeviceStatus :=
  l.filter fun s => required ≤ s.free

theorem mem_roomy : s ∈ roomy l required ↔ s ∈ l ∧ required ≤ s.free := by
  simp [roomy]

theorem Distinct.choose?_perm (h : Distinct l) (hperm : others.Perm l) :
    choose? others required = choose? l required := by
  have hroomy : leastUtilized? (roomy others required) = leastUtilized? (roomy l required) :=
    (h.filter _).leastUtilized?_perm (hperm.filter _)
  unfold choose?
  rw [h.leastUtilized?_perm hperm]
  exact congrArg (Option.or · _) hroomy

theorem Distinct.isFirst_choose? (h : Distinct l) (hs : choose? l required = some s) :
    (∃ t ∈ l, required ≤ t.free) ∧ IsFirst (roomy l required) s ∨
      (¬∃ t ∈ l, required ≤ t.free) ∧ IsFirst l s := by
  by_cases hroom : ∃ t ∈ l, required ≤ t.free
  · left
    obtain ⟨t, ht, hfree⟩ := hroom
    obtain ⟨best, hbest⟩ := exists_leastUtilized? (mem_roomy.2 ⟨ht, hfree⟩)
    have hchosen : choose? l required = some best := by
      unfold choose?
      rw [roomy] at hbest
      rw [hbest, Option.some_or]
    obtain rfl : best = s := Option.some.inj (hchosen.symm.trans hs)
    exact ⟨⟨t, ht, hfree⟩, (h.filter _).isFirst_leastUtilized? hbest⟩
  · right
    have hnone : roomy l required = [] := by
      apply List.eq_nil_iff_forall_not_mem.2
      intro t ht
      exact hroom ⟨t, mem_roomy.1 ht⟩
    have hall : leastUtilized? l = some s := by
      unfold choose? at hs
      rw [roomy] at hnone
      rwa [hnone, leastUtilized?, Option.none_or] at hs
    exact ⟨hroom, h.isFirst_leastUtilized? hall⟩

theorem exists_choose? (required : Int) (hs : s ∈ l) : ∃ t, choose? l required = some t := by
  obtain ⟨t, ht⟩ := exists_leastUtilized? hs
  unfold choose?
  rw [ht]
  cases leastUtilized? (l.filter fun s => required ≤ s.free) with
  | none => exact ⟨t, Option.none_or⟩
  | some best => exact ⟨best, Option.some_or⟩

end DeviceStatus

namespace Placement

open DeviceStatus (Distinct IsFirst roomy choose?)

variable {l others : List DeviceStatus} {s : DeviceStatus} {required : Int} {request : Resource}
  {mode : Mode}

theorem hasRoom_eq (h : Distinct l) (hs : s ∈ l) :
    hasRoom l s.device required = decide (required ≤ s.free) := by
  unfold hasRoom
  cases hfind : l.find? fun t => t.device = s.device with
  | none => simpa using List.find?_eq_none.1 hfind s hs
  | some t =>
      have hdevice : t.device = s.device := by simpa using List.find?_some hfind
      obtain rfl := List.inj_on_of_nodup_map h (List.mem_of_find?_eq_some hfind) hs hdevice
      rfl

/-- The flag tells the free memory of the chosen entry, and strict placement goes by it. -/
theorem choose_of_choose? (h : Distinct l) (hs : choose? l request.gpuMemory = some s) :
    choose mode l request =
      if mode = .strict ∧ ¬request.gpuMemory ≤ s.free then .error (.noRoom request.gpuMemory)
      else .ok ⟨s.device, decide (request.gpuMemory ≤ s.free)⟩ := by
  have hmem : s ∈ l := by
    rcases h.isFirst_choose? hs with ⟨_, hfirst⟩ | ⟨_, hfirst⟩
    · exact (DeviceStatus.mem_roomy.1 hfirst.mem).1
    · exact hfirst.mem
  unfold choose
  simp only [hs, hasRoom_eq h hmem, decide_eq_true_eq]

/-- The chosen entry has enough free memory if any entry has. -/
theorem fits_iff (h : Distinct l) (hs : choose? l required = some s) :
    required ≤ s.free ↔ ∃ t ∈ l, required ≤ t.free := by
  rcases h.isFirst_choose? hs with ⟨hroom, hfirst⟩ | ⟨hroom, hfirst⟩
  · exact ⟨fun _ => hroom, fun _ => (DeviceStatus.mem_roomy.1 hfirst.mem).2⟩
  · exact ⟨fun hfits => ⟨s, hfirst.mem, hfits⟩, fun hsome => absurd hsome hroom⟩

theorem choose_nil : choose mode [] request = .error .noDevices := rfl

theorem exists_choose_strict_iff (h : Distinct l) :
    (∃ p, choose .strict l request = .ok p) ↔ ∃ s ∈ l, request.gpuMemory ≤ s.free := by
  cases l with
  | nil => simp [choose_nil]
  | cons a l =>
      obtain ⟨s, hs⟩ := DeviceStatus.exists_choose? request.gpuMemory
        (List.mem_cons_self (a := a) (l := l))
      rw [← fits_iff h hs, choose_of_choose? h hs]
      by_cases hfits : request.gpuMemory ≤ s.free <;> simp [hfits]

theorem exists_choose_bestEffort_iff (h : Distinct l) :
    (∃ p, choose .bestEffort l request = .ok p) ↔ l ≠ [] := by
  cases l with
  | nil => simp [choose_nil]
  | cons a l =>
      obtain ⟨s, hs⟩ := DeviceStatus.exists_choose? request.gpuMemory
        (List.mem_cons_self (a := a) (l := l))
      rw [choose_of_choose? h hs]
      simp

/-- What a placement tells is true of the list. -/
theorem told_of_choose {p : Placement} (h : Distinct l) (hp : choose mode l request = .ok p) :
    (p.fits = true ↔ ∃ s ∈ l, request.gpuMemory ≤ s.free) ∧
      ∃ s, s.device = p.device ∧
        ((∃ t ∈ l, request.gpuMemory ≤ t.free) → IsFirst (roomy l request.gpuMemory) s) ∧
        ((¬∃ t ∈ l, request.gpuMemory ≤ t.free) → IsFirst l s) := by
  cases hs : choose? l request.gpuMemory with
  | none => simp [choose, hs] at hp
  | some s =>
      rw [choose_of_choose? h hs] at hp
      split at hp
      · simp at hp
      · obtain rfl := Except.ok.inj hp
        refine ⟨by simpa using fits_iff h hs, s, rfl, ?_⟩
        rcases h.isFirst_choose? hs with ⟨hroom, hfirst⟩ | ⟨hroom, hfirst⟩
        · exact ⟨fun _ => hfirst, fun hnone => absurd hroom hnone⟩
        · exact ⟨fun hsome => absurd hsome hroom, fun _ => hfirst⟩

theorem choose_perm (h : Distinct l) (hperm : others.Perm l) :
    choose mode others request = choose mode l request := by
  cases hs : choose? l request.gpuMemory with
  | none => simp only [choose, hs, h.choose?_perm hperm]
  | some s =>
      rw [choose_of_choose? h hs,
        choose_of_choose? (h.of_perm hperm) ((h.choose?_perm hperm).trans hs)]

/-- **Placement takes the least utilized device and tells whether it fits**, whatever the order of
the list. -/
theorem placement_is_least_utilized (hdistinct : Distinct l) (request : Resource) :
    ((∃ p, choose .strict l request = .ok p) ↔ ∃ s ∈ l, request.gpuMemory ≤ s.free) ∧
    ((∃ p, choose .bestEffort l request = .ok p) ↔ l ≠ []) ∧
    (∀ mode p, choose mode l request = .ok p →
      (p.fits = true ↔ ∃ s ∈ l, request.gpuMemory ≤ s.free) ∧
      ∃ s, s.device = p.device ∧
        ((∃ t ∈ l, request.gpuMemory ≤ t.free) → IsFirst (roomy l request.gpuMemory) s) ∧
        ((¬∃ t ∈ l, request.gpuMemory ≤ t.free) → IsFirst l s)) ∧
    ∀ others, others.Perm l → ∀ mode, choose mode others request = choose mode l request :=
  ⟨exists_choose_strict_iff hdistinct, exists_choose_bestEffort_iff hdistinct,
    fun _ _ hp => told_of_choose hdistinct hp, fun _ hperm _ => choose_perm hdistinct hperm⟩

/-- The least utilized device of all has too little free memory for the first request. The second
is too much for all three, and then this device is taken, however the list is ordered. -/
theorem sample_placement_is_least_utilized :
    let l : List DeviceStatus := [⟨2, 20, 600⟩, ⟨0, 10, 50⟩, ⟨1, 20, 1000⟩]
    let modest := Resource.ofAmounts 0 1 500
    let excessive := Resource.ofAmounts 0 1 4096
    Distinct l ∧ (∃ p, choose .strict l modest = .ok p) ∧
      (¬∃ p, choose .strict l excessive = .ok p) ∧
      IsFirst (roomy l modest.gpuMemory) ⟨1, 20, 1000⟩ ∧
      choose .bestEffort l.reverse excessive = .ok ⟨0, false⟩ := by
  intro l modest excessive
  have hdistinct : Distinct l := by
    unfold Distinct
    decide
  obtain ⟨hstrict, _, htold, _⟩ := placement_is_least_utilized hdistinct modest
  obtain ⟨hnone, _, _, horder⟩ := placement_is_least_utilized hdistinct excessive
  have hroom : ∃ s ∈ l, modest.gpuMemory ≤ s.free := by decide
  obtain ⟨p, hp⟩ := hstrict.2 hroom
  have hdevice : p.device = 1 := by
    have hone : choose .strict l modest = .ok ⟨1, true⟩ := by decide
    rw [hone] at hp
    exact congrArg Placement.device (Except.ok.inj hp).symm
  obtain ⟨_, s, hs, hfirst, _⟩ := htold .strict p hp
  have hfirst := hfirst hroom
  have hmem := (DeviceStatus.mem_roomy.1 hfirst.mem).1
  refine ⟨hdistinct, ⟨p, hp⟩, ?_, ?_, ?_⟩
  · intro hsome
    exact absurd (hnone.1 hsome) (by decide)
  · obtain rfl : s = ⟨1, 20, 1000⟩ := by
      apply List.inj_on_of_nodup_map hdistinct hmem (by decide)
      rw [hs, hdevice]
    exact hfirst
  · rw [horder l.reverse l.reverse_perm .bestEffort]
    decide

end Placement

end Allotment
