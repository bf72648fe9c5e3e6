import Mathlib.Algebra.Ring.Divisibility.Basic
import Mathlib.Data.List.Nodup
import Allotment.Proofs.Demand.Alignment
import Allotment.Proofs.Reservation.Shortfall

/-!
# Demands made step by step

A list of demands that are made one after another, each for the length of a bucket, cuts the window
into slots. At every instant of the window the demand is that of the slot that holds it. A bucket
that starts along with a slot is that slot; any other bucket lies across two neighbouring slots, or
reaches over an end of the window, and its profile keeps the greater amounts of both.
-/

namespace Allotment

open Demand (Interval Step Profile load peak)

variable {start length t b : Int} {k n : Nat} {l : List Resource} {s : Step} {d : Dimension}

namespace Demands

/-- Demands under different keys are all kept. -/
theorem toList_ofList_perm {demands : List (Interval × Resource)}
    (h : demands.Pairwise fun x y => x.1 ≠ y.1) : (ofList demands).toList.Perm demands := by
  have hkeys : demands.Pairwise fun x y => ¬Interval.compare x.1 y.1 = .eq :=
    h.imp fun hne heq => hne (Interval.compare_eq_eq.1 heq)
  have hkept {x : Interval × Resource} (hx : x ∈ demands) :
      (ofList demands)[x.1]? = some x.2 :=
    Std.ExtTreeMap.getElem?_ofList_of_mem Std.ReflCmp.compare_self hkeys hx
  have hnodup : (ofList demands).toList.Nodup := by
    apply (Std.ExtTreeMap.distinct_keys_toList (t := ofList demands)).imp
    rintro x y hne rfl
    exact hne Std.ReflCmp.compare_self
  have hnodup' : demands.Nodup := by
    apply h.imp
    rintro x y hne rfl
    exact hne rfl
  rw [List.perm_ext_iff_of_nodup hnodup hnodup']
  rintro ⟨i, r⟩
  rw [Std.ExtTreeMap.mem_toList_iff_getElem?_eq_some]
  constructor
  · intro hget
    have hmem : i ∈ ofList demands := by
      rw [Std.ExtTreeMap.mem_iff_isSome_getElem?, hget]
      rfl
    have hkey : i ∈ demands.map Prod.fst := by
      simpa [ofList, Std.ExtTreeMap.mem_ofList] using hmem
    obtain ⟨x, hx, rfl⟩ := List.mem_map.1 hkey
    rw [hkept hx] at hget
    exact Option.some.inj hget ▸ hx
  · exact hkept

/-! ## Slots -/

/-- The time during which the `k`-th of the demands is made. -/
def slot (start length : Int) (k : Nat) : Interval :=
  ⟨start + k * length, start + k * length + length⟩

/-- The demands with their slots. -/
def slots (start length : Int) (l : List Resource) : List (Interval × Resource) :=
  l.zipIdx.map fun (r, k) => (slot start length k, r)

/-- The times of the demands are those of the slots if the word holds them all. -/
theorem ofSteps_eq (hlength : 0 < length) (hstart : Word.word64.Holds start)
    (hstop : Word.word64.Holds (start + l.length * length)) :
    ofSteps start length l = ofList (slots start length l) := by
  unfold ofSteps slots
  congr 1
  apply List.map_congr_left
  rintro ⟨r, k⟩ hk
  have hk : (k + 1 : Int) ≤ l.length := by
    have := List.snd_lt_of_mem_zipIdx hk
    omega
  have hfirst : 0 * length ≤ k * length := Int.mul_le_mul_of_nonneg_right (by omega) hlength.le
  have hlast : (k + 1) * length ≤ l.length * length :=
    Int.mul_le_mul_of_nonneg_right hk hlength.le
  rw [Int.add_mul] at hlast
  have hbegins : Word.word64.Holds (start + k * length) :=
    ⟨Int.le_trans hstart.1 (by omega), Int.le_trans (by omega) hstop.2⟩
  have hends : Word.word64.Holds (start + k * length + length) :=
    ⟨Int.le_trans hstart.1 (by omega), Int.le_trans (by omega) hstop.2⟩
  simp only [slot, Word.wrap_add_wrap, Word.wrap_eq_self hbegins, Word.wrap_eq_self hends]

theorem slots_append_singleton {r : Resource} :
    slots start length (l ++ [r]) = slots start length l ++ [(slot start length l.length, r)] := by
  simp [slots, List.zipIdx_append]

theorem mem_slots_iff {x : Interval × Resource} :
    x ∈ slots start length l ↔ ∃ k, ∃ h : k < l.length, x = (slot start length k, l[k]) := by
  unfold slots
  simp only [List.mem_map, Prod.exists, List.mem_zipIdx_iff_getElem?, List.getElem?_eq_some_iff]
  constructor
  · rintro ⟨r, k, ⟨hk, hr⟩, rfl⟩
    exact ⟨k, hk, hr ▸ rfl⟩
  · rintro ⟨k, hk, rfl⟩
    exact ⟨l[k], k, ⟨hk, rfl⟩, rfl⟩

section Length

variable (hlength : 0 < length)

include hlength

/-- The slot that holds an instant is found by division. -/
theorem mem_slot_iff : t ∈ slot start length k ↔ (t - start) / length = k := by
  rw [Int.ediv_eq_iff_of_pos hlength]
  unfold slot
  rw [Interval.mem_iff]
  dsimp only
  omega

theorem start_mem_slot : start + k * length ∈ slot start length k := by
  unfold slot
  rw [Interval.mem_iff]
  dsimp only
  omega

theorem slot_le_window (hk : k < n) :
    slot start length k ≤ (⟨start, start + n * length⟩ : Interval) := by
  have hfirst : 0 * length ≤ k * length := Int.mul_le_mul_of_nonneg_right (by omega) hlength.le
  have hlast : (k + 1) * length ≤ n * length :=
    Int.mul_le_mul_of_nonneg_right (by omega) hlength.le
  rw [Int.add_mul] at hlast
  exact ⟨by dsimp only [slot]; omega, by dsimp only [slot]; omega⟩

/-- The slots make up the window. -/
theorem mem_window_iff : t ∈ (⟨start, start + n * length⟩ : Interval) ↔
    ∃ k < n, t ∈ slot start length k := by
  constructor
  · rintro ⟨hstart, hstop⟩
    dsimp only at hstart hstop
    have hnonneg : 0 ≤ (t - start) / length := Int.ediv_nonneg (by omega) hlength.le
    have hlt : (t - start) / length < n := (Int.ediv_lt_iff_lt_mul hlength).2 (by omega)
    exact ⟨((t - start) / length).toNat, by omega, (mem_slot_iff hlength).2 (by omega)⟩
  · rintro ⟨k, hk, hmem⟩
    obtain ⟨hstart, hstop⟩ := slot_le_window hlength hk
    exact ⟨Int.le_trans hstart hmem.1, Int.lt_of_lt_of_le hmem.2 hstop⟩

/-- No instant is in two slots. -/
theorem slot_unique {m : Nat} (hk : t ∈ slot start length k) (hm : t ∈ slot start length m) :
    k = m := by
  rw [mem_slot_iff hlength] at hk hm
  omega

theorem slot_inj {m : Nat} (h : slot start length k = slot start length m) : k = m :=
  slot_unique hlength (start_mem_slot hlength) (h ▸ start_mem_slot hlength)

/-- Each slot is entered under a key of its own. -/
theorem toList_ofSteps_perm (hstart : Word.word64.Holds start)
    (hstop : Word.word64.Holds (start + l.length * length)) :
    (ofSteps start length l).toList.Perm (slots start length l) := by
  rw [ofSteps_eq hlength hstart hstop]
  apply toList_ofList_perm
  have hnumbers : l.zipIdx.Pairwise fun x y => x.2 ≠ y.2 := by
    rw [← List.pairwise_map (f := Prod.snd) (R := (· ≠ ·)), List.zipIdx_map_snd]
    exact List.nodup_range'
  exact List.pairwise_map.2 (hnumbers.imp fun hne heq => hne (slot_inj hlength heq))

/-! ## What is asked for in a slot -/

omit hlength in
theorem load_slots_of_forall_not_mem (h : ∀ k < l.length, t ∉ slot start length k) :
    load (slots start length l) d t = 0 := by
  by_contra hne
  obtain ⟨x, hx, _, ht⟩ := Demand.exists_of_load_ne_zero hne
  obtain ⟨k, hk, rfl⟩ := mem_slots_iff.1 hx
  exact h k hk ht

theorem load_slots_of_mem (hk : k < l.length) (ht : t ∈ slot start length k) :
    load (slots start length l) d t = l[k].get d := by
  induction l using List.reverseRecOn with
  | nil => simp at hk
  | append_singleton l r ih =>
      rw [slots_append_singleton, Demand.load_append_singleton]
      by_cases hlast : k = l.length
      · subst hlast
        rw [if_pos ht, load_slots_of_forall_not_mem]
        · simp
        · intro m hm hmem
          have := slot_unique hlength hmem ht
          omega
      · have hbefore : k < l.length := by
          rw [List.length_append, List.length_singleton] at hk
          omega
        have hnot : t ∉ slot start length l.length := fun hmem =>
          hlast (slot_unique hlength ht hmem)
        rw [if_neg hnot, Int.add_zero, ih hbefore, List.getElem_append_left hbefore]

end Length

/-! ## Buckets across slots -/

/-- The `k`-th slot shares an instant with the bucket that starts at `b`. -/
def Meets (s : Step) (b start : Int) (k : Nat) : Prop :=
  ∃ t ∈ s.bucket b, t ∈ slot start s.ms k

/-- A bucket meets the slot in which it starts, and the next one unless they start together. -/
theorem meets_iff (hb : s.ms ∣ b) :
    Meets s b start k ↔ (k : Int) = (b - start) / s.ms ∨
      ¬s.ms ∣ start ∧ (k : Int) = (b - start) / s.ms + 1 := by
  have hpos := s.pos
  obtain ⟨hlow, hhigh⟩ := (Int.ediv_eq_iff_of_pos (x := b - start) hpos).1 rfl
  have hdvd : s.ms ∣ start ↔ (b - start) / s.ms * s.ms = b - start :=
    (dvd_sub_right hb).symm.trans ⟨Int.ediv_mul_cancel, Dvd.intro_left _⟩
  unfold Meets
  simp only [mem_slot_iff hpos, Demand.mem_bucket_iff]
  generalize (b - start) / s.ms = q at *
  rw [hdvd]
  constructor
  · rintro ⟨t, ⟨hstart, hstop⟩, ht⟩
    have hleast : q ≤ (t - start) / s.ms := by
      rw [Int.le_ediv_iff_mul_le hpos]
      omega
    have hmost : (t - start) / s.ms < q + 2 := by
      rw [Int.ediv_lt_iff_lt_mul hpos, Int.add_mul]
      omega
    have hnext : q + 1 ≤ (t - start) / s.ms → q * s.ms ≠ b - start := by
      rw [Int.le_ediv_iff_mul_le hpos, Int.add_mul]
      omega
    omega
  · rintro (hk | ⟨hne, hk⟩)
    · refine ⟨b, ⟨Int.le_refl b, by omega⟩, ?_⟩
      rw [hk, Int.ediv_eq_iff_of_pos hpos]
      omega
    · refine ⟨start + (q + 1) * s.ms, ?_, ?_⟩
      · rw [Int.add_mul]
        omega
      · rw [hk, Int.ediv_eq_iff_of_pos hpos]
        omega

section Sampling

variable (hnonneg : ∀ r ∈ l, 0 ≤ r)

theorem peak_slots_of_none (h : ∀ k < l.length, ¬Meets s b start k) :
    peak s (slots start s.ms l) d b = 0 := by
  obtain ⟨t, ht, hpeak⟩ := Demand.exists_load_eq_peak s (slots start s.ms l) d b
  rw [← hpeak]
  exact load_slots_of_forall_not_mem fun k hk hmem => h k hk ⟨t, ht, hmem⟩

include hnonneg

/-- The peak of a bucket is the greatest of the demands whose slots it meets. -/
theorem isGreatest_peak_slots (hmeets : ∃ k < l.length, Meets s b start k) :
    IsGreatest {v | ∃ k, ∃ h : k < l.length, Meets s b start k ∧ v = l[k].get d}
      (peak s (slots start s.ms l) d b) := by
  have hbound : ∀ k, ∀ h : k < l.length, Meets s b start k →
      l[k].get d ≤ peak s (slots start s.ms l) d b := by
    rintro k hk ⟨t, ht, hmem⟩
    rw [← load_slots_of_mem s.pos hk hmem]
    exact Demand.load_le_peak ht
  constructor
  · obtain ⟨t, ht, hpeak⟩ := Demand.exists_load_eq_peak s (slots start s.ms l) d b
    by_cases hslot : ∃ k < l.length, t ∈ slot start s.ms k
    · obtain ⟨k, hk, hmem⟩ := hslot
      exact ⟨k, hk, ⟨t, ht, hmem⟩, by rw [← hpeak, load_slots_of_mem s.pos hk hmem]⟩
    · -- the bucket reaches over the window, where nothing is asked for
      obtain ⟨k, hk, hmeet⟩ := hmeets
      have hle := hbound k hk hmeet
      have hzero : load (slots start s.ms l) d t = 0 :=
        load_slots_of_forall_not_mem fun k hk hmem => hslot ⟨k, hk, hmem⟩
      have hget := Resource.get_nonneg (hnonneg l[k] (List.getElem_mem hk)) d
      exact ⟨k, hk, hmeet, by omega⟩
  · rintro v ⟨k, hk, hmeet, rfl⟩
    exact hbound k hk hmeet

end Sampling

end Demands

/-! ## Reservations made step by step -/

namespace Reservation

open Demands

/-- Asks for the demands one after another, each for the length of a bucket, and for no more
time. -/
def stepwise (id : ReservationId) (user queue : String) (start : Int) (s : Step)
    (l : List Resource) : Reservation :=
  ⟨id, user, queue, ⟨start, start + l.length * s.ms⟩, .ofSteps start s.ms l⟩

variable {id : ReservationId} {user queue : String}

theorem mem_window_stepwise :
    t ∈ (stepwise id user queue start s l).window ↔
      ∃ k < l.length, t ∈ slot start s.ms k :=
  mem_window_iff s.pos

section Held

variable (hstart : Word.word64.Holds start) (hstop : Word.word64.Holds (start + l.length * s.ms))

include hstart hstop

theorem valid_stepwise (hne : l ≠ []) (hnonneg : ∀ r ∈ l, 0 ≤ r) (huser : user ≠ "") :
    (stepwise id user queue start s l).Valid := by
  have hlength : 0 < l.length := List.length_pos_iff.2 hne
  refine valid_iff.2 ⟨huser, ?_, ?_⟩
  · intro hempty
    exact Interval.isEmpty_iff.1 hempty _
      (mem_window_stepwise.2 ⟨0, hlength, start_mem_slot s.pos⟩)
  · intro x hx
    obtain ⟨k, hk, rfl⟩ :=
      mem_slots_iff.1 ((toList_ofSteps_perm s.pos hstart hstop).mem_iff.1 hx)
    refine ⟨?_, slot_le_window s.pos hk, hnonneg l[k] (List.getElem_mem hk)⟩
    exact fun hempty => Interval.isEmpty_iff.1 hempty _ (start_mem_slot s.pos)

theorem load_stepwise :
    (stepwise id user queue start s l).load d t = Demand.load (slots start s.ms l) d t := by
  unfold load Demand.load
  exact Demand.amount_perm (toList_ofSteps_perm s.pos hstart hstop)

theorem peak_stepwise :
    (stepwise id user queue start s l).peak s d b = Demand.peak s (slots start s.ms l) d b :=
  Demand.peak_perm (toList_ofSteps_perm s.pos hstart hstop)

/-- There is one demand at a time, so the words hold what is asked for. -/
theorem faithful_stepwise : (stepwise id user queue start s l).Faithful := by
  intro d t
  rw [load_stepwise hstart hstop]
  by_cases hslot : ∃ k < l.length, t ∈ slot start s.ms k
  · obtain ⟨k, hk, hmem⟩ := hslot
    rw [load_slots_of_mem s.pos hk hmem]
    exact (Resource.holds_get l[k] d).2
  · rw [load_slots_of_forall_not_mem fun k hk hmem => hslot ⟨k, hk, hmem⟩]
    exact d.word.greatest_pos.le

variable (hne : l ≠ []) (hnonneg : ∀ r ∈ l, 0 ≤ r) (huser : user ≠ "")

include hne hnonneg huser

theorem get_demandAt_stepwise :
    ((stepwise id user queue start s l).demandAt t).get d =
      Demand.load (slots start s.ms l) d t := by
  have hload : (stepwise id user queue start s l).load d t = _ := load_stepwise hstart hstop
  rw [← hload]
  exact (valid_stepwise hstart hstop hne hnonneg huser).get_demandAt_of_faithful
    (faithful_stepwise hstart hstop)

theorem get_profile_stepwise (halign : s.Aligns start) (ht : Word.word64.Holds t) :
    (((stepwise id user queue start s l).profile s).demandAt s t).get d =
      Demand.peak s (slots start s.ms l) d (s.floor t) := by
  have hpeak : (stepwise id user queue start s l).peak s d (s.floor t) = _ :=
    peak_stepwise hstart hstop
  have hvalid : (stepwise id user queue start s l).Valid :=
    valid_stepwise hstart hstop hne hnonneg huser
  have htime : (stepwise id user queue start s l).InTime s := ⟨halign.1, hstop.2⟩
  rw [Profile.demandAt_eq_get_floor (fun _ => hvalid.starts_of_mem_profile htime) ht, ← hpeak]
  exact hvalid.get_profile_of_faithful htime (faithful_stepwise hstart hstop) Step.dvd_floor

end Held

/-- **Demands made step by step mean what they say.** The demand at an instant is that of its slot,
and the profile tells the greatest amounts of the slots that a bucket meets. -/
theorem stepwise_means_what_it_says (id : ReservationId) (queue : String) (start : Int) (s : Step)
    (hstart : Word.word64.Holds start) (hstop : Word.word64.Holds (start + l.length * s.ms))
    (hne : l ≠ []) (hnonneg : ∀ r ∈ l, 0 ≤ r) (huser : user ≠ "") :
    let r := stepwise id user queue start s l
    r.Valid ∧
    (∀ t ∈ r.window, ∃ k, ∃ h : k < l.length,
      (t - start) / s.ms = k ∧ r.demandAt t = l[k]) ∧
    (∀ t ∉ r.window, r.demandAt t = 0) ∧
    (s.Aligns start → ∀ t, Word.word64.Holds t →
      (∀ k : Nat, Meets s (s.floor t) start k ↔ (k : Int) = (s.floor t - start) / s.ms ∨
        ¬s.ms ∣ start ∧ (k : Int) = (s.floor t - start) / s.ms + 1) ∧
      ((∃ k < l.length, Meets s (s.floor t) start k) →
        ∀ d, IsGreatest {v | ∃ k, ∃ h : k < l.length, Meets s (s.floor t) start k ∧ v = l[k].get d}
          (((r.profile s).demandAt s t).get d)) ∧
      ((∀ k < l.length, ¬Meets s (s.floor t) start k) → (r.profile s).demandAt s t = 0)) := by
  intro r
  refine ⟨valid_stepwise hstart hstop hne hnonneg huser, ?_, ?_,
    fun halign t ht => ⟨fun k => meets_iff Step.dvd_floor, ?_, ?_⟩⟩
  · intro t ht
    obtain ⟨k, hk, hmem⟩ := mem_window_stepwise.1 ht
    refine ⟨k, hk, (mem_slot_iff s.pos).1 hmem, Resource.ext_get fun d => ?_⟩
    rw [get_demandAt_stepwise hstart hstop hne hnonneg huser, load_slots_of_mem s.pos hk hmem]
  · intro t ht
    apply Resource.ext_get
    intro d
    rw [get_demandAt_stepwise hstart hstop hne hnonneg huser, Resource.get_zero]
    exact load_slots_of_forall_not_mem fun k hk hmem =>
      ht (mem_window_stepwise.2 ⟨k, hk, hmem⟩)
  · intro hmeets d
    rw [get_profile_stepwise hstart hstop hne hnonneg huser halign ht]
    exact isGreatest_peak_slots hnonneg hmeets
  · intro hnone
    apply Resource.ext_get
    intro d
    rw [get_profile_stepwise hstart hstop hne hnonneg huser halign ht, peak_slots_of_none hnone,
      Resource.get_zero]

namespace Sample

/-- Equal neighbours, then a gap, then a last demand. -/
def demands : List Resource :=
  [.ofAmounts 60 1 0, .ofAmounts 60 1 0, 0, .ofAmounts 40 2 5]

/-- Starts in the middle of a bucket. -/
def straddling : Reservation :=
  stepwise ⟨1⟩ "u1" "dedicated" 10 ⟨20, by decide⟩ demands

end Sample

/-- The bucket from twenty to forty meets the first two slots and no other; from ninety on nothing
is asked for. -/
theorem straddling_means_what_it_says :
    Sample.straddling.Valid ∧
    (∃ k, ∃ h : k < Sample.demands.length,
      ((80 : Int) - 10) / 20 = k ∧ Sample.straddling.demandAt 80 = Sample.demands[k]) ∧
    Sample.straddling.demandAt 90 = 0 ∧
    (∀ k : Nat, Meets ⟨20, by decide⟩ 20 10 k ↔ (k : Int) = 0 ∨ (k : Int) = 1) ∧
    IsGreatest {v | ∃ k, ∃ h : k < Sample.demands.length,
        Meets ⟨20, by decide⟩ 20 10 k ∧ v = Sample.demands[k].get .memory}
      (((Sample.straddling.profile ⟨20, by decide⟩).demandAt ⟨20, by decide⟩ 34).get .memory) := by
  have hne : Sample.demands ≠ [] := by decide
  have hnonneg : ∀ r ∈ Sample.demands, 0 ≤ r := by decide
  have huser : "u1" ≠ "" := by decide
  obtain ⟨hvalid, hinside, houtside, hbuckets⟩ := stepwise_means_what_it_says ⟨1⟩ "dedicated" 10
    ⟨20, by decide⟩ (by decide) (by decide) hne hnonneg huser
  obtain ⟨hslots, hgreatest, _⟩ := hbuckets (by decide) 34 (by decide)
  have hfloor : (⟨20, by decide⟩ : Step).floor 34 = 20 := by decide
  rw [hfloor] at hslots hgreatest
  refine ⟨hvalid, hinside 80 (by decide), houtside 90 (by decide), fun k => ?_, ?_⟩
  · rw [hslots]
    dsimp only
    omega
  · exact hgreatest ⟨0, by decide, (hslots 0).2 (.inl rfl)⟩ .memory

end Reservation

end Allotment
