import Mathlib.Algebra.Order.BigOperators.Group.List
import Mathlib.Algebra.Order.Ring.Nat
import Mathlib.Logic.Function.Iterate
import Allotment.Proofs.Watch.Run

/-!
# The schedule of a loop

A loop makes its queries one period after the other, the first one at once, whatever comes of them.
So the number of its queries follows from the time that has passed since it was started, and it
makes no difference in which parts the time has passed.
-/

namespace Allotment

variable {ε : Type} {script : Script ε} {tree : Ancestry.Tree} {depth m n : Nat}

/-- What the answers with the given numbers add to the listings. -/
theorem Script.length_listings_add : (script.listings (m + n)).length =
    (script.listings m).length + (List.range n).countP fun i => (script (m + i)).isOk := by
  have hsome : ∀ i, ((script i).toOption.map Status.Listing.ofLines).isSome = (script i).isOk := by
    intro i
    cases script i <;> rfl
  unfold listings
  rw [List.range_add, List.filterMap_append, List.length_append, List.filterMap_map,
    List.length_filterMap_eq_countP (l := List.range n)]
  simp only [Function.comp_apply, hsome]

/-- The loop when it has made so many more queries. -/
def Loop.skip (l : Loop) (n : Nat) : Loop :=
  { l with due := l.due + n * l.period }

theorem Loop.skip_zero {l : Loop} : l.skip 0 = l := by
  simp [skip]

theorem Loop.skip_succ {l : Loop} :
    l.skip (n + 1) = ({ l with due := l.due + l.period } : Loop).skip n := by
  have hdue : l.due + (n + 1) * l.period = l.due + l.period + n * l.period := by
    rw [Nat.add_mul, Nat.one_mul]
    omega
  simp only [skip, hdue]

namespace Session

variable {s : Session ε} {l : Loop} {now ms elapsed period : Nat}

/-! ## Queries one after another -/

/-- The session after so many queries. -/
def sampleTimes (s : Session ε) (n : Nat) : Session ε :=
  sampleInLoop^[n] s

theorem sampleTimes_succ : s.sampleTimes (n + 1) = s.sampleInLoop.sampleTimes n := rfl

theorem sampleTimes_add : s.sampleTimes (m + n) = (s.sampleTimes m).sampleTimes n := by
  rw [sampleTimes, Nat.add_comm, Function.iterate_add_apply]
  rfl

/-- Queries have nothing to do with the clock and the loops. -/
theorem sampleTimes_with {loop : Option Loop} {unheeded : List Loop} :
    ({ s with now, loop, unheeded } : Session ε).sampleTimes n =
      { s.sampleTimes n with now, loop, unheeded } := by
  induction n generalizing s with
  | zero => rfl
  | succ n ih => exact ih (s := s.sampleInLoop)

theorem play_replicate_sample :
    (s.play (List.replicate n .sample)).2 = s.sampleTimes n := by
  induction n generalizing s with
  | zero => rfl
  | succ n ih => exact ih (s := s.sampleInLoop)

/-! ## Queries of a loop -/

theorem catchUp_of_lt (h : now < l.due) : catchUp l now s = (l, s) := by
  rw [catchUp, if_neg (Nat.not_le_of_gt h)]

/-- A loop catches up with the clock. -/
theorem catchUp_eq (hlate : now < (l.skip n).due) (hdue : n = 0 ∨ (l.skip (n - 1)).due ≤ now) :
    catchUp l now s = (l.skip n, s.sampleTimes n) := by
  induction n generalizing l s with
  | zero =>
      rw [Loop.skip_zero] at hlate ⊢
      exact catchUp_of_lt hlate
  | succ n ih =>
      have hfirst : l.due ≤ now := by
        have hle : (l.skip n).due ≤ now := hdue.resolve_left (Nat.succ_ne_zero n)
        exact Nat.le_trans (Nat.le_add_right _ _) hle
      rw [catchUp, if_pos hfirst, Loop.skip_succ, sampleTimes_succ]
      rw [Loop.skip_succ] at hlate
      apply ih hlate
      cases n with
      | zero => exact .inl rfl
      | succ k =>
          right
          rw [Nat.add_sub_cancel, ← Loop.skip_succ]
          exact hdue.resolve_left (Nat.succ_ne_zero _)

/-- A session in which a loop, the only one, was started so many milliseconds ago. -/
def running (s : Session ε) (period elapsed : Nat) (hpos : 0 < period) : Session ε :=
  { s.sampleTimes (elapsed / period + 1) with
    now := s.now + elapsed
    loop := some ⟨period, s.now + (elapsed / period + 1) * period, hpos⟩
    unheeded := [] }

theorem startLoop_eq_running {interval : Nat} (hloop : s.loop = none)
    (hunheeded : s.unheeded = []) :
    s.startLoop interval = s.running (max interval 1) 0 (Nat.le_max_right interval 1) := by
  have hnothing : s.loop.toList ++ s.unheeded = [] := by
    rw [hloop, hunheeded]
    rfl
  simp only [startLoop, running, hnothing, Nat.zero_div, Nat.zero_add, Nat.one_mul, Nat.add_zero]
  rfl

theorem advance_of_catchUp {r : Loop × Session ε} (hloop : s.loop = some l)
    (hunheeded : s.unheeded = [])
    (h : catchUp l (s.now + ms) { s with now := s.now + ms } = r) :
    s.advance ms = { r.2 with loop := some r.1, unheeded := [] } := by
  unfold advance
  rw [hloop, hunheeded, Option.toList_some]
  simp only [catchUpAll]
  rw [← hloop, ← hunheeded, h]
  rfl

/-- Time that passes makes the queries that are due in it. -/
theorem advance_running {hpos : 0 < period} :
    (s.running period elapsed hpos).advance ms = s.running period (elapsed + ms) hpos := by
  have hle : elapsed / period ≤ (elapsed + ms) / period :=
    Nat.div_le_div_right (Nat.le_add_right _ _)
  obtain ⟨n, hn⟩ := Nat.exists_eq_add_of_le hle
  let l : Loop := ⟨period, s.now + (elapsed / period + 1) * period, hpos⟩
  have hskip : ∀ k, l.skip k = ⟨period, s.now + (elapsed / period + k + 1) * period, hpos⟩ := by
    intro k
    have hdue : s.now + (elapsed / period + 1) * period + k * period =
        s.now + (elapsed / period + k + 1) * period := by
      rw [Nat.add_assoc, ← Nat.add_mul, Nat.add_right_comm]
    simp only [Loop.skip, l, hdue]
  have hlate : s.now + elapsed + ms < (l.skip n).due := by
    rw [hskip, ← hn, Nat.add_assoc, Nat.mul_comm]
    exact Nat.add_lt_add_left (Nat.lt_mul_div_succ (elapsed + ms) hpos) s.now
  have hdue : n = 0 ∨ (l.skip (n - 1)).due ≤ s.now + elapsed + ms := by
    cases n with
    | zero => exact .inl rfl
    | succ k =>
        right
        rw [Nat.add_sub_cancel, hskip, Nat.add_assoc, Nat.add_assoc, ← hn]
        exact Nat.add_le_add_left (Nat.div_mul_le_self _ _) s.now
  have hmade : (s.sampleTimes (elapsed / period + 1)).sampleTimes n =
      s.sampleTimes ((elapsed + ms) / period + 1) := by
    rw [← sampleTimes_add, hn, Nat.add_right_comm]
  have hnow : s.now + elapsed + ms = s.now + (elapsed + ms) := Nat.add_assoc _ _ _
  rw [advance_of_catchUp (l := l) rfl rfl (catchUp_eq hlate hdue), hskip, ← hn]
  simp only [running, sampleTimes_with, hmade, hnow]

theorem foldl_advance_running {advances : List Nat} {hpos : 0 < period} :
    advances.foldl advance (s.running period elapsed hpos) =
      s.running period (elapsed + advances.sum) hpos := by
  induction advances generalizing elapsed with
  | nil => rfl
  | cons ms advances ih =>
      rw [List.foldl_cons, advance_running, ih, List.sum_cons, Nat.add_assoc]

end Session

end Allotment
