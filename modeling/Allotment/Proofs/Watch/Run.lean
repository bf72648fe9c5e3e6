import Allotment.Watch.Request
import Allotment.Proofs.Watch.Procedure

/-!
# Runs of a session

What a session knows of devices and processes depends on the listings alone that its queries have
brought: on the last one, on how many there were, and on the totals that were seen first. Failures
and requests that make no query leave no trace in it.
-/

namespace Allotment

open Status (Listing)

variable {ε : Type} {script : Script ε} {lines : List String} {ls : List Listing} {l : Listing}
  {tree : Ancestry.Tree} {depth n : Nat} {w : Watch} {e : ε}

/-- The listings among the first `n` answers of a script. -/
def Script.listings (script : Script ε) (n : Nat) : List Listing :=
  (List.range n).filterMap fun i => (script i).toOption.map Listing.ofLines

theorem Script.listings_succ_of_ok (h : script n = .ok lines) :
    script.listings (n + 1) = script.listings n ++ [.ofLines lines] := by
  simp [listings, List.range_succ, List.filterMap_append, h, Except.toOption]

theorem Script.listings_succ_of_error (h : script n = .error e) :
    script.listings (n + 1) = script.listings n := by
  simp [listings, List.range_succ, List.filterMap_append, h, Except.toOption]

namespace Survey

/-- The totals that listings leave, one after another. -/
def totalsOf (ls : List Listing) : Totals :=
  ls.foldl addTotals ∅

theorem totalsOf_append_singleton : totalsOf (ls ++ [l]) = addTotals (totalsOf ls) l := by
  rw [totalsOf, List.foldl_append, List.foldl_cons, List.foldl_nil]
  rfl

/-- What is known after listings: the survey of the last one. -/
def ofListings (tree : Ancestry.Tree) (depth : Nat) (ls : List Listing) : Survey :=
  match ls.getLast? with
  | none => .unknown
  | some l => .ofListing ls.length l (totalsOf ls) tree depth

theorem ofListings_append_singleton : ofListings tree depth (ls ++ [l]) =
    .ofListing (ls.length + 1) l (addTotals (totalsOf ls) l) tree depth := by
  rw [ofListings, List.getLast?_append, List.getLast?_singleton, Option.some_or,
    totalsOf_append_singleton, List.length_append, List.length_singleton]

theorem tick_ofListings : (ofListings tree depth ls).tick = ls.length := by
  induction ls using List.reverseRecOn with
  | nil => rfl
  | append_singleton ls l ih =>
      rw [ofListings_append_singleton, List.length_append]
      rfl

end Survey

/-! ## What a watch knows -/

/-- The watch knows of devices and processes what the listings tell, and nothing else. -/
structure Watch.Knows (w : Watch) (ls : List Listing) : Prop where
  ticks : w.ticks = ls.length
  totals : w.totals = Survey.totalsOf ls
  survey : w.survey = Survey.ofListings w.tree w.depth ls

theorem Watch.knows_new {capacity : Nat} : (Watch.new tree depth capacity).Knows [] where
  ticks := rfl
  totals := rfl
  survey := rfl

theorem Watch.Knows.take (h : w.Knows ls) : (w.take lines).Knows (ls ++ [.ofLines lines]) where
  ticks := by
    change w.ticks + 1 = _
    rw [h.ticks, List.length_append, List.length_singleton]
  totals := by
    change Survey.addTotals w.totals (.ofLines lines) = _
    rw [h.totals, Survey.totalsOf_append_singleton]
  survey := by
    change Survey.ofListing (w.ticks + 1) (.ofLines lines)
      (Survey.addTotals w.totals (.ofLines lines)) w.tree w.depth = _
    rw [h.ticks, h.totals, Survey.ofListings_append_singleton]
    rfl

theorem Watch.Knows.tick_eq (h : w.Knows ls) : w.tick = ls.length := by
  rw [Watch.tick, h.survey, Survey.tick_ofListings]

namespace Session

variable {s : Session ε} {x : Request} {xs : List Request}

/-! ## What a request does -/

theorem sample_of_ok (h : s.script s.queries = .ok lines) : s.sample =
    (.ok (s.watch.take lines).survey,
      { s with watch := s.watch.take lines, queries := s.queries + 1 }) := by
  rw [sample, h, Watch.sample_ok]

theorem sample_of_error (h : s.script s.queries = .error e) :
    s.sample = (.error e, { s with queries := s.queries + 1 }) := by
  rw [sample, h, Watch.sample_error]

/-- A request that makes no query changes nothing but the tally. -/
theorem handle_of_ne_sample (hx : x ≠ .sample) : (s.handle x).1.survey? = none ∧
    ∃ tally, (s.handle x).2 = { s with watch := { s.watch with tally } } := by
  cases x with
  | sample => exact absurd rfl hx
  | start app container => exact ⟨rfl, _, rfl⟩
  | stop app container =>
      obtain ⟨tally, hstop⟩ : ∃ tally,
          (s.watch.stop app container).2 = { s.watch with tally } := by
        unfold Watch.stop
        cases s.watch.tally.stop? app container with
        | none => exact ⟨s.watch.tally, rfl⟩
        | some tally => exact ⟨tally, rfl⟩
      exact ⟨rfl, tally, congrArg (fun watch => { s with watch }) hstop⟩
  | see utilization => exact ⟨rfl, _, rfl⟩
  | ask q => exact ⟨rfl, s.watch.tally, rfl⟩
  | askUsage q => exact ⟨rfl, s.watch.tally, rfl⟩

theorem queries_handle : (s.handle x).2.queries = s.queries + if x.isSample then 1 else 0 := by
  cases x with
  | stop app container =>
      obtain ⟨-, tally, hs⟩ := handle_of_ne_sample (s := s) (x := .stop app container) (by simp)
      rw [hs]
      rfl
  | _ => rfl

theorem queries_play : (s.play xs).2.queries = s.queries + xs.countP Request.isSample := by
  induction xs generalizing s with
  | nil => rfl
  | cons x xs ih =>
      rw [List.countP_cons, Nat.add_comm (xs.countP _), ← Nat.add_assoc, ← queries_handle]
      exact ih

/-! ## What a session knows -/

/-- A session without loops that knows what the script has told so far. -/
structure Follows (s : Session ε) (tree : Ancestry.Tree) (depth : Nat) (script : Script ε) :
    Prop where
  tree_eq : s.watch.tree = tree
  depth_eq : s.watch.depth = depth
  script_eq : s.script = script
  loop_eq : s.loop = none
  unheeded_eq : s.unheeded = []
  knows : s.watch.Knows (script.listings s.queries)

theorem follows_new {capacity : Nat} :
    (Session.new (.new tree depth capacity) script).Follows tree depth script where
  tree_eq := rfl
  depth_eq := rfl
  script_eq := rfl
  loop_eq := rfl
  unheeded_eq := rfl
  knows := Watch.knows_new

namespace Follows

theorem sample (h : s.Follows tree depth script) : s.sample.2.Follows tree depth script := by
  obtain ⟨htree, hdepth, rfl, hloop, hunheeded, hknows⟩ := h
  cases hanswer : s.script s.queries with
  | ok lines =>
      rw [sample_of_ok hanswer]
      refine ⟨htree, hdepth, rfl, hloop, hunheeded, ?_⟩
      change (s.watch.take lines).Knows (s.script.listings (s.queries + 1))
      rw [Script.listings_succ_of_ok hanswer]
      exact hknows.take
  | error e =>
      rw [sample_of_error hanswer]
      refine ⟨htree, hdepth, rfl, hloop, hunheeded, ?_⟩
      change s.watch.Knows (s.script.listings (s.queries + 1))
      rwa [Script.listings_succ_of_error hanswer]

theorem handle (h : s.Follows tree depth script) : (s.handle x).2.Follows tree depth script := by
  by_cases hx : x = .sample
  · subst hx
    exact h.sample
  · obtain ⟨-, tally, hs⟩ := handle_of_ne_sample (s := s) hx
    rw [hs]
    exact ⟨h.tree_eq, h.depth_eq, h.script_eq, h.loop_eq, h.unheeded_eq,
      ⟨h.knows.ticks, h.knows.totals, h.knows.survey⟩⟩

theorem play (h : s.Follows tree depth script) : (s.play xs).2.Follows tree depth script := by
  induction xs generalizing s with
  | nil => exact h
  | cons x xs ih => exact ih h.handle

theorem survey_eq (h : s.Follows tree depth script) :
    s.watch.survey = .ofListings tree depth (script.listings s.queries) := by
  rw [h.knows.survey, h.tree_eq, h.depth_eq]

end Follows

end Session

end Allotment
