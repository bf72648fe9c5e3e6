import Allotment.Survey
import Allotment.Usage.Tally

/-!
# The watch over devices

A `Watch` keeps the latest survey, the totals that were seen first, and the tally of the
applications. `Watch.take` says what the lines of a status listing come to. How they are brought in,
one part after another, and what a query that failed leaves behind, is told by
`Watch.Procedure.sample`.
-/

namespace Allotment

open Usage (App Tally)

/-- What is known of the devices, and how it is found. -/
structure Watch where
  /-- The parents of processes. -/
  tree : Ancestry.Tree
  /-- To how many ancestors the memory of a process is put down. -/
  depth : Nat
  /-- How many queries have succeeded. -/
  ticks : Nat
  survey : Survey
  totals : Totals
  tally : Tally

namespace Watch

/-- The watch before its first survey. It keeps so many finished applications. -/
def new (tree : Ancestry.Tree) (depth finishedCapacity : Nat) : Watch where
  tree := tree
  depth := depth
  ticks := 0
  survey := .unknown
  totals := ∅
  tally := .empty finishedCapacity

/-- Takes note of the utilization of the devices, in order. -/
def seeGauges (t : Tally) (gauges : List Gauge) : Tally :=
  gauges.zipIdx.foldl (fun t (g, device) => t.seeOn device g.utilization) t

def take (w : Watch) (lines : List String) : Watch :=
  let listing := Status.Listing.ofLines lines
  let ticks := w.ticks + 1
  let totals := Survey.addTotals w.totals listing
  let survey := Survey.ofListing ticks listing totals w.tree w.depth
  { w with ticks, survey, totals, tally := seeGauges w.tally survey.gauges }

/-- Watches a container from now on and tells how many containers its application has. -/
def start (w : Watch) (app : App) (container : String) : Nat × Watch :=
  let (count, tally) :=
    w.tally.start app container ((w.survey.utilization? app.device).getD 0)
  (count, { w with tally })

/-- Stops watching a container and tells whether it was watched. -/
def stop (w : Watch) (app : App) (container : String) : Bool × Watch :=
  match w.tally.stop? app container with
  | some tally => (true, { w with tally })
  | none => (false, w)

/-- Takes note of a utilization for all active applications. -/
def see (w : Watch) (utilization : Nat) : Watch :=
  { w with tally := w.tally.see utilization }

def tick (w : Watch) : Nat :=
  w.survey.tick

@[simp] theorem tick_take {w : Watch} {lines : List String} :
    (w.take lines).tick = w.ticks + 1 :=
  rfl

end Watch

end Allotment
