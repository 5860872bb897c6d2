import CertSteward.Decimal.Shortest
import CertSteward.Health.Summary

/-!
# Counts of what was done

Issuances by operation and outcome with their durations, challenge records left behind, sweeps,
renewals by outcome, and the health of the certificates. A count is shown once it has been asked
for, even if it is zero.

## Main definitions

* `Note` — what there is to count
* `Metrics`, `Metrics.addIssuance`, `addDebt`, `addSweep`, `addTask`, `observe`, `take` — counting
* `Metrics.text` — all counts as text, in the order of their names
-/

namespace CertSteward

/-- How long the runs of an operation took. -/
structure Durations where
  /-- How many took at most so many seconds, for each limit. -/
  within : List (Nat × Nat)
  /-- Seconds in total. -/
  sum : Float := 0
  /-- How many runs there were. -/
  count : Nat := 0

namespace Durations

/-- The limits in seconds. -/
def limits : List Nat := [1, 5, 15, 30, 60, 120, 300]

/-- No run. -/
def none : Durations := { within := limits.map fun l => (l, 0) }

/-- Adds a run. -/
def add (d : Durations) (seconds : Float) : Durations :=
  { within := d.within.map fun (l, n) => (l, if seconds ≤ Float.ofNat l then n + 1 else n)
    sum := d.sum + seconds
    count := d.count + 1 }

end Durations

/-- What is noted while work is done. -/
inductive Note
  /-- An issuance took so long and came to an outcome. -/
  | issuance (operation outcome : String) (time : Duration)
  /-- Challenge records were left behind. -/
  | debt (records : Nat)
  /-- A sweep came to its end. -/
  | sweep
  /-- A renewal of a sweep came to an outcome. -/
  | renewal (outcome : String)
  /-- The certificates were looked at. -/
  | health (summary : HealthSummary)

/-- All counts. -/
structure Metrics where
  /-- Issuances by operation and outcome. -/
  issuances : List ((String × String) × Nat) := []
  /-- Durations by operation. -/
  durations : List (String × Durations) := []
  /-- Challenge records left behind. -/
  debt : Nat := 0
  /-- Sweeps. -/
  sweeps : Nat := 0
  /-- Renewals by outcome. -/
  tasks : List (String × Nat) := []
  /-- The health of the certificates. -/
  health : Option HealthSummary := none

namespace Metrics

/-- Changes the value of a key, which begins with `start`. -/
def update [BEq κ] (start : α) (f : α → α) (key : κ) : List (κ × α) → List (κ × α)
  | [] => [(key, f start)]
  | (k, v) :: rest => if k == key then (k, f v) :: rest else (k, v) :: update start f key rest

/-! ### Counting -/

/-- Counts an issuance. -/
def addIssuance (m : Metrics) (operation outcome : String) (seconds : Float) : Metrics :=
  { m with
    issuances := update 0 (· + 1) (operation, outcome) m.issuances
    durations := update .none (·.add seconds) operation m.durations }

/-- Counts challenge records left behind. -/
def addDebt (m : Metrics) (records : Nat) : Metrics := { m with debt := m.debt + records }

/-- Counts a sweep. -/
def addSweep (m : Metrics) : Metrics := { m with sweeps := m.sweeps + 1 }

/-- Counts a renewal. -/
def addTask (m : Metrics) (outcome : String) : Metrics :=
  { m with tasks := update 0 (· + 1) outcome m.tasks }

/-- Takes the health of the certificates in. -/
def observe (m : Metrics) (s : HealthSummary) : Metrics := { m with health := some s }

/-- The number of issuances of an operation with an outcome, which is shown from now on. -/
def issuanceCount (m : Metrics) (operation outcome : String) : Nat × Metrics :=
  ((m.issuances.lookup (operation, outcome)).getD 0,
    { m with issuances := update 0 id (operation, outcome) m.issuances })

/-- Counts what is noted. -/
def take (m : Metrics) : Note → Metrics
  | .issuance operation outcome time => m.addIssuance operation outcome (Duration.toFloat time)
  | .debt records => m.addDebt records
  | .sweep => m.addSweep
  | .renewal outcome => m.addTask outcome
  | .health summary => m.observe summary

/-! ### Text -/

/-- A value of a label, in which the backslash, the mark and the line feed are escaped. -/
def labelValue (s : String) : String :=
  String.ofList (s.toList.flatMap fun c =>
    if c = '\\' then ['\\', '\\'] else if c = '"' then ['\\', '"']
    else if c = '\n' then ['\\', 'n'] else [c])

/-- Labels in braces. -/
def labels (ls : List (String × String)) : String :=
  "\x7b" ++ Text.join "," (ls.map fun (k, v) => k ++ "=\"" ++ labelValue v ++ "\"") ++ "\x7d"

/-- One line. -/
def sample (name : String) (ls : List (String × String)) (value : String) : String :=
  "certkeeper_" ++ name ++ (if ls = [] then "" else labels ls) ++ " " ++ value ++ "\n"

/-- The lines of a count with what it means, nothing if there are none. -/
def family (name help kind : String) (samples : List String) : String :=
  if samples = [] then ""
  else
    "# HELP certkeeper_" ++ name ++ " " ++ help ++ "\n# TYPE certkeeper_" ++ name ++ " " ++ kind ++
      "\n" ++ Text.join "" samples

/-- Whether labels stand at or before others, where the first that differ decide. -/
def labelsUpTo : List String → List String → Bool
  | [], _ => true
  | _ :: _, [] => false
  | a :: as, b :: bs => if a = b then labelsUpTo as bs else decide (a < b)

/-- Rows in the order of their keys. -/
def sorted (key : α → List String) (rows : List α) : List α :=
  rows.mergeSort fun a b => labelsUpTo (key a) (key b)

/-- The lines of the durations of one operation. -/
def durationSamples (operation : String) (d : Durations) : List String :=
  let name := "issuance_duration_seconds"
  let bucket (limit : String) (n : Nat) :=
    sample (name ++ "_bucket") [("operation", operation), ("le", limit)] (toString n)
  d.within.map (fun (l, n) => bucket (toString l) n) ++
    [bucket "+Inf" d.count,
      sample (name ++ "_sum") [("operation", operation)] (floatText d.sum),
      sample (name ++ "_count") [("operation", operation)] (toString d.count)]

/-- The lines of the health of the certificates. -/
def healthSamples (s : HealthSummary) : List String :=
  [("expired", s.expired), ("expiring_soon", s.expiring), ("failed", s.failed),
    ("total", s.total), ("valid", s.valid)].map fun (bucket, n) =>
      sample "certificates" [("bucket", bucket)] (toString n)

/-- All counts as text. -/
def text (m : Metrics) : String :=
  family "certificates" "Managed certificates by health bucket" "gauge"
    (m.health.elim [] healthSamples) ++
  family "cleanup_debt_total" "Challenge records left in DNS after failed teardown" "counter"
    [sample "cleanup_debt_total" [] (toString m.debt)] ++
  family "issuance_duration_seconds" "Duration of issuance runs" "histogram"
    ((sorted (fun r => [r.1]) m.durations).flatMap fun (o, d) => durationSamples o d) ++
  family "issuance_total" "Issuance runs by operation and outcome" "counter"
    ((sorted (fun r => [r.1.1, r.1.2]) m.issuances).map fun ((operation, outcome), n) =>
      sample "issuance_total" [("operation", operation), ("outcome", outcome)] (toString n)) ++
  family "renewal_sweeps_total" "Completed renewal sweeps" "counter"
    [sample "renewal_sweeps_total" [] (toString m.sweeps)] ++
  family "renewal_tasks_total" "Renewal tasks by outcome" "counter"
    ((sorted (fun r => [r.1]) m.tasks).map fun (outcome, n) =>
      sample "renewal_tasks_total" [("outcome", outcome)] (toString n))

end Metrics

end CertSteward
