import CertSteward.Backoff.Policy
import CertSteward.Run.Act

/-!
# Trying again

## Main definitions

* `retry` — a call that is made again while it fails in a way that may pass
-/

namespace CertSteward

/-- Makes a call, and makes it again after each of the delays of `b` while it fails with an error
for which `again` holds, at most `retries` times. The delays began at `start`. -/
def retryFrom {ε α : Type} (again : ε → Bool) (call : Watched (Except ε α)) (start : Duration) :
    Nat → Backoff → Watched (Except ε α)
  | 0, _ => call
  | retries + 1, b => do
    match ← call with
    | .ok a => return .ok a
    | .error e =>
      if again e then
        match b.next? ((← perform .now) - start) with
        | some (delay, b) =>
          pause delay
          retryFrom again call start retries b
        | none => return .error e
      else return .error e

/-- Makes a call, and makes it again after the delays of a policy while it fails with an error for
which `again` holds, at most `retries` times. -/
def retry {ε α : Type} (policy : BackoffPolicy) (retries : Nat) (again : ε → Bool)
    (call : Watched (Except ε α)) : Watched (Except ε α) := do
  retryFrom again call (← perform .now) retries (.start policy)

end CertSteward
