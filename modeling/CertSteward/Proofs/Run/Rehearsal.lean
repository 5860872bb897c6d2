import CertSteward.Proofs.Run.Strides

/-!
# Rehearsals

What a program may do is said of all paths there are. To have one of them in hand, somebody has to
answer its requests. A *rehearsal* runs a program with given answers and writes down its path; it
computes, so a path can be had by letting the kernel run the program. Strands that run at the same
time are rehearsed by telling which of them is next; what they share is answered for, and only the
rest of the answers is given.

## Main definitions

* `Steward.rehearse` — the path of a program under given answers
* `Weave.play` — a stride of one strand under given answers

## Main results

* `Steward.ends_of_rehearse` — it is a path of the program
* `Weave.strides_of_play` — what is played are strides
-/

namespace CertSteward

instance Act.decidableCanGet (b : Bool) : (a : Act) → (answer : a.Answer) →
    Decidable (a.CanGet b answer)
  | .wait _, none => decidable_of_iff _ Act.canGet_wait_none.symm
  | .wait (.all jobs), some outcomes =>
    inferInstanceAs (Decidable (outcomes.length = jobs.length))
  | .wait (.sleep _), some _ | .wait (.slot _), some _ | .wait (.lock _), some _
  | .wait (.permit _), some _ | .wait (.join _), some _ => isTrue trivial
  | .now, _ | .wallClock, _ | .freshName, _ | .freshKey _, _ | .authority _, _ | .dns _, _
  | .lookUp .., _ | .records _, _ | .note _, _ | .counts, _ | .attempts _, _ | .setAttempts .., _
  | .slots _, _ | .locks _, _ | .newPermits _, _ | .givePermit _, _ | .isCancelled, _ | .cancel, _
  | .watch, _ | .unwatch, _ | .spawn _, _ | .halt, _ => isTrue trivial

namespace Steward

variable {α σ : Type}

/-- The path, the end and the result of a program whose requests are answered by `answer`, unless
one of them is not or cannot be answered so. -/
def rehearse (answer : σ → (a : Act) → Option (a.Answer × σ)) :
    Bool → σ → Steward α → Option (List Happening × Bool × α)
  | b, _, .done a => some ([], b, a)
  | b, s, .ask a next =>
    match answer s a with
    | none => none
    | some (x, s) =>
      if a.CanGet b x then
        (rehearse answer (a.watching b x) s (next x)).map fun (path, c, result) =>
          (⟨a, x⟩ :: path, c, result)
      else none

/-- **The path of a rehearsal is a path of the program.** -/
theorem ends_of_rehearse {answer : σ → (a : Act) → Option (a.Answer × σ)} {b c : Bool} {s : σ}
    {p : Steward α} {path : List Happening} {result : α}
    (h : rehearse answer b s p = some (path, c, result)) : Ends b p path c result := by
  induction p generalizing b s path with
  | done a =>
    cases h
    exact .stay _ _
  | ask a next ih =>
    rw [rehearse] at h
    cases hx : answer s a with
    | none =>
      rw [hx] at h
      cases h
    | some x =>
      obtain ⟨x, s'⟩ := x
      simp only [hx] at h
      split at h
      · rename_i possible
        obtain ⟨⟨rest, c', result'⟩, hrest, heq⟩ := Option.map_eq_some_iff.mp h
        cases heq
        exact .ask possible (ih x hrest)
      · cases h

end Steward

namespace Weave

variable {β : Type}

/-- The answer to a request that is no wait: what strands share answers for itself. -/
def reply? (answer : (a : Act) → Option a.Answer) (w : Weave β) : (a : Act) → Option a.Answer
  | .slots a => some (w.slots.apply none a).1.1
  | .locks a => some (w.locks.apply () a).1.1
  | .newPermits _ => some w.permits.size
  | .spawn _ => some w.strands.length
  | .wait _ => none
  | a => answer a

/-- What there is if the wait of strand `i` can be over. -/
def over? (w : Weave β) (i : Nat) : (v : Wait) → Option v.Answer
  | .sleep _ => some ()
  | .slot c => if i ∈ w.slots.line c then none else some ()
  | .lock c => if i ∈ w.locks.line c then none else some ()
  | .permit p => if ∀ q ∈ w.permits[p]?, i ∉ q.waiting then some () else none
  | .join f => w.outcome? f
  | .all _ => none

/-- Strand `i` goes on by one stride. Nobody is interrupted. -/
def play (program : Job → Steward Outcome) (answer : (a : Act) → Option a.Answer) (w : Weave β)
    (i : Nat) : Option (Weave β) := do
  let s ← w.strands[i]?
  match s.stage, s.program with
  | .idle, _ => return w.put i { s with stage := .running }
  | .running, .done _ => return w.put i { s with stage := .ended }
  | .running, .ask (.wait (.all jobs)) _ => return w.divide program i s jobs
  | .running, .ask (.wait v) _ => return (w.enter i v).put i { s with stage := .waiting [] }
  | .running, .ask a next => return (w.serve program s a).resume i s a next (← w.reply? answer a)
  | .waiting parts, .ask (.wait (.all jobs)) next =>
    return w.resume i s (.wait (.all jobs)) next (some (← parts.mapM w.outcome?))
  | .waiting _, .ask (.wait v) next => return w.resume i s (.wait v) next (some (← w.over? i v))
  | _, _ => none

variable {program : Job → Steward Outcome} {answer : (a : Act) → Option a.Answer} {w u : Weave β}
variable {i : Nat}

theorem fits_of_reply? {a : Act} {x : a.Answer} (h : w.reply? answer a = some x) : w.Fits a x := by
  cases a with
  | slots | locks | newPermits | spawn => exact (Option.some.inj h).symm
  | wait => cases h
  | _ => trivial

theorem isOver_of_over? {v : Wait} {x : v.Answer} (h : w.over? i v = some x) : w.IsOver i v x := by
  cases v with
  | sleep => trivial
  | join f => exact h
  | all => cases h
  | slot c | lock c =>
    rw [over?] at h
    split at h
    · cases h
    · assumption
  | permit p =>
    rw [over?] at h
    split at h
    · assumption
    · cases h

theorem map_eq_of_mapM {α γ : Type} {f : α → Option γ} {l : List α} {xs : List γ}
    (h : l.mapM f = some xs) : l.map f = xs.map some := by
  induction l generalizing xs with
  | nil =>
    cases h
    rfl
  | cons a l ih =>
    rw [List.mapM_cons] at h
    obtain ⟨x, hx, h⟩ := Option.bind_eq_some_iff.mp h
    obtain ⟨ys, hys, h⟩ := Option.bind_eq_some_iff.mp h
    cases h
    rw [List.map_cons, List.map_cons, hx, ih hys]

theorem stride_of_play (h : w.play program answer i = some u) : Stride program w u := by
  obtain ⟨s, here, h⟩ := Option.bind_eq_some_iff.mp h
  split at h
  · rename_i hstage
    cases h
    exact .begin here hstage
  · rename_i hstage hprogram
    cases h
    exact .finish here hstage hprogram
  · rename_i hstage hprogram
    cases h
    exact .divide here hstage hprogram
  · rename_i hsimple hstage hprogram
    cases h
    refine .wait here hstage hprogram fun jobs hjobs => ?_
    subst hjobs
    exact hsimple _ _ HEq.rfl rfl
  · rename_i hstage hprogram
    obtain ⟨x, hx, h⟩ := Option.bind_eq_some_iff.mp h
    cases h
    exact .act here hstage hprogram (fits_of_reply? hx)
  · rename_i hstage hprogram
    obtain ⟨xs, hxs, h⟩ := Option.bind_eq_some_iff.mp h
    cases h
    exact .gather here hstage hprogram (map_eq_of_mapM hxs)
  · rename_i hstage hprogram
    obtain ⟨x, hx, h⟩ := Option.bind_eq_some_iff.mp h
    cases h
    exact .goOn here hstage hprogram (isOver_of_over? hx)
  · cases h

/-- What is played goes on from what strides led to. -/
theorem Leads.play {v : Weave β} {l : List Nat} (hv : Strides program w v)
    (h : l.foldlM (Weave.play program answer) v = some u) : Strides program w u := by
  induction l generalizing v with
  | nil =>
    cases h
    exact hv
  | cons i l ih =>
    rw [List.foldlM_cons] at h
    obtain ⟨x, hx, h⟩ := Option.bind_eq_some_iff.mp h
    exact ih (.step hv (stride_of_play hx)) h

/-- **What is played are strides.** -/
theorem strides_of_play {l : List Nat} (h : l.foldlM (play program answer) w = some u) :
    Strides program w u :=
  Leads.play .refl h

end Weave

end CertSteward
