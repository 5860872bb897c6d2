/-!
# Programs

A program is a value, or a request to its surroundings together with what follows each answer.
What the surroundings do is no part of it: the same program can be run by a machine, or looked at
under every answer there could be.

## Main definitions

* `Program` — programs over a kind of requests
* `Program.request` — the program of one request
* `Program.loop` — repetition until there is a result
-/

namespace CertSteward

/-- A value, or a request and what follows each answer to it. -/
inductive Program (ρ : Type) (Answer : ρ → Type) (α : Type) : Type
  | done (a : α)
  | ask (r : ρ) (next : Answer r → Program ρ Answer α)

namespace Program

variable {ρ : Type} {Answer : ρ → Type} {α β : Type}

/-- One program after another. -/
def andThen : Program ρ Answer α → (α → Program ρ Answer β) → Program ρ Answer β
  | done a, f => f a
  | ask r next, f => ask r fun answer => (next answer).andThen f

instance : Monad (Program ρ Answer) where
  pure := done
  bind := andThen

/-- The program of one request. -/
def request (r : ρ) : Program ρ Answer (Answer r) := ask r done

@[simp] theorem done_bind (a : α) (f : α → Program ρ Answer β) : (done a >>= f) = f a := rfl

@[simp] theorem ask_bind (r : ρ) (next : Answer r → Program ρ Answer α)
    (f : α → Program ρ Answer β) : (ask r next >>= f) = ask r fun answer => next answer >>= f := rfl

theorem bind_done (p : Program ρ Answer α) : (p >>= done) = p := by
  induction p with
  | done a => rfl
  | ask r next ih => simp [ih]

theorem bind_bind {γ : Type} (p : Program ρ Answer α) (f : α → Program ρ Answer β)
    (g : β → Program ρ Answer γ) : (p >>= f >>= g) = (p >>= fun a => f a >>= g) := by
  induction p with
  | done a => rfl
  | ask r next ih => simp [ih]

instance : LawfulMonad (Program ρ Answer) where
  map_const := rfl
  id_map := bind_done
  seqLeft_eq p q := by
    change (p >>= fun a => q >>= fun _ => done a) =
      (p >>= fun a => done (Function.const _ a)) >>= fun f => q >>= fun b => done (f b)
    rw [bind_bind]
    rfl
  seqRight_eq p q := by
    change (p >>= fun _ => q) =
      (p >>= fun _ => done id) >>= fun f => q >>= fun b => done (f b)
    rw [bind_bind]
    exact congrArg (p >>= ·) (funext fun _ => (bind_done q).symm)
  pure_seq f p := rfl
  bind_pure_comp f p := rfl
  bind_map p q := rfl
  pure_bind a f := rfl
  bind_assoc := bind_bind

/-- Repeats `body` until it gives a result, at most `rounds` times. -/
def loop {m : Type → Type} [Monad m] {σ α : Type} (body : σ → m (σ ⊕ α)) (exhausted : m α) :
    Nat → σ → m α
  | 0, _ => exhausted
  | rounds + 1, s => do
    match ← body s with
    | .inl s => loop body exhausted rounds s
    | .inr a => pure a

/-- More rounds than any clock lasts for. -/
def manyRounds : Nat := Nat.pow 2 60

end Program

end CertSteward
