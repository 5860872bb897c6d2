import CertSteward.Dns.Provisioning
import CertSteward.Proofs.Run.Conduct

/-!
# Errands to slots

Whoever makes, removes or looks for a challenge record goes to its slot, and how far he is can be
told from his requests. An *errand* says it: which cell he uses, whether he holds it, what he knows
of its value. Who has a job may take only the steps that belong to it.

A record is asked for by one strand and made by another: the first goes to the slot, finds it empty
and passes it on, `seen` to `sharing` to `started`, and the second begins with `making`.

## Main definitions

* `Errand` — how far a strand is with a slot
* `Errand.next`, `Errand.May` — its steps, and which of them a job may take
* `Errand.Suits` — the errands of a job
* `errands` — the conduct of a strand with respect to slots

## Main results

* `Errand.Suits.next` — a job goes on no errand but its own
-/

namespace CertSteward

/-- The key of the slot of a record that was made. -/
def DnsHandle.key (h : DnsHandle) : SlotKey := slotKey h.name h.value

/-- How far a strand is with a slot. -/
inductive Errand
  /-- It has not gone to a slot. -/
  | blank
  /-- It uses no slot any more, and has done what it was sent for or not. -/
  | free (isDone : Bool)
  /-- The key leads to no slot. -/
  | lost (k : SlotKey)
  | found (k : SlotKey) (c : Nat)
  | held (k : SlotKey) (c : Nat)
  /-- It has looked for the record. -/
  | seen (k : SlotKey) (c : Nat) (id : Option String)
  /-- It uses the slot for another strand too. -/
  | sharing (k : SlotKey) (c : Nat)
  /-- Another strand makes the record. -/
  | started (k : SlotKey) (c job : Nat)
  /-- The other strand did not make the record. -/
  | failed (k : SlotKey) (c : Nat)
  | making (k : SlotKey) (c : Nat)
  /-- There is a record, of which the slot does not know yet. -/
  | made (k : SlotKey) (c : Nat) (id : String)
  | kept (k : SlotKey) (c : Nat)
  /-- The record was not deleted. -/
  | refused (k : SlotKey) (c : Nat) (id : String)
  /-- The record was deleted, of which the slot does not know yet. -/
  | deleted (k : SlotKey) (c : Nat)
  | cleared (k : SlotKey) (c : Nat)
  /-- The slot knows, and the key is to be removed. -/
  | leaving (k : SlotKey) (c : Nat)
  /-- It still uses the slot, but will do nothing with it. -/
  | out (c : Nat) (isDone : Bool)
deriving DecidableEq

namespace Errand

/-! ### What an errand has to do with cells -/

/-- The cell that it uses. -/
def cell? : Errand → Option Nat
  | blank | free _ | lost _ => none
  | found _ c | held _ c | seen _ c _ | sharing _ c | started _ c _ | failed _ c | making _ c
  | made _ c _ | kept _ c | refused _ c _ | deleted _ c | cleared _ c | leaving _ c | out c _ =>
    some c

/-- How many users of a cell it stands for. -/
def uses (e : Errand) (c : Nat) : Nat :=
  if e.cell? = some c then match e with
    | sharing .. => 2
    | _ => 1
  else 0

/-- The cell that it holds. -/
def holds? : Errand → Option Nat
  | held _ c | seen _ c _ | sharing _ c | making _ c | made _ c _ | kept _ c | refused _ c _
  | deleted _ c | cleared _ c => some c
  | _ => none

/-- The key by which it came to its cell, as long as that matters. -/
def key? : Errand → Option SlotKey
  | blank | free _ | out .. => none
  | lost k | found k _ | held k _ | seen k _ _ | sharing k _ | started k _ _ | failed k _
  | making k _ | made k _ _ | kept k _ | refused k _ _ | deleted k _ | cleared k _ | leaving k _ =>
    some k

/-- What it knows of the value of its cell. -/
def knows? : Errand → Option (Option String)
  | seen _ _ v => some v
  | sharing .. | making .. | made .. => some none
  | refused _ _ id => some (some id)
  | _ => none

/-- It uses no slot. -/
def IsIdle (e : Errand) : Prop := e.cell? = none

/-! ### Steps -/

/-- Holds the cell, or gives up. -/
def enter (got : Bool) : Errand → Errand
  | found k c => if got then held k c else out c false
  | e => e

/-- Looks at the value. -/
def look (v : Option String) : Errand → Errand
  | held k c => seen k c v
  | e => e

/-- Uses the cell once more. -/
def share : Errand → Errand
  | seen k c _ => sharing k c
  | e => e

/-- Passes the cell on to a job. -/
def pass (job : Nat) : Errand → Errand
  | sharing k c => started k c job
  | e => e

/-- Learns what came of the job, or gives up. -/
def join : Option Outcome → Errand → Errand
  | some (.created (.ok _)), started _ c _ => out c true
  | some _, started k c _ => failed k c
  | none, started _ c _ => out c false
  | _, e => e

/-- Makes the record. -/
def make (id : String) : Errand → Errand
  | making k c => made k c id
  | e => e

/-- Deletes the record, or is refused. -/
def delete (isOk : Bool) : Errand → Errand
  | seen k c (some id) | refused k c id => if isOk then deleted k c else refused k c id
  | lost _ => free isOk
  | e => e

/-- Tells the slot. -/
def put : Errand → Errand
  | made k c _ => kept k c
  | deleted k c => cleared k c
  | e => e

/-- Lets the cell go. -/
def leave : Errand → Errand
  | seen _ c _ | kept _ c => out c true
  | making _ c | refused _ c _ => out c false
  | cleared k c => leaving k c
  | e => e

/-- Is done with the key. -/
def quit : Errand → Errand
  | failed _ c => out c false
  | leaving _ c => out c true
  | e => e

/-- Uses the cell no more. -/
def release : Errand → Errand
  | out _ isDone => free isDone
  | e => e

/-- The errand after an answer. -/
def next (e : Errand) : (a : Act) → a.Answer → Errand
  | .slots (.obtain k), c => found k c
  | .slots (.find k), o => o.elim (lost k) (found k)
  | .wait (.slot _), o => e.enter o.isSome
  | .slots (.value _), v => e.look v.join
  | .slots (.share _), _ => e.share
  | .spawn _, j => e.pass j
  | .wait (.join _), o => e.join o
  | .slots (.discard ..), _ | .slots (.remove _), _ => e.quit
  | .slots (.put ..), _ => e.put
  | .slots (.leave _), _ => e.leave
  | .slots (.release _), _ => e.release
  | .dns (.create ..), (.ok id, _) => e.make id
  | .dns (.delete ..), answer => e.delete answer.isOk
  | _, _ => e

/-! ### Which steps a job may take -/

section May

variable (job : Option Job)

/-- Whether a cell may be let go. Who is to make a record goes on if there is none, and who is to
remove it goes on if there is one. -/
def MayLeave (c : Nat) : Errand → Prop
  | seen _ d v => d = c ∧ match job with
    | none => True
    | some (.provision ..) => v.isSome
    | some (.deprovision _) => v = none
    | _ => False
  | making _ d | kept _ d | refused _ d _ | cleared _ d => d = c
  | _ => False

/-- Whether it may sleep. Who has told the slot, or has nothing to tell, ends without a rest. -/
def MaySleep : Errand → Prop
  | blank | making .. | made .. | seen .. | refused .. => True
  | _ => False

/-- Whether a record may be deleted: the one that was seen in the slot, or, if there is no slot, the
one that the job is about. -/
def MayDelete (name id : String) (e : Errand) : Prop :=
  ∃ h, job = some (.deprovision h) ∧ name = h.name ∧
    ((∃ c, e = seen h.key c (some id) ∨ e = refused h.key c id) ∨ e = lost h.key ∧ id = h.id)

/-- The requests that may come next, if the waits of the strand can be interrupted as `b` says.
Nobody gives up on a slot but who was to make a record. -/
def May (b : Bool) (e : Errand) : Act → Prop
  | .slots (.obtain k) => e = blank ∧ ∃ name value,
      job = some (.provision name value) ∧ k = slotKey name value
  | .slots (.find k) => e.IsIdle ∧ (job = none ∨ ∃ h, job = some (.deprovision h) ∧ k = h.key)
  | .wait (.slot c) => (∃ k, e = found k c) ∧
      (b = true → ∃ name value, job = some (.provision name value))
  | .slots (.value c) => ∃ k, e = held k c
  | .slots (.share c) => ∃ k, e = seen k c none ∧ ∃ name value, job = some (.provision name value)
  | .spawn j => ∃ c name value, e = sharing (slotKey name value) c ∧ j = .createRecord c name value
  | .wait (.join j) => ∃ k c, e = started k c j
  | .slots (.discard k c) => e = failed k c
  | .slots (.remove k) => ∃ c, e = leaving k c
  | .slots (.put c v) => (∃ k id, e = made k c id ∧ v = some id) ∨ ∃ k, e = deleted k c ∧ v = none
  | .slots (.leave c) => e.MayLeave job c
  | .slots (.release c) => ∃ isDone, e = out c isDone
  | .slots (.tryEnter _) | .slots (.tidy _) => False
  | .dns (.create name value) => ∃ c,
      job = some (.createRecord c name value) ∧ e = making (slotKey name value) c
  | .dns (.delete name id) => e.MayDelete job name id
  | .dns .settle => ∃ c name value, job = some (.createRecord c name value)
  | .dns (.supports _) | .authority _ | .locks _ => job = none
  | .records _ | .newPermits _ | .givePermit _ | .setAttempts .. => job = none
  | .wait (.sleep _) => e.MaySleep
  | .wait (.lock _) | .wait (.permit _) | .wait (.all _) => e.IsIdle ∧ job = none
  | .halt => False
  | _ => True

/-- The errands of a job. -/
def Suits : Errand → Prop
  | blank | free _ => True
  | lost k => job = none ∨ ∃ h, job = some (.deprovision h) ∧ k = h.key
  | found k _ | held k _ | seen k _ _ => job = none ∨ ∃ j, job = some j ∧
      ((∃ name value, j = .provision name value ∧ k = slotKey name value) ∨
        ∃ h, j = .deprovision h ∧ k = h.key)
  | sharing k _ | started k _ _ | failed k _ => ∃ name value,
      job = some (.provision name value) ∧ k = slotKey name value
  | making k c | made k c _ | kept k c => ∃ name value,
      job = some (.createRecord c name value) ∧ k = slotKey name value
  | refused k _ _ | deleted k _ | cleared k _ | leaving k _ => ∃ h,
      job = some (.deprovision h) ∧ k = h.key
  | out .. => True

end May

variable {job : Option Job} {b : Bool} {e : Errand} {a : Act}

/-- A job goes on no errand but its own. -/
theorem Suits.next (h : e.Suits job) (may : e.May job b a) (answer : a.Answer) :
    (e.next a answer).Suits job := by
  cases a with
  | slots a =>
    cases a with
    | obtain k =>
      obtain ⟨-, name, value, rfl, rfl⟩ := may
      exact .inr ⟨_, rfl, .inl ⟨name, value, rfl, rfl⟩⟩
    | find k =>
      obtain ⟨-, hjob⟩ := may
      cases answer with
      | none => exact hjob
      | some c => exact hjob.imp_right fun ⟨h, hjob, hk⟩ => ⟨_, hjob, .inr ⟨h, rfl, hk⟩⟩
    | share c =>
      obtain ⟨k, rfl, name, value, rfl⟩ := may
      obtain h | ⟨j, hj, ⟨name', value', rfl, rfl⟩ | ⟨h, rfl, -⟩⟩ := h
      · cases h
      · exact ⟨name', value', hj, rfl⟩
      · cases hj
    | release c =>
      obtain ⟨isDone, rfl⟩ := may
      trivial
    | value c =>
      obtain ⟨k, rfl⟩ := may
      exact h
    | put c v =>
      obtain ⟨k, id, rfl, -⟩ | ⟨k, rfl, -⟩ := may <;> exact h
    | leave c => cases e <;> first | exact may.elim | exact h | trivial
    | discard k c =>
      subst may
      trivial
    | remove k =>
      obtain ⟨c, rfl⟩ := may
      trivial
    | tryEnter c => exact may.elim
    | tidy k => exact may.elim
  | wait v =>
    cases v with
    | slot c =>
      obtain ⟨⟨k, rfl⟩, -⟩ := may
      cases answer with
      | none => trivial
      | some _ => exact h
    | join j =>
      obtain ⟨k, c, rfl⟩ := may
      match answer with
      | none => trivial
      | some (.created (.ok _)) => trivial
      | some (.created (.error _)) => exact h
      | some .finished | some .interrupted | some (.provisioned _) | some (.dns _)
      | some (.renewal _) | some (.due _) => exact h
    | sleep _ | lock _ | permit _ | all _ => exact h
  | spawn j =>
    obtain ⟨c, name, value, rfl, -⟩ := may
    exact h
  | dns q =>
    cases q with
    | create name value =>
      obtain ⟨c, -, rfl⟩ := may
      obtain ⟨_ | id, _⟩ := answer <;> exact h
    | delete name id =>
      obtain ⟨handle, rfl, rfl, ⟨c, rfl | rfl⟩ | ⟨rfl, -⟩⟩ := may
      · cases answer <;> exact ⟨handle, rfl, rfl⟩
      · cases answer <;> exact ⟨handle, rfl, rfl⟩
      · trivial
    | settle | supports _ => exact h
  | halt => exact may.elim
  | _ => exact h

/-! ### What a step can be -/

/-- Whether a request is a step of no errand. -/
def IsNoStep : Act → Prop
  | .slots _ | .wait (.slot _) | .wait (.join _) | .spawn _ => False
  | .dns (.create ..) | .dns (.delete ..) => False
  | _ => True

/-- The steps of a strand with a job, each with its request and the answer. -/
inductive Moves (job : Option Job) : Errand → (a : Act) → a.Answer → Errand → Prop
  | stay {e : Errand} {a : Act} {answer : a.Answer} (h : IsNoStep a) : Moves job e a answer e
  | obtain {name value : String} {c : Nat} (isJob : job = some (.provision name value)) :
    Moves job blank (.slots (.obtain (slotKey name value))) c (found (slotKey name value) c)
  | find {e : Errand} {k : SlotKey} {c : Nat} (isIdle : e.IsIdle)
    (isJob : job = none ∨ ∃ h, job = some (.deprovision h) ∧ k = h.key) :
    Moves job e (.slots (.find k)) (some c) (found k c)
  | miss {e : Errand} {k : SlotKey} (isIdle : e.IsIdle)
    (isJob : job = none ∨ ∃ h, job = some (.deprovision h) ∧ k = h.key) :
    Moves job e (.slots (.find k)) none (lost k)
  | enter {k : SlotKey} {c : Nat} : Moves job (found k c) (.wait (.slot c)) (some ()) (held k c)
  | giveUp {k : SlotKey} {c : Nat} : Moves job (found k c) (.wait (.slot c)) none (out c false)
  | look {k : SlotKey} {c : Nat} {v : Option (Option String)} :
    Moves job (held k c) (.slots (.value c)) v (seen k c v.join)
  | share {k : SlotKey} {c : Nat} : Moves job (seen k c none) (.slots (.share c)) () (sharing k c)
  | pass {name value : String} {c j : Nat} :
    Moves job (sharing (slotKey name value) c) (.spawn (.createRecord c name value)) j
      (started (slotKey name value) c j)
  | succeed {k : SlotKey} {c j : Nat} {id : String} :
    Moves job (started k c j) (.wait (.join j)) (some (.created (.ok id))) (out c true)
  | fail {k : SlotKey} {c j : Nat} {o : Outcome} (h : ∀ id, o ≠ .created (.ok id)) :
    Moves job (started k c j) (.wait (.join j)) (some o) (failed k c)
  | abandon {k : SlotKey} {c j : Nat} :
    Moves job (started k c j) (.wait (.join j)) none (out c false)
  | make {name value id : String} {c : Nat} {time : Option Duration}
    (isJob : job = some (.createRecord c name value)) :
    Moves job (making (slotKey name value) c) (.dns (.create name value)) (.ok id, time)
      (made (slotKey name value) c id)
  | tryMake {name value : String} {c : Nat} {error : DnsError} {time : Option Duration} :
    Moves job (making (slotKey name value) c) (.dns (.create name value)) (.error error, time)
      (making (slotKey name value) c)
  | delete {h : DnsHandle} {c : Nat} {id : String} {e : Errand}
    (isJob : job = some (.deprovision h)) (knows : e = seen h.key c (some id) ∨ e = refused h.key c id) :
    Moves job e (.dns (.delete h.name id)) (.ok ()) (deleted h.key c)
  | refuse {h : DnsHandle} {c : Nat} {id : String} {e : Errand} {error : DnsError}
    (isJob : job = some (.deprovision h)) (knows : e = seen h.key c (some id) ∨ e = refused h.key c id) :
    Moves job e (.dns (.delete h.name id)) (.error error) (refused h.key c id)
  | deleteLost {h : DnsHandle} {answer : Except DnsError Unit}
    (isJob : job = some (.deprovision h)) :
    Moves job (lost h.key) (.dns (.delete h.name h.id)) answer (free answer.isOk)
  | keep {k : SlotKey} {c : Nat} {id : String} :
    Moves job (made k c id) (.slots (.put c (some id))) () (kept k c)
  | clear {k : SlotKey} {c : Nat} : Moves job (deleted k c) (.slots (.put c none)) () (cleared k c)
  | leaveSeen {k : SlotKey} {c : Nat} {v : Option String} (may : (seen k c v).MayLeave job c) :
    Moves job (seen k c v) (.slots (.leave c)) () (out c true)
  | leaveUnmade {k : SlotKey} {c : Nat} :
    Moves job (making k c) (.slots (.leave c)) () (out c false)
  | leaveKept {k : SlotKey} {c : Nat} : Moves job (kept k c) (.slots (.leave c)) () (out c true)
  | leaveRefused {k : SlotKey} {c : Nat} {id : String} :
    Moves job (refused k c id) (.slots (.leave c)) () (out c false)
  | leaveCleared {k : SlotKey} {c : Nat} :
    Moves job (cleared k c) (.slots (.leave c)) () (leaving k c)
  | discard {k : SlotKey} {c : Nat} : Moves job (failed k c) (.slots (.discard k c)) () (out c false)
  | remove {k : SlotKey} {c : Nat} : Moves job (leaving k c) (.slots (.remove k)) () (out c true)
  | release {c : Nat} {isDone : Bool} :
    Moves job (out c isDone) (.slots (.release c)) () (free isDone)

/-- Whoever does what he may do takes one of the steps. -/
theorem May.moves (may : e.May job b a) (answer : a.Answer) :
    e.Moves job a answer (e.next a answer) := by
  cases a with
  | slots a =>
    cases a with
    | obtain k =>
      obtain ⟨rfl, name, value, hjob, rfl⟩ := may
      exact .obtain hjob
    | find k =>
      obtain ⟨hidle, hjob⟩ := may
      cases answer with
      | none => exact .miss hidle hjob
      | some c => exact .find hidle hjob
    | share c =>
      obtain ⟨k, rfl, -⟩ := may
      exact .share
    | release c =>
      obtain ⟨isDone, rfl⟩ := may
      exact .release
    | value c =>
      obtain ⟨k, rfl⟩ := may
      exact .look
    | put c v =>
      obtain ⟨k, id, rfl, rfl⟩ | ⟨k, rfl, rfl⟩ := may
      · exact .keep
      · exact .clear
    | leave c =>
      cases e with
      | seen k d v =>
        obtain ⟨rfl, hmay⟩ := may
        exact .leaveSeen ⟨rfl, hmay⟩
      | making => subst may; exact .leaveUnmade
      | kept => subst may; exact .leaveKept
      | refused => subst may; exact .leaveRefused
      | cleared => subst may; exact .leaveCleared
      | _ => exact may.elim
    | discard k c =>
      subst may
      exact .discard
    | remove k =>
      obtain ⟨c, rfl⟩ := may
      exact .remove
    | tryEnter c => exact may.elim
    | tidy k => exact may.elim
  | wait v =>
    cases v with
    | slot c =>
      obtain ⟨⟨k, rfl⟩, -⟩ := may
      cases answer with
      | none => exact .giveUp
      | some _ => exact .enter
    | join j =>
      obtain ⟨k, c, rfl⟩ := may
      match answer with
      | none => exact .abandon
      | some (.created (.ok id)) => exact .succeed
      | some (.created (.error _)) => exact .fail nofun
      | some .finished | some .interrupted | some (.provisioned _) | some (.dns _)
      | some (.renewal _) | some (.due _) => exact .fail nofun
    | sleep _ | lock _ | permit _ | all _ => exact .stay trivial
  | spawn j =>
    obtain ⟨c, name, value, rfl, rfl⟩ := may
    exact .pass
  | dns q =>
    cases q with
    | create name value =>
      obtain ⟨c, hjob, rfl⟩ := may
      obtain ⟨error | id, _⟩ := answer
      · exact .tryMake
      · exact .make hjob
    | delete name id =>
      obtain ⟨handle, hjob, rfl, ⟨c, hknows⟩ | ⟨rfl, rfl⟩⟩ := may
      · cases answer with
        | ok =>
          have hnext : e.next (.dns (.delete handle.name id)) (.ok ()) = deleted handle.key c := by
            obtain rfl | rfl := hknows <;> rfl
          rw [hnext]
          exact .delete hjob hknows
        | error error =>
          have hnext : e.next (.dns (.delete handle.name id)) (.error error) =
              refused handle.key c id := by
            obtain rfl | rfl := hknows <;> rfl
          rw [hnext]
          exact .refuse hjob hknows
      · exact .deleteLost hjob
    | settle | supports _ => exact .stay trivial
  | halt => exact may.elim
  | _ => exact .stay trivial

/-- The errand with which a job begins. -/
def start : Option Job → Errand
  | some (.createRecord c name value) => making (slotKey name value) c
  | _ => blank

/-- The errand and the outcome of a job fit together. -/
def EndsWith (e : Errand) : Job → Outcome → Prop
  | .createRecord .., o => ∃ r, o = .created r ∧ e = free r.isOk
  | .provision .., o => (∃ r, o = .provisioned r ∧ e = free r.isOk) ∨
      o = .interrupted ∧ e = free false
  | .deprovision _, o => ∃ r, o = .dns r ∧ e = free r.isOk
  | _, _ => e = blank

theorem suits_start (job : Option Job) : (start job).Suits job := by
  match job with
  | some (.createRecord _ name value) => exact ⟨name, value, rfl, rfl⟩
  | none | some (.provision ..) | some (.deprovision _) | some (.propagate ..) | some (.renew ..)
  | some (.renewDue ..) | some (.cancelAfter _) | some (.unlockAfter ..) => trivial

end Errand

/-- The conduct of a strand with respect to slots. -/
def errands (job : Option Job) : Conduct Errand where
  may := Errand.May job
  next := Errand.next

end CertSteward
