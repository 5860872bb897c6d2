import CertSteward.Proofs.Dns.Ledger
import CertSteward.Proofs.Run.Following
import Mathlib.Data.List.Pairwise
import Mathlib.Logic.Function.Basic

/-!
# Scenes

The parts of a run ask for its records beside each other. The first part that comes to a new slot
holds it and starts the job that makes the record; a second one with the same key gets in line. When
the record is made, the slot passes to who is in line, and the first part learns of the end of its
job.

While a main program waits for such parts, the machine is a *scene*: each part has its seat, each
slot that was new has its maker, and each maker has come to some stage.

## Main definitions

* `MemoryDns.IsSteady`, `MemoryDns.Adds` — a service that does nothing wrong, and what it adds
* `Seat`, `Maker`, `Stage` — a part with its record, a record that is being made, and how far it is
* `Layout`, `Slots` — who is who, and which slot is whose
* `Machine.Scene` — the scene

## Main results

* `Machine.runFiber_of_new`, `runFiber_of_held` — a part that comes to its slot
* `Machine.Scene.update` — one maker comes to another stage
* `Machine.Scene.hands_in`, `lead_goes`, `follower_goes` — the job and the parts of a maker have
  their turns
-/

namespace CertSteward

/-! ### One cell -/

namespace MutexTable

variable {κ ν : Type} {t : MutexTable κ ν} {c d : Nat} {cell cell' : Cell ν}
variable {f : Cell ν → Cell ν}

/-- A table with another cell in place of one. -/
def set (t : MutexTable κ ν) (c : Nat) (cell : Cell ν) : MutexTable κ ν := t.modify c fun _ => cell

theorem modify_eq_set (h : t.cells[c]? = some cell) : t.modify c f = t.set c (f cell) :=
  modify_congr fun cell' h' => by rw [Option.some.inj (h'.symm.trans h)]

@[simp] theorem modify_set : (t.set c cell).modify c f = t.set c (f cell) := modify_modify

theorem cells_set (h : t.cells[c]? = some cell) : (t.set c cell').cells[c]? = some cell' := by
  rw [set, cells_modify, if_pos rfl, h, Option.map_some]

theorem cells_set_of_ne (h : c ≠ d) : (t.set c cell').cells[d]? = t.cells[d]? := by
  rw [set, cells_modify, if_neg h]

theorem line_of_cell (h : t.cells[c]? = some cell) : t.line c = cell.waiting := by
  rw [line, h]
  rfl

theorem value?_of_cell (h : t.cells[c]? = some cell) : t.value? c = some cell.value := by
  rw [value?, h]
  rfl

theorem isHeld_of_cell (h : t.cells[c]? = some cell) : t.isHeld c = cell.isHeld := by
  rw [isHeld, h]
  rfl

theorem set_of_cell (h : t.cells[c]? = some cell) : t.set c cell = t :=
  (modify_eq_set h).symm.trans modify_id

theorem enter_set (h : t.cells[c]? = some cell') (hcell : cell.isHeld = true) (i : Nat) :
    (t.set c cell).enter c i =
      (false, t.set c { cell with waiting := cell.waiting ++ [i] }) := by
  rw [enter, tryEnter, isHeld_of_cell (cells_set h), if_pos hcell]
  exact congrArg (false, ·) modify_set

end MutexTable

namespace World

variable {α : Type} {w w' : World} {t : MutexTable SlotKey (Option String)} {c : Nat}
variable {cell cell₀ : MutexTable.Cell (Option String)}

theorem eval?_of_reply? {a : Act} {answer : a.Answer} {next : a.Answer → Steward α}
    (h : w.reply? a = some (answer, w')) : w.eval? (.ask a next) = w'.eval? (next answer) := by
  rw [eval?, h]
  rfl

theorem reply?_slots {a : TableAct SlotKey (Option String)} {answer : a.Answer}
    (h : w.slots.apply none a = ((answer, none), t)) :
    w.reply? (.slots a) = some (answer, w.withSlots t) := by
  rw [reply?, h]
  rfl

theorem reply?_release_set : (w.withSlots (t.set c cell)).reply? (.slots (.release c)) =
    some ((), w.withSlots (t.set c { cell with users := cell.users - 1 })) :=
  congrArg (fun t => some ((), w.withSlots t)) MutexTable.modify_set

theorem reply?_value_set (h : t.cells[c]? = some cell₀) :
    (w.withSlots (t.set c cell)).reply? (.slots (.value c)) =
      some (some cell.value, w.withSlots (t.set c cell)) :=
  congrArg (fun v => some (v, w.withSlots (t.set c cell)))
    (MutexTable.value?_of_cell (MutexTable.cells_set h))

theorem reply?_put_set {v : Option String} :
    (w.withSlots (t.set c cell)).reply? (.slots (.put c v)) =
      some ((), w.withSlots (t.set c { cell with value := v })) :=
  congrArg (fun t => some ((), w.withSlots t)) MutexTable.modify_set

theorem reply?_leave_set (h : t.cells[c]? = some cell₀) (hcell : cell.waiting = []) :
    (w.withSlots (t.set c cell)).reply? (.slots (.leave c)) =
      some ((), w.withSlots (t.set c { cell with isHeld := false })) := by
  have hleave : (w.withSlots (t.set c cell)).slots.leave c =
      (none, t.set c { cell with isHeld := false }) :=
    (MutexTable.leave_of_nil ((MutexTable.line_of_cell (MutexTable.cells_set h)).trans hcell)).trans
      (congrArg (none, ·) MutexTable.modify_set)
  refine reply?_slots (w := w.withSlots (t.set c cell)) ?_
  rw [MutexTable.apply, hleave]

theorem reply?_enter_set (h : t.cells[c]? = some cell₀) (hcell : cell.isHeld = false) :
    (w.withSlots (t.set c cell)).reply? (.wait (.slot c)) =
      some (some (), w.withSlots (t.set c { cell with isHeld := true })) := by
  refine (reply?_slot (w := w.withSlots (t.set c cell))
    ((MutexTable.isHeld_of_cell (MutexTable.cells_set h)).trans hcell)).trans ?_
  exact congrArg (fun t => some (some (), w.withSlots t)) MutexTable.modify_set

theorem reply?_obtain_of_cell {k : SlotKey} (hk : w.slots.index.lookup k = some c)
    (h : w.slots.cells[c]? = some cell) : w.reply? (.slots (.obtain k)) =
      some (c, w.withSlots (w.slots.set c { cell with users := cell.users + 1 })) := by
  refine reply?_slots ?_
  rw [MutexTable.apply, MutexTable.obtain_of_some hk, MutexTable.share, MutexTable.modify_eq_set h]

end World

/-! ### Records in memory -/

namespace MemoryDns

variable {d d' d'' : MemoryDns} {es es' : List Entry}

/-- Ids are given out once, in their order. -/
structure IsCounted (d : MemoryDns) : Prop where
  ids : (d.entries.map (·.id)).Nodup
  made : ∀ e ∈ d.entries, ∃ n ≤ d.made, e.id = recordId n

/-- Nothing was asked for that makes calls to make records fail. -/
structure IsSteady (d : MemoryDns) : Prop where
  failingCreates : d.failingCreates = 0
  refusal : d.refusal = none

/-- Records were made, and what the service was told to do is the same. -/
structure Adds (d : MemoryDns) (es : List Entry) (d' : MemoryDns) : Prop where
  entries : d'.entries = d.entries ++ es
  counted : d.IsCounted → d'.IsCounted
  steady : d.IsSteady → d'.IsSteady
  createDelay : d'.createDelay = d.createDelay
  failsDeletes : d'.failsDeletes = d.failsDeletes
  zones : d'.zones = d.zones

theorem Adds.refl : d.Adds [] d where
  entries := (List.append_nil _).symm
  counted h := h
  steady h := h
  createDelay := rfl
  failsDeletes := rfl
  zones := rfl

theorem Adds.trans (h : d.Adds es d') (h' : d'.Adds es' d'') : d.Adds (es ++ es') d'' where
  entries := by rw [h'.entries, h.entries, List.append_assoc]
  counted := h'.counted ∘ h.counted
  steady := h'.steady ∘ h.steady
  createDelay := h'.createDelay.trans h.createDelay
  failsDeletes := h'.failsDeletes.trans h.failsDeletes
  zones := h'.zones.trans h.zones

theorem Adds.settle (h : d.Adds es d') : d.Adds es d'.settle where
  entries := h.entries
  counted hd := ⟨(h.counted hd).ids, (h.counted hd).made⟩
  steady hd := ⟨(h.steady hd).failingCreates, (h.steady hd).refusal⟩
  createDelay := h.createDelay
  failsDeletes := h.failsDeletes
  zones := h.zones

/-- A service that does nothing wrong makes a record. -/
theorem IsSteady.create (hd : d.IsSteady) (name value : String) : ∃ d',
    d.create name value = ((.ok (recordId (d.made + 1)), d.createDelay), d') ∧
      d.Adds [{ name := Text.lower name, id := recordId (d.made + 1), value }] d' := by
  have hcounted (d' : MemoryDns) (entries : d'.entries = d.entries ++
      [{ name := Text.lower name, id := recordId (d.made + 1), value }])
      (made : d'.made = d.made + 1) (h : d.IsCounted) : d'.IsCounted := by
    have hnew : ∀ e ∈ d.entries, e.id ≠ recordId (d.made + 1) := by
      intro e he heq
      obtain ⟨n, hn, hid⟩ := h.made e he
      have := recordId_injective (hid.symm.trans heq)
      omega
    refine ⟨?_, fun e he => ?_⟩
    · rw [entries, List.map_append]
      refine List.nodup_append.mpr ⟨h.ids, List.nodup_singleton _, fun a ha b hb => ?_⟩
      obtain ⟨e, he, rfl⟩ := List.mem_map.mp ha
      rw [List.mem_singleton.mp hb]
      exact hnew e he
    · rw [entries] at he
      rw [made]
      obtain he | he := List.mem_append.mp he
      · obtain ⟨n, hn, hid⟩ := h.made e he
        exact ⟨n, Nat.le_succ_of_le hn, hid⟩
      · exact ⟨d.made + 1, Nat.le_refl _, by rw [List.mem_singleton.mp he]⟩
  rw [MemoryDns.create]
  simp only [hd.failingCreates, hd.refusal]
  cases hdelay : d.createDelay with
  | none => exact ⟨_, rfl, rfl, hcounted _ rfl rfl, fun _ => ⟨rfl, rfl⟩, hdelay.symm, rfl, rfl⟩
  | some delay => exact ⟨_, rfl, rfl, hcounted _ rfl rfl, fun _ => ⟨rfl, rfl⟩, hdelay.symm, rfl, rfl⟩

end MemoryDns

/-! ### Seats -/

/-- A part of a run with the record that it asks for. -/
structure Seat where
  part : Nat
  name : String
  value : String
deriving DecidableEq

namespace Seat

/-- The key of its slot. -/
def key (s : Seat) : SlotKey := slotKey s.name s.value

/-- What it does. -/
def job (s : Seat) : Job := .provision s.name s.value

/-- Its record. -/
def entry (s : Seat) (id : String) : MemoryDns.Entry :=
  { name := Text.lower s.name, id, value := s.value }

/-- What it comes to when there is a record. -/
def given (s : Seat) (id : String) : Outcome :=
  .provisioned (.ok { name := s.name, value := s.value, id })

end Seat

namespace DnsPractice

/-- What is left of a job when its record is there. -/
def handIn (slot : Nat) (id : String) : Steward Outcome := do
  slotStep (.put slot (some id))
  slotStep (.leave slot)
  slotStep (.release slot)
  return .created (.ok id)

/-- What is left of it when it had to wait for the service. -/
def settle (slot : Nat) (id : String) : Steward Outcome := do
  perform (.dns .settle)
  handIn slot id

end DnsPractice

namespace Machine

open DnsPractice (handIn)

variable {m m' : Machine} {q : RenewalPractice} {s : Seat} {f token c g : Nat}
variable {state : Fiber.State} {id : String}

/-- What a part does with its slot when the wait is over. -/
def LeavesWith (s : Seat) (c : Nat) (p : Steward Outcome) : Prop :=
  ∀ (w : World) (id : String) (n : Nat),
    w.slots.cells[c]? = some { value := some id, isHeld := true, users := n } →
      w.eval? p = some (s.given id, w.withSlots (w.slots.set c { value := some id, users := n - 1 }))

/-- What a part does with its slot when its job has ended. -/
def ReleasesWith (s : Seat) (c : Nat) (p : Steward Outcome) (id : String) : Prop :=
  ∀ (w : World) (cell : MutexTable.Cell (Option String)), w.slots.cells[c]? = some cell →
    w.eval? p = some (s.given id, w.withSlots (w.slots.set c { cell with users := cell.users - 1 }))

/-- A part whose slot is new starts the job that makes the record. -/
theorem runFiber_of_new (hf : m.Is f 0 token state)
    (hk : m.world.slots.index.lookup s.key = none) (hqueue : m.fibers.size ∉ m.queue) :
    ∃ next : Option Outcome → Steward Outcome, (∀ id, ReleasesWith s m.world.slots.cells.size
        (next (some (.created (.ok id)))) id) ∧
      m.runFiber f (q.program s.job) =
        ((m.within (m.world.withSlots (m.world.slots.extend s.key
          { value := none, isHeld := true, users := 2 }))).started token
            (.createRecord m.world.slots.cells.size s.name s.value)).becomes
          (m.world.withSlots (m.world.slots.extend s.key
            { value := none, isHeld := true, users := 2 })) f
          (.waiting (.wait (.join m.fibers.size)) next false) := by
  have hgoes := hf.not_isInterrupted
  let t := m.world.slots
  let extended (cell : MutexTable.Cell (Option String)) : World :=
    m.world.withSlots (t.extend s.key cell)
  have hobtain : m.world.reply? (.slots (.obtain s.key)) =
      some (t.cells.size, extended { value := none, users := 1 }) := by
    refine World.reply?_slots ?_
    rw [MutexTable.apply, MutexTable.obtain_of_none hk]
    rfl
  have henter : (extended { value := none, users := 1 }).reply? (.wait (.slot t.cells.size)) =
      some (some (), extended { value := none, isHeld := true, users := 1 }) := by
    refine (World.reply?_slot MutexTable.isHeld_extend_self).trans ?_
    exact congrArg (fun t => some (some (), m.world.withSlots t)) MutexTable.modify_extend
  have hlook : (extended { value := none, isHeld := true, users := 1 }).reply?
      (.slots (.value t.cells.size)) =
      some (some none, extended { value := none, isHeld := true, users := 1 }) :=
    congrArg (fun v => some (v, extended { value := none, isHeld := true, users := 1 }))
      MutexTable.value?_extend_self
  have hshare : (extended { value := none, isHeld := true, users := 1 }).reply?
      (.slots (.share t.cells.size)) =
      some ((), extended { value := none, isHeld := true, users := 2 }) :=
    congrArg (fun t => some ((), m.world.withSlots t)) MutexTable.modify_extend
  apply Exists.intro
  apply And.intro
  rotate_left 1
  · refine (runFiber_of_reply? hgoes hobtain).trans ?_
    refine (runFiber_of_reply? (m := m.within (extended _)) hgoes henter).trans ?_
    refine (runFiber_of_reply? (m := m.within (extended _)) hgoes hlook).trans ?_
    refine (runFiber_of_reply? (m := m.within (extended _)) hgoes hshare).trans ?_
    have hf' : (m.within (extended { value := none, isHeld := true, users := 2 })).Is f 0 token
      state := hf.congr rfl rfl
    refine (runFiber_of_perform (perform_spawn hf' hqueue _)).trans ?_
    exact runFiber_of_waits (perform_join (hf'.started _) (is_started hf.live _).outcome?_of_ready)
  · intro id w cell hcell
    exact congrArg (fun t => some (s.given id, w.withSlots t)) (MutexTable.modify_eq_set hcell)

/-- A part whose slot is held gets in line. -/
theorem runFiber_of_held {n : Nat} (hf : m.Is f 0 token state)
    (hk : m.world.slots.index.lookup s.key = some c)
    (hc : m.world.slots.cells[c]? = some { value := none, isHeld := true, users := n }) :
    ∃ next : Option Unit → Steward Outcome, LeavesWith s c (next (some ())) ∧
      m.runFiber f (q.program s.job) = m.becomes (m.world.withSlots (m.world.slots.set c
        { value := none, isHeld := true, waiting := [f], users := n + 1 })) f
          (.waiting (.wait (.slot c)) next false) := by
  have hgoes := hf.not_isInterrupted
  let shared : World := m.world.withSlots
    (m.world.slots.set c { value := none, isHeld := true, users := n + 1 })
  have hobtain : m.world.reply? (.slots (.obtain s.key)) = some (c, shared) :=
    World.reply?_obtain_of_cell hk hc
  have hwait : (m.within shared).perform f (.wait (.slot c)) = (none, m.within
      (m.world.withSlots (m.world.slots.set c
        { value := none, isHeld := true, waiting := [f], users := n + 1 }))) := by
    have henter : (m.within shared).world.slots.enter c f = (false, m.world.slots.set c
        { value := none, isHeld := true, waiting := [f], users := n + 1 }) :=
      MutexTable.enter_set hc rfl f
    rw [perform, (hf.congr rfl rfl : (m.within shared).Is f 0 token state).not_isInterrupted,
      beginWait, henter]
    rfl
  apply Exists.intro
  apply And.intro
  rotate_left 1
  · refine (runFiber_of_reply? hgoes hobtain).trans ?_
    exact runFiber_of_waits hwait
  · intro w id n hcell
    let at_ (cell : MutexTable.Cell (Option String)) : World := w.withSlots (w.slots.set c cell)
    have hat : w = at_ { value := some id, isHeld := true, users := n } :=
      congrArg w.withSlots (MutexTable.set_of_cell hcell).symm
    refine (congrArg (World.eval? _) hat).trans ?_
    refine (World.eval?_of_reply? (World.reply?_value_set hcell)).trans ?_
    refine (World.eval?_of_reply? (World.reply?_leave_set hcell rfl)).trans ?_
    refine (World.eval?_of_reply? World.reply?_release_set).trans ?_
    rfl

/-- A part whose record is there has it at once. -/
theorem eval?_of_found {w : World} (hk : w.slots.index.lookup s.key = some c)
    (hc : w.slots.cells[c]? = some { value := some id }) :
    w.eval? (q.program s.job) = some (s.given id, w) := by
  refine (World.eval?_of_reply? (World.reply?_obtain_of_cell hk hc)).trans ?_
  refine (World.eval?_of_reply? (World.reply?_enter_set hc rfl)).trans ?_
  refine (World.eval?_of_reply? (World.reply?_value_set hc)).trans ?_
  refine (World.eval?_of_reply? (World.reply?_leave_set hc rfl)).trans ?_
  refine (World.eval?_of_reply? World.reply?_release_set).trans ?_
  exact congrArg (fun t => some (s.given id, w.withSlots t)) (MutexTable.set_of_cell hc)

/-! ### Jobs -/

variable {d d' : MemoryDns}

/-- A job that does not have to wait for the service hands the id of its record in. -/
theorem runFiber_createRecord (hg : m.Is g g token state) (hdns : m.world.dns = .memory d)
    (hcreate : d.create s.name s.value = ((.ok id, none), d')) :
    m.runFiber g (q.program (.createRecord c s.name s.value)) =
      (m.within { m.world with dns := .memory d' }).runFiber g (handIn c id) := by
  have hgoes := hg.not_isInterrupted
  have hask := World.reply?_create hdns s.name s.value
  rw [hcreate] at hask
  refine (runFiber_of_reply? (a := .now) hgoes rfl).trans ?_
  generalize q.issuance.dns.retries = retries
  cases retries with
  | zero => exact runFiber_of_reply? (m := m.within m.world) hgoes hask
  | succ retries => exact runFiber_of_reply? (m := m.within m.world) hgoes hask

/-- A job that has to wait for the service sleeps, or does so at once. -/
theorem runFiber_createRecord_delayed {time : Duration} (hg : m.Is g g token state)
    (hdns : m.world.dns = .memory d)
    (hcreate : d.create s.name s.value = ((.ok id, some time), d')) :
    ∃ next : Option Unit → Steward Outcome, next (some ()) = DnsPractice.settle c id ∧
      m.runFiber g (q.program (.createRecord c s.name s.value)) =
        (m.within { m.world with dns := .memory d' }).runFiber g
          (.ask (.wait (.sleep time)) next) := by
  have hgoes := hg.not_isInterrupted
  have hask := World.reply?_create hdns s.name s.value
  rw [hcreate] at hask
  rw [RenewalPractice.program, DnsPractice.createRecord, retry]
  generalize q.issuance.dns.retries = retries
  cases retries with
  | zero =>
    apply Exists.intro
    apply And.intro
    rotate_left 1
    · refine (runFiber_of_reply? (a := .now) hgoes rfl).trans ?_
      exact runFiber_of_reply? (m := m.within m.world) hgoes hask
    · rfl
  | succ retries =>
    apply Exists.intro
    apply And.intro
    rotate_left 1
    · refine (runFiber_of_reply? (a := .now) hgoes rfl).trans ?_
      exact runFiber_of_reply? (m := m.within m.world) hgoes hask
    · rfl

/-- The slot is free when its record is there, unless somebody stands in line. -/
theorem runFiber_handIn {n : Nat} (id : String) (hg : m.Is g g token state)
    (hc : m.world.slots.cells[c]? = some { value := none, isHeld := true, users := n }) :
    m.runFiber g (handIn c id) = (m.within (m.world.withSlots
      (m.world.slots.set c { value := some id, users := n - 1 }))).finish g (.created (.ok id)) := by
  let at_ (cell : MutexTable.Cell (Option String)) : Machine :=
    m.within (m.world.withSlots (m.world.slots.set c cell))
  have hgoes (cell) : (at_ cell).isInterrupted g = false :=
    (hg.congr rfl rfl : (at_ cell).Is g g token state).not_isInterrupted
  have hat : m = at_ { value := none, isHeld := true, users := n } :=
    congrArg (fun t => m.within (m.world.withSlots t)) (MutexTable.set_of_cell hc).symm
  refine (congrArg (runFiber g _) hat).trans ?_
  refine (runFiber_of_reply? (hgoes _) World.reply?_put_set).trans ?_
  refine (runFiber_of_reply? (m := at_ _) (hgoes _) (World.reply?_leave_set hc rfl)).trans ?_
  exact runFiber_of_reply? (m := at_ _) (hgoes _) World.reply?_release_set

/-- The slot passes to who stands in line. -/
theorem runFiber_handIn_of_line {n : Nat} {fiber : Fiber} (id : String) (hg : m.Is g g token state)
    (hf : m.fibers[f]? = some fiber) (htask : fiber.task = 0) (hfg : f ≠ g)
    (hc : m.world.slots.cells[c]? =
      some { value := none, isHeld := true, waiting := [f], users := n }) :
    m.runFiber g (handIn c id) = ({ (m.within (m.world.withSlots (m.world.slots.set c
      { value := some id, isHeld := true, users := n - 1 }))).modify f Fiber.roused with
        isMainWoken := true }).finish g (.created (.ok id)) := by
  let at_ (cell : MutexTable.Cell (Option String)) : Machine :=
    m.within (m.world.withSlots (m.world.slots.set c cell))
  let woken (cell : MutexTable.Cell (Option String)) : Machine :=
    { (at_ cell).modify f Fiber.roused with isMainWoken := true }
  have hgoes (cell) : (at_ cell).isInterrupted g = false :=
    (hg.congr rfl rfl : (at_ cell).Is g g token state).not_isInterrupted
  have hgoes' (cell) : (woken cell).isInterrupted g = false :=
    (hg.congr (getElem?_modify.trans (if_neg hfg)) rfl :
      (woken cell).Is g g token state).not_isInterrupted
  have hat : m = at_ { value := none, isHeld := true, waiting := [f], users := n } :=
    congrArg (fun t => m.within (m.world.withSlots t)) (MutexTable.set_of_cell hc).symm
  have hline : (at_ { value := some id, isHeld := true, waiting := [f], users := n }).world.slots.line
      c = [f] := MutexTable.line_of_cell (MutexTable.cells_set hc)
  have hleave : (at_ { value := some id, isHeld := true, waiting := [f], users := n }).perform g
      (.slots (.leave c)) = (some (), woken { value := some id, isHeld := true, users := n }) := by
    refine (perform_leave hline hf htask).trans ?_
    exact congrArg (fun t => (some (),
      { (m.within (m.world.withSlots t)).modify f Fiber.roused with isMainWoken := true }))
      MutexTable.modify_set
  refine (congrArg (runFiber g _) hat).trans ?_
  refine (runFiber_of_reply? (hgoes _) World.reply?_put_set).trans ?_
  refine (runFiber_of_perform hleave).trans ?_
  exact runFiber_of_reply? (m := woken _) (hgoes' _) World.reply?_release_set

end Machine

open Machine (LeavesWith ReleasesWith)

/-- A record that is being made, for the part that came first and for the one that follows it. -/
structure Maker where
  lead : Seat
  follower : Option Seat := none
  job : Nat
  cell : Nat
deriving DecidableEq

/-- How far a maker is. -/
inductive Stage
  /-- The job has not begun. -/
  | asked
  | asleep (id : String)
  | awake (id : String)
  /-- The record is there, and parts have still to learn of it. -/
  | made (id : String) (lead follower : Bool)

namespace Maker

/-- The parts that ask for the record. -/
def seats (k : Maker) : List Seat := k.lead :: k.follower.toList

/-- Everybody who has to do with it. -/
def fibers (k : Maker) : List Nat := k.job :: k.seats.map (·.part)

/-- The cell of the slot. -/
def cellAt (k : Maker) : Stage → MutexTable.Cell (Option String)
  | .made id lead follower =>
    { value := some id, isHeld := follower, users := lead.toNat + follower.toNat }
  | _ => { value := none, isHeld := true, waiting := k.follower.toList.map (·.part)
           users := 2 + k.follower.toList.length }

end Maker

namespace Machine

variable {m m' : Machine} {q : RenewalPractice} {token : Nat} {s : Seat} {k : Maker} {st : Stage}

/-! ### Where parts and jobs are -/

/-- A part waits for the end of its job. -/
def Awaits (m : Machine) (token : Nat) (s : Seat) (job cell : Nat) (isOver : Bool) : Prop :=
  ∃ next : Option Outcome → Steward Outcome,
    (∀ id, ReleasesWith s cell (next (some (.created (.ok id)))) id) ∧
      m.Is s.part 0 token (.waiting (.wait (.join job)) next isOver)

/-- A part waits for its slot. -/
def Lines (m : Machine) (token : Nat) (s : Seat) (cell : Nat) (isOver : Bool) : Prop :=
  ∃ next : Option Unit → Steward Outcome, LeavesWith s cell (next (some ())) ∧
    m.Is s.part 0 token (.waiting (.wait (.slot cell)) next isOver)

/-- A part has its record. -/
def Served (m : Machine) (token : Nat) (s : Seat) : Prop :=
  ∃ id, m.Is s.part 0 token (.finished (s.given id))

/-- Where the part is that came first. -/
def LeadIs (m : Machine) (token : Nat) (k : Maker) : Stage → Prop
  | .made _ true _ => m.Awaits token k.lead k.job k.cell true
  | .made _ false _ => m.Served token k.lead
  | _ => m.Awaits token k.lead k.job k.cell false

/-- Where a part is that follows. -/
def FollowerIs (m : Machine) (token : Nat) (k : Maker) (s : Seat) : Stage → Prop
  | .made _ _ true => m.Lines token s k.cell true
  | .made _ _ false => m.Served token s
  | _ => m.Lines token s k.cell false

/-- Where the job is. -/
def JobIs (m : Machine) (q : RenewalPractice) (token : Nat) (k : Maker) : Stage → Prop
  | .asked => m.Is k.job k.job token
      (.ready (q.program (.createRecord k.cell k.lead.name k.lead.value)))
  | .asleep id => ∃ time next, next (some ()) = DnsPractice.settle k.cell id ∧
      m.Is k.job k.job token (.waiting (.wait (.sleep time)) next false)
  | .awake id => ∃ time next, next (some ()) = DnsPractice.settle k.cell id ∧
      m.Is k.job k.job token (.waiting (.wait (.sleep time)) next true)
  | .made id _ _ => m.Is k.job k.job token (.finished (.created (.ok id)))

/-- A maker has come to a stage. -/
structure Stands (m : Machine) (q : RenewalPractice) (token : Nat) (k : Maker) (st : Stage) :
    Prop where
  cell : m.world.slots.cells[k.cell]? = some (k.cellAt st)
  lead : m.LeadIs token k st
  follower : ∀ s ∈ k.follower, m.FollowerIs token k s st
  job : m.JobIs q token k st

section Joins

variable {fiber : Fiber} {g : Nat}

theorem LeadIs.joins (h : m.LeadIs token k st) (hfiber : m.fibers[k.lead.part]? = some fiber)
    (hjoins : joins fiber g = true) : k.job = g := by
  have hwaits : ∀ isOver, m.Awaits token k.lead k.job k.cell isOver → k.job = g := by
    rintro isOver ⟨next, -, his⟩
    rw [Machine.joins, his.state_eq hfiber] at hjoins
    exact beq_iff_eq.mp hjoins
  have hserved : m.Served token k.lead → k.job = g := by
    rintro ⟨id, his⟩
    rw [Machine.joins, his.state_eq hfiber] at hjoins
    cases hjoins
  cases st with
  | asked | asleep | awake => exact hwaits _ h
  | made id lead follower =>
    cases lead with
    | true => exact hwaits _ h
    | false => exact hserved h

theorem FollowerIs.not_joins (h : m.FollowerIs token k s st)
    (hfiber : m.fibers[s.part]? = some fiber) : joins fiber g = false := by
  have hwaits : ∀ isOver, m.Lines token s k.cell isOver → Machine.joins fiber g = false := by
    rintro isOver ⟨next, -, his⟩
    rw [Machine.joins, his.state_eq hfiber]
  have hserved : m.Served token s → Machine.joins fiber g = false := by
    rintro ⟨id, his⟩
    rw [Machine.joins, his.state_eq hfiber]
  cases st with
  | asked | asleep | awake => exact hwaits _ h
  | made id lead follower =>
    cases follower with
    | true => exact hwaits _ h
    | false => exact hserved h

theorem JobIs.not_joins (h : m.JobIs q token k st) (hfiber : m.fibers[k.job]? = some fiber) :
    joins fiber g = false := by
  cases st with
  | asked | made =>
    rw [Machine.joins, Is.state_eq h hfiber]
  | asleep | awake =>
    obtain ⟨time, next, -, his⟩ := h
    rw [Machine.joins, his.state_eq hfiber]

end Joins

theorem JobIs.is (h : m.JobIs q token k st) : ∃ state, m.Is k.job k.job token state := by
  cases st with
  | asked | made => exact ⟨_, h⟩
  | asleep | awake =>
    obtain ⟨time, next, -, his⟩ := h
    exact ⟨_, his⟩

theorem Awaits.congr {job cell : Nat} {isOver : Bool} (h : m.Awaits token s job cell isOver)
    (hfiber : m'.fibers[s.part]? = m.fibers[s.part]?) (hcancelled : m'.cancelled = m.cancelled) :
    m'.Awaits token s job cell isOver := by
  obtain ⟨next, hnext, his⟩ := h
  exact ⟨next, hnext, his.congr hfiber hcancelled⟩

theorem Lines.congr {cell : Nat} {isOver : Bool} (h : m.Lines token s cell isOver)
    (hfiber : m'.fibers[s.part]? = m.fibers[s.part]?) (hcancelled : m'.cancelled = m.cancelled) :
    m'.Lines token s cell isOver := by
  obtain ⟨next, hnext, his⟩ := h
  exact ⟨next, hnext, his.congr hfiber hcancelled⟩

theorem Served.congr (h : m.Served token s) (hfiber : m'.fibers[s.part]? = m.fibers[s.part]?)
    (hcancelled : m'.cancelled = m.cancelled) :
    m'.Served token s := by
  obtain ⟨id, his⟩ := h
  exact ⟨id, his.congr hfiber hcancelled⟩

/-- What others do does not matter. -/
theorem Stands.congr (h : m.Stands q token k st)
    (hfibers : ∀ f ∈ k.fibers, m'.fibers[f]? = m.fibers[f]?)
    (hcell : m'.world.slots.cells[k.cell]? = m.world.slots.cells[k.cell]?)
    (hcancelled : m'.cancelled = m.cancelled) :
    m'.Stands q token k st where
  cell := hcell.trans h.cell
  lead := by
    have hfiber := hfibers k.lead.part (List.mem_cons_of_mem _ List.mem_cons_self)
    have hlead := h.lead
    cases st with
    | asked | asleep | awake => exact hlead.congr hfiber hcancelled
    | made id lead follower => cases lead <;> exact hlead.congr hfiber hcancelled
  follower s hs := by
    have hfiber := hfibers s.part (List.mem_cons_of_mem _ (List.mem_map_of_mem
      (List.mem_cons_of_mem _ (Option.mem_toList.mpr hs))))
    have hline := h.follower s hs
    cases st with
    | asked | asleep | awake => exact hline.congr hfiber hcancelled
    | made id lead follower => cases follower <;> exact hline.congr hfiber hcancelled
  job := by
    have hfiber := hfibers k.job List.mem_cons_self
    have hjob := h.job
    cases st with
    | asked | made => exact hjob.congr hfiber hcancelled
    | asleep | awake =>
      obtain ⟨time, next, hnext, his⟩ := hjob
      exact ⟨time, next, hnext, his.congr hfiber hcancelled⟩

end Machine

/-! ### Layouts -/

/-- Who is who: the parts of a run, the makers, and the parts that are still to begin. -/
structure Layout (seats : List Seat) (ks : List Maker) (todo : List Seat) : Prop where
  fibers : (0 :: (seats.map (·.part) ++ ks.map (·.job))).Nodup
  subset : ∀ k ∈ ks, ∀ s ∈ k.seats, s ∈ seats
  todo_subset : todo ⊆ seats
  apart : (todo ++ ks.flatMap Maker.seats).Nodup

namespace Layout

variable {seats todo : List Seat} {ks : List Maker} {k k' : Maker} {s s' : Seat}

theorem part_ne (h : Layout seats ks todo) (hs : s ∈ seats) : s.part ≠ 0 := fun h0 =>
  (List.nodup_cons.mp h.fibers).1 (List.mem_append_left _ (h0 ▸ List.mem_map_of_mem hs))

theorem job_ne (h : Layout seats ks todo) (hk : k ∈ ks) : k.job ≠ 0 := fun h0 =>
  (List.nodup_cons.mp h.fibers).1 (List.mem_append_right _ (h0 ▸ List.mem_map_of_mem hk))

theorem part_ne_job (h : Layout seats ks todo) (hs : s ∈ seats) (hk : k ∈ ks) : s.part ≠ k.job :=
  (List.nodup_append.mp (List.nodup_cons.mp h.fibers).2).2.2 _ (List.mem_map_of_mem hs) _
    (List.mem_map_of_mem hk)

theorem eq_of_part (h : Layout seats ks todo) (hs : s ∈ seats) (hs' : s' ∈ seats)
    (heq : s.part = s'.part) : s = s' :=
  List.inj_on_of_nodup_map (List.nodup_append.mp (List.nodup_cons.mp h.fibers).2).1 hs hs' heq

theorem eq_of_job (h : Layout seats ks todo) (hk : k ∈ ks) (hk' : k' ∈ ks)
    (heq : k.job = k'.job) : k = k' :=
  List.inj_on_of_nodup_map (List.nodup_append.mp (List.nodup_cons.mp h.fibers).2).2.1 hk hk' heq

/-- A part belongs to one maker. -/
theorem eq_of_seat (h : Layout seats ks todo) (hk : k ∈ ks) (hk' : k' ∈ ks) (hs : s ∈ k.seats)
    (hs' : s ∈ k'.seats) : k = k' := by
  by_contra hne
  have hpairs := (List.nodup_flatMap.mp (List.nodup_append.mp h.apart).2.1).2
  have : Std.Symm (Function.onFun List.Disjoint Maker.seats) := ⟨fun _ _ h _ hb ha => h ha hb⟩
  exact hpairs.forall hk hk' hne hs hs'

theorem seat_not_mem_fibers (h : Layout seats ks todo) (hk : k ∈ ks) (hs : s ∈ seats)
    (hsk : s ∉ k.seats) : s.part ∉ k.fibers := by
  intro hmem
  obtain hjob | hpart := List.mem_cons.mp hmem
  · exact h.part_ne_job hs hk hjob
  · obtain ⟨s', hs', heq⟩ := List.mem_map.mp hpart
    exact hsk (h.eq_of_part (h.subset k hk s' hs') hs heq ▸ hs')

theorem todo_not_mem_seats (h : Layout seats ks todo) (hk : k ∈ ks) (hs : s ∈ todo) :
    s ∉ k.seats := fun hsk =>
  (List.nodup_append.mp h.apart).2.2 s hs s (List.mem_flatMap.mpr ⟨k, hk, hsk⟩) rfl

theorem zero_not_mem_fibers (h : Layout seats ks todo) (hk : k ∈ ks) : 0 ∉ k.fibers := by
  intro hmem
  obtain hjob | hpart := List.mem_cons.mp hmem
  · exact h.job_ne hk hjob.symm
  · obtain ⟨s, hs, h0⟩ := List.mem_map.mp hpart
    exact h.part_ne (h.subset k hk s hs) h0

theorem disjoint (h : Layout seats ks todo) (hk : k ∈ ks) (hk' : k' ∈ ks) (hne : k' ≠ k) {f : Nat}
    (hf : f ∈ k'.fibers) : f ∉ k.fibers := by
  obtain rfl | hpart := List.mem_cons.mp hf
  · intro hmem
    obtain hjob | hpart := List.mem_cons.mp hmem
    · exact hne (h.eq_of_job hk' hk hjob)
    · obtain ⟨s, hs, heq⟩ := List.mem_map.mp hpart
      exact h.part_ne_job (h.subset k hk s hs) hk' heq
  · obtain ⟨s, hs, rfl⟩ := List.mem_map.mp hpart
    exact h.seat_not_mem_fibers hk (h.subset k' hk' s hs) fun hsk =>
      hne (h.eq_of_seat hk' hk hs hsk)

theorem lead_mem (h : Layout seats ks todo) (hk : k ∈ ks) : k.lead ∈ seats :=
  h.subset k hk _ List.mem_cons_self

theorem follower_mem (h : Layout seats ks todo) (hk : k ∈ ks) (hs : s ∈ k.follower) : s ∈ seats :=
  h.subset k hk _ (List.mem_cons_of_mem _ (Option.mem_toList.mpr hs))

theorem follower_part_ne (h : Layout seats ks todo) (hk : k ∈ ks) (hs : s ∈ k.follower) :
    s.part ≠ k.lead.part := by
  intro heq
  have hnodup : k.seats.Nodup := by
    obtain ⟨before, after, rfl⟩ := List.append_of_mem hk
    have hapart := (List.nodup_append.mp h.apart).2.1
    rw [List.flatMap_append, List.flatMap_cons] at hapart
    exact (List.nodup_append.mp (List.nodup_append.mp hapart).2.1).1
  have hlead : k.lead ∈ k.follower.toList :=
    h.eq_of_part (h.follower_mem hk hs) (h.lead_mem hk) heq ▸ Option.mem_toList.mpr hs
  exact (List.nodup_cons.mp hnodup).1 hlead

end Layout

/-- The slots of the makers stand after those that were there before. -/
structure Slots (t₀ t : MutexTable SlotKey (Option String)) (ks : List Maker) : Prop where
  index : t.index = t₀.index ++ ks.map fun k => (k.lead.key, k.cell)
  keys : (t.index.map (·.1)).Nodup
  cells : ks.map (·.cell) = List.range' t₀.cells.size ks.length
  size : t.cells.size = t₀.cells.size + ks.length
  old : ∀ c < t₀.cells.size, t.cells[c]? = t₀.cells[c]?

namespace Slots

variable {t₀ t : MutexTable SlotKey (Option String)} {ks : List Maker} {k k' : Maker}
variable {cell : MutexTable.Cell (Option String)}

theorem le_cell (h : Slots t₀ t ks) (hk : k ∈ ks) : t₀.cells.size ≤ k.cell := by
  have hmem : k.cell ∈ List.range' t₀.cells.size ks.length := h.cells ▸ List.mem_map_of_mem hk
  exact (List.mem_range'_1.mp hmem).1

theorem eq_of_cell (h : Slots t₀ t ks) (hk : k ∈ ks) (hk' : k' ∈ ks) (heq : k.cell = k'.cell) :
    k = k' :=
  List.inj_on_of_nodup_map (h.cells ▸ List.nodup_range') hk hk' heq

theorem set (h : Slots t₀ t ks) (hk : k ∈ ks) (cell : MutexTable.Cell (Option String)) :
    Slots t₀ (t.set k.cell cell) ks where
  index := h.index
  keys := h.keys
  cells := h.cells
  size := MutexTable.size_modify.trans h.size
  old c hc := by
    have hle := h.le_cell hk
    rw [MutexTable.cells_set_of_ne (by omega)]
    exact h.old c hc

end Slots

namespace Machine

/-- The main program waits for the parts that ask for its records. -/
structure Scene (m : Machine) (q : RenewalPractice) (token : Nat) (isWatching : Bool) (w₀ : World)
    (seats : List Seat) (ks : List Maker) (stage : Maker → Stage) (todo : List Seat) : Prop where
  layout : Layout seats ks todo
  slots : Slots w₀.slots m.world.slots ks
  world : m.world = { w₀ with slots := m.world.slots, dns := m.world.dns, clock := m.world.clock }
  program : m.program = q.program
  main : ∃ fiber : Fiber, m.fibers[0]? = some fiber ∧ fiber.task = 0 ∧ fiber.token = token ∧
    fiber.isWatching = isWatching ∧ fiber.parts = seats.map (·.part) ∧
    fiber.state = .waiting (.wait (.all (seats.map (·.job))))
      (mainWait (.wait (.all (seats.map (·.job))))) false
  live : m.cancelled.contains token = false
  ready : ∀ s ∈ todo, m.Is s.part 0 token (.ready (q.program s.job))
  placed : ∀ s ∈ seats, s ∈ todo ∨ m.Served token s ∨ ∃ k ∈ ks, s ∈ k.seats
  stands : ∀ k ∈ ks, m.Stands q token k (stage k)
  others : ∀ (f : Nat) (fiber : Fiber), f ≠ 0 → f ∉ seats.map (·.part) → f ∉ ks.map (·.job) →
    m.fibers[f]? = some fiber → ∃ o, fiber.state = .finished o

namespace Scene

variable {m m' : Machine} {q : RenewalPractice} {token : Nat} {isWatching : Bool} {w₀ : World}
variable {seats todo : List Seat} {ks : List Maker} {stage : Maker → Stage} {st : Stage} {k : Maker}
variable {s : Seat} {f g : Nat} {fiber : Fiber}

theorem outcome?_main (h : m.Scene q token isWatching w₀ seats ks stage todo) :
    m.outcome? 0 = none := by
  obtain ⟨fiber, hfiber, -, -, -, -, hstate⟩ := h.main
  rw [outcome?_of_state hfiber, hstate]

/-- Only the part that came first waits for a job. -/
theorem joins (h : m.Scene q token isWatching w₀ seats ks stage todo)
    (hfiber : m.fibers[f]? = some fiber) (hjoins : joins fiber g = true) :
    ∃ k ∈ ks, k.lead.part = f ∧ k.job = g := by
  by_cases hmain : f = 0
  · subst hmain
    obtain ⟨main, hfiber', -, -, -, -, hstate⟩ := h.main
    obtain rfl := Option.some.inj (hfiber'.symm.trans hfiber)
    rw [Machine.joins, hstate] at hjoins
    cases hjoins
  by_cases hpart : f ∈ seats.map (·.part)
  · obtain ⟨s, hs, rfl⟩ := List.mem_map.mp hpart
    obtain htodo | ⟨id, his⟩ | ⟨k, hk, hsk⟩ := h.placed s hs
    · rw [Machine.joins, (h.ready s htodo).state_eq hfiber] at hjoins
      cases hjoins
    · rw [Machine.joins, his.state_eq hfiber] at hjoins
      cases hjoins
    · obtain rfl | hsk := List.mem_cons.mp hsk
      · refine ⟨k, hk, rfl, ?_⟩
        have hjob := (h.stands k hk).lead.joins hfiber hjoins
        exact hjob
      · have hline := (h.stands k hk).follower s (Option.mem_toList.mp hsk)
        exact absurd hjoins (Bool.not_eq_true _ ▸ hline.not_joins hfiber)
  by_cases hjob : f ∈ ks.map (·.job)
  · obtain ⟨k, hk, rfl⟩ := List.mem_map.mp hjob
    exact absurd hjoins (Bool.not_eq_true _ ▸ (h.stands k hk).job.not_joins hfiber)
  · obtain ⟨o, ho⟩ := h.others f fiber hmain hpart hjob hfiber
    rw [joins_of_finished ho] at hjoins
    cases hjoins

/-- One maker comes to another stage. -/
theorem update (h : m.Scene q token isWatching w₀ seats ks stage todo) (hk : k ∈ ks)
    (hfibers : ∀ f ∉ k.fibers, m'.fibers[f]? = m.fibers[f]?)
    (hcancelled : m'.cancelled = m.cancelled) (hprogram : m'.program = m.program)
    {c : MutexTable.Cell (Option String)} {d : DnsService}
    (hworld : m'.world = { m.world with slots := m.world.slots.set k.cell c, dns := d })
    (hstands : m'.Stands q token k st) :
    m'.Scene q token isWatching w₀ seats ks (Function.update stage k st) todo where
  layout := h.layout
  slots := by
    rw [hworld]
    exact h.slots.set hk c
  world := by
    rw [hworld]
    exact congrArg (fun w : World => { w with slots := m.world.slots.set k.cell c, dns := d }) h.world
  program := hprogram.trans h.program
  main := by
    rw [hfibers 0 (h.layout.zero_not_mem_fibers hk)]
    exact h.main
  live := by
    rw [hcancelled]
    exact h.live
  ready s hs := (h.ready s hs).congr (hfibers _ (h.layout.seat_not_mem_fibers hk
    (h.layout.todo_subset hs) (h.layout.todo_not_mem_seats hk hs))) hcancelled
  placed s hs := by
    obtain htodo | hserved | hmade := h.placed s hs
    · exact .inl htodo
    · by_cases hsk : s ∈ k.seats
      · exact .inr (.inr ⟨k, hk, hsk⟩)
      · exact .inr (.inl (hserved.congr
          (hfibers _ (h.layout.seat_not_mem_fibers hk hs hsk)) hcancelled))
    · exact .inr (.inr hmade)
  stands k' hk' := by
    by_cases heq : k' = k
    · subst heq
      rw [Function.update_self]
      exact hstands
    · rw [Function.update_of_ne heq]
      refine (h.stands k' hk').congr (fun f hf => hfibers f (h.layout.disjoint hk hk' heq hf)) ?_
        hcancelled
      rw [hworld]
      exact MutexTable.cells_set_of_ne fun hcell => heq (h.slots.eq_of_cell hk' hk hcell.symm)
  others f fiber hf hpart hjob hfiber := by
    refine h.others f fiber hf hpart hjob (hfibers f (fun hmem => ?_) ▸ hfiber)
    obtain rfl | hmem := List.mem_cons.mp hmem
    · exact hjob (List.mem_map_of_mem hk)
    · obtain ⟨s, hs, rfl⟩ := List.mem_map.mp hmem
      exact hpart (List.mem_map_of_mem (h.layout.subset k hk s hs))

/-- What is looked at, and when, does not matter. -/
theorem congr (h : m.Scene q token isWatching w₀ seats ks stage todo) (hworld : m'.world = m.world)
    (hprogram : m'.program = m.program) (hfibers : m'.fibers = m.fibers)
    (hcancelled : m'.cancelled = m.cancelled) :
    m'.Scene q token isWatching w₀ seats ks stage todo where
  layout := h.layout
  slots := hworld ▸ h.slots
  world := by
    rw [hworld]
    exact h.world
  program := hprogram.trans h.program
  main := by
    rw [hfibers]
    exact h.main
  live := by
    rw [hcancelled]
    exact h.live
  ready s hs := (h.ready s hs).congr (by rw [hfibers]) hcancelled
  placed s hs := (h.placed s hs).imp_right (.imp_left (·.congr (by rw [hfibers]) hcancelled))
  stands k hk := (h.stands k hk).congr (fun _ _ => by rw [hfibers]) (by rw [hworld]) hcancelled
  others := by
    rw [hfibers]
    exact h.others

/-- The service and the clock do not matter. -/
theorem within (h : m.Scene q token isWatching w₀ seats ks stage todo) (dns : DnsService)
    (clock : Duration) :
    (m.within { m.world with dns, clock }).Scene q token isWatching w₀ seats ks stage todo where
  layout := h.layout
  slots := h.slots
  world := congrArg (fun w : World => { w with dns, clock }) h.world
  program := h.program
  main := h.main
  live := h.live
  ready s hs := (h.ready s hs).congr rfl rfl
  placed s hs := (h.placed s hs).imp id (.imp (fun h => h.congr (by rfl) rfl) id)
  stands k hk := (h.stands k hk).congr (fun _ _ => by rfl) (by rfl) rfl
  others := h.others

/-- When the slot has been let go and the job ends, the part that came first learns of it. -/
theorem ends {m₁ : Machine} (id : String)
    (h : m.Scene q token isWatching w₀ seats ks stage todo)
    (hk : k ∈ ks) (hlead : m.Awaits token k.lead k.job k.cell false)
    (hsame : ∀ f ∉ k.follower.toList.map (·.part), m₁.fibers[f]? = m.fibers[f]?)
    (hcancelled : m₁.cancelled = m.cancelled) (hprogram : m₁.program = m.program)
    (hworld : m₁.world = { m.world with
      slots := m.world.slots.set k.cell (k.cellAt (.made id true k.follower.isSome)) })
    (hfollower : ∀ s ∈ k.follower, m₁.Lines token s k.cell true) :
    ∃ m' : Machine, m₁.finish k.job (.created (.ok id)) = m' ∧
      m'.Scene q token isWatching w₀ seats ks
        (Function.update stage k (.made id true k.follower.isSome)) todo ∧
      m'.agenda = m₁.agenda ∧ m'.queue = m₁.queue ∧ m'.timers = m₁.timers ∧
      m'.isMainWoken = true ∧ m'.world = m₁.world := by
  have hne : k.lead.part ≠ k.job := h.layout.part_ne_job (h.layout.lead_mem hk) hk
  have hnotlead : k.lead.part ∉ k.follower.toList.map (·.part) := by
    rintro hmem
    obtain ⟨s, hs, heq⟩ := List.mem_map.mp hmem
    exact h.layout.follower_part_ne hk (Option.mem_toList.mp hs) heq
  have hnotjob : k.job ∉ k.follower.toList.map (·.part) := by
    rintro hmem
    obtain ⟨s, hs, heq⟩ := List.mem_map.mp hmem
    exact h.layout.part_ne_job (h.layout.follower_mem hk (Option.mem_toList.mp hs)) hk heq
  obtain ⟨next, hnext, hlead⟩ := hlead
  replace hlead := hlead.congr (hsame _ hnotlead) hcancelled
  obtain ⟨lead, hleadfiber, htask, -, hleadstate⟩ := hlead.here
  obtain ⟨state, hjob⟩ := (h.stands k hk).job.is
  replace hjob := hjob.congr (hsame _ hnotjob) hcancelled
  -- nobody else waits for the job
  have hfinish := finish_of_joined (o := .created (.ok id)) hleadfiber htask
    (by rw [Machine.joins, hleadstate]; exact beq_self_eq_true k.job) hne
    fun f other hf hg hother => by
      by_cases hmem : f ∈ k.follower.toList.map (·.part)
      · obtain ⟨s, hs, rfl⟩ := List.mem_map.mp hmem
        obtain ⟨_, -, his⟩ := hfollower s (Option.mem_toList.mp hs)
        rw [Machine.joins, his.state_eq hother]
      · rw [hsame f hmem] at hother
        refine Bool.eq_false_iff.mpr fun hjoins => ?_
        obtain ⟨k', hk', rfl, heq⟩ := h.joins hother hjoins
        rw [h.layout.eq_of_job hk' hk heq] at hf
        exact hf rfl
  refine ⟨_, rfl, ?_⟩
  rw [hfinish]
  refine ⟨?_, rfl, rfl, rfl, rfl, rfl⟩
  let ended : Machine := m₁.becomes m₁.world k.job (.finished (.created (.ok id)))
  have hrest : ∀ f, f ≠ k.lead.part → (ended.modify k.lead.part Fiber.roused).fibers[f]? =
      ended.fibers[f]? := fun f hf => getElem?_modify.trans (if_neg (Ne.symm hf))
  have hended : ∀ f, f ≠ k.job → ended.fibers[f]? = m₁.fibers[f]? := fun f hf =>
    getElem?_becomes.trans (if_neg (Ne.symm hf))
  refine h.update hk (fun f hf => ?_) hcancelled hprogram hworld ?_
  · rw [Maker.fibers, Maker.seats, List.map_cons, List.mem_cons, List.mem_cons, not_or,
      not_or] at hf
    exact (hrest f hf.2.1).trans ((hended f hf.1).trans (hsame f hf.2.2))
  · refine ⟨?_, ⟨next, hnext, ?_⟩, fun s hs => ?_, ?_⟩
    · change m₁.world.slots.cells[k.cell]? = _
      rw [hworld]
      exact MutexTable.cells_set (h.stands k hk).cell
    · have hwaits : ended.Is _ _ _ _ := hlead.congr (hended _ hne) rfl
      exact hwaits.roused.congr rfl rfl
    · obtain ⟨next, hnext, hline⟩ := hfollower s hs
      have hpart := h.layout.follower_part_ne hk hs
      have hfiber := (hrest s.part hpart).trans
        (hended _ (h.layout.part_ne_job (h.layout.follower_mem hk hs) hk))
      rw [Option.mem_def.mp hs]
      exact ⟨next, hnext, hline.congr hfiber rfl⟩
    · exact (hjob.becomes _ _).congr (hrest _ (Ne.symm hne)) rfl

/-- The job of a maker ends when it has handed in the id of the record. -/
theorem hands_in (id : String) (h : m.Scene q token isWatching w₀ seats ks stage todo)
    (hk : k ∈ ks) (hstage : stage k = .asked ∨ stage k = .awake id) :
    ∃ m' : Machine, m.runFiber k.job (DnsPractice.handIn k.cell id) = m' ∧
      m'.Scene q token isWatching w₀ seats ks
        (Function.update stage k (.made id true k.follower.isSome)) todo ∧
      m'.agenda = m.agenda ∧ m'.queue = m.queue ∧ m'.timers = m.timers ∧ m'.isMainWoken = true ∧
      m'.world.dns = m.world.dns ∧ m'.world.clock = m.world.clock := by
  have hstands := h.stands k hk
  have hcell : m.world.slots.cells[k.cell]? = some { value := none, isHeld := true
                                                     waiting := k.follower.toList.map (·.part)
                                                     users := 2 + k.follower.toList.length } := by
    rw [hstands.cell]
    obtain hst | hst := hstage <;> rw [hst] <;> rfl
  obtain ⟨state, hjob⟩ := hstands.job.is
  have hlead : m.Awaits token k.lead k.job k.cell false := by
    have := hstands.lead
    obtain hst | hst := hstage <;> rw [hst] at this <;> exact this
  cases hfollower : k.follower with
  | none =>
    rw [hfollower] at hcell
    have hrun := runFiber_handIn id hjob hcell
    let passed : Machine := m.within (m.world.withSlots (m.world.slots.set k.cell
      { value := some id, users := 1 }))
    have hsame : ∀ f ∉ k.follower.toList.map (·.part), passed.fibers[f]? = m.fibers[f]? :=
      fun _ _ => rfl
    have hnobody : ∀ s ∈ k.follower, passed.Lines token s k.cell true := by
      rw [hfollower]
      rintro s ⟨⟩
    obtain ⟨m', hfinish, hscene, hagenda, hqueue, htimers, hwoken, hworld⟩ := h.ends id hk hlead
      hsame rfl rfl (by rw [hfollower]; rfl) hnobody
    rw [hfollower] at hscene
    exact ⟨m', hrun.trans hfinish, hscene, hagenda, hqueue, htimers, hwoken, by rw [hworld]; rfl,
      by rw [hworld]; rfl⟩
  | some s =>
    rw [hfollower] at hcell
    have hs : s ∈ k.follower := hfollower
    obtain ⟨next, hnext, hline⟩ : m.Lines token s k.cell false := by
      have := hstands.follower s hs
      obtain hst | hst := hstage <;> rw [hst] at this <;> exact this
    obtain ⟨fiber, hfiber, htask, -⟩ := hline.here
    have hpart : s.part ≠ k.job := h.layout.part_ne_job (h.layout.follower_mem hk hs) hk
    have hrun := runFiber_handIn_of_line id hjob hfiber htask hpart hcell
    let passed : Machine := m.within (m.world.withSlots (m.world.slots.set k.cell
      { value := some id, isHeld := true, users := 2 }))
    let woken : Machine := { passed.modify s.part Fiber.roused with isMainWoken := true }
    have hsame : ∀ f ∉ k.follower.toList.map (·.part), woken.fibers[f]? = m.fibers[f]? := by
      intro f hf
      have hne : s.part ≠ f := by
        rintro rfl
        exact hf (List.mem_map_of_mem (Option.mem_toList.mpr hs))
      exact getElem?_modify.trans (if_neg hne)
    have hwoken : ∀ s ∈ k.follower, woken.Lines token s k.cell true := by
      intro s' hs'
      obtain rfl := Option.mem_unique hs hs'
      have hwaits : passed.Is s.part 0 token (.waiting (.wait (.slot k.cell)) next false) :=
        hline.congr rfl rfl
      exact ⟨next, hnext, hwaits.roused.congr rfl rfl⟩
    obtain ⟨m', hfinish, hscene, hagenda, hqueue, htimers, hmain, hworld⟩ := h.ends id hk
      hlead hsame rfl rfl (by rw [hfollower]; rfl) hwoken
    rw [hfollower] at hscene
    exact ⟨m', hrun.trans hfinish, hscene, hagenda, hqueue, htimers, hmain, by rw [hworld]; rfl,
      by rw [hworld]; rfl⟩

/-! ### Parts that come to their ends -/

/-- A part that does not wait any more comes to its end, which nobody waits for. -/
theorem runFiber_part {p : Steward Outcome} {o : Outcome} {w : World} {state : Fiber.State}
    (h : m.Scene q token isWatching w₀ seats ks stage todo) (hs : s ∈ seats)
    (his : m.Is s.part 0 token state) (heval : m.world.eval? p = some (o, w)) :
    m.runFiber s.part p = m.becomes w s.part (.finished o) := by
  rw [runFiber_of_ends his.not_isInterrupted heval]
  refine finish_of_not_joined fun f fiber _ hfiber => Bool.eq_false_iff.mpr fun hjoins => ?_
  obtain ⟨k, hk, -, hjob⟩ := h.joins hfiber hjoins
  exact h.layout.part_ne_job hs hk hjob.symm

/-- The part that came first is polled when its job has ended. -/
theorem lead_goes (id : String) (follower : Bool)
    (h : m.Scene q token isWatching w₀ seats ks stage todo) (hk : k ∈ ks)
    (hstage : stage k = .made id true follower) :
    ∃ w : World, m.visit (.poll k.lead.part) =
        m.becomes w k.lead.part (.finished (k.lead.given id)) ∧
      (m.becomes w k.lead.part (.finished (k.lead.given id))).Scene q token isWatching w₀ seats ks
        (Function.update stage k (.made id false follower)) todo ∧
      w.dns = m.world.dns ∧ w.clock = m.world.clock := by
  have hstands := h.stands k hk
  rw [hstage] at hstands
  obtain ⟨next, hnext, his⟩ := hstands.lead
  let w := m.world.withSlots (m.world.slots.set k.cell (k.cellAt (.made id false follower)))
  have hcell : { k.cellAt (.made id true follower) with
      users := (k.cellAt (.made id true follower)).users - 1 } =
      k.cellAt (.made id false follower) := by
    cases follower <;> rfl
  have heval := hnext id m.world _ hstands.cell
  rw [hcell] at heval
  refine ⟨w, (visit_of_join his (Is.outcome?_of_finished hstands.job)).trans
    (h.runFiber_part (h.layout.lead_mem hk) his heval), ?_, rfl, rfl⟩
  have hsame : ∀ f, f ≠ k.lead.part →
      (m.becomes w k.lead.part (.finished (k.lead.given id))).fibers[f]? = m.fibers[f]? :=
    fun f hf => getElem?_becomes.trans (if_neg (Ne.symm hf))
  refine h.update hk (fun f hf => hsame f fun heq => hf ?_) rfl rfl rfl ?_
  · exact heq ▸ List.mem_cons_of_mem _ List.mem_cons_self
  · refine ⟨MutexTable.cells_set hstands.cell, ⟨id, his.becomes _ _⟩, fun s hs => ?_, ?_⟩
    · have hfollower := hstands.follower s hs
      have hfiber := hsame s.part (h.layout.follower_part_ne hk hs)
      cases follower with
      | true => exact Lines.congr hfollower hfiber rfl
      | false => exact Served.congr hfollower hfiber rfl
    · exact Is.congr hstands.job
        (hsame _ (Ne.symm (h.layout.part_ne_job (h.layout.lead_mem hk) hk))) rfl

/-- The part that follows is polled when the slot was handed over to it. -/
theorem follower_goes (id : String) (lead : Bool)
    (h : m.Scene q token isWatching w₀ seats ks stage todo) (hk : k ∈ ks) (hs : s ∈ k.follower)
    (hstage : stage k = .made id lead true) :
    ∃ w : World, m.visit (.poll s.part) = m.becomes w s.part (.finished (s.given id)) ∧
      (m.becomes w s.part (.finished (s.given id))).Scene q token isWatching w₀ seats ks
        (Function.update stage k (.made id lead false)) todo ∧
      w.dns = m.world.dns ∧ w.clock = m.world.clock := by
  have hstands := h.stands k hk
  rw [hstage] at hstands
  obtain ⟨next, hnext, his⟩ := hstands.follower s hs
  let w := m.world.withSlots (m.world.slots.set k.cell (k.cellAt (.made id lead false)))
  have heval := hnext m.world id _ hstands.cell
  refine ⟨w, (visit_of_slot his).trans
    (h.runFiber_part (h.layout.follower_mem hk hs) his heval), ?_, rfl, rfl⟩
  have hsame : ∀ f, f ≠ s.part →
      (m.becomes w s.part (.finished (s.given id))).fibers[f]? = m.fibers[f]? :=
    fun f hf => getElem?_becomes.trans (if_neg (Ne.symm hf))
  refine h.update hk (fun f hf => hsame f fun heq => hf ?_) rfl rfl rfl ?_
  · exact heq ▸ List.mem_cons_of_mem _ (List.mem_map_of_mem
      (List.mem_cons_of_mem _ (Option.mem_toList.mpr hs)))
  · refine ⟨MutexTable.cells_set hstands.cell, ?_, fun s' hs' => ?_, ?_⟩
    · have hlead := hstands.lead
      have hfiber := hsame k.lead.part (Ne.symm (h.layout.follower_part_ne hk hs))
      cases lead with
      | true => exact Awaits.congr hlead hfiber rfl
      | false => exact Served.congr hlead hfiber rfl
    · obtain rfl := Option.mem_unique hs hs'
      exact ⟨id, his.becomes _ _⟩
    · exact Is.congr hstands.job
        (hsame _ (Ne.symm (h.layout.part_ne_job (h.layout.follower_mem hk hs) hk))) rfl

end Scene

end Machine

end CertSteward
