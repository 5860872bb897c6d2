import CertSteward.Proofs.Run.Strides

/-!
# The course of a strand

A strand is where its program leads along the answers that it got, and what an answer said about
other strands is so. Hence the log of a weave can be read with the programs in hand: who has ended
went through its program from the beginning to the end, who was told that a job was started finds
it under the number that it was told, and who was told what came of a job was told the truth.

## Main definitions

* `Strand.Beginning` — what a strand begins with
* `Weave.OnCourse` — strands are where their programs lead along their answers
* `Weave.Attests` — what an answer says about strands is so

## Main results

* `Steward.ends_map_iff`, `ends_run_bind_iff` — paths through programs that are put together
* `Weave.onCourse_of_strides` — strands are on course
* `Weave.ends_of_outcome?`, `Weave.ends_of_returned` — who has ended went all the way
* `Weave.attests_of_strides` — answers about strands are true
* `Weave.spawned_of_strides` — jobs on their own were started by somebody
-/

namespace CertSteward

namespace Steward

variable {α β : Type} {b c : Bool} {p q : Steward α} {path : List Happening}

/-! ### Paths -/

/-- A path goes on with an answer. -/
theorem Goes.snoc {a : Act} {next : a.Answer → Steward α} {answer : a.Answer}
    (h : Goes b p path c (.ask a next)) (possible : a.CanGet c answer) :
    Goes b p (path ++ [⟨a, answer⟩]) (a.watching c answer) (next answer) := by
  generalize hq : Program.ask a next = q at h
  induction h with
  | stay b p =>
    subst hq
    exact .ask possible (.stay _ _)
  | ask possible' _ ih => exact .ask possible' (ih possible hq)

/-- What a program with requests of one kind was answered. -/
theorem Only.goes {S : Act → Prop} (hp : Only S p) (h : Goes b p path c q) :
    ∀ e ∈ path, S e.1 := by
  induction h with
  | stay => exact fun _ he => absurd he List.not_mem_nil
  | ask _ _ ih =>
    intro e he
    obtain rfl | he := List.mem_cons.mp he
    · exact hp.1
    · exact ih (hp.2 _) e he

/-- A path along a request and what comes after it. -/
theorem goes_perform_bind {a : Act} {f : a.Answer → Steward β} {q : Steward β}
    (h : Goes b (perform a >>= f) path c q) :
    path = [] ∨ ∃ answer rest d, path = ⟨a, answer⟩ :: rest ∧ Goes d (f answer) rest c q := by
  rw [perform, Program.request, Program.ask_bind] at h
  cases h with
  | stay => exact .inl rfl
  | ask _ rest => exact .inr ⟨_, _, _, rfl, rest⟩

/-- A path along a program whose result is changed is a path along the program. -/
theorem goes_of_map {f : α → β} {q : Steward β} (h : Goes b (f <$> p) path c q) :
    ∃ q', Goes b p path c q' := by
  change Goes b (p >>= fun a => Program.done (f a)) path c q at h
  obtain ⟨a, next, hp, -⟩ | ⟨first, second, d, a, rfl, hp, hdone⟩ := goes_bind h
  · exact ⟨_, hp⟩
  · cases hdone
    exact ⟨_, (List.append_nil first).symm ▸ hp⟩

theorem ends_map_iff {f : α → β} {result : β} :
    Ends b (f <$> p) path c result ↔ ∃ a, Ends b p path c a ∧ result = f a := by
  change Ends b (p >>= fun a => Program.done (f a)) path c result ↔ _
  rw [ends_bind_iff]
  constructor
  · rintro ⟨first, second, d, a, rfl, hp, hdone⟩
    obtain ⟨rfl, rfl, rfl⟩ := ends_done_iff.mp hdone
    exact ⟨a, by rwa [List.append_nil], rfl⟩
  · rintro ⟨a, hp, rfl⟩
    exact ⟨path, [], c, a, (List.append_nil _).symm, hp, .stay _ _⟩

/-- A path through two programs in a row that can be interrupted passes through the end of the
first, and ends there if the first is interrupted. -/
theorem ends_run_bind_iff {p : Watched α} {f : α → Watched β} {result : Option β} :
    Ends b (p >>= f).run path c result ↔ ∃ first second d o, path = first ++ second ∧
      Ends b p.run first d o ∧ ((o = none ∧ second = [] ∧ c = d ∧ result = none) ∨
        ∃ a, o = some a ∧ Ends d (f a).run second c result) := by
  change Ends b (p.run >>= fun o => _) path c result ↔ _
  rw [ends_bind_iff]
  constructor
  · rintro ⟨first, second, d, o, rfl, hp, hf⟩
    refine ⟨first, second, d, o, rfl, hp, ?_⟩
    cases o with
    | none => exact .inl ⟨rfl, ends_done_iff.mp hf⟩
    | some a => exact .inr ⟨a, rfl, hf⟩
  · rintro ⟨first, second, d, o, rfl, hp, ⟨rfl, rfl, rfl, rfl⟩ | ⟨a, rfl, hf⟩⟩
    · exact ⟨first, [], c, none, rfl, hp, .stay _ _⟩
    · exact ⟨first, second, d, some a, rfl, hp, hf⟩

theorem ends_run_pure_iff {a : α} {result : Option α} :
    Ends b (pure a : Watched α).run path c result ↔ path = [] ∧ c = b ∧ result = some a :=
  ends_done_iff

theorem ends_run_perform_iff {a : Act} {result : Option a.Answer} :
    Ends b (liftM (perform a) : Watched a.Answer).run path c result ↔
      ∃ answer, path = [⟨a, answer⟩] ∧ a.CanGet b answer ∧ c = a.watching b answer ∧
        result = some answer := by
  change Ends b (perform a >>= fun answer => Program.done (some answer)) path c result ↔ _
  rw [ends_bind_iff]
  constructor
  · rintro ⟨first, second, d, answer, rfl, hp, hdone⟩
    obtain ⟨rfl, possible, rfl⟩ := ends_perform_iff.mp hp
    obtain ⟨rfl, rfl, rfl⟩ := ends_done_iff.mp hdone
    exact ⟨answer, rfl, possible, rfl, rfl⟩
  · rintro ⟨answer, rfl, possible, rfl, rfl⟩
    exact ⟨[⟨a, answer⟩], [], _, answer, rfl, .ask possible (.stay _ _), .stay _ _⟩

/-- A wait of a program that cannot be interrupted comes to its end. -/
theorem ends_run_await_false {v : Wait} {result : Option v.Answer} :
    Ends false (await v).run path c result ↔
      ∃ answer, path = [⟨.wait v, some answer⟩] ∧ (Act.wait v).CanGet false (some answer) ∧
        c = false ∧ result = some answer := by
  constructor
  · intro h
    obtain ⟨rfl, possible, rfl⟩ := ends_perform_iff.mp h
    cases result with
    | none => exact absurd (Act.canGet_wait_none.mp possible) Bool.false_ne_true
    | some answer => exact ⟨answer, rfl, possible, rfl, rfl⟩
  · rintro ⟨answer, rfl, possible, rfl, rfl⟩
    exact .ask possible (.stay _ _)

end Steward

/-! ### Strands on their course -/

/-- A strand begins with its main program or with its job. -/
def Strand.Beginning {β : Type} (program : Job → Steward Outcome) (mains : List (Steward β))
    (s : Strand β) (q : Steward (Outcome ⊕ β)) : Prop :=
  (s.job = none ∧ ∃ p, mains[s.run]? = some p ∧ q = .inr <$> p) ∨
    ∃ j, s.job = some j ∧ q = .inl <$> program j

namespace Weave

variable {β : Type} {program : Job → Steward Outcome} {mains : List (Steward β)}
variable {w u : Weave β} {i j : Nat} {s t : Strand β}

/-- A strand is where its program leads along its answers. Only a part of another strand can be
interrupted from its beginning on. -/
def OnCourse (program : Job → Steward Outcome) (mains : List (Steward β)) (w : Weave β) : Prop :=
  ∀ i s, w.strands[i]? = some s → ∃ b q, (s.owner = none → b = false) ∧
    s.Beginning program mains q ∧ Steward.Goes b q (w.path i) s.isWatching s.program

theorem OnCourse.turn (hw : w.OnCourse program mains) (hn : w.Numbered) (hd : w.Divided)
    (h : Turn program w u) : u.OnCourse program mains := by
  have hnew : ∀ {k : Nat} {owner : Option Nat} {job : Job} {s : Strand β}, w.strands.length ≤ k →
      u.log = w.log ∨ (∃ e, u.log = w.log ++ [e] ∧ e.strand < w.strands.length) →
      ∃ b q, ((s.ofJob program owner job).owner = none → b = false) ∧
        (s.ofJob program owner job).Beginning program mains q ∧
        Steward.Goes b q (u.path k) (s.ofJob program owner job).isWatching
          (s.ofJob program owner job).program := by
    intro k owner job s hk hlog
    have hpath : u.path k = [] := by
      obtain hlog | ⟨e, hlog, he⟩ := hlog
      · rw [path_congr hlog, hn.path_eq_nil hk]
      · rw [path_append hlog, if_neg (Nat.ne_of_lt (Nat.lt_of_lt_of_le he hk)), hn.path_eq_nil hk]
    rw [hpath]
    refine ⟨_, _, fun hnone => ?_, .inr ⟨job, rfl, rfl⟩, .stay _ _⟩
    obtain rfl : owner = none := hnone
    rfl
  intro k t ht
  cases h with
  | stage here hs hl _ =>
    rw [path_congr hl]
    rw [hs] at ht
    obtain ⟨rfl, rfl⟩ | ⟨-, ht⟩ := getElem?_set_cases ht
    · have hcourse := hw k _ here
      exact hcourse
    · exact hw k t ht
  | @divide i s jobs next here asks hs hl =>
    rw [hs] at ht
    obtain ⟨rfl, rfl⟩ | ⟨-, ht⟩ := getElem?_set_cases ht
    · rw [path_congr hl]
      have hcourse := hw k _ here
      exact hcourse
    · obtain ht | ⟨hlen, hmem⟩ := getElem?_append_cases ht
      · rw [path_congr hl]
        exact hw k t ht
      · obtain ⟨job, -, rfl⟩ := List.mem_map.mp hmem
        exact hnew hlen (.inl hl)
  | @answer i s a next answer v here asks resumes possible strands log =>
    have hlog : u.log = w.log ++ [⟨i, s.run, a, answer⟩] := by rw [resumes, log_resume, log]
    rw [resumes] at ht
    obtain ⟨rfl, rfl⟩ | ⟨hne, hold⟩ := getElem?_set_cases ht
    · obtain ⟨b, q, howner, hbegin, hgoes⟩ := hw k s here
      refine ⟨b, q, howner, hbegin, ?_⟩
      rw [path_append hlog, if_pos rfl]
      rw [asks] at hgoes
      exact hgoes.snoc (possible hd)
    · have hpath : u.path k = w.path k := by
        rw [path_append hlog, if_neg (Ne.symm hne)]
      obtain hs | ⟨job, -, hs⟩ := strands
      · rw [hpath]
        exact hw k t (hs ▸ hold)
      · rw [hs] at hold
        obtain hold | ⟨hlen, hmem⟩ := getElem?_append_cases hold
        · rw [hpath]
          exact hw k t hold
        · rw [List.mem_singleton] at hmem
          subst hmem
          exact hnew hlen (.inr ⟨_, hlog, lt_of_here here⟩)

/-- **Strands are on their course.** -/
theorem onCourse_of_strides (h : Strides program (start mains) w) : w.OnCourse program mains := by
  induction h with
  | refl =>
    intro i s hs
    obtain ⟨p, hp, rfl⟩ := start_here hs
    exact ⟨false, _, fun _ => rfl, .inl ⟨rfl, p, hp, rfl⟩, .stay _ _⟩
  | step hlead hstep ih =>
    exact ih.turn (numbered_of_strides hlead) (divided_of_strides hlead) hstep.turn

/-- A job that has come to something went through its whole program. -/
theorem ends_of_outcome? {o : Outcome} (h : Strides program (start mains) w)
    (ho : w.outcome? i = some o) (here : w.strands[i]? = some s) :
    ∃ j b c, s.job = some j ∧ (s.owner = none → b = false) ∧
      Steward.Ends b (program j) (w.path i) c o := by
  obtain ⟨b, q, howner, hbegin, hgoes⟩ := onCourse_of_strides h i s here
  rw [(done_of_outcome? ho here).2] at hgoes
  obtain ⟨-, p, -, rfl⟩ | ⟨j, hjob, rfl⟩ := hbegin
  · obtain ⟨a, -, hresult⟩ := Steward.ends_map_iff.mp hgoes
    cases hresult
  · obtain ⟨o', hends, hresult⟩ := Steward.ends_map_iff.mp hgoes
    cases hresult
    exact ⟨j, b, _, hjob, howner, hends⟩

/-- A main program that has returned something went all the way. -/
theorem ends_of_returned {x : β} (h : Strides program (start mains) w)
    (hx : w.returned i = some x) (here : w.strands[i]? = some s) :
    ∃ p b c, mains[s.run]? = some p ∧ (s.owner = none → b = false) ∧
      Steward.Ends b p (w.path i) c x := by
  obtain ⟨b, q, howner, hbegin, hgoes⟩ := onCourse_of_strides h i s here
  rw [(done_of_returned hx here).2] at hgoes
  obtain ⟨-, p, hp, rfl⟩ | ⟨j, -, rfl⟩ := hbegin
  · obtain ⟨x', hends, hresult⟩ := Steward.ends_map_iff.mp hgoes
    cases hresult
    exact ⟨p, b, _, hp, howner, hends⟩
  · obtain ⟨a, -, hresult⟩ := Steward.ends_map_iff.mp hgoes
    cases hresult

/-! ### Answers about strands -/

/-- What an answer says about strands is so: a job that was started is there, and what came of a
strand that was waited for came of it. -/
def Attests (w : Weave β) : (a : Act) → a.Answer → Prop
  | .spawn j, n => ∃ t, w.strands[n]? = some t ∧ t.job = some j ∧ t.owner = none
  | .wait (.join f), some o => w.outcome? f = some o
  | _, _ => True

theorem Attests.stride {a : Act} {answer : a.Answer} (hw : w.Attests a answer) (hs : w.Settled)
    (h : Stride program w u) : u.Attests a answer := by
  cases a with
  | spawn j =>
    obtain ⟨t, ht, hjob, howner⟩ := hw
    obtain ⟨t', ht', hjob', howner', -⟩ := h.turn.same ht
    exact ⟨t', ht', hjob'.trans hjob, howner'.trans howner⟩
  | wait v =>
    cases v with
    | join f =>
      cases answer with
      | none => trivial
      | some o => exact h.turn.outcome? hs hw
    | _ => trivial
  | _ => trivial

theorem attests_none (v : Wait) : w.Attests (.wait v) none := by
  cases v <;> trivial

/-- The answer in a stride is true. -/
theorem Stride.attests_last (h : Stride program w u) (hs : w.Settled) : u.log = w.log ∨
    ∃ e, u.log = w.log ++ [e] ∧ u.Attests e.act e.answer := by
  have hturn := h.turn
  cases h with
  | begin | finish | halt | divide => exact .inl rfl
  | wait => exact .inl (log_enter _)
  | interrupt => exact .inr ⟨_, by rw [log_resume, log_withdraw], attests_none _⟩
  | refuse | abandon => exact .inr ⟨_, rfl, attests_none _⟩
  | gather => exact .inr ⟨_, rfl, trivial⟩
  | @goOn i s parts v next answer here waits asks isOver =>
    refine .inr ⟨_, rfl, ?_⟩
    cases v with
    | join f => exact hturn.outcome? hs isOver
    | _ => trivial
  | @act i s a next answer here runs asks fits =>
    refine .inr ⟨_, by rw [log_resume, log_serve], ?_⟩
    cases a with
    | spawn j =>
      obtain rfl : answer = w.strands.length := fits
      refine ⟨s.ofJob program none j, ?_, rfl, rfl⟩
      have hne : i ≠ w.strands.length := Nat.ne_of_lt (lt_of_here here)
      rw [strands_resume, List.getElem?_set_ne hne]
      exact List.getElem?_concat_length
    | wait v => exact fits.elim
    | _ => trivial

/-- **Answers about strands are true.** -/
theorem attests_of_strides (h : Strides program (start mains) w) {e : Event} (he : e ∈ w.log) :
    w.Attests e.act e.answer := by
  induction h with
  | refl => cases he
  | step hlead hstep ih =>
    have hs := settled_of_strides hlead
    obtain hlog | ⟨e', hlog, hlast⟩ := hstep.attests_last hs
    · exact (ih (hlog ▸ he)).stride hs hstep
    · rw [hlog, List.mem_append, List.mem_singleton] at he
      obtain he | rfl := he
      · exact (ih he).stride hs hstep
      · exact hlast

/-- A request of a strand and its answer are noted. -/
theorem mem_path {a : Act} {answer : a.Answer} :
    ⟨a, answer⟩ ∈ w.path i ↔ ∃ run, ⟨i, run, a, answer⟩ ∈ w.log := by
  rw [path, List.mem_map]
  constructor
  · rintro ⟨e, he, heq⟩
    obtain ⟨hlog, hi⟩ := List.mem_filter.mp he
    obtain rfl := eq_of_beq hi
    cases heq
    exact ⟨e.run, hlog⟩
  · rintro ⟨run, he⟩
    exact ⟨_, List.mem_filter.mpr ⟨he, beq_self_eq_true i⟩, rfl⟩

/-- A job that was started is there under the number that was answered. -/
theorem here_of_spawn {j : Job} {n : Nat} (h : Strides program (start mains) w)
    (hspawn : ⟨.spawn j, n⟩ ∈ w.path i) :
    ∃ t, w.strands[n]? = some t ∧ t.job = some j ∧ t.owner = none := by
  obtain ⟨run, he⟩ := mem_path.mp hspawn
  exact attests_of_strides h he

/-- Who was told what came of a job was told the truth. -/
theorem outcome?_of_join {f : Nat} {o : Outcome} (h : Strides program (start mains) w)
    (hjoin : ⟨.wait (.join f), some o⟩ ∈ w.path i) : w.outcome? f = some o := by
  obtain ⟨run, he⟩ := mem_path.mp hjoin
  exact attests_of_strides h he

theorem path_subset {e : Event} (hlog : u.log = w.log ++ [e]) : w.path i ⊆ u.path i := by
  intro x hx
  rw [path_append hlog]
  split
  · exact List.mem_append_left _ hx
  · exact hx

/-- A strand that is new in a stride is a part of another one, or was started by it. -/
theorem Stride.new (h : Stride program w u) (ht : u.strands[j]? = some t)
    (hj : w.strands.length ≤ j) : t.owner ≠ none ∨
      ∃ i k, t.job = some k ∧ ⟨.spawn k, j⟩ ∈ u.path i := by
  have hlt := lt_of_here ht
  cases h with
  | divide here =>
    obtain ⟨rfl, -⟩ | ⟨-, ht⟩ := getElem?_set_cases ht
    · exact absurd (lt_of_here here) (Nat.not_lt.mpr hj)
    · obtain ht | ⟨-, hmem⟩ := getElem?_append_cases ht
      · exact absurd (lt_of_here ht) (Nat.not_lt.mpr hj)
      · obtain ⟨_, -, rfl⟩ := List.mem_map.mp hmem
        exact .inl nofun
  | @act i s a next answer here runs asks fits =>
    have hserve : (w.serve program s a).strands = w.strands ∨ ∃ k, a = .spawn k ∧
        (w.serve program s a).strands = w.strands ++ [s.ofJob program none k] := strands_serve a
    obtain hs | ⟨k, rfl, hs⟩ := hserve
    · rw [strands_resume, List.length_set, hs] at hlt
      exact absurd hlt (Nat.not_lt.mpr hj)
    · obtain rfl : answer = w.strands.length := fits
      obtain ⟨rfl, -⟩ | ⟨-, ht⟩ := getElem?_set_cases ht
      · exact absurd (lt_of_here here) (Nat.not_lt.mpr hj)
      rw [strands_resume, List.length_set, hs, List.length_append, List.length_singleton] at hlt
      obtain rfl : j = w.strands.length := Nat.le_antisymm (Nat.le_of_lt_succ hlt) hj
      rw [hs, List.getElem?_concat_length] at ht
      cases ht
      refine .inr ⟨i, k, rfl, ?_⟩
      rw [path_resume_self]
      exact List.mem_append_right _ List.mem_cons_self
  | _ =>
    refine absurd ?_ (Nat.not_lt.mpr hj)
    simpa using hlt

/-- **Jobs on their own were started by somebody.** -/
theorem spawned_of_strides {k : Job} (h : Strides program (start mains) w)
    (ht : w.strands[j]? = some t) (hjob : t.job = some k) (howner : t.owner = none) :
    ∃ i, ⟨.spawn k, j⟩ ∈ w.path i := by
  induction h generalizing t with
  | refl =>
    obtain ⟨p, -, rfl⟩ := start_here ht
    cases hjob
  | @step v u hlead hstep ih =>
    have hold : ∀ i, v.path i ⊆ u.path i := fun i => by
      obtain hlog | ⟨e, hlog, -⟩ := hstep.attests_last (settled_of_strides hlead)
      · rw [path_congr hlog]
        exact List.Subset.refl _
      · exact path_subset hlog
    by_cases hj : j < v.strands.length
    · have here := List.getElem?_eq_getElem hj
      obtain ⟨t', ht', hjob', howner', -⟩ := hstep.turn.same here
      obtain rfl := Option.some.inj (ht'.symm.trans ht)
      obtain ⟨i, hi⟩ := ih here (hjob'.symm.trans hjob) (howner'.symm.trans howner)
      exact ⟨i, hold i hi⟩
    · obtain hpart | ⟨i, k', hk', hi⟩ := hstep.new ht (Nat.not_lt.mp hj)
      · exact absurd howner hpart
      · obtain rfl := Option.some.inj (hjob.symm.trans hk')
        exact ⟨i, hi⟩

end Weave

end CertSteward
