import CertSteward.Proofs.Authority.Orders
import Mathlib.Data.List.Induction

/-!
# The development authority is safe

However many calls there are at a time and however they are interleaved, an order comes to a
certificate in one way only: each challenge is announced, each name is looked at and accepted, and
one call takes the order, signs, and closes it. Nobody else takes it in the meantime, although the
table is free while a certificate is signed: an order that was taken is being processed, and one
that is being processed is not taken. Names of orders are drawn from numbers that are drawn once,
so no order is mistaken for another one.

## Main definitions

* `Office.Sound` — what is so of an authority and its calls at any time
* `Office.Announced`, `Office.Accepted`, `Office.Finalized` — what calls did for an order

## Main results

* `Office.Sound.go` — one access keeps it
* `Office.sound_run` — it is so after any moves
* `Office.exists_run_answer` — the answers of the authority are those of calls that go alone
* `Office.safe` — where a certificate comes from, who finalizes, and who changes an order
-/

namespace CertSteward

namespace DevelopmentAuthority

/-! ### What an access makes of an order -/

section Grant

variable {a : DevelopmentAuthority} {x : Access} {id : String} {o o' : Order}

theorem order?_enter (a : DevelopmentAuthority) (o : Order) (id : String) :
    ((a.grant (.enter o)).2).order? id =
      (a.order? id).or (if o.id = id then some o else none) := by
  rw [order?, grant, List.find?_append, ← order?, List.find?_cons]
  by_cases h : o.id = id <;> simp [h]

theorem order?_leave (a : DevelopmentAuthority) (id id' : String) :
    ((a.grant (.leave id)).2).order? id' = if id' = id then none else a.order? id' := by
  rw [order?, grant, List.find?_filter]
  split
  · next h =>
    subst h
    exact List.find?_eq_none.mpr fun o _ => by simp
  · next h =>
    refine congrArg (fun p => List.find? p a.orders) (funext fun o => ?_)
    by_cases hid : o.id = id' <;> simp [hid, h]

/-- An access leaves an order as it is, or enters it, or visits it. -/
theorem order?_grant (h : (a.grant x).2.order? id = some o') :
    (a.order? id = some o' ∧ ∀ e, x ≠ .visit id e) ∨
      (x = .enter o' ∧ o'.id = id ∧ a.order? id = none) ∨
      ∃ e o, x = .visit id e ∧ a.order? id = some o ∧ o' = e.apply o := by
  cases x with
  | fail | settings | name => exact .inl ⟨h, nofun⟩
  | count t => cases t <;> exact .inl ⟨h, nofun⟩
  | revoke serial =>
    refine .inl ⟨?_, nofun⟩
    rw [grant] at h
    split at h <;> exact h
  | enter o =>
    rw [order?_enter] at h
    rcases Option.or_eq_some_iff.mp h with h | ⟨hnone, h⟩
    · exact .inl ⟨h, by rintro e ⟨⟩⟩
    · split at h
      · next hid =>
        obtain rfl : o = o' := Option.some.inj h
        exact .inr (.inl ⟨rfl, hid, hnone⟩)
      · cases h
  | visit id' e =>
    change (a.change id' e.apply).order? id = some o' at h
    rw [order?_change] at h
    split at h
    · next hid =>
      obtain ⟨o, ho, rfl⟩ := Option.map_eq_some_iff.mp h
      exact .inr (.inr ⟨e, o, by rw [hid], ho, rfl⟩)
    · next hid => exact .inl ⟨h, fun e' he' => hid (by cases he'; rfl)⟩
  | leave id' =>
    rw [order?_leave] at h
    split at h
    · cases h
    · exact .inl ⟨h, by rintro e ⟨⟩⟩

/-- An access that neither visits an order nor takes it out leaves it as it is. -/
theorem order?_grant_of_ne (h : a.order? id = some o) (hvisit : ∀ e, x ≠ .visit id e)
    (hleave : x ≠ .leave id) : (a.grant x).2.order? id = some o := by
  cases x with
  | fail | settings | name => exact h
  | count t => cases t <;> exact h
  | revoke serial =>
    rw [grant]
    split <;> exact h
  | enter o' => rw [order?_enter, h, Option.some_or]
  | visit id' e =>
    change (a.change id' e.apply).order? id = some o
    rw [order?_change, if_neg fun hid => hvisit e (by rw [hid]), h]
  | leave id' => rw [order?_leave, if_neg fun hid => hleave (by rw [hid]), h]

/-- The names of the orders stay different if no name is entered twice. -/
theorem nodup_grant (h : (a.orders.map (·.id)).Nodup)
    (hnew : ∀ o, x = .enter o → a.order? o.id = none) :
    ((a.grant x).2.orders.map (·.id)).Nodup := by
  cases x with
  | fail | settings | name => exact h
  | count t => cases t <;> exact h
  | revoke serial =>
    rw [grant]
    split <;> exact h
  | enter o =>
    have hnone := List.find?_eq_none.mp (hnew o rfl)
    rw [grant, List.map_append]
    refine h.append (List.nodup_singleton _) ?_
    simpa [eq_comm] using hnone
  | visit id e =>
    have hids : (a.change id e.apply).orders.map (·.id) = a.orders.map (·.id) := by
      simp only [change, List.map_map]
      refine List.map_congr_left fun o _ => ?_
      simp only [Function.comp_apply]
      split
      · exact e.id_apply o
      · rfl
    exact hids ▸ h
  | leave id => exact h.sublist (List.filter_sublist.map _)

/-- A visit finds the order of the table. -/
theorem visit_eq_iff {e : Edit} {found : Option Order} :
    (⟨.visit id e, found⟩ : Deed) = ⟨x, (a.grant x).1⟩ ↔
      x = .visit id e ∧ a.order? id = found := by
  constructor
  · intro h
    obtain rfl : .visit id e = x := congrArg Sigma.fst h
    exact ⟨rfl, (eq_of_heq (Sigma.mk.inj h).2).symm⟩
  · rintro ⟨rfl, rfl⟩
    rfl

theorem named_le_grant (a : DevelopmentAuthority) (x : Access) :
    a.named ≤ (a.grant x).2.named := by
  cases x with
  | fail | settings | enter | visit | leave => exact Nat.le_refl _
  | count t => cases t <;> exact Nat.le_refl _
  | name => exact Nat.le_succ _
  | revoke serial =>
    rw [grant]
    split <;> exact Nat.le_refl _

end Grant

/-! ### What is so of all calls -/

theorem nameNumber_injective {kind : String} {m n : Nat}
    (h : nameNumber kind m = nameNumber kind n) : m = n := by
  have hdigits : Nat.toDigits 10 m = Nat.toDigits 10 n := by
    have := congrArg String.toList h
    simpa [nameNumber, Nat.toString_eq_ofList_toDigits] using this
  rw [← Nat.ofDigitChars_ten_toDigits (n := m), hdigits, Nat.ofDigitChars_ten_toDigits]

/-- A call that did what suits it, and will. -/
structure Call.IsProper (c : Call) : Prop where
  keeps : Keeps c.request (Ended c.request) c.path c.program
  suits : ∀ d ∈ c.path, Suits c.request c.path d.1

/-- Whether the call took the order for signing and did not give it up. -/
def Call.Took (c : Call) (id : String) : Prop :=
  (∃ o : Order, ⟨.visit id .claim, some o⟩ ∈ c.path ∧ o.refresh.status = .ready) ∧
    ∀ found : Option Order, ⟨.visit id (.close none), found⟩ ∉ c.path

/-- Whether the call closed the order. -/
def Call.Closed (c : Call) (id : String) : Prop :=
  ∃ (k : Option String) (found : Option Order), ⟨.visit id (.close k), found⟩ ∈ c.path

namespace Office

/-- Whether some call did that. -/
def Did (u : Office) (d : Deed) : Prop := ∃ c ∈ u.calls, d ∈ c.path

/-- Whether there was ever an order with that name. -/
def Opened (u : Office) (id : String) : Prop := ∃ o : Order, u.Did ⟨.enter o, ()⟩ ∧ o.id = id

/-- What is so of an authority and its calls after any moves. -/
structure Sound (u : Office) : Prop where
  proper : ∀ c ∈ u.calls, c.IsProper
  drawn : ∀ c ∈ u.calls, ∀ n : Nat, ⟨.name, n⟩ ∈ c.path → n ≤ u.authority.named
  /-- Numbers are drawn once. -/
  apart : ∀ {i j : Nat} {c d : Call} {n : Nat}, u.calls[i]? = some c → u.calls[j]? = some d →
    ⟨.name, n⟩ ∈ c.path → ⟨.name, n⟩ ∈ d.path → i = j
  /-- Orders have different names. -/
  ids : (u.authority.orders.map (·.id)).Nodup
  found : ∀ {id : String} {e : Edit} {o : Order}, u.Did ⟨.visit id e, some o⟩ → u.Opened id
  opened : ∀ {id : String} {o : Order}, u.authority.order? id = some o → u.Opened id
  fits : ∀ {id : String} {o : Order}, u.authority.order? id = some o → o.Fits u.Did ∧ o.IsHonest
  /-- An order that was taken for signing is closed by who took it, and by nobody else. -/
  taken : ∀ {i : Nat} {c : Call} {id : String} {o : Order}, u.calls[i]? = some c → c.Took id →
    u.authority.order? id = some o →
    o.status = .processing ∧ ¬ c.Closed id ∨ o.status = .valid ∧ c.Closed id
  one : ∀ {i j : Nat} {c d : Call} {id : String}, u.calls[i]? = some c → u.calls[j]? = some d →
    c.Took id → d.Took id → i = j

section Go

variable {u : Office} {i : Nat} {r : AuthorityRequest} {path : List Deed} {x : Access}
  {next : x.Answer → Dialogue r.Reply}

/-- The calls after an access. -/
theorem calls_after_go (h : u.calls[i]? = some ⟨r, path, .ask x next⟩) {j : Nat} {c : Call} :
    (u.after (.go i)).calls[j]? = some c ↔
      j ≠ i ∧ u.calls[j]? = some c ∨
      j = i ∧ c = ⟨r, path ++ [⟨x, (u.authority.grant x).1⟩], next (u.authority.grant x).1⟩ := by
  obtain ⟨hi, -⟩ := List.getElem?_eq_some_iff.mp h
  rw [after_go h, List.getElem?_set]
  by_cases hj : i = j
  · subst hj
    simp [hi, eq_comm]
  · simp [hj, Ne.symm hj]

theorem authority_after_go (h : u.calls[i]? = some ⟨r, path, .ask x next⟩) :
    (u.after (.go i)).authority = (u.authority.grant x).2 := by
  rw [after_go h]

theorem did_iff {u : Office} {d : Deed} :
    u.Did d ↔ ∃ (j : Nat) (c : Call), u.calls[j]? = some c ∧ d ∈ c.path := by
  constructor
  · rintro ⟨c, hc, hd⟩
    obtain ⟨j, hj⟩ := List.mem_iff_getElem?.mp hc
    exact ⟨j, c, hj, hd⟩
  · rintro ⟨j, c, hj, hd⟩
    exact ⟨c, List.mem_of_getElem? hj, hd⟩

/-- What was done after an access. -/
theorem did_after_go (h : u.calls[i]? = some ⟨r, path, .ask x next⟩) {d : Deed} :
    (u.after (.go i)).Did d ↔ u.Did d ∨ d = ⟨x, (u.authority.grant x).1⟩ := by
  simp only [did_iff, calls_after_go h]
  constructor
  · rintro ⟨j, c, ⟨-, hj⟩ | ⟨rfl, rfl⟩, hd⟩
    · exact .inl ⟨j, c, hj, hd⟩
    · rcases List.mem_append.mp hd with hd | hd
      · exact .inl ⟨j, _, h, hd⟩
      · exact .inr (List.mem_singleton.mp hd)
  · rintro (⟨j, c, hj, hd⟩ | rfl)
    · by_cases hji : j = i
      · subst hji
        obtain rfl : c = ⟨r, path, .ask x next⟩ := Option.some.inj (hj.symm.trans h)
        exact ⟨j, _, .inr ⟨rfl, rfl⟩, List.mem_append_left _ hd⟩
      · exact ⟨j, c, .inl ⟨hji, hj⟩, hd⟩
    · exact ⟨i, _, .inr ⟨rfl, rfl⟩, by simp⟩

theorem opened_after_go (h : u.calls[i]? = some ⟨r, path, .ask x next⟩) {id : String}
    (hid : u.Opened id) : (u.after (.go i)).Opened id := by
  obtain ⟨o, hdid, ho⟩ := hid
  exact ⟨o, (did_after_go h).mpr (.inl hdid), ho⟩

variable (hs : u.Sound) (h : u.calls[i]? = some ⟨r, path, .ask x next⟩)

include hs h

theorem Sound.suits_next : (∀ d ∈ path, ¬ d.1.isLast) ∧ Suits r path x :=
  have hkeeps := (hs.proper _ (List.mem_of_getElem? h)).keeps
  ⟨hkeeps.1, hkeeps.2.1⟩

/-- A new order has a new name. -/
theorem Sound.not_opened {o : Order} (hx : x = .enter o) : ¬ u.Opened o.id := by
  rintro ⟨o', hdid, hid⟩
  obtain ⟨j, c, hj, hmem⟩ := did_iff.mp hdid
  have hmine := hs.suits_next h
  subst hx
  obtain ⟨-, -, n, hn, hdrawn⟩ := hmine.2
  obtain ⟨-, -, n', hn', hdrawn'⟩ := (hs.proper c (List.mem_of_getElem? hj)).suits _ hmem
  obtain rfl : n' = n := nameNumber_injective (hn'.symm.trans (hid.trans hn))
  obtain rfl := hs.apart hj h hdrawn' hdrawn
  obtain rfl : c = _ := Option.some.inj (hj.symm.trans h)
  exact hmine.1 _ hmem rfl

omit hs in
/-- Who has taken an order after an access had taken it before, or takes it with this access. -/
theorem took_after_go {j : Nat} {c : Call} {id : String} (hj : (u.after (.go i)).calls[j]? = some c)
    (htook : c.Took id) :
    (∃ c₀, u.calls[j]? = some c₀ ∧ c₀.Took id ∧
      (c.Closed id ↔ c₀.Closed id ∨ j = i ∧ ∃ k, x = .visit id (.close k))) ∨
    j = i ∧ x = .visit id .claim ∧ c.path = path ++ [⟨x, (u.authority.grant x).1⟩] ∧
      ∃ o : Order, u.authority.order? id = some o ∧ o.refresh.status = .ready := by
  rcases (calls_after_go h).mp hj with ⟨hne, hj⟩ | ⟨rfl, rfl⟩
  · exact .inl ⟨c, hj, htook, by simp [hne]⟩
  · obtain ⟨⟨o, hmem, hready⟩, hnone⟩ := htook
    rcases List.mem_append.mp hmem with hmem | hmem
    · refine .inl ⟨_, h, ⟨⟨o, hmem, hready⟩, fun found hfound => ?_⟩, ?_⟩
      · exact hnone found (List.mem_append_left _ hfound)
      · constructor
        · rintro ⟨k, found, hclosed⟩
          rcases List.mem_append.mp hclosed with hclosed | hclosed
          · exact .inl ⟨k, found, hclosed⟩
          · exact .inr ⟨rfl, k, (visit_eq_iff.mp (List.mem_singleton.mp hclosed)).1⟩
        · rintro (⟨k, found, hclosed⟩ | ⟨-, k, rfl⟩)
          · exact ⟨k, found, List.mem_append_left _ hclosed⟩
          · exact ⟨k, u.authority.order? id, by simp [grant]⟩
    · obtain ⟨rfl, ho⟩ := visit_eq_iff.mp (List.mem_singleton.mp hmem)
      exact .inr ⟨rfl, rfl, rfl, o, ho, hready⟩

omit h in
/-- Nobody has taken an order that is not settled. -/
theorem Sound.not_took {j : Nat} {c : Call} {id : String} {o : Order}
    (hj : u.calls[j]? = some c) (ho : u.authority.order? id = some o) (hsettled : ¬ o.isSettled) :
    ¬ c.Took id := by
  intro htook
  rcases hs.taken hj htook ho with ⟨hstatus, -⟩ | ⟨hstatus, -⟩ <;>
    simp [Order.isSettled, hstatus] at hsettled

/-- Who closes an order has taken it, and the order is being processed. -/
theorem Sound.closing {id : String} {k : Option String} (hx : x = .visit id (.close k)) :
    Call.Took ⟨r, path, .ask x next⟩ id ∧
      ∀ o, u.authority.order? id = some o → o.status = .processing := by
  obtain ⟨hlast, hsuits⟩ := hs.suits_next h
  subst hx
  obtain ⟨-, o, hmem, hready⟩ := hsuits
  have hclosed (k : Option String) (found : Option Order) :
      (⟨.visit id (.close k), found⟩ : Deed) ∉ path := fun hmem => hlast _ hmem rfl
  have htook : Call.Took ⟨r, path, .ask _ next⟩ id := ⟨⟨o, hmem, hready⟩, hclosed none⟩
  refine ⟨htook, fun o ho => ?_⟩
  rcases hs.taken h htook ho with ⟨hstatus, -⟩ | ⟨-, k, found, hmem⟩
  · exact hstatus
  · exact absurd hmem (hclosed k found)

theorem Sound.fits_after_go {id : String} {o : Order}
    (ho : (u.after (.go i)).authority.order? id = some o) :
    o.Fits (u.after (.go i)).Did ∧ o.IsHonest := by
  have hmono (d : Deed) (hd : u.Did d) : (u.after (.go i)).Did d := (did_after_go h).mpr (.inl hd)
  rw [authority_after_go h] at ho
  rcases order?_grant ho with ⟨ho, -⟩ | ⟨rfl, -, -⟩ | ⟨e, o₀, rfl, ho₀, rfl⟩
  · exact ⟨(hs.fits ho).1.mono hmono, (hs.fits ho).2⟩
  · obtain ⟨-, hnew, -⟩ := (hs.suits_next h).2
    exact ⟨hnew.fits, hnew.isHonest⟩
  · obtain rfl := (mem_of_order? ho₀).2
    refine ((hs.fits ho₀).1.mono hmono).apply (hs.fits ho₀).2 ((did_after_go h).mpr (.inr ?_)) ?_
    · exact visit_eq_iff.mpr ⟨rfl, ho₀⟩
    · rintro k rfl
      exact (hs.closing h rfl).2 _ ho₀

theorem Sound.taken_after_go {j : Nat} {c : Call} {id : String} {o : Order}
    (hj : (u.after (.go i)).calls[j]? = some c) (htook : c.Took id)
    (ho : (u.after (.go i)).authority.order? id = some o) :
    o.status = .processing ∧ ¬ c.Closed id ∨ o.status = .valid ∧ c.Closed id := by
  rw [authority_after_go h] at ho
  rcases took_after_go h hj htook with ⟨c₀, hj₀, htook₀, hclosed⟩ |
    ⟨rfl, rfl, hpath, o₀, ho₀, hready⟩
  · rcases order?_grant ho with ⟨ho, hvisit⟩ | ⟨rfl, hid, -⟩ | ⟨e, o₀, rfl, ho₀, rfl⟩
    · have hother : ¬ (j = i ∧ ∃ k, x = .visit id (.close k)) := by
        rintro ⟨-, k, hx⟩
        exact hvisit _ hx
      rw [hclosed, or_iff_left hother]
      exact hs.taken hj₀ htook₀ ho
    · obtain ⟨⟨o₀, hmem, -⟩, -⟩ := htook₀
      have hopened := hs.found (did_iff.mpr ⟨j, c₀, hj₀, hmem⟩)
      exact absurd hopened (hid ▸ hs.not_opened h rfl)
    · by_cases hclose : ∃ k, e = .close k
      · obtain ⟨k, rfl⟩ := hclose
        obtain rfl := hs.one hj₀ h htook₀ (hs.closing h rfl).1
        obtain ⟨hne, -⟩ | ⟨-, rfl⟩ := (calls_after_go h).mp hj
        · exact absurd rfl hne
        · cases k with
          | none => exact absurd (List.mem_append_right _ (List.mem_singleton.mpr rfl)) (htook.2 _)
          | some pem => exact .inr ⟨rfl, hclosed.mpr (.inr ⟨rfl, _, rfl⟩)⟩
      · have htaken := hs.taken hj₀ htook₀ ho₀
        have hsettled : o₀.isSettled := by
          rcases htaken with ⟨hstatus, -⟩ | ⟨hstatus, -⟩ <;> simp [Order.isSettled, hstatus]
        have hother : ¬ (j = i ∧ ∃ k, Access.visit id e = .visit id (.close k)) := by
          rintro ⟨-, k, hx⟩
          cases hx
          exact hclose ⟨k, rfl⟩
        rw [hclosed, or_iff_left hother, (apply_of_isSettled hsettled fun k hk => hclose ⟨k, hk⟩).1]
        exact htaken
  · rcases order?_grant ho with ⟨-, hvisit⟩ | ⟨hx, -⟩ | ⟨e, o₁, hx, ho₁, rfl⟩
    · exact absurd rfl (hvisit _)
    · cases hx
    · cases hx
      obtain rfl : o₀ = o₁ := Option.some.inj (ho₀.symm.trans ho₁)
      refine .inl ⟨by rw [Edit.apply, if_pos hready], ?_⟩
      rintro ⟨k, found, hmem⟩
      rw [hpath] at hmem
      rcases List.mem_append.mp hmem with hmem | hmem
      · exact (hs.suits_next h).1 _ hmem rfl
      · cases congrArg Sigma.fst (List.mem_singleton.mp hmem)

theorem Sound.one_after_go {j j' : Nat} {c d : Call} {id : String}
    (hj : (u.after (.go i)).calls[j]? = some c) (hj' : (u.after (.go i)).calls[j']? = some d)
    (hc : c.Took id) (hd : d.Took id) : j = j' := by
  rcases took_after_go h hj hc with ⟨c₀, hc₀, htook, -⟩ | ⟨rfl, -, -, o, ho, hready⟩
  · rcases took_after_go h hj' hd with ⟨d₀, hd₀, htook', -⟩ | ⟨rfl, -, -, o, ho, hready⟩
    · exact hs.one hc₀ hd₀ htook htook'
    · exact absurd htook (hs.not_took hc₀ ho (not_isSettled_of_ready hready))
  · rcases took_after_go h hj' hd with ⟨d₀, hd₀, htook', -⟩ | ⟨rfl, -, -, -⟩
    · exact absurd htook' (hs.not_took hd₀ ho (not_isSettled_of_ready hready))
    · rfl

theorem Sound.proper_after_go {c : Call} (hc : c ∈ (u.after (.go i)).calls) : c.IsProper := by
  obtain ⟨j, hj⟩ := List.mem_iff_getElem?.mp hc
  rcases (calls_after_go h).mp hj with ⟨-, hj⟩ | ⟨rfl, rfl⟩
  · exact hs.proper c (List.mem_of_getElem? hj)
  · have hme := hs.proper _ (List.mem_of_getElem? h)
    refine ⟨hme.keeps.2.2 _, fun d hd => ?_⟩
    rcases List.mem_append.mp hd with hd | hd
    · exact (hme.suits d hd).mono (List.subset_append_left _ _)
    · rw [List.mem_singleton.mp hd]
      exact (hs.suits_next h).2.mono (List.subset_append_left _ _)

/-- A number in the path of a call was there before or was just drawn. -/
theorem Sound.name_after_go {j n : Nat} {c : Call} (hj : (u.after (.go i)).calls[j]? = some c)
    (hn : (⟨.name, n⟩ : Deed) ∈ c.path) :
    (∃ c₀, u.calls[j]? = some c₀ ∧ (⟨.name, n⟩ : Deed) ∈ c₀.path ∧ n ≤ u.authority.named) ∨
      j = i ∧ n = u.authority.named + 1 ∧ (u.after (.go i)).authority.named = n := by
  rcases (calls_after_go h).mp hj with ⟨-, hj⟩ | ⟨rfl, rfl⟩
  · exact .inl ⟨c, hj, hn, hs.drawn c (List.mem_of_getElem? hj) n hn⟩
  · rcases List.mem_append.mp hn with hn | hn
    · exact .inl ⟨_, h, hn, hs.drawn _ (List.mem_of_getElem? h) n hn⟩
    · have hdeed := List.mem_singleton.mp hn
      obtain rfl : .name = x := congrArg Sigma.fst hdeed
      obtain rfl : n = u.authority.named + 1 := eq_of_heq (Sigma.mk.inj hdeed).2
      exact .inr ⟨rfl, rfl, by rw [authority_after_go h]; rfl⟩

theorem Sound.go : (u.after (.go i)).Sound where
  proper c hc := hs.proper_after_go h hc
  drawn c hc n hn := by
    obtain ⟨j, hj⟩ := List.mem_iff_getElem?.mp hc
    rcases hs.name_after_go h hj hn with ⟨-, -, -, hle⟩ | ⟨-, -, hnamed⟩
    · rw [authority_after_go h]
      exact Nat.le_trans hle (named_le_grant _ _)
    · exact Nat.le_of_eq hnamed.symm
  apart hj hj' hn hn' := by
    rcases hs.name_after_go h hj hn with ⟨c₀, hc₀, hn₀, hle⟩ | ⟨rfl, hnew, -⟩
    · rcases hs.name_after_go h hj' hn' with ⟨d₀, hd₀, hn₀', -⟩ | ⟨rfl, hnew, -⟩
      · exact hs.apart hc₀ hd₀ hn₀ hn₀'
      · omega
    · rcases hs.name_after_go h hj' hn' with ⟨-, -, -, hle⟩ | ⟨rfl, -, -⟩
      · omega
      · rfl
  ids := by
    rw [authority_after_go h]
    refine nodup_grant hs.ids fun o hx => ?_
    rcases ho : u.authority.order? o.id with _ | o'
    · rfl
    · exact absurd (hs.opened ho) (hs.not_opened h hx)
  found hdid := by
    rcases (did_after_go h).mp hdid with hdid | hdid
    · exact opened_after_go h (hs.found hdid)
    · exact opened_after_go h (hs.opened (visit_eq_iff.mp hdid).2)
  opened ho := by
    rw [authority_after_go h] at ho
    rcases order?_grant ho with ⟨ho, -⟩ | ⟨rfl, hid, -⟩ | ⟨e, o₀, -, ho₀, -⟩
    · exact opened_after_go h (hs.opened ho)
    · exact ⟨_, (did_after_go h).mpr (.inr rfl), hid⟩
    · exact opened_after_go h (hs.opened ho₀)
  fits := hs.fits_after_go h
  taken := hs.taken_after_go h
  one := hs.one_after_go h

end Go

section Run

variable {u : Office} {key : KeyPair} {start : Instant} {moves : List Move}

theorem sound_start : Sound { authority := make key start } where
  proper := by simp
  drawn := by simp
  apart := by simp
  ids := by simp [make]
  found := by simp [Did]
  opened := by simp [make, order?]
  fits := by simp [make, order?]
  taken := by simp
  one := by simp

/-- Which calls there are once somebody calls. -/
theorem calls_after_begin {now : Instant} {r : AuthorityRequest} {j : Nat} {c : Call}
    (h : (u.after (.begin now r)).calls[j]? = some c) :
    u.calls[j]? = some c ∨ c = ⟨r, [], procedure now r⟩ := by
  rw [after, List.getElem?_append] at h
  split at h
  · exact .inl h
  · exact .inr (List.mem_singleton.mp (List.mem_of_getElem? h))

theorem did_after_begin {now : Instant} {r : AuthorityRequest} :
    (u.after (.begin now r)).Did = u.Did := by
  funext d
  simp [Did, after]

theorem Sound.begin (hs : u.Sound) (now : Instant) (r : AuthorityRequest) :
    (u.after (.begin now r)).Sound := by
  have hopened : (u.after (.begin now r)).Opened = u.Opened := by
    funext id
    rw [Opened, did_after_begin, Opened]
  -- A call that was just begun has done nothing.
  have hold {j : Nat} {c : Call} {d : Deed} (hj : (u.after (.begin now r)).calls[j]? = some c)
      (hd : d ∈ c.path) : u.calls[j]? = some c := by
    rcases calls_after_begin hj with hj | rfl
    · exact hj
    · exact absurd hd List.not_mem_nil
  exact {
    proper := by
      simp only [after, List.mem_append, List.mem_singleton]
      rintro c (hc | rfl)
      · exact hs.proper c hc
      · exact ⟨keeps_procedure now r, by simp⟩
    drawn := by
      simp only [after, List.mem_append, List.mem_singleton]
      rintro c (hc | rfl) n hn
      · exact hs.drawn c hc n hn
      · simp at hn
    apart := fun hj hj' hn hn' => hs.apart (hold hj hn) (hold hj' hn') hn hn'
    ids := hs.ids
    found := by
      rw [did_after_begin, hopened]
      exact hs.found
    opened := by
      rw [hopened]
      exact hs.opened
    fits := by
      rw [did_after_begin]
      exact hs.fits
    taken := fun hj htook ho => by
      obtain ⟨⟨o, hmem, -⟩, -⟩ := id htook
      exact hs.taken (hold hj hmem) htook ho
    one := fun hj hj' hc hd => by
      obtain ⟨⟨o, hmem, -⟩, -⟩ := id hc
      obtain ⟨⟨o', hmem', -⟩, -⟩ := id hd
      exact hs.one (hold hj hmem) (hold hj' hmem') hc hd }

theorem Sound.after (hs : u.Sound) (m : Move) : (u.after m).Sound := by
  cases m with
  | tell => exact ⟨hs.proper, hs.drawn, hs.apart, hs.ids, hs.found, hs.opened, hs.fits, hs.taken, hs.one⟩
  | «begin» now r => exact hs.begin now r
  | go i =>
    rcases go_cases u i with h | ⟨r, path, x, next, h⟩
    · rw [h]
      exact hs
    · exact hs.go h

/-- What is so after any moves. -/
theorem sound_run (key : KeyPair) (start : Instant) (moves : List Move) :
    (run key start moves).Sound := by
  induction moves using List.reverseRecOn with
  | nil => exact sound_start
  | append_singleton moves m ih =>
    rw [run_concat]
    exact ih.after m

/-- At any time, a call that nobody interrupts is answered as the authority answers. -/
theorem exists_run_answer (key : KeyPair) (start : Instant) (moves : List Move) (now : Instant)
    (r : AuthorityRequest) :
    ∃ more path, run key start (moves ++ more) =
      { authority := ((run key start moves).authority.answer now r).2
        calls := (run key start moves).calls ++
          [⟨r, path, .done ((run key start moves).authority.answer now r).1⟩] } := by
  obtain ⟨more, path, h⟩ := exists_run_alone (sound_run key start moves).ids now r
  exact ⟨more, path, by rw [← h, run, List.foldl_append, run]⟩

/-- What an access gave was so at that time. -/
theorem exists_granted {x : Access} {answer : x.Answer}
    (h : (run key start moves).Did ⟨x, answer⟩) :
    ∃ before, before <+: moves ∧ answer = ((run key start before).authority.grant x).1 := by
  induction moves using List.reverseRecOn with
  | nil =>
    obtain ⟨c, hc, -⟩ := h
    cases hc
  | append_singleton moves m ih =>
    rw [run_concat] at h
    have hold (h : (run key start moves).Did ⟨x, answer⟩) :
        ∃ before, before <+: moves ++ [m] ∧
          answer = ((run key start before).authority.grant x).1 := by
      obtain ⟨before, hbefore, hanswer⟩ := ih h
      exact ⟨before, hbefore.trans (List.prefix_append _ _), hanswer⟩
    cases m with
    | tell => exact hold h
    | «begin» now r => exact hold (did_after_begin ▸ h)
    | go i =>
      rcases go_cases (run key start moves) i with hi | ⟨r, path, x', next, hi⟩
      · exact hold (hi ▸ h)
      · rcases (did_after_go hi).mp h with h | h
        · exact hold h
        · obtain rfl : x = x' := congrArg Sigma.fst h
          exact ⟨moves, List.prefix_append _ _, eq_of_heq (Sigma.mk.inj h).2⟩

end Run

/-! ### Where a certificate comes from -/

/-- Some call said that the challenge is ready, and was heard. -/
def Announced (u : Office) (id url : String) : Prop :=
  ∃ (o : OrderHandle) (path : List Deed),
    ⟨.challengeReady o url, path, .done (.ok ())⟩ ∈ u.calls ∧ o.id = id

/-- The call with that number finalized the order. -/
def Finalized (u : Office) (i : Nat) (id : String) (path : List Deed) : Prop :=
  ∃ (o : OrderHandle) (csr : List UInt8),
    u.calls[i]? = some ⟨.finalize o csr, path, .done (.ok ())⟩ ∧ o.id = id

/-- Some call that asked for the authorizations of the order found the name pending and left it as it
is, and the name was not rejected when that call read the settings. -/
def Accepted (key : KeyPair) (start : Instant) (moves : List Move) (id : String) (e : Entry) : Prop :=
  ∃ (o : OrderHandle) (path : List Deed) (result : Except IssuanceError (List Authorization))
    (before : List Move) (found : Order) (e' : Entry),
    ⟨.authorizations o, path, .done result⟩ ∈ (run key start moves).calls ∧ o.id = id ∧
      before <+: moves ∧ ⟨.settings, (run key start before).authority.seen⟩ ∈ path ∧
      ⟨.visit id (.look (run key start before).authority.rejected), some found⟩ ∈ path ∧
      e' ∈ found.entries ∧ e'.status = .pending ∧
      look (run key start before).authority.rejected e' = e ∧ e.status = .valid ∧
      e.identifier ∉ (run key start before).authority.rejected

section Results

variable {u : Office} {key : KeyPair} {start : Instant} {moves : List Move} {id : String}

/-- A call that did the last thing it does has ended. -/
theorem Sound.ended (hs : u.Sound) {r : AuthorityRequest} {path : List Deed}
    {program : Dialogue r.Reply} {d : Deed} (hc : ⟨r, path, program⟩ ∈ u.calls) (hd : d ∈ path)
    (hlast : d.1.isLast) : ∃ result, program = .done result ∧ Ended r path result := by
  have hkeeps := (hs.proper _ hc).keeps
  cases program with
  | done result => exact ⟨result, rfl, hkeeps⟩
  | ask x next => exact absurd hlast (hkeeps.1 d hd)

theorem Sound.announced (hs : u.Sound) {url : String} {found : Order}
    (h : u.Did ⟨.visit id (.announce url), some found⟩) (hurl : ∃ e ∈ found.entries, e.url = url) :
    u.Announced id url := by
  obtain ⟨⟨r, path, program⟩, hc, hmem⟩ := h
  obtain ⟨o, rfl, rfl⟩ := (hs.proper _ hc).suits _ hmem
  obtain ⟨result, rfl, hended⟩ := hs.ended hc hmem rfl
  obtain rfl := hended found hmem hurl
  exact ⟨o, path, hc, rfl⟩

theorem Sound.finalized (hs : u.Sound) {pem : String} {found : Order}
    (h : u.Did ⟨.visit id (.close (some pem)), some found⟩) :
    ∃ i path, u.Finalized i id path ∧ ⟨.visit id (.close (some pem)), some found⟩ ∈ path := by
  obtain ⟨i, ⟨r, path, program⟩, hi, hmem⟩ := did_iff.mp h
  have hc := List.mem_of_getElem? hi
  obtain ⟨⟨o, csr, rfl, rfl⟩, -⟩ := (hs.proper _ hc).suits _ hmem
  obtain ⟨result, rfl, hended⟩ := hs.ended hc hmem rfl
  obtain rfl := hended.1.mpr ⟨pem, found, hmem⟩
  exact ⟨i, path, ⟨o, csr, hi, rfl⟩, hmem⟩

/-- Who finalized an order has taken it and closed it. -/
theorem Sound.took_of_finalized (hs : u.Sound) {i : Nat} {path : List Deed}
    (h : u.Finalized i id path) : ∃ c, u.calls[i]? = some c ∧ c.Took id ∧ c.Closed id := by
  obtain ⟨o, csr, hi, rfl⟩ := h
  have hproper := hs.proper _ (List.mem_of_getElem? hi)
  obtain ⟨hok, hspoiled⟩ := hproper.keeps
  obtain ⟨pem, found, hmem⟩ := hok.mp rfl
  obtain ⟨-, o', hclaimed, hready⟩ := hproper.suits _ hmem
  refine ⟨_, hi, ⟨⟨o', hclaimed, hready⟩, fun found hmem => ?_⟩, ⟨some pem, some found, hmem⟩⟩
  cases hspoiled found hmem

/-- The certificate of an order is the work of a call that finalized it. -/
theorem Sound.exists_finalized (hs : u.Sound) {o : Order} {pem : String}
    (ho : u.authority.order? id = some o) (hpem : o.certificate = some pem) :
    ∃ (i : Nat) (path : List Deed) (found : Order), u.Finalized i id path ∧
      ⟨.visit id (.close (some pem)), some found⟩ ∈ path := by
  obtain rfl := (mem_of_order? ho).2
  obtain ⟨found, hdid⟩ := (hs.fits ho).1.closed hpem
  obtain ⟨i, path, hi, hmem⟩ := hs.finalized hdid
  exact ⟨i, path, found, hi, hmem⟩

theorem accepted {e : Entry} {rejected : List String} {found : Order} {e' : Entry}
    (h : (run key start moves).Did ⟨.visit id (.look rejected), some found⟩)
    (he' : e' ∈ found.entries) (hpending : e'.status = .pending) (hlook : look rejected e' = e)
    (hvalid : e.status = .valid) (hname : e.identifier ∉ rejected) :
    Accepted key start moves id e := by
  have hs := sound_run key start moves
  obtain ⟨⟨r, path, program⟩, hc, hmem⟩ := h
  obtain ⟨⟨o, rfl, rfl⟩, a, ha, rfl⟩ := (hs.proper _ hc).suits _ hmem
  obtain ⟨result, rfl, -⟩ := hs.ended hc hmem rfl
  obtain ⟨before, hbefore, rfl⟩ := exists_granted ⟨_, hc, ha⟩
  exact ⟨o, path, result, before, found, e', hc, rfl, hbefore, ha, hmem, he', hpending, hlook,
    hvalid, hname⟩

/-- The request of the call that makes a move. -/
def caller? (u : Office) : Move → Option AuthorityRequest
  | .go i => u.calls[i]?.map (·.request)
  | .tell .. | .begin .. => none

/-- A move that is not made by a call about an order leaves it as it is. -/
theorem Sound.order?_after (hs : u.Sound) {m : Move} {o : Order}
    (ho : u.authority.order? id = some o)
    (hm : ∀ r, u.caller? m = some r → r.about? ≠ some id) :
    (u.after m).authority.order? id = some o := by
  cases m with
  | tell | «begin» => exact ho
  | go i =>
    rcases go_cases u i with hi | ⟨r, path, x, next, hi⟩
    · rw [hi]
      exact ho
    · have habout := hm r (by simp [caller?, hi])
      have hsuits := (hs.suits_next hi).2
      rw [authority_after_go hi]
      refine order?_grant_of_ne ho (fun e hx => ?_) fun hx => ?_
      · subst hx
        exact habout hsuits.about
      · subst hx
        exact habout hsuits

/-- **Safety.** An order holds a certificate only if every one of its challenges was announced, every
name was accepted by a look that did not reject it, and one call finalized the order and put this
certificate into it; no two calls finalize the same order; and only calls about an order change
it. -/
theorem safe (key : KeyPair) (start : Instant) (moves : List Move) (id : String) :
    (∀ o pem, (run key start moves).authority.order? id = some o → o.certificate = some pem →
      (∀ e ∈ o.entries, (run key start moves).Announced id e.url ∧
        Accepted key start moves id e) ∧
      ∃ (i : Nat) (path : List Deed) (found : Order), (run key start moves).Finalized i id path ∧
        ⟨.visit id (.close (some pem)), some found⟩ ∈ path) ∧
    (∀ i j path path', (run key start moves).Finalized i id path →
      (run key start moves).Finalized j id path' → i = j) ∧
    ∀ m o, (run key start moves).authority.order? id = some o →
      (∀ r, (run key start moves).caller? m = some r → r.about? ≠ some id) →
      (run key start (moves ++ [m])).authority.order? id = some o := by
  have hs := sound_run key start moves
  refine ⟨fun o pem ho hpem => ⟨fun e he => ?_, hs.exists_finalized ho hpem⟩,
    fun i j path path' hi hj => ?_, fun m o ho hm => ?_⟩
  · obtain rfl := (mem_of_order? ho).2
    obtain ⟨hfits, -⟩ := hs.fits ho
    have hsettled : o.isSettled := by
      simp [Order.isSettled, hfits.certificate.mp (by simp [hpem])]
    have hvalid := hfits.valid (.inr hsettled) e he
    obtain ⟨hready, rejected, found, hdid, e', he', hpending, hlook, hname⟩ :=
      (hfits.entries e he).settled hvalid
    obtain ⟨found', hdid', hurl⟩ := (hfits.entries e he).announced hready
    exact ⟨hs.announced hdid' hurl, accepted hdid he' hpending hlook hvalid hname⟩
  · obtain ⟨c, hc, htook, -⟩ := hs.took_of_finalized hi
    obtain ⟨d, hd, htook', -⟩ := hs.took_of_finalized hj
    exact hs.one hc hd htook htook'
  · rw [run_concat]
    exact hs.order?_after ho hm

/-- A key for examples. -/
def sampleKey : KeyPair where
  spec := .ecdsaP256
  secret := []

/-- An order for examples. -/
def sampleHandle : OrderHandle where
  id := "order-3"
  identifiers := ["example.com"]

/-- A request for a certificate without names and with an empty signature. -/
def sampleRequest : List UInt8 :=
  [0x30, 0x13, 0x30, 0x09, 0x02, 0x01, 0x00, 0x30, 0x00, 0x30, 0x00, 0xA0, 0x00,
    0x30, 0x03, 0x06, 0x01, 0x2A, 0x03, 0x01, 0x00]

/-- Some accesses of one call after the other. -/
def sampleCall (r : AuthorityRequest) (i accesses : Nat) : List Move :=
  .begin default r :: List.replicate accesses (.go i)

/-- An order is opened and its challenge announced, and its name is accepted. -/
def sampleReady : List Move :=
  sampleCall (.newOrder ["example.com"]) 0 6 ++
    sampleCall (.challengeReady sampleHandle "dev://challenge/chall-2") 1 3 ++
    sampleCall (.authorizations sampleHandle) 2 3

/-- The order is finalized. -/
theorem safe_sampleReady :
    ∃ o pem, (run sampleKey default (sampleReady ++
        sampleCall (.finalize sampleHandle sampleRequest) 3 6)).authority.order? "order-3" = some o ∧
      o.certificate = some pem ∧ o.entries.map (·.identifier) = ["example.com"] ∧
      ∀ e ∈ o.entries, Accepted sampleKey default (sampleReady ++
        sampleCall (.finalize sampleHandle sampleRequest) 3 6) "order-3" e := by
  have hcertificate : ((run sampleKey default (sampleReady ++
      sampleCall (.finalize sampleHandle sampleRequest) 3 6)).authority.order? "order-3").map
        (fun o => (o.certificate.isSome, o.entries.map (·.identifier))) =
      some (true, ["example.com"]) := by decide +kernel
  obtain ⟨o, ho, hall⟩ := Option.map_eq_some_iff.mp hcertificate
  obtain ⟨hsome, hnames⟩ := Prod.mk.inj hall
  obtain ⟨pem, hpem⟩ := Option.isSome_iff_exists.mp hsome
  obtain ⟨hentries, -⟩ := (safe _ _ _ _).1 o pem ho hpem
  exact ⟨o, pem, ho, hpem, hnames, fun e he => (hentries e he).2⟩

end Results

end Office

end DevelopmentAuthority

end CertSteward
