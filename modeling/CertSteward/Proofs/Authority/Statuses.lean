import CertSteward.Proofs.Authority.Safety

/-!
# Where orders of the development authority go

The status of an order is worked out again whenever somebody asks, and is set by hand when the order
is finalized. It moves forward, from pending over ready and processing to valid or invalid, with one
exception: an order that is invalid only because the request for its certificate could not be read has
no name that failed, so the next look finds it ready again, and it can still be finalized.

## Main definitions

* `OrderStatus.Precedes` — statuses in the order in which they are taken
* `Office.Spoiled` — orders for which a request could not be read

## Main results

* `Order.Fits.precedes` — what an edit makes of the status
* `Office.order?_induction` — what every change of an order keeps is kept
* `Office.advances` — how the status of an order moves, in any interleaving
-/

namespace CertSteward

namespace OrderStatus

/-- How far an order has come. -/
def rank : OrderStatus → Nat
  | pending => 0
  | ready => 1
  | processing => 2
  | valid | invalid => 3

/-- An order can go from one status to the other without going back. -/
def Precedes (s t : OrderStatus) : Prop := s = t ∨ s.rank < t.rank

theorem Precedes.trans {s t u : OrderStatus} (hst : s.Precedes t) (htu : t.Precedes u) :
    s.Precedes u := by
  rcases hst with rfl | hst
  · exact htu
  · rcases htu with rfl | htu
    · exact .inr hst
    · exact .inr (Nat.lt_trans hst htu)

end OrderStatus

namespace DevelopmentAuthority

/-! ### What an edit makes of the status -/

section Edits

variable {did : Deed → Prop} {o : Order}

/-- Refreshing an order moves it forward, or makes it ready although it was given up. -/
theorem precedes_refresh (o : Order) :
    o.status.Precedes o.refresh.status ∨
      o.status = .invalid ∧ ∀ e ∈ o.entries, e.status = .valid := by
  rcases o.refresh_cases with ⟨-, heq⟩ | ⟨hsettled, ⟨-, heq⟩ | ⟨-, ⟨hvalid, heq⟩ | heq⟩⟩
  · exact .inl (.inl (by rw [heq]))
  · rw [heq]
    cases hstatus : o.status with
    | invalid => exact .inl (.inl rfl)
    | pending | ready | processing => exact .inl (.inr (by simp [OrderStatus.rank]))
    | valid => simp [Order.isSettled, hstatus] at hsettled
  · rw [heq]
    cases hstatus : o.status with
    | pending => exact .inl (.inr (by simp [OrderStatus.rank]))
    | ready => exact .inl (.inl rfl)
    | invalid => exact .inr ⟨rfl, hvalid⟩
    | processing | valid => simp [Order.isSettled, hstatus] at hsettled
  · exact .inl (.inl (by rw [heq]))

/-- An edit moves an order forward, or takes it up again although it was given up. -/
theorem Order.Fits.precedes {edit : Edit} (h : o.Fits did)
    (hclose : ∀ k, edit = .close k → o.status = .processing) :
    o.status.Precedes (edit.apply o).status ∨
      o.status = .invalid ∧ ∀ e ∈ o.entries, e.status = .valid := by
  cases edit with
  | read | announce => exact .inl (.inl rfl)
  | look rejected =>
    refine (precedes_refresh { o with entries := o.entries.map (look rejected) }).imp_right ?_
    rintro ⟨hinvalid, hall⟩
    refine ⟨hinvalid, ?_⟩
    rcases h.invalid hinvalid with ⟨e, he, hfailed⟩ | ⟨hvalid, -⟩
    · have hvalid := List.forall_mem_map.mp hall e he
      rw [look_of_isFailed hfailed] at hvalid
      exact absurd hfailed (not_isFailed_of_valid hvalid)
    · exact hvalid
  | refresh => exact precedes_refresh o
  | claim =>
    refine (precedes_refresh o).imp_left fun hforward => ?_
    rw [Edit.apply]
    split
    · next hready => exact hforward.trans (.inr (by simp [hready, OrderStatus.rank]))
    · exact hforward
  | close k =>
    rw [hclose k rfl]
    cases k <;> exact .inl (.inr (by simp [Edit.apply, OrderStatus.rank]))

/-- A name that failed stays failed. -/
theorem exists_failed_apply {edit : Edit} (h : ∃ e ∈ o.entries, e.status.isFailed) :
    ∃ e ∈ (edit.apply o).entries, e.status.isFailed := by
  obtain ⟨e, he, hfailed⟩ := h
  cases edit with
  | read => exact ⟨e, he, hfailed⟩
  | look rejected =>
    rw [Edit.apply, Order.entries_refresh]
    refine ⟨_, List.mem_map_of_mem he, ?_⟩
    rwa [look_of_isFailed hfailed]
  | announce url =>
    refine ⟨_, List.mem_map_of_mem he, ?_⟩
    split <;> exact hfailed
  | refresh => exact ⟨e, by rwa [Edit.apply, Order.entries_refresh], hfailed⟩
  | claim =>
    refine ⟨e, ?_, hfailed⟩
    rw [Edit.apply]
    split <;> simpa using he
  | close k => cases k <;> exact ⟨e, he, hfailed⟩

/-- An order with a name that failed cannot become ready. -/
theorem Order.Fits.not_ready (h : o.Fits did) (hfailed : ∃ e ∈ o.entries, e.status.isFailed) :
    o.refresh.status ≠ .ready := by
  obtain ⟨e, he, hfailed⟩ := hfailed
  have hinvalid := h.refresh.2 ⟨e, by rwa [entries_refresh], hfailed⟩
  simp [hinvalid]

end Edits

/-! ### What a move makes of an order -/

namespace Office

section Moves

variable {u : Office} {id : String} {o o' : Order} {m : Move}

/-- A move leaves an order as it is or edits it, and only an order that is being processed is
closed. Once it is gone, no order with its name comes back. -/
theorem Sound.exists_edit (hs : u.Sound) (ho' : (u.after m).authority.order? id = some o')
    (hopened : u.Opened id) :
    ∃ o, u.authority.order? id = some o ∧ (o' = o ∨ ∃ e : Edit, o' = e.apply o ∧
      ∀ k, e = .close k → o.status = .processing) := by
  cases m with
  | tell | «begin» => exact ⟨o', ho', .inl rfl⟩
  | go i =>
    rcases go_cases u i with hi | ⟨r, path, x, next, hi⟩
    · exact ⟨o', hi ▸ ho', .inl rfl⟩
    · rw [authority_after_go hi] at ho'
      rcases order?_grant ho' with ⟨ho, -⟩ | ⟨rfl, rfl, -⟩ | ⟨e, o, rfl, ho, rfl⟩
      · exact ⟨o', ho, .inl rfl⟩
      · exact absurd hopened (hs.not_opened hi rfl)
      · refine ⟨o, ho, .inr ⟨e, rfl, ?_⟩⟩
        rintro k rfl
        exact (hs.closing hi rfl).2 o ho

theorem Opened.after (h : u.Opened id) (m : Move) : (u.after m).Opened id := by
  cases m with
  | tell => exact h
  | «begin» =>
    rw [Opened, did_after_begin]
    exact h
  | go i =>
    rcases go_cases u i with hi | ⟨r, path, x, next, hi⟩
    · rwa [hi]
    · exact opened_after_go hi h

/-- Whoever has taken an order after a move had taken it before, unless the order was ready. -/
theorem took_after {j : Nat} {c : Call} (hj : (u.after m).calls[j]? = some c) (htook : c.Took id) :
    (∃ c₀, u.calls[j]? = some c₀ ∧ c₀.Took id) ∨
      ∃ o, u.authority.order? id = some o ∧ o.refresh.status = .ready := by
  cases m with
  | tell => exact .inl ⟨c, hj, htook⟩
  | «begin» =>
    rcases calls_after_begin hj with hj | rfl
    · exact .inl ⟨c, hj, htook⟩
    · obtain ⟨⟨o, hmem, -⟩, -⟩ := htook
      cases hmem
  | go i =>
    rcases go_cases u i with hi | ⟨r, path, x, next, hi⟩
    · exact .inl ⟨c, hi ▸ hj, htook⟩
    · rcases took_after_go hi hj htook with ⟨c₀, hj₀, htook₀, -⟩ | ⟨-, -, -, o, ho, hready⟩
      · exact .inl ⟨c₀, hj₀, htook₀⟩
      · exact .inr ⟨o, ho, hready⟩

/-- A call that has ended stays as it is. -/
theorem done_after {i : Nat} {r : AuthorityRequest} {path : List Deed} {result : r.Reply}
    (h : u.calls[i]? = some ⟨r, path, .done result⟩) :
    (u.after m).calls[i]? = some ⟨r, path, .done result⟩ := by
  cases m with
  | tell => exact h
  | «begin» => exact List.getElem?_append_left (List.getElem?_eq_some_iff.mp h).1 ▸ h
  | go j =>
    rcases go_cases u j with hj | ⟨r', path', x, next, hj⟩
    · rwa [hj]
    · refine (calls_after_go hj).mpr (.inl ⟨?_, h⟩)
      rintro rfl
      cases hj.symm.trans h

end Moves

/-! ### Where an order goes -/

/-- Some call finalized the order with a request that could not be read. -/
def Spoiled (u : Office) (id : String) : Prop :=
  ∃ (i : Nat) (o : OrderHandle) (csr : List UInt8) (path : List Deed),
    u.calls[i]? = some ⟨.finalize o csr, path,
      .done (.error (.rejected "finalize" "badCSR: malformed request"))⟩ ∧ o.id = id

section Run

variable {u : Office} {key : KeyPair} {start : Instant} {moves : List Move} {id : String} {o : Order}

theorem Spoiled.after (h : u.Spoiled id) (m : Move) : (u.after m).Spoiled id := by
  obtain ⟨i, o, csr, path, hi, ho⟩ := h
  exact ⟨i, o, csr, path, done_after hi, ho⟩

theorem Sound.spoiled (hs : u.Sound) {found : Order}
    (h : u.Did ⟨.visit id (.close none), some found⟩) : u.Spoiled id := by
  obtain ⟨i, ⟨r, path, program⟩, hi, hmem⟩ := did_iff.mp h
  have hc := List.mem_of_getElem? hi
  obtain ⟨⟨o, csr, rfl, rfl⟩, -⟩ := (hs.proper _ hc).suits _ hmem
  obtain ⟨result, rfl, hended⟩ := hs.ended hc hmem rfl
  obtain rfl := hended.2 _ hmem
  exact ⟨i, o, csr, path, hi, rfl⟩

/-- What is so of an order and is kept by every move is so for as long as there is the order. -/
theorem order?_induction {P : List Move → Order → Prop}
    (ho : (run key start moves).authority.order? id = some o) (hstart : P [] o)
    (hmove : ∀ more m o₁ o₂, (run key start (moves ++ more)).authority.order? id = some o₁ →
      P more o₁ → (o₂ = o₁ ∨ ∃ e : Edit, o₂ = e.apply o₁ ∧
        ∀ k, e = .close k → o₁.status = .processing) → P (more ++ [m]) o₂)
    (more : List Move) :
    (run key start (moves ++ more)).Opened id ∧
      ∀ o', (run key start (moves ++ more)).authority.order? id = some o' → P more o' := by
  induction more using List.reverseRecOn with
  | nil =>
    rw [List.append_nil]
    refine ⟨(sound_run key start moves).opened ho, fun o' ho' => ?_⟩
    obtain rfl : o = o' := Option.some.inj (ho.symm.trans ho')
    exact hstart
  | append_singleton more m ih =>
    obtain ⟨hopened, hall⟩ := ih
    rw [← List.append_assoc, run_concat]
    refine ⟨hopened.after m, fun o₂ ho₂ => ?_⟩
    obtain ⟨o₁, ho₁, hedit⟩ := (sound_run key start (moves ++ more)).exists_edit ho₂ hopened
    exact hmove more m o₁ o₂ ho₁ (hall o₁ ho₁) hedit

/-- A valid order keeps its certificate. -/
theorem valid_stays (ho : (run key start moves).authority.order? id = some o)
    (hvalid : o.status = .valid) (more : List Move) {o' : Order}
    (ho' : (run key start (moves ++ more)).authority.order? id = some o') :
    o'.status = .valid ∧ o'.certificate = o.certificate := by
  refine (order?_induction (P := fun _ o' => o'.status = .valid ∧ o'.certificate = o.certificate)
    ho ⟨hvalid, rfl⟩ ?_ more).2 o' ho'
  rintro more m o₁ o₂ - ⟨hvalid, hsame⟩ (rfl | ⟨e, rfl, hclose⟩)
  · exact ⟨hvalid, hsame⟩
  · have hsettled : o₁.isSettled := by simp [Order.isSettled, hvalid]
    have hopen (k : Option String) : e ≠ .close k := fun hk => by simp [hclose k hk] at hvalid
    have hkeep := apply_of_isSettled hsettled hopen
    exact ⟨hkeep.1.trans hvalid, hkeep.2.trans hsame⟩

/-- An order with a name that failed stays invalid. -/
theorem failed_stays (ho : (run key start moves).authority.order? id = some o)
    (hfailed : ∃ e ∈ o.entries, e.status.isFailed) (more : List Move) {o' : Order}
    (ho' : (run key start (moves ++ more)).authority.order? id = some o') :
    (∃ e ∈ o'.entries, e.status.isFailed) ∧ o'.status = .invalid := by
  have hfailed' := (order?_induction (P := fun _ o' => ∃ e ∈ o'.entries, e.status.isFailed)
    ho hfailed ?_ more).2 o' ho'
  · exact ⟨hfailed', ((sound_run key start (moves ++ more)).fits ho').2 hfailed'⟩
  · rintro more m o₁ o₂ - hfailed (rfl | ⟨e, rfl, -⟩)
    · exact hfailed
    · exact exists_failed_apply hfailed

/-- Nobody finalizes an order with a name that failed. -/
theorem not_finalized_of_failed (ho : (run key start moves).authority.order? id = some o)
    (hfailed : ∃ e ∈ o.entries, e.status.isFailed) (more : List Move) {i : Nat} {path : List Deed} :
    ¬ (run key start (moves ++ more)).Finalized i id path := by
  have hnone : ∀ (j : Nat) (c : Call), (run key start (moves ++ more)).calls[j]? = some c →
      ¬ c.Took id := by
    induction more using List.reverseRecOn with
    | nil =>
      rw [List.append_nil]
      have hs := sound_run key start moves
      have hinvalid := (hs.fits ho).2 hfailed
      exact fun j c hj => hs.not_took hj ho (by simp [Order.isSettled, hinvalid])
    | append_singleton more m ih =>
      rw [← List.append_assoc, run_concat]
      intro j c hj htook
      rcases took_after hj htook with ⟨c₀, hj₀, htook₀⟩ | ⟨o₁, ho₁, hready⟩
      · exact ih j c₀ hj₀ htook₀
      · have hfits := ((sound_run key start (moves ++ more)).fits ho₁).1
        exact hfits.not_ready (failed_stays ho hfailed more ho₁).1 hready
  intro hfinalized
  obtain ⟨c, hc, htook, -⟩ :=
    (sound_run key start (moves ++ more)).took_of_finalized hfinalized
  exact hnone i c hc htook

/-- An order moves forward as long as nobody spoils it. -/
theorem precedes_of_not_spoiled (ho : (run key start moves).authority.order? id = some o)
    (more : List Move) {o' : Order}
    (ho' : (run key start (moves ++ more)).authority.order? id = some o')
    (hspoiled : ¬ (run key start (moves ++ more)).Spoiled id) :
    o.status.Precedes o'.status := by
  refine (order?_induction (P := fun more o' => ¬ (run key start (moves ++ more)).Spoiled id →
    o.status.Precedes o'.status) ho (fun _ => .inl rfl) ?_ more).2 o' ho' hspoiled
  rintro more m o₁ o₂ ho₁ hforward hedit hspoiled
  rw [← List.append_assoc, run_concat] at hspoiled
  have hspoiled₁ : ¬ (run key start (moves ++ more)).Spoiled id := fun h => hspoiled (h.after m)
  have hforward₁ := hforward hspoiled₁
  rcases hedit with rfl | ⟨e, rfl, hclose⟩
  · exact hforward₁
  · have hs := sound_run key start (moves ++ more)
    obtain ⟨hfits, -⟩ := hs.fits ho₁
    rcases hfits.precedes hclose with h | ⟨hinvalid, hvalid⟩
    · exact hforward₁.trans h
    · rcases hfits.invalid hinvalid with ⟨e, he, hfailed⟩ | ⟨-, found, hdid⟩
      · exact absurd hfailed (not_isFailed_of_valid (hvalid e he))
      · exact absurd (hs.spoiled ((mem_of_order? ho₁).2 ▸ hdid)) hspoiled₁

/-- **Where an order goes.** With every move its status stays or moves forward, unless the order is
invalid, no name of it failed, and some call spoiled it. Over any moves, an order that nobody spoiled
moves forward; a valid one stays valid and keeps its certificate; and one with a name that failed
stays invalid and is never finalized. -/
theorem advances (ho : (run key start moves).authority.order? id = some o) :
    (∀ m o', (run key start (moves ++ [m])).authority.order? id = some o' →
      o.status.Precedes o'.status ∨
        o.status = .invalid ∧ (∀ e ∈ o.entries, e.status = .valid) ∧
          (run key start moves).Spoiled id) ∧
    ∀ more,
      ((∃ e ∈ o.entries, e.status.isFailed) →
        ∀ i path, ¬ (run key start (moves ++ more)).Finalized i id path) ∧
      ∀ o', (run key start (moves ++ more)).authority.order? id = some o' →
        (¬ (run key start (moves ++ more)).Spoiled id → o.status.Precedes o'.status) ∧
        (o.status = .valid → o'.status = .valid ∧ o'.certificate = o.certificate) ∧
        ((∃ e ∈ o.entries, e.status.isFailed) → o.status = .invalid ∧ o'.status = .invalid) := by
  have hs := sound_run key start moves
  obtain ⟨hfits, hhonest⟩ := hs.fits ho
  refine ⟨fun m o' ho' => ?_, fun more => ⟨fun hfailed i path => ?_, fun o' ho' => ⟨?_, ?_, ?_⟩⟩⟩
  · rw [run_concat] at ho'
    obtain ⟨o₁, ho₁, hedit⟩ := hs.exists_edit ho' (hs.opened ho)
    obtain rfl : o = o₁ := Option.some.inj (ho.symm.trans ho₁)
    rcases hedit with rfl | ⟨e, rfl, hclose⟩
    · exact .inl (.inl rfl)
    · refine (hfits.precedes hclose).imp_right fun ⟨hinvalid, hvalid⟩ => ⟨hinvalid, hvalid, ?_⟩
      rcases hfits.invalid hinvalid with ⟨e, he, hfailed⟩ | ⟨-, found, hdid⟩
      · exact absurd hfailed (not_isFailed_of_valid (hvalid e he))
      · exact hs.spoiled ((mem_of_order? ho).2 ▸ hdid)
  · exact not_finalized_of_failed ho hfailed more
  · exact precedes_of_not_spoiled ho more ho'
  · exact fun hvalid => valid_stays ho hvalid more ho'
  · exact fun hfailed => ⟨hhonest hfailed, (failed_stays ho hfailed more ho').2⟩

/-- A call that looks at the order for examples after its name was rejected. -/
def sampleRejected : List Move :=
  .tell ["example.com"] 0 0 0 true :: sampleReady

/-- An order whose name was rejected. -/
theorem advances_sampleRejected :
    ∃ o, (run sampleKey default sampleRejected).authority.order? "order-3" = some o ∧
      o.status = .invalid ∧
      ∀ more i path,
        ¬ (run sampleKey default (sampleRejected ++ more)).Finalized i "order-3" path := by
  have hstatus : ((run sampleKey default sampleRejected).authority.order? "order-3").map
      (fun o => (o.status, o.entries.map (·.status))) = some (.invalid, [.invalid]) := by
    decide +kernel
  obtain ⟨o, ho, hall⟩ := Option.map_eq_some_iff.mp hstatus
  obtain ⟨hinvalid, hentries⟩ := Prod.mk.inj hall
  have hfailed : ∃ e ∈ o.entries, e.status.isFailed := by
    obtain ⟨e, he, hestatus⟩ : ∃ e ∈ o.entries, e.status = .invalid :=
      List.mem_map.mp (hentries ▸ List.mem_singleton.mpr rfl)
    exact ⟨e, he, by simp [hestatus, AuthorizationStatus.isFailed]⟩
  exact ⟨o, ho, hinvalid, fun more => ((advances ho).2 more).1 hfailed⟩

/-- The order for examples is finalized with a request that cannot be read. -/
def sampleSpoiled : List Move :=
  sampleReady ++ sampleCall (.finalize sampleHandle [0x30, 0x00]) 3 5

/-- An order that was given up over its request is ready again once somebody asks where it stands,
and is valid once it is finalized again. -/
theorem taken_up_again :
    ∃ o₁ o₂ o₃,
      (run sampleKey default sampleSpoiled).authority.order? "order-3" = some o₁ ∧
      (run sampleKey default (sampleSpoiled ++ sampleCall (.orderState sampleHandle) 4 2)
        ).authority.order? "order-3" = some o₂ ∧
      (run sampleKey default (sampleSpoiled ++ sampleCall (.orderState sampleHandle) 4 2 ++
        sampleCall (.finalize sampleHandle sampleRequest) 5 6)).authority.order? "order-3" = some o₃ ∧
      (o₁.status, o₂.status, o₃.status) = (.invalid, .ready, .valid) ∧
      ∃ i path, (run sampleKey default (sampleSpoiled ++ sampleCall (.orderState sampleHandle) 4 2 ++
        sampleCall (.finalize sampleHandle sampleRequest) 5 6)).Finalized i "order-3" path := by
  have h₁ : ((run sampleKey default sampleSpoiled).authority.order? "order-3").map (·.status) =
      some .invalid := by decide +kernel
  have h₂ : ((run sampleKey default (sampleSpoiled ++ sampleCall (.orderState sampleHandle) 4 2)
      ).authority.order? "order-3").map (·.status) = some .ready := by decide +kernel
  have h₃ : ((run sampleKey default (sampleSpoiled ++ sampleCall (.orderState sampleHandle) 4 2 ++
      sampleCall (.finalize sampleHandle sampleRequest) 5 6)).authority.order? "order-3").map
        (fun o => (o.status, o.certificate.isSome)) = some (.valid, true) := by decide +kernel
  obtain ⟨o₁, ho₁, hs₁⟩ := Option.map_eq_some_iff.mp h₁
  obtain ⟨o₂, ho₂, hs₂⟩ := Option.map_eq_some_iff.mp h₂
  obtain ⟨o₃, ho₃, hall⟩ := Option.map_eq_some_iff.mp h₃
  obtain ⟨hs₃, hsome⟩ := Prod.mk.inj hall
  obtain ⟨pem, hpem⟩ := Option.isSome_iff_exists.mp hsome
  obtain ⟨i, path, -, hfinalized, -⟩ := (sound_run _ _ _).exists_finalized ho₃ hpem
  exact ⟨o₁, o₂, o₃, ho₁, ho₂, ho₃, by rw [hs₁, hs₂, hs₃], i, path, hfinalized⟩

end Run

end Office

end DevelopmentAuthority

end CertSteward
