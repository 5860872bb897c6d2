import CertSteward.Challenge.Set
import CertSteward.Dns.Provisioning
import Mathlib.Data.List.Induction
import Mathlib.Data.List.Nodup

/-!
# A challenge set is an ordered map

A challenge set is a list of entries in which every lookup and every edit looks for the first entry
of an identifier. Seen from outside it is a map that remembers the order in which its keys came: no
identifier stands in it twice, an entry that is put in again keeps the place of the one before, and
what is found under an identifier depends on the edits of that identifier alone.

The other side of these laws is the history of the set. `ChallengeEdit.revise` says what an edit
makes of one entry, without a set around it, and `ChallengeEdit.Leaves` says from the history alone
what is to be found under an identifier: the entry last put in for it, with all edits that came
after it.

## Main definitions

* `ChallengeSet.identifiers`, `ChallengeSet.keys` — what the entries are about
* `ChallengeEdit`, `ChallengeSet.applyAll` — an edit of a set, and a set after many
* `ChallengeEdit.revise`, `ChallengeEntry.reviseAll` — what edits make of an entry
* `ChallengeEdit.Leaves` — what a history leaves under an identifier

## Main results

* `ChallengeSet.identifiers_modify`, `identifiers_insert` — which edits keep the identifiers, and
  which add one
* `ChallengeSet.keys_setStatus`, `keys_markInvalid` — a status is no part of a key
* `ChallengeSet.get?_modify`, `get?_insert_self`, `get?_insert_of_ne` — edits seen through a lookup
* `ChallengeSet.identifiers_applyAll` — the order is that of first insertion
* `ChallengeSet.get?_applyAll_eq_some_iff` — a lookup finds what the history leaves
* `ChallengeSet.applyAll_ordered` — all of it together, with the summaries
-/

namespace CertSteward

/-- The key of the slot of the record of a challenge. -/
def ChallengeEntry.key (e : ChallengeEntry) : SlotKey := slotKey e.recordName e.recordValue

namespace ChallengeSet

variable {c : ChallengeSet} {e : ChallengeEntry} {id : String}
  {f g : ChallengeEntry → ChallengeEntry}

/-! ### Identifiers -/

/-- The identifiers of the entries, in their order. -/
def identifiers (c : ChallengeSet) : List String := c.entries.map (·.identifier)

theorem get?_eq_none_iff : c.get? id = none ↔ id ∉ c.identifiers := by
  simp [get?, identifiers]

theorem isSome_get?_iff : (c.get? id).isSome ↔ id ∈ c.identifiers := by
  simp [get?, identifiers]

theorem identifier_of_get? (h : c.get? id = some e) : e.identifier = id := by
  simpa using List.find?_some h

theorem exists_get? (h : id ∈ c.identifiers) :
    ∃ e ∈ c.entries, e.identifier = id ∧ c.get? id = some e := by
  obtain ⟨e, he⟩ := Option.isSome_iff_exists.mp (isSome_get?_iff.mpr h)
  exact ⟨e, List.mem_of_find?_eq_some he, identifier_of_get? he, he⟩

theorem map_modifyFirst {α : Type} (g : ChallengeEntry → α) {p : ChallengeEntry → Bool}
    (h : ∀ e, p e = true → g (f e) = g e) :
    ∀ es, (modifyFirst p f es).map g = es.map g
  | [] => rfl
  | e :: es => by
    rw [modifyFirst]
    split
    · rename_i hp
      rw [List.map_cons, List.map_cons, h e hp]
    · rw [List.map_cons, List.map_cons, map_modifyFirst g h es]

/-- Edits that keep identifiers keep their order. -/
theorem identifiers_modify (h : ∀ e, e.identifier = id → (f e).identifier = id) :
    (c.modify id f).identifiers = c.identifiers := by
  refine map_modifyFirst _ (fun e he => ?_) _
  have he : e.identifier = id := by simpa using he
  rw [h e he, he]

@[simp] theorem identifiers_setStatus (id : String) (s : ChallengeStatus) :
    (c.setStatus id s).identifiers = c.identifiers :=
  identifiers_modify fun _ h => h

/-- The entry of another identifier is put at the end. -/
theorem entries_insert_of_not_mem (h : e.identifier ∉ c.identifiers) :
    (c.insert e).entries = c.entries ++ [e] := by
  rw [insert, get?_eq_none_iff.mpr h]
  rfl

/-- The entry of an identifier in the set takes the place of the one that is there. -/
theorem insert_of_mem (h : e.identifier ∈ c.identifiers) :
    c.insert e = c.modify e.identifier fun _ => e := by
  rw [insert, if_pos (isSome_get?_iff.mpr h)]

/-- A new identifier comes last, and the others stay where they are. -/
theorem identifiers_insert :
    (c.insert e).identifiers =
      if e.identifier ∈ c.identifiers then c.identifiers else c.identifiers ++ [e.identifier] := by
  split
  · next h => rw [insert_of_mem h, identifiers_modify fun _ _ => rfl]
  · next h => rw [identifiers, entries_insert_of_not_mem h, List.map_append, List.map_singleton,
      identifiers]

/-- The identifiers in a set are those from before and that of the entry that was put in. -/
theorem mem_identifiers_insert :
    id ∈ (c.insert e).identifiers ↔ id ∈ c.identifiers ∨ id = e.identifier := by
  rw [identifiers_insert]
  split
  · next h => exact ⟨.inl, fun h' => h'.elim (fun h' => h') fun h' => h' ▸ h⟩
  · simp

@[simp] theorem identifiers_advanceAll (old new : ChallengeStatus) :
    (c.advanceAll old new).identifiers = c.identifiers := by
  rw [identifiers, advanceAll, List.map_map]
  refine List.map_congr_left fun e _ => ?_
  simp only [Function.comp_apply]
  split <;> rfl

theorem nodup_identifiers_insert (h : c.identifiers.Nodup) : (c.insert e).identifiers.Nodup := by
  rw [identifiers_insert]
  split
  · exact h
  · next hnew => exact List.nodup_append.mpr ⟨h, List.nodup_singleton _, fun a ha b hb hab =>
      hnew (List.mem_singleton.mp hb ▸ hab ▸ ha)⟩

/-! ### Keys -/

/-- The keys of the slots of the records, in the order of the entries. -/
def keys (c : ChallengeSet) : List SlotKey := c.entries.map (·.key)

@[simp] theorem keys_setStatus (id : String) (s : ChallengeStatus) :
    (c.setStatus id s).keys = c.keys :=
  map_modifyFirst (fun e => e.key) (by intro _ _; rfl) c.entries

@[simp] theorem keys_markInvalid (id error : String) : (c.markInvalid id error).keys = c.keys :=
  map_modifyFirst (fun e => e.key) (by intro _ _; rfl) c.entries

/-! ### Entries -/

theorem find?_modifyFirst_self (keeps : ∀ e, e.identifier = id → (f e).identifier = id) :
    ∀ es, (modifyFirst (·.identifier == id) f es).find? (·.identifier == id) =
      (es.find? (·.identifier == id)).map f
  | [] => rfl
  | e :: es => by
    by_cases h : e.identifier = id
    · simp [modifyFirst, h, keeps e h]
    · simp [modifyFirst, h, find?_modifyFirst_self keeps es]

theorem find?_modifyFirst_of_ne {id' : String} (hne : id' ≠ id)
    (keeps : ∀ e, e.identifier = id → (f e).identifier = id) :
    ∀ es, (modifyFirst (·.identifier == id) f es).find? (·.identifier == id') =
      es.find? (·.identifier == id')
  | [] => rfl
  | e :: es => by
    by_cases h : e.identifier = id
    · simp [modifyFirst, h, keeps e h, Ne.symm hne]
    · simp [modifyFirst, h, List.find?_cons, find?_modifyFirst_of_ne hne keeps es]

/-- A lookup says no more of a function than what it does to entries of the identifier. -/
theorem map_get?_congr (h : ∀ e, e.identifier = id → f e = g e) :
    (c.get? id).map f = (c.get? id).map g :=
  Option.map_congr fun e he => h e (identifier_of_get? he)

/-- A change of one entry is seen under its identifier and nowhere else. -/
theorem get?_modify {id' : String} (keeps : ∀ e, e.identifier = id → (f e).identifier = id) :
    (c.modify id f).get? id' =
      (c.get? id').map fun e => if e.identifier = id then f e else e := by
  by_cases h : id' = id
  · subst h
    rw [get?, modify, find?_modifyFirst_self keeps]
    exact map_get?_congr fun e he => (if_pos he).symm
  · calc (c.modify id f).get? id' = c.get? id' := find?_modifyFirst_of_ne h keeps _
      _ = (c.get? id').map fun e => e := Option.map_id'.symm
      _ = _ := map_get?_congr fun e he => (if_neg fun he' => h (he.symm.trans he')).symm

theorem get?_advanceAll (old new : ChallengeStatus) :
    (c.advanceAll old new).get? id =
      (c.get? id).map fun e => if e.status = old then { e with status := new } else e := by
  rw [get?, advanceAll, List.find?_map, get?]
  congr 2
  funext e
  rw [Function.comp_apply]
  split <;> rfl

@[simp] theorem get?_insert_self : (c.insert e).get? e.identifier = some e := by
  by_cases h : e.identifier ∈ c.identifiers
  · obtain ⟨x, -, hid, hx⟩ := exists_get? h
    rw [insert_of_mem h, get?_modify fun _ _ => rfl, hx, Option.map_some, if_pos hid]
  · rw [get?, entries_insert_of_not_mem h, List.find?_append,
      show c.entries.find? (·.identifier == e.identifier) = none from get?_eq_none_iff.mpr h]
    simp

theorem get?_insert_of_ne (hne : id ≠ e.identifier) : (c.insert e).get? id = c.get? id := by
  by_cases h : e.identifier ∈ c.identifiers
  · rw [insert_of_mem h]
    exact find?_modifyFirst_of_ne hne (fun _ _ => rfl) _
  · rw [get?, entries_insert_of_not_mem h, List.find?_append, get?]
    simp [Ne.symm hne]

/-- Entries stand under their identifiers if these are distinct. -/
theorem map_some_entries (h : c.identifiers.Nodup) :
    c.entries.map some = c.identifiers.map c.get? := by
  rw [identifiers, List.map_map]
  refine List.map_congr_left fun e he => ?_
  obtain ⟨x, hmem, hid, hx⟩ := exists_get? (List.mem_map_of_mem he : e.identifier ∈ c.identifiers)
  rw [Function.comp_apply, hx, List.inj_on_of_nodup_map h hmem he hid]

theorem modifyFirst_of_forall_not {p : ChallengeEntry → Bool} :
    ∀ {es : List ChallengeEntry}, (∀ e ∈ es, ¬ p e = true) → modifyFirst p f es = es
  | [], _ => rfl
  | e :: es, h => by
    obtain ⟨he, hes⟩ := List.forall_mem_cons.mp h
    rw [modifyFirst, if_neg he, modifyFirst_of_forall_not hes]

/-- Nothing happens under an identifier that is not there. -/
theorem modify_of_get?_eq_none (h : c.get? id = none) : c.modify id f = c :=
  congrArg ChallengeSet.mk (modifyFirst_of_forall_not (List.find?_eq_none.mp h))

/-! ### Summaries -/

/-- Every entry is counted under one status. -/
theorem count_add : c.count .notStarted + c.count .provisioned + c.count .validating +
    c.count .valid + c.count .invalid = c.size := by
  obtain ⟨es⟩ := c
  simp only [count, size]
  induction es with
  | nil => rfl
  | cons e es ih =>
    cases h : e.status <;> simp [h] <;> omega

theorem allValid_iff : c.allValid = true ↔ c.entries ≠ [] ∧ c.count .valid = c.size := by
  simp [allValid, isEmpty, count, size, List.countP_eq_length]

theorem firstInvalid?_eq_some_iff {x : ChallengeEntry} :
    c.firstInvalid? = some x ↔ x.status = .invalid ∧
      ∃ before after, c.entries = before ++ x :: after ∧ ∀ y ∈ before, y.status ≠ .invalid := by
  simp [firstInvalid?, List.find?_eq_some_iff_append]

theorem firstInvalid?_eq_none_iff : c.firstInvalid? = none ↔ c.count .invalid = 0 := by
  simp [firstInvalid?, count, List.countP_eq_zero]

end ChallengeSet

/-! ### Edits and what they leave -/

/-- An edit of a challenge set. An entry that is changed in its place keeps its identifier. -/
inductive ChallengeEdit
  | insert (e : ChallengeEntry)
  | setStatus (id : String) (s : ChallengeStatus)
  | markInvalid (id error : String)
  | advanceAll (old new : ChallengeStatus)
  | modify (id : String) (f : ChallengeEntry → ChallengeEntry)
      (keeps : ∀ e, e.identifier = id → (f e).identifier = id)

namespace ChallengeEdit

/-- What an edit makes of a set. -/
def apply (edit : ChallengeEdit) (c : ChallengeSet) : ChallengeSet :=
  match edit with
  | insert e => c.insert e
  | setStatus id s => c.setStatus id s
  | markInvalid id error => c.markInvalid id error
  | advanceAll old new => c.advanceAll old new
  | modify id f _ => c.modify id f

/-- The identifier of the entry that an edit puts in. -/
def inserted? : ChallengeEdit → Option String
  | insert e => some e.identifier
  | _ => none

/-- What an edit makes of an entry that it does not replace. -/
def revise (edit : ChallengeEdit) (e : ChallengeEntry) : ChallengeEntry :=
  match edit with
  | insert _ => e
  | setStatus id s => if e.identifier = id then { e with status := s } else e
  | markInvalid id error =>
    if e.identifier = id then { e with status := .invalid, error := some error } else e
  | advanceAll old new => if e.status = old then { e with status := new } else e
  | modify id f _ => if e.identifier = id then f e else e

end ChallengeEdit

/-- What many edits, none of which replaces it, make of an entry. -/
def ChallengeEntry.reviseAll (e : ChallengeEntry) (edits : List ChallengeEdit) : ChallengeEntry :=
  edits.foldl (fun e edit => edit.revise e) e

/-- What a history leaves under an identifier: the entry last put in for it, with all edits that
came after it. -/
def ChallengeEdit.Leaves (history : List ChallengeEdit) (id : String) (x : ChallengeEntry) : Prop :=
  ∃ earlier e later, history = earlier ++ .insert e :: later ∧ e.identifier = id ∧
    (∀ edit ∈ later, edit.inserted? ≠ some id) ∧ x = e.reviseAll later

namespace ChallengeSet

variable {c : ChallengeSet} {e : ChallengeEntry} {id : String} {edit : ChallengeEdit}
  {edits earlier later : List ChallengeEdit}

/-- A set after many edits, the first one first. -/
def applyAll (c : ChallengeSet) (edits : List ChallengeEdit) : ChallengeSet :=
  edits.foldl (fun c edit => edit.apply c) c

theorem applyAll_cons : c.applyAll (edit :: edits) = (edit.apply c).applyAll edits := rfl

theorem applyAll_append : c.applyAll (earlier ++ later) = (c.applyAll earlier).applyAll later :=
  List.foldl_append

theorem applyAll_concat : c.applyAll (edits ++ [edit]) = edit.apply (c.applyAll edits) :=
  applyAll_append

/-- An entry that is put in is the only thing that changes which identifiers there are. -/
theorem identifiers_apply_of_none (h : edit.inserted? = none) :
    (edit.apply c).identifiers = c.identifiers := by
  cases edit with
  | insert e => cases h
  | setStatus id s => exact identifiers_setStatus id s
  | markInvalid id error => exact identifiers_modify fun _ h => h
  | advanceAll old new => exact identifiers_advanceAll old new
  | modify id f keeps => exact identifiers_modify keeps

/-- An edit keeps identifiers distinct. -/
theorem nodup_identifiers_apply (h : c.identifiers.Nodup) (edit : ChallengeEdit) :
    (edit.apply c).identifiers.Nodup := by
  cases hedit : edit.inserted? with
  | none => rwa [identifiers_apply_of_none hedit]
  | some id =>
    cases edit with
    | insert e => exact nodup_identifiers_insert h
    | _ => cases hedit

theorem nodup_identifiers_applyAll (h : c.identifiers.Nodup) (edits : List ChallengeEdit) :
    (c.applyAll edits).identifiers.Nodup := by
  induction edits generalizing c with
  | nil => exact h
  | cons edit edits ih => exact ih (nodup_identifiers_apply h edit)

theorem eraseDups_concat {α : Type} [BEq α] [LawfulBEq α] (l : List α) (a : α) :
    (l ++ [a]).eraseDups = if a ∈ l then l.eraseDups else l.eraseDups ++ [a] := by
  rw [List.eraseDups_append]
  split <;> simp [List.removeAll, List.eraseDups_cons, *]

/-- Identifiers stand in the order in which they were first put in. -/
theorem identifiers_applyAll (edits : List ChallengeEdit) :
    (applyAll {} edits).identifiers = (edits.filterMap (·.inserted?)).eraseDups := by
  -- the last edit may add an identifier behind those that the others left
  induction edits using List.reverseRecOn with
  | nil => rfl
  | append_singleton edits edit ih =>
    rw [applyAll_concat, List.filterMap_append]
    cases hedit : edit.inserted? with
    | none => simp [identifiers_apply_of_none hedit, hedit, ih]
    | some id =>
      cases edit with
      | insert e =>
        obtain rfl : e.identifier = id := Option.some.inj hedit
        rw [ChallengeEdit.apply, identifiers_insert, ih, List.filterMap_cons, hedit,
          List.filterMap_nil, eraseDups_concat]
        simp only [List.mem_eraseDups]
      | _ => cases hedit

/-- **One edit, seen through a lookup.** Unless it puts in an entry for the identifier, it revises
the entry that is there. -/
theorem get?_apply (h : edit.inserted? ≠ some id) :
    (edit.apply c).get? id = (c.get? id).map edit.revise := by
  cases edit with
  | insert e =>
    exact (get?_insert_of_ne fun hid => h (congrArg some hid.symm)).trans Option.map_id'.symm
  | setStatus id' s => exact get?_modify fun _ he => he
  | markInvalid id' error => exact get?_modify fun _ he => he
  | advanceAll old new => exact get?_advanceAll old new
  | modify id' f keeps => exact get?_modify keeps

/-- Many edits, seen through a lookup. -/
theorem get?_applyAll (h : ∀ edit ∈ edits, edit.inserted? ≠ some id) :
    (c.applyAll edits).get? id = (c.get? id).map (·.reviseAll edits) := by
  induction edits generalizing c with
  | nil => exact Option.map_id'.symm
  | cons edit edits ih =>
    rw [applyAll_cons, ih fun x hx => h x (List.mem_cons_of_mem _ hx),
      get?_apply (h edit List.mem_cons_self), Option.map_map]
    rfl

theorem get?_applyAll_of_leaves {x : ChallengeEntry} (h : ChallengeEdit.Leaves edits id x) :
    (c.applyAll edits).get? id = some x := by
  obtain ⟨earlier, e, later, rfl, rfl, hlater, rfl⟩ := h
  rw [applyAll_append, applyAll_cons, get?_applyAll hlater, ChallengeEdit.apply, get?_insert_self]
  rfl

/-- Under an identifier that was ever put in, a history leaves an entry. -/
theorem never_inserted_or_leaves : ∀ {edits : List ChallengeEdit},
    (∀ edit ∈ edits, edit.inserted? ≠ some id) ∨ ∃ x, ChallengeEdit.Leaves edits id x
  | [] => .inl nofun
  | edit :: edits => by
    obtain hnone | ⟨_, earlier, e, later, rfl, hleaves⟩ := @never_inserted_or_leaves edits
    · by_cases hedit : edit.inserted? = some id
      · cases edit with
        | insert e => exact .inr ⟨_, [], e, edits, rfl, Option.some.inj hedit, hnone, rfl⟩
        | _ => cases hedit
      · exact .inl (List.forall_mem_cons.mpr ⟨hedit, hnone⟩)
    · exact .inr ⟨_, edit :: earlier, e, later, rfl, hleaves⟩

/-- **A lookup finds what the history leaves.** -/
theorem get?_applyAll_eq_some_iff {x : ChallengeEntry} :
    (applyAll {} edits).get? id = some x ↔ ChallengeEdit.Leaves edits id x := by
  refine ⟨fun h => ?_, get?_applyAll_of_leaves⟩
  obtain hnone | ⟨y, hy⟩ := @never_inserted_or_leaves id edits
  · rw [get?_applyAll hnone] at h
    cases h
  · obtain rfl : y = x := Option.some.inj ((get?_applyAll_of_leaves hy).symm.trans h)
    exact hy

/-- **A challenge set is an ordered map.** After any number of edits of a new set: its identifiers
are distinct and in the order in which they were first put in, and its entries are those found
under them, in that order; under an identifier is found the entry last put in for it with all edits
that came after it, and nothing if there is none; an edit of an identifier that is not there changes
nothing; every entry is counted under one of the five statuses; all are valid exactly if there are
entries and so many of them count as valid; and the first invalid entry is the first one in that
order, which there is unless none counts as invalid. -/
theorem applyAll_ordered (edits : List ChallengeEdit) :
    let c : ChallengeSet := applyAll {} edits
    c.identifiers.Nodup ∧
    c.identifiers = (edits.filterMap (·.inserted?)).eraseDups ∧
    c.entries.map some = c.identifiers.map c.get? ∧
    (∀ id x, c.get? id = some x ↔ ChallengeEdit.Leaves edits id x) ∧
    (∀ id, c.get? id = none → (∀ s, c.setStatus id s = c) ∧
      (∀ error, c.markInvalid id error = c) ∧ ∀ f, c.modify id f = c) ∧
    c.count .notStarted + c.count .provisioned + c.count .validating + c.count .valid +
      c.count .invalid = c.size ∧
    (c.allValid = true ↔ c.entries ≠ [] ∧ c.count .valid = c.size) ∧
    (∀ x, c.firstInvalid? = some x ↔ x.status = .invalid ∧
      ∃ before after, c.entries = before ++ x :: after ∧ ∀ y ∈ before, y.status ≠ .invalid) ∧
    (c.firstInvalid? = none ↔ c.count .invalid = 0) := by
  have hnodup : (applyAll {} edits).identifiers.Nodup :=
    nodup_identifiers_applyAll (c := {}) List.nodup_nil edits
  exact ⟨hnodup, identifiers_applyAll edits, map_some_entries hnodup,
    fun _ _ => get?_applyAll_eq_some_iff,
    fun _ h => ⟨fun _ => modify_of_get?_eq_none h, fun _ => modify_of_get?_eq_none h,
      fun _ => modify_of_get?_eq_none h⟩,
    count_add, allValid_iff, fun _ => firstInvalid?_eq_some_iff, firstInvalid?_eq_none_iff⟩

/-- The challenge of a name, with a token. -/
def sampleChallenge (identifier token : String) : ChallengeEntry where
  identifier := identifier
  token := token
  keyAuthorization := token ++ ".thumbprint"
  url := "https://ca.example/challenge"

/-- An entry is put in again behind another one and marked as invalid, and a name that is not there
is said to be valid. -/
theorem applyAll_ordered_example_com :
    let earlier : List ChallengeEdit := [.insert (sampleChallenge "example.com" "t1"),
      .insert (sampleChallenge "www.example.com" "t2"), .advanceAll .notStarted .provisioned]
    let later : List ChallengeEdit := [.setStatus "www.example.com" .valid,
      .markInvalid "example.com" "no such record", .setStatus "mail.example.com" .valid]
    let c : ChallengeSet :=
      applyAll {} (earlier ++ .insert (sampleChallenge "example.com" "t3") :: later)
    let invalid : ChallengeEntry := { sampleChallenge "example.com" "t3" with
      status := .invalid, error := some "no such record" }
    c.identifiers = ["example.com", "www.example.com"] ∧ c.get? "example.com" = some invalid ∧
      c.markInvalid "mail.example.com" "no such name" = c ∧ c.firstInvalid? = some invalid := by
  intro earlier later c invalid
  obtain ⟨-, hidentifiers, -, hget, habsent, -, -, hinvalid, -⟩ := applyAll_ordered
    (earlier ++ .insert (sampleChallenge "example.com" "t3") :: later)
  refine ⟨hidentifiers.trans (by decide), ?_, (habsent "mail.example.com" rfl).2.1 _, ?_⟩
  · exact (hget _ _).mpr ⟨earlier, _, later, rfl, rfl, by decide, rfl⟩
  · exact (hinvalid _).mpr ⟨rfl, [], _, rfl, nofun⟩

end ChallengeSet

end CertSteward
