import CertSteward.Authority.Remote
import CertSteward.Proofs.Bytes.Base64
import CertSteward.Proofs.Json.RoundTrip
import CertSteward.Proofs.Store.Refinement
import Mathlib.Logic.Relation

/-!
# Where an account is

An account outlives the authority that made it: its credentials stay in the store, and whatever
authority is started on that store later, for whatever directory, loads the account from them.
Nothing compares the directory that the credentials record with the one that is configured. So
what can be said of an account that was ensured is that it is at the directory of the credentials,
and that this is the configured one exactly if the credentials, where there are any, say so.

## Main definitions

* `AuthorityClient.IsFaithful` — an account is where its credentials say, a new one where it is made
* `RecordStore.credentials?` — the credentials in a store, as far as they can be read
* `RemoteAuthority.Ensures` — everything that ensuring an account can come to
* `RemoteAuthority.Step`, `RemoteAuthority.History` — authorities one after the other on one store

## Main results

* `AccountCredentials.ofText?_pretty` — credentials are read back
* `RemoteAuthority.ensures` — ensuring an account comes to one of the four
* `RemoteAuthority.Step.keeps` — no step takes an account away from its credentials
* `RemoteAuthority.directory_of_ensured` — where the account is after any history
-/

namespace CertSteward

/-! ### Credentials are read back -/

namespace AccountCredentials

/-- Credentials that leave the locations to the directory are read back from what is kept. -/
theorem ofText?_pretty {c : AccountCredentials} (h : c.urls = none) :
    ofText? c.toJson.pretty = some c := by
  obtain ⟨id, key, directory, urls⟩ := c
  obtain rfl : urls = none := h
  have hfits : Json.Fits Json.maxLevels
      (toJson { id, key, directory, urls := none }) := by
    refine .object ?_
    simp only [Option.elim_none, List.append_nil, List.forall_mem_cons, List.not_mem_nil,
      false_implies, implies_true, and_true]
    refine ⟨.string _ _, .string _ _, ?_⟩
    cases directory with
    | none => exact .null _
    | some d => exact .string _ _
  rw [ofText?, hfits.parse?_pretty]
  simp only [Option.bind_eq_bind, Option.bind_some, toJson, Option.elim_none, List.append_nil,
    Json.fields?, List.contains_eq_mem]
  cases directory <;>
    simp [Json.optional, Json.string?, Json.fieldOr?, List.lookup_cons, Base64.decodeUrl?_encodeUrl]

end AccountCredentials

/-! ### What a saved account leaves in a store -/

/-- Whoever could write a file had a directory to write it in. -/
theorem FileTree.isDirectory_of_write {t t' : FileTree} {d : FilePath} {x : String}
    {content : List UInt8} (h : t.write (d ++ [x]) content = .ok t') : t.IsDirectory d := by
  rw [write] at h
  split at h
  · next hfile =>
    obtain ⟨e, hd, hdir⟩ := exists_locate_of_append hfile
    exact ⟨e, hd, hdir (by simp)⟩
  · cases h
  · rw [insertNew, List.dropLast_concat] at h
    split at h
    · next hd => exact ⟨_, hd, rfl⟩
    all_goals cases h
  · cases h

namespace FileStore

open FileTree FileStep

/-- A saved account is there. One that could not be saved may be there as well, or nothing has
changed. -/
theorem account_saveAccount (s : FileStore) (text : String) :
    (s.saveAccount text).2.account = .ok (some text) ∨
      (∃ e, (s.saveAccount text).1 = .error e) ∧ (s.saveAccount text).2.account = s.account := by
  have hread : ∀ {t mode}, t.IsDirectory s.base →
      t.entries.lookup s.accountPath = some (.file (Utf8.encode text) mode) →
      ({ s with tree := t } : FileStore).account = .ok (some text) := by
    intro t mode hbase hentry
    rw [FileStore.account]
    change (t.readText? (s.base ++ ["credentials.json"])).mapError StoreError.file = _
    rw [hbase.readText?_file isName_account hentry]
    rfl
  simp only [saveAccount, runAll, run]
  cases hwrite : s.tree.write s.accountPath (Utf8.encode text) with
  | error fault => exact .inr ⟨⟨_, rfl⟩, rfl⟩
  | ok t =>
    obtain ⟨mode, hsets⟩ := sets_of_write hwrite
    have hbase : t.IsDirectory s.base :=
      (isDirectory_of_write hwrite).congr (hsets.locate (not_below_itself _ _))
    simp only
    cases hrestrict : t.restrict s.accountPath ownFile with
    | error fault => exact .inl (hread hbase hsets.self)
    | ok t' =>
      have hsets' := sets_of_restrict hrestrict
      rw [hsets.self] at hsets'
      exact .inl (hread (hbase.congr (hsets'.locate (not_below_itself _ _))) hsets'.self)

end FileStore

namespace RecordStore

theorem account_saveAccount (s : RecordStore) (text : String) :
    (s.saveAccount text).2.account = .ok (some text) ∨
      (∃ e, (s.saveAccount text).1 = .error e) ∧ (s.saveAccount text).2.account = s.account := by
  cases s with
  | memory s => exact .inl rfl
  | files s => exact s.account_saveAccount text

/-- The credentials in a store, as far as there are any that can be read. -/
def credentials? (s : RecordStore) : Option AccountCredentials :=
  match s.account with
  | .ok (some text) => AccountCredentials.ofText? text
  | _ => none

theorem credentials?_eq_of_account {s s' : RecordStore} (h : s'.account = s.account) :
    s'.credentials? = s.credentials? := by
  rw [credentials?, credentials?, h]

theorem credentials?_of_account {s : RecordStore} {c : AccountCredentials}
    (h : s.account = .ok (some c.toJson.pretty)) (hurls : c.urls = none) :
    s.credentials? = some c := by
  rw [credentials?, h]
  exact AccountCredentials.ofText?_pretty hurls

end RecordStore

/-! ### Ensuring an account -/

/-- What is relied on in a client: an account that is loaded is at the directory that its
credentials record, and a new one at the directory where it is made, which its credentials
record. -/
structure AuthorityClient.IsFaithful (client : AuthorityClient) : Prop where
  load : ∀ {n c account}, client n (.load c) = .ok account → account.directory = c.directory
  create : ∀ {n contact d account c}, client n (.create contact d) = .ok (account, c) →
    account.directory = some d ∧ c.directory = some d ∧ c.urls = none

namespace RemoteAuthority

variable {client : AuthorityClient} {a a' : RemoteAuthority} {s s' : RecordStore}

/-- Everything that ensuring an account can come to, with the authority and the store after it. -/
inductive Ensures (a : RemoteAuthority) (s : RecordStore) :
    Except IssuanceError RemoteAccount × RemoteAuthority × RecordStore → Prop
  /-- The account is there. -/
  | kept {account : RemoteAccount} (h : a.account = some account) : Ensures a s (.ok account, a, s)
  /-- The account is loaded, wherever it is. -/
  | loaded {account : RemoteAccount} {c : AccountCredentials} (h : a.account = none)
    (stored : s.credentials? = some c) (place : account.directory = c.directory)
    {a' : RemoteAuthority} (directory : a'.directory = a.directory)
    (installed : a'.account = some account) : Ensures a s (.ok account, a', s)
  /-- An account is made where the configuration says. -/
  | made {account : RemoteAccount} {c : AccountCredentials} (h : a.account = none)
    (nothing : s.account = .ok none) (place : account.directory = some a.directory)
    (recorded : c.directory = some a.directory)
    {a' : RemoteAuthority} (directory : a'.directory = a.directory)
    (installed : a'.account = some account)
    {s' : RecordStore} (stored : s'.credentials? = some c) : Ensures a s (.ok account, a', s')
  /-- There is no account; the credentials of one that was made may be in the store. -/
  | failed {e : IssuanceError} (h : a.account = none)
    {a' : RemoteAuthority} (directory : a'.directory = a.directory) (missing : a'.account = none)
    {s' : RecordStore} (store : s'.account = s.account ∨ s.account = .ok none ∧
      ∃ c, s'.credentials? = some c ∧ c.directory = some a.directory) :
    Ensures a s (.error e, a', s')

theorem run_call (client : AuthorityClient) (operation : String) (c : ClientCall)
    (a : RemoteAuthority) (s : RecordStore) :
    (call client operation c).run (a, s) =
      ((client a.calls c).mapError (·.toIssuance operation),
        { a with calls := a.calls + 1 }, s) := by
  simp only [call]
  change (_ : Call c.Value).run ({ a with calls := a.calls + 1 }, s) = _
  cases client a.calls c <;> rfl

theorem run_bind {α β : Type} (x : Call α) (f : α → Call β) (σ : RemoteAuthority × RecordStore) :
    (x >>= f).run σ =
      match x.run σ with
      | (.ok v, σ) => (f v).run σ
      | (.error e, σ) => (.error e, σ) := by
  change (match x.run σ with | (r, σ) => ExceptT.bindCont f r σ) = _
  rcases x.run σ with ⟨_ | _, _⟩ <;> rfl

/-- Keeps an account that was made in the store, and then installs it. -/
def keep (account : RemoteAccount) (c : AccountCredentials) : Call RemoteAccount := do
  let (a, store) ← get
  let (saved, store) := store.saveAccount c.toJson.pretty
  set (a, store)
  match saved with
  | .error e => throw (.accountStorage e.message)
  | .ok () =>
    set ({ a with account := some account }, store)
    return account

theorem run_keep (account : RemoteAccount) (c : AccountCredentials) (a : RemoteAuthority)
    (s : RecordStore) :
    (keep account c).run (a, s) =
      match s.saveAccount c.toJson.pretty with
      | (.error e, s) => (.error (.accountStorage e.message), a, s)
      | (.ok (), s) => (.ok account, { a with account := some account }, s) := by
  have hrun : ∀ p, s.saveAccount c.toJson.pretty = p → (keep account c).run (a, s) =
      (match p.1 with
      | .error e => throw (.accountStorage e.message)
      | .ok () => do
        set ({ a with account := some account }, p.2)
        return account : Call RemoteAccount).run (a, p.2) := by
    rintro p rfl
    rfl
  rw [hrun _ rfl]
  rcases s.saveAccount c.toJson.pretty with ⟨_ | _, _⟩ <;> rfl

/-- **Ensuring an account** comes to one of these. -/
theorem ensures (hclient : client.IsFaithful) (a : RemoteAuthority) (s : RecordStore) :
    Ensures a s ((ensureAccount client).run (a, s)) := by
  have hget : (get : Call (RemoteAuthority × RecordStore)).run (a, s) = (.ok (a, s), (a, s)) := rfl
  rw [ensureAccount, run_bind, hget]
  simp only
  cases haccount : a.account with
  | some account => exact .kept haccount
  | none =>
    -- the authority after the one call that is made
    obtain ⟨a', hcounted, hdirectory, hnone⟩ : ∃ a' : RemoteAuthority,
        { a with calls := a.calls + 1 } = a' ∧ a'.directory = a.directory ∧ a'.account = none :=
      ⟨_, rfl, rfl, haccount⟩
    simp only
    cases hstored : s.account with
    | error e => exact .failed haccount rfl haccount (.inl rfl)
    | ok stored =>
      cases stored with
      | some text =>
        simp only
        cases hread : AccountCredentials.ofText? text with
        | none => exact .failed haccount rfl haccount (.inl rfl)
        | some c =>
          have hc : s.credentials? = some c := by
            rw [RecordStore.credentials?, hstored]
            exact hread
          simp only
          rw [run_bind, run_call, hcounted]
          cases hload : client a.calls (.load c) with
          | error fault => exact .failed haccount hdirectory hnone (.inl rfl)
          | ok account => exact .loaded haccount hc (hclient.load hload) hdirectory rfl
      | none =>
        simp only
        rw [run_bind, run_call, hcounted]
        cases hmake : client a.calls (.create a.contact a.directory) with
        | error fault => exact .failed haccount hdirectory hnone (.inl rfl)
        | ok made =>
          obtain ⟨account, c⟩ := made
          obtain ⟨hplace, hrecorded, hurls⟩ := hclient.create hmake
          change Ensures a s ((keep account c).run (a', s))
          rw [run_keep]
          have hsaved := s.account_saveAccount c.toJson.pretty
          generalize s.saveAccount c.toJson.pretty = saved at hsaved ⊢
          obtain ⟨_ | _, s'⟩ := saved
          · refine .failed haccount hdirectory hnone ?_
            obtain hstored' | ⟨-, hsame⟩ := hsaved
            · exact .inr ⟨hstored, c, RecordStore.credentials?_of_account hstored' hurls, hrecorded⟩
            · exact .inl hsame
          · obtain hstored' | ⟨⟨e, he⟩, -⟩ := hsaved
            · have hinstalled : { a' with account := some account }.directory = a.directory :=
                hdirectory
              exact .made haccount hstored hplace hrecorded hinstalled rfl
                (RecordStore.credentials?_of_account hstored' hurls)
            · cases he

/-! ### Serving -/

/-- That the account, where it is and the stored account are the same as before. -/
structure SameAccount (σ σ' : RemoteAuthority × RecordStore) : Prop where
  account : σ'.1.account = σ.1.account
  directory : σ'.1.directory = σ.1.directory
  stored : σ'.2.account = σ.2.account

theorem SameAccount.trans {σ₁ σ₂ σ₃ : RemoteAuthority × RecordStore} (h : SameAccount σ₁ σ₂)
    (h' : SameAccount σ₂ σ₃) : SameAccount σ₁ σ₃ where
  account := h'.account.trans h.account
  directory := h'.directory.trans h.directory
  stored := h'.stored.trans h.stored

/-- That a computation leaves the account alone. -/
def LeavesAccount {α : Type} (x : Call α) : Prop := ∀ σ, SameAccount σ (x.run σ).2

section Leaves

variable {α β : Type} {x : Call α} {f : α → Call β}

theorem leavesAccount_pure (v : α) : LeavesAccount (pure v : Call α) := fun _ => ⟨rfl, rfl, rfl⟩

theorem leavesAccount_call (operation : String) (c : ClientCall) :
    LeavesAccount (call client operation c) := by
  rintro ⟨a, s⟩
  rw [run_call]
  exact ⟨rfl, rfl, rfl⟩

/-- What follows a computation and leaves the account alone. -/
theorem sameAccount_bind (hf : ∀ v, LeavesAccount (f v)) (σ : RemoteAuthority × RecordStore) :
    SameAccount (x.run σ).2 ((x >>= f).run σ).2 := by
  rw [run_bind]
  rcases x.run σ with ⟨_ | v, σ'⟩
  · exact ⟨rfl, rfl, rfl⟩
  · exact hf v σ'

theorem LeavesAccount.bind (hx : LeavesAccount x) (hf : ∀ v, LeavesAccount (f v)) :
    LeavesAccount (x >>= f) := fun σ => (hx σ).trans (sameAccount_bind hf σ)

end Leaves

theorem leavesAccount_location (o : OrderHandle) : LeavesAccount (location o) := by
  rintro ⟨a, s⟩
  rw [location, run_bind]
  change SameAccount (a, s) ((_ : Call String).run (a, s)).2
  cases a.orders.lookup o.id <;> exact ⟨rfl, rfl, rfl⟩

/-- Every request leaves the account alone, or first ensures it and then leaves it alone. -/
theorem sameAccount_serve (client : AuthorityClient) (r : AuthorityRequest)
    (σ : RemoteAuthority × RecordStore) : SameAccount σ ((serve client r).run σ).2 ∨
      SameAccount ((ensureAccount client).run σ).2 ((serve client r).run σ).2 := by
  cases r with
  | ensureAccount =>
    rw [serve]
    exact .inr (sameAccount_bind (fun _ => leavesAccount_pure _) σ)
  | newOrder identifiers =>
    rw [serve]
    refine .inr (sameAccount_bind (fun account => ?_) σ)
    exact (leavesAccount_call _ _).bind fun place _ => ⟨rfl, rfl, rfl⟩
  | revoke der reason =>
    rw [serve]
    refine .inr (sameAccount_bind (fun account => ?_) σ)
    exact leavesAccount_call _ _
  | authorizations o =>
    rw [serve]
    refine .inl ((leavesAccount_location o).bind (fun l => ?_) σ)
    exact (leavesAccount_call _ _).bind fun found => leavesAccount_pure _
  | challengeReady o url =>
    rw [serve]
    refine .inl ((leavesAccount_location o).bind (fun l => ?_) σ)
    exact leavesAccount_call _ _
  | orderState o =>
    rw [serve]
    refine .inl ((leavesAccount_location o).bind (fun l => ?_) σ)
    exact leavesAccount_call _ _
  | finalize o request =>
    rw [serve]
    refine .inl ((leavesAccount_location o).bind (fun l => ?_) σ)
    exact leavesAccount_call _ _
  | certificate o =>
    rw [serve]
    refine .inl ((leavesAccount_location o).bind (fun l => ?_) σ)
    exact leavesAccount_call _ _
  | release o => exact .inl ⟨rfl, rfl, rfl⟩

/-! ### Authorities on one store, one after the other -/

/-- What happens on a store: an authority is started, for whatever directory; it serves a request;
the store changes without the account. -/
inductive Step : RemoteAuthority × RecordStore → RemoteAuthority × RecordStore → Prop
  | start (a : RemoteAuthority) (s : RecordStore) (directory : String) (email : Option String) :
    Step (a, s) (make directory email, s)
  | serve (a : RemoteAuthority) (s : RecordStore) {client : AuthorityClient}
    (hclient : client.IsFaithful) (r : AuthorityRequest) : Step (a, s) (answer client a s r).2
  | records (a : RemoteAuthority) {s s' : RecordStore} (h : s'.account = s.account) :
    Step (a, s) (a, s')

/-- Any number of such steps. -/
abbrev History : RemoteAuthority × RecordStore → RemoteAuthority × RecordStore → Prop :=
  Relation.ReflTransGen Step

/-- That the account, if there is one, is where the stored credentials say. -/
def Settled (σ : RemoteAuthority × RecordStore) : Prop :=
  ∀ account ∈ σ.1.account, ∃ c ∈ σ.2.credentials?, account.directory = c.directory

variable {σ σ' : RemoteAuthority × RecordStore}

theorem SameAccount.settled (h : SameAccount σ σ') (hσ : Settled σ) : Settled σ' := by
  rw [Settled, h.account, RecordStore.credentials?_eq_of_account h.stored]
  exact hσ

/-- An account that was ensured is installed, where the stored credentials say. -/
theorem Ensures.settled {result : Except IssuanceError RemoteAccount}
    (h : Ensures a s (result, σ')) (hσ : Settled (a, s)) : Settled σ' := by
  cases h with
  | kept h => exact hσ
  | loaded h stored place directory installed =>
    rintro account haccount
    rw [Option.mem_def, installed, Option.some_inj] at haccount
    exact ⟨_, stored, haccount ▸ place⟩
  | made h nothing place recorded directory installed stored =>
    rintro account haccount
    rw [Option.mem_def, installed, Option.some_inj] at haccount
    exact ⟨_, stored, by rw [← haccount, place, recorded]⟩
  | failed h directory missing store =>
    rintro account haccount
    rw [Option.mem_def, missing] at haccount
    cases haccount

/-- Credentials that can be read are never replaced. -/
theorem Ensures.credentials? {result : Except IssuanceError RemoteAccount}
    (h : Ensures a s (result, σ')) {c : AccountCredentials} (hc : c ∈ s.credentials?) :
    c ∈ σ'.2.credentials? := by
  have hsome : s.account ≠ .ok none := by
    intro hnone
    rw [RecordStore.credentials?, hnone] at hc
    cases hc
  cases h with
  | kept h => exact hc
  | loaded h stored place directory installed => exact hc
  | made h nothing => exact absurd nothing hsome
  | failed h directory missing store =>
    obtain hsame | ⟨hnone, -⟩ := store
    · rwa [RecordStore.credentials?_eq_of_account hsame]
    · exact absurd hnone hsome

/-- The first credentials in a store record the directory that is configured. -/
theorem Ensures.first {result : Except IssuanceError RemoteAccount}
    (h : Ensures a s (result, σ')) (hnone : s.account = .ok none) :
    σ'.2.account = .ok none ∨ ∃ c ∈ σ'.2.credentials?, c.directory = some a.directory := by
  cases h with
  | kept h => exact .inl hnone
  | loaded h stored place directory installed => exact .inl hnone
  | made h nothing place recorded directory installed stored => exact .inr ⟨_, stored, recorded⟩
  | failed h directory missing store =>
    obtain hsame | ⟨-, c, hc, hplace⟩ := store
    · exact .inl (hsame.trans hnone)
    · exact .inr ⟨c, hc, hplace⟩

/-- **No step takes an account away from its credentials.** -/
theorem Step.settled (h : Step σ σ') (hσ : Settled σ) : Settled σ' := by
  cases h with
  | start a s directory email => rintro account ⟨⟩
  | serve a s hclient r =>
    obtain hsame | hsame := sameAccount_serve _ r (a, s)
    · exact hsame.settled hσ
    · exact hsame.settled ((ensures hclient a s).settled hσ)
  | @records a s s' h =>
    have hsame : SameAccount (a, s) (a, s') := ⟨rfl, rfl, h⟩
    exact hsame.settled hσ

theorem Step.credentials? (h : Step σ σ') {c : AccountCredentials} (hc : c ∈ σ.2.credentials?) :
    c ∈ σ'.2.credentials? := by
  cases h with
  | start a s directory email => exact hc
  | serve a s hclient r =>
    obtain hsame | hsame := sameAccount_serve _ r (a, s)
    · rwa [answer, RecordStore.credentials?_eq_of_account hsame.stored]
    · rw [answer, RecordStore.credentials?_eq_of_account hsame.stored]
      exact (ensures hclient a s).credentials? hc
  | records a h => rwa [RecordStore.credentials?_eq_of_account h]

theorem Step.first (h : Step σ σ') (hnone : σ.2.account = .ok none) :
    σ'.2.account = .ok none ∨ ∃ c ∈ σ'.2.credentials?, c.directory = some σ.1.directory := by
  cases h with
  | start a s directory email => exact .inl hnone
  | serve a s hclient r =>
    obtain hsame | hsame := sameAccount_serve _ r (a, s)
    · exact .inl (hsame.stored.trans hnone)
    · rw [answer, RecordStore.credentials?_eq_of_account hsame.stored, hsame.stored]
      exact (ensures hclient a s).first hnone
  | records a h => exact .inl (h.trans hnone)

/-- After any history the account is where the stored credentials say. -/
theorem History.settled (h : History σ σ') (hσ : Settled σ) : Settled σ' := by
  induction h with
  | refl => exact hσ
  | tail _ hstep ih => exact hstep.settled ih

/-- Credentials stay in the store for good. -/
theorem History.credentials? (h : History σ σ') {c : AccountCredentials}
    (hc : c ∈ σ.2.credentials?) : c ∈ σ'.2.credentials? := by
  induction h with
  | refl => exact hc
  | tail _ hstep ih => exact hstep.credentials? ih

/-- The credentials in a store that had none record the directory that was configured when they
were made. -/
theorem History.first (h : History σ σ') (hnone : σ.2.account = .ok none) :
    σ'.2.account = .ok none ∨ ∃ τ, History σ τ ∧ τ.2.account = .ok none ∧ History τ σ' ∧
      ∃ c ∈ σ'.2.credentials?, c.directory = some τ.1.directory := by
  induction h with
  | refl => exact .inl hnone
  | tail hhistory hstep ih =>
    obtain hstill | ⟨τ, hτ, hnothing, hsince, c, hc, hplace⟩ := ih
    · obtain hstill' | hmade := hstep.first hstill
      · exact .inl hstill'
      · exact .inr ⟨_, hhistory, hstill, .single hstep, hmade⟩
    · exact .inr ⟨τ, hτ, hnothing, hsince.tail hstep, c, hstep.credentials? hc, hplace⟩

/-! ### Where the account is -/

theorem settled_of_account (h : a.account = none) : Settled (a, s) := by
  rintro account haccount
  rw [Option.mem_def, h] at haccount
  cases haccount

/-- An account that was ensured is the installed one. -/
theorem Ensures.installed {account : RemoteAccount} (h : Ensures a s (.ok account, σ)) :
    σ.1.account = some account := by
  cases h with
  | kept h => exact h
  | loaded h stored place directory installed => exact installed
  | made h nothing place recorded directory installed stored => exact installed

/-- An account that was ensured is where the credentials say that were stored before, and where the
configuration says if nothing was stored. -/
theorem Ensures.place {account : RemoteAccount} (h : Ensures a s (.ok account, σ))
    (hsettled : Settled (a, s)) :
    (∃ c ∈ s.credentials?, account.directory = c.directory) ∨
      s.account = .ok none ∧ account.directory = some a.directory := by
  cases h with
  | kept h => exact .inl (hsettled account h)
  | loaded h stored place directory installed => exact .inl ⟨_, stored, place⟩
  | made h nothing place recorded directory installed stored => exact .inr ⟨nothing, place⟩

/-- **Where an account is.** Take any history of authorities on a store, and an account that the
last of them ensures. It is installed. It is at the configured directory exactly if the stored
credentials, if there are any, record that directory. It is where the credentials say that were
there at the beginning, whatever was configured since; and where nothing was stored, it is at the
directory that was configured when the first credentials were made. -/
theorem directory_of_ensured {account : RemoteAccount} (hhistory : History (a, s) (a', s'))
    (hfresh : a.account = none) (hclient : client.IsFaithful)
    (hrun : (ensureAccount client).run (a', s') = (.ok account, σ)) :
    σ.1.account = some account ∧
      (account.directory = some a'.directory ↔
        ∀ c ∈ s'.credentials?, c.directory = some a'.directory) ∧
      (∀ c ∈ s.credentials?, account.directory = c.directory) ∧
      (s.account = .ok none → ∃ τ, History (a, s) τ ∧ τ.2.account = .ok none ∧
        History τ (a', s') ∧ account.directory = some τ.1.directory) := by
  have hsettled : Settled (a', s') := hhistory.settled (settled_of_account hfresh)
  have hensures : Ensures a' s' (.ok account, σ) := hrun ▸ ensures hclient a' s'
  have hplace := hensures.place hsettled
  have hnothing : s'.account = .ok none → s'.credentials? = none := fun h => by
    rw [RecordStore.credentials?, h]
  refine ⟨hensures.installed, ?_, fun c hc => ?_, fun hnone => ?_⟩
  · obtain ⟨c, hc, hdirectory⟩ | ⟨hnone, hdirectory⟩ := hplace
    · rw [hdirectory]
      refine ⟨fun h c' hc' => ?_, fun h => h c hc⟩
      rwa [← Option.mem_unique hc hc']
    · refine ⟨fun _ c hc => ?_, fun _ => hdirectory⟩
      rw [hnothing hnone] at hc
      cases hc
  · have hc' : c ∈ s'.credentials? := hhistory.credentials? hc
    obtain ⟨d, hd, hdirectory⟩ | ⟨hnone, -⟩ := hplace
    · rw [hdirectory, Option.mem_unique hd hc']
    · rw [hnothing hnone] at hc'
      cases hc'
  · obtain hstill | ⟨τ, hτ, hτnone, hsince, c, hc, hrecorded⟩ := hhistory.first hnone
    · obtain ⟨c, hc, -⟩ | ⟨-, hdirectory⟩ := hplace
      · rw [hnothing hstill] at hc
        cases hc
      · exact ⟨_, hhistory, hstill, .refl, hdirectory⟩
    · refine ⟨τ, hτ, hτnone, hsince, ?_⟩
      obtain ⟨d, hd, hdirectory⟩ | ⟨hnone', -⟩ := hplace
      · rw [hdirectory, Option.mem_unique hd hc, hrecorded]
      · rw [hnothing hnone'] at hc
        cases hc

/-- An order is placed with the installed account. -/
theorem placed_of_newOrder {identifiers : List String} {o : OrderHandle}
    (h : (serve client (.newOrder identifiers)).run σ = (.ok o, σ')) :
    ∃ account n place, ((ensureAccount client).run σ).1 = .ok account ∧
      client n (.newOrder account identifiers) = .ok place := by
  rw [serve, run_bind] at h
  rcases hrun : (ensureAccount client).run σ with ⟨_ | account, a, s⟩
  · rw [hrun] at h
    cases h
  · rw [hrun] at h
    simp only at h
    rw [run_bind, run_call] at h
    cases hplace : client a.calls (.newOrder account identifiers) with
    | error fault =>
      rw [hplace] at h
      cases h
    | ok place => exact ⟨account, a.calls, place, rfl, hplace⟩

end RemoteAuthority

/-! ### Two directories -/

/-- A client that reaches an authority at every directory; an account is named like the directory
it was made at. -/
def AuthorityClient.obliging : AuthorityClient := fun _ c =>
  match c with
  | .load c => .ok { id := c.id, directory := c.directory }
  | .create _ d =>
    .ok ({ id := d, directory := some d },
      { id := d, key := [], directory := some d, urls := none })
  | .newOrder account _ => .ok (account.id ++ "/order")
  | .authorizations _ | .challengeReady .. | .refresh _ | .finalize .. | .certificate _
  | .revoke .. => .error AuthorityClient.noConnection

theorem AuthorityClient.isFaithful_obliging : AuthorityClient.obliging.IsFaithful where
  load h := by
    cases h
    rfl
  create h := by
    cases h
    exact ⟨rfl, rfl, rfl⟩

namespace RemoteAuthority

/-- An authority for trying things out. -/
def trial : RemoteAuthority := make "https://staging.example/directory" none

/-- The authority that is configured afterwards. -/
def live : RemoteAuthority := make "https://production.example/directory" none

/-- What is stored after the first was used. -/
def trialStore : RecordStore := (answer .obliging trial (.memory {}) .ensureAccount).2.2

/-- The account that is made at the first directory. -/
def trialAccount : RemoteAccount where
  id := "https://staging.example/directory"
  directory := some "https://staging.example/directory"

theorem run_live : (ensureAccount .obliging).run (live, trialStore) =
    (.ok trialAccount, ((ensureAccount .obliging).run (live, trialStore)).2) := by
  have hfirst : ((ensureAccount .obliging).run (live, trialStore)).1 = .ok trialAccount := by
    decide +kernel
  generalize (ensureAccount .obliging).run (live, trialStore) = p at hfirst ⊢
  exact Prod.ext hfirst rfl

theorem history_live : History (trial, .memory {}) (live, trialStore) :=
  (Relation.ReflTransGen.single
    (.serve trial (.memory {}) AuthorityClient.isFaithful_obliging .ensureAccount)).tail
    (.start _ trialStore _ none)

/-- After another directory is configured, the account is still at the first. -/
theorem directory_of_ensured_live : History (trial, .memory {}) (live, trialStore) ∧
    trial.account = none ∧ AuthorityClient.obliging.IsFaithful ∧
    ((trialAccount.directory = some live.directory ↔
      ∀ c ∈ trialStore.credentials?, c.directory = some live.directory) ∧
    ∃ τ, History (trial, .memory {}) τ ∧ τ.2.account = .ok none ∧
      History τ (live, trialStore) ∧ trialAccount.directory = some τ.1.directory) := by
  obtain ⟨-, hplace, -, hfirst⟩ := directory_of_ensured history_live rfl
    AuthorityClient.isFaithful_obliging run_live
  exact ⟨history_live, rfl, AuthorityClient.isFaithful_obliging, hplace, hfirst rfl⟩

/-- An account that was ensured need not be at the configured directory. -/
theorem ensured_elsewhere : ¬ ∀ (client : AuthorityClient) (a : RemoteAuthority) (s : RecordStore)
    (account : RemoteAccount) (σ : RemoteAuthority × RecordStore), client.IsFaithful →
    (ensureAccount client).run (a, s) = (.ok account, σ) →
      account.directory = some a.directory := by
  intro h
  have hplace := h _ _ _ _ _ AuthorityClient.isFaithful_obliging run_live
  revert hplace
  decide

end RemoteAuthority

end CertSteward
