import CertSteward.Proofs.Config.Statement
import Mathlib.Data.List.Nodup
import Mathlib.Data.List.Perm.Basic

/-!
# The formats of a configuration agree

Whatever settings a document states, it is read to the configuration that they mean, or refused if
one of them means none. As both formats are read to that, they agree with each other.

A section is a table of rows with names of their own. So the order of the rows does not matter: a
table is known by what is found under each name. At the top of a KDL document the blocks are taken
one by one instead, and there it is that two blocks of different names can change places.

## Main results

* `Config.toOption_ofNodes`, `Config.ofValue?_of_inJson` — each format is read to what is meant
* `ConfigStatement.exists_inKdl`, `ConfigStatement.exists_inJson` — both can state all there is
* `Config.formats_agree` — both formats give the same configuration
-/

namespace CertSteward

/-! ### Tables -/

section Tables

variable {β : Type} {rows rows' : List (String × β)}

/-- What a table with names of their own has under a name does not hang on the order. -/
theorem lookup_eq_of_perm (h : rows.Perm rows') (hn : (rows'.map (·.1)).Nodup) (name : String) :
    rows.lookup name = rows'.lookup name := by
  induction h with
  | nil => rfl
  | cons row _ ih =>
    obtain ⟨key, v⟩ := row
    rw [List.map_cons, List.nodup_cons] at hn
    simp only [List.lookup_cons, ih hn.2]
  | swap row row' l =>
    obtain ⟨key, v⟩ := row
    obtain ⟨key', v'⟩ := row'
    have hne : key ≠ key' := by grind
    simp only [List.lookup_cons]
    grind
  | trans h₁ h₂ ih₁ ih₂ =>
    rw [ih₁ ((h₂.map _).nodup_iff.2 hn), ih₂ hn]

@[simp]
theorem stated_nil : stated ([] : List (String × Option β)) = [] :=
  rfl

theorem names_stated (table : List (String × Option β)) :
    ((stated table).map (·.1)).Sublist (table.map (·.1)) := by
  induction table with
  | nil => exact List.Sublist.slnil
  | cons row table ih =>
    obtain ⟨name, _ | b⟩ := row
    · exact ih.cons name
    · exact ih.cons_cons name

theorem lookup_stated {table : List (String × Option β)} (hn : (table.map (·.1)).Nodup)
    (name : String) : (stated table).lookup name = (table.lookup name).join := by
  induction table with
  | nil => rfl
  | cons row table ih =>
    rw [List.map_cons, List.nodup_cons] at hn
    obtain ⟨other, o⟩ := row
    by_cases h : name = other
    · subst h
      cases o with
      | some b => simp [stated]
      | none =>
        -- a name that stands for nothing is not found further down either
        have hnone : table.lookup name = none :=
          List.lookup_eq_none_iff.2 fun row hrow => bne_iff_ne.2 fun heq =>
            hn.1 (List.mem_map.2 ⟨row, hrow, heq.symm⟩)
        have hrest := ih hn.2
        rw [hnone] at hrest
        simpa [stated] using hrest
    · have hne : (name == other) = false := beq_false_of_ne h
      cases o <;> simpa [stated, List.lookup_cons, hne] using ih hn.2

/-- A table in any order, looked into. -/
theorem lookup_of_perm_stated {table : List (String × Option β)}
    (h : rows.Perm (stated table)) (hn : (table.map (·.1)).Nodup) (name : String) :
    rows.lookup name = (table.lookup name).join := by
  rw [lookup_eq_of_perm h (hn.sublist (names_stated table)), lookup_stated hn]

end Tables

@[simp]
theorem orUsual?_none {α β : Type} (read : α → Option β) (usual : β) :
    orUsual? none read usual = some usual :=
  rfl

@[simp]
theorem orUsual?_of_some {α β : Type} (a : α) (read : α → Option β) (usual : β) :
    orUsual? (some a) read usual = read a :=
  rfl

@[simp]
theorem orUsual?_map {α β γ : Type} (o : Option α) (write : α → β) (read : β → Option γ)
    (usual : γ) : orUsual? (o.map write) read usual = orUsual? o (fun a => read (write a)) usual := by
  cases o <;> rfl

/-- A section that is read to what it means is so wherever it may be left out. -/
theorem orUsual?_of_rel {α β γ : Type} {Writes : α → β → Prop} {o : Option α} {written : Option β}
    {read : β → Option γ} {mean : α → Option γ} (h : Option.Rel Writes o written)
    (hread : ∀ a b, Writes a b → read b = mean a) (usual : γ) :
    orUsual? written read usual = orUsual? o mean usual := by
  cases h with
  | none => rfl
  | some hwrites => exact hread _ _ hwrites

/-- A setting that can always be read. -/
@[simp]
theorem orUsual?_some {α : Type} (o : Option α) (usual : α) :
    orUsual? o some usual = some (o.getD usual) := by
  cases o <;> rfl

@[simp]
theorem orUsual?_some_comp {α β : Type} (o : Option α) (f : α → β) (usual : β) :
    orUsual? o (fun a => some (f a)) usual = some ((o.map f).getD usual) := by
  cases o <;> rfl

@[simp]
theorem getD_map_some {α : Type} (o : Option α) : (o.map some).getD none = o := by
  cases o <;> rfl

/-! ### Readings that may fail -/

namespace Except

variable {ε ε' α β : Type}

@[simp]
theorem toOption_bind (x : Except ε α) (f : α → Except ε β) :
    (x >>= f).toOption = x.toOption.bind fun a => (f a).toOption := by
  cases x <;> rfl

@[simp]
theorem toOption_map (x : Except ε α) (f : α → β) : (x.map f).toOption = x.toOption.map f := by
  cases x <;> rfl

@[simp]
theorem toOption_mapError (x : Except ε α) (f : ε → ε') :
    (x.mapError f).toOption = x.toOption := by
  cases x <;> rfl

@[simp]
theorem toOption_ok (a : α) : (.ok a : Except ε α).toOption = some a :=
  rfl

@[simp]
theorem toOption_error (e : ε) : (.error e : Except ε α).toOption = none :=
  rfl

@[simp]
theorem toOption_pure (a : α) : (pure a : Except ε α).toOption = some a :=
  rfl

end Except

/-! ### Choices -/

theorem KeyType.parse_text (k : KeyType) : KeyType.parse k.text = .ok k := by
  cases k <;> decide +kernel

theorem KeyType.ofText?_text (k : KeyType) : KeyType.ofText? k.text = some k := by
  cases k <;> rfl

theorem DnsKind.parse_text (k : DnsKind) : DnsKind.parse k.text = .ok k := by
  cases k <;> decide +kernel

theorem DnsKind.ofText?_text (k : DnsKind) : DnsKind.ofText? k.text = some k := by
  cases k <;> rfl

/-! ### KDL blocks -/

section Kdl

open Config

/-- The first value in a node. -/
def Kdl.Body.first? (b : Kdl.Body) : Option Kdl.Value := b.1.head?.map (·.value)

namespace Kdl

variable {b : Body} {table : List (String × Option Body)}

theorem lookup_row (nodes : List Node) (name : String) :
    (nodes.map Node.row).lookup name =
      (nodes.find? (·.name == name)).map fun n => (n.entries, n.children) := by
  induction nodes with
  | nil => rfl
  | cons n nodes ih =>
    rw [List.map_cons, Node.row, List.lookup_cons, ih, List.find?_cons, Bool.beq_comm]
    cases n.name == name <;> rfl

@[simp]
theorem ofRow_row (n : Node) : .ofRow n.row = n := by
  cases n; rfl

/-- What a block has under a name. -/
theorem IsBlock.child? (h : IsBlock table b) (hn : (table.map (·.1)).Nodup) (name other : String) :
    (Node.ofRow (name, b)).child? other =
      (table.lookup other).join.map fun inside => .ofRow (other, inside) := by
  have hrow := lookup_of_perm_stated h.2 hn other
  rw [lookup_row] at hrow
  rw [← hrow, Option.map_map]
  show b.2.find? (·.name == other) = _
  cases hfind : b.2.find? (·.name == other) with
  | none => rfl
  | some n =>
    have hname : n.name = other := by simpa using List.find?_some hfind
    cases n
    simp_all [Node.name, Node.entries, Node.children, Node.ofRow]

theorem IsBlock.firstValue? (h : IsBlock table b) (hn : (table.map (·.1)).Nodup)
    (name other : String) :
    (Node.ofRow (name, b)).firstValue? other = (table.lookup other).join.bind Body.first? := by
  rw [Node.firstValue?, h.child? hn]
  cases (table.lookup other).join with
  | none => rfl
  | some inside =>
    cases hhead : inside.1.head? <;> simp [Body.first?, Node.ofRow, Node.entries, hhead]

/-! What was written is read back. -/

@[simp]
theorem text?_first? (o : Option String) :
    ((o.map text).bind Body.first?).bind Value.text? = o := by
  cases o <;> rfl

@[simp]
theorem text?_first?_comp {α : Type} (o : Option α) (write : α → String) :
    ((o.map fun a => text (write a)).bind Body.first?).bind Value.text? = o.map write := by
  cases o <;> rfl

@[simp]
theorem whole?_first? (o : Option Int) :
    ((o.map whole).bind Body.first?).bind Value.whole? = o := by
  cases o <;> rfl

@[simp]
theorem truth?_first? (o : Option Bool) :
    ((o.map truth).bind Body.first?).bind Value.truth? = o := by
  cases o <;> rfl

@[simp]
theorem arguments_ofRow_values (name : String) (vs : List Value) :
    (Node.ofRow (name, values vs)).arguments = vs := by
  simp [Node.arguments, Node.ofRow, Node.entries, values, List.filter_map, Function.comp_def]

end Kdl

section Values

variable (b : Kdl.Node) (setting : String) (usual : Nat)

theorem toOption_blockNat? : (blockNat? b setting).toOption =
    orUsual? ((b.firstValue? setting).bind Kdl.Value.whole?) (fun n => (natOf? 64 n).map some)
      none := by
  rw [blockNat?]
  cases (b.firstValue? setting).bind Kdl.Value.whole? with
  | none => rfl
  | some n =>
    simp only [orUsual?, Option.elim_some, natOf?]
    split <;> rfl

@[simp]
theorem toOption_blockNat : (blockNat b setting usual).toOption =
    orUsual? ((b.firstValue? setting).bind Kdl.Value.whole?) (natOf? 64) usual := by
  rw [blockNat, Except.toOption_map, toOption_blockNat?]
  cases (b.firstValue? setting).bind Kdl.Value.whole? with
  | none => rfl
  | some n => cases hn : natOf? 64 n <;> simp [orUsual?, hn]

/-- A number of 64 bits is looked at for 32 afterwards. -/
@[simp]
theorem toOption_blockSmall : (blockSmall b setting usual).toOption =
    orUsual? ((b.firstValue? setting).bind Kdl.Value.whole?) (natOf? 32) usual := by
  rw [blockSmall, Except.toOption_bind, toOption_blockNat?]
  cases (b.firstValue? setting).bind Kdl.Value.whole? with
  | none => rfl
  | some n =>
    simp only [orUsual?, Option.elim_some, natOf?]
    by_cases h64 : 0 ≤ n ∧ n < Nat.pow 2 64
    · have hiff : n.toNat < Nat.pow 2 32 ↔ 0 ≤ n ∧ n < Nat.pow 2 32 := by omega
      simp only [if_pos h64, Option.map_some, Option.bind_some, ← hiff]
      split <;> rfl
    · have h32 : ¬(0 ≤ n ∧ n < Nat.pow 2 32) := fun h => h64 ⟨h.1, Int.lt_trans h.2 (by decide)⟩
      rw [if_neg h64, if_neg h32]; rfl

@[simp]
theorem toOption_blockChoice {α : Type} (parse : String → Except String α) (usual : α) :
    (blockChoice b setting parse usual).toOption =
      orUsual? (blockText? b setting) (fun s => (parse s).toOption) usual := by
  rw [blockChoice]
  cases blockText? b setting with
  | none => rfl
  | some s => exact Except.toOption_mapError _ _

end Values

/-! Each section is read to what it means. -/

section Sections

variable {b : Kdl.Body} (name : String)

theorem AcmeStatement.toOption_acmeOfBlock {a : AcmeStatement} (h : Kdl.IsBlock a.table b) :
    (acmeOfBlock (.ofRow (name, b))).toOption = a.settings? := by
  have hn : (a.table.map (·.1)).Nodup := by simp [table]
  simp [acmeOfBlock, settings?, table, blockText?, h.firstValue? hn, List.lookup_cons,
    KeyType.parse_text, -bind_pure_comp,
    Option.bind_comm (orUsual? a.requestRetries _ _) (orUsual? a.requestTimeout _ _)]

theorem RenewalStatement.toOption_renewalOfBlock {r : RenewalStatement}
    (h : Kdl.IsBlock r.table b) : (renewalOfBlock (.ofRow (name, b))).toOption = r.settings? := by
  have hn : (r.table.map (·.1)).Nodup := by simp [table]
  simp [renewalOfBlock, settings?, table, blockTruth?, h.firstValue? hn, List.lookup_cons,
    -bind_pure_comp, Option.bind_comm (orUsual? r.windowDays _ _) (orUsual? r.intervalHours _ _)]

theorem PropagationStatement.toOption_propagationOfBlock {p : PropagationStatement}
    (h : Kdl.IsBlock p.table b) :
    (propagationOfBlock (.ofRow (name, b))).toOption = p.settings? := by
  have hn : (p.table.map (·.1)).Nodup := by simp [table]
  obtain ⟨_, _, _, _, nameservers⟩ := p
  cases nameservers <;>
    simp [propagationOfBlock, settings?, table, blockTruth?, h.firstValue? hn, h.child? hn,
      List.lookup_cons, List.filterMap_map, Function.comp_def, Kdl.Value.text?, -bind_pure_comp]

theorem DnsStatement.toOption_dnsOfBlock {d : DnsStatement} (h : d.IsBlock b) :
    (dnsOfBlock (.ofRow (name, b))).toOption = d.settings? := by
  obtain ⟨inside, hpart, h⟩ := h
  have hn : ((d.table inside).map (·.1)).Nodup := by simp [table]
  obtain ⟨_, _, _, _, _, _, apiTimeout, retries, propagation⟩ := d
  dsimp only at hpart
  cases hpart with
  | none =>
    simp [dnsOfBlock, settings?, table, blockText?, h.firstValue? hn, h.child? hn,
      List.lookup_cons, DnsKind.parse_text, -bind_pure_comp,
      Option.bind_comm (orUsual? retries _ _) (orUsual? apiTimeout _ _)]
  | @some p inside hpart =>
    have hinside := PropagationStatement.toOption_propagationOfBlock "propagation" hpart
    simp [dnsOfBlock, settings?, table, blockText?, h.firstValue? hn, h.child? hn,
      List.lookup_cons, DnsKind.parse_text, -bind_pure_comp, hinside,
      Option.bind_comm p.settings? (orUsual? apiTimeout _ _),
      Option.bind_comm (orUsual? retries _ _) (orUsual? apiTimeout _ _)]

theorem StorageStatement.storageOfBlock_eq {s : StorageStatement} (h : Kdl.IsBlock s.table b) :
    storageOfBlock (.ofRow (name, b)) = s.settings := by
  have hn : (s.table.map (·.1)).Nodup := by simp [table]
  simp [storageOfBlock, settings, table, blockText?, h.firstValue? hn]

theorem LoggingStatement.loggingOfBlock_eq {l : LoggingStatement} (h : Kdl.IsBlock l.table b) :
    loggingOfBlock (.ofRow (name, b)) = l.settings := by
  have hn : (l.table.map (·.1)).Nodup := by simp [table]
  simp [loggingOfBlock, settings, table, blockText?, h.firstValue? hn, List.lookup_cons]

end Sections

/-! ### The blocks of a document -/

/-- Takes a row into a configuration, if there is one so far. -/
def addRow (c? : Option Config) (row : String × Kdl.Body) : Option Config :=
  c?.bind fun c => (addBlock c (.ofRow row)).toOption

theorem toOption_foldlM_addBlock (nodes : List Kdl.Node) (x : Except ConfigFault Config) :
    (x >>= nodes.foldlM addBlock).toOption = (nodes.map Kdl.Node.row).foldl addRow x.toOption := by
  induction nodes generalizing x with
  | nil => cases x <;> rfl
  | cons n nodes ih =>
    have hassoc : (x >>= (n :: nodes).foldlM addBlock) =
        (x >>= (addBlock · n)) >>= nodes.foldlM addBlock := by
      cases x <;> rfl
    rw [hassoc, ih, List.map_cons, List.foldl_cons]
    simp [addRow]

/-- Blocks of different names can change places. -/
theorem addBlock_comm (c : Config) {n n' : Kdl.Node} (h : n.name ≠ n'.name) :
    ((addBlock c n).toOption.bind fun c => (addBlock c n').toOption) =
      (addBlock c n').toOption.bind fun c => (addBlock c n).toOption := by
  have hmap : ∀ {σ : Type} (x : Option σ) (f : σ → Config), x.map f = x.bind fun s => some (f s) :=
    fun _ _ => Option.map_eq_bind
  unfold addBlock
  split <;> split <;> simp_all [Option.bind_assoc]
  all_goals exact Option.bind_comm _ _

theorem addRow_comm (c? : Option Config) {row row' : String × Kdl.Body} (h : row.1 ≠ row'.1) :
    addRow (addRow c? row) row' = addRow (addRow c? row') row := by
  cases c? with
  | none => rfl
  | some c => exact addBlock_comm c h

/-- Blocks with different names may stand in any order. -/
theorem foldl_addRow_of_perm {rows rows' : List (String × Kdl.Body)} (h : rows.Perm rows')
    (hn : (rows.map (·.1)).Nodup) (c? : Option Config) :
    rows.foldl addRow c? = rows'.foldl addRow c? := by
  refine h.foldl_eq' (fun row hrow row' hrow' c? => ?_) c?
  by_cases heq : row.1 = row'.1
  · rw [List.inj_on_of_nodup_map hn hrow hrow' heq]
  · exact addRow_comm c? heq

@[simp]
theorem foldl_stated_cons {β γ : Type} (f : γ → String × β → γ) (c : γ) (name : String)
    (o : Option β) (table : List (String × Option β)) :
    (stated ((name, o) :: table)).foldl f c =
      (stated table).foldl f (o.elim c fun b => f c (name, b)) := by
  cases o <;> rfl

/-- A block that is read to what it means puts that into its part of the configuration, and leaves
the part alone where there is no block. -/
theorem elim_addRow {α β : Type} {Writes : α → Kdl.Body → Prop} {s : Option α}
    {o : Option Kdl.Body} (name : String) (mean : α → Option β) (put : Config → β → Config)
    (part : Config → β) (h : Option.Rel Writes s o) (hput : ∀ c, put c (part c) = c)
    (hread : ∀ c a b, Writes a b →
      (addBlock c (.ofRow (name, b))).toOption = (mean a).map (put c))
    (c? : Option Config) :
    (o.elim c? fun b => addRow c? (name, b)) =
      c?.bind fun c => (orUsual? s mean (part c)).map (put c) := by
  cases h with
  | none => simp [hput]
  | some hwrites => simp [addRow, hread _ _ _ hwrites]

/-- A document is read to what it means. -/
theorem Config.toOption_ofNodes {s : ConfigStatement} {nodes : List Kdl.Node}
    (h : s.InKdl nodes) : (ofNodes nodes).toOption = s.config? := by
  obtain ⟨acme, renewal, dns, storage, logging, hacme, hrenewal, hdns, hstorage, hlogging, h⟩ := h
  have hn : ((nodes.map Kdl.Node.row).map (·.1)).Nodup :=
    (h.map _).nodup_iff.2 (List.Nodup.sublist (names_stated _) (by simp))
  have hacme := elim_addRow "acme" AcmeStatement.settings? (fun c a => { c with acme := a })
    (·.acme) hacme (fun _ => rfl) fun c a b hb => by
      rw [← AcmeStatement.toOption_acmeOfBlock "acme" hb, ← Except.toOption_map]; rfl
  have hrenewal := elim_addRow "renewal" RenewalStatement.settings?
    (fun c r => { c with renewal := r }) (·.renewal) hrenewal (fun _ => rfl) fun c r b hb => by
      rw [← RenewalStatement.toOption_renewalOfBlock "renewal" hb, ← Except.toOption_map]; rfl
  have hdns := elim_addRow "dns-provider" DnsStatement.settings? (fun c d => { c with dns := d })
    (·.dns) hdns (fun _ => rfl) fun c d b hb => by
      rw [← DnsStatement.toOption_dnsOfBlock "dns-provider" hb, ← Except.toOption_map]; rfl
  have hstorage := elim_addRow "storage" (fun p => some p.settings)
    (fun c p => { c with storage := p }) (·.storage) hstorage (fun _ => rfl) fun c p b hb => by
      rw [← StorageStatement.storageOfBlock_eq "storage" hb]; rfl
  have hlogging := elim_addRow "logging" (fun l => some l.settings)
    (fun c l => { c with logging := l }) (·.logging) hlogging (fun _ => rfl) fun c l b hb => by
      rw [← LoggingStatement.loggingOfBlock_eq "logging" hb]; rfl
  have hfold := toOption_foldlM_addBlock nodes (.ok {})
  rw [foldl_addRow_of_perm h hn] at hfold
  refine hfold.trans ?_
  simp [hacme, hrenewal, hdns, hstorage, hlogging, ConfigStatement.config?, Option.map_eq_bind,
    Option.bind_assoc]

end Kdl

/-! ### JSON objects -/

section Json

open Config

/-- An object whose members have names of their own and no other names than the known ones. -/
theorem Json.Gives.fields? {v : Json} {table : List (String × Option Json)} (h : v.Gives table)
    {known : List String} (hknown : table.map (·.1) = known) (hn : known.Nodup) :
    ∃ ms, Json.fields? known v = some ms ∧ ∀ name, ms.lookup name = (table.lookup name).join := by
  obtain ⟨ms, rfl, hperm⟩ := h
  subst hknown
  have hsub := names_stated table
  have hnames : ∀ m ∈ ms, (table.map (·.1)).contains m.1 := fun m hm =>
    List.contains_iff_mem.2 (hsub.subset (List.mem_map_of_mem (hperm.subset hm)))
  refine ⟨ms, ?_, lookup_of_perm_stated hperm hn⟩
  rw [Json.fields?, List.filter_eq_self.2 hnames]
  exact if_pos ((hperm.map _).nodup_iff.2 (hn.sublist hsub))

@[simp]
theorem fieldOr?_eq {α : Type} (ms : List (String × Json)) (name : String)
    (read : Json → Option α) (usual : α) :
    Json.fieldOr? ms name read usual = orUsual? (ms.lookup name) read usual := by
  rw [Json.fieldOr?]
  cases ms.lookup name <;> rfl

/-- Whole numbers are read where 64 bits hold them, and doubles are not read as whole numbers. -/
theorem bounded?_ofInt {bits : Nat} (hbits : bits ≤ 64) (wide : Int → Float) :
    (fun n => bounded? bits (Json.ofInt wide n)) = natOf? bits := by
  funext n
  have hpow : Nat.pow 2 bits ≤ Nat.pow 2 64 := Nat.pow_le_pow_right (by decide) hbits
  have h64 : Nat.pow 2 64 = 2 ^ 64 := rfl
  by_cases hwhole : -2 ^ 63 ≤ n ∧ n < 2 ^ 64
  · rw [Json.ofInt, if_pos hwhole, natOf?, bounded?, Json.nat?, Json.int, Json.whole?]
    by_cases h0 : 0 ≤ n
    · have hiff : n.toNat < Nat.pow 2 bits ↔ 0 ≤ n ∧ n < Nat.pow 2 bits := by omega
      simp only [if_pos h0, Option.bind_some, hiff]
    · simp [h0]
  · rw [Json.ofInt, if_neg hwhole, natOf?, if_neg (by omega)]
    rfl

@[simp]
theorem directory?_string (s : String) :
    directory? (.string s) = (Directory.parse s).toOption := by
  rw [directory?, Json.string?, Option.bind_some]

@[simp]
theorem texts?_strings (xs : List String) : texts? (Json.strings xs) = some xs := by
  simp only [texts?, Json.strings, Json.array?, Option.bind_some, List.mapM_map]
  induction xs with
  | nil => rfl
  | cons x xs ih => rw [List.mapM_cons, ih]; rfl

/-! Each section is read to what it means. -/

section Sections

variable {wide : Int → Float} {v : Json}

theorem AcmeStatement.acme?_eq {a : AcmeStatement} (h : v.Gives (a.members wide)) :
    acme? v = a.settings? := by
  obtain ⟨ms, hms, hlook⟩ := h.fields? rfl (by simp [members])
  simp only [members, List.map_cons, List.map_nil] at hms hlook
  simp [acme?, settings?, hms, hlook, List.lookup_cons, optionalText?, choice?,
    KeyType.ofText?_text, bounded?_ofInt]

theorem RenewalStatement.renewal?_eq {r : RenewalStatement} (h : v.Gives (r.members wide)) :
    renewal? v = r.settings? := by
  obtain ⟨ms, hms, hlook⟩ := h.fields? rfl (by simp [members])
  simp only [members, List.map_cons, List.map_nil] at hms hlook
  simp [renewal?, settings?, hms, hlook, List.lookup_cons, Json.bool?, bounded?_ofInt]

theorem PropagationStatement.propagation?_eq {p : PropagationStatement}
    (h : v.Gives (p.members wide)) : propagation? v = p.settings? := by
  obtain ⟨ms, hms, hlook⟩ := h.fields? rfl (by simp [members])
  simp only [members, List.map_cons, List.map_nil] at hms hlook
  simp [propagation?, settings?, hms, hlook, List.lookup_cons, Json.bool?, bounded?_ofInt]

theorem DnsStatement.dns?_eq {d : DnsStatement} (h : d.IsObject wide v) :
    dns? v = d.settings? := by
  obtain ⟨inside, hpart, h⟩ := h
  have hread : orUsual? inside propagation? {} =
      orUsual? d.propagation PropagationStatement.settings? {} :=
    orUsual?_of_rel hpart (fun _ _ => PropagationStatement.propagation?_eq) _
  obtain ⟨ms, hms, hlook⟩ := h.fields? rfl (by simp [members])
  simp only [members, List.map_cons, List.map_nil] at hms hlook
  simp [dns?, settings?, hms, hlook, List.lookup_cons, optionalText?, choice?,
    DnsKind.ofText?_text, bounded?_ofInt, hread]

theorem StorageStatement.storage?_eq {s : StorageStatement} (h : v.Gives s.members) :
    storage? v = some s.settings := by
  obtain ⟨ms, hms, hlook⟩ := h.fields? rfl (by simp [members])
  simp only [members, List.map_cons, List.map_nil] at hms hlook
  simp [storage?, settings, hms, hlook, Json.string?]

theorem LoggingStatement.logging?_eq {l : LoggingStatement} (h : v.Gives l.members) :
    logging? v = some l.settings := by
  obtain ⟨ms, hms, hlook⟩ := h.fields? rfl (by simp [members])
  simp only [members, List.map_cons, List.map_nil] at hms hlook
  simp [logging?, settings, hms, hlook, List.lookup_cons, Json.string?]

/-- A value is read to what it means. -/
theorem Config.ofValue?_of_inJson {s : ConfigStatement} (h : s.InJson wide v) :
    ofValue? v = s.config? := by
  obtain ⟨acme, renewal, dns, storage, logging, hacme, hrenewal, hdns, hstorage, hlogging, h⟩ := h
  obtain ⟨ms, hms, hlook⟩ := h.fields? rfl (by simp)
  simp only [List.map_cons, List.map_nil] at hms
  simp [ofValue?, ConfigStatement.config?, hms, hlook, List.lookup_cons,
    orUsual?_of_rel hacme (fun _ _ => AcmeStatement.acme?_eq),
    orUsual?_of_rel hrenewal (fun _ _ => RenewalStatement.renewal?_eq),
    orUsual?_of_rel hdns (fun _ _ => DnsStatement.dns?_eq),
    orUsual?_of_rel hstorage (fun _ _ => StorageStatement.storage?_eq),
    orUsual?_of_rel hlogging (fun _ _ => LoggingStatement.logging?_eq)]

end Sections

end Json

/-! ### Whatever is to be stated, both formats can state it -/

theorem exists_rel {α β : Type} {Writes : α → β → Prop} (h : ∀ a, ∃ b, Writes a b)
    (o : Option α) : ∃ written, Option.Rel Writes o written := by
  cases o with
  | none => exact ⟨none, .none⟩
  | some a =>
    obtain ⟨b, hb⟩ := h a
    exact ⟨some b, .some hb⟩

theorem Kdl.exists_gives (table : List (String × Option Kdl.Body)) :
    ∃ nodes, Kdl.Gives nodes table := by
  have hrow : Kdl.Node.row ∘ Kdl.Node.ofRow = id := rfl
  exact ⟨(stated table).map .ofRow, by simp [Kdl.Gives, hrow]⟩

theorem Kdl.exists_isBlock (table : List (String × Option Kdl.Body)) :
    ∃ b, Kdl.IsBlock table b := by
  obtain ⟨nodes, hnodes⟩ := exists_gives table
  exact ⟨([], nodes), rfl, hnodes⟩

theorem Json.exists_gives (table : List (String × Option Json)) : ∃ v : Json, v.Gives table :=
  ⟨_, _, rfl, List.Perm.refl _⟩

theorem ConfigStatement.exists_inKdl (s : ConfigStatement) : ∃ nodes, s.InKdl nodes := by
  have hdns (d : DnsStatement) : ∃ b, d.IsBlock b := by
    obtain ⟨inside, hinside⟩ := exists_rel (fun p => Kdl.exists_isBlock p.table) d.propagation
    obtain ⟨b, hb⟩ := Kdl.exists_isBlock (d.table inside)
    exact ⟨b, inside, hinside, hb⟩
  obtain ⟨acme, hacme⟩ := exists_rel (fun a => Kdl.exists_isBlock a.table) s.acme
  obtain ⟨renewal, hrenewal⟩ := exists_rel (fun r => Kdl.exists_isBlock r.table) s.renewal
  obtain ⟨dns, hdns⟩ := exists_rel hdns s.dns
  obtain ⟨storage, hstorage⟩ := exists_rel (fun p => Kdl.exists_isBlock p.table) s.storage
  obtain ⟨logging, hlogging⟩ := exists_rel (fun l => Kdl.exists_isBlock l.table) s.logging
  obtain ⟨nodes, hnodes⟩ := Kdl.exists_gives [("acme", acme), ("renewal", renewal),
    ("dns-provider", dns), ("storage", storage), ("logging", logging)]
  exact ⟨nodes, acme, renewal, dns, storage, logging, hacme, hrenewal, hdns, hstorage, hlogging,
    hnodes⟩

theorem ConfigStatement.exists_inJson (s : ConfigStatement) (wide : Int → Float) :
    ∃ v, s.InJson wide v := by
  have hdns (d : DnsStatement) : ∃ v, d.IsObject wide v := by
    obtain ⟨inside, hinside⟩ := exists_rel (fun p => Json.exists_gives (p.members wide)) d.propagation
    obtain ⟨v, hv⟩ := Json.exists_gives (d.members wide inside)
    exact ⟨v, inside, hinside, hv⟩
  obtain ⟨acme, hacme⟩ := exists_rel (fun a => Json.exists_gives (a.members wide)) s.acme
  obtain ⟨renewal, hrenewal⟩ :=
    exists_rel (fun r => Json.exists_gives (r.members wide)) s.renewal
  obtain ⟨dns, hdns⟩ := exists_rel hdns s.dns
  obtain ⟨storage, hstorage⟩ := exists_rel (fun p => Json.exists_gives p.members) s.storage
  obtain ⟨logging, hlogging⟩ := exists_rel (fun l => Json.exists_gives l.members) s.logging
  obtain ⟨v, hv⟩ := Json.exists_gives [("acme", acme), ("renewal", renewal), ("dns_provider", dns),
    ("storage", storage), ("logging", logging)]
  exact ⟨v, acme, renewal, dns, storage, logging, hacme, hrenewal, hdns, hstorage, hlogging, hv⟩

/-! ### Both formats -/

theorem Config.toOption_ofKdl {text : String} {nodes : List Kdl.Node}
    (h : Kdl.parse? text = some nodes) : (ofKdl text).toOption = (ofNodes nodes).toOption := by
  rw [ofKdl, h]

theorem Config.toOption_ofJson {text : String} {v : Json} (h : Json.parse? text = some v) :
    (ofJson text).toOption = ofValue? v := by
  rw [ofJson, h, Option.bind_some]
  cases ofValue? v <;> rfl

/-- A KDL document and a JSON value that state the same settings give the same configuration, or
both give none; and so do the texts that they are read from. -/
theorem Config.formats_agree (s : ConfigStatement) (wide : Int → Float) {nodes : List Kdl.Node}
    {v : Json} (hnodes : s.InKdl nodes) (hv : s.InJson wide v) :
    (ofNodes nodes).toOption = ofValue? v ∧
      ∀ kdl json, Kdl.parse? kdl = some nodes → Json.parse? json = some v →
        (ofKdl kdl).toOption = (ofJson json).toOption := by
  have hdocuments : (ofNodes nodes).toOption = ofValue? v :=
    (toOption_ofNodes hnodes).trans (ofValue?_of_inJson hv).symm
  refine ⟨hdocuments, fun kdl json hkdl hjson => ?_⟩
  rw [toOption_ofKdl hkdl, toOption_ofJson hjson, hdocuments]

/-- The settings are in another order in the one format than in the other. -/
theorem Config.formats_agree_in_any_order :
    (ofNodes [.ofRow ("dns-provider", [], [.ofRow ("provision-retries", Kdl.whole 5),
        .ofRow ("type", Kdl.text "webhook"), .ofRow ("propagation", [],
          [.ofRow ("nameservers", Kdl.values [.text "9.9.9.9"])])]),
      .ofRow ("acme", [], [.ofRow ("key-type", Kdl.text "ecdsa-p256")])]).toOption =
    ofValue? (.object [("acme", .object [("key_type", .string "ecdsa-p256")]),
      ("dns_provider", .object [("provider", .string "webhook"), ("provision_retries", .int 5),
        ("propagation", .object [("nameservers", .strings ["9.9.9.9"])])])]) := by
  let acme : AcmeStatement := { keyType := some .ecdsaP256 }
  let wait : PropagationStatement := { nameservers := some ["9.9.9.9"] }
  let dns : DnsStatement :=
    { kind := some .webhook, retries := some 5, propagation := some wait }
  have hacme : Kdl.IsBlock acme.table ([], [.ofRow ("key-type", Kdl.text "ecdsa-p256")]) :=
    ⟨rfl, List.Perm.refl _⟩
  have hwait : Kdl.IsBlock wait.table
      ([], [.ofRow ("nameservers", Kdl.values [.text "9.9.9.9"])]) := ⟨rfl, List.Perm.refl _⟩
  have hdns : dns.IsBlock ([], [.ofRow ("provision-retries", Kdl.whole 5),
      .ofRow ("type", Kdl.text "webhook"), .ofRow ("propagation", [],
        [.ofRow ("nameservers", Kdl.values [.text "9.9.9.9"])])]) :=
    ⟨_, .some hwait, rfl, List.Perm.swap _ _ _⟩
  have hv : dns.IsObject (fun _ => 0) (.object [("provider", .string "webhook"),
      ("provision_retries", .int 5),
      ("propagation", .object [("nameservers", .strings ["9.9.9.9"])])]) :=
    ⟨_, .some ⟨_, rfl, List.Perm.refl _⟩, _, rfl, List.Perm.refl _⟩
  refine (formats_agree { acme := some acme, dns := some dns } (fun _ => 0) ?_ ?_).1
  · exact ⟨_, none, _, none, none, .some hacme, .none, .some hdns, .none, .none,
      List.Perm.swap _ _ _⟩
  · exact ⟨_, none, _, none, none, .some ⟨_, rfl, List.Perm.refl _⟩, .none, .some hv, .none, .none,
      _, rfl, List.Perm.refl _⟩

end CertSteward
