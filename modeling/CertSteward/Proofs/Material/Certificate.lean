import CertSteward.Material.Certificate
import CertSteward.Proofs.Asn1.Der

/-!
# The parts of certificates and requests are read as they were written

## Main definitions

* `NameAttribute.IsProper`, `DistinguishedName.IsProper` — names that can be read back

## Main results

* `DistinguishedName.ofBytes_toDer` — distinguished names are read back
* `GeneralName.listOfBytes?_listToBytes` — lists of further names are read back
* `Extension.ofDer?_toDer` — extensions are read back
-/

namespace CertSteward

/-! ### Distinguished names -/

/-- An attribute whose kind and value can be read back. -/
structure NameAttribute.IsProper (a : NameAttribute) : Prop where
  kind : a.kind.IsProper
  value : a.value.tag.toNat % 32 ≠ 31

theorem NameAttribute.ofDer?_toDer {a : NameAttribute} (ha : a.IsProper) (h : a.toDer.IsProper) :
    ofDer? a.toDer = some a := by
  have hcontents : a.toDer.contents = Der.writeAll [a.kind.toDer, a.value] := rfl
  have hkind : a.kind.toDer.IsProper :=
    h.of_mem hcontents List.mem_cons_self (by decide : Der.objectTag.toNat % 32 ≠ 31)
  have hvalue : a.value.IsProper :=
    h.of_mem hcontents (List.mem_cons_of_mem _ List.mem_cons_self) ha.value
  have hfirst : Der.readTag? Der.objectTag a.toDer.contents =
      some (a.kind.toBytes, Der.writeAll [a.value]) := Der.readTag?_write hkind rfl _
  have hsecond : Der.read? (Der.writeAll [a.value]) = some (a.value, []) := Der.read?_write hvalue _
  rw [ofDer?, if_neg (fun hne => hne rfl), hfirst]
  simp only [Option.bind_eq_bind, Option.bind_some, hsecond, ObjectId.ofBytes?_toBytes ha.kind]
  rfl

namespace DistinguishedName

/-- A name each part of which has attributes, all of which can be read back. -/
def IsProper (n : DistinguishedName) : Prop :=
  ∀ p ∈ n.parts, p ≠ [] ∧ ∀ a ∈ p, a.IsProper

theorem readWhile_map {α : Type} {f : Der → Option α} {g : α → Der} {as : List α}
    (h : ∀ a ∈ as, f (g a) = some a) : readWhile f (as.map g) = as := by
  induction as with
  | nil => rfl
  | cons a as ih =>
    rw [List.map_cons, readWhile, h a List.mem_cons_self]
    exact congrArg (a :: ·) (ih fun b hb => h b (List.mem_cons_of_mem _ hb))

theorem part?_set {p : List NameAttribute} (hne : p ≠ []) (hp : ∀ a ∈ p, a.IsProper)
    (h : (Der.set (p.map NameAttribute.toDer)).IsProper) :
    part? (Der.set (p.map NameAttribute.toDer)) = some p := by
  have hproper : ∀ v ∈ p.map NameAttribute.toDer, v.IsProper := by
    intro v hv
    obtain ⟨a, -, rfl⟩ := List.mem_map.mp hv
    exact h.of_mem rfl hv (by decide : Der.sequenceTag.toNat % 32 ≠ 31)
  have htag : (Der.set (p.map NameAttribute.toDer)).tag = Der.setTag := rfl
  have hread : readWhile NameAttribute.ofDer? (p.map NameAttribute.toDer) = p :=
    readWhile_map fun a ha =>
      NameAttribute.ofDer?_toDer (hp a ha) (hproper _ (List.mem_map_of_mem ha))
  rw [part?, if_pos htag, Der.readMany_contents rfl hproper, hread]
  cases p with
  | nil => exact absurd rfl hne
  | cons a p => rfl

/-- A name is read as it was written. -/
theorem ofBytes_toDer {n : DistinguishedName} (hn : n.IsProper) (h : n.toDer.IsProper) :
    ofBytes n.toDer.contents = n := by
  have hproper : ∀ v ∈ n.parts.map fun p => Der.set (p.map NameAttribute.toDer), v.IsProper := by
    intro v hv
    obtain ⟨p, -, rfl⟩ := List.mem_map.mp hv
    exact h.of_mem rfl hv (by decide : Der.setTag.toNat % 32 ≠ 31)
  have hread : readWhile part? (n.parts.map fun p => Der.set (p.map NameAttribute.toDer)) =
      n.parts :=
    readWhile_map fun p hp =>
      part?_set (hn p hp).1 (hn p hp).2 (hproper _ (List.mem_map_of_mem hp))
  rw [ofBytes, Der.readMany_contents rfl hproper, hread]

/-- A name of one text a part can be read back. -/
theorem isProper_ofTexts {attributes : List (ObjectId × String)}
    (h : ∀ a ∈ attributes, a.1.IsProper) : (ofTexts attributes).IsProper := by
  intro p hp
  obtain ⟨⟨kind, s⟩, ha, rfl⟩ := List.mem_map.mp hp
  refine ⟨List.cons_ne_nil _ _, fun a hmem => ?_⟩
  obtain rfl := List.mem_singleton.mp hmem
  exact ⟨h _ ha, (by decide : Der.textTag.toNat % 32 ≠ 31)⟩

end DistinguishedName

/-! ### Further names -/

/-- A list of names is read as it was written. -/
theorem GeneralName.listOfBytes?_listToBytes {names : List GeneralName}
    (hnames : ∀ n ∈ names, n.tag.toNat % 32 ≠ 31) (h : (Der.sequence names).IsProper) :
    listOfBytes? (listToBytes names) = some names := by
  have hread : Der.readTag? Der.sequenceTag ((Der.sequence names).write ++ []) =
      some (Der.writeAll names, []) := Der.readTag?_write h rfl []
  rw [List.append_nil] at hread
  rw [listOfBytes?, listToBytes, hread]
  exact Der.readAll?_writeAll fun n hn => h.of_mem rfl hn (hnames n hn)

/-! ### Extensions -/

/-- An extension is read as it was written. -/
theorem Extension.ofDer?_toDer {e : Extension} (hkind : e.kind.IsProper) (h : e.toDer.IsProper) :
    ofDer? e.toDer = some e := by
  obtain ⟨kind, critical, value⟩ := e
  have hfirst : kind.toDer.IsProper :=
    h.of_mem rfl List.mem_cons_self (by decide : Der.objectTag.toNat % 32 ≠ 31)
  have hlast : (Der.bytes value).IsProper :=
    h.of_mem rfl (List.mem_append_right _ List.mem_cons_self)
      (by decide : Der.bytesTag.toNat % 32 ≠ 31)
  have hvalue : Der.readTag? Der.bytesTag (Der.writeAll [Der.bytes value]) = some (value, []) :=
    Der.readTag?_write hlast rfl _
  cases critical with
  | false =>
    have hread : Der.readTag? Der.objectTag (Extension.mk kind false value).toDer.contents =
        some (kind.toBytes, Der.writeAll [Der.bytes value]) := Der.readTag?_write hfirst rfl _
    have hnone : Der.readTag? Der.booleanTag (Der.writeAll [Der.bytes value]) = none :=
      Der.readTag?_of_ne hlast (by decide : Der.bytesTag ≠ Der.booleanTag) _
    rw [ofDer?, if_neg (fun hne => hne rfl), hread]
    simp only [Option.bind_eq_bind, Option.bind_some, ObjectId.ofBytes?_toBytes hkind, hnone,
      hvalue]
    rfl
  | true =>
    have hmark : (Der.boolean true).IsProper := ⟨by decide, by decide⟩
    have hread : Der.readTag? Der.objectTag (Extension.mk kind true value).toDer.contents =
        some (kind.toBytes, Der.writeAll [Der.boolean true, Der.bytes value]) :=
      Der.readTag?_write hfirst rfl _
    have hsome : Der.readTag? Der.booleanTag (Der.writeAll [Der.boolean true, Der.bytes value]) =
        some ([0xFF], Der.writeAll [Der.bytes value]) := Der.readTag?_write hmark rfl _
    rw [ofDer?, if_neg (fun hne => hne rfl), hread]
    simp only [Option.bind_eq_bind, Option.bind_some, ObjectId.ofBytes?_toBytes hkind, hsome,
      hvalue]
    rfl

end CertSteward
