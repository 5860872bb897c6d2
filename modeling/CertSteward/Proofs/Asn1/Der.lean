import CertSteward.Asn1.ObjectId
import Mathlib.Algebra.Group.Nat.Defs

/-!
# Values are read as they were written

What is written for a value is read back as this value, whatever follows it, and a row of values as
this row. Two things stand in the way of that for arbitrary values: tags of more than one byte, and
lengths of more than 126 bytes, for which there is no form.

## Main definitions

* `Der.IsProper`, `ObjectId.IsProper` — values and identifiers that can be read back

## Main results

* `Der.natOfBytes_bytesOfNat`, `Der.length?_lengthBytes` — numbers and lengths are read back
* `Der.read?_write`, `Der.readTag?_write`, `Der.readAll?_writeAll` — values are read back
* `Der.IsProper.of_mem` — the parts of a proper value are proper
* `ObjectId.ofBytes?_toBytes` — identifiers are read back
-/

namespace CertSteward

namespace Der

variable {v : Der} {vs : List Der} {s : List UInt8} {n k : Nat}

/-! ### Numbers and lengths -/

theorem natOfBytes_append_singleton (s : List UInt8) (b : UInt8) :
    natOfBytes (s ++ [b]) = 256 * natOfBytes s + b.toNat := by
  rw [natOfBytes, List.foldl_append]
  rfl

theorem natOfBytes_bytesOfNat (n : Nat) : natOfBytes (bytesOfNat n) = n := by
  induction n using bytesOfNat.induct with
  | case1 => simp [bytesOfNat, natOfBytes]
  | case2 n hn ih =>
    rw [bytesOfNat, if_neg hn, natOfBytes_append_singleton, ih, UInt8.toNat_ofNat']
    omega

/-- A number below a power of 256 takes no more bytes. -/
theorem length_bytesOfNat_le (h : n < 256 ^ k) : (bytesOfNat n).length ≤ k := by
  induction k generalizing n with
  | zero =>
    obtain rfl : n = 0 := by simpa using h
    simp [bytesOfNat]
  | succ k ih =>
    rw [bytesOfNat]
    split
    · exact Nat.zero_le _
    · rw [List.length_append]
      have hdiv : n / 256 < 256 ^ k := by
        rw [Nat.div_lt_iff_lt_mul (by decide), ← Nat.pow_succ]
        exact h
      exact Nat.succ_le_succ (ih hdiv)

theorem bytesOfNat_ne_nil (h : n ≠ 0) : bytesOfNat n ≠ [] := by
  rw [bytesOfNat, if_neg h]
  simp

/-- The lengths that there is a form for. -/
def lengthLimit : Nat := 256 ^ 126

/-- A length is read back. -/
theorem length?_lengthBytes (h : n < lengthLimit) (s : List UInt8) :
    length? (lengthBytes n ++ s) = some (n, s) := by
  rw [lengthBytes]
  split
  · rename_i hsmall
    have hbyte : (UInt8.ofNat n).toNat = n := by
      rw [UInt8.toNat_ofNat']
      omega
    rw [List.singleton_append, length?, hbyte]
    exact if_pos hsmall
  · rename_i hlarge
    have hle := length_bytesOfNat_le h
    have hpos : 0 < (bytesOfNat n).length :=
      List.length_pos_iff.mpr (bytesOfNat_ne_nil (by omega))
    have hbyte : (UInt8.ofNat (128 + (bytesOfNat n).length)).toNat =
        128 + (bytesOfNat n).length := by
      rw [UInt8.toNat_ofNat']
      omega
    simp only [List.cons_append, length?, hbyte]
    rw [if_neg (by omega), Nat.add_sub_cancel_left, if_neg, List.take_left, List.drop_left,
      natOfBytes_bytesOfNat]
    rw [List.length_append]
    omega

/-! ### Values -/

/-- A value that can be read back. -/
structure IsProper (v : Der) : Prop where
  tag : v.tag.toNat % 32 ≠ 31
  length : v.contents.length < lengthLimit

/-- A value is read as it was written. -/
theorem read?_write (h : v.IsProper) (s : List UInt8) : read? (v.write ++ s) = some (v, s) := by
  rw [write, List.append_assoc, List.cons_append, read?, if_neg h.tag,
    length?_lengthBytes h.length]
  simp only [List.length_append]
  rw [if_neg (by omega), List.take_left, List.drop_left]

theorem readTag?_write {tag : UInt8} (h : v.IsProper) (htag : v.tag = tag) (s : List UInt8) :
    readTag? tag (v.write ++ s) = some (v.contents, s) := by
  rw [readTag?, read?_write h]
  exact if_pos htag

/-- A value of another kind is not read. -/
theorem readTag?_of_ne {tag : UInt8} (h : v.IsProper) (htag : v.tag ≠ tag) (s : List UInt8) :
    readTag? tag (v.write ++ s) = none := by
  rw [readTag?, read?_write h]
  exact if_neg htag

@[simp] theorem writeAll_nil : writeAll [] = [] := rfl

@[simp] theorem writeAll_cons (v : Der) (vs : List Der) :
    writeAll (v :: vs) = v.write ++ writeAll vs := List.flatMap_cons

theorem writeAll_singleton (v : Der) : writeAll [v] = v.write := by simp

theorem length_write_pos (v : Der) : 0 < v.write.length := by
  rw [write]
  exact Nat.succ_pos _

theorem length_contents_le (v : Der) : v.contents.length ≤ v.write.length := by
  rw [write, List.length_append]
  exact Nat.le_add_left _ _

theorem length_write_le_writeAll (h : v ∈ vs) : v.write.length ≤ (writeAll vs).length := by
  obtain ⟨before, after, rfl⟩ := List.append_of_mem h
  rw [writeAll, List.flatMap_append, List.flatMap_cons, List.length_append, List.length_append]
  omega

theorem length_le_writeAll (vs : List Der) : vs.length ≤ (writeAll vs).length := by
  induction vs with
  | nil => exact Nat.le_refl _
  | cons v vs ih =>
    have hpos := v.length_write_pos
    rw [writeAll_cons, List.length_append, List.length_cons]
    omega

/-- A row of values is read as it was written. -/
theorem readMany_writeAll (h : ∀ v ∈ vs, v.IsProper) {fuel : Nat} (hfuel : vs.length ≤ fuel) :
    readMany fuel (writeAll vs) = (vs, []) := by
  induction vs generalizing fuel with
  | nil => cases fuel <;> rfl
  | cons v vs ih =>
    cases fuel with
    | zero => exact absurd hfuel (Nat.not_succ_le_zero _)
    | succ fuel =>
      rw [readMany, writeAll_cons, read?_write (h v List.mem_cons_self)]
      simp only [ih (fun v hv => h v (List.mem_cons_of_mem _ hv)) (Nat.le_of_succ_le_succ hfuel)]

/-- The row of values inside a value. -/
theorem readMany_contents (hv : v.contents = writeAll vs) (h : ∀ v ∈ vs, v.IsProper) :
    readMany v.contents.length v.contents = (vs, []) := by
  rw [hv, readMany_writeAll h (length_le_writeAll vs)]

theorem readAll?_writeAll (h : ∀ v ∈ vs, v.IsProper) : readAll? (writeAll vs) = some vs := by
  rw [readAll?, readMany_writeAll h (length_le_writeAll vs)]

/-- The parts of a value are shorter than the value. -/
theorem IsProper.of_mem (h : v.IsProper) (hv : v.contents = writeAll vs) {u : Der} (hu : u ∈ vs)
    (htag : u.tag.toNat % 32 ≠ 31) : u.IsProper := by
  refine ⟨htag, Nat.lt_of_le_of_lt (Nat.le_trans u.length_contents_le ?_) h.length⟩
  rw [hv]
  exact length_write_le_writeAll hu

end Der

/-! ### Object identifiers -/

namespace ObjectId

variable {o : ObjectId} {n : Nat} {s : List UInt8}

/-- An identifier that can be read back: its first two numbers fit into one byte, which is not a
zero on its own. -/
def IsProper (o : ObjectId) : Prop :=
  ∃ a b rest, o.path = a :: b :: rest ∧ b < 40 ∧ 40 * a + b < 256 ∧ (rest = [] → 0 < 40 * a + b)

/-- The groups of a number before its last one are the number so far. -/
theorem groups_highGroups (n : Nat) (s : List UInt8) :
    groups none (highGroups n ++ s) = groups (if n = 0 then none else some n) s := by
  induction n using highGroups.induct generalizing s with
  | case1 => simp [highGroups]
  | case2 n hn ih =>
    have hbyte : (UInt8.ofNat (128 + n % 128)).toNat = 128 + n % 128 := by
      rw [UInt8.toNat_ofNat']
      omega
    have hvalue : 128 * (if n / 128 = 0 then none else some (n / 128) : Option Nat).getD 0 +
        (128 + n % 128) % 128 = n := by
      split <;> simp only [Option.getD_none, Option.getD_some] <;> omega
    rw [highGroups, if_neg hn, List.append_assoc, ih, List.singleton_append, groups, hbyte,
      if_neg (by omega), hvalue, if_neg hn]

/-- A number is read as it was written. -/
theorem groups_numberBytes (n : Nat) (s : List UInt8) :
    groups none (numberBytes n ++ s) = n :: groups none s := by
  have hbyte : (UInt8.ofNat (n % 128)).toNat = n % 128 := by
    rw [UInt8.toNat_ofNat']
    omega
  have hvalue : 128 * (if n / 128 = 0 then none else some (n / 128) : Option Nat).getD 0 +
      n % 128 % 128 = n := by
    split <;> simp only [Option.getD_none, Option.getD_some] <;> omega
  rw [numberBytes, List.append_assoc, groups_highGroups, List.singleton_append, groups, hbyte,
    if_pos (by omega), hvalue]

theorem groups_flatMap (ns : List Nat) : groups none (ns.flatMap numberBytes) = ns := by
  induction ns with
  | nil => rfl
  | cons n ns ih => rw [List.flatMap_cons, groups_numberBytes, ih]

theorem numberBytes_ne_nil (n : Nat) : numberBytes n ≠ [] := by
  rw [numberBytes]
  simp

/-- An identifier is read as it was written. -/
theorem ofBytes?_toBytes (h : o.IsProper) : ofBytes? o.toBytes = some o := by
  obtain ⟨path⟩ := o
  obtain ⟨a, b, rest, rfl, hb, hab, hzero⟩ := h
  have hbyte : (UInt8.ofNat (40 * a + b)).toNat = 40 * a + b := by
    rw [UInt8.toNat_ofNat']
    omega
  have hother : ¬ (UInt8.ofNat (40 * a + b) :: rest.flatMap numberBytes = [0]) := by
    intro h
    obtain ⟨hfirst, hrest⟩ := List.cons.inj h
    rw [List.flatMap_eq_nil_iff] at hrest
    have hnil : rest = [] := List.eq_nil_iff_forall_not_mem.mpr fun n hn =>
      numberBytes_ne_nil n (hrest n hn)
    have hpos := hzero hnil
    rw [← hbyte, hfirst] at hpos
    exact absurd hpos (by decide)
  rw [toBytes]
  simp only
  rw [ofBytes?]
  · rw [groups_flatMap, hbyte]
    congr 2
    · congr 1
      · omega
      · congr 1
        omega
  · exact fun hfirst hrest => hother (by rw [hfirst, hrest])

end ObjectId

end CertSteward
