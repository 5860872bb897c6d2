import CertSteward.Bytes.Unicode

/-!
# Texts are read back from their bytes

A text whose bytes break off is a text only if they break off between two characters. It is the
beginning of the text then.

## Main definitions

* `IsCut` — lists that break off before the end of another one

## Main results

* `Utf8.decode?_encode` — a text is read back
* `Utf8.isCut_of_decode?` — what is read of a text that breaks off
-/

namespace CertSteward

/-! ### Beginnings -/

section Cut

variable {α : Type} {s t : List α} {a : α}

/-- A beginning of a list that is not all of it. -/
def IsCut (s t : List α) : Prop := ∃ rest ≠ [], s ++ rest = t

theorem not_isCut_nil : ¬ IsCut s [] := by
  rintro ⟨rest, hne, h⟩
  exact hne (List.append_eq_nil_iff.mp h).2

theorem isCut_cons_iff : IsCut s (a :: t) ↔ s = [] ∨ ∃ u, s = a :: u ∧ IsCut u t := by
  cases s with
  | nil => exact ⟨fun _ => .inl rfl, fun _ => ⟨a :: t, List.cons_ne_nil a t, rfl⟩⟩
  | cons b s =>
    constructor
    · rintro ⟨rest, hne, h⟩
      obtain ⟨rfl, rfl⟩ := List.cons.inj h
      exact .inr ⟨s, rfl, rest, hne, rfl⟩
    · rintro (h | ⟨u, h, rest, hne, rfl⟩)
      · cases h
      · cases h
        exact ⟨rest, hne, rfl⟩

/-- Of two parts, a list breaks off in the first or in the second. -/
theorem IsCut.append {u : List α} (h : IsCut s (t ++ u)) :
    IsCut s t ∨ ∃ v, s = t ++ v ∧ IsCut v u := by
  obtain ⟨rest, hne, h⟩ := h
  rcases List.append_eq_append_iff.mp h with ⟨v, rfl, rfl⟩ | ⟨v, rfl, rfl⟩
  · cases v with
    | nil => exact .inr ⟨[], by simp, u, by simpa using hne, rfl⟩
    | cons b v => exact .inl ⟨b :: v, List.cons_ne_nil b v, rfl⟩
  · exact .inr ⟨v, rfl, rest, hne, rfl⟩

end Cut

/-! ### Bytes -/

theorem toList_loop_eq_drop (bs : ByteArray) (i : Nat) (r : List UInt8) :
    ByteArray.toList.loop bs i r = r.reverse ++ bs.data.toList.drop i := by
  induction i, r using ByteArray.toList.loop.induct bs with
  | case1 i r h ih =>
    have hlt : i < bs.data.toList.length := h
    have hget : bs.get! i = bs.data.toList[i] := by
      cases bs
      exact getElem!_pos ..
    rw [ByteArray.toList.loop, if_pos h, ih, hget, List.drop_eq_getElem_cons hlt]
    simp
  | case2 i r h =>
    have hle : bs.data.toList.length ≤ i := Nat.le_of_not_lt h
    rw [ByteArray.toList.loop, if_neg h, List.drop_eq_nil_of_le hle, List.append_nil]

theorem Utf8.encode_eq (s : String) : encode s = s.toByteArray.data.toList := by
  rw [encode, ByteArray.toList, toList_loop_eq_drop]
  rfl

/-- A text is read back from its bytes. -/
theorem Utf8.decode?_encode (s : String) : Utf8.decode? (Utf8.encode s) = some s := by
  rw [encode_eq, decode?, Array.toArray_toList, String.fromUTF8?, dif_pos s.isValidUTF8]
  rfl

/-- The bytes of which a text has been read are its bytes. -/
theorem Utf8.encode_of_decode? {bs : List UInt8} {s : String} (h : decode? bs = some s) :
    encode s = bs := by
  rw [decode?, String.fromUTF8?] at h
  split at h
  · cases h
    rw [encode_eq]
    rfl
  · cases h

/-- What is read of the bytes of a text that break off is its beginning. -/
theorem Utf8.isCut_of_decode? {bs : List UInt8} {s t : String} (h : IsCut bs (encode t))
    (hs : decode? bs = some s) : IsCut s.toList t.toList := by
  obtain ⟨rest, hne, hbytes⟩ := h
  rw [← encode_of_decode? hs, encode_eq, encode_eq] at hbytes
  have happend : s.toList.utf8Encode ++ ⟨rest.toArray⟩ = t.toList.utf8Encode := by
    rw [String.utf8Encode_toList, String.utf8Encode_toList]
    exact ByteArray.ext (Array.toList_inj.mp (by simpa using hbytes))
  obtain ⟨chars, hchars⟩ := List.isPrefix_of_utf8Encode_append_eq_utf8Encode _ happend
  refine ⟨chars, ?_, hchars⟩
  rintro rfl
  obtain rfl : s = t := String.toList_inj.mp (by simpa using hchars)
  exact hne (by simpa using hbytes)

end CertSteward
