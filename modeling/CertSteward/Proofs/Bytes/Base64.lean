import CertSteward.Bytes.Base64

/-!
# Base64 reads what it writes

Reading follows writing group by group: three bytes against four characters, and a last group of
one or two bytes against what is filled up. Everything about a character is decided by its number,
of which there are 64.

## Main definitions

* `Base64.Alphabet.IsReadable` — what reading relies on; both alphabets have it

## Main results

* `Base64.Alphabet.IsReadable.decodeWith?_encodeWith` — bytes that were written are read again
* `Base64.encodeWith_all` — what is written are characters of the alphabet, and the filling
-/

namespace CertSteward

namespace Base64

/-- Every character of the alphabet has its number, and none is taken for filling. -/
structure Alphabet.IsReadable (a : Alphabet) : Prop where
  value?_char : ∀ {n : Nat}, n < 64 → a.value? (a.char n) = some n
  char_ne_fill : ∀ {n : Nat}, n < 64 → a.char n ≠ '='

theorem isReadable_standard : standard.IsReadable where
  value?_char {n} h := by
    have hall : ∀ n : Fin 64, standard.value? (standard.char n) = some n.val := by decide
    exact hall ⟨n, h⟩
  char_ne_fill {n} h := by
    have hall : ∀ n : Fin 64, standard.char n ≠ '=' := by decide
    exact hall ⟨n, h⟩

theorem isReadable_url : url.IsReadable where
  value?_char {n} h := by
    have hall : ∀ n : Fin 64, url.value? (url.char n) = some n.val := by decide
    exact hall ⟨n, h⟩
  char_ne_fill {n} h := by
    have hall : ∀ n : Fin 64, url.char n ≠ '=' := by decide
    exact hall ⟨n, h⟩

/-- The characters in which bytes are written. -/
def isWritten (c : Char) : Bool := (standard.value? c).isSome || c == '='

theorem isWritten_char {n : Nat} (h : n < 64) : isWritten (standard.char n) = true := by
  rw [isWritten, isReadable_standard.value?_char h]
  rfl

theorem toNat_lt_of_isWritten {c : Char} (h : isWritten c = true) : c.toNat < 128 := by
  have hle : ∀ d : Char, c ≤ d → c.toNat ≤ d.toNat := fun d hd => hd
  rw [isWritten, Bool.or_eq_true, beq_iff_eq] at h
  obtain h | rfl := h
  · unfold Alphabet.value? at h
    split at h
    · rename_i hc
      exact Nat.lt_of_le_of_lt (hle 'Z' hc.2) (by decide)
    split at h
    · rename_i hc
      exact Nat.lt_of_le_of_lt (hle 'z' hc.2) (by decide)
    split at h
    · rename_i hc
      exact Nat.lt_of_le_of_lt (hle '9' hc.2) (by decide)
    split at h
    · rename_i hc
      rw [hc]
      decide
    split at h
    · rename_i hc
      rw [hc]
      decide
    · cases h
  · decide

theorem isWritten_fill {n : Nat} : ∀ c ∈ standard.fill n, isWritten c = true := by
  intro c hc
  rw [List.eq_of_mem_replicate hc]
  decide

/-- **Bytes are written in characters of the alphabet**, and in filling. -/
theorem encodeWith_all (bs : List UInt8) : ∀ c ∈ encodeWith standard bs, isWritten c = true := by
  induction bs using encodeWith.induct with
  | case1 => exact fun _ h => absurd h List.not_mem_nil
  | case2 x =>
    have hx := x.toNat_lt
    intro c hc
    simp only [encodeWith, List.mem_cons] at hc
    obtain rfl | rfl | hc := hc
    · exact isWritten_char (by omega)
    · exact isWritten_char (by omega)
    · exact isWritten_fill c hc
  | case3 x y =>
    have hx := x.toNat_lt
    have hy := y.toNat_lt
    intro c hc
    simp only [encodeWith, List.mem_cons] at hc
    obtain rfl | rfl | rfl | hc := hc
    · exact isWritten_char (by omega)
    · exact isWritten_char (by omega)
    · exact isWritten_char (by omega)
    · exact isWritten_fill c hc
  | case4 x y z rest ih =>
    have hx := x.toNat_lt
    have hy := y.toNat_lt
    have hz := z.toNat_lt
    intro c hc
    simp only [encodeWith, List.mem_cons] at hc
    obtain rfl | rfl | rfl | rfl | hc := hc
    · exact isWritten_char (by omega)
    · exact isWritten_char (by omega)
    · exact isWritten_char (by omega)
    · exact isWritten_char (by omega)
    · exact ih c hc

/-! ### Groups -/

theorem ofNat_eq {n : Nat} {x : UInt8} (h : n = x.toNat) : UInt8.ofNat n = x := by
  rw [h, UInt8.ofNat_toNat]

namespace Alphabet.IsReadable

variable {a : Alphabet}

/-- One byte is read again. -/
theorem decodeTwo?_char (ha : a.IsReadable) (x : UInt8) :
    decodeTwo? a (a.char (x.toNat / 4)) (a.char (x.toNat % 4 * 16)) = some [x] := by
  have hx := x.toNat_lt
  rw [decodeTwo?, ha.value?_char (by omega), ha.value?_char (by omega)]
  have hrest : x.toNat % 4 * 16 % 16 = 0 := by omega
  have hbyte : UInt8.ofNat (x.toNat / 4 * 4 + x.toNat % 4 * 16 / 16) = x := ofNat_eq (by omega)
  simp only [Option.bind_eq_bind, Option.bind_some, hrest, hbyte, if_true]

/-- Two bytes are read again. -/
theorem decodeThree?_char (ha : a.IsReadable) (x y : UInt8) :
    decodeThree? a (a.char (x.toNat / 4)) (a.char (x.toNat % 4 * 16 + y.toNat / 16))
      (a.char (y.toNat % 16 * 4)) = some [x, y] := by
  have hx := x.toNat_lt
  have hy := y.toNat_lt
  rw [decodeThree?, ha.value?_char (by omega), ha.value?_char (by omega),
    ha.value?_char (by omega)]
  have hrest : y.toNat % 16 * 4 % 4 = 0 := by omega
  have hfirst : UInt8.ofNat (x.toNat / 4 * 4 + (x.toNat % 4 * 16 + y.toNat / 16) / 16) = x :=
    ofNat_eq (by omega)
  have hsecond : UInt8.ofNat ((x.toNat % 4 * 16 + y.toNat / 16) % 16 * 16 +
      y.toNat % 16 * 4 / 4) = y := ofNat_eq (by omega)
  simp only [Option.bind_eq_bind, Option.bind_some, hrest, hfirst, hsecond, if_true]

/-- **Bytes that were written are read again.** -/
theorem decodeWith?_encodeWith (ha : a.IsReadable) (bs : List UInt8) :
    decodeWith? a (encodeWith a bs) = some bs := by
  induction bs using encodeWith.induct with
  | case1 => rfl
  | case2 x =>
    have h := ha.decodeTwo?_char x
    cases hfilled : a.filled
    · simp only [encodeWith, Alphabet.fill, hfilled, Bool.false_eq_true, if_false, decodeWith?, h]
    · simp only [encodeWith, Alphabet.fill, hfilled, if_true, List.replicate, decodeWith?, h,
        and_self]
  | case3 x y =>
    have hlast : a.char (y.toNat % 16 * 4) ≠ '=' := ha.char_ne_fill (by omega)
    have h := ha.decodeThree?_char x y
    cases hfilled : a.filled
    · simp only [encodeWith, Alphabet.fill, hfilled, Bool.false_eq_true, if_false, decodeWith?, h]
    · simp only [encodeWith, Alphabet.fill, hfilled, if_true, List.replicate, decodeWith?, h,
        hlast, if_false, and_self]
  | case4 x y z rest ih =>
    have hx := x.toNat_lt
    have hy := y.toNat_lt
    have hz := z.toNat_lt
    have hlast : a.char (z.toNat % 64) ≠ '=' := ha.char_ne_fill (by omega)
    rw [encodeWith, decodeWith?, if_neg hlast, ha.value?_char (by omega),
      ha.value?_char (by omega), ha.value?_char (by omega), ha.value?_char (by omega), ih]
    have hfirst : UInt8.ofNat (x.toNat / 4 * 4 + (x.toNat % 4 * 16 + y.toNat / 16) / 16) = x :=
      ofNat_eq (by omega)
    have hsecond : UInt8.ofNat ((x.toNat % 4 * 16 + y.toNat / 16) % 16 * 16 +
        (y.toNat % 16 * 4 + z.toNat / 64) / 4) = y := ofNat_eq (by omega)
    have hthird : UInt8.ofNat ((y.toNat % 16 * 4 + z.toNat / 64) % 4 * 64 + z.toNat % 64) = z :=
      ofNat_eq (by omega)
    simp only [Option.bind_eq_bind, Option.bind_some, hfirst, hsecond, hthird]
    rfl

end Alphabet.IsReadable

/-- Bytes written in the alphabet for URLs are read again. -/
theorem decodeUrl?_encodeUrl (bs : List UInt8) : decodeUrl? (encodeUrl bs) = some bs := by
  rw [decodeUrl?, encodeUrl, String.toList_ofList, isReadable_url.decodeWith?_encodeWith]

end Base64

end CertSteward
