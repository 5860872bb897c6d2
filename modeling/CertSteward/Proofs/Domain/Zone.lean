import CertSteward.Proofs.Domain.Name

/-!
# The zones of a name

Whether a name lies in a zone is decided on bytes: the name has to end in as many bytes as the zone
has, those have to be the zone in some case, and the byte before them has to be a dot. On the labels
this says that those of the zone are the last ones of the name.

A cut at a byte could hit the inside of a character. It never does, as it is only made behind a dot:
in UTF-8 a byte below 128 is a character of its own, whatever characters are around it.

## Main definitions

* `Domain.labels` — the labels of a name in lower case

## Main results

* `Domain.eq_of_mem_utf8EncodeChar` — a byte below 128 is a character of its own
* `Domain.exists_of_bytes_getElem?` — where a text can be cut
* `Domain.inZone_iff_labels_suffix` — what is decided, and that no cut fails
-/

namespace CertSteward

namespace Domain

variable {c : Char} {s d z front rest : List Char} {n : Nat}

/-! ### Bytes and cuts -/

@[simp] theorem bytes_nil : bytes [] = [] := rfl

@[simp] theorem bytes_cons (c : Char) (s : List Char) :
    bytes (c :: s) = String.utf8EncodeChar c ++ bytes s := rfl

@[simp] theorem byteLength_nil : byteLength [] = 0 := rfl

@[simp] theorem byteLength_cons (c : Char) (s : List Char) :
    byteLength (c :: s) = c.utf8Size + byteLength s := by
  simp [byteLength_eq_sum]

@[simp] theorem byteLength_append (s t : List Char) :
    byteLength (s ++ t) = byteLength s + byteLength t := by
  simp [byteLength_eq_sum]

theorem length_bytes (s : List Char) : (bytes s).length = byteLength s := by
  induction s with
  | nil => rfl
  | cons c s ih => rw [bytes_cons, List.length_append, String.length_utf8EncodeChar, ih,
      byteLength_cons]

/-- The bytes of a character that takes more than one are all 128 or more. -/
theorem toNat_of_mem_utf8EncodeChar {b : UInt8} (h : b ∈ String.utf8EncodeChar c) :
    b.toNat = c.toNat ∨ 128 ≤ b.toNat := by
  have hlead : ∀ v k, 128 ≤ v % 256 → b = UInt8.ofNat v → b.toNat = k ∨ 128 ≤ b.toNat := by
    rintro v k hv rfl
    rw [UInt8.toNat_ofNat']
    exact .inr hv
  rw [String.utf8EncodeChar] at h
  split at h
  · rename_i hsmall
    obtain rfl := List.mem_singleton.mp h
    rw [UInt8.toNat_ofNat']
    exact .inl (Nat.mod_eq_of_lt (by omega))
  split at h
  · simp only [List.mem_cons, List.not_mem_nil, or_false] at h
    obtain h | h := h <;> exact hlead _ _ (by omega) h
  split at h
  · simp only [List.mem_cons, List.not_mem_nil, or_false] at h
    obtain h | h | h := h <;> exact hlead _ _ (by omega) h
  · simp only [List.mem_cons, List.not_mem_nil, or_false] at h
    obtain h | h | h | h := h <;> exact hlead _ _ (by omega) h

/-- A byte below 128 is a character of its own. -/
theorem eq_of_mem_utf8EncodeChar {a : Char} (ha : a.toNat < 128)
    (h : a.toNat.toUInt8 ∈ String.utf8EncodeChar c) : c = a := by
  have hbyte : a.toNat.toUInt8.toNat = a.toNat := by
    rw [Nat.toUInt8_eq, UInt8.toNat_ofNat']
    exact Nat.mod_eq_of_lt (by omega)
  refine Char.ext (UInt32.toNat_inj.mp ?_)
  change c.toNat = a.toNat
  obtain h | h := toNat_of_mem_utf8EncodeChar h <;> omega

theorem utf8Size_of_lt {a : Char} (ha : a.toNat < 128) : a.utf8Size = 1 :=
  Char.utf8Size_eq_one_iff.mpr (UInt32.le_iff_toNat_le.mpr (Nat.le_of_lt_succ ha))

/-- A text can be cut at the end of any of its parts. -/
theorem dropBytes?_append (front rest : List Char) :
    dropBytes? (byteLength front) (front ++ rest) = some rest := by
  induction front with
  | nil => rw [byteLength_nil, List.nil_append, dropBytes?]
  | cons c front ih =>
    have hpos := c.utf8Size_pos
    obtain ⟨n, hn⟩ : ∃ n, byteLength (c :: front) = n + 1 :=
      Nat.exists_eq_succ_of_ne_zero (by rw [byteLength_cons]; omega)
    have hle : c.utf8Size ≤ n + 1 := by rw [← hn, byteLength_cons]; omega
    have hrest : n + 1 - c.utf8Size = byteLength front := by rw [← hn, byteLength_cons]; omega
    rw [hn, List.cons_append, dropBytes?, if_pos hle, hrest, ih]

/-- The end of a text is found by its length. -/
theorem dropBytes?_of_append (h : d = front ++ rest) :
    dropBytes? (byteLength d - byteLength rest) d = some rest := by
  rw [h, byteLength_append, Nat.add_sub_cancel, dropBytes?_append]

/-- A byte below 128 shows a character, and what stands before it is a part of the text. -/
theorem exists_of_bytes_getElem? {a : Char} (ha : a.toNat < 128)
    (h : (bytes s)[n]? = some a.toNat.toUInt8) :
    ∃ front rest, s = front ++ a :: rest ∧ byteLength front = n := by
  induction s generalizing n with
  | nil => cases h
  | cons c s ih =>
    rw [bytes_cons, List.getElem?_append, String.length_utf8EncodeChar] at h
    split at h
    · rename_i hlt
      obtain rfl := eq_of_mem_utf8EncodeChar ha (List.mem_of_getElem? h)
      have hone := utf8Size_of_lt ha
      exact ⟨[], s, rfl, by rw [byteLength_nil]; omega⟩
    · rename_i hle
      obtain ⟨front, rest, rfl, hfront⟩ := ih h
      exact ⟨c :: front, rest, rfl, by rw [byteLength_cons]; omega⟩

/-- The byte behind a part of a text is that of the character there. -/
theorem bytes_getElem?_append {a : Char} (ha : a.toNat < 128) (front rest : List Char) :
    (bytes (front ++ a :: rest))[byteLength front]? = some a.toNat.toUInt8 := by
  rw [bytes, List.flatMap_append, ← bytes, List.getElem?_append_right (length_bytes front).le,
    length_bytes, Nat.sub_self, List.flatMap_cons,
    String.utf8EncodeChar_eq_singleton (utf8Size_of_lt ha)]
  rfl

/-! ### Case -/

/-- A letter takes one byte in either case. -/
theorem utf8Size_toLower (c : Char) : c.toLower.utf8Size = c.utf8Size := by
  by_cases h : c.isUpper = true
  · have hlower : c.toLower.isLower = true := by
      rw [Char.isLower_toLower_eq_isAlpha, Char.isAlpha, h, Bool.true_or]
    simp only [Char.isUpper, Char.isLower, Bool.and_eq_true, decide_eq_true_eq, ge_iff_le,
      UInt32.le_iff_toNat_le] at h hlower
    rw [Char.utf8Size_eq_one_iff.mpr, Char.utf8Size_eq_one_iff.mpr]
    · exact UInt32.le_iff_toNat_le.mpr (h.2.trans (by decide))
    · exact UInt32.le_iff_toNat_le.mpr (hlower.2.trans (by decide))
  · rw [Char.toLower_eq_of_not_isUpper (by simpa using h)]

theorem byteLength_lower (s : List Char) : byteLength (Chars.lower s) = byteLength s := by
  simp [byteLength_eq_sum, Chars.lower, Function.comp_def, utf8Size_toLower]

theorem byteLength_eq_of_same (h : Chars.lower s = Chars.lower z) :
    byteLength s = byteLength z := by
  rw [← byteLength_lower s, h, byteLength_lower]

/-- A text ends in a dot and another text in some case. -/
theorem suffix_lower_iff : '.' :: Chars.lower z <:+ Chars.lower d ↔
    ∃ front rest, d = front ++ '.' :: rest ∧ Chars.lower rest = Chars.lower z := by
  constructor
  · rintro ⟨before, h⟩
    obtain ⟨front, tail, rfl, -, htail⟩ := List.map_eq_append_iff.mp h.symm
    obtain ⟨dot, rest, rfl, hdot, hrest⟩ := List.map_eq_cons_iff.mp htail
    obtain rfl := (Chars.toLower_eq_iff (by decide)).mp hdot
    exact ⟨front, rest, rfl, hrest⟩
  · rintro ⟨front, rest, rfl, hrest⟩
    exact ⟨Chars.lower front, by rw [← hrest]; simp [Chars.lower]⟩

/-! ### Zones -/

/-- The labels of a name in lower case; dots at its end are left out. -/
def labels (name : String) : List (List Char) :=
  (Chars.splitOn '.' (Chars.dropEndWhile (· == '.') name.toList)).map Chars.lower

theorem labels_suffix_iff (domain zone : String) : labels zone <:+ labels domain ↔
    Chars.lower (Chars.dropEndWhile (· == '.') zone.toList) =
        Chars.lower (Chars.dropEndWhile (· == '.') domain.toList) ∨
      ∃ front rest, Chars.dropEndWhile (· == '.') domain.toList = front ++ '.' :: rest ∧
        Chars.lower rest = Chars.lower (Chars.dropEndWhile (· == '.') zone.toList) := by
  rw [labels, labels, Chars.map_lower_splitOn (by decide), Chars.map_lower_splitOn (by decide),
    Chars.splitOn_suffix_iff, suffix_lower_iff]

/-- The byte that is read before the end of a name is a dot exactly where one stands there. -/
theorem bytes_getElem?_eq_dot_iff (hlt : byteLength z < byteLength d) :
    (bytes d)[byteLength d - byteLength z - 1]? = some '.'.toNat.toUInt8 ↔
      ∃ front rest, d = front ++ '.' :: rest ∧ byteLength rest = byteLength z := by
  have hdot : '.'.toNat < 128 := by decide
  have hlength : ∀ front rest, byteLength (front ++ '.' :: rest) =
      byteLength front + 1 + byteLength rest := fun front rest => by
    rw [byteLength_append, byteLength_cons, utf8Size_of_lt hdot, Nat.add_assoc]
  constructor
  · intro h
    obtain ⟨front, rest, rfl, hfront⟩ := exists_of_bytes_getElem? hdot h
    have := hlength front rest
    exact ⟨front, rest, rfl, by omega⟩
  · rintro ⟨front, rest, rfl, hrest⟩
    have := hlength front rest
    rw [← bytes_getElem?_append hdot front rest]
    congr 1
    omega

/-- What is decided about a name that is longer than the zone. -/
theorem inZone?_of_lt {domain zone : String}
    (hd : d = Chars.dropEndWhile (· == '.') (base domain).toList)
    (hz : z = Chars.dropEndWhile (· == '.') zone.toList)
    (hne : Chars.lower d ≠ Chars.lower z) (hlt : byteLength z < byteLength d) :
    ∃ answer, inZone? domain zone = some answer ∧ (answer = true ↔
      ∃ front rest, d = front ++ '.' :: rest ∧ Chars.lower rest = Chars.lower z) := by
  obtain ⟨before, hbefore⟩ :
      ∃ before, (bytes d)[byteLength d - byteLength z - 1]? = some before :=
    ⟨_, List.getElem?_eq_getElem (by rw [length_bytes]; omega)⟩
  have hunfold : inZone? domain zone = if before ≠ '.'.toNat.toUInt8 then some false
      else (dropBytes? (byteLength d - byteLength z) d).map (Chars.sameIgnoringCase · z) := by
    rw [inZone?, ← hd, ← hz]
    dsimp only
    rw [if_neg (mt Chars.sameIgnoringCase_iff.mp hne), if_neg (Nat.not_le.mpr hlt), hbefore]
  have hread := bytes_getElem?_eq_dot_iff hlt
  rw [hbefore, Option.some.injEq] at hread
  rw [hunfold]
  split
  · rename_i hother
    refine ⟨false, rfl, iff_of_false nofun ?_⟩
    rintro ⟨front, rest, hsplit, hrest⟩
    exact hother (hread.mpr ⟨front, rest, hsplit, byteLength_eq_of_same hrest⟩)
  · rename_i hdot
    obtain ⟨front, rest, hsplit, hlength⟩ := hread.mp (not_not.mp hdot)
    -- there is one end of that length only
    have hcut : ∀ {front rest}, d = front ++ '.' :: rest → byteLength rest = byteLength z →
        dropBytes? (byteLength d - byteLength z) d = some rest := fun {front rest} hsplit hlength =>
      hlength ▸ dropBytes?_of_append (hsplit.trans (List.append_cons front '.' rest))
    rw [hcut hsplit hlength]
    refine ⟨_, rfl, fun hsame => ⟨front, rest, hsplit, Chars.sameIgnoringCase_iff.mp hsame⟩, ?_⟩
    rintro ⟨front', rest', hsplit', hrest'⟩
    have hrest := (hcut hsplit hlength).symm.trans (hcut hsplit' (byteLength_eq_of_same hrest'))
    rw [Option.some.inj hrest]
    exact Chars.sameIgnoringCase_iff.mpr hrest'

/-- The mark of a wildcard is left out. -/
theorem base_wildcard (name : String) : base ("*." ++ name) = name := by
  rw [base, String.toList_append]
  exact String.ofList_toList

/-- Any other name is its own base. -/
theorem base_of_ne {domain : String} (h : ∀ name, domain ≠ "*." ++ name) : base domain = domain := by
  rw [base, splitWildcard_of_ne_star, String.ofList_toList]
  intro rest hrest
  refine h (String.ofList rest) (String.toList_inj.mp ?_)
  simp [hrest]

/-- **A name lies in a zone if the labels of the zone are the last ones of the name**, from which
one leading `*.` is left out. This is decided for all texts: no byte is read and no cut made where
there is none. -/
theorem inZone_iff_labels_suffix (domain zone : String) :
    inZone? domain zone = some (inZone domain zone) ∧
      (inZone domain zone = true ↔ labels zone <:+ labels (base domain)) ∧
      (∀ name, domain = "*." ++ name → base domain = name) ∧
      ((∀ name, domain ≠ "*." ++ name) → base domain = domain) := by
  suffices h : ∃ answer, inZone? domain zone = some answer ∧
      (answer = true ↔ labels zone <:+ labels (base domain)) by
    obtain ⟨answer, hanswer, hiff⟩ := h
    rw [inZone, hanswer]
    exact ⟨rfl, hiff, fun name hname => hname ▸ base_wildcard name, base_of_ne⟩
  rw [labels_suffix_iff]
  generalize hd : Chars.dropEndWhile (· == '.') (base domain).toList = d
  generalize hz : Chars.dropEndWhile (· == '.') zone.toList = z
  by_cases hsame : Chars.lower d = Chars.lower z
  · refine ⟨true, ?_, iff_of_true rfl (.inl hsame.symm)⟩
    rw [inZone?, hd, hz]
    exact if_pos (Chars.sameIgnoringCase_iff.mpr hsame)
  rw [or_iff_right (Ne.symm hsame)]
  obtain hle | hlt := le_or_gt (byteLength d) (byteLength z)
  · refine ⟨false, ?_, iff_of_false nofun ?_⟩
    · rw [inZone?, hd, hz]
      exact (if_neg (mt Chars.sameIgnoringCase_iff.mp hsame)).trans (if_pos hle)
    · -- a name below the zone is longer, if only by the dot
      rintro ⟨front, rest, rfl, hrest⟩
      have hlength := byteLength_eq_of_same hrest
      have hpos := '.'.utf8Size_pos
      rw [byteLength_append, byteLength_cons] at hle
      omega
  · exact inZone?_of_lt hd.symm hz.symm hsame hlt

/-- The name of a zone written with a dot at its end and in capitals. -/
example : inZone "*.api.example.com" "Example.COM." = true := by decide +kernel

/-- What ends in the name of a zone without a dot before it does not lie in it. -/
example : inZone "badexample.com" "example.com" = false := by decide +kernel

end Domain

end CertSteward
