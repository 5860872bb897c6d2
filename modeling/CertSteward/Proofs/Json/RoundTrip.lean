import CertSteward.Json.Printer
import CertSteward.Json.Reader

/-!
# What is written in JSON is read back

The indented form of a value is read back as that value, if there are no numbers in it and its
arrays and objects are nested less deep than the reader allows. Doubles are why numbers are left
out: what is written of them is read back only up to rounding.

The bound on the steps of the reader is met because each value takes fewer steps than it has
characters.

## Main definitions

* `Json.Fits` — values without numbers, nested less deep than a bound

## Main results

* `Json.quoted?_flatMap` — a quoted text is read back
* `Json.Fits.readBack` — a value is read back, whatever follows it
* `Json.Fits.parse?_pretty` — a whole text is read back
-/

namespace CertSteward

namespace Json

/-! ### Quoted texts -/

/-- A digit that is written is read back. -/
theorem hexDigit?_hexDigit : ∀ n < 16, Chars.hexDigit? (hexDigit n) = some n := by decide

theorem hex4?_of_lt {n : Nat} (h : n < 0x100) (s : List Char) :
    hex4? ('0' :: '0' :: hexDigit (n / 16) :: hexDigit (n % 16) :: s) = some (n, s) := by
  have hhi := hexDigit?_hexDigit (n / 16) (by omega)
  have hlo := hexDigit?_hexDigit (n % 16) (by omega)
  have hzero : Chars.hexDigit? '0' = some 0 := rfl
  simp only [hex4?, hhi, hlo, hzero, Option.bind_eq_bind, Option.bind_some, Option.pure_def,
    Option.some.injEq, Prod.mk.injEq, and_true]
  omega

/-- A character that stands for itself inside a quoted text. -/
theorem quoted?_cons_self {c : Char} (hquote : c ≠ '"') (hslash : c ≠ '\\')
    (hplain : ¬ c.toNat < 0x20) (fuel : Nat) (done s : List Char) :
    quoted? (fuel + 1) done (c :: s) = quoted? fuel (c :: done) s := by
  rw [quoted?.eq_def]
  simp only [if_neg hquote, if_neg hplain, if_neg hslash]

/-- A character that is written with a backslash and one more. -/
theorem quoted?_simple {e c : Char} (hne : e ≠ 'u') (he : simpleEscape? e = some c) (fuel : Nat)
    (done s : List Char) :
    quoted? (fuel + 1) done ('\\' :: e :: s) = quoted? fuel (c :: done) s := by
  rw [quoted?.eq_def]
  simp [he]

/-- A control character that is written with its number. -/
theorem quoted?_unicode {c : Char} (h : c.toNat < 0x20) (fuel : Nat) (done s : List Char) :
    quoted? (fuel + 1) done
      ('\\' :: 'u' :: '0' :: '0' :: hexDigit (c.toNat / 16) :: hexDigit (c.toNat % 16) :: s) =
        quoted? fuel (c :: done) s := by
  have hread := hex4?_of_lt (n := c.toNat) (by omega) s
  rw [quoted?.eq_def]
  simp [unicodeEscape?, hread, if_pos (show c.toNat < 0xD800 ∨ 0xDFFF < c.toNat by omega),
    Char.ofNat_toNat]

/-- A character inside a quoted text is read back. -/
theorem quoted?_escapeChar (c : Char) (fuel : Nat) (done s : List Char) :
    quoted? (fuel + 1) done (escapeChar c ++ s) = quoted? fuel (c :: done) s := by
  have hnat : ∀ n, c.toNat = n → c = Char.ofNat n := fun n h => by rw [← h, Char.ofNat_toNat]
  unfold escapeChar
  split
  · next h => exact quoted?_simple (by decide) (by rw [h]; rfl) ..
  next hquote =>
  split
  · next h => exact quoted?_simple (by decide) (by rw [h]; rfl) ..
  next hslash =>
  split
  · next h => exact quoted?_simple (by decide) (by rw [h]; rfl) ..
  split
  · next h => exact quoted?_simple (by decide) (by rw [h]; rfl) ..
  split
  · next h => exact quoted?_simple (by decide) (by rw [h]; rfl) ..
  split
  · next h => exact quoted?_simple (by decide) (by rw [hnat 8 h]; rfl) ..
  split
  · next h => exact quoted?_simple (by decide) (by rw [hnat 12 h]; rfl) ..
  split
  · next h => exact quoted?_unicode h ..
  · next hplain => exact quoted?_cons_self hquote hslash hplain ..

/-- What is written between the marks of a quoted text is read back. -/
theorem quoted?_flatMap (cs : List Char) : ∀ (fuel : Nat) (done rest : List Char),
    cs.length < fuel →
      quoted? fuel done (cs.flatMap escapeChar ++ '"' :: rest) =
        some (String.ofList (done.reverse ++ cs), rest) := by
  induction cs with
  | nil =>
    intro fuel done rest hfuel
    obtain ⟨fuel, rfl⟩ := Nat.exists_eq_add_one_of_ne_zero (Nat.ne_of_gt hfuel)
    simp [quoted?]
  | cons c cs ih =>
    intro fuel done rest hfuel
    obtain ⟨fuel, rfl⟩ := Nat.exists_eq_add_one_of_ne_zero (Nat.ne_of_gt (Nat.zero_lt_of_lt hfuel))
    rw [List.flatMap_cons, List.append_assoc, quoted?_escapeChar,
      ih fuel (c :: done) rest (Nat.lt_of_succ_lt_succ hfuel)]
    simp

theorem length_escapeChar (c : Char) : 1 ≤ (escapeChar c).length := by
  unfold escapeChar
  repeat' split
  all_goals simp

theorem length_flatMap_escapeChar (cs : List Char) :
    cs.length ≤ (cs.flatMap escapeChar).length := by
  induction cs with
  | nil => simp
  | cons c cs ih =>
    have := length_escapeChar c
    simp only [List.flatMap_cons, List.length_append, List.length_cons]
    omega

/-- The inside of a quoted text is read with one step for each character that is left. -/
theorem quoted?_quote (s : String) (rest : List Char) :
    ∃ inside, (quote s).toList ++ rest = '"' :: inside ∧
      quoted? (inside.length + 1) [] inside = some (s, rest) := by
  refine ⟨s.toList.flatMap escapeChar ++ '"' :: rest, by simp [quote], ?_⟩
  have hlength := length_flatMap_escapeChar s.toList
  rw [quoted?_flatMap _ _ _ _ (by simp only [List.length_append, List.length_cons]; omega)]
  simp

/-! ### Blanks -/

theorem skipGap_skipGap (s : List Char) : skipGap (skipGap s) = skipGap s := by
  induction s with
  | nil => rfl
  | cons c s ih =>
    simp only [skipGap, List.dropWhile_cons] at ih ⊢
    split
    · exact ih
    · next h => rw [List.dropWhile_cons_of_neg h]

/-- A character that is no blank ends the blanks. -/
theorem skipGap_cons {c : Char} (h : isGap c = false) (s : List Char) :
    skipGap (c :: s) = c :: s := by
  simp [skipGap, h]

theorem skipGap_lineBreak (depth : Nat) (s : List Char) :
    skipGap ((lineBreak depth).toList ++ s) = skipGap s := by
  have hgap : ∀ c ∈ (lineBreak depth).toList, isGap c = true := by
    simp only [lineBreak, String.toList_ofList, List.mem_cons]
    rintro c (rfl | hc)
    · rfl
    · rw [List.eq_of_mem_replicate hc]; rfl
  exact List.dropWhile_append_of_pos hgap

/-- Readers pass over blanks. -/
theorem value?_congr {s t : List Char} (h : skipGap s = skipGap t) (fuel levels : Nat) :
    value? fuel levels s = value? fuel levels t := by
  cases fuel with
  | zero => simp [value?]
  | succ fuel => simp only [value?, h]

theorem elements?_congr {s t : List Char} (h : skipGap s = skipGap t) (fuel levels : Nat) :
    elements? fuel levels s = elements? fuel levels t := by
  cases fuel with
  | zero => simp [elements?]
  | succ fuel => simp only [elements?, value?_congr h]

theorem members?_congr {s t : List Char} (h : skipGap s = skipGap t) (fuel levels : Nat) :
    members? fuel levels s = members? fuel levels t := by
  cases fuel with
  | zero => simp [members?]
  | succ fuel => simp only [members?, h]

/-! ### Values -/

/-- A value without numbers whose arrays and objects are nested less than `levels` deep. -/
inductive Fits : Nat → Json → Prop
  | null (levels : Nat) : Fits levels .null
  | bool (levels : Nat) (b : Bool) : Fits levels (.bool b)
  | string (levels : Nat) (s : String) : Fits levels (.string s)
  | array {levels : Nat} {xs : List Json} (h : ∀ x ∈ xs, Fits (levels + 1) x) :
      Fits (levels + 2) (.array xs)
  | object {levels : Nat} {ms : List (String × Json)} (h : ∀ m ∈ ms, Fits (levels + 1) m.2) :
      Fits (levels + 2) (.object ms)

theorem value?_blank (fuel levels : Nat) (s : List Char) :
    value? fuel levels (' ' :: s) = value? fuel levels s :=
  value?_congr (show skipGap (' ' :: s) = skipGap s from rfl) fuel levels

theorem value?_lineBreak (depth fuel levels : Nat) (s : List Char) :
    value? fuel levels ((lineBreak depth).toList ++ s) = value? fuel levels s :=
  value?_congr (skipGap_lineBreak depth s) fuel levels

/-- The first character that is written of a value. It is no blank, and it closes nothing. -/
theorem exists_prettyAt_cons {levels : Nat} {v : Json} (h : Fits levels v) (depth : Nat) :
    ∃ c s, (prettyAt depth v).toList = c :: s ∧ isGap c = false ∧ c ≠ ']' := by
  cases h with
  | null => exact ⟨'n', _, by simp [prettyAt]; rfl, rfl, by decide⟩
  | bool levels b =>
    cases b with
    | true => exact ⟨'t', _, by simp [prettyAt]; rfl, rfl, by decide⟩
    | false => exact ⟨'f', _, by simp [prettyAt]; rfl, rfl, by decide⟩
  | string levels s => exact ⟨'"', _, by simp [prettyAt, quote]; rfl, rfl, by decide⟩
  | @array levels xs h =>
    cases xs with
    | nil => exact ⟨'[', _, by simp [prettyAt]; rfl, rfl, by decide⟩
    | cons x xs => exact ⟨'[', _, by simp [prettyAt]; rfl, rfl, by decide⟩
  | @object levels ms h =>
    cases ms with
    | nil => exact ⟨'\x7b', _, by simp [prettyAt]; rfl, rfl, by decide⟩
    | cons m ms => exact ⟨'\x7b', _, by simp [prettyAt]; rfl, rfl, by decide⟩

theorem Fits.prettyAt_ne_nil {levels : Nat} {v : Json} (h : Fits levels v) (depth : Nat) :
    (prettyAt depth v).toList ≠ [] := by
  obtain ⟨c, s, hcons, -⟩ := exists_prettyAt_cons h depth
  rw [hcons]
  exact List.cons_ne_nil c s

/-- That a value is read back from its indented form, whatever follows, with as many steps as the
form has characters. -/
def ReadBack (levels : Nat) (v : Json) : Prop :=
  ∀ fuel depth rest, (prettyAt depth v).toList.length ≤ fuel →
    value? fuel levels ((prettyAt depth v).toList ++ rest) = some (v, rest)

theorem elements?_prettyElements {levels : Nat} {xs : List Json} (hne : xs ≠ [])
    (h : ∀ x ∈ xs, ReadBack levels x) : ∀ (fuel depth outer : Nat) (rest : List Char),
      (prettyElements depth xs).toList.length ≤ fuel →
        elements? fuel levels ((prettyElements depth xs).toList ++
          ((lineBreak outer).toList ++ ']' :: rest)) = some (xs, rest) := by
  induction xs with
  | nil => exact absurd rfl hne
  | cons x xs ih =>
    intro fuel depth outer rest hfuel
    have hx := h x List.mem_cons_self
    cases xs with
    | nil =>
      simp only [prettyElements, String.toList_append, List.length_append, lineBreak,
        String.toList_ofList, List.length_cons] at hfuel
      obtain ⟨fuel, rfl⟩ := Nat.exists_eq_add_one_of_ne_zero (n := fuel) (by omega)
      rw [elements?, prettyElements, String.toList_append, List.append_assoc, value?_lineBreak,
        hx _ _ _ (by omega)]
      simp [skipGap_lineBreak, skipGap_cons (show isGap ']' = false from rfl)]
    | cons y ys =>
      simp only [prettyElements, String.toList_append, List.length_append, lineBreak,
        String.toList_ofList, List.length_cons] at hfuel
      obtain ⟨fuel, rfl⟩ := Nat.exists_eq_add_one_of_ne_zero (n := fuel) (by omega)
      have hys := ih (by simp) (fun z hz => h z (List.mem_cons_of_mem _ hz)) fuel depth outer rest
        (by omega)
      rw [elements?, prettyElements]
      simp only [String.toList_append, List.append_assoc]
      rw [value?_lineBreak, hx _ _ _ (by omega)]
      simp [skipGap_cons (show isGap ',' = false from rfl), hys]

/-- Reading one member, up to what follows its value. -/
theorem members?_member {levels fuel depth : Nat} {k : String} {v : Json} (hv : ReadBack levels v)
    (hfuel : (prettyAt depth v).toList.length ≤ fuel) (rest : List Char) :
    members? (fuel + 1) levels ((lineBreak depth).toList ++ ((quote k).toList ++
      (": ".toList ++ ((prettyAt depth v).toList ++ rest)))) =
        match skipGap rest with
        | ',' :: s => (members? fuel levels s).map fun (ms, s) => ((k, v) :: ms, s)
        | '\x7d' :: s => some ([(k, v)], s)
        | _ => none := by
  obtain ⟨inside, htext, hread⟩ :=
    quoted?_quote k (": ".toList ++ ((prettyAt depth v).toList ++ rest))
  have hvalue := hv fuel depth rest hfuel
  have hcolon : skipGap (": ".toList ++ ((prettyAt depth v).toList ++ rest)) =
      ':' :: ' ' :: ((prettyAt depth v).toList ++ rest) := rfl
  rw [members?, skipGap_lineBreak, htext, skipGap_cons rfl]
  simp only [hread, hcolon, value?_blank]
  exact hvalue ▸ rfl

theorem members?_prettyMembers {levels : Nat} {ms : List (String × Json)} (hne : ms ≠ [])
    (h : ∀ m ∈ ms, ReadBack levels m.2) : ∀ (fuel depth outer : Nat) (rest : List Char),
      (prettyMembers depth ms).toList.length ≤ fuel →
        members? fuel levels ((prettyMembers depth ms).toList ++
          ((lineBreak outer).toList ++ '\x7d' :: rest)) = some (ms, rest) := by
  induction ms with
  | nil => exact absurd rfl hne
  | cons m ms ih =>
    intro fuel depth outer rest hfuel
    obtain ⟨k, v⟩ := m
    have hv : ReadBack levels v := h _ List.mem_cons_self
    cases ms with
    | nil =>
      simp only [prettyMembers, String.toList_append, List.length_append, lineBreak,
        String.toList_ofList, List.length_cons] at hfuel
      obtain ⟨fuel, rfl⟩ := Nat.exists_eq_add_one_of_ne_zero (n := fuel) (by omega)
      simp only [prettyMembers, String.toList_append, List.append_assoc]
      rw [members?_member hv (by omega), skipGap_lineBreak, skipGap_cons rfl]
      rfl
    | cons n ms =>
      simp only [prettyMembers, String.toList_append, List.length_append, lineBreak,
        String.toList_ofList, List.length_cons] at hfuel
      obtain ⟨fuel, rfl⟩ := Nat.exists_eq_add_one_of_ne_zero (n := fuel) (by omega)
      have hms := ih (by simp) (fun m hm => h m (List.mem_cons_of_mem _ hm)) fuel depth outer rest
        (by omega)
      simp only [prettyMembers, String.toList_append, List.append_assoc]
      rw [members?_member hv (by omega), show ",".toList = [','] from rfl, List.singleton_append,
        skipGap_cons rfl]
      simp only [hms, Option.map_some]

/-- Where the first of several elements begins. -/
theorem exists_prettyElements_cons {levels : Nat} {x : Json} (h : Fits levels x) (depth : Nat)
    (xs : List Json) (rest : List Char) :
    ∃ c s, skipGap ((prettyElements depth (x :: xs)).toList ++ rest) = c :: s ∧ c ≠ ']' := by
  obtain ⟨c, s, hcons, hgap, hclose⟩ := exists_prettyAt_cons h depth
  cases xs with
  | nil =>
    refine ⟨c, s ++ rest, ?_, hclose⟩
    simp only [prettyElements, String.toList_append, List.append_assoc, skipGap_lineBreak, hcons,
      List.cons_append, skipGap_cons hgap]
  | cons y xs =>
    refine ⟨c, s ++ (",".toList ++ ((prettyElements depth (y :: xs)).toList ++ rest)), ?_, hclose⟩
    simp only [prettyElements, String.toList_append, List.append_assoc, skipGap_lineBreak, hcons,
      List.cons_append, skipGap_cons hgap]

/-- Where the first of several members begins. -/
theorem exists_prettyMembers_cons (depth : Nat) (m : String × Json) (ms : List (String × Json))
    (rest : List Char) :
    ∃ s, skipGap ((prettyMembers depth (m :: ms)).toList ++ rest) = '"' :: s := by
  obtain ⟨k, v⟩ := m
  cases ms with
  | nil =>
    obtain ⟨s, hs, -⟩ := quoted?_quote k (": ".toList ++ ((prettyAt depth v).toList ++ rest))
    refine ⟨s, ?_⟩
    simp only [prettyMembers, String.toList_append, List.append_assoc, skipGap_lineBreak, hs]
    rfl
  | cons n ms =>
    obtain ⟨s, hs, -⟩ := quoted?_quote k (": ".toList ++ ((prettyAt depth v).toList ++
      (",".toList ++ ((prettyMembers depth (n :: ms)).toList ++ rest))))
    refine ⟨s, ?_⟩
    simp only [prettyMembers, String.toList_append, List.append_assoc, skipGap_lineBreak, hs]
    rfl

/-- An array that does not end at once is read element by element. -/
theorem value?_array {s t : List Char} {c : Char} (h : skipGap s = c :: t) (hc : c ≠ ']')
    (fuel levels : Nat) :
    value? (fuel + 1) (levels + 2) ('[' :: s) =
      (elements? fuel (levels + 1) s).map fun (xs, s) => (array xs, s) := by
  have hskip : skipGap (c :: t) = skipGap s := by rw [← h, skipGap_skipGap]
  rw [value?, skipGap_cons rfl]
  simp only [h]
  rw [if_neg (by omega), ← elements?_congr hskip]
  split
  · next heq => exact absurd (List.cons.inj heq).1 hc
  · rfl

/-- An object that does not end at once is read member by member. -/
theorem value?_object {s t : List Char} (h : skipGap s = '"' :: t) (fuel levels : Nat) :
    value? (fuel + 1) (levels + 2) ('\x7b' :: s) =
      (members? fuel (levels + 1) s).map fun (ms, s) => (object ms, s) := by
  have hskip : skipGap ('"' :: t) = skipGap s := by rw [← h, skipGap_skipGap]
  rw [value?, skipGap_cons rfl]
  simp only [h]
  rw [if_neg (by omega), ← members?_congr hskip]
  rfl

/-- A scalar is read with the step that every reader takes. -/
theorem readBack_of_succ {levels : Nat} {v : Json}
    (h : ∀ fuel depth rest, (prettyAt depth v).toList.length ≤ fuel + 1 →
      value? (fuel + 1) levels ((prettyAt depth v).toList ++ rest) = some (v, rest))
    (hne : ∀ depth, (prettyAt depth v).toList ≠ []) : ReadBack levels v := by
  intro fuel depth rest hfuel
  have hpos := List.length_pos_iff.mpr (hne depth)
  obtain ⟨fuel, rfl⟩ := Nat.exists_eq_add_one_of_ne_zero (n := fuel) (by omega)
  exact h fuel depth rest hfuel

/-- A value is read back from its indented form. -/
theorem Fits.readBack {levels : Nat} {v : Json} (h : Fits levels v) : ReadBack levels v := by
  refine readBack_of_succ ?_ h.prettyAt_ne_nil
  induction h with
  | null => intro fuel depth rest _; simp [prettyAt, value?, skipGap, isGap, word?, Chars.stripStart?]
  | bool levels b =>
    intro fuel depth rest _
    cases b <;> simp [prettyAt, value?, skipGap, isGap, word?, Chars.stripStart?]
  | string levels s =>
    intro fuel depth rest _
    obtain ⟨inside, htext, hread⟩ := quoted?_quote s rest
    rw [prettyAt, htext, value?, skipGap_cons rfl]
    simp only [hread, Option.map_some]
  | @array levels xs h ih =>
    intro fuel depth rest hfuel
    cases xs with
    | nil => simp [prettyAt, value?, skipGap, isGap]
    | cons x xs =>
      simp only [prettyAt, String.toList_append, List.length_append, List.append_assoc] at hfuel ⊢
      obtain ⟨c, s, hcons, hclose⟩ := exists_prettyElements_cons (h x List.mem_cons_self)
        (depth + 1) xs ((lineBreak depth).toList ++ ']' :: rest)
      have hread := elements?_prettyElements (List.cons_ne_nil x xs)
        (fun y hy => readBack_of_succ (ih y hy) (h y hy).prettyAt_ne_nil) fuel (depth + 1) depth rest
        (by simp at hfuel; omega)
      exact (value?_array hcons hclose fuel levels).trans (by rw [hread]; rfl)
  | @object levels ms h ih =>
    intro fuel depth rest hfuel
    cases ms with
    | nil => simp [prettyAt, value?, skipGap, isGap]
    | cons m ms =>
      simp only [prettyAt, String.toList_append, List.length_append, List.append_assoc] at hfuel ⊢
      obtain ⟨s, hcons⟩ := exists_prettyMembers_cons (depth + 1) m ms
        ((lineBreak depth).toList ++ '\x7d' :: rest)
      have hread := members?_prettyMembers (List.cons_ne_nil m ms)
        (fun n hn => readBack_of_succ (ih n hn) (h n hn).prettyAt_ne_nil) fuel (depth + 1) depth rest
        (by simp at hfuel; omega)
      exact (value?_object hcons fuel levels).trans (by rw [hread]; rfl)

/-- A whole text is read back. -/
theorem Fits.parse?_pretty {v : Json} (h : Fits maxLevels v) : parse? v.pretty = some v := by
  have hread := h.readBack (2 * v.pretty.toList.length + 2) 0 [] (by rw [pretty]; omega)
  rw [List.append_nil] at hread
  simp only [parse?]
  rw [← pretty] at hread
  rw [hread]
  rfl

end Json

end CertSteward
