import CertSteward.Proofs.Bytes.Utf8
import CertSteward.Proofs.Json.RoundTrip

/-!
# What breaks off in JSON is not read

Of the indented form of a value without numbers no beginning is read as a value, whichever place it
breaks off at: a quoted text lacks its closing mark, an array or an object its bracket, and none of
the three words is the beginning of another one.

The proof follows the form from left to right. What stands before the place at which it breaks off
is read as in the whole form.

## Main definitions

* `Json.Unread` — values of whose form no beginning is read

## Main results

* `Json.quoted?_of_isCut` — a quoted text that breaks off is not read
* `Json.Fits.unread` — a value that breaks off is not read
* `Json.Fits.parse?_of_isCut` — a whole text that breaks off is not read
-/

namespace CertSteward

namespace Json

variable {s : List Char} {levels : Nat} {v : Json}

/-! ### Quoted texts -/

theorem quoted?_nil (fuel : Nat) (done : List Char) : quoted? fuel done [] = none := by
  cases fuel <;> simp [quoted?]

/-- How many characters stand for one inside a quoted text: itself, a backslash and one more, or
the number behind a backslash. -/
theorem escapeChar_cases (c : Char) :
    escapeChar c = [c] ∨ (∃ e, escapeChar c = ['\\', e]) ∨
      ∃ a b, escapeChar c = ['\\', 'u', '0', '0', a, b] := by
  unfold escapeChar
  repeat' split
  all_goals simp

/-- A character that breaks off inside a quoted text. -/
theorem quoted?_of_isCut_escapeChar {c : Char} (h : IsCut s (escapeChar c)) (fuel : Nat)
    (done : List Char) : quoted? fuel done s = none := by
  obtain ⟨fuel, rfl⟩ | rfl : (∃ n, fuel = n + 1) ∨ fuel = 0 := by cases fuel <;> simp
  case inr => simp [quoted?]
  rcases escapeChar_cases c with hself | ⟨e, hsimple⟩ | ⟨a, b, hnumber⟩
  · rw [hself] at h
    obtain rfl : s = [] := by simpa [isCut_cons_iff, not_isCut_nil] using h
    exact quoted?_nil _ done
  · rw [hsimple] at h
    obtain rfl | rfl : s = [] ∨ s = ['\\'] := by simpa [isCut_cons_iff, not_isCut_nil] using h
    · exact quoted?_nil _ done
    · simp [quoted?]
  · simp only [hnumber, isCut_cons_iff, not_isCut_nil, and_false, exists_false, or_false] at h
    obtain rfl | ⟨_, rfl, rfl | ⟨_, rfl, rfl | ⟨_, rfl, rfl | ⟨_, rfl, rfl | ⟨_, rfl, rfl⟩⟩⟩⟩⟩ := h
    all_goals simp [quoted?, unicodeEscape?, hex4?]

/-- A quoted text is not read before its closing mark. -/
theorem quoted?_of_isCut (cs : List Char) : ∀ (fuel : Nat) (done s : List Char),
    IsCut s (cs.flatMap escapeChar ++ ['"']) → quoted? fuel done s = none := by
  induction cs with
  | nil =>
    intro fuel done s h
    obtain rfl : s = [] := by simpa [isCut_cons_iff, not_isCut_nil] using h
    exact quoted?_nil fuel done
  | cons c cs ih =>
    intro fuel done s h
    rw [List.flatMap_cons, List.append_assoc] at h
    rcases h.append with hchar | ⟨t, rfl, ht⟩
    · exact quoted?_of_isCut_escapeChar hchar fuel done
    · cases fuel with
      | zero => simp [quoted?]
      | succ fuel => rw [quoted?_escapeChar, ih fuel (c :: done) t ht]

/-- What a quoted text begins with that breaks off. -/
theorem exists_of_isCut_quote {k : String} (h : IsCut s (quote k).toList) :
    s = [] ∨ ∃ t, s = '"' :: t ∧ ∀ fuel, quoted? fuel [] t = none := by
  simp only [quote, String.toList_ofList, List.cons_append, isCut_cons_iff] at h
  rcases h with rfl | ⟨t, rfl, h⟩
  · exact .inl rfl
  · exact .inr ⟨t, rfl, fun fuel => quoted?_of_isCut _ fuel [] t h⟩

/-! ### Blanks -/

theorem skipGap_append (s t : List Char) :
    skipGap (s ++ t) = if skipGap s = [] then skipGap t else skipGap s ++ t := by
  rw [skipGap, List.dropWhile_append]
  by_cases h : s.dropWhile isGap = [] <;> simp [skipGap, h]

/-- Behind its blanks a text that breaks off begins like the whole one, if anything is left. -/
theorem ne_cons_of_isCut {t u : List Char} {c d : Char} (h : IsCut s t) (ht : skipGap t = c :: u)
    (hne : c ≠ d) (w : List Char) : skipGap s ≠ d :: w := by
  rintro hs
  obtain ⟨rest, -, rfl⟩ := h
  rw [skipGap_append, hs, if_neg (List.cons_ne_nil d w)] at ht
  exact hne (List.cons.inj ht).1.symm

/-- A line break that breaks off has nothing but blanks. -/
theorem skipGap_of_isCut_lineBreak {depth : Nat} (h : IsCut s (lineBreak depth).toList) :
    skipGap s = [] := by
  obtain ⟨rest, -, h⟩ := h
  have hall := skipGap_lineBreak depth []
  rw [List.append_nil, ← h, skipGap_append] at hall
  split at hall
  · assumption
  · exact (List.append_eq_nil_iff.mp hall).1

/-- Nothing but blanks stands before what closes an array or an object. -/
theorem skipGap_of_isCut_closing {depth : Nat} {c : Char}
    (h : IsCut s ((lineBreak depth).toList ++ [c])) : skipGap s = [] := by
  rcases h.append with hbreak | ⟨t, rfl, ht⟩
  · exact skipGap_of_isCut_lineBreak hbreak
  · obtain rfl : t = [] := by simpa [isCut_cons_iff, not_isCut_nil] using ht
    rw [skipGap_lineBreak]
    rfl

theorem value?_of_skipGap (h : skipGap s = []) (fuel : Nat) : value? fuel levels s = none := by
  cases fuel with
  | zero => simp [value?]
  | succ fuel => simp [value?, h]

theorem members?_of_skipGap (h : skipGap s = []) (fuel : Nat) : members? fuel levels s = none := by
  cases fuel with
  | zero => simp [members?]
  | succ fuel => simp [members?, h]

theorem elements?_of_skipGap (h : skipGap s = []) (fuel : Nat) :
    elements? fuel levels s = none := by
  cases fuel with
  | zero => simp [elements?]
  | succ fuel => simp [elements?, value?_of_skipGap h]

/-! ### Values -/

/-- That no beginning of the indented form of a value is read as a value, however many steps are
allowed beyond its characters. -/
def Unread (levels : Nat) (v : Json) : Prop :=
  ∀ fuel depth s, s.length ≤ fuel → IsCut s (prettyAt depth v).toList →
    value? fuel levels s = none

/-- An element that breaks off, or what it leaves if it is all there. -/
theorem elements?_of_isCut_element {depth fuel : Nat} {rest : List Char} (hv : Unread levels v)
    (hfuel : s.length ≤ fuel + 1)
    (h : IsCut s ((lineBreak depth).toList ++ ((prettyAt depth v).toList ++ rest))) :
    elements? (fuel + 1) levels s = none ∨
      ∃ t, s = (lineBreak depth).toList ++ ((prettyAt depth v).toList ++ t) ∧ IsCut t rest := by
  rcases h.append with hbreak | ⟨t, rfl, hafter⟩
  · exact .inl (elements?_of_skipGap (skipGap_of_isCut_lineBreak hbreak) _)
  rcases hafter.append with hvalue | ⟨t, rfl, ht⟩
  · refine .inl ?_
    have hnone : value? fuel levels t = none := hv fuel depth t (by
      simp only [lineBreak, String.toList_ofList, List.length_append, List.length_cons] at hfuel
      omega) hvalue
    rw [elements?, value?_lineBreak, hnone]
  · exact .inr ⟨t, rfl, ht⟩

theorem elements?_of_isCut {xs : List Json} (hne : xs ≠ [])
    (h : ∀ x ∈ xs, ReadBack levels x ∧ Unread levels x) : ∀ (fuel depth outer : Nat)
      (s : List Char), s.length ≤ fuel →
        IsCut s ((prettyElements depth xs).toList ++ ((lineBreak outer).toList ++ [']'])) →
          elements? fuel levels s = none := by
  induction xs with
  | nil => exact absurd rfl hne
  | cons x xs ih =>
    intro fuel depth outer s hfuel hcut
    obtain ⟨hread, hunread⟩ := h x List.mem_cons_self
    cases fuel with
    | zero => simp [elements?]
    | succ fuel =>
    cases xs with
    | nil =>
      simp only [prettyElements, String.toList_append, List.append_assoc] at hcut
      obtain hnone | ⟨t, rfl, ht⟩ := elements?_of_isCut_element hunread hfuel hcut
      · exact hnone
      simp only [lineBreak, String.toList_ofList, List.length_append, List.length_cons] at hfuel
      rw [elements?, value?_lineBreak, hread _ _ _ (by omega)]
      simp only [skipGap_of_isCut_closing ht]
    | cons y ys =>
      simp only [prettyElements, String.toList_append, List.append_assoc] at hcut
      obtain hnone | ⟨t, rfl, hcomma⟩ := elements?_of_isCut_element hunread hfuel hcut
      · exact hnone
      simp only [lineBreak, String.toList_ofList, List.length_append, List.length_cons] at hfuel
      rw [elements?, value?_lineBreak, hread _ _ _ (by omega)]
      rw [show ",".toList = [','] from rfl, List.singleton_append] at hcomma
      rcases isCut_cons_iff.mp hcomma with rfl | ⟨t, rfl, ht⟩
      · rfl
      have hys := ih (by simp) (fun z hz => h z (List.mem_cons_of_mem _ hz)) fuel depth outer t
        (by simp only [List.length_cons] at hfuel; omega) ht
      simp only [skipGap_cons (show isGap ',' = false from rfl), hys, Option.map_none]

/-- A member that breaks off, or what it leaves if it is all there. -/
theorem members?_of_isCut_member {depth fuel : Nat} {k : String} {rest : List Char}
    (hv : Unread levels v) (hfuel : s.length ≤ fuel + 1)
    (h : IsCut s ((lineBreak depth).toList ++ ((quote k).toList ++ (": ".toList ++
      ((prettyAt depth v).toList ++ rest))))) :
    members? (fuel + 1) levels s = none ∨
      ∃ t, s = (lineBreak depth).toList ++ ((quote k).toList ++ (": ".toList ++
        ((prettyAt depth v).toList ++ t))) ∧ IsCut t rest := by
  rcases h.append with hbreak | ⟨t, rfl, hname⟩
  · exact .inl (members?_of_skipGap (skipGap_of_isCut_lineBreak hbreak) _)
  rcases hname.append with hquote | ⟨u, rfl, hcolon⟩
  · refine .inl ?_
    rw [members?, skipGap_lineBreak]
    obtain rfl | ⟨u, rfl, hnone⟩ := exists_of_isCut_quote hquote
    · rfl
    · rw [skipGap_cons rfl]
      simp only [hnone]
  have hnone : (∀ t, skipGap u = ':' :: t → value? fuel levels t = none) →
      members? (fuel + 1) levels ((lineBreak depth).toList ++ ((quote k).toList ++ u)) = none := by
    intro hvalue
    obtain ⟨inside, htext, hread⟩ := quoted?_quote k u
    rw [members?, skipGap_lineBreak, htext, skipGap_cons rfl]
    simp only [hread]
    split
    · next t ht => rw [hvalue t ht]
    · rfl
  rcases hcolon.append with hcolon | ⟨w, rfl, hafter⟩
  · refine .inl (hnone fun t ht => ?_)
    obtain rfl | rfl : u = [] ∨ u = [':'] := by
      simpa [show ": ".toList = [':', ' '] from rfl, isCut_cons_iff, not_isCut_nil] using hcolon
    · cases ht
    · cases ht
      exact value?_of_skipGap rfl fuel
  rcases hafter.append with hvalue | ⟨t, rfl, ht⟩
  · refine .inl (hnone fun t ht => ?_)
    obtain rfl : ' ' :: w = t := (List.cons.inj ((skipGap_cons rfl (' ' :: w)).symm.trans ht)).2
    rw [value?_blank]
    refine hv fuel depth w ?_ hvalue
    simp only [List.length_append, lineBreak, String.toList_ofList, List.length_cons] at hfuel
    omega
  · exact .inr ⟨t, rfl, ht⟩

theorem members?_of_isCut {ms : List (String × Json)} (hne : ms ≠ [])
    (h : ∀ m ∈ ms, ReadBack levels m.2 ∧ Unread levels m.2) : ∀ (fuel depth outer : Nat)
      (s : List Char), s.length ≤ fuel →
        IsCut s ((prettyMembers depth ms).toList ++ ((lineBreak outer).toList ++ ['\x7d'])) →
          members? fuel levels s = none := by
  induction ms with
  | nil => exact absurd rfl hne
  | cons m ms ih =>
    intro fuel depth outer s hfuel hcut
    obtain ⟨k, v⟩ := m
    obtain ⟨hread, hunread⟩ : ReadBack levels v ∧ Unread levels v := h (k, v) List.mem_cons_self
    cases fuel with
    | zero => simp [members?]
    | succ fuel =>
    cases ms with
    | nil =>
      simp only [prettyMembers, String.toList_append, List.append_assoc] at hcut
      obtain hnone | ⟨t, rfl, ht⟩ := members?_of_isCut_member hunread hfuel hcut
      · exact hnone
      simp only [lineBreak, String.toList_ofList, List.length_append, List.length_cons] at hfuel
      rw [members?_member hread (by omega)]
      simp only [skipGap_of_isCut_closing ht]
    | cons n ns =>
      simp only [prettyMembers, String.toList_append, List.append_assoc] at hcut
      obtain hnone | ⟨t, rfl, hcomma⟩ := members?_of_isCut_member hunread hfuel hcut
      · exact hnone
      simp only [lineBreak, String.toList_ofList, List.length_append, List.length_cons] at hfuel
      rw [members?_member hread (by omega)]
      rw [show ",".toList = [','] from rfl, List.singleton_append] at hcomma
      rcases isCut_cons_iff.mp hcomma with rfl | ⟨t, rfl, ht⟩
      · rfl
      have hns := ih (by simp) (fun z hz => h z (List.mem_cons_of_mem _ hz)) fuel depth outer t
        (by simp only [List.length_cons] at hfuel; omega) ht
      simp only [skipGap_cons (show isGap ',' = false from rfl), hns, Option.map_none]

/-- An array of which no element is read is not read. -/
theorem value?_array_eq_none {fuel : Nat} (hopen : ∀ t, skipGap s ≠ ']' :: t)
    (h : elements? fuel (levels + 1) s = none) :
    value? (fuel + 1) (levels + 2) ('[' :: s) = none := by
  have hskip : elements? fuel (levels + 1) (skipGap s) = none := by
    rw [elements?_congr (skipGap_skipGap s), h]
  rw [value?, skipGap_cons rfl]
  simp only
  rw [if_neg (by omega)]
  simpa using hskip

/-- An object of which no member is read is not read. -/
theorem value?_object_eq_none {fuel : Nat} (hopen : ∀ t, skipGap s ≠ '\x7d' :: t)
    (h : members? fuel (levels + 1) s = none) :
    value? (fuel + 1) (levels + 2) ('\x7b' :: s) = none := by
  have hskip : members? fuel (levels + 1) (skipGap s) = none := by
    rw [members?_congr (skipGap_skipGap s), h]
  rw [value?, skipGap_cons rfl]
  simp only
  rw [if_neg (by omega)]
  simpa using hskip

/-- What breaks off is not read if that holds of what is not empty, with the step that every reader
takes. -/
theorem unread_of_cons (h : ∀ fuel depth c s, s.length ≤ fuel →
    IsCut (c :: s) (prettyAt depth v).toList → value? (fuel + 1) levels (c :: s) = none) :
    Unread levels v := by
  intro fuel depth s hfuel hcut
  cases s with
  | nil => exact value?_of_skipGap rfl fuel
  | cons c s =>
    obtain ⟨fuel, rfl⟩ := Nat.exists_eq_add_one_of_ne_zero (n := fuel)
      (by rw [List.length_cons] at hfuel; omega)
    exact h fuel depth c s (by rw [List.length_cons] at hfuel; omega) hcut

/-- A word that breaks off is none of the three words. -/
theorem unread_word (w : String) (hw : w ∈ ["null", "true", "false"])
    (hv : ∀ depth, prettyAt depth v = w) : Unread levels v := by
  refine unread_of_cons fun fuel depth c s _ h => ?_
  rw [hv] at h
  have hnull : "null".toList = ['n', 'u', 'l', 'l'] := rfl
  have htrue : "true".toList = ['t', 'r', 'u', 'e'] := rfl
  have hfalse : "false".toList = ['f', 'a', 'l', 's', 'e'] := rfl
  simp only [List.mem_cons, List.not_mem_nil, or_false] at hw
  obtain rfl | rfl | rfl := hw <;>
    simp only [hnull, htrue, hfalse, isCut_cons_iff, not_isCut_nil, and_false, exists_false,
      or_false] at h
  · obtain h | ⟨_, h, rfl | ⟨_, rfl, rfl | ⟨_, rfl, rfl⟩⟩⟩ := h <;> cases h <;> rfl
  · obtain h | ⟨_, h, rfl | ⟨_, rfl, rfl | ⟨_, rfl, rfl⟩⟩⟩ := h <;> cases h <;> rfl
  · obtain h | ⟨_, h, rfl | ⟨_, rfl, rfl | ⟨_, rfl, rfl | ⟨_, rfl, rfl⟩⟩⟩⟩ := h <;> cases h <;> rfl

/-- A value is not read before the end of its indented form. -/
theorem Fits.unread (h : Fits levels v) : Unread levels v := by
  induction h with
  | null => exact unread_word "null" (by simp) fun _ => by rw [prettyAt]
  | bool levels b =>
    cases b with
    | true => exact unread_word "true" (by simp) fun _ => by rw [prettyAt]
    | false => exact unread_word "false" (by simp) fun _ => by rw [prettyAt]
  | string levels t =>
    refine unread_of_cons fun fuel depth c s _ hcut => ?_
    obtain h | ⟨u, h, hnone⟩ := exists_of_isCut_quote hcut
    · cases h
    · cases h
      rw [value?, skipGap_cons rfl]
      simp only [hnone, Option.map_none]
  | @array levels xs h ih =>
    refine unread_of_cons fun fuel depth c s hfuel hcut => ?_
    cases xs with
    | nil =>
      obtain ⟨rfl, rfl⟩ : c = '[' ∧ s = [] := by
        simpa [prettyAt, isCut_cons_iff, not_isCut_nil] using hcut
      exact value?_array_eq_none (by simp [skipGap]) (elements?_of_skipGap rfl fuel)
    | cons x xs =>
      simp only [prettyAt, String.toList_append, List.append_assoc] at hcut
      obtain h | ⟨u, hu, hcut⟩ := isCut_cons_iff.mp hcut
      · cases h
      obtain ⟨rfl, rfl⟩ := List.cons.inj hu
      obtain ⟨d, t, hd, hclose⟩ := exists_prettyElements_cons (h x List.mem_cons_self) (depth + 1)
        xs ((lineBreak depth).toList ++ [']'])
      exact value?_array_eq_none (ne_cons_of_isCut hcut hd hclose)
        (elements?_of_isCut (List.cons_ne_nil x xs) (fun y hy => ⟨(h y hy).readBack, ih y hy⟩)
          fuel (depth + 1) depth s hfuel hcut)
  | @object levels ms h ih =>
    refine unread_of_cons fun fuel depth c s hfuel hcut => ?_
    cases ms with
    | nil =>
      obtain ⟨rfl, rfl⟩ : c = '\x7b' ∧ s = [] := by
        simpa [prettyAt, isCut_cons_iff, not_isCut_nil] using hcut
      exact value?_object_eq_none (by simp [skipGap]) (members?_of_skipGap rfl fuel)
    | cons m ms =>
      simp only [prettyAt, String.toList_append, List.append_assoc] at hcut
      obtain h | ⟨u, hu, hcut⟩ := isCut_cons_iff.mp hcut
      · cases h
      obtain ⟨rfl, rfl⟩ := List.cons.inj hu
      obtain ⟨t, hd⟩ := exists_prettyMembers_cons (depth + 1) m ms
        ((lineBreak depth).toList ++ ['\x7d'])
      exact value?_object_eq_none (ne_cons_of_isCut hcut hd (by decide))
        (members?_of_isCut (List.cons_ne_nil m ms) (fun n hn => ⟨(h n hn).readBack, ih n hn⟩)
          fuel (depth + 1) depth s hfuel hcut)

/-- A whole text that breaks off is not read. -/
theorem Fits.parse?_of_isCut {text : String} (h : Fits maxLevels v)
    (hcut : IsCut text.toList v.pretty.toList) : parse? text = none := by
  have hnone := h.unread (2 * text.toList.length + 2) 0 text.toList (by omega) hcut
  simp only [parse?, hnone]

end Json

end CertSteward
