import CertSteward.Material.Pem
import CertSteward.Proofs.Bytes.Base64

/-!
# PEM texts that were written are read again

Marks are found by passing over what is no beginning of them. That is all there is to reading a
text that was written here: neither a tag nor a row of Base64 has a hyphen, so each mark is found
where it was put. The only other thing that could be misread is an empty line, which would make
headers of the rows above it, and rows are never empty.

## Main definitions

* `PemBlock.Plain` — blocks without headers under a tag without hyphens
* `Pem.Spells` — a text in which blocks stand one behind the other

## Main results

* `Pem.cut?_append` — a mark is found behind characters with which it does not begin
* `Pem.rawBlock?_encodeBlock` — a block is found where it was written
* `Pem.Spells.encodeChars_append`, `Pem.Spells.blocks` — so are blocks before a text, and they are
  read
* `Pem.certificates_ofCertificates` — certificates that were written are read again
-/

namespace CertSteward

/-- A block without headers under a tag without hyphens. -/
structure PemBlock.Plain (b : PemBlock) : Prop where
  headers : b.headers = []
  tag_ne : b.tag.toList ≠ []
  hyphen : '-' ∉ b.tag.toList

namespace Pem

/-! ### Marks -/

variable {m : Char} {mark due s rest : List Char}

theorem after?_append_self : after? mark due (due ++ rest) = some rest := by
  induction due with
  | nil => cases rest <;> rfl
  | cons d due ih =>
    rw [List.cons_append, after?, if_pos rfl]
    exact ih

/-- Characters with which a mark does not begin are passed over. -/
theorem after?_append_of_notMem (h : m ∉ s) :
    after? (m :: mark) (m :: mark) (s ++ rest) = after? (m :: mark) (m :: mark) rest := by
  induction s with
  | nil => rfl
  | cons c s ih =>
    rw [List.mem_cons, not_or] at h
    rw [List.cons_append, after?, if_neg (Ne.symm h.1)]
    exact ih h.2

theorem cut?_eq_none (h : m ∉ s) : cut? (m :: mark) s = none := by
  have hnone : after? (m :: mark) (m :: mark) s = none := by
    rw [← List.append_nil s, after?_append_of_notMem h]
    rfl
  rw [cut?, hnone]
  rfl

/-- A mark is found behind characters with which it does not begin. -/
theorem cut?_append (h : m ∉ s) : cut? (m :: mark) (s ++ (m :: mark ++ rest)) = some (s, rest) := by
  rw [cut?, after?_append_of_notMem h, after?_append_self, Option.map_some]
  have hlen : (s ++ (m :: mark ++ rest)).length - rest.length - (m :: mark).length = s.length := by
    simp only [List.length_append]
    omega
  rw [hlen, List.take_left]

/-! ### Rows -/

theorem mem_rows {c : Char} (h : c ∈ rows s) : c = '\n' ∨ c ∈ s := by
  induction s using rows.induct with
  | case1 => simp [rows] at h
  | case2 d s ih =>
    rw [rows, List.mem_append, List.mem_cons, List.mem_cons] at h
    obtain (rfl | h) | rfl | h := h
    · exact .inr List.mem_cons_self
    · exact .inr (List.mem_cons_of_mem _ (List.mem_of_mem_take h))
    · exact .inl rfl
    · exact (ih h).imp_right fun h => List.mem_cons_of_mem _ (List.mem_of_mem_drop h)

/-- Without the line feeds rows are what they were made of. -/
theorem filter_rows {p : Char → Bool} (hfeed : p '\n' = false) (h : ∀ c ∈ s, p c = true) :
    (rows s).filter p = s := by
  induction s using rows.induct with
  | case1 => rw [rows, List.filter_nil]
  | case2 c s ih =>
    have hrest : ∀ d ∈ s, p d = true := fun d hd => h d (List.mem_cons_of_mem _ hd)
    have htake : ∀ d ∈ c :: s.take 63, p d = true := by
      intro d hd
      obtain rfl | hd := List.mem_cons.mp hd
      · exact h d List.mem_cons_self
      · exact hrest d (List.mem_of_mem_take hd)
    rw [rows, List.filter_append, List.filter_eq_self.mpr htake, List.filter_cons, hfeed,
      if_neg Bool.false_ne_true, ih fun d hd => hrest d (List.mem_of_mem_drop hd), List.cons_append,
      List.take_append_drop]

/-- Rows do not begin with a line feed. -/
theorem head?_rows (h : '\n' ∉ s) : (rows s).head? ≠ some '\n' := by
  cases s with
  | nil =>
    rw [rows]
    intro hc
    cases hc
  | cons c s =>
    rw [rows]
    intro hc
    exact h (Option.some.inj hc ▸ List.mem_cons_self)

/-- No row is empty. -/
theorem cut?_rows (h : '\n' ∉ s) : cut? ['\n', '\n'] (rows s) = none := by
  have hone : ∀ {t : List Char}, t.head? ≠ some '\n' →
      after? ['\n', '\n'] ['\n'] t = after? ['\n', '\n'] ['\n', '\n'] t := by
    intro t ht
    cases t with
    | nil => rfl
    | cons c t =>
      have hc : c ≠ '\n' := fun hc => ht (congrArg some hc)
      rw [after?, if_neg hc, after?, if_neg hc]
  suffices hnone : after? ['\n', '\n'] ['\n', '\n'] (rows s) = none by rw [cut?, hnone]; rfl
  induction s using rows.induct with
  | case1 =>
    rw [rows]
    rfl
  | case2 c s ih =>
    have hline : '\n' ∉ c :: s.take 63 := fun hmem => h (by
      obtain hc | hc := List.mem_cons.mp hmem
      · exact List.mem_cons.mpr (.inl hc)
      · exact List.mem_cons_of_mem _ (List.mem_of_mem_take hc))
    have hdrop : '\n' ∉ s.drop 63 := fun hmem =>
      h (List.mem_cons_of_mem _ (List.mem_of_mem_drop hmem))
    rw [rows, after?_append_of_notMem hline, after?, if_pos rfl, hone (head?_rows hdrop)]
    exact ih hdrop

/-! ### The body of a block -/

/-- The rows that a block is written in. -/
def bodyOf (b : PemBlock) : List Char := rows (Base64.encodeWith Base64.standard b.contents)

/-- No character of Base64 is a hyphen or a blank. -/
theorem not_blank_of_isWritten {c : Char} (h : Base64.isWritten c = true) :
    c ≠ '-' ∧ c ≠ '\r' ∧ c ≠ '\n' ∧ isGap c = false ∧ Chars.isBlank c = false := by
  have hall : ∀ n : Fin 128, Base64.isWritten (Char.ofNat n) = true → Char.ofNat n ≠ '-' ∧
      Char.ofNat n ≠ '\r' ∧ Char.ofNat n ≠ '\n' ∧ isGap (Char.ofNat n) = false ∧
      Chars.isBlank (Char.ofNat n) = false := by decide +kernel
  have hc := hall ⟨c.toNat, Base64.toNat_lt_of_isWritten h⟩
  rw [Char.ofNat_toNat] at hc
  exact hc h

theorem not_blank_of_mem {b : PemBlock} {c : Char}
    (h : c ∈ Base64.encodeWith Base64.standard b.contents) :
    c ≠ '-' ∧ c ≠ '\r' ∧ c ≠ '\n' ∧ isGap c = false ∧ Chars.isBlank c = false :=
  not_blank_of_isWritten (Base64.encodeWith_all b.contents c h)

theorem notMem_bodyOf {b : PemBlock} {c : Char} (hfeed : c ≠ '\n') (hc : c = '-' ∨ c = '\r') :
    c ∉ bodyOf b := by
  intro h
  obtain h | h := mem_rows h
  · exact hfeed h
  · obtain ⟨hhyphen, hreturn, -⟩ := not_blank_of_mem h
    exact hc.elim hhyphen hreturn

theorem dropWhile_bodyOf (b : PemBlock) :
    ('\n' :: (bodyOf b ++ (endMark ++ rest))).dropWhile isGap = bodyOf b ++ (endMark ++ rest) := by
  rw [List.dropWhile_cons_of_pos (by rfl)]
  cases hs : Base64.encodeWith Base64.standard b.contents with
  | nil =>
    rw [bodyOf, hs, rows]
    exact List.dropWhile_cons_of_neg (by decide)
  | cons c s =>
    have hc : isGap c = false := (not_blank_of_mem (b := b) (hs ▸ List.mem_cons_self)).2.2.2.1
    rw [bodyOf, hs, rows]
    exact List.dropWhile_cons_of_neg (by simp [hc])

/-! ### One block -/

theorem encodeBlock_eq {b : PemBlock} (hb : b.Plain) : encodeBlock b =
    beginMark ++ (b.tag.toList ++ (dashes ++ '\n' :: (bodyOf b ++ (endMark ++
      (b.tag.toList ++ (dashes ++ ['\n'])))))) := by
  rw [encodeBlock, hb.headers]
  simp [bodyOf]

/-- A block that was written, before it is read. -/
def rawOf (b : PemBlock) : RawBlock := ⟨b.tag.toList, bodyOf b, b.tag.toList⟩

/-- A block is found where it was written. -/
theorem rawBlock?_encodeBlock {b : PemBlock} (hb : b.Plain) :
    rawBlock? (encodeBlock b ++ rest) = some (rawOf b, ('\n' :: rest).dropWhile isGap) := by
  have hbegin : ∀ t, cut? beginMark (beginMark ++ t) = some ([], t) := fun t =>
    cut?_append (s := []) List.not_mem_nil
  have hdashes : ∀ t, cut? dashes (b.tag.toList ++ (dashes ++ t)) = some (b.tag.toList, t) :=
    fun t => cut?_append hb.hyphen
  have hend : ∀ t, cut? endMark (bodyOf b ++ (endMark ++ t)) = some (bodyOf b, t) :=
    fun t => cut?_append (notMem_bodyOf (by decide) (.inl rfl))
  rw [encodeBlock_eq hb]
  simp only [List.append_assoc, List.cons_append, List.nil_append]
  simp only [rawBlock?, hbegin, hdashes, hend, dropWhile_bodyOf, Option.bind_eq_bind,
    Option.bind_some]
  rfl

/-- A block that was found is read as it was written. -/
theorem read_rawOf {b : PemBlock} (hb : b.Plain) : (rawOf b).read = .ok b := by
  have hfeed : '\n' ∉ Base64.encodeWith Base64.standard b.contents :=
    fun h => (not_blank_of_mem h).2.2.1 rfl
  have hsplit : splitBody (bodyOf b) = ([], bodyOf b) := by
    have hempty : cut? ['\n', '\n'] (bodyOf b) = none := cut?_rows hfeed
    have hreturn : cut? ['\r', '\n', '\r', '\n'] (bodyOf b) = none :=
      cut?_eq_none (notMem_bodyOf (by decide) (.inr rfl))
    rw [splitBody, hempty, hreturn]
    rfl
  have hdata : (bodyOf b).filter (fun c => !Chars.isBlank c) =
      Base64.encodeWith Base64.standard b.contents :=
    filter_rows (by decide) fun c hc => by simp [(not_blank_of_mem hc).2.2.2.2]
  have hlines : (Chars.lines []).map Chars.trimEnd = [] := by decide
  obtain ⟨tag, contents, headers⟩ := b
  obtain rfl : headers = [] := hb.headers
  simp only [RawBlock.read, rawOf, hb.tag_ne, hsplit, hdata,
    Base64.isReadable_standard.decodeWith?_encodeWith, hlines, if_false, ne_eq, not_true_eq_false,
    String.ofList_toList]
  rfl

/-! ### Many blocks -/

/-- What does not begin a mark is passed over. -/
theorem rawBlock?_append_of_notMem (h : '-' ∉ s) : rawBlock? (s ++ rest) = rawBlock? rest := by
  have hafter : after? beginMark beginMark (s ++ rest) = after? beginMark beginMark rest :=
    after?_append_of_notMem h
  rw [rawBlock?, rawBlock?, cut?, cut?, hafter]
  cases after? beginMark beginMark rest <;> rfl

/-- Blanks before a block are passed over. -/
theorem rawBlocks_dropWhile (fuel : Nat) (s : List Char) :
    rawBlocks fuel (s.dropWhile isGap) = rawBlocks fuel s := by
  have hgap : '-' ∉ s.takeWhile isGap := fun hmem =>
    absurd (List.all_eq_true.mp List.all_takeWhile '-' hmem) (by decide)
  have hs : rawBlock? (s.takeWhile isGap ++ s.dropWhile isGap) = rawBlock? (s.dropWhile isGap) :=
    rawBlock?_append_of_notMem hgap
  rw [List.takeWhile_append_dropWhile] at hs
  cases fuel with
  | zero => rfl
  | succ fuel => rw [rawBlocks, rawBlocks, hs]

/-- A text in which these blocks, and no others, stand one behind the other. -/
structure Spells (s : List Char) (bs : List PemBlock) : Prop where
  plain : ∀ b ∈ bs, b.Plain
  length_le : bs.length ≤ s.length
  found : ∀ fuel, bs.length ≤ fuel → rawBlocks fuel s = bs.map rawOf

variable {b : PemBlock} {bs cs : List PemBlock}

/-- Without hyphens there are no blocks. -/
theorem spells_of_notMem (h : '-' ∉ s) : Spells s [] := by
  have hcut : cut? beginMark s = none := cut?_eq_none h
  have hnone : rawBlock? s = none := by
    rw [rawBlock?, hcut]
    rfl
  refine ⟨nofun, Nat.zero_le _, fun fuel _ => ?_⟩
  cases fuel with
  | zero => rfl
  | succ fuel =>
    rw [rawBlocks, hnone]
    rfl

/-- A block that was written stands before what follows it. -/
theorem Spells.encodeBlock_append (hb : b.Plain) (h : Spells rest bs) :
    Spells (encodeBlock b ++ rest) (b :: bs) := by
  refine ⟨List.forall_mem_cons.mpr ⟨hb, h.plain⟩, ?_, fun fuel hfuel => ?_⟩
  · have hblock : 1 ≤ (encodeBlock b).length := by simp [encodeBlock]; omega
    have := h.length_le
    rw [List.length_append, List.length_cons]
    omega
  · obtain ⟨fuel, rfl⟩ : ∃ n, fuel = n + 1 := Nat.exists_eq_add_one.mpr (by simp at hfuel; omega)
    rw [rawBlocks, rawBlock?_encodeBlock hb, List.dropWhile_cons_of_pos (by rfl)]
    simp only [List.map_cons]
    rw [rawBlocks_dropWhile, h.found fuel (Nat.le_of_succ_le_succ hfuel)]

/-- An empty line does not matter. -/
theorem Spells.cons_feed (h : Spells s bs) : Spells ('\n' :: s) bs where
  plain := h.plain
  length_le := Nat.le_succ_of_le h.length_le
  found fuel hfuel := by
    rw [← rawBlocks_dropWhile, List.dropWhile_cons_of_pos (by rfl), rawBlocks_dropWhile,
      h.found fuel hfuel]

/-- Blocks that were written stand before what follows them. -/
theorem Spells.encodeChars_append (hbs : ∀ b ∈ bs, b.Plain) (h : Spells rest cs) :
    Spells (encodeChars bs ++ rest) (bs ++ cs) := by
  induction bs with
  | nil => exact h
  | cons b bs ih =>
    obtain ⟨hb, hbs⟩ := List.forall_mem_cons.mp hbs
    cases bs with
    | nil => exact h.encodeBlock_append hb
    | cons c bs =>
      rw [encodeChars, List.append_assoc, List.cons_append]
      exact (ih hbs).cons_feed.encodeBlock_append hb

/-- Blocks that were written stand in the text. -/
theorem spells_encodeChars (hbs : ∀ b ∈ bs, b.Plain) : Spells (encodeChars bs) bs := by
  simpa using (spells_of_notMem (s := []) List.not_mem_nil).encodeChars_append hbs

/-- **The blocks that stand in a text are read.** -/
theorem Spells.blocks (h : Spells s bs) (hne : bs ≠ []) : blocks (String.ofList s) = .ok bs := by
  have hread : (bs.map rawOf).mapM RawBlock.read = .ok bs := by
    have hplain := h.plain
    clear h hne
    induction bs with
    | nil => rfl
    | cons b bs ih =>
      obtain ⟨hb, hbs⟩ := List.forall_mem_cons.mp hplain
      rw [List.map_cons, List.mapM_cons, read_rawOf hb, ih hbs]
      rfl
  rw [Pem.blocks, String.toList_ofList, h.found _ h.length_le, hread]
  cases bs with
  | nil => exact absurd rfl hne
  | cons b bs => rfl

theorem Spells.decode (h : Spells s bs) (hne : bs ≠ []) : decode (String.ofList s) = .ok bs := by
  rw [Pem.decode, h.blocks hne]
  rfl

/-! ### Certificates -/

/-- A certificate as a block. -/
def certificateBlock (der : List UInt8) : PemBlock := { tag := certificateTag, contents := der }

theorem plain_of_mem_map (ders : List (List UInt8)) : ∀ b ∈ ders.map certificateBlock, b.Plain := by
  have htag : certificateTag.toList ≠ [] ∧ '-' ∉ certificateTag.toList := by decide
  intro b hb
  obtain ⟨der, -, rfl⟩ := List.mem_map.mp hb
  exact ⟨rfl, htag.1, htag.2⟩

/-- The certificates among blocks. -/
def dersOf (bs : List PemBlock) : List (List UInt8) :=
  (bs.filter fun b => b.tag == certificateTag).map (·.contents)

theorem dersOf_map (ders : List (List UInt8)) : dersOf (ders.map certificateBlock) = ders := by
  have hall : (ders.map certificateBlock).filter (fun b => b.tag == certificateTag) =
      ders.map certificateBlock := by
    refine List.filter_eq_self.mpr fun b hb => ?_
    obtain ⟨der, -, rfl⟩ := List.mem_map.mp hb
    exact beq_self_eq_true certificateTag
  rw [dersOf, hall, List.map_map]
  exact List.map_id ders

/-- The certificates of a text are those among its blocks, if there are any. -/
theorem certificates_eq_ok_iff {text : String} {ders : List (List UInt8)} :
    certificates text = .ok ders ↔ ders ≠ [] ∧ ∃ bs, Pem.decode text = .ok bs ∧ dersOf bs = ders := by
  cases hdecode : Pem.decode text with
  | error e =>
    have hfault : certificates text = .error e := by
      rw [certificates, hdecode]
      rfl
    rw [hfault]
    simp only [reduceCtorEq, false_and, exists_false, and_false]
  | ok bs =>
    cases hders : dersOf bs with
    | nil =>
      have hfault : certificates text = .error (Fault.toMaterial .noCertificate) := by
        rw [dersOf] at hders
        simp only [certificates, hdecode, bind, Except.bind, hders]
        rfl
      simp only [hfault, hders, reduceCtorEq, Except.ok.injEq, exists_eq_left', false_iff, not_and]
      exact fun hne hnil => hne hnil.symm
    | cons der rest =>
      have hread : certificates text = .ok (der :: rest) := by
        rw [dersOf] at hders
        simp only [certificates, hdecode, bind, Except.bind, hders]
        rfl
      simp only [hread, hders, Except.ok.injEq, exists_eq_left']
      exact ⟨fun h => ⟨h ▸ List.cons_ne_nil _ _, h⟩, And.right⟩

/-- **Certificates that were written are read again.** -/
theorem certificates_ofCertificates {ders : List (List UInt8)} (hne : ders ≠ []) :
    certificates (ofCertificates ders) = .ok ders :=
  certificates_eq_ok_iff.mpr ⟨hne, ders.map certificateBlock,
    (spells_encodeChars (plain_of_mem_map _)).decode (by simpa using hne), dersOf_map ders⟩

end Pem

end CertSteward
