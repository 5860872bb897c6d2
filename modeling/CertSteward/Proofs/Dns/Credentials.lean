import CertSteward.Dns.Credentials
import CertSteward.Proofs.Text.Chars

/-!
# What credentials are loaded from a text

A file and a variable that hold the same text give the same credentials, or neither gives any. What
is sent with a request is then the text without the blanks around it, or one member of the object in
the text. The first is never blank, since a text of nothing but blanks is refused. The second is
sent as it stands there: nothing looks at the members of an object, so that the credentials of an
object with a blank member may be blank.

## Main definitions

* `Credentials.IsObject` — the text is read as an object
* `Credentials.Members.bearer?` — the member that is sent

## Main results

* `Credentials.ofText_of_plain`, `ofText_of_object` — the credentials of a text of either kind
* `Credentials.loaded_alike` — the two sources agree, and when what they give is blank
-/

namespace CertSteward

/-- A text without the blanks around it is blank only if it is empty. -/
theorem Text.isBlank_trim (s : String) : isBlank (trim s) = true ↔ trim s = "" := by
  have htrim : (trim s).toList = Chars.trim s.toList := String.toList_ofList
  obtain ⟨-, -, -, -, -, hends⟩ := Chars.trim_eq_iff.mp (rfl : Chars.trim s.toList = _)
  rw [isBlank, htrim, ← String.toList_eq_nil_iff, htrim]
  cases hs : Chars.trim s.toList with
  | nil => simp
  | cons c rest =>
    have hc : Chars.isBlank c = false := hends.head c (by rw [hs]; rfl)
    simp [hc]

namespace Credentials

variable {text : String} {m : Members} {c : Credentials}

/-- A text that is read as an object. -/
def IsObject (text : String) : Prop := (Text.trim text).toList.head? = some '\x7b'

/-- The member that is sent: the key of a key with its secret, or else a token, or else the key. -/
def Members.bearer? (m : Members) : Option String :=
  (m.secret.bind fun _ => m.key).or (m.token.or (m.otherToken.or m.key))

/-- Members come to credentials that send one of them. -/
theorem map_bearer_ofMembers? (m : Members) : (ofMembers? m).map bearer = m.bearer? := by
  obtain ⟨token, otherToken, key, secret⟩ := m
  cases key <;> cases secret <;> cases token <;> cases otherToken <;> rfl

/-- A text is loaded alike wherever it stands; only the complaint about a blank one differs. -/
theorem toOption_ofText (place place' text : String) :
    (ofText place text).toOption = (ofText place' text).toOption := by
  simp only [ofText]
  split
  · rfl
  · split <;> rfl

/-- What is not an object is a token, unless it is blank. -/
theorem ofText_of_plain (place : String) (h : ¬ IsObject text) :
    (ofText place text).toOption =
      if Text.isBlank (Text.trim text) then none else some (token (Text.trim text)) := by
  unfold IsObject at h
  simp only [ofText, if_neg h, String.isEmpty_iff]
  split
  · rw [if_pos ((Text.isBlank_trim text).mpr ‹_›)]
    rfl
  · rw [if_neg (mt (Text.isBlank_trim text).mp ‹_›)]
    rfl

/-- An object is loaded as its members are. -/
theorem ofText_of_object (place : String) (h : IsObject text) :
    (ofText place text).toOption = (Members.ofText? (Text.trim text)).bind ofMembers? := by
  unfold IsObject at h
  simp only [ofText, if_pos h, ofJson]
  cases Members.ofText? (Text.trim text) with
  | none => rfl
  | some m => cases hm : ofMembers? m <;> simp [hm, Except.toOption]

/-- **Credentials do not depend on where they come from, and are blank only as their object says.**
The file and the variable give the same credentials or none; a text that is not an object gives
itself without the blanks around it, which is not blank; an object gives the member that is sent,
as it stands there, so that it is blank exactly if that member is. -/
theorem loaded_alike (path name text : String) :
    (ofFile path (.ok text)).toOption = (ofVariable name (some text)).toOption ∧
      ∀ c ∈ (ofFile path (.ok text)).toOption,
        (¬ IsObject text → c = token (Text.trim text) ∧ Text.isBlank c.bearer = false) ∧
        (IsObject text → ∃ m ∈ Members.ofText? (Text.trim text), m.bearer? = some c.bearer) ∧
        (Text.isBlank c.bearer = true ↔ IsObject text ∧
          ∃ m ∈ Members.ofText? (Text.trim text), ∃ s ∈ m.bearer?, Text.isBlank s = true) := by
  refine ⟨toOption_ofText _ _ text, fun c hc => ?_⟩
  by_cases hobject : IsObject text
  · rw [ofFile, ofText_of_object _ hobject] at hc
    obtain ⟨m, hm, hmc⟩ := Option.bind_eq_some_iff.mp hc
    have hbearer : m.bearer? = some c.bearer := by rw [← map_bearer_ofMembers?, hmc]; rfl
    refine ⟨fun h => absurd hobject h, fun _ => ⟨m, hm, hbearer⟩,
      fun hblank => ⟨hobject, m, hm, _, hbearer, hblank⟩, ?_⟩
    rintro ⟨-, m', hm', s, hs, hblank⟩
    cases hm.symm.trans hm'
    cases hbearer.symm.trans hs
    exact hblank
  · rw [ofFile, ofText_of_plain _ hobject] at hc
    split at hc
    · cases hc
    · rename_i hblank
      cases hc
      exact ⟨fun _ => ⟨rfl, eq_false_of_ne_true hblank⟩, fun h => absurd h hobject,
        fun h => absurd h hblank, fun h => absurd h.1 hobject⟩

/-- A key with a blank secret in an object with blanks around it. -/
def sampleKey : String := " \x7b\"api_key\":\"k\",\"api_secret\":\" \"\x7d\n"

/-- The key is sent, from either source, and it is not blank although the secret is. -/
theorem loaded_alike_sampleKey :
    (ofVariable "KEY" (some sampleKey)).toOption = some (keySecret "k" " ") ∧
      ∃ m ∈ Members.ofText? (Text.trim sampleKey), m.bearer? = some "k" := by
  have hloaded : (ofFile "key" (.ok sampleKey)).toOption = some (keySecret "k" " ") := by
    decide +kernel
  obtain ⟨halike, hsent⟩ := loaded_alike "key" "KEY" sampleKey
  exact ⟨halike.symm.trans hloaded, (hsent _ hloaded).2.1 (by unfold IsObject; decide +kernel)⟩

/-- An object with an empty token is loaded from either source, and what it sends is blank. -/
theorem blank_loaded : ¬ ∀ path name text : String,
    (ofFile path (.ok text)).toOption = (ofVariable name (some text)).toOption ∧
      ∀ c ∈ (ofFile path (.ok text)).toOption, Text.isBlank c.bearer = false := by
  intro h
  have hloaded : ofFile "token" (.ok "\x7b\"token\":\"\"\x7d") = .ok (token "") := by
    decide +kernel
  have hblank := (h "token" "TOKEN" "\x7b\"token\":\"\"\x7d").2 (token "") (by rw [hloaded]; rfl)
  exact absurd hblank (by decide)

end Credentials

end CertSteward
