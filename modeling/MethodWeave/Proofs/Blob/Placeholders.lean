import MethodWeave.Blob.Metadata
import MethodWeave.Proofs.Metadata
import MethodWeave.Proofs.Outcome
/-!
Placeholders tell tokens apart.

A token that a blob loads a string by stands for a text that is made from the token itself.  The
text of a token is a hexadecimal numeral, which its number can be read back from; so different
tokens have different placeholders, and the two tables of a scanned blob are inverse to one another.
Main result: the metadata that a scan collects are coherent (`BlobMetadata.coherent_scan`), as those
of a module are.
-/

namespace MethodWeave

/-! ### Numerals -/

namespace Text

/-- The value of a lower-case hexadecimal digit. -/
def digitValue (c : Char) : Nat := if c.isDigit then c.toNat - 48 else c.toNat - 87

/-- The number that hexadecimal digits stand for, the highest first. -/
def numeral (digits : List Char) : Nat := digits.foldl (fun n c => 16 * n + digitValue c) 0

theorem digitValue_digitChar {d : Nat} (h : d < 16) : digitValue (Nat.digitChar d) = d := by
  revert d
  decide

theorem numeral_append (digits : List Char) (c : Char) :
    numeral (digits ++ [c]) = 16 * numeral digits + digitValue c := by
  simp [numeral]

theorem numeral_toDigits (n : Nat) : numeral (Nat.toDigits 16 n) = n := by
  induction n using Nat.strongRecOn with
  | ind n ih =>
    rw [Nat.toDigits_eq_if (by decide)]
    split
    · next hlt =>
      show 16 * 0 + digitValue (Nat.digitChar n) = n
      rw [digitValue_digitChar hlt, Nat.mul_zero, Nat.zero_add]
    · next hge =>
      rw [numeral_append, ih (n / 16) (by omega), digitValue_digitChar (by omega)]
      omega

/-- Zeros in front do not count. -/
theorem numeral_padZeros (width : Nat) (digits : List Char) :
    numeral (padZeros width digits) = numeral digits := by
  have hzeros (k : Nat) :
      (List.replicate k '0').foldl (fun n c => 16 * n + digitValue c) 0 = 0 := by
    induction k with
    | zero => rfl
    | succ k ih => exact ih
  rw [numeral, padZeros, List.foldl_append, hzeros, numeral]

theorem hex_injective (width : Nat) {n n' : Nat} (h : hex width n = hex width n') : n = n' := by
  have hdigits := congrArg numeral (String.ofList_injective h)
  rwa [numeral_padZeros, numeral_padZeros, numeral_toDigits, numeral_toDigits] at hdigits

end Text

/-- Different tokens are printed differently. -/
theorem Token.text_injective {t u : Token} (h : t.text = u.text) : t = u := by
  have hhex : Text.hex 8 t.value.toNat = Text.hex 8 u.value.toNat := by
    have hchars := congrArg String.toList h
    exact String.toList_inj.1 (by simpa [Token.text] using hchars)
  exact Token.key_inj (Text.hex_injective 8 hhex)

namespace BlobMetadata

/-! ### The metadata of a scanned blob -/

/-- The text that stands for the string of a token. -/
def placeholder (t : Token) : String := "<" ++ t.text ++ ">"

theorem placeholder_injective {t u : Token} (h : placeholder t = placeholder u) : t = u := by
  have hchars := congrArg String.toList h
  exact Token.text_injective (String.toList_inj.1 (by simpa [placeholder] using hchars))

/-- Every string is the placeholder of its token, and has that token. -/
structure Named (m : BlobMetadata) : Prop where
  strings : ∀ {t : Token} {s}, m.strings.get? t.key = some s → s = placeholder t
  tokens : ∀ {t : Token} {s}, m.strings.get? t.key = some s → m.tokens.lookup s = some t

theorem Named.addString {m : BlobMetadata} (h : m.Named) (t : Token) :
    (m.addString t (placeholder t)).Named where
  strings := by
    intro u s hget
    simp only [BlobMetadata.addString, KeyMap.get?_insert] at hget
    split at hget
    · next hkey => cases hget; rw [Token.key_inj hkey]
    · exact h.strings hget
  tokens := by
    intro u s hget
    simp only [BlobMetadata.addString, KeyMap.get?_insert] at hget
    simp only [BlobMetadata.addString, KeyMap.lookup_cons_eq_ite]
    split at hget
    · next hkey =>
      cases hget
      rw [Token.key_inj hkey, if_pos rfl]
    · next hkey =>
      -- another token has another placeholder, so its entry is still the first one
      have hne : s ≠ placeholder t := by
        rw [h.strings hget]
        exact fun heq => hkey (by rw [placeholder_injective heq])
      rw [if_neg hne]
      exact h.tokens hget

theorem token_of_member? {t : Token} {m : Member} (h : member? t = some m) : m.token = t := by
  unfold member? at h
  simp only at h
  split at h
  · cases h; rfl
  · split at h
    · cases h; rfl
    · split at h <;> cases h
      rfl

theorem token_of_signature? {t : Token} {s : Signature} (h : signature? t = some s) :
    s.token = t := by
  unfold signature? at h
  split at h <;> cases h
  rfl

theorem Named.coherent {m : BlobMetadata} (h : m.Named) : Metadata.Coherent m where
  member := token_of_member?
  signature := token_of_signature?
  userString := by
    intro t s hs
    have hlookup : m.tokens.lookup s = some t := h.tokens hs
    show intern m s = (t, m)
    rw [intern, hlookup]

/-! ### What a scan files -/

/-- The tables with the placeholder of a token, or as they were. -/
theorem cases_scanOperand {m m' : BlobMetadata} {operand : OperandClass} {r r' : Reader}
    (h : scanOperand m operand r = .ok (m', r')) :
    m' = m ∨ ∃ t, m' = m.addString t (placeholder t) := by
  unfold scanOperand at h
  split at h
  · simp only [bind_eq_ok_iff, pure_eq_ok_iff, Prod.exists, Prod.mk.injEq] at h
    obtain ⟨v, r₁, -, rfl, -⟩ := h
    exact Or.inr ⟨⟨v⟩, rfl⟩
  · simp only [bind_eq_ok_iff, Prod.exists] at h
    obtain ⟨count, r₁, -, h⟩ := h
    split at h
    · cases h
    · cases h; exact Or.inl rfl
  · simp only [bind_eq_ok_iff, pure_eq_ok_iff, Prod.exists, Prod.mk.injEq] at h
    obtain ⟨bytes, r₁, -, rfl, -⟩ := h
    exact Or.inl rfl

/-- What holds of metadata, and goes on to hold as placeholders are filed, holds after a scan. -/
theorem scanFrom_induction {P : BlobMetadata → Prop}
    (hadd : ∀ m t, P m → P (m.addString t (placeholder t))) {limit : Nat} {m m' : BlobMetadata}
    {r : Reader} (hm : P m) (h : scanFrom limit m r = .ok m') : P m' := by
  induction limit generalizing m r with
  | zero => cases h; exact hm
  | succ limit ih =>
    unfold scanFrom at h
    split at h
    · cases h; exact hm
    · simp only [bind_eq_ok_iff, Prod.exists] at h
      obtain ⟨info, r₁, -, m₁, r₂, hoperand, h⟩ := h
      refine ih ?_ h
      rcases cases_scanOperand hoperand with rfl | ⟨t, rfl⟩
      · exact hm
      · exact hadd m t hm

/-- **Scanned metadata are coherent.** -/
theorem coherent_scan {code : List UInt8} {m : BlobMetadata} (h : scan code = .ok m) :
    Metadata.Coherent m := by
  have hfresh : Named {} := ⟨nofun, nofun⟩
  exact (scanFrom_induction (fun _ t hm => hm.addString t) hfresh h).coherent

/-- The one has a string wherever the other has one. -/
def Covers (m m₀ : BlobMetadata) : Prop :=
  ∀ {t : Token} {s}, m₀.strings.get? t.key = some s → ∃ s', m.strings.get? t.key = some s'

theorem Covers.addString {m m₀ : BlobMetadata} (h : m.Covers m₀) (t : Token) (s : String) :
    (m.addString t s).Covers m₀ := by
  intro u s' hget
  simp only [BlobMetadata.addString, KeyMap.get?_insert]
  split
  · exact ⟨s, rfl⟩
  · exact h hget

/-- No string is lost on the way. -/
theorem covers_scanFrom {limit : Nat} {m m' : BlobMetadata} {r : Reader}
    (h : scanFrom limit m r = .ok m') : m'.Covers m :=
  scanFrom_induction (P := (·.Covers m)) (fun _ t hm => hm.addString t _) (fun hget => ⟨_, hget⟩) h

end BlobMetadata

end MethodWeave
