import AssuranceLayer.AmountTexts
import AssuranceLayer.BrowserVerify

set_option autoImplicit false

/-! Hexadecimal texts and signatures, as the two verifiers read them. -/
namespace AssuranceLayer.HexTexts
open Fallible Utf16 JavaScript Sign
open Browser (isHexDigit)

theorem hexDecodeChars_chars {cs : List Char} {bytes : List UInt8} (h : hexDecodeChars cs = some bytes) :
    cs.all isHexDigit = true := by
  induction cs using hexDecodeChars.induct generalizing bytes with
  | case1 => rfl
  | case2 => cases h
  | case3 hi lo rest ih =>
    simp only [hexDecodeChars, Option.bind_eq_bind, Option.bind_eq_some_iff] at h
    obtain ⟨a, ha, b, hb, tail, htail, -⟩ := h
    simp [isHexDigit, ha, hb, ih htail]

theorem isHexDigit_bounds {c : Char} (h : isHexDigit c = true) : 48 ≤ c.toNat ∧ c.toNat ≤ 102 := by
  have hrange : ∀ {a b : Char}, a ≤ c ∧ c ≤ b → a.toNat ≤ c.toNat ∧ c.toNat ≤ b.toNat := fun hab => hab
  rw [isHexDigit, hexValue] at h
  split_ifs at h with h1 h2 h3
  · have := hrange h1
    exact ⟨this.1, this.2.trans (by decide)⟩
  · have := hrange h2
    exact ⟨le_trans (by decide) this.1, this.2⟩
  · have := hrange h3
    exact ⟨le_trans (by decide) this.1, this.2.trans (by decide)⟩
  · cases h

theorem isHexDigit_small {c : Char} (h : isHexDigit c = true) : c.toNat < 0x10000 := by
  have := (isHexDigit_bounds h).2
  omega

theorem hexDecode_ofString (s : String) : hexDecodeChars (asChars (ofString s)) = hexDecode s := by
  have heq : (asChars (ofString s)).all isHexDigit = true ∨ s.toList.all isHexDigit = true →
      asChars (ofString s) = s.toList := AmountTexts.asChars_eq (by decide) fun _ => isHexDigit_small
  rw [hexDecode]
  cases hleft : hexDecodeChars (asChars (ofString s)) with
  | some bytes => rw [← heq (.inl (hexDecodeChars_chars hleft)), hleft]
  | none =>
    cases hright : hexDecodeChars s.toList with
    | none => rfl
    | some bytes =>
      rw [heq (.inr (hexDecodeChars_chars hright)), hright] at hleft
      exact hleft.symm

theorem hexToBytes_string (s : String) :
    Browser.hexToBytes (Js.string s) = okOr (hexDecode s) (.error .invalidHex) := by
  rw [Js.string, Browser.hexToBytes, hexDecode_ofString]

variable {ed : Ed25519}

theorem hexDecodeN_eq_some {n : ℕ} {s : String} {bytes : Bytes n} :
    hexDecodeN n s = some bytes ↔ hexDecode s = some bytes.toList := by
  simp only [hexDecodeN, Option.bind_eq_some_iff, Option.dite_none_right_eq_some]
  constructor
  · rintro ⟨raw, hraw, hlen, heq⟩
    obtain rfl := Option.some.inj heq
    exact hraw
  · intro h
    exact ⟨bytes.toList, h, bytes.toList_length, rfl⟩

/-! ## Texts in lower case -/

/-- No letter is a capital. -/
def IsLowerCase (s : String) : Prop := ∀ c ∈ s.toList, c.isUpper = false

instance (s : String) : Decidable (IsLowerCase s) := inferInstanceAs (Decidable (∀ c ∈ s.toList, c.isUpper = false))

theorem hexValue_eq_some {c : Char} {n : ℕ} (h : hexValue c = some n) :
    n < 16 ∧ (c.isUpper = false → c = n.digitChar) := by
  have hofNat : c = Char.ofNat c.toNat := (Char.ofNat_toNat c).symm
  have hrange : ∀ {a b : Char}, a ≤ c ∧ c ≤ b → a.toNat ≤ c.toNat ∧ c.toNat ≤ b.toNat := fun hab => hab
  rw [hexValue] at h
  generalize c.toNat = k at hofNat hrange h
  split_ifs at h with h1 h2 h3
  · obtain ⟨hlow, hhigh⟩ : 48 ≤ k ∧ k ≤ 57 := hrange h1
    obtain rfl := Option.some.inj h
    subst hofNat
    interval_cases k <;> decide
  · obtain ⟨hlow, hhigh⟩ : 97 ≤ k ∧ k ≤ 102 := hrange h2
    obtain rfl := Option.some.inj h
    subst hofNat
    interval_cases k <;> decide
  · obtain ⟨hlow, hhigh⟩ : 65 ≤ k ∧ k ≤ 70 := hrange h3
    obtain rfl := Option.some.inj h
    subst hofNat
    interval_cases k <;> decide

theorem hexPair_of_values {h l : ℕ} (hh : h < 16) (hl : l < 16) :
    hexPair (UInt8.ofNat (16 * h + l)) = [h.digitChar, l.digitChar] := by
  have hbyte : (UInt8.ofNat (16 * h + l)).toNat = 16 * h + l := by
    rw [UInt8.toNat_ofNat']
    omega
  rw [hexPair, hbyte, show (16 * h + l) / 16 = h by omega, show (16 * h + l) % 16 = l by omega]

theorem isUpper_digitChar {n : ℕ} (h : n < 16) : n.digitChar.isUpper = false := by
  interval_cases n <;> decide

theorem hexPairs_of_lower {cs : List Char} {bytes : List UInt8} (h : hexDecodeChars cs = some bytes)
    (hlower : ∀ c ∈ cs, c.isUpper = false) : bytes.flatMap hexPair = cs := by
  induction cs using hexDecodeChars.induct generalizing bytes with
  | case1 =>
    cases h
    rfl
  | case2 => cases h
  | case3 hi lo rest ih =>
    simp only [hexDecodeChars, Option.bind_eq_bind, Option.bind_eq_some_iff] at h
    obtain ⟨a, ha, b, hb, tail, htail, hbytes⟩ := h
    obtain rfl := Option.some.inj hbytes
    simp only [List.mem_cons, forall_eq_or_imp] at hlower
    obtain ⟨ha16, hhi⟩ := hexValue_eq_some ha
    obtain ⟨hb16, hlo⟩ := hexValue_eq_some hb
    rw [List.flatMap_cons, hexPair_of_values ha16 hb16, ih htail hlower.2.2, ← hhi hlower.1, ← hlo hlower.2.1]
    rfl

theorem isLowerCase_hexEncode (bytes : List UInt8) : IsLowerCase (hexEncode bytes) := by
  intro c hc
  rw [hexEncode, String.toList_ofList, List.mem_flatMap] at hc
  obtain ⟨b, -, hb⟩ := hc
  have hlt := b.toNat_lt
  rcases List.mem_pair.mp hb with rfl | rfl
  · exact isUpper_digitChar (by omega)
  · exact isUpper_digitChar (by omega)

/-- A text that decodes is what its bytes are written as, if it is in lower case. -/
theorem hexEncode_eq_iff {s : String} {n : ℕ} {bytes : Bytes n} (h : hexDecodeN n s = some bytes) :
    hexEncode bytes.toList = s ↔ IsLowerCase s := by
  constructor
  · rintro rfl
    exact isLowerCase_hexEncode _
  · intro hlower
    rw [← String.toList_inj, hexEncode, String.toList_ofList]
    exact hexPairs_of_lower (hexDecodeN_eq_some.mp h) hlower

/-! ## Signatures -/

theorem importKey_eq_some {raw : List UInt8} {key : Bytes 32} :
    Browser.importKey raw = some key ↔ raw = key.toList := by
  rw [Browser.importKey]
  split_ifs with hlen
  · constructor
    · intro heq
      obtain rfl := Option.some.inj heq
      rfl
    · rintro rfl
      rfl
  · simp only [false_iff]
    rintro rfl
    exact absurd key.toList_length hlen

theorem subtleVerify_eq_true {key : Bytes 32} {value message : List UInt8} :
    Browser.subtleVerify ed key value message = true ↔
      ed.validKey key = true ∧ ∃ sig : Bytes 64, value = sig.toList ∧ ed.verify key message sig = true := by
  rw [Browser.subtleVerify]
  split_ifs with hlen
  · rw [Bool.and_eq_true]
    refine and_congr_right fun _ => ⟨fun h => ⟨⟨value, hlen⟩, rfl, h⟩, ?_⟩
    rintro ⟨sig, rfl, h⟩
    exact h
  · refine iff_of_false not_false ?_
    rintro ⟨_, sig, rfl, _⟩
    exact hlen sig.toList_length

/-- The same keys, digests and signatures pass. -/
theorem verifyEd25519_iff {key value : String} {digest : Digest} :
    Browser.verifyEd25519 ed (ofString key) (ofString (hexEncode digest.toList)) (Js.string value) = .ok true ↔
      verifySignature ed key digest value = .ok () := by
  have hkey := hexToBytes_string key
  have hmessage := hexToBytes_string (hexEncode digest.toList)
  rw [Js.string] at hkey hmessage
  simp only [Browser.verifyEd25519, hkey, hmessage, hexToBytes_string, hexDecode_encode, verifySignature,
    bind_eq_ok, pure_eq_ok, mapError_eq_ok, okOr_eq_ok, ensure_eq_ok, importKey_eq_some,
    subtleVerify_eq_true, hexDecodeN_eq_some]
  constructor
  · rintro ⟨raw, hraw, key, rfl, _, hsig, message, hmessage, hvalid, sig, rfl, hverify⟩
    obtain rfl := Option.some.inj hmessage
    exact ⟨key, hraw, sig, hsig, (), hvalid, hverify⟩
  · rintro ⟨key, hraw, sig, hsig, _, hvalid, hverify⟩
    exact ⟨key.toList, hraw, key, rfl, sig.toList, hsig, digest.toList, rfl, hvalid, sig, rfl, hverify⟩

end AssuranceLayer.HexTexts
