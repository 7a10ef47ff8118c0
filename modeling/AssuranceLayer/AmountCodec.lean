import AssuranceLayer.AmountTexts

set_option autoImplicit false

/-!
The decimal text of an amount: which texts are one, and for what number, in the two verifiers.
-/
namespace AssuranceLayer.AmountCodec
open Utf16 JavaScript AmountTexts

/-- Digits, and behind a point one to eighteen more, in units of the last of eighteen decimals. -/
def Spells (cs : List Char) (n : ℕ) : Prop :=
  ∃ int frac : List Char, (int ≠ [] ∧ int.all isAsciiDigit = true) ∧ frac.all isAsciiDigit = true ∧
    (frac = [] ∧ cs = int ∨ (1 ≤ frac.length ∧ frac.length ≤ 18) ∧ cs = int ++ '.' :: frac) ∧
    n = digitsValue int * 10 ^ 18 + digitsValue frac * 10 ^ (18 - frac.length)

theorem digitsValue_rightpad {frac : List Char} :
    digitsValue (frac.rightpad 18 '0') = digitsValue frac * 10 ^ (18 - frac.length) := by
  rw [List.rightpad, digitsValue, Nat.ofDigitChars_append, Nat.ofDigitChars_replicate_zero, mul_comm]
  rfl

theorem point_not_mem {cs : List Char} (h : cs.all isAsciiDigit = true) : '.' ∉ cs :=
  fun hmem => absurd (List.all_eq_true.mp h _ hmem) (by decide)

theorem splitOnce_eq_none {sep : Char} {cs : List Char} (h : sep ∉ cs) : splitOnce sep cs = none := by
  induction cs with
  | nil => rfl
  | cons c cs ih =>
    rw [List.mem_cons, not_or] at h
    rw [splitOnce, if_neg (Ne.symm h.1), ih h.2, Option.map_none]

theorem decimal_iff {cs : List Char} {n : ℕ} : Decimal cs n ↔ Spells cs n ∧ n ≤ 2 ^ 128 - 1 := by
  constructor
  · rintro ⟨hint, hpoint, hfrac, hscaled, hrange⟩
    refine ⟨⟨(decimalParts cs).1, (decimalParts cs).2, hint, hfrac.2, ?_, ?_⟩, by omega⟩
    · cases hsplit : splitOnce '.' cs with
      | none =>
        rw [decimalParts, hsplit]
        exact .inl ⟨rfl, rfl⟩
      | some p =>
        have hne := hpoint.resolve_left (by simp [hsplit])
        refine .inr ⟨⟨List.length_pos_iff.mpr hne, hfrac.1⟩, ?_⟩
        rw [decimalParts, hsplit]
        exact splitOnce_eq_some hsplit
    · rw [← hscaled, digitsValue_rightpad]
  · rintro ⟨⟨int, frac, hint, hfrac, hshape, hvalue⟩, hrange⟩
    have hparts : decimalParts cs = (int, frac) ∧ (splitOnce '.' cs = none ∨ frac ≠ []) ∧ frac.length ≤ 18 := by
      rcases hshape with ⟨rfl, rfl⟩ | ⟨⟨hpos, hlen⟩, rfl⟩
      · have hnone := splitOnce_eq_none (point_not_mem hint.2)
        exact ⟨by rw [decimalParts, hnone]; rfl, .inl hnone, Nat.zero_le _⟩
      · have hsome := splitOnce_append (r := frac) (point_not_mem hint.2)
        exact ⟨by rw [decimalParts, hsome]; rfl, .inr (List.length_pos_iff.mp hpos), hlen⟩
    obtain ⟨hparts, hpoint, hlen⟩ := hparts
    refine ⟨?_, ?_, ?_, ?_, by omega⟩ <;> rw [hparts]
    · exact hint
    · exact hpoint
    · exact ⟨hlen, hfrac⟩
    · rw [hvalue, digitsValue_rightpad]

theorem parse_iff {s : String} {n : ℕ} : (∃ v : U128, Amount.parseAmount18dp s = .ok v ∧ v.val = n) ↔
    Spells s.toList n ∧ n ≤ 2 ^ 128 - 1 := by
  rw [← decimal_iff]
  constructor
  · rintro ⟨v, hv, rfl⟩
    exact parseAmount18dp_iff.mp hv
  · exact fun h => ⟨⟨n, h.range⟩, parseAmount18dp_iff.mpr h, rfl⟩

/-- A text that the browser reads is one that Rust can hold. -/
theorem parse_browser_iff {t : JsString} {n : ℤ} : Browser.parseAmount18dp (.str t) = .ok n ↔
    ∃ s v, t = ofString s ∧ Amount.parseAmount18dp s = .ok v ∧ n = v.val := by
  constructor
  · intro h
    obtain ⟨value, -, hdecimal⟩ := parseText_iff.mp h
    have hchars : ∀ c ∈ asChars t, c ≠ Char.ofNat 0 := by
      rintro c hc rfl
      exact absurd (List.all_eq_true.mp hdecimal.chars _ hc) (by decide)
    rw [← ofString_asChars hchars] at h ⊢
    obtain ⟨v, hv, rfl⟩ := parseAmount18dp_string.mp h
    exact ⟨_, v, rfl, hv, rfl⟩
  · rintro ⟨s, v, rfl, hv, rfl⟩
    exact parseAmount18dp_of_ok hv

/-- What is written is read back, what is read is a decimal in range, and the two verifiers read and
    write alike. -/
theorem amount_codec :
    (∀ v : U128, Amount.parseAmount18dp (Amount.formatAmount18dp v) = .ok v) ∧
    (∀ s n, (∃ v : U128, Amount.parseAmount18dp s = .ok v ∧ v.val = n) ↔
      Spells s.toList n ∧ n ≤ 2 ^ 128 - 1) ∧
    (∀ t n, Browser.parseAmount18dp (.str t) = .ok n ↔
      ∃ s v, t = ofString s ∧ Amount.parseAmount18dp s = .ok v ∧ n = v.val) ∧
    ∀ n t, Browser.formatAmount18dp n = .ok t ↔
      ∃ v : U128, n = v.val ∧ t = ofString (Amount.formatAmount18dp v) := by
  refine ⟨Amount.parse_format, fun _ _ => parse_iff, fun _ _ => parse_browser_iff, fun n t => ?_⟩
  constructor
  · exact formatAmount18dp_eq_ok
  · rintro ⟨v, rfl, rfl⟩
    exact formatAmount18dp_val v

end AssuranceLayer.AmountCodec
