import AssuranceLayer.Browser
import AssuranceLayer.Sums

set_option autoImplicit false

/-!
The two readings of an amount. They accept the same texts and read the same numbers, and they write
the same text.
-/
namespace AssuranceLayer.AmountTexts
open Fallible Utf16 JavaScript Browser

/-! ## Texts of one unit a character -/

theorem asChars_eq {s : String} {p : Char → Bool} (hzero : p (Char.ofNat 0) = false)
    (hsmall : ∀ c, p c = true → c.toNat < 0x10000)
    (h : (asChars (ofString s)).all p = true ∨ s.toList.all p = true) : asChars (ofString s) = s.toList := by
  refine asChars_ofString fun c hc => ?_
  rcases h with h | h
  · by_contra hbig
    -- half of a pair is no character
    obtain ⟨u, rest, hunits⟩ := List.exists_cons_of_ne_nil (charUnits_ne_nil c)
    have hu : u ∈ charUnits c := hunits ▸ List.mem_cons_self
    obtain ⟨hlow, hhigh⟩ := mem_charUnits_of_le (not_lt.mp hbig) hu
    have hp := List.all_eq_true.mp h _ (List.mem_map_of_mem (List.mem_flatMap.mpr ⟨c, hc, hu⟩))
    rw [unitChar_surrogate hlow hhigh, hzero] at hp
    cases hp
  · exact hsmall c (List.all_eq_true.mp h c hc)

theorem splitOnce_eq_some {sep : Char} {cs l r : List Char} (h : splitOnce sep cs = some (l, r)) :
    cs = l ++ sep :: r := by
  induction cs generalizing l with
  | nil => cases h
  | cons c cs ih =>
    rw [splitOnce] at h
    split_ifs at h with hc
    · cases h
      rw [hc]
      rfl
    · obtain ⟨⟨l', r'⟩, hp, heq⟩ := Option.map_eq_some_iff.mp h
      obtain ⟨rfl, rfl⟩ := Prod.mk.inj heq
      rw [ih hp, List.cons_append]

/-- Before the point and behind it. -/
def decimalParts (cs : List Char) : List Char × List Char := (splitOnce '.' cs).getD (cs, [])

def isAmountChar (c : Char) : Bool := isAsciiDigit c || c = '.'

theorem isAmountChar_lt {c : Char} (h : isAmountChar c = true) : c.toNat < 0x10000 := by
  rcases Bool.or_eq_true _ _ ▸ h with h | h
  · simp only [isAsciiDigit, Char.le_def, UInt32.le_iff_toNat_le, decide_eq_true_eq] at h
    exact h.2.trans_lt (by decide)
  · rw [of_decide_eq_true h]
    decide

theorem all_isAmountChar {cs : List Char} (hint : (decimalParts cs).1.all isAsciiDigit = true)
    (hfrac : (decimalParts cs).2.all isAsciiDigit = true) : cs.all isAmountChar = true := by
  have hdigit : ∀ l : List Char, l.all isAsciiDigit = true → l.all isAmountChar = true := fun l h =>
    List.all_eq_true.mpr fun c hc => by rw [isAmountChar, List.all_eq_true.mp h c hc, Bool.true_or]
  cases hsplit : splitOnce '.' cs with
  | none =>
    rw [decimalParts, hsplit] at hint
    exact hdigit cs hint
  | some p =>
    rw [decimalParts, hsplit, Option.getD_some] at hint hfrac
    rw [splitOnce_eq_some hsplit, List.all_append, List.all_cons, hdigit _ hint, hdigit _ hfrac]
    rfl

/-! ## The value of a decimal -/

/-- Digits, at most eighteen of them behind a point, and the value they scale to. -/
structure Decimal (cs : List Char) (value : ℕ) : Prop where
  int : (decimalParts cs).1 ≠ [] ∧ (decimalParts cs).1.all isAsciiDigit = true
  point : splitOnce '.' cs = none ∨ (decimalParts cs).2 ≠ []
  frac : (decimalParts cs).2.length ≤ 18 ∧ (decimalParts cs).2.all isAsciiDigit = true
  scaled : digitsValue (decimalParts cs).1 * 10 ^ 18 +
    digitsValue ((decimalParts cs).2.rightpad 18 '0') = value
  range : value < 2 ^ 128

theorem Decimal.chars {cs : List Char} {n : ℕ} (h : Decimal cs n) : cs.all isAmountChar = true :=
  all_isAmountChar h.int.2 h.frac.2

theorem parseU128_eq_ok {cs : List Char} {a : U128} : Amount.parseU128 cs = .ok a ↔ digitsValue cs = a.val := by
  rw [Amount.parseU128]
  split_ifs with h
  · rw [Except.ok.injEq, Fin.ext_iff]
  · rw [iff_false_left (by simp)]
    exact fun heq => h (heq ▸ a.isLt)

theorem checkedMul_scale {a b : U128} : a.checkedMul Amount.scale = some b ↔ a.val * 10 ^ 18 = b.val := by
  rw [U128.checkedMul]
  split_ifs with h
  · rw [Option.some.injEq, Fin.ext_iff]
    rfl
  · rw [iff_false_left (by simp)]
    exact fun heq => h (show a.val * 10 ^ 18 < 2 ^ 128 from heq ▸ b.isLt)

theorem parseAmount18dp_iff {s : String} {a : U128} :
    Amount.parseAmount18dp s = .ok a ↔ Decimal s.toList a.val := by
  have hparse : Amount.parseAmount18dp s = .ok a ↔ (decimalParts s.toList).1 ≠ [] ∧
      (splitOnce '.' s.toList = none ∨ (decimalParts s.toList).2 ≠ []) ∧
      (utf8 (String.ofList (decimalParts s.toList).2)).length ≤ 18 ∧
      ((decimalParts s.toList).1.all isAsciiDigit = true ∧ (decimalParts s.toList).2.all isAsciiDigit = true) ∧
      ∃ int : U128, digitsValue (decimalParts s.toList).1 = int.val ∧ ∃ frac : U128,
        digitsValue ((decimalParts s.toList).2.rightpad 18 '0') = frac.val ∧ ∃ scaled : U128,
          int.val * 10 ^ 18 = scaled.val ∧ scaled.val + frac.val = a.val := by
    unfold Amount.parseAmount18dp
    simp only [bind_eq_ok, ensure_eq_ok, exists_const, parseU128_eq_ok, ← decimalParts.eq_1]
    by_cases hnil : (decimalParts s.toList).2 = []
    · -- a text without a point has no digits behind it
      have hzero : ∀ f : U128, digitsValue (([] : List Char).rightpad 18 '0') = f.val ↔ f = 0 := fun f => by
        rw [show digitsValue (([] : List Char).rightpad 18 '0') = 0 by decide, Fin.ext_iff, eq_comm]
        rfl
      simp only [hnil, if_true, hzero, exists_eq_left, pure_bind, okOr_eq_ok, Option.bind_eq_some_iff,
        checkedMul_scale, U128.checkedAdd_eq_some]
      rfl
    · simp only [hnil, if_false, bind_eq_ok, parseU128_eq_ok, okOr_eq_ok, Option.bind_eq_some_iff,
        checkedMul_scale, U128.checkedAdd_eq_some]
      rfl
  rw [hparse]
  constructor
  · rintro ⟨hint, hpoint, hlen, ⟨hintDigits, hfracDigits⟩, int, hintValue, frac, hfrac, scaled, hscaled, hsum⟩
    rw [Amount.utf8_length_of_digits hfracDigits] at hlen
    refine ⟨⟨hint, hintDigits⟩, hpoint, ⟨hlen, hfracDigits⟩, ?_, a.isLt⟩
    rw [hintValue, hfrac, hscaled, hsum]
  · intro h
    have hvalue := h.scaled
    have hlt := a.isLt
    generalize hint : digitsValue (decimalParts s.toList).1 = int at hvalue
    generalize hfrac : digitsValue ((decimalParts s.toList).2.rightpad 18 '0') = frac at hvalue
    refine ⟨h.int.1, h.point, ?_, ⟨h.int.2, h.frac.2⟩, ⟨int, by omega⟩, rfl, ⟨frac, by omega⟩, rfl,
      ⟨int * 10 ^ 18, by omega⟩, rfl, hvalue⟩
    rw [Amount.utf8_length_of_digits h.frac.2]
    exact h.frac.1

theorem le_maxAmount {n : ℕ} : (n : ℤ) ≤ maxAmount ↔ n < 2 ^ 128 := by
  unfold maxAmount
  omega

theorem parseText_iff {s : JsString} {n : ℤ} :
    parseText s = .ok n ↔ ∃ value : ℕ, n = value ∧ Decimal (asChars s) value := by
  simp only [parseText, amountOf, bind_eq_ok, ensure_eq_ok, pure_eq_ok, exists_const, ← decimalParts.eq_1,
    isDigits, decide_eq_true_eq]
  constructor
  · rintro ⟨⟨hint, hpoint⟩, hlen, ⟨hintDigits, hfracDigits⟩, hmax, rfl⟩
    refine ⟨digitsValue (decimalParts (asChars s)).1 * 10 ^ 18 +
      digitsValue ((decimalParts (asChars s)).2.rightpad 18 '0'), by simp [scale],
      ⟨hint, hintDigits.2⟩, hpoint, ⟨hlen, ?_⟩, rfl, ?_⟩
    · rcases hfracDigits with h | h
      · rw [h]
        rfl
      · exact h.2
    · exact le_maxAmount.mp (by simpa [scale] using hmax)
  · rintro ⟨value, rfl, h⟩
    have hvalue : (digitsValue (decimalParts (asChars s)).1 : ℤ) * scale +
        digitsValue ((decimalParts (asChars s)).2.rightpad 18 '0') = value := by
      rw [scale]
      exact_mod_cast h.scaled
    refine ⟨⟨h.int.1, h.point⟩, h.frac.1, ⟨h.int, ?_⟩, ?_, hvalue⟩
    · exact (em _).imp id fun hne => ⟨hne, h.frac.2⟩
    · rw [hvalue]
      exact le_maxAmount.mpr h.range

/-- Both read the same number. -/
theorem parseAmount18dp_string {s : String} {n : ℤ} : parseAmount18dp (Js.string s) = .ok n ↔
    ∃ a, Amount.parseAmount18dp s = .ok a ∧ (a.val : ℤ) = n := by
  have hchars : ∀ value, Decimal (asChars (ofString s)) value ↔ Decimal s.toList value := fun value => by
    constructor
    · intro h
      rwa [← asChars_eq (by decide) (fun _ => isAmountChar_lt) (.inl h.chars)]
    · intro h
      rwa [asChars_eq (by decide) (fun _ => isAmountChar_lt) (.inr h.chars)]
  rw [Js.string, parseAmount18dp, parseText_iff]
  simp only [hchars, parseAmount18dp_iff]
  constructor
  · rintro ⟨value, rfl, h⟩
    exact ⟨⟨value, h.range⟩, h, rfl⟩
  · rintro ⟨a, h, rfl⟩
    exact ⟨a.val, rfl, h⟩

theorem parseAmount18dp_of_ok {s : String} {a : U128} (h : Amount.parseAmount18dp s = .ok a) :
    parseAmount18dp (Js.string s) = .ok (a.val : ℤ) :=
  parseAmount18dp_string.mpr ⟨a, h, rfl⟩

/-- Both write the same text. -/
theorem formatAmount18dp_val (a : U128) :
    formatAmount18dp a.val = .ok (ofString (Amount.formatAmount18dp a)) := by
  have hmax : (a.val : ℤ) ≤ maxAmount := le_maxAmount.mpr a.isLt
  simp only [formatAmount18dp, bind_eq_ok, ensure_eq_ok, exists_const, pure_eq_ok]
  exact ⟨Int.natCast_nonneg _, hmax, rfl⟩

theorem formatAmount18dp_eq_ok {n : ℤ} {t : JsString} (h : formatAmount18dp n = .ok t) :
    ∃ a : U128, n = (a.val : ℤ) ∧ t = ofString (Amount.formatAmount18dp a) := by
  have hbounds := h
  simp only [formatAmount18dp, bind_eq_ok, ensure_eq_ok, exists_const, pure_eq_ok] at hbounds
  obtain ⟨value, rfl⟩ := Int.eq_ofNat_of_zero_le hbounds.1
  refine ⟨⟨value, le_maxAmount.mp hbounds.2.1⟩, rfl, ?_⟩
  exact Except.ok.inj (h.symm.trans (formatAmount18dp_val ⟨value, le_maxAmount.mp hbounds.2.1⟩))

end AssuranceLayer.AmountTexts
