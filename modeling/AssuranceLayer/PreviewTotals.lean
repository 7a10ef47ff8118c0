import AssuranceLayer.AmountCodec
import AssuranceLayer.BrowserCsv
import AssuranceLayer.JsonParse

set_option autoImplicit false

/-!
The decimals of a balance file as numbers, and the browser's totals as sums of them.
-/
namespace AssuranceLayer.BrowserCsv
open Utf16 JavaScript AmountTexts AmountCodec

/-! ## Decimals -/

theorem isDecimal_iff {cs : List Char} : isDecimal cs = true ↔ ∃ n, Spells cs n := by
  constructor
  · intro h
    rw [isDecimal] at h
    split at h
    · obtain ⟨hne, hdigits⟩ := of_decide_eq_true h
      exact ⟨_, cs, [], ⟨hne, hdigits⟩, rfl, .inl ⟨rfl, rfl⟩, rfl⟩
    · next int frac hsplit =>
      obtain ⟨hint, hlen, hfrac⟩ := of_decide_eq_true h
      exact ⟨_, int, frac, hint, hfrac, .inr ⟨hlen, splitOnce_eq_some hsplit⟩, rfl⟩
  · rintro ⟨n, int, frac, hint, hfrac, ⟨rfl, rfl⟩ | ⟨hlen, rfl⟩, -⟩
    · rw [isDecimal, splitOnce_eq_none (point_not_mem hint.2)]
      exact decide_eq_true hint
    · rw [isDecimal, splitOnce_append (point_not_mem hint.2)]
      exact decide_eq_true ⟨hint, hlen, hfrac⟩

theorem digitsValue_append (cs ds : List Char) :
    digitsValue (cs ++ ds) = digitsValue cs * 10 ^ ds.length + digitsValue ds := by
  rw [digitsValue, Nat.ofDigitChars_append, Nat.ofDigitChars_eq_ofDigitChars_zero, mul_comm]
  rfl

theorem scaled_eq {s : JsString} {n : ℕ} (h : Spells (asChars s) n) : scaled s = n := by
  obtain ⟨int, frac, hint, hfrac, hshape, rfl⟩ := h
  have hparts : (splitOnce '.' (asChars s)).getD (asChars s, []) = (int, frac) ∧ frac.length ≤ 18 := by
    obtain ⟨rfl, hcs⟩ | ⟨hlen, hcs⟩ := hshape
    · rw [hcs, splitOnce_eq_none (point_not_mem hint.2)]
      exact ⟨rfl, Nat.zero_le _⟩
    · rw [hcs, splitOnce_append (point_not_mem hint.2)]
      exact ⟨rfl, hlen.2⟩
  have hpadded : (frac.rightpad 18 '0').length = 18 := by
    rw [List.rightpad, List.length_append, List.length_replicate]
    omega
  rw [scaled, hparts.1, digitsValue_append, hpadded, digitsValue_rightpad]

/-- Zeros at the end are what a fraction is padded with. -/
theorem rightpad_rdropWhile {cs : List Char} (h : cs.length = 18) :
    (cs.rdropWhile (· = '0')).rightpad 18 '0' = cs := by
  have hzeros : cs.rtakeWhile (· = '0') = List.replicate (cs.rtakeWhile (· = '0')).length '0' := by
    refine List.eq_replicate_of_mem fun c hc => ?_
    have hzero := List.mem_rtakeWhile_imp hc
    exact of_decide_eq_true hzero
  have hsplit : cs.rdropWhile (· = '0') ++ cs.rtakeWhile (· = '0') = cs := List.rdropWhile_append_rtakeWhile
  have hlen := congrArg List.length hsplit
  rw [List.length_append, h] at hlen
  conv_rhs => rw [← hsplit, hzeros]
  rw [List.rightpad, ← hlen, Nat.add_sub_cancel_left]

theorem decimalText_spells (n : ℕ) : Spells (decimalText n) n := by
  let padded := (Nat.toDigits 10 (n % 10 ^ 18)).leftpad 18 '0'
  have hshort := Nat.toDigits_length 10 (n % 10 ^ 18) 18 (by decide) (Nat.mod_lt _ (by decide))
  have hlen : padded.length = 18 := by
    rw [List.length_leftpad]
    omega
  have hdigits : ∀ c ∈ padded, isAsciiDigit c = true := by
    intro c hc
    obtain hc | hc := List.mem_append.mp hc
    · rw [List.eq_of_mem_replicate hc]
      decide
    · exact Amount.isAsciiDigit_of_mem_toDigits hc
  have hvalue : digitsValue padded = n % 10 ^ 18 := by
    rw [show padded = List.replicate _ '0' ++ Nat.toDigits 10 (n % 10 ^ 18) from rfl, digitsValue,
      Nat.ofDigitChars_append, Nat.ofDigitChars_replicate_zero, Nat.mul_zero, Nat.ofDigitChars_ten_toDigits]
  let frac := padded.rdropWhile (· = '0')
  have hfrac : digitsValue frac * 10 ^ (18 - frac.length) = n % 10 ^ 18 := by
    rw [← digitsValue_rightpad, rightpad_rdropWhile hlen, hvalue]
  have hwhole : digitsValue (Nat.toDigits 10 (n / 10 ^ 18)) = n / 10 ^ 18 := Nat.ofDigitChars_ten_toDigits
  refine ⟨Nat.toDigits 10 (n / 10 ^ 18), frac, ⟨Nat.toDigits_ne_nil, Amount.toDigits_all _⟩, ?_, ?_, ?_⟩
  · exact List.all_eq_true.mpr fun c hc => hdigits c ((List.rdropWhile_prefix _ _).subset hc)
  · rw [decimalText]
    by_cases hnil : frac = []
    · exact .inl ⟨hnil, if_pos hnil⟩
    · refine .inr ⟨⟨List.length_pos_iff.mpr hnil, ?_⟩, if_neg hnil⟩
      exact hlen ▸ (List.rdropWhile_prefix _ _).length_le
  · rw [hfrac, hwhole, mul_comm, Nat.div_add_mod]

theorem spells_chars {cs : List Char} {n : ℕ} (h : Spells cs n) : cs.all isAmountChar = true := by
  obtain ⟨int, frac, hint, hfrac, hshape, _⟩ := h
  have hdigit : ∀ l : List Char, l.all isAsciiDigit = true → l.all isAmountChar = true := fun l hl =>
    List.all_eq_true.mpr fun c hc => by rw [isAmountChar, List.all_eq_true.mp hl c hc, Bool.true_or]
  obtain ⟨_, rfl⟩ | ⟨_, rfl⟩ := hshape
  · exact hdigit _ hint.2
  · rw [List.all_append, List.all_cons, hdigit _ hint.2, hdigit _ hfrac]
    rfl

theorem addDecimal_spells {a b : JsString} {m n : ℕ} (ha : Spells (asChars a) m) (hb : Spells (asChars b) n) :
    Spells (asChars (addDecimal a b)) (m + n) := by
  have htext := decimalText_spells (m + n)
  have hchars : asChars (ofString (String.ofList (decimalText (m + n)))) = decimalText (m + n) := by
    rw [asChars_eq (p := isAmountChar) (by decide) (fun _ => isAmountChar_lt), String.toList_ofList]
    rw [String.toList_ofList]
    exact .inr (spells_chars htext)
  rw [addDecimal, scaled_eq ha, scaled_eq hb, hchars]
  exact htext

/-! ## Totals -/

/-- A total as it is shown. What is not shown is 0. -/
def Shows (totals : Record) (asset : JsString) (n : ℕ) : Prop :=
  match totals.lookup asset with
  | some text => Spells (asChars text) n
  | none => n = 0

theorem Shows.spells {totals : Record} {asset : JsString} {n : ℕ} (h : Shows totals asset n) :
    Spells (asChars ((totals.lookup asset).getD (ofString "0"))) n := by
  rw [Shows] at h
  cases hlookup : totals.lookup asset with
  | some text =>
    rw [hlookup] at h
    exact h
  | none =>
    rw [hlookup] at h
    subst h
    exact ⟨['0'], [], by decide, rfl, .inl ⟨rfl, by decide⟩, by decide⟩

theorem Shows.unique {totals : Record} {asset : JsString} {m n : ℕ} (h : Shows totals asset m)
    (h' : Shows totals asset n) : m = n := by rw [← scaled_eq h.spells, scaled_eq h'.spells]

theorem addTo_shows {totals : Record} {asset amount : JsString} {v : ℕ} (hv : Spells (asChars amount) v)
    {a : JsString} {n : ℕ} (h : Shows totals a n) :
    Shows (addTo totals asset amount) a (n + if asset = a then v else 0) := by
  rw [Shows, addTo, lookup_setProp]
  by_cases ha : a = asset
  · subst ha
    rw [if_pos rfl, if_pos rfl]
    exact addDecimal_spells h.spells hv
  · rw [if_neg ha, if_neg (Ne.symm ha)]
    exact h

end AssuranceLayer.BrowserCsv
