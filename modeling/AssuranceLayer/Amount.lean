import AssuranceLayer.Primitives
import AssuranceLayer.SortedMap
import AssuranceLayer.Fallible

set_option autoImplicit false

/-!
Amounts in fixed point with eighteen fractional digits: their decimal text, maps of them by name,
and the checked addition of one map into another.
-/
namespace AssuranceLayer.Amount
open Framing Fallible

def scaleDigits : ℕ := 18

theorem scale_lt : 10 ^ 18 < 2 ^ 128 := by decide

def scale : U128 := ⟨10 ^ 18, scale_lt⟩

/-! ## Decimal text -/

inductive AmountError where
  /-- "amount {s:?} missing integer part" -/
  | missingIntegerPart (s : String)
  /-- "amount {s:?} has a bare decimal point" -/
  | bareDecimalPoint (s : String)
  /-- "amount {s:?} exceeds 18 decimal places" -/
  | tooManyDecimals (s : String)
  /-- "amount {s:?} is not a non-negative decimal" -/
  | notDecimal (s : String)
  /-- "number too large to fit in target type" -/
  | integerTooLarge
  /-- "amount {s:?} overflows" -/
  | overflows (s : String)
deriving DecidableEq

def parseU128 (digits : List Char) : Except AmountError U128 :=
  if h : digitsValue digits < 2 ^ 128 then .ok ⟨digitsValue digits, h⟩ else .error .integerTooLarge

def parseAmount18dp (s : String) : Except AmountError U128 := do
  let parts := (splitOnce '.' s.toList).getD (s.toList, [])
  let intPart := parts.1
  let fracPart := parts.2
  ensure (intPart ≠ []) (.missingIntegerPart s)
  ensure (splitOnce '.' s.toList = none ∨ fracPart ≠ []) (.bareDecimalPoint s)
  ensure ((utf8 (String.ofList fracPart)).length ≤ scaleDigits) (.tooManyDecimals s)
  ensure (intPart.all isAsciiDigit ∧ fracPart.all isAsciiDigit) (.notDecimal s)
  let int ← parseU128 intPart
  let frac ← if fracPart = [] then pure 0 else parseU128 (fracPart.rightpad 18 '0')
  okOr ((int.checkedMul scale).bind (U128.checkedAdd · frac)) (.overflows s)

def fracDigits (v : U128) : List Char := (Nat.toDigits 10 (v.val % scale.val)).leftpad 18 '0'

def amountChars (v : U128) : List Char := Nat.toDigits 10 (v.val / scale.val) ++ '.' :: fracDigits v

def formatAmount18dp (v : U128) : String := String.ofList (amountChars v)

theorem isAsciiDigit_of_mem_toDigits {n : ℕ} {c : Char} (h : c ∈ Nat.toDigits 10 n) :
    isAsciiDigit c = true := by
  have hc := Nat.isDigit_of_mem_toDigits (by decide) (by decide) h
  simpa [isAsciiDigit, Char.isDigit, Char.le_def] using hc

theorem toDigits_all (n : ℕ) : (Nat.toDigits 10 n).all isAsciiDigit = true :=
  List.all_eq_true.mpr fun _ => isAsciiDigit_of_mem_toDigits

theorem fracDigits_length (v : U128) : (fracDigits v).length = 18 := by
  have h := Nat.toDigits_length 10 (v.val % scale.val) 18 (by decide) (Nat.mod_lt _ (by decide))
  rw [fracDigits, List.length_leftpad]
  omega

theorem fracDigits_all (v : U128) : (fracDigits v).all isAsciiDigit = true := by
  rw [fracDigits, List.leftpad, List.all_append, toDigits_all, Bool.and_true, List.all_eq_true]
  intro c hc
  rw [List.eq_of_mem_replicate hc]
  decide

theorem fracDigits_value (v : U128) : digitsValue (fracDigits v) = v.val % scale.val := by
  rw [fracDigits, List.leftpad, digitsValue, Nat.ofDigitChars_append,
    Nat.ofDigitChars_replicate_zero, Nat.mul_zero, Nat.ofDigitChars_ten_toDigits]

theorem mem_amountChars {v : U128} {c : Char} (h : c ∈ amountChars v) :
    isAsciiDigit c = true ∨ c = '.' := by
  rw [amountChars, List.mem_append, List.mem_cons] at h
  rcases h with h | h | h
  · exact .inl (isAsciiDigit_of_mem_toDigits h)
  · exact .inr h
  · exact .inl (List.all_eq_true.mp (fracDigits_all v) c h)

theorem not_mem_amountChars {c : Char} (hd : isAsciiDigit c = false) (hp : c ≠ '.') (v : U128) :
    c ∉ amountChars v := by
  intro h
  rcases mem_amountChars h with h | h
  · simp [hd] at h
  · exact hp h

theorem isAsciiDigit_ascii {c : Char} (h : isAsciiDigit c = true) : c.utf8Size = 1 := by
  simp only [isAsciiDigit, Char.le_def, decide_eq_true_eq] at h
  rw [Char.utf8Size_eq_one_iff]
  have h57 : c.val ≤ 57 := h.2
  exact UInt32.le_trans h57 (by decide)

theorem utf8_length_of_single {p : Char → Bool} {cs : List Char} (h : cs.all p = true)
    (hp : ∀ c, p c = true → c.utf8Size = 1) : (utf8 (String.ofList cs)).length = cs.length := by
  rw [utf8, Array.length_toList, ByteArray.size_data, String.size_toByteArray]
  induction cs with
  | nil => rfl
  | cons c cs ih =>
    rw [List.all_cons, Bool.and_eq_true] at h
    rw [String.ofList_cons, String.utf8ByteSize_append, ih h.2, String.utf8ByteSize_singleton,
      hp c h.1, List.length_cons, Nat.add_comm]

theorem utf8_length_of_digits {cs : List Char} (h : cs.all isAsciiDigit = true) :
    (utf8 (String.ofList cs)).length = cs.length :=
  utf8_length_of_single h fun _ => isAsciiDigit_ascii

theorem parse_format (v : U128) : parseAmount18dp (formatAmount18dp v) = .ok v := by
  have hsplit : splitOnce '.' (formatAmount18dp v).toList =
      some (Nat.toDigits 10 (v.val / scale.val), fracDigits v) := by
    rw [formatAmount18dp, String.toList_ofList, amountChars]
    exact splitOnce_append fun h => absurd (isAsciiDigit_of_mem_toDigits h) (by decide)
  have hfrac : fracDigits v ≠ [] := by
    intro h
    have hlen := fracDigits_length v
    simp [h] at hlen
  have hpad : (fracDigits v).rightpad 18 '0' = fracDigits v := by
    rw [List.rightpad, fracDigits_length]
    simp
  have hint : parseU128 (Nat.toDigits 10 (v.val / scale.val)) =
      .ok ⟨v.val / scale.val, lt_of_le_of_lt (Nat.div_le_self _ _) v.isLt⟩ := by
    have hval : digitsValue (Nat.toDigits 10 (v.val / scale.val)) = v.val / scale.val :=
      Nat.ofDigitChars_ten_toDigits
    simp only [parseU128, hval]
    rw [dif_pos (lt_of_le_of_lt (Nat.div_le_self _ _) v.isLt)]
  have hlow : parseU128 (fracDigits v) =
      .ok ⟨v.val % scale.val, lt_of_le_of_lt (Nat.mod_le _ _) v.isLt⟩ := by
    simp only [parseU128, fracDigits_value]
    rw [dif_pos (lt_of_le_of_lt (Nat.mod_le _ _) v.isLt)]
  have hdiv := Nat.div_add_mod' v.val scale.val
  have hle : v.val / scale.val * scale.val < 2 ^ 128 :=
    lt_of_le_of_lt (Nat.div_mul_le_self _ _) v.isLt
  have hmul : U128.checkedMul ⟨v.val / scale.val, lt_of_le_of_lt (Nat.div_le_self _ _) v.isLt⟩ scale =
      some ⟨v.val / scale.val * scale.val, hle⟩ := by
    rw [U128.checkedMul, dif_pos hle]
  have hadd : U128.checkedAdd ⟨v.val / scale.val * scale.val, hle⟩
      ⟨v.val % scale.val, lt_of_le_of_lt (Nat.mod_le _ _) v.isLt⟩ = some v :=
    U128.checkedAdd_eq_some.mpr hdiv
  rw [parseAmount18dp, hsplit]
  simp only [Option.getD_some, bind_eq_ok, ensure_eq_ok, okOr_eq_ok, if_neg hfrac, hpad, hint, hlow,
    Except.ok.injEq]
  refine ⟨(), Nat.toDigits_ne_nil, (), .inr hfrac, (), ?_, (), ⟨toDigits_all _, fracDigits_all v⟩,
    _, rfl, _, rfl, ?_⟩
  · rw [utf8_length_of_digits (fracDigits_all v), fracDigits_length]
    exact le_refl 18
  · rw [hmul, Option.bind_some, hadd]

theorem format_inj {v w : U128} (h : formatAmount18dp v = formatAmount18dp w) : v = w := by
  have hp := congrArg parseAmount18dp h
  rwa [parse_format, parse_format, Except.ok.injEq] at hp

end AssuranceLayer.Amount
