import AssuranceLayer.Primitives

set_option autoImplicit false

/-!
Doubles by their values: rounding to nearest, the shortest decimal text, and what a text reads as.
Natural numbers below `2^53` are doubles; those below `2^64` round to natural numbers.
-/
namespace AssuranceLayer.Binary64

/-- Zeros are not told apart. -/
inductive Number where
  | nan
  | infinity (negative : Bool)
  | finite (value : ℚ)
deriving DecidableEq

/-- To the nearest integer, the even one at a midpoint. -/
def roundEven (q : ℚ) : ℤ :=
  let k := ⌊q⌋
  if q - k < 1 / 2 then k else if 1 / 2 < q - k then k + 1 else k + k % 2

/-- The exponent of the last place of a significand. -/
def unitExponent (q : ℚ) : ℤ := max (Int.log 2 |q| - 52) (-1074)

def ofRat (q : ℚ) : Number :=
  let r := roundEven (q / 2 ^ unitExponent q) * (2 : ℚ) ^ unitExponent q
  if 2 ^ 1024 ≤ |r| then .infinity (r < 0) else .finite r

def ofNat (n : ℕ) : Number := ofRat n

theorem roundEven_intCast (k : ℤ) : roundEven k = k := by
  simp [roundEven]

theorem roundEven_bounds (q : ℚ) : ⌊q⌋ ≤ roundEven q ∧ roundEven q ≤ ⌊q⌋ + 1 := by
  have hmod := Int.emod_two_eq ⌊q⌋
  simp only [roundEven]
  split_ifs <;> omega

theorem roundEven_mono : Monotone roundEven := by
  intro q r hqr
  obtain hfloor | hfloor := (Int.floor_le_floor hqr).eq_or_lt
  · simp only [roundEven, hfloor]
    have hmod := Int.emod_two_eq ⌊r⌋
    split_ifs <;> first | omega | (exfalso; linarith)
  · calc roundEven q ≤ ⌊q⌋ + 1 := (roundEven_bounds q).2
      _ ≤ ⌊r⌋ := hfloor
      _ ≤ roundEven r := (roundEven_bounds r).1

theorem unitExponent_natCast (n : ℕ) : unitExponent n = (Nat.log 2 n : ℤ) - 52 := by
  have habs : |(n : ℚ)| = n := abs_of_nonneg (Nat.cast_nonneg n)
  rw [unitExponent, habs, Int.log_natCast, max_eq_left]
  omega

theorem abs_lt_limit {m n : ℕ} (hn : n < 1024) (h : m ≤ 2 ^ n) : |(m : ℚ)| < 2 ^ 1024 := by
  rw [abs_of_nonneg (Nat.cast_nonneg m)]
  calc (m : ℚ) ≤ 2 ^ n := by exact_mod_cast h
    _ < 2 ^ 1024 := pow_lt_pow_right₀ one_lt_two hn

theorem ofNat_of_lt {n : ℕ} (h : n < 2 ^ 53) : ofNat n = .finite n := by
  have hlog : Nat.log 2 n ≤ 52 := by
    rcases Nat.eq_zero_or_pos n with rfl | hpos
    · simp
    · exact Nat.lt_succ_iff.mp (Nat.log_lt_of_lt_pow (by omega) h)
  obtain ⟨k, hk⟩ := Nat.exists_eq_add_of_le hlog
  have hunit : unitExponent n = -(k : ℤ) := by
    rw [unitExponent_natCast]
    omega
  have hscaled : (n : ℚ) / 2 ^ (-(k : ℤ)) = ((n * 2 ^ k : ℕ) : ℤ) := by
    rw [zpow_neg, div_inv_eq_mul, zpow_natCast]
    push_cast
    ring
  have hvalue : (((n * 2 ^ k : ℕ) : ℤ) : ℚ) * 2 ^ (-(k : ℤ)) = n := by
    rw [zpow_neg, zpow_natCast]
    push_cast
    field_simp
  simp only [ofNat, ofRat, hunit, hscaled, roundEven_intCast, hvalue]
  rw [if_neg (not_le.mpr (abs_lt_limit (n := 53) (by norm_num) (h.le)))]

/-- A natural number that is rounded is rounded to a natural number within the same bounds. -/
theorem ofNat_of_le {n : ℕ} (h53 : 2 ^ 53 ≤ n) (h64 : n < 2 ^ 64) :
    ∃ r : ℕ, ofNat n = .finite r ∧ 2 ^ 53 ≤ r ∧ r ≤ 2 ^ 64 := by
  obtain ⟨k, hk⟩ := Nat.exists_eq_add_of_le (Nat.le_log_of_pow_le (by norm_num) h53)
  have hlog : Nat.log 2 n < 64 := Nat.log_lt_of_lt_pow (by omega) h64
  have hunit : unitExponent n = ((k + 1 : ℕ) : ℤ) := by
    rw [unitExponent_natCast]
    omega
  have hfloor : ⌊(n : ℚ) / 2 ^ (k + 1)⌋ = (n / 2 ^ (k + 1) : ℕ) := by
    have hcast := Nat.floor_div_eq_div (K := ℚ) n (2 ^ (k + 1))
    push_cast at hcast
    rw [← hcast, Int.natCast_floor_eq_floor (by positivity)]
  have hbounds := roundEven_bounds ((n : ℚ) / 2 ^ (k + 1))
  rw [hfloor] at hbounds
  obtain ⟨m, hm⟩ := Int.eq_ofNat_of_zero_le ((Int.natCast_nonneg _).trans hbounds.1)
  rw [hm] at hbounds
  have hlow : n / 2 ^ (k + 1) ≤ m := by exact_mod_cast hbounds.1
  have hhigh : m ≤ n / 2 ^ (k + 1) + 1 := by exact_mod_cast hbounds.2
  have hpow : 2 ^ 64 = 2 ^ (63 - k) * 2 ^ (k + 1) := by
    rw [← pow_add]
    congr 1
    omega
  have hquot : n / 2 ^ (k + 1) < 2 ^ (63 - k) := (Nat.div_lt_iff_lt_mul (by positivity)).mpr (hpow ▸ h64)
  have hle : m * 2 ^ (k + 1) ≤ 2 ^ 64 := by
    rw [hpow]
    exact Nat.mul_le_mul_right _ (by omega)
  have hge : 2 ^ 53 ≤ m * 2 ^ (k + 1) := by
    have hquot : 2 ^ 52 ≤ n / 2 ^ (k + 1) := by
      rw [Nat.le_div_iff_mul_le (by positivity), ← pow_add, show 52 + (k + 1) = 53 + k by omega, ← hk]
      exact Nat.pow_log_le_self 2 (by omega)
    calc 2 ^ 53 = 2 ^ 52 * 2 ^ 1 := by norm_num
      _ ≤ m * 2 ^ (k + 1) := Nat.mul_le_mul (hquot.trans hlow) (Nat.pow_le_pow_right (by norm_num) (by omega))
  refine ⟨m * 2 ^ (k + 1), ?_, hge, hle⟩
  have hvalue : ((m : ℤ) : ℚ) * 2 ^ (((k + 1 : ℕ) : ℤ)) = ((m * 2 ^ (k + 1) : ℕ) : ℚ) := by
    rw [zpow_natCast]
    push_cast
    ring
  simp only [ofNat, ofRat, hunit, zpow_natCast, hm]
  rw [zpow_natCast] at hvalue
  rw [hvalue, if_neg (not_le.mpr (abs_lt_limit (n := 64) (by norm_num) hle))]

/-- The integer of an integral value. -/
def Number.toInt? : Number → Option ℤ
  | .finite q => if q.den = 1 then some q.num else none
  | _ => none

@[simp] theorem toInt?_natCast (n : ℕ) : (Number.finite n).toInt? = some (n : ℤ) := rfl

/-- Comparison; nothing compares with a value that is no number. -/
def Number.lt? : Number → Number → Option Bool
  | .nan, _ | _, .nan => none
  | .infinity s, .infinity t => some (s && !t)
  | .infinity s, .finite _ => some s
  | .finite _, .infinity t => some (!t)
  | .finite p, .finite q => some (p < q)

/-! ## Texts -/

/-- Of two neighbouring significands the ones that round to the value, the nearer one first. -/
def significand (q : ℚ) (exponent : ℤ) : Option ℕ :=
  let scaled := q / (10 : ℚ) ^ exponent
  let low := ⌊scaled⌋₊
  let near := if scaled - low ≤ 1 / 2 then [low, low + 1] else [low + 1, low]
  near.find? fun s => ofRat (s * (10 : ℚ) ^ exponent) = .finite q

/-- The fewest digits that round to a positive value, and where the point stands behind the first
    of them. -/
def shortest (q : ℚ) : List Char × ℤ :=
  let point := Int.log 10 q + 1
  ((List.range 17).findSome? fun k => (significand q (point - (k + 1 : ℕ))).map fun s =>
    let digits := Nat.toDigits 10 s
    if digits.length ≤ k + 1 then (digits, point) else (digits.dropLast, point + 1)).getD ([], point)

def positiveText (q : ℚ) : List Char :=
  let (digits, n) := shortest q
  let k : ℤ := digits.length
  let zeros (count : ℤ) := List.replicate count.toNat '0'
  if k ≤ n ∧ n ≤ 21 then digits ++ zeros (n - k)
  else if 0 < n ∧ n ≤ 21 then digits.take n.toNat ++ '.' :: digits.drop n.toNat
  else if -6 < n ∧ n ≤ 0 then '0' :: '.' :: (zeros (-n) ++ digits)
  else
    let exponent := (if 0 < n then '+' else '-') :: Nat.toDigits 10 (n - 1).natAbs
    digits.take 1 ++ (if k = 1 then [] else '.' :: digits.drop 1) ++ 'e' :: exponent

/-- `Number::toString`. -/
def Number.text : Number → List Char
  | .nan => "NaN".toList
  | .infinity s => if s then "-Infinity".toList else "Infinity".toList
  | .finite q =>
    if q = 0 then ['0'] else if q < 0 then '-' :: positiveText (-q) else positiveText q

/-- White space and line ends of the language. -/
def isSpace (c : Char) : Bool :=
  let n := c.toNat
  (9 ≤ n ∧ n ≤ 13) ∨ n = 0x20 ∨ n = 0xA0 ∨ n = 0x1680 ∨ (0x2000 ≤ n ∧ n ≤ 0x200A) ∨ n = 0x2028 ∨
    n = 0x2029 ∨ n = 0x202F ∨ n = 0x205F ∨ n = 0x3000 ∨ n = 0xFEFF

def stripSpace (cs : List Char) : List Char :=
  ((cs.dropWhile isSpace).reverse.dropWhile isSpace).reverse

def decimal? (cs : List Char) : Option ℕ :=
  if cs ≠ [] ∧ cs.all isAsciiDigit then some (digitsValue cs) else none

def radix? (base : ℕ) (cs : List Char) : Option ℕ := do
  let values ← cs.mapM hexValue
  if cs ≠ [] ∧ values.all (· < base) then some (Nat.ofDigits base values.reverse) else none

/-- `0x`, `0o` and `0b` numerals. -/
def prefixed? : List Char → Option ℕ
  | '0' :: c :: cs =>
    if c = 'x' ∨ c = 'X' then radix? 16 cs
    else if c = 'o' ∨ c = 'O' then radix? 8 cs
    else if c = 'b' ∨ c = 'B' then radix? 2 cs
    else none
  | _ => none

/-- A sign, and what stands behind it. -/
def signed : List Char → Bool × List Char
  | '-' :: cs => (true, cs)
  | '+' :: cs => (false, cs)
  | cs => (false, cs)

def signed? (cs : List Char) : Option ℤ :=
  (decimal? (signed cs).2).map fun n => if (signed cs).1 then -(n : ℤ) else n

/-- Digits with a point and an exponent. -/
def unsigned? (cs : List Char) : Option ℚ := do
  let (mantissa, exponent) := cs.span fun c => c ≠ 'e' ∧ c ≠ 'E'
  let (int, frac) := (splitOnce '.' mantissa).getD (mantissa, [])
  let digits ← decimal? (int ++ frac)
  let shift ← if exponent = [] then some 0 else signed? (exponent.drop 1)
  return digits * (10 : ℚ) ^ (shift - frac.length)

/-- `StringToNumber`. -/
def ofText (cs : List Char) : Number :=
  let cs := stripSpace cs
  let (negative, rest) := signed cs
  if cs = [] then .finite 0
  else if rest = "Infinity".toList then .infinity negative
  else
    match prefixed? cs, unsigned? rest with
    | some n, _ => ofNat n
    | none, some q => ofRat (if negative then -q else q)
    | none, none => .nan

/-- `StringToBigInt`. -/
def bigInt? (cs : List Char) : Option ℤ :=
  let cs := stripSpace cs
  if cs = [] then some 0 else ((prefixed? cs).map Int.ofNat).or (signed? cs)

end AssuranceLayer.Binary64
