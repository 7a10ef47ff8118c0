import AssuranceLayer.Primitives
import AssuranceLayer.LexOrder

set_option autoImplicit false

/-!
The timestamp profile `YYYY-MM-DDTHH:MM:SS[.fff]Z` and its conversion to epoch seconds. Texts of
the profile that differ within the second are ordered as their instants are.
-/
namespace AssuranceLayer.Instant
open LexOrder

/-- Seconds since 1970-01-01T00:00:00Z. -/
abbrev Epoch := ℤ

def daysFromCivil (y : ℤ) (m d : ℕ) : ℤ :=
  let y := if m ≤ 2 then y - 1 else y
  let era := (if 0 ≤ y then y else y - 399).tdiv 400
  let yoe := y - era * 400
  let mp : ℤ := ↑((m + 9) % 12)
  let doy := (153 * mp + 2).tdiv 5 + d - 1
  let doe := yoe * 365 + yoe.tdiv 4 - yoe.tdiv 100 + doy
  era * 146097 + doe - 719468

def isLeap (y : ℤ) : Bool := (y % 4 = 0 ∧ y % 100 ≠ 0) ∨ y % 400 = 0

def daysInMonth (y : ℤ) (m : ℕ) : ℕ :=
  match m with
  | 1 | 3 | 5 | 7 | 8 | 10 | 12 => 31
  | 4 | 6 | 9 | 11 => 30
  | 2 => if isLeap y then 29 else 28
  | _ => 0

/-- The number written at the given positions, if only digits stand there. -/
def digits (text : List Char) (start stop : ℕ) : Option ℕ :=
  let slice := (text.drop start).take (stop - start)
  if slice.all isAsciiDigit then some (digitsValue slice) else none

/-- `Z`, or a point, at least one digit and `Z`. -/
def isTail (rest : List Char) : Bool :=
  let frac := (rest.drop 1).dropLast
  rest = ['Z'] ∨
    (rest.head? = some '.' ∧ rest.getLast? = some 'Z' ∧ frac ≠ [] ∧ frac.all isAsciiDigit)

def parse (text : String) : Option Epoch := do
  let cs := text.toList
  guard (20 ≤ cs.length ∧ cs.all fun c => c.toNat < 128)
  guard (cs[4]? = some '-' ∧ cs[7]? = some '-' ∧ cs[10]? = some 'T')
  guard (cs[13]? = some ':' ∧ cs[16]? = some ':')
  let year ← digits cs 0 4
  let month ← digits cs 5 7
  let day ← digits cs 8 10
  let hour ← digits cs 11 13
  let minute ← digits cs 14 16
  let second ← digits cs 17 19
  guard (isTail (cs.drop 19))
  guard ((1 ≤ month ∧ month ≤ 12) ∧ 1 ≤ day ∧ day ≤ daysInMonth year month)
  guard (hour ≤ 23 ∧ minute ≤ 59 ∧ second ≤ 59)
  return daysFromCivil year month day * 86400 + hour * 3600 + minute * 60 + second

example : parse "2026-01-01T00:00:00Z" = some 1767225600 := by decide +kernel

def skew (a b : String) : Option ℕ := do
  let a ← parse a
  let b ← parse b
  return (a - b).natAbs

/-! ## The calendar -/

/-- Years start in March and, from year zero on, truncating division rounds down. -/
theorem daysFromCivil_eq {y : ℤ} (hy : 0 ≤ y) (m d : ℕ) : daysFromCivil y m d =
    let y := if m ≤ 2 then y - 1 else y
    365 * y + y / 4 - y / 100 + y / 400 + (153 * (((m + 9) % 12 : ℕ) : ℤ) + 2) / 5 + d - 719469 := by
  simp only [daysFromCivil]
  generalize hy' : (if m ≤ 2 then y - 1 else y) = y'
  have hlow : -1 ≤ y' := by split_ifs at hy' <;> omega
  have hera : (if 0 ≤ y' then y' else y' - 399).tdiv 400 = y' / 400 := by
    split_ifs with h
    · exact Int.tdiv_eq_ediv_of_nonneg h
    · obtain rfl : y' = -1 := by omega
      decide
  rw [hera, Int.tdiv_eq_ediv_of_nonneg (by omega), Int.tdiv_eq_ediv_of_nonneg (by omega),
    Int.tdiv_eq_ediv_of_nonneg (by omega)]
  omega

def monthStart (k : ℕ) : ℤ := daysFromCivil (k / 12 : ℕ) (k % 12 + 1) 1

theorem daysFromCivil_day (y : ℤ) (m d : ℕ) :
    daysFromCivil y m d = daysFromCivil y m 1 + d - 1 := by
  simp only [daysFromCivil]
  omega

theorem month_length (y : ℕ) {m : ℕ} (h1 : 1 ≤ m) (h12 : m ≤ 12) :
    daysFromCivil y m 1 + daysInMonth y m = monthStart (12 * y + m) := by
  have hy := Int.natCast_nonneg y
  rw [monthStart]
  have hdiv : (12 * y + m) / 12 = if m = 12 then y + 1 else y := by split_ifs <;> omega
  have hmod : (12 * y + m) % 12 = if m = 12 then 0 else m := by split_ifs <;> omega
  rw [hdiv, hmod, daysFromCivil_eq hy, daysFromCivil_eq (Int.natCast_nonneg _)]
  interval_cases m
  case «2» =>
    simp only [daysInMonth, isLeap]
    norm_num
    split_ifs <;> omega
  all_goals
    norm_num [daysInMonth]
    try omega

theorem monthStart_eq (y : ℕ) {m : ℕ} (h1 : 1 ≤ m) (h12 : m ≤ 12) :
    monthStart (12 * y + (m - 1)) = daysFromCivil y m 1 := by
  have hdiv : (12 * y + (m - 1)) / 12 = y := by omega
  have hmod : (12 * y + (m - 1)) % 12 + 1 = m := by omega
  rw [monthStart, hdiv, hmod]

theorem monthStart_mono : Monotone monthStart := by
  refine monotone_nat_of_le_succ fun k => ?_
  have hlength := month_length (k / 12) (Nat.le_add_left 1 (k % 12)) (by omega)
  have hstart := monthStart_eq (k / 12) (Nat.le_add_left 1 (k % 12)) (by omega)
  rw [show 12 * (k / 12) + (k % 12 + 1) = k + 1 by omega] at hlength
  rw [show 12 * (k / 12) + (k % 12 + 1 - 1) = k by omega] at hstart
  omega

structure Fields where
  year : ℕ
  month : ℕ
  day : ℕ
  hour : ℕ
  minute : ℕ
  second : ℕ

structure Fields.Valid (f : Fields) : Prop where
  month : 1 ≤ f.month ∧ f.month ≤ 12
  day : 1 ≤ f.day ∧ f.day ≤ daysInMonth f.year f.month
  time : f.hour ≤ 23 ∧ f.minute ≤ 59 ∧ f.second ≤ 59

def Fields.days (f : Fields) : ℤ := daysFromCivil f.year f.month f.day

def Fields.epoch (f : Fields) : ℤ := f.days * 86400 + f.hour * 3600 + f.minute * 60 + f.second

theorem days_lt_of_month {f g : Fields} (hf : f.Valid) (hg : g.Valid)
    (h : 12 * f.year + f.month < 12 * g.year + g.month) : f.days < g.days := by
  have hlength := month_length f.year hf.month.1 hf.month.2
  have hstart := monthStart_eq g.year hg.month.1 hg.month.2
  have hmono := monthStart_mono (show 12 * f.year + f.month ≤ 12 * g.year + (g.month - 1) by omega)
  have hday := hf.day.2
  have hday' := hg.day.1
  rw [Fields.days, Fields.days, daysFromCivil_day, daysFromCivil_day g.year]
  omega

theorem epoch_lt_of_days {f g : Fields} (hf : f.Valid) (h : f.days < g.days) :
    f.epoch < g.epoch := by
  have htime := hf.time
  rw [Fields.epoch, Fields.epoch]
  omega

/-! ## Texts of the profile -/

/-- Widths of the columns up to the seconds, and what separates the numbers. -/
def layout : List (ℕ × Option Char) :=
  [(4, none), (1, some '-'), (2, none), (1, some '-'), (2, none), (1, some 'T'), (2, none),
    (1, some ':'), (2, none), (1, some ':'), (2, none)]

def FitsColumn (c : ℕ × Option Char) (column : List Char) : Prop :=
  column.length = c.1 ∧
    match c.2 with
    | some sep => column = [sep]
    | none => column.all isAsciiDigit = true

def Fields.values (f : Fields) : List ℕ :=
  [f.year, digitsValue ['-'], f.month, digitsValue ['-'], f.day, digitsValue ['T'], f.hour,
    digitsValue [':'], f.minute, digitsValue [':'], f.second]

structure Reads (text : String) (f : Fields) : Prop where
  valid : f.Valid
  fits : List.Forall₂ FitsColumn layout (columns text.toList (layout.map Prod.fst))
  values : (columns text.toList (layout.map Prod.fst)).map digitsValue = f.values

theorem digits_eq_some {text : List Char} {start stop n : ℕ} (h : digits text start stop = some n) :
    ((text.drop start).take (stop - start)).all isAsciiDigit = true ∧
      digitsValue ((text.drop start).take (stop - start)) = n := by
  simp only [digits] at h
  split_ifs at h with hall
  exact ⟨hall, Option.some.inj h⟩

theorem number_fits {text : List Char} {start stop n : ℕ} (hlen : stop ≤ text.length)
    (h : digits text start stop = some n) :
    FitsColumn (stop - start, none) ((text.drop start).take (stop - start)) := by
  refine ⟨?_, (digits_eq_some h).1⟩
  rw [List.length_take, List.length_drop]
  exact Nat.min_eq_left (Nat.sub_le_sub_right hlen start)

theorem separator_at {text : List Char} {i : ℕ} {c : Char} (h : text[i]? = some c) :
    (text.drop i).take 1 = [c] := by
  obtain ⟨hi, rfl⟩ := List.getElem?_eq_some_iff.mp h
  rw [List.drop_eq_getElem_cons hi]
  rfl

theorem separator_fits {text : List Char} {i : ℕ} {c : Char} (h : text[i]? = some c) :
    FitsColumn (1, some c) ((text.drop i).take 1) := by
  rw [separator_at h]
  exact ⟨rfl, rfl⟩

theorem columns_fit {cs : List Char} {year month day hour minute second : ℕ} (hlen : 19 ≤ cs.length)
    (h4 : cs[4]? = some '-') (h7 : cs[7]? = some '-') (h10 : cs[10]? = some 'T')
    (h13 : cs[13]? = some ':') (h16 : cs[16]? = some ':') (hyear : digits cs 0 4 = some year)
    (hmonth : digits cs 5 7 = some month) (hday : digits cs 8 10 = some day)
    (hhour : digits cs 11 13 = some hour) (hminute : digits cs 14 16 = some minute)
    (hsecond : digits cs 17 19 = some second) :
    List.Forall₂ FitsColumn layout (columns cs (layout.map Prod.fst)) := by
  simp only [layout, List.map_cons, List.map_nil, columns, List.drop_drop, List.forall₂_cons]
  exact ⟨number_fits (by omega) hyear, separator_fits h4, number_fits (by omega) hmonth,
    separator_fits h7, number_fits (by omega) hday, separator_fits h10,
    number_fits (by omega) hhour, separator_fits h13, number_fits (by omega) hminute,
    separator_fits h16, number_fits (by omega) hsecond, .nil⟩

theorem parse_reads {text : String} {e : Epoch} (h : parse text = some e) :
    ∃ f, Reads text f ∧ f.epoch = e := by
  simp only [parse, Option.bind_eq_bind, Option.bind_eq_some_iff, Option.guard_eq_some',
    Option.pure_def, Option.some.injEq] at h
  obtain ⟨_, ⟨hlen, _⟩, _, ⟨h4, h7, h10⟩, _, ⟨h13, h16⟩, year, hyear, month, hmonth, day, hday,
    hour, hhour, minute, hminute, second, hsecond, _, _, _, ⟨hm, hd⟩, _, ht, rfl⟩ := h
  refine ⟨⟨year, month, day, hour, minute, second⟩, ⟨⟨hm, hd, ht⟩, ?_, ?_⟩, rfl⟩
  · exact columns_fit (by omega) h4 h7 h10 h13 h16 hyear hmonth hday hhour hminute hsecond
  · simp only [layout, List.map_cons, List.map_nil, columns, List.drop_drop, Nat.reduceAdd,
      separator_at h4, separator_at h7, separator_at h10, separator_at h13, separator_at h16]
    rw [← (digits_eq_some hyear).2, ← (digits_eq_some hmonth).2, ← (digits_eq_some hday).2,
      ← (digits_eq_some hhour).2, ← (digits_eq_some hminute).2, ← (digits_eq_some hsecond).2]
    rfl

theorem digitsValue_cons (c : Char) (cs : List Char) :
    digitsValue (c :: cs) = 10 ^ cs.length * (c.toNat - 48) + digitsValue cs := by
  rw [digitsValue, Nat.ofDigitChars_cons, Nat.ofDigitChars_eq_ofDigitChars_zero, Nat.mul_zero,
    Nat.zero_add]
  rfl

theorem isAsciiDigit_bounds {c : Char} (h : isAsciiDigit c = true) :
    48 ≤ c.toNat ∧ c.toNat ≤ 57 := by
  simpa [isAsciiDigit, Char.le_def, UInt32.le_iff_toNat_le] using h

theorem digitsValue_lt_pow {cs : List Char} (h : cs.all isAsciiDigit = true) :
    digitsValue cs < 10 ^ cs.length := by
  induction cs with
  | nil => decide
  | cons c cs ih =>
    rw [List.all_cons, Bool.and_eq_true] at h
    have hc := isAsciiDigit_bounds h.1
    have hd : c.toNat - 48 ≤ 9 := by omega
    have hmul := Nat.mul_le_mul_left (10 ^ cs.length) hd
    have htail := ih h.2
    rw [digitsValue_cons, List.length_cons, pow_succ]
    omega

theorem digitsValue_lt {a b : List Char} (hlen : a.length = b.length)
    (ha : a.all isAsciiDigit = true) (hb : b.all isAsciiDigit = true) (h : a < b) :
    digitsValue a < digitsValue b := by
  induction a generalizing b with
  | nil =>
    obtain rfl := List.length_eq_zero_iff.mp hlen.symm
    exact absurd h (lt_irrefl _)
  | cons c a ih =>
    cases b with
    | nil => simp at hlen
    | cons d b =>
      rw [List.all_cons, Bool.and_eq_true] at ha hb
      replace hlen : a.length = b.length := by simpa using hlen
      rw [digitsValue_cons, digitsValue_cons, hlen]
      rcases List.cons_lt_cons_iff.mp h with hcd | ⟨rfl, hab⟩
      · have hc := isAsciiDigit_bounds ha.1
        have hcd : c.toNat < d.toNat := hcd
        have hmul := Nat.mul_le_mul_left (10 ^ b.length) (show c.toNat - 48 + 1 ≤ d.toNat - 48 by omega)
        have htail := digitsValue_lt_pow ha.2
        rw [hlen] at htail
        rw [Nat.mul_add, Nat.mul_one] at hmul
        omega
      · exact Nat.add_lt_add_left (ih hlen ha.2 hb.2 hab) _

theorem fits_compare (c : ℕ × Option Char) (p q : List Char) (hp : FitsColumn c p)
    (hq : FitsColumn c q) : p.length = q.length ∧ (p < q → digitsValue p < digitsValue q) := by
  obtain ⟨width, _ | sep⟩ := c
  · exact ⟨hp.1.trans hq.1.symm, digitsValue_lt (hp.1.trans hq.1.symm) hp.2 hq.2⟩
  · refine ⟨hp.1.trans hq.1.symm, fun h => ?_⟩
    rw [show p = [sep] from hp.2, show q = [sep] from hq.2] at h
    exact absurd h (lt_irrefl _)

/-- The part of a text that names its second: all that stands before the tail. -/
def secondOf (text : String) : List Char := text.toList.take 19

theorem epoch_eq_of_secondOf {s t : String} {f g : Fields} (hs : Reads s f) (ht : Reads t g)
    (h : secondOf s = secondOf t) : f.epoch = g.epoch := by
  have hcols : columns s.toList (layout.map Prod.fst) = columns t.toList (layout.map Prod.fst) := by
    rw [← columns_take, ← columns_take t.toList]
    exact congrArg (columns · (layout.map Prod.fst)) h
  have hvalues := hs.values
  rw [hcols, ht.values] at hvalues
  obtain ⟨⟩ := f
  obtain ⟨⟩ := g
  simp only [Fields.values, List.cons.injEq, true_and, and_true] at hvalues
  obtain ⟨rfl, rfl, rfl, rfl, rfl, rfl⟩ := hvalues
  rfl

theorem epoch_lt_of_values {f g : Fields} (hf : f.Valid) (hg : g.Valid) (h : f.values < g.values) :
    f.epoch < g.epoch := by
  simp only [Fields.values, List.cons_lt_cons_iff, lt_irrefl, false_or, true_and] at h
  have hmf := hf.month
  have hmg := hg.month
  rcases h with hy | ⟨hy, hm | ⟨hm, hd | ⟨hd, h⟩⟩⟩
  · exact epoch_lt_of_days hf (days_lt_of_month hf hg (by omega))
  · exact epoch_lt_of_days hf (days_lt_of_month hf hg (by omega))
  · refine epoch_lt_of_days hf ?_
    rw [Fields.days, Fields.days, daysFromCivil_day, daysFromCivil_day g.year, hy, hm]
    omega
  · have htf := hf.time
    have htg := hg.time
    have hdays : f.days = g.days := by rw [Fields.days, Fields.days, hy, hm, hd]
    simp only [and_false, or_false] at h
    rw [Fields.epoch, Fields.epoch, hdays]
    omega

theorem epoch_lt_of_lt {s t : String} {f g : Fields} (hs : Reads s f) (ht : Reads t g) (h : s < t)
    (hne : secondOf s ≠ secondOf t) : f.epoch < g.epoch := by
  have hcompare := forall₂_of_layout fits_compare hs.fits ht.fits
  have hlt : (columns s.toList (layout.map Prod.fst)).flatten <
      (columns t.toList (layout.map Prod.fst)).flatten := by
    rw [flatten_columns, flatten_columns]
    exact take_lt_take h hne
  have hvalues := map_lt_of_flatten_lt hcompare hlt
  rw [hs.values, ht.values] at hvalues
  exact epoch_lt_of_values hs.valid ht.valid hvalues

/-- Both texts are of the profile, and the instant of one is before that of the other. -/
def Before (s t : String) : Prop := ∃ d ∈ parse s, ∃ e ∈ parse t, d < e

theorem Before.trans {s t u : String} (hst : Before s t) (htu : Before t u) : Before s u := by
  obtain ⟨d, hd, e, he, hde⟩ := hst
  obtain ⟨e', he', f, hf, hef⟩ := htu
  obtain rfl : e = e' := Option.some.inj (he.symm.trans he')
  exact ⟨d, hd, f, hf, hde.trans hef⟩

theorem before_iff {s t : String} (hs : (parse s).isSome) (ht : (parse t).isSome) (h : s < t) :
    Before s t ↔ secondOf s ≠ secondOf t := by
  obtain ⟨d, hd⟩ := Option.isSome_iff_exists.mp hs
  obtain ⟨e, he⟩ := Option.isSome_iff_exists.mp ht
  obtain ⟨f, hf, rfl⟩ := parse_reads hd
  obtain ⟨g, hg, rfl⟩ := parse_reads he
  constructor
  · rintro ⟨d, hd', e, he', hlt⟩ heq
    obtain rfl : f.epoch = d := Option.some.inj (hd.symm.trans hd')
    obtain rfl : g.epoch = e := Option.some.inj (he.symm.trans he')
    exact hlt.ne (epoch_eq_of_secondOf hf hg heq)
  · exact fun hne => ⟨_, hd, _, he, epoch_lt_of_lt hf hg h hne⟩

end AssuranceLayer.Instant
