import AssuranceLayer.CoverageAgreement
import AssuranceLayer.Gregorian

set_option autoImplicit false

/-!
Timestamps: the texts of the profile, the seconds they stand for in the calendar, and where the two
parsers part.
-/
namespace AssuranceLayer.Timestamps
open Utf16 JavaScript CoverageAgreement
open Instant (Fields digits isTail FitsColumn layout columns_fit separator_at daysInMonth isLeap daysFromCivil
  secondOf)

/-! ## The profile -/

/-- So many digits, and the number they write. -/
def Number (width : ℕ) (text : List Char) (n : ℕ) : Prop :=
  text.length = width ∧ text.all isAsciiDigit = true ∧ digitsValue text = n

/-- `Z`, or `.digits` before it. -/
def Tail (text : List Char) : Prop :=
  text = ['Z'] ∨ ∃ frac, frac ≠ [] ∧ frac.all isAsciiDigit = true ∧ text = '.' :: (frac ++ ['Z'])

/-- `YYYY-MM-DDTHH:MM:SS[.digits]Z`. -/
def Spelled (text : List Char) (f : Fields) : Prop :=
  ∃ year month day hour minute second tail, (Number 4 year f.year ∧ Number 2 month f.month ∧ Number 2 day f.day ∧
      Number 2 hour f.hour ∧ Number 2 minute f.minute ∧ Number 2 second f.second ∧ Tail tail) ∧
    text = year ++ '-' :: (month ++ '-' :: (day ++ 'T' :: (hour ++ ':' :: (minute ++ ':' :: (second ++ tail)))))

/-- A day of the calendar, and a second of it. -/
def Real (f : Fields) : Prop :=
  Gregorian.Exists f.year f.month f.day ∧ f.hour ≤ 23 ∧ f.minute ≤ 59 ∧ f.second ≤ 59

/-- The seconds from the beginning of 1970, negative before it. -/
def secondsSinceEpoch (f : Fields) : ℤ :=
  ((Gregorian.daysBefore f.year f.month f.day : ℤ) - Gregorian.daysBefore 1970 1 1) * 86400 +
    f.hour * 3600 + f.minute * 60 + f.second

theorem isTail_iff {text : List Char} : isTail text = true ↔ Tail text := by
  rw [isTail, decide_eq_true_eq]
  refine or_congr_right ⟨?_, ?_⟩
  · rintro ⟨hhead, hlast, hne, hdigits⟩
    cases text with
    | nil => cases hhead
    | cons c rest =>
      obtain rfl : c = '.' := Option.some.inj hhead
      rw [List.drop_one, List.tail_cons] at hne hdigits
      refine ⟨rest.dropLast, hne, hdigits, ?_⟩
      have hrest : rest ≠ [] := by
        rintro rfl
        exact hne rfl
      rw [List.getLast?_cons, List.getLast?_eq_some_getLast hrest, Option.getD_some, Option.some.injEq] at hlast
      rw [← hlast, List.dropLast_append_getLast]
  · rintro ⟨frac, hne, hdigits, rfl⟩
    rw [List.drop_one, List.tail_cons, List.dropLast_concat]
    exact ⟨rfl, by rw [← List.cons_append, List.getLast?_concat], hne, hdigits⟩

theorem digits_iff {text slice : List Char} {start stop n : ℕ}
    (h : (text.drop start).take (stop - start) = slice) :
    digits text start stop = some n ↔ slice.all isAsciiDigit = true ∧ digitsValue slice = n := by
  simp only [digits, h, Option.ite_none_right_eq_some, Option.some.injEq]

theorem matchInstant_iff {text : List Char} {f : Fields} : Browser.matchInstant text = some f ↔ Spelled text f := by
  rw [matchInstant_eq_some]
  constructor
  · rintro ⟨⟨h4, h7, h10, h13, h16⟩, hyear, hmonth, hday, hhour, hminute, hsecond, htail⟩
    have hlen : 19 ≤ text.length := by
      by_contra hshort
      rw [List.drop_eq_nil_of_le (by omega)] at htail
      cases htail
    have hnumber : ∀ {start stop n}, stop ≤ text.length → digits text start stop = some n →
        Number (stop - start) ((text.drop start).take (stop - start)) n := fun hstop h =>
      ⟨(Instant.number_fits hstop h).1, (digits_iff rfl).mp h⟩
    refine ⟨_, _, _, _, _, _, text.drop 19, ⟨hnumber (by omega) hyear, hnumber (by omega) hmonth,
      hnumber (by omega) hday, hnumber (by omega) hhour, hnumber (by omega) hminute,
      hnumber (by omega) hsecond, isTail_iff.mp htail⟩, ?_⟩
    have hflat := LexOrder.flatten_columns text (layout.map Prod.fst)
    simp only [layout, List.map_cons, List.map_nil, LexOrder.columns, List.drop_drop, Nat.reduceAdd,
      separator_at h4, separator_at h7, separator_at h10, separator_at h13, separator_at h16,
      List.flatten_cons, List.flatten_nil, List.append_nil, List.sum_cons, List.sum_nil] at hflat
    conv_lhs => rw [← List.take_append_drop 19 text, ← hflat]
    simp
  · rintro ⟨year, month, day, hour, minute, second, tail, ⟨hyear, hmonth, hday, hhour, hminute, hsecond, htail⟩, rfl⟩
    obtain ⟨y0, y1, y2, y3, rfl⟩ := List.length_eq_four.mp hyear.1
    obtain ⟨m0, m1, rfl⟩ := List.length_eq_two.mp hmonth.1
    obtain ⟨d0, d1, rfl⟩ := List.length_eq_two.mp hday.1
    obtain ⟨h0, h1, rfl⟩ := List.length_eq_two.mp hhour.1
    obtain ⟨n0, n1, rfl⟩ := List.length_eq_two.mp hminute.1
    obtain ⟨s0, s1, rfl⟩ := List.length_eq_two.mp hsecond.1
    exact ⟨⟨rfl, rfl, rfl, rfl, rfl⟩, (digits_iff rfl).mpr hyear.2, (digits_iff rfl).mpr hmonth.2,
      (digits_iff rfl).mpr hday.2, (digits_iff rfl).mpr hhour.2, (digits_iff rfl).mpr hminute.2,
      (digits_iff rfl).mpr hsecond.2, isTail_iff.mpr htail⟩

/-! ## The calendar -/

theorem isLeap_iff (y : ℕ) : isLeap y = true ↔ Gregorian.Leap y := by
  simp only [isLeap, decide_eq_true_eq, Gregorian.Leap]
  omega

theorem daysInMonth_eq (y : ℕ) {m : ℕ} (h1 : 1 ≤ m) (h12 : m ≤ 12) :
    daysInMonth y m = Gregorian.monthLength y m := by
  have hleap := isLeap_iff y
  interval_cases m
  case «2» => simp only [daysInMonth, Gregorian.monthLength, if_true, hleap]
  all_goals rfl

theorem monthOffset_eq (y : ℕ) {m : ℕ} (hm : m ≤ 12) :
    monthOffset y m = ∑ k ∈ Finset.range m, Gregorian.monthLength y (k + 1) := by
  rw [monthOffset]
  push_cast
  refine Finset.sum_congr rfl fun k hk => ?_
  have hlt := Finset.mem_range.mp hk
  rw [daysInMonth_eq y (by omega) (by omega)]

theorem dayFromYear_eq (y : ℕ) :
    dayFromYear y = (∑ k ∈ Finset.range y, Gregorian.yearLength k : ℕ) - 719528 := by
  induction y with
  | zero => rfl
  | succ y ih =>
    have hyear := monthOffset_year y
    rw [monthOffset_eq y le_rfl, Gregorian.year_months, ih] at hyear
    rw [Finset.sum_range_succ, Nat.cast_succ, ← hyear]
    push_cast
    ring

theorem daysFromCivil_eq (y : ℕ) {m d : ℕ} (hm : 1 ≤ m ∧ m ≤ 12) (hd : 1 ≤ d) :
    daysFromCivil y m d = (Gregorian.daysBefore y m d : ℤ) - Gregorian.daysBefore 1970 1 1 := by
  have hepoch : ((∑ k ∈ Finset.range 1970, Gregorian.yearLength k : ℕ) : ℤ) = 719528 := by
    have h1970 := dayFromYear_eq 1970
    rw [show dayFromYear (1970 : ℕ) = 0 by decide] at h1970
    omega
  have hmonth := daysFromCivil_month y (show m - 1 < 12 by omega)
  rw [Nat.sub_add_cancel hm.1, monthOffset_eq y (by omega), dayFromYear_eq] at hmonth
  rw [Instant.daysFromCivil_day, hmonth, Gregorian.daysBefore, Gregorian.daysBefore]
  push_cast [hd]
  push_cast at hepoch
  simp only [Finset.sum_range_zero]
  omega

theorem valid_iff {f : Fields} : f.Valid ↔ Real f := by
  constructor
  · rintro ⟨hmonth, hday, htime⟩
    rw [daysInMonth_eq _ hmonth.1 hmonth.2] at hday
    exact ⟨⟨hmonth, hday⟩, htime⟩
  · rintro ⟨⟨hmonth, hday⟩, htime⟩
    rw [← daysInMonth_eq _ hmonth.1 hmonth.2] at hday
    exact ⟨hmonth, hday, htime⟩

theorem epoch_eq {f : Fields} (h : Real f) : f.epoch = secondsSinceEpoch f := by
  rw [Fields.epoch, Fields.days, daysFromCivil_eq f.year h.1.1 h.1.2.1, secondsSinceEpoch]

theorem parse_iff {s : String} {e : ℤ} : Instant.parse s = some e ↔
    ∃ f, Spelled s.toList f ∧ Real f ∧ e = secondsSinceEpoch f := by
  rw [parse_eq_some]
  refine exists_congr fun f => ?_
  rw [matchInstant_iff, valid_iff]
  refine and_congr_right fun _ => and_congr_right fun hreal => ?_
  rw [epoch_eq hreal, eq_comm]

/-! ## Order -/

/-- Without a fraction, a text is its second and `Z`. -/
theorem toList_of_whole {s : String} {e : ℤ} (h : Instant.parse s = some e) (hwhole : '.' ∉ s.toList) :
    s.toList = secondOf s ++ ['Z'] := by
  obtain ⟨f, hmatch, -⟩ := parse_eq_some.mp h
  obtain ⟨-, -, -, -, -, -, -, htail⟩ := matchInstant_eq_some.mp hmatch
  have hZ : s.toList.drop 19 = ['Z'] := by
    refine (isTail_iff.mp htail).resolve_right ?_
    rintro ⟨frac, -, -, heq⟩
    exact hwhole (List.mem_of_mem_drop (heq ▸ List.mem_cons_self))
  rw [secondOf, ← hZ, List.take_append_drop]

theorem lt_of_text_lt {s t : String} {d e : ℤ} (hs : Instant.parse s = some d) (ht : Instant.parse t = some e)
    (hws : '.' ∉ s.toList) (hwt : '.' ∉ t.toList) (h : s < t) : d < e := by
  have hne : secondOf s ≠ secondOf t := by
    intro heq
    refine h.ne (String.toList_inj.mp ?_)
    rw [toList_of_whole hs hws, toList_of_whole ht hwt, heq]
  obtain ⟨d', hd', e', he', hlt⟩ := (Instant.before_iff (by simp [hs]) (by simp [ht]) h).mpr hne
  obtain rfl := Option.some.inj (hs.symm.trans hd')
  obtain rfl := Option.some.inj (ht.symm.trans he')
  exact hlt

/-- A text is accepted when it spells a second that exists, and is read as its distance from 1970. Of
    texts without a fraction the order is that of the instants. -/
theorem parse_exact :
    (∀ s e, Instant.parse s = some e ↔ ∃ f, Spelled s.toList f ∧ Real f ∧ e = secondsSinceEpoch f) ∧
    ∀ s t d e, Instant.parse s = some d → Instant.parse t = some e → '.' ∉ s.toList → '.' ∉ t.toList →
      (s < t ↔ d < e) ∧ (d = e ↔ s = t) := by
  refine ⟨fun s e => parse_iff, fun s t d e hs ht hws hwt => ?_⟩
  rcases lt_trichotomy s t with h | rfl | h
  · have hlt := lt_of_text_lt hs ht hws hwt h
    exact ⟨iff_of_true h hlt, iff_of_false hlt.ne h.ne⟩
  · obtain rfl := Option.some.inj (hs.symm.trans ht)
    exact ⟨iff_of_false (lt_irrefl _) (lt_irrefl _), iff_of_true rfl rfl⟩
  · have hlt := lt_of_text_lt ht hs hwt hws h
    exact ⟨iff_of_false h.asymm hlt.asymm, iff_of_false hlt.ne' h.ne'⟩

theorem parse_exact_two : ("2025-12-31T23:59:59Z" < "2026-01-01T00:00:00Z" ↔ (1767225599 : ℤ) < 1767225600) ∧
    ((1767225599 : ℤ) = 1767225600 ↔ "2025-12-31T23:59:59Z" = "2026-01-01T00:00:00Z") :=
  parse_exact.2 "2025-12-31T23:59:59Z" "2026-01-01T00:00:00Z" 1767225599 1767225600 (by decide +kernel)
    (by decide +kernel) (by decide) (by decide)

/-! ## The two parsers -/

def IsTimestamp (s : String) : Prop := ∃ f, Spelled s.toList f ∧ Real f

/-- A timestamp of the years 0 to 99. -/
def OfFirstYears (s : String) : Prop := ∃ f, Spelled s.toList f ∧ Real f ∧ f.year ≤ 99

theorem isTimestamp_iff {s : String} : IsTimestamp s ↔ ∃ e, Instant.parse s = some e := by
  simp only [IsTimestamp, parse_iff]
  constructor
  · rintro ⟨f, hspelled, hreal⟩
    exact ⟨_, f, hspelled, hreal, rfl⟩
  · rintro ⟨e, f, hspelled, hreal, -⟩
    exact ⟨f, hspelled, hreal⟩

theorem ofFirstYears_iff {s : String} : OfFirstYears s ↔ FirstCentury s ∧ IsTimestamp s := by
  constructor
  · rintro ⟨f, hspelled, hreal, hyear⟩
    exact ⟨(firstCentury_iff (matchInstant_iff.mpr hspelled)).mpr hyear, f, hspelled, hreal⟩
  · rintro ⟨hcentury, f, hspelled, hreal⟩
    exact ⟨f, hspelled, hreal, (firstCentury_iff (matchInstant_iff.mpr hspelled)).mp hcentury⟩

theorem parse_agrees_iff {s : String} :
    (∀ e, Browser.parseInstant (Js.string s) = some e ↔ Instant.parse s = some e) ↔ ¬ OfFirstYears s := by
  simp only [parseInstant_string, ofFirstYears_iff, isTimestamp_iff, and_iff_right_iff_imp, not_and,
    not_exists]
  constructor
  · exact fun h hcentury e he => h e he hcentury
  · exact fun h e he hcentury => h hcentury e he

theorem isTimestamp_of_skew {s t : String} {n : ℕ} (h : Instant.skew s t = some n) :
    IsTimestamp s ∧ IsTimestamp t := by
  simp only [Instant.skew, Option.bind_eq_bind, Option.bind_eq_some_iff] at h
  obtain ⟨x, hx, y, hy, -⟩ := h
  exact ⟨isTimestamp_iff.mpr ⟨x, hx⟩, isTimestamp_iff.mpr ⟨y, hy⟩⟩

theorem skew_of_isTimestamp {s t : String} (hs : IsTimestamp s) (ht : IsTimestamp t) :
    ∃ n, Instant.skew s t = some n := by
  obtain ⟨x, hx⟩ := isTimestamp_iff.mp hs
  obtain ⟨y, hy⟩ := isTimestamp_iff.mp ht
  exact ⟨_, by rw [Instant.skew, hx, hy]; rfl⟩

theorem skew_agrees_iff {s t : String} :
    (∀ n, Browser.instantSkew (Js.string s) (Js.string t) = some n ↔ Instant.skew s t = some n) ↔
      ¬ (OfFirstYears s ∧ IsTimestamp t ∨ IsTimestamp s ∧ OfFirstYears t) := by
  simp only [instantSkew_string, ofFirstYears_iff]
  constructor
  · rintro h (⟨⟨hcentury, hs⟩, ht⟩ | ⟨hs, hcentury, ht⟩)
    all_goals
      obtain ⟨n, hn⟩ := skew_of_isTimestamp hs ht
      have hnot := (h n).mpr hn
    · exact hnot.1 hcentury
    · exact hnot.2.1 hcentury
  · intro h n
    refine ⟨fun hskew => hskew.2.2, fun hskew => ?_⟩
    obtain ⟨hs, ht⟩ := isTimestamp_of_skew hskew
    exact ⟨fun hcentury => h (.inl ⟨⟨hcentury, hs⟩, ht⟩), fun hcentury => h (.inr ⟨hs, hcentury, ht⟩), hskew⟩

/-- A string that Rust cannot hold is no timestamp. -/
theorem parseInstant_of_unpaired {u : JsString} (h : ∀ s, u ≠ ofString s) :
    Browser.parseInstant (.str u) = none := by
  refine Option.eq_none_iff_forall_ne_some.mpr fun e he => ?_
  obtain ⟨f, hmatch, -⟩ := Option.bind_eq_some_iff.mp he
  refine h _ (ofString_asChars fun c hc hzero => ?_).symm
  have hchar := List.all_eq_true.mp (matched_chars hmatch) c hc
  rw [hzero] at hchar
  exact absurd hchar (by decide)

/-- The parsers part on the years 0 to 99, which the browser turns into years of the last century, and
    nowhere else. -/
theorem instants_agree_iff (s t : String) (u : JsString) :
    ((∀ e, Browser.parseInstant (Js.string s) = some e ↔ Instant.parse s = some e) ↔ ¬ OfFirstYears s) ∧
    ((∀ n, Browser.instantSkew (Js.string s) (Js.string t) = some n ↔ Instant.skew s t = some n) ↔
      ¬ (OfFirstYears s ∧ IsTimestamp t ∨ IsTimestamp s ∧ OfFirstYears t)) ∧
    ((∀ s, u ≠ ofString s) → Browser.parseInstant (.str u) = none) :=
  ⟨parse_agrees_iff, skew_agrees_iff, parseInstant_of_unpaired⟩

theorem instants_agree_iff_unpaired : Browser.parseInstant (.str [0xD800]) = none :=
  (instants_agree_iff "" "" [0xD800]).2.2 fun s h => by
    have hencode := congrArg scalars h
    rw [scalars_ofString] at hencode
    have hback := congrArg (fun cs => ofString (String.ofList cs)) hencode
    rw [String.ofList_toList, ← h] at hback
    exact absurd hback (by decide)

theorem instants_disagree : ¬ ∀ s e, Browser.parseInstant (Js.string s) = some e ↔ Instant.parse s = some e :=
  fun h => absurd ((h "0050-01-01T00:00:00Z" (-60589296000)).mpr (by decide +kernel)) (by decide +kernel)

end AssuranceLayer.Timestamps
