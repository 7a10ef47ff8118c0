import AssuranceLayer.KeySpelling
import AssuranceLayer.Rendering

set_option autoImplicit false

/-!
The two checks of coverage. They ask the same of a pair of reports, but for how a trusted key may be
spelled, how a year is read, and the counts that go into a digest.
-/
namespace AssuranceLayer.CoverageAgreement
open Fallible Utf16 JavaScript Json Reading KeySpelling
open Document Digest Coverage SortedMap
open Sign (Ed25519 verifySignature goldenEd25519 goldenSigner)
open Sums (amount)

/-! ## Timestamps -/

def isTimeChar (c : Char) : Bool := isAsciiDigit c || c = '-' || c = 'T' || c = ':' || c = '.' || c = 'Z'

theorem isTimeChar_small {c : Char} (h : isTimeChar c = true) : c.toNat < 128 := by
  simp only [isTimeChar, Bool.or_eq_true, decide_eq_true_eq] at h
  obtain ((((h | rfl) | rfl) | rfl) | rfl) | rfl := h
  · have := (Instant.isAsciiDigit_bounds h).2
    omega
  all_goals decide

theorem matchInstant_eq_some {cs : List Char} {f : Instant.Fields} : Browser.matchInstant cs = some f ↔
    (cs[4]? = some '-' ∧ cs[7]? = some '-' ∧ cs[10]? = some 'T' ∧ cs[13]? = some ':' ∧ cs[16]? = some ':') ∧
      Instant.digits cs 0 4 = some f.year ∧ Instant.digits cs 5 7 = some f.month ∧
      Instant.digits cs 8 10 = some f.day ∧ Instant.digits cs 11 13 = some f.hour ∧
      Instant.digits cs 14 16 = some f.minute ∧ Instant.digits cs 17 19 = some f.second ∧
      Instant.isTail (cs.drop 19) = true := by
  simp only [Browser.matchInstant, Option.bind_eq_bind, Option.bind_eq_some_iff, Option.guard_eq_some',
    Option.pure_def, Option.some.injEq]
  constructor
  · rintro ⟨_, hsep, year, hyear, month, hmonth, day, hday, hour, hhour, minute, hminute, second, hsecond, _,
      htail, rfl⟩
    exact ⟨hsep, hyear, hmonth, hday, hhour, hminute, hsecond, htail⟩
  · rintro ⟨hsep, hyear, hmonth, hday, hhour, hminute, hsecond, htail⟩
    exact ⟨(), hsep, _, hyear, _, hmonth, _, hday, _, hhour, _, hminute, _, hsecond, (), htail, rfl⟩

theorem matched_length {cs : List Char} {f : Instant.Fields} (h : Browser.matchInstant cs = some f) :
    20 ≤ cs.length := by
  obtain ⟨-, -, -, -, -, -, -, htail⟩ := matchInstant_eq_some.mp h
  by_contra hlen
  rw [List.drop_eq_nil_of_le (by omega)] at htail
  cases htail

theorem digits_timeChars {cs : List Char} (h : cs.all isAsciiDigit = true) : cs.all isTimeChar = true := by
  rw [List.all_eq_true] at h ⊢
  intro c hc
  simp [isTimeChar, h c hc]

theorem tail_chars {cs : List Char} (h : Instant.isTail cs = true) : cs.all isTimeChar = true := by
  obtain rfl | ⟨hhead, hlast, hne, hdigits⟩ := of_decide_eq_true h
  · rfl
  · cases cs with
    | nil => cases hhead
    | cons c cs =>
      obtain rfl : c = '.' := Option.some.inj hhead
      rw [List.drop_one, List.tail_cons] at hne hdigits
      obtain ⟨last, hlast'⟩ : ∃ last, cs.getLast? = some last := by
        cases cs with
        | nil => exact absurd rfl hne
        | cons d cs => exact ⟨_, List.getLast?_eq_some_getLast (List.cons_ne_nil d cs)⟩
      rw [List.getLast?_cons, hlast', Option.getD_some, Option.some.injEq] at hlast
      rw [← List.dropLast_append_getLast? last hlast', hlast, List.all_cons, List.all_append,
        digits_timeChars hdigits]
      rfl

theorem column_chars {c : ℕ × Option Char} {column : List Char} (hc : c ∈ Instant.layout)
    (h : Instant.FitsColumn c column) : column.all isTimeChar = true := by
  have hseparators : ∀ c ∈ Instant.layout, c.2.all isTimeChar = true := by decide
  obtain ⟨width, _ | sep⟩ := c
  · exact digits_timeChars h.2
  · have hsep : isTimeChar sep = true := hseparators _ hc
    rw [show column = [sep] from h.2, List.all_cons, hsep]
    rfl

/-- Nothing else stands in a text that matches. -/
theorem matched_chars {cs : List Char} {f : Instant.Fields} (h : Browser.matchInstant cs = some f) :
    cs.all isTimeChar = true := by
  have hlen := matched_length h
  obtain ⟨⟨h4, h7, h10, h13, h16⟩, hyear, hmonth, hday, hhour, hminute, hsecond, htail⟩ :=
    matchInstant_eq_some.mp h
  have hcolumns := Instant.columns_fit (by omega) h4 h7 h10 h13 h16 hyear hmonth hday hhour hminute hsecond
  have htake : (cs.take 19).all isTimeChar = true := by
    have hflat := LexOrder.flatten_columns cs (Instant.layout.map Prod.fst)
    rw [show (Instant.layout.map Prod.fst).sum = 19 from rfl] at hflat
    rw [← hflat, List.all_flatten, List.all_eq_true]
    intro column hcolumn
    obtain ⟨i, hi, rfl⟩ := List.getElem_of_mem hcolumn
    exact column_chars (List.getElem_mem (hcolumns.length_eq ▸ hi)) (hcolumns.get _ hi)
  rw [← List.take_append_drop 19 cs, List.all_append, htake, tail_chars htail]
  rfl

theorem matchInstant_ofString (t : String) :
    Browser.matchInstant (asChars (ofString t)) = Browser.matchInstant t.toList := by
  have heq : (asChars (ofString t)).all isTimeChar = true ∨ t.toList.all isTimeChar = true →
      asChars (ofString t) = t.toList :=
    AmountTexts.asChars_eq (by decide) fun _ hc => (isTimeChar_small hc).trans (by decide)
  cases hleft : Browser.matchInstant (asChars (ofString t)) with
  | some f => rw [← heq (.inl (matched_chars hleft)), hleft]
  | none =>
    cases hright : Browser.matchInstant t.toList with
    | none => rfl
    | some f =>
      rw [heq (.inr (matched_chars hright)), hright] at hleft
      cases hleft

theorem parse_eq_some {t : String} {e : Instant.Epoch} : Instant.parse t = some e ↔
    ∃ f, Browser.matchInstant t.toList = some f ∧ f.Valid ∧ f.epoch = e := by
  constructor
  · intro h
    simp only [Instant.parse, Option.bind_eq_bind, Option.bind_eq_some_iff, Option.guard_eq_some',
      Option.pure_def, Option.some.injEq] at h
    obtain ⟨_, -, _, ⟨h4, h7, h10⟩, _, ⟨h13, h16⟩, year, hyear, month, hmonth, day, hday, hour, hhour,
      minute, hminute, second, hsecond, _, htail, _, ⟨hm, hd⟩, _, ht, rfl⟩ := h
    exact ⟨⟨year, month, day, hour, minute, second⟩, matchInstant_eq_some.mpr ⟨⟨h4, h7, h10, h13, h16⟩,
      hyear, hmonth, hday, hhour, hminute, hsecond, htail⟩, ⟨hm, hd, ht⟩, rfl⟩
  · rintro ⟨f, hmatch, hvalid, rfl⟩
    have hascii : (t.toList.all fun c => c.toNat < 128) = true := by
      refine List.all_eq_true.mpr fun c hc => decide_eq_true (isTimeChar_small ?_)
      exact List.all_eq_true.mp (matched_chars hmatch) c hc
    have hlen := matched_length hmatch
    obtain ⟨⟨h4, h7, h10, h13, h16⟩, hyear, hmonth, hday, hhour, hminute, hsecond, htail⟩ :=
      matchInstant_eq_some.mp hmatch
    simp only [Instant.parse, Option.bind_eq_bind, Option.bind_eq_some_iff, Option.guard_eq_some',
      Option.pure_def, Option.some.injEq]
    exact ⟨(), ⟨hlen, hascii⟩, (), ⟨h4, h7, h10⟩, (), ⟨h13, h16⟩, _, hyear, _, hmonth, _, hday, _, hhour, _,
      hminute, _, hsecond, (), htail, (), ⟨hvalid.month, hvalid.day⟩, (), hvalid.time, rfl⟩

theorem fullYear_of_lt {y : ℕ} (h : 99 < y) : fullYear y = y := if_neg (not_le.mpr h)

theorem dateUtc_epoch {f : Instant.Fields} (hyear : 99 < f.year) (hmonth : 1 ≤ f.month ∧ f.month ≤ 12) :
    dateUtc f.year (f.month - 1) f.day f.hour f.minute f.second / 1000 = f.epoch := by
  rw [dateUtc, fullYear_of_lt hyear, makeDay_eq f.year (by omega), Nat.sub_add_cancel hmonth.1,
    Instant.Fields.epoch, Instant.Fields.days]
  omega

theorem dayOf_back (year month day : ℕ) {hour minute second : ℕ}
    (h : hour ≤ 23 ∧ minute ≤ 59 ∧ second ≤ 59) :
    dayOf (dateUtc year month day hour minute second / 1000 * 1000) = makeDay (fullYear year) month day := by
  have hwhole : dateUtc year month day hour minute second / 1000 * 1000 =
      dateUtc year month day hour minute second := by
    rw [dateUtc]
    omega
  rw [hwhole, dayOf_dateUtc _ _ _ h]

/-- The round trip through a date refuses impossible days, and the first century. -/
theorem instantOf_eq_some {f : Instant.Fields} {e : ℤ} : Browser.instantOf f = some e ↔
    99 < f.year ∧ f.Valid ∧ f.epoch = e := by
  simp only [Browser.instantOf, Option.bind_eq_bind, Option.bind_eq_some_iff, Option.guard_eq_some',
    Option.pure_def, Option.some.injEq]
  constructor
  · rintro ⟨_, ⟨hm1, hm12, hd, htime⟩, _, hback, rfl⟩
    rw [dayOf_back _ _ _ htime] at hback
    have hyear : 99 < f.year := by
      by_contra hle
      exact back_ne (not_lt.mp hle) hd hback.1
    rw [fullYear_of_lt hyear, back_iff (by omega) hd, Nat.sub_add_cancel hm1] at hback
    exact ⟨hyear, ⟨⟨hm1, hm12⟩, ⟨hd, hback⟩, htime⟩, (dateUtc_epoch hyear ⟨hm1, hm12⟩).symm⟩
  · rintro ⟨hyear, ⟨hmonth, hday, htime⟩, rfl⟩
    refine ⟨(), ⟨hmonth.1, hmonth.2, hday.1, htime⟩, (), ?_, dateUtc_epoch hyear hmonth⟩
    rw [dayOf_back _ _ _ htime, fullYear_of_lt hyear, back_iff (by omega) hday.1, Nat.sub_add_cancel hmonth.1]
    exact hday.2

/-- The year of a text is below a hundred. -/
def FirstCentury (t : String) : Prop := ['0', '0'] <+: t.toList

theorem firstCentury_iff {t : String} {f : Instant.Fields} (h : Browser.matchInstant t.toList = some f) :
    FirstCentury t ↔ f.year ≤ 99 := by
  have hlen := matched_length h
  obtain ⟨-, hyear, -⟩ := matchInstant_eq_some.mp h
  rw [FirstCentury]
  obtain ⟨hdigits, hvalue⟩ := Instant.digits_eq_some hyear
  match hcs : t.toList with
  | a :: b :: c :: d :: rest =>
    rw [hcs] at hdigits hvalue
    simp only [Nat.sub_zero, List.drop_zero, List.take_succ_cons, List.take_zero, List.all_cons,
      List.all_nil, Bool.and_true, Bool.and_eq_true] at hdigits hvalue
    have ha := Instant.isAsciiDigit_bounds hdigits.1
    have hb := Instant.isAsciiDigit_bounds hdigits.2.1
    have hc := Instant.isAsciiDigit_bounds hdigits.2.2.1
    have hd := Instant.isAsciiDigit_bounds hdigits.2.2.2
    have hzero : ∀ x : Char, '0' = x ↔ x.toNat = 48 := fun x => by rw [eq_comm, ← Char.toNat_inj]; rfl
    have hnil : digitsValue [] = 0 := rfl
    simp only [Instant.digitsValue_cons, hnil, List.length_cons, List.length_nil] at hvalue
    rw [List.cons_prefix_cons, List.cons_prefix_cons, hzero, hzero, and_iff_left List.nil_prefix]
    omega
  | [] | [_] | [_, _] | [_, _, _] => simp [hcs] at hlen

/-- One instant a text, but for the first century. -/
theorem parseInstant_string {t : String} {e : ℤ} : Browser.parseInstant (Js.string t) = some e ↔
    ¬ FirstCentury t ∧ Instant.parse t = some e := by
  rw [Js.string, Browser.parseInstant, matchInstant_ofString, parse_eq_some, Option.bind_eq_some_iff]
  constructor
  · rintro ⟨f, hmatch, hf⟩
    obtain ⟨hyear, hvalid, rfl⟩ := instantOf_eq_some.mp hf
    exact ⟨fun h => absurd ((firstCentury_iff hmatch).mp h) (not_le.mpr hyear), f, hmatch, hvalid, rfl⟩
  · rintro ⟨hcentury, f, hmatch, hvalid, rfl⟩
    rw [firstCentury_iff hmatch, not_le] at hcentury
    exact ⟨f, hmatch, instantOf_eq_some.mpr ⟨hcentury, hvalid, rfl⟩⟩

theorem instantSkew_string {s t : String} {n : ℕ} :
    Browser.instantSkew (Js.string s) (Js.string t) = some n ↔
      ¬ FirstCentury s ∧ ¬ FirstCentury t ∧ Instant.skew s t = some n := by
  simp only [Browser.instantSkew, Instant.skew, Option.bind_eq_bind, Option.bind_eq_some_iff,
    parseInstant_string, Option.pure_def, Option.some.injEq]
  constructor
  · rintro ⟨x, ⟨hs, hx⟩, y, ⟨ht, hy⟩, rfl⟩
    exact ⟨hs, ht, x, hx, y, hy, rfl⟩
  · rintro ⟨hs, ht, x, hx, y, hy, rfl⟩
    exact ⟨x, ⟨hs, hx⟩, y, ⟨ht, hy⟩, rfl⟩

theorem daysInMonth_le (y : ℤ) (m : ℕ) : Instant.daysInMonth y m ≤ 31 := by
  unfold Instant.daysInMonth
  split <;> first | decide | (split_ifs <;> decide)

theorem epoch_bounds {f : Instant.Fields} (h : f.Valid) (hyear : f.year < 10 ^ 4) :
    -10 ^ 12 ≤ f.epoch ∧ f.epoch ≤ 10 ^ 12 := by
  have hday := h.day.2.trans (daysInMonth_le _ _)
  have htime := h.time
  have hm : (f.month + 9) % 12 < 12 := Nat.mod_lt _ (by norm_num)
  simp only [Instant.Fields.epoch, Instant.Fields.days, Instant.daysFromCivil_eq (Int.natCast_nonneg f.year)]
  split_ifs <;> omega

theorem parse_bounds {t : String} {e : ℤ} (h : Instant.parse t = some e) : -10 ^ 12 ≤ e ∧ e ≤ 10 ^ 12 := by
  obtain ⟨f, hmatch, hvalid, rfl⟩ := parse_eq_some.mp h
  obtain ⟨-, hyear, -⟩ := matchInstant_eq_some.mp hmatch
  obtain ⟨hdigits, hvalue⟩ := Instant.digits_eq_some hyear
  refine epoch_bounds hvalid ?_
  rw [← hvalue]
  refine (Instant.digitsValue_lt_pow hdigits).trans_le (Nat.pow_le_pow_right (by norm_num) ?_)
  exact List.length_take_le _ _

/-- No two texts are so far apart that doubles would not count the seconds one by one. -/
theorem skew_lt {s t : String} {n : ℕ} (h : Instant.skew s t = some n) : n < 2 ^ 53 := by
  simp only [Instant.skew, Option.bind_eq_bind, Option.bind_eq_some_iff, Option.pure_def,
    Option.some.injEq] at h
  obtain ⟨x, hx, y, hy, rfl⟩ := h
  have := parse_bounds hx
  have := parse_bounds hy
  omega

theorem tolerance_iff {n : ℕ} (h : n < 2 ^ 53) (t : U64) :
    (Binary64.ofNat t.val).lt? (.finite n) ≠ some true ↔ n ≤ t.val := by
  by_cases ht : t.val < 2 ^ 53
  · rw [Binary64.ofNat_of_lt ht]
    simp [Binary64.Number.lt?]
  · obtain ⟨r, hr, hge, -⟩ := Binary64.ofNat_of_le (not_lt.mp ht) t.isLt
    have hnr : ¬ r < n := by omega
    rw [hr]
    simp only [Binary64.Number.lt?, Nat.cast_lt, hnr, decide_false]
    simp only [ne_eq, Option.some.injEq, Bool.false_eq_true, not_false_eq_true, true_iff]
    omega

/-! ## What either verifier asks -/

/-- Everything that is asked of two reports and a statement, but for who signed them: by the digests
    and keys that a verifier goes by. -/
structure Supported (ed : Ed25519) (digest : Report → Digest) (custodyKey liabilitiesKey : String)
    (custody liabilities : SignedReport) (statement : CoverageStatement) (maxSkewSeconds : U64) : Prop where
  version : statement.formatVersion = coverageFormatVersion
  profiles : custody.report.profile = "coverage.custody" ∧ liabilities.report.profile = "solvency.liabilities"
  named : hexEncode (digest custody.report).toList = statement.custodyReportDigest ∧
    hexEncode (digest liabilities.report).toList = statement.liabilitiesReportDigest
  signed : verifySignature ed custodyKey (digest custody.report) custody.signature.value = .ok () ∧
    verifySignature ed liabilitiesKey (digest liabilities.report) liabilities.signature.value = .ok ()
  moment : Within maxSkewSeconds custody.report liabilities.report
  covers : Covers custody.report liabilities.report

variable {sha256 : List UInt8 → Digest} {ed : Ed25519}

/-- Keys are compared as they stand. -/
theorem verifyCoverage_iff {custody liabilities : SignedReport} {statement : CoverageStatement}
    {custodyKey liabilitiesKey : String} {maxSkewSeconds : U64} :
    (∃ outcome, verifyCoverage sha256 ed custody liabilities statement custodyKey liabilitiesKey
        maxSkewSeconds = .ok outcome ∧ outcome.fullyCovered = true) ↔
      Supported ed (reportDigest sha256) custodyKey liabilitiesKey custody liabilities statement
          maxSkewSeconds ∧
        SameSpelling custody.signature.publicKey custodyKey ∧
        SameSpelling liabilities.signature.publicKey liabilitiesKey := by
  simp only [verifyCoverage, Verify.expectVersion, expectProfile, bind_eq_ok, ensure_eq_ok, okOr_eq_ok,
    checkSignature, mapError_eq_ok, pure_eq_ok]
  constructor
  · rintro ⟨_, ⟨_, hv, _, hc, _, hl, _, hdc, _, hdl, _, ⟨_, hkc, hsc⟩, _, ⟨_, hkl, hsl⟩, s, hs, _, hle, rfl⟩,
      hfull⟩
    exact ⟨⟨hv, ⟨hc, hl⟩, ⟨hdc, hdl⟩, ⟨hsc, hsl⟩, ⟨s, hs, hle⟩, fullyCovered_iff.mp hfull⟩,
      ⟨hkc, trimmed_of_verifies hsc⟩, hkl, trimmed_of_verifies hsl⟩
  · rintro ⟨⟨hv, ⟨hc, hl⟩, ⟨hdc, hdl⟩, ⟨hsc, hsl⟩, ⟨s, hs, hle⟩, hcovers⟩, ⟨hkc, -⟩, hkl, -⟩
    exact ⟨_, ⟨(), hv, (), hc, (), hl, (), hdc, (), hdl, (), ⟨(), hkc, hsc⟩, (), ⟨(), hkl, hsl⟩, s, hs, (),
      hle, rfl⟩, fullyCovered_iff.mpr hcovers⟩

structure ReadsStatement (v : Js) (statement : CoverageStatement) : Prop where
  object : IsObject v
  formatVersion : v.prop "format_version" = Js.string statement.formatVersion
  custodyReportDigest : v.prop "custody_report_digest" = Js.string statement.custodyReportDigest
  liabilitiesReportDigest : v.prop "liabilities_report_digest" = Js.string statement.liabilitiesReportDigest

theorem readsStatement_of_decode {j : Json} {statement : CoverageStatement}
    (h : Wire.coverageStatement.decode j = some statement) (hobject : IsObject (Js.ofJson j)) :
    ReadsStatement (Js.ofJson j) statement := by
  obtain ⟨entries, rfl, hnodup, hread⟩ := members_of_decode h hobject
  simp only [Fields.iso_read, Fields.both_read, Fields.field_read, string_decode, exists_eq_right] at hread
  obtain ⟨⟨_, _, _, _⟩, ⟨hv, hc, hl, -⟩, rfl⟩ := hread
  exact ⟨hobject, prop_of_lookup hnodup hv, prop_of_lookup hnodup hc, prop_of_lookup hnodup hl⟩

theorem reading_ok {α : Type} (a : α) : Browser.reading (.ok a) = .ok a := rfl

theorem expectReportProfile_iff {v : Js} {signed : SignedReport} (h : ReadsSigned v signed) (wanted : String) :
    Browser.expectReportProfile v wanted = .ok () ↔ signed.report.profile = wanted := by
  simp only [Browser.expectReportProfile, h.object.get, h.report.object.get, ok_bind, reading_ok,
    h.report.profile]
  rw [← is_string]
  cases hprofile : (Js.string signed.report.profile).is (ofString wanted) with
  | true => exact iff_of_true rfl rfl
  | false =>
    refine iff_of_false ?_ Bool.false_ne_true
    rintro ⟨⟩

theorem expectDigest_iff {v : Js} {signed : SignedReport} (h : ReadsSigned v signed) (named : String) :
    Browser.expectDigest sha256 v (.ok (Js.string named)) = .ok () ↔
      hexEncode (readDigest sha256 signed.report).toList = named := by
  simp only [Browser.expectDigest, h.object.get, ok_bind, reading_ok, reportDigestHex_reads h.report,
    ensure_eq_ok, is_string]
  exact eq_comm

theorem checkCoverageSignature_iff {toLowerCase : JsString → JsString} {v : Js} {signed : SignedReport}
    (h : ReadsSigned v signed) (key : String) :
    Browser.checkCoverageSignature toLowerCase sha256 ed v (ofString key) = .ok () ↔
      AlikeInLower toLowerCase signed.signature.publicKey key ∧
        verifySignature ed (trimmed key) (readDigest sha256 signed.report) signed.signature.value = .ok () := by
  have hlowered : Browser.lowered toLowerCase (Js.string signed.signature.publicKey) =
    .ok (toLowerCase (ofString signed.signature.publicKey)) := rfl
  simp only [Browser.checkCoverageSignature, h.object.get, h.signature.object.get, ok_bind, reading_ok,
    reportDigestHex_reads h.report, h.signature.publicKey, h.signature.value, hlowered, trim_ofString,
    bind_eq_ok, ensure_eq_ok, exists_const]
  refine and_congr_right fun _ => ?_
  rw [← HexTexts.verifyEd25519_iff]
  simp only [Browser.reading, mapError_eq_ok]
  constructor
  · rintro ⟨valid, hvalid, rfl⟩
    exact hvalid
  · exact fun hvalid => ⟨true, hvalid, rfl⟩

theorem checkAsset_iff {v : Js} {custody liabilities : Sums.AmountMap} (h : ReadsAmounts v custody)
    {p : JsString × Js} {asset : String} {owed : U128} (hp : p.1 = ofString asset) (hv : ReadsAmount p.2 owed)
    (howed : liabilities.get? asset = some owed) : Browser.checkAsset v p = .ok () ↔
      amount liabilities asset ≤ amount custody (Merkle.qualified "held" asset) := by
  obtain ⟨props, rfl, hm⟩ := h
  have hname : ofString "held/" ++ p.1 = ofString (Merkle.qualified "held" asset) := by
    rw [hp, ← ofString_append]
    rfl
  -- what is held, as it is read
  have hheld : Browser.parseAmount18dp
      (((props.lookup (ofString (Merkle.qualified "held" asset))).getD .undefined).orElse
        (Js.string "0")) = .ok (amount custody (Merkle.qualified "held" asset) : ℤ) := by
    cases hget : custody.get? (Merkle.qualified "held" asset) with
    | some held =>
      obtain ⟨w, hw, hread⟩ := hm.lookup hget
      obtain ⟨s, rfl, -⟩ := id hread
      rw [hw, Sums.amount_of_get? hget]
      exact parseAmount18dp_reads hread
    | none =>
      rw [hm.lookup_none hget, amount, hget]
      exact AmountTexts.parseAmount18dp_of_ok (show Amount.parseAmount18dp "0" = .ok 0 by decide +kernel)
  simp only [Browser.checkAsset, Browser.entriesOf, Js.isNullish, parseAmount18dp_reads hv, reading_ok,
    ok_bind, hname, Bool.false_eq_true, if_false, ← Js.string.eq_1, hheld, ensure_eq_ok,
    Sums.amount_of_get? howed, Nat.cast_le]

theorem checkAssets_iff {v w : Js} {custody liabilities : Sums.AmountMap} (hv : ReadsAmounts v custody)
    (hw : ReadsAmounts w liabilities) : forM (Browser.entriesOf w) (Browser.checkAsset v) = .ok () ↔
      ∀ a ∈ liabilities.keys, amount liabilities a ≤ amount custody (Merkle.qualified "held" a) := by
  obtain ⟨props, rfl, hm⟩ := hw
  rw [forM_eq_ok]
  constructor
  · intro h a ha
    obtain ⟨owed, howed⟩ := Option.isSome_iff_exists.mp (mem_keys.mp ha)
    obtain ⟨amountValue, hlookup, hread⟩ := hm.lookup howed
    have hp := h (ofString a, amountValue) ((lookup_eq_some hm.nodup).mp hlookup)
    exact (checkAsset_iff hv rfl hread howed).mp hp
  · intro h p hp
    obtain ⟨a, owed, hname, howed, hread⟩ := hm.sound p hp
    exact (checkAsset_iff hv hname hread howed).mpr (h a (mem_keys.mpr (by simp [howed])))

/-- Keys are compared without the white space around them and in lower case, and a year below a hundred
    is no year. -/
theorem browser_iff {toLowerCase : JsString → JsString} {vc vl vs : Js} {custody liabilities : SignedReport}
    {statement : CoverageStatement} (hc : ReadsSigned vc custody) (hl : ReadsSigned vl liabilities)
    (hs : ReadsStatement vs statement) (custodyKey liabilitiesKey : String) (maxSkewSeconds : U64) :
    Browser.verifyCoverage toLowerCase sha256 ed vc vl vs (ofString custodyKey) (ofString liabilitiesKey)
        (Binary64.ofNat maxSkewSeconds.val) = .ok () ↔
      Supported ed (readDigest sha256) (trimmed custodyKey) (trimmed liabilitiesKey) custody liabilities
          statement maxSkewSeconds ∧
        (AlikeInLower toLowerCase custody.signature.publicKey custodyKey ∧
          AlikeInLower toLowerCase liabilities.signature.publicKey liabilitiesKey) ∧
        ¬ FirstCentury custody.report.snapshotTime ∧ ¬ FirstCentury liabilities.report.snapshotTime := by
  have hassets := checkAssets_iff hc.report.rootSums hl.report.rootSums
  simp only [Browser.verifyCoverage, hs.object.get, hc.object.get, hl.object.get, hc.report.object.get,
    hl.report.object.get, ok_bind, reading_ok, hs.formatVersion, hs.custodyReportDigest,
    hs.liabilitiesReportDigest, hc.report.snapshotTime, hl.report.snapshotTime, bind_eq_ok, ensure_eq_ok,
    is_string, expectReportProfile_iff hc, expectReportProfile_iff hl, expectDigest_iff hc,
    expectDigest_iff hl, checkCoverageSignature_iff hc, checkCoverageSignature_iff hl, exists_const,
    okOr_eq_ok, instantSkew_string, hassets]
  constructor
  · rintro ⟨hv, hpc, hpl, hdc, hdl, ⟨hkc, hsc⟩, ⟨hkl, hsl⟩, skew, ⟨hyc, hyl, hskew⟩, htolerance, hcovers⟩
    exact ⟨⟨hv, ⟨hpc, hpl⟩, ⟨hdc, hdl⟩, ⟨hsc, hsl⟩,
      ⟨skew, hskew, (tolerance_iff (skew_lt hskew) maxSkewSeconds).mp htolerance⟩, hcovers⟩, ⟨hkc, hkl⟩, hyc, hyl⟩
  · rintro ⟨⟨hv, ⟨hpc, hpl⟩, ⟨hdc, hdl⟩, ⟨hsc, hsl⟩, ⟨skew, hskew, hle⟩, hcovers⟩, ⟨hkc, hkl⟩, hyc, hyl⟩
    exact ⟨hv, hpc, hpl, hdc, hdl, ⟨hkc, hsc⟩, ⟨hkl, hsl⟩, skew, ⟨hyc, hyl, hskew⟩,
      (tolerance_iff (skew_lt hskew) maxSkewSeconds).mpr hle, hcovers⟩

/-! ## Agreement -/

/-- Where the counts are kept, a pair that goes by one reading of the digests goes by the other. -/
theorem supported_congr {custody liabilities : SignedReport} (hc : CountsKept sha256 custody)
    (hl : CountsKept sha256 liabilities) {custodyKey liabilitiesKey : String} {statement : CoverageStatement}
    {maxSkewSeconds : U64} :
    Supported ed (readDigest sha256) custodyKey liabilitiesKey custody liabilities statement maxSkewSeconds ↔
      Supported ed (reportDigest sha256) custodyKey liabilitiesKey custody liabilities statement
        maxSkewSeconds := by
  constructor
  · rintro ⟨hv, hp, hn, hs, hm, hcovers⟩
    rw [hc, hl] at hn hs
    exact ⟨hv, hp, hn, hs, hm, hcovers⟩
  · rintro ⟨hv, hp, hn, hs, hm, hcovers⟩
    rw [← hc, ← hl] at hn hs
    exact ⟨hv, hp, hn, hs, hm, hcovers⟩

variable (sha256 ed) in
/-- What Rust supports, under keys that are spelled as they are given, keeps its counts, and its years
    are above the first century. -/
def KeptInBrowser (custody liabilities : SignedReport) (statement : CoverageStatement)
    (custodyKey liabilitiesKey : String) (maxSkewSeconds : U64) : Prop :=
  Supported ed (reportDigest sha256) custodyKey liabilitiesKey custody liabilities statement maxSkewSeconds →
    SameSpelling custody.signature.publicKey custodyKey ∧
        SameSpelling liabilities.signature.publicKey liabilitiesKey →
      (CountsKept sha256 custody ∧ CountsKept sha256 liabilities) ∧
        ¬ FirstCentury custody.report.snapshotTime ∧ ¬ FirstCentury liabilities.report.snapshotTime

variable (sha256 ed) in
/-- What the browser supports, under keys that are the given ones in lower case, keeps its counts, and
    its keys are spelled as they are given. -/
def SpelledInRust (toLowerCase : JsString → JsString) (custody liabilities : SignedReport)
    (statement : CoverageStatement) (custodyKey liabilitiesKey : String) (maxSkewSeconds : U64) : Prop :=
  Supported ed (readDigest sha256) (trimmed custodyKey) (trimmed liabilitiesKey) custody liabilities statement
      maxSkewSeconds →
    AlikeInLower toLowerCase custody.signature.publicKey custodyKey ∧
        AlikeInLower toLowerCase liabilities.signature.publicKey liabilitiesKey →
    ¬ FirstCentury custody.report.snapshotTime ∧ ¬ FirstCentury liabilities.report.snapshotTime →
      (CountsKept sha256 custody ∧ CountsKept sha256 liabilities) ∧
        SameSpelling custody.signature.publicKey custodyKey ∧
          SameSpelling liabilities.signature.publicKey liabilitiesKey

variable (sha256 ed) in
/-- The two checks agree exactly when what either supports has its counts kept, its years above the
    first century, and its keys spelled as the caller spells them. -/
theorem verdicts_agree_iff (toLowerCase : JsString → JsString) {jc jl js : Json}
    {custody liabilities : SignedReport} {statement : CoverageStatement}
    (hc : Wire.signedReport.decode jc = some custody) (hl : Wire.signedReport.decode jl = some liabilities)
    (hs : Wire.coverageStatement.decode js = some statement)
    (tc : Browser.IsSignedReport (Js.ofJson jc)) (tl : Browser.IsSignedReport (Js.ofJson jl))
    (ts : Browser.IsCoverageStatement (Js.ofJson js)) (custodyKey liabilitiesKey : String)
    (maxSkewSeconds : U64) :
    (Browser.verifyCoverage toLowerCase sha256 ed (Js.ofJson jc) (Js.ofJson jl) (Js.ofJson js)
        (ofString custodyKey) (ofString liabilitiesKey) (Binary64.ofNat maxSkewSeconds.val) = .ok () ↔
      ∃ outcome, verifyCoverage sha256 ed custody liabilities statement custodyKey liabilitiesKey
        maxSkewSeconds = .ok outcome ∧ outcome.fullyCovered = true) ↔
    KeptInBrowser sha256 ed custody liabilities statement custodyKey liabilitiesKey maxSkewSeconds ∧
      SpelledInRust sha256 ed toLowerCase custody liabilities statement custodyKey liabilitiesKey
        maxSkewSeconds := by
  have hkept : Supported ed (readDigest sha256) (trimmed custodyKey) (trimmed liabilitiesKey) custody liabilities
        statement maxSkewSeconds →
      Supported ed (reportDigest sha256) custodyKey liabilitiesKey custody liabilities statement maxSkewSeconds →
      CountsKept sha256 custody ∧ CountsKept sha256 liabilities := fun hread h =>
    ⟨countsKept_of_named hread.named.1 h.named.1, countsKept_of_named hread.named.2 h.named.2⟩
  rw [browser_iff (readsSigned_of_decode hc tc) (readsSigned_of_decode hl tl)
    (readsStatement_of_decode hs ts.object), verifyCoverage_iff, agree_iff hkept]
  · refine and_congr (forall_congr' fun _ => forall_congr' fun hspelling => ?_) (forall_congr' fun _ => and_imp)
    exact and_congr_right fun _ => and_iff_right
      ⟨hspelling.1.alikeInLower toLowerCase, hspelling.2.alikeInLower toLowerCase⟩
  · rintro ⟨hcustody, hliabilities⟩ ⟨hck, hlk⟩
    rw [hck.2, hlk.2]
    exact supported_congr hcustody hliabilities

/-! ## Two pairs judged differently -/

/-- What `toLowerCase` does to ASCII text. -/
def asciiLowerCase (s : JsString) : JsString := s.map fun u => if 0x41 ≤ u ∧ u ≤ 0x5A then u + 0x20 else u

def signedAt (time profile : String) (rootSums : Sums.AmountMap) : SignedReport :=
  Produce.signReport Sha256.sha256 (goldenEd25519 [])
    { sampleReport reportFormatVersion profile rootSums with snapshotTime := time } goldenSigner

def custodyAt (time : String) : SignedReport := signedAt time "coverage.custody" (ofList [("held/USDA", 7)])
def liabilitiesAt (time : String) : SignedReport := signedAt time "solvency.liabilities" (ofList [("USDA", 7)])

def statementAt (time : String) : CoverageStatement where
  formatVersion := coverageFormatVersion
  custodyReportDigest := reportDigestHex Sha256.sha256 (custodyAt time).report
  liabilitiesReportDigest := reportDigestHex Sha256.sha256 (liabilitiesAt time).report
  custodyBasis := ""

def signerKey : String := goldenSigner.publicKeyHex (goldenEd25519 [])
def upperCaseKey : String := String.ofList (signerKey.toList.map Char.toUpper)

theorem signedAt_countsKept (time profile : String) (rootSums : Sums.AmountMap) :
    CountsKept Sha256.sha256 (signedAt time profile rootSums) :=
  countsKept_of_lt (by decide : (1 : U64).val < 2 ^ 53) (by decide : (0 : U64).val < 2 ^ 53)

theorem signedAt_verifies {key : String} (time profile : String) (rootSums : Sums.AmountMap)
    (hkey : hexDecodeN 32 key = some ((goldenEd25519 []).publicKey goldenSigner.seed)) :
    verifySignature (goldenEd25519 []) key (reportDigest Sha256.sha256 (signedAt time profile rootSums).report)
      (signedAt time profile rootSums).signature.value = .ok () := by
  have hown := Sign.recorded_acceptsOwn goldenSigner.seed
    (Sign.bytesOf 32 0x8a88e3dd7409f195fd52db2d3cba5d72ca6709bf1d94121bf3748801b40f6f5c) []
  simp only [verifySignature, hkey, signedAt, Produce.signReport, Sign.ReportSigner.signDigest,
    hexDecodeN_encode, bind_eq_ok, okOr_eq_ok]
  exact ⟨_, rfl, _, rfl, (), ensure_eq_ok.mpr (hown _ []).1, ensure_eq_ok.mpr (hown _ _).2⟩

theorem pairAt_supported {time key : String}
    (hkey : hexDecodeN 32 key = some ((goldenEd25519 []).publicKey goldenSigner.seed))
    (htime : Instant.skew time time = some 0) :
    Supported (goldenEd25519 []) (reportDigest Sha256.sha256) key key (custodyAt time) (liabilitiesAt time)
      (statementAt time) 0 where
  version := rfl
  profiles := ⟨rfl, rfl⟩
  named := ⟨rfl, rfl⟩
  signed := ⟨signedAt_verifies time _ _ hkey, signedAt_verifies time _ _ hkey⟩
  moment := ⟨0, htime, le_refl 0⟩
  covers := by
    have hsums : ∀ a ∈ (ofList [("USDA", (7 : U128))]).keys, amount (ofList [("USDA", 7)]) a ≤
        amount (ofList [("held/USDA", 7)]) (Merkle.qualified "held" a) := by decide +kernel
    exact hsums

theorem signerKey_decodes : hexDecodeN 32 signerKey = some ((goldenEd25519 []).publicKey goldenSigner.seed) :=
  hexDecodeN_encode _

/-- The verdict of the browser on the pair, as it is rendered. -/
def browserVerdict (time key : String) : Except Browser.CoverageFailure Unit :=
  Browser.verifyCoverage asciiLowerCase Sha256.sha256 (goldenEd25519 [])
    (Js.ofJson (Wire.signedReport.encode (custodyAt time)))
    (Js.ofJson (Wire.signedReport.encode (liabilitiesAt time)))
    (Js.ofJson (Wire.coverageStatement.encode (statementAt time))) (ofString key) (ofString key)
    (Binary64.ofNat (0 : U64).val)

def Covered (time key : String) : Prop :=
  ∃ outcome, verifyCoverage Sha256.sha256 (goldenEd25519 []) (custodyAt time) (liabilitiesAt time)
    (statementAt time) key key 0 = .ok outcome ∧ outcome.fullyCovered = true

theorem verdicts_agree_iff_pair :
    (browserVerdict "2026-09-09T10:00:00Z" signerKey = .ok () ↔ Covered "2026-09-09T10:00:00Z" signerKey) ↔
    KeptInBrowser Sha256.sha256 (goldenEd25519 []) (custodyAt "2026-09-09T10:00:00Z")
      (liabilitiesAt "2026-09-09T10:00:00Z") (statementAt "2026-09-09T10:00:00Z") signerKey signerKey 0 ∧
    SpelledInRust Sha256.sha256 (goldenEd25519 []) asciiLowerCase (custodyAt "2026-09-09T10:00:00Z")
      (liabilitiesAt "2026-09-09T10:00:00Z") (statementAt "2026-09-09T10:00:00Z") signerKey signerKey 0 :=
  verdicts_agree_iff Sha256.sha256 (goldenEd25519 []) asciiLowerCase
    (Wire.signedReport.decode_encode (custodyAt "2026-09-09T10:00:00Z"))
    (Wire.signedReport.decode_encode (liabilitiesAt "2026-09-09T10:00:00Z"))
    (Wire.coverageStatement.decode_encode (statementAt "2026-09-09T10:00:00Z"))
    (Rendering.isSignedReport _) (Rendering.isSignedReport _) (Rendering.isCoverageStatement _)
    signerKey signerKey 0

theorem covered_iff {time key : String} : Covered time key ↔
    Supported (goldenEd25519 []) (reportDigest Sha256.sha256) key key (custodyAt time) (liabilitiesAt time)
      (statementAt time) 0 ∧ SameSpelling signerKey key ∧ SameSpelling signerKey key :=
  verifyCoverage_iff

theorem browserVerdict_iff {time key : String} : browserVerdict time key = .ok () ↔
    Supported (goldenEd25519 []) (readDigest Sha256.sha256) (trimmed key) (trimmed key) (custodyAt time)
      (liabilitiesAt time) (statementAt time) 0 ∧
    (AlikeInLower asciiLowerCase signerKey key ∧ AlikeInLower asciiLowerCase signerKey key) ∧
    ¬ FirstCentury time ∧ ¬ FirstCentury time :=
  browser_iff (readsSigned_of_decode (Wire.signedReport.decode_encode _) (Rendering.isSignedReport _))
    (readsSigned_of_decode (Wire.signedReport.decode_encode _) (Rendering.isSignedReport _))
    (readsStatement_of_decode (Wire.coverageStatement.decode_encode _) ⟨_, rfl⟩) key key 0

/-- A trusted key in upper case passes in the browser alone; a pair of the year 50, in Rust alone. -/
theorem verdicts_disagree :
    (browserVerdict "2026-09-09T10:00:00Z" upperCaseKey = .ok () ∧
      ¬ Covered "2026-09-09T10:00:00Z" upperCaseKey) ∧
    Covered "0050-01-01T00:00:00Z" signerKey ∧ browserVerdict "0050-01-01T00:00:00Z" signerKey ≠ .ok () := by
  have hupper : hexDecodeN 32 upperCaseKey = some ((goldenEd25519 []).publicKey goldenSigner.seed) := by
    decide +kernel
  have htrimmed : trimmed upperCaseKey = upperCaseKey := trimmed_of_hex hupper
  have hlower : AlikeInLower asciiLowerCase signerKey upperCaseKey := by
    unfold AlikeInLower
    decide +kernel
  have hspelling : SameSpelling signerKey signerKey := ⟨rfl, trimmed_of_hex signerKey_decodes⟩
  have hyear : ¬ FirstCentury "2026-09-09T10:00:00Z" := by
    unfold FirstCentury
    decide +kernel
  have htime : Instant.skew "2026-09-09T10:00:00Z" "2026-09-09T10:00:00Z" = some 0 := by decide +kernel
  have hearly : Instant.skew "0050-01-01T00:00:00Z" "0050-01-01T00:00:00Z" = some 0 := by decide +kernel
  have hcentury : FirstCentury "0050-01-01T00:00:00Z" := by
    unfold FirstCentury
    decide +kernel
  refine ⟨⟨browserVerdict_iff.mpr ?_, fun h => ?_⟩, covered_iff.mpr ?_, fun h => ?_⟩
  · refine ⟨?_, ⟨hlower, hlower⟩, hyear, hyear⟩
    rw [htrimmed]
    exact (supported_congr (signedAt_countsKept _ _ _) (signedAt_countsKept _ _ _)).mpr
      (pairAt_supported hupper htime)
  · exact absurd (covered_iff.mp h).2.1.1 (by decide +kernel)
  · exact ⟨pairAt_supported signerKey_decodes hearly, hspelling, hspelling⟩
  · exact (browserVerdict_iff.mp h).2.2.1 hcentury

end AssuranceLayer.CoverageAgreement
