import AssuranceLayer.BrowserThrows
import AssuranceLayer.Reading

set_option autoImplicit false

/-!
The check of a report's version and manifest, in the browser and in Rust: the same reports pass.
-/
namespace AssuranceLayer.ManifestAgreement
open Fallible Utf16 JavaScript Reading SortedMap BrowserThrows
open Binary64 (Number ofNat)
open Document (Report Manifest Disclosure)
open Browser (entriesOf isPositive)

/-! ## The fields with data -/

/-- Whether there is data, for the fields of the body in their order. -/
def bodyData (report : Js) (accounts : Number) : List Bool :=
  let disclosures := report.prop "disclosures"
  [!(entriesOf (report.prop "root_sums")).isEmpty, !(entriesOf (report.prop "mark_prices")).isEmpty,
    !(entriesOf (disclosures.prop "bad_debt")).isEmpty, isPositive accounts,
    !(entriesOf (disclosures.prop "excluded_house_totals")).isEmpty]

def carriedOf (flags : List Bool) : List String :=
  (Browser.reportResidentFields.zip flags).filterMap fun p => if p.2 then some p.1 else none

theorem carriesData_eq {report : Js} (h : ReportShape report) {n : Number}
    (hn : (accountsOf report).toNumber = (.ok n : Browser.Throws Number)) :
    Browser.carriesData report = .ok (carriedOf (bodyData report n)) := by
  rw [accountsOf] at hn
  simp only [Browser.carriesData, h.object.get, h.disclosures.orElse, h.disclosures.get, ok_bind, hn]
  rfl

theorem mem_carriedOf {path : String} {a b c d e : Bool} : path ∈ carriedOf [a, b, c, d, e] ↔
    path = "root_sums" ∧ a = true ∨ path = "mark_prices" ∧ b = true ∨
      path = "disclosures.bad_debt" ∧ c = true ∨ path = "disclosures.excluded_house_accounts" ∧ d = true ∨
      path = "disclosures.excluded_house_totals" ∧ e = true := by
  have hzip : Browser.reportResidentFields.zip [a, b, c, d, e] = [("root_sums", a), ("mark_prices", b),
      ("disclosures.bad_debt", c), ("disclosures.excluded_house_accounts", d),
      ("disclosures.excluded_house_totals", e)] := rfl
  simp only [carriedOf, hzip, List.mem_filterMap, List.mem_cons, List.not_mem_nil, or_false,
    Option.ite_none_right_eq_some, Option.some.injEq, exists_eq_or_imp, exists_eq_left]
  simp only [and_comm, eq_comm]

theorem carriesData_iff {r : Report} {path : String} : Document.carriesData r path = true ↔
    path ∈ carriedOf [!r.rootSums.isEmpty, !r.markPrices.isEmpty, !r.disclosures.badDebt.isEmpty,
      0 < r.disclosures.excludedHouseAccounts, !r.disclosures.excludedHouseTotals.isEmpty] := by
  rw [mem_carriedOf, Document.carriesData]
  split_ifs <;> simp_all

theorem isPositive_count (n : U64) : isPositive (ofNat n.val) = decide (0 < n) := by
  rw [isPositive, Bool.eq_iff_iff, decide_eq_true_eq, decide_eq_true_eq, Fin.lt_def]
  by_cases hn : n.val < 2 ^ 53
  · rw [Binary64.ofNat_of_lt hn]
    simp [Number.lt?]
  · obtain ⟨k, hk, hle, -⟩ := Binary64.ofNat_of_le (not_lt.mp hn) n.isLt
    rw [hk]
    have hpos : 0 < k := by omega
    have hn0 : 0 < n.val := by omega
    simp [Number.lt?, hpos, hn0]

theorem entriesOf_reads {v : Js} {m : Sums.AmountMap} (h : ReadsAmounts v m) :
    (entriesOf v).isEmpty = m.isEmpty := by
  obtain ⟨props, rfl, hm⟩ := h
  exact hm.isEmpty

theorem accountsOf_reads {v : Js} {r : Report} (h : ReadsReport v r) :
    accountsOf v = .num (ofNat r.disclosures.excludedHouseAccounts.val) := by
  rw [accountsOf, h.disclosures.excludedHouseAccounts]
  rfl

theorem bodyData_reads {v : Js} {r : Report} (h : ReadsReport v r) :
    bodyData v (ofNat r.disclosures.excludedHouseAccounts.val) =
      [!r.rootSums.isEmpty, !r.markPrices.isEmpty, !r.disclosures.badDebt.isEmpty,
        decide (0 < r.disclosures.excludedHouseAccounts), !r.disclosures.excludedHouseTotals.isEmpty] := by
  rw [bodyData, entriesOf_reads h.rootSums, entriesOf_reads h.markPrices,
    entriesOf_reads h.disclosures.badDebt, isPositive_count, entriesOf_reads h.disclosures.excludedHouseTotals]

/-! ## The check -/

theorem fieldPasses_iff {v : Js} {m : Manifest} {r : Report} (hm : ReadsManifest v m) {carried : List String}
    (hcarried : ∀ path, path ∈ carried ↔ Document.carriesData r path = true) :
    (∀ e ∈ entriesOf (v.prop "fields"), FieldPasses carried e) ↔ Verify.ManifestConsistent r m := by
  obtain ⟨props, hprops, hfields⟩ := hm.fields
  have hmem : ∀ {k : String} {l : List String}, ofString k ∈ l.map ofString ↔ k ∈ l :=
    List.mem_map_of_injective fun _ _ heq => ofString_inj.mp heq
  have hpasses : ∀ {k : String} {d : Disclosure} {w : Js}, ReadsState w d → (FieldPasses carried (ofString k, w) ↔
      k ∈ Document.knownFields ∧ (k ∈ Document.reportResidentFields →
        (d = .published ↔ Document.carriesData r k = true))) := by
    rintro k d _ rfl
    have hpublished : (Js.string d.asStr).is (ofString "published") = true ↔ d = .published := by
      rw [is_string]
      cases d <;> decide
    rw [FieldPasses, hmem, hmem, hmem, hpublished, hcarried]
    exact Iff.rfl
  rw [hprops, Verify.ManifestConsistent]
  constructor
  · intro h e he
    obtain ⟨w, hw, hstate⟩ := hfields.lookup (get?_eq_some.mpr he)
    exact (hpasses hstate).mp (h _ ((lookup_eq_some hfields.nodup).mp hw))
  · rintro h ⟨name, w⟩ he
    obtain ⟨k, d, rfl, hget, hstate⟩ := hfields.sound _ he
    exact (hpasses hstate).mpr (h (k, d) (get?_eq_some.mp hget))

theorem reportShape {v : Js} {r : Report} {m : Manifest} (h : ReadsReport v r)
    (hm : ReadsManifest (v.prop "manifest") m) : ReportShape v :=
  ⟨h.object, .inr hm.object, h.disclosures.object⟩

theorem checkReportVersionAndManifest_agrees {v : Js} {r : Report} (h : ReadsReport v r) :
    Browser.checkReportVersionAndManifest v = .ok () ↔ Verify.checkReportVersionAndManifest r = .ok () := by
  have hversion : (v.prop "format_version").is Browser.reportFormatVersion = true ↔
      r.formatVersion = Document.reportFormatVersion := by
    rw [h.formatVersion]
    exact is_string
  have hversionV2 : (v.prop "format_version").is Browser.reportFormatVersionV2 = true ↔
      r.formatVersion = Document.reportFormatVersionV2 := by
    rw [h.formatVersion]
    exact is_string
  rw [Verify.checkReportVersionAndManifest_eq_ok]
  have hmanifest := h.manifest
  cases hr : r.manifest with
  | none =>
    have hfalsy : (v.prop "manifest").truthy = false := by
      rw [hr] at hmanifest
      rcases hmanifest with hm | hm <;> rw [hm] <;> rfl
    simp only [Browser.checkReportVersionAndManifest, uncaught_get h.object, ok_bind, hfalsy]
    by_cases h1 : r.formatVersion = Document.reportFormatVersion
    · rw [if_pos (hversion.mpr h1)]
      simp [h1, ensure]
    · rw [if_neg (mt hversion.mp h1)]
      split_ifs <;> simp_all [Browser.refuse]
  | some m =>
    have hm : ReadsManifest (v.prop "manifest") m := by rwa [hr] at hmanifest
    have hshape := reportShape h hm
    have hcarried := carriesData_eq hshape (show (accountsOf v).toNumber = _ by rw [accountsOf_reads h]; rfl)
    have hfields : ((v.prop "manifest").prop "fields").orElse (.obj []) = (v.prop "manifest").prop "fields" := by
      obtain ⟨props, hprops, -⟩ := hm.fields
      rw [hprops]
      rfl
    have hpasses := fieldPasses_iff hm (r := r) fun _ => carriesData_iff.symm
    rw [checkReportVersionAndManifest_eq_ok hshape, ManifestPasses, fieldsOf, hfields, hcarried, bodyData_reads h]
    have hne : v.prop "manifest" ≠ .undefined := by
      obtain ⟨props, hprops⟩ := hm.object
      simp [hprops]
    simp only [hne, and_false, false_or, hm.object, true_and, Except.ok.injEq, exists_eq_left', hpasses, hversionV2,
      Option.some.injEq, reduceCtorEq]

end AssuranceLayer.ManifestAgreement
