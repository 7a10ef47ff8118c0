import AssuranceLayer.BrowserGroup

set_option autoImplicit false

/-!
When the browser's checks throw. Documents whose outer values are objects are read outside every
`try` in a few places only, and each of these throws on some value of a field.
-/
namespace AssuranceLayer.BrowserThrows
open Fallible Utf16 JavaScript Sign Browser
open Profile (ProfileRules qualifiedPrefix)

/-! ## Rejected promises -/

section Rejects
variable {α β : Type}

/-- The promise is rejected, and not because Ed25519 is unavailable. -/
def Rejects (x : Checks α) : Prop :=
  ∃ t, x = .error (.throw t) ∧ t ≠ .error .ed25519Unavailable

theorem rejects_bind {x : Checks α} {f : α → Checks β} :
    Rejects (x >>= f) ↔ Rejects x ∨ ∃ a, x = .ok a ∧ Rejects (f a) := by
  simp only [Rejects, bind_eq_error, or_and_right, exists_or]
  refine or_congr_right ⟨?_, ?_⟩
  · rintro ⟨t, ⟨a, ha, hfa⟩, ht⟩
    exact ⟨a, ha, t, hfa, ht⟩
  · rintro ⟨a, ha, t, hfa, ht⟩
    exact ⟨t, ⟨a, ha, hfa⟩, ht⟩

@[simp] theorem not_rejects_ok (a : α) : ¬ Rejects (.ok a : Checks α) := by
  rintro ⟨t, h, _⟩
  cases h

@[simp] theorem not_rejects_pure (a : α) : ¬ Rejects (pure a : Checks α) := not_rejects_ok a

@[simp] theorem not_rejects_refuse (f : VerificationFailure) : ¬ Rejects (refuse f : Checks α) := by
  rintro ⟨t, h, _⟩
  cases h

@[simp] theorem not_rejects_ensure (p : Prop) [Decidable p] (f : VerificationFailure) :
    ¬ Rejects (ensure p (.fail f)) := by
  rintro ⟨t, h, _⟩
  rw [ensure_eq_error] at h
  cases h.2

@[simp] theorem not_rejects_caught (x : Throws α) : ¬ Rejects (caught x) := by
  rintro ⟨t, h, _⟩
  cases x <;> cases h

theorem rejects_uncaught {x : Throws α} (hx : x ≠ .error (.error .ed25519Unavailable)) :
    Rejects (uncaught x) ↔ ∃ t, x = .error t := by
  constructor
  · rintro ⟨t, h, _⟩
    cases x with
    | ok a => cases h
    | error e => exact ⟨e, rfl⟩
  · rintro ⟨t, rfl⟩
    exact ⟨t, rfl, fun ht => hx (by rw [ht])⟩

theorem uncaught_eq_ok {x : Throws α} {a : α} : uncaught x = .ok a ↔ x = .ok a := mapError_eq_ok

theorem rejects_forM {f : α → Checks Unit} {l : List α} : Rejects (forM l f) ↔
    ∃ pre x post, l = pre ++ x :: post ∧ (∀ y ∈ pre, f y = .ok ()) ∧ Rejects (f x) := by
  simp only [Rejects, forM_eq_error_iff]
  constructor
  · rintro ⟨t, ⟨pre, x, post, hl, hpre, hx⟩, ht⟩
    exact ⟨pre, x, post, hl, hpre, t, hx, ht⟩
  · rintro ⟨pre, x, post, hl, hpre, t, hx, ht⟩
    exact ⟨t, ⟨pre, x, post, hl, hpre, hx⟩, ht⟩

/-- The first element that does not pass is one the check throws at. -/
def FirstThrows (passes throws : α → Prop) (l : List α) : Prop :=
  ∃ pre x post, l = pre ++ x :: post ∧ (∀ y ∈ pre, passes y) ∧ throws x

theorem rejects_forM_iff {f : α → Checks Unit} {passes throws : α → Prop}
    (hpass : ∀ x, f x = .ok () ↔ passes x) (hthrow : ∀ x, Rejects (f x) ↔ throws x) {l : List α} :
    Rejects (forM l f) ↔ FirstThrows passes throws l := by
  simp only [rejects_forM, FirstThrows, hpass, hthrow]

end Rejects

/-! ## Objects -/

theorem uncaught_get {v : Js} (h : IsObject v) (name : String) :
    uncaught (v.get name) = .ok (v.prop name) := by
  rw [h.get]
  rfl

structure ReportShape (report : Js) : Prop where
  object : IsObject report
  manifest : report.prop "manifest" = .undefined ∨ IsObject (report.prop "manifest")
  disclosures : IsObject (report.prop "disclosures")

structure SignedShape (signed : Js) : Prop where
  object : IsObject signed
  signature : IsObject (signed.prop "signature")
  report : ReportShape (signed.prop "report")

/-! ## Version and manifest -/

/-- The accounts, as they are turned into a number. -/
def accountsOf (report : Js) : Js :=
  ((report.prop "disclosures").prop "excluded_house_accounts").orElse (.num (.finite 0))

def fieldsOf (report : Js) : List (JsString × Js) :=
  entriesOf (((report.prop "manifest").prop "fields").orElse (.obj []))

def FieldPasses (carried : List String) (e : JsString × Js) : Prop :=
  e.1 ∈ knownFields.map ofString ∧ (e.1 ∈ reportResidentFields.map ofString →
    (e.2.is (ofString "published") = true ↔ e.1 ∈ carried.map ofString))

def FieldThrows (carried : List String) (e : JsString × Js) : Prop :=
  e.1 ∈ reportResidentFields.map ofString ∧ e.1 ∈ carried.map ofString ∧
    e.2.is (ofString "published") = false ∧ e.2.isPrintable = false

def ManifestPasses (report : Js) : Prop :=
  (report.prop "format_version").is reportFormatVersion = true ∧ report.prop "manifest" = .undefined ∨
    (report.prop "format_version").is reportFormatVersionV2 = true ∧ IsObject (report.prop "manifest") ∧
      ∃ carried, carriesData report = .ok carried ∧ ∀ e ∈ fieldsOf report, FieldPasses carried e

/-- The accounts have no number, or the first field refused is one that carries data under a state
    without a text. -/
def ManifestThrows (report : Js) : Prop :=
  (report.prop "format_version").is reportFormatVersionV2 = true ∧ IsObject (report.prop "manifest") ∧
    ((accountsOf report).isPrintable = false ∨ ∃ carried, carriesData report = .ok carried ∧
      FirstThrows (FieldPasses carried) (FieldThrows carried) (bytewise (fieldsOf report)))

theorem text_ne_unavailable (v : Js) : (v.text : Throws JsString) ≠ .error (.error .ed25519Unavailable) := by
  rw [ne_eq, text_eq_error]
  simp

theorem rejects_text (v : Js) : Rejects (uncaught v.text) ↔ v.isPrintable = false := by
  rw [rejects_uncaught (text_ne_unavailable v)]
  simp [text_eq_error]

theorem resident_known : ∀ path ∈ reportResidentFields.map ofString, path ∈ knownFields.map ofString :=
  fun _ h => List.map_subset _ (List.take_subset 5 knownFields) h

theorem checkManifestField_eq_ok {carried : List String} {e : JsString × Js} :
    checkManifestField carried e = .ok () ↔ FieldPasses carried e := by
  unfold checkManifestField FieldPasses
  by_cases hknown : e.1 ∈ knownFields.map ofString
  · by_cases hresident : e.1 ∈ reportResidentFields.map ofString
    · rw [if_neg (not_not.mpr hknown), if_neg (not_not.mpr hresident)]
      by_cases hcarried : e.1 ∈ carried.map ofString
      · cases hstate : e.2.is (ofString "published") <;>
          simp [hknown, hresident, hcarried, refuse, bind_eq_ok]
      · cases hstate : e.2.is (ofString "published") <;> simp [hknown, hresident, hcarried, refuse]
    · rw [if_neg (not_not.mpr hknown), if_pos hresident]
      simp [hknown, hresident]
  · rw [if_pos hknown]
    simp [hknown, refuse]

theorem rejects_checkManifestField {carried : List String} {e : JsString × Js} :
    Rejects (checkManifestField carried e) ↔ FieldThrows carried e := by
  unfold checkManifestField FieldThrows
  by_cases hresident : e.1 ∈ reportResidentFields.map ofString
  · have hknown := resident_known e.1 hresident
    rw [if_neg (not_not.mpr hknown), if_neg (not_not.mpr hresident)]
    by_cases hcarried : e.1 ∈ carried.map ofString
    · cases hstate : e.2.is (ofString "published") <;>
        simp [hresident, hcarried, rejects_bind, rejects_text]
    · cases hstate : e.2.is (ofString "published") <;> simp [hcarried]
  · by_cases hknown : e.1 ∈ knownFields.map ofString
    · rw [if_neg (not_not.mpr hknown), if_pos hresident]
      simp [hresident]
    · rw [if_pos hknown]
      simp [hresident]

theorem carriesData_eq_error {report : Js} (h : ReportShape report) {t : Thrown BrowserError} :
    carriesData report = .error t ↔ (accountsOf report).isPrintable = false ∧ t = .typeError := by
  have hnumber : (accountsOf report).toNumber = .error t ↔
      (accountsOf report).isPrintable = false ∧ t = .typeError := toNumber_eq_error
  rw [← hnumber]
  simp only [carriesData, h.object.get, h.disclosures.orElse, h.disclosures.get, ok_bind, accountsOf]
  rw [bind_eq_error]
  simp [pure, Except.pure]

theorem is_unique {v : Js} {s t : JsString} (hs : v.is s = true) (hne : s ≠ t) : v.is t = false := by
  cases v with
  | str u =>
    simp only [Js.is, Js.strictEq, decide_eq_true_eq, decide_eq_false_iff_not] at hs ⊢
    rw [hs]
    exact hne
  | _ => rfl

theorem version_ne : reportFormatVersion ≠ reportFormatVersionV2 := by
  rw [reportFormatVersion, reportFormatVersionV2, ne_eq, ofString_inj]
  decide

/-- What the check does, read from the fields it reads. -/
theorem checkReportVersionAndManifest_eq {report : Js} (h : ReportShape report) :
    checkReportVersionAndManifest report =
      if (report.prop "format_version").is reportFormatVersion then
        ensure ((report.prop "manifest").truthy = false) (.fail .manifestOnV1)
      else if !(report.prop "format_version").is reportFormatVersionV2 then
        refuse (.unsupportedVersion "report.format_version" (report.prop "format_version"))
      else if !(report.prop "manifest").truthy then refuse .manifestMissing
      else uncaught (carriesData report) >>= fun carried =>
        forM (bytewise (fieldsOf report)) (checkManifestField carried) := by
  simp only [checkReportVersionAndManifest, uncaught_get h.object, ok_bind]
  rcases h.manifest with hm | hm
  · simp only [hm, Js.truthy, Bool.not_false, if_true]
  · simp only [uncaught_get hm, ok_bind, fieldsOf]

theorem manifest_truthy {report : Js} (h : ReportShape report) :
    (report.prop "manifest").truthy = true ↔ IsObject (report.prop "manifest") := by
  rcases h.manifest with hm | hm
  · rw [hm]
    simp [Js.truthy, IsObject]
  · simp [hm, hm.truthy]

theorem mem_bytewise {α : Type} {entries : List (JsString × α)} {e : JsString × α} :
    e ∈ bytewise entries ↔ e ∈ entries :=
  (List.perm_insertionSort _ entries).mem_iff

theorem checkReportVersionAndManifest_eq_ok {report : Js} (h : ReportShape report) :
    checkReportVersionAndManifest report = .ok () ↔ ManifestPasses report := by
  have htruthy := manifest_truthy h
  rw [checkReportVersionAndManifest_eq h, ManifestPasses]
  cases h1 : (report.prop "format_version").is reportFormatVersion with
  | true =>
    rw [is_unique h1 version_ne, if_pos rfl, ensure_eq_ok]
    rcases h.manifest with hm | hm
    · simp [hm, Js.truthy]
    · have hne : report.prop "manifest" ≠ .undefined := by
        obtain ⟨props, hp⟩ := hm
        simp [hp]
      simp [hm.truthy, hne]
  | false =>
    cases h2 : (report.prop "format_version").is reportFormatVersionV2 with
    | false => simp [refuse]
    | true =>
      cases h3 : (report.prop "manifest").truthy with
      | false =>
        have hnot : ¬ IsObject (report.prop "manifest") := by simp [← htruthy, h3]
        simp [refuse, hnot]
      | true =>
        simp only [Bool.false_eq_true, if_false, Bool.not_true, false_and, false_or, true_and,
          htruthy.mp h3, bind_eq_ok, uncaught_eq_ok, forM_eq_ok, checkManifestField_eq_ok, mem_bytewise]

theorem rejects_checkReportVersionAndManifest {report : Js} (h : ReportShape report) :
    Rejects (checkReportVersionAndManifest report) ↔ ManifestThrows report := by
  have htruthy := manifest_truthy h
  rw [checkReportVersionAndManifest_eq h, ManifestThrows]
  cases h1 : (report.prop "format_version").is reportFormatVersion with
  | true =>
    rw [is_unique h1 version_ne]
    simp
  | false =>
    cases h2 : (report.prop "format_version").is reportFormatVersionV2 with
    | false => simp
    | true =>
      cases h3 : (report.prop "manifest").truthy with
      | false =>
        have hnot : ¬ IsObject (report.prop "manifest") := by simp [← htruthy, h3]
        simp [hnot]
      | true =>
        have hne : carriesData report ≠ .error (.error .ed25519Unavailable) := by
          rw [ne_eq, carriesData_eq_error h]
          simp
        simp only [Bool.false_eq_true, if_false, Bool.not_true, true_and, htruthy.mp h3, rejects_bind,
          rejects_uncaught hne, carriesData_eq_error h, exists_and_left, exists_eq, and_true,
          uncaught_eq_ok, rejects_forM_iff (fun _ => checkManifestField_eq_ok)
            fun _ => rejects_checkManifestField]

/-! ## Amounts -/

def IsAmount (v : Js) : Prop := ∃ n, parseAmount18dp v = .ok n

/-- The leaf count, as an integer. -/
def IsInteger (v : Js) : Prop := ∃ n, (v.toBigInt : Throws ℤ) = .ok n

theorem not_isAmount {v : Js} : ¬ IsAmount v ↔ ∃ t, parseAmount18dp v = .error t := by
  unfold IsAmount
  cases parseAmount18dp v <;> simp

theorem not_isInteger {v : Js} : ¬ IsInteger v ↔ ∃ t, (v.toBigInt : Throws ℤ) = .error t := by
  unfold IsInteger
  cases (v.toBigInt : Throws ℤ) <;> simp

/-- An error, if there is one, says something else. -/
def NotUnavailable {α : Type} (x : Throws α) : Prop := x ≠ .error (.error .ed25519Unavailable)

theorem NotUnavailable.bind {α β : Type} {x : Throws α} {f : α → Throws β} (hx : NotUnavailable x)
    (hf : ∀ a, NotUnavailable (f a)) : NotUnavailable (x >>= f) := by
  rw [NotUnavailable, ne_eq, bind_eq_error, not_or]
  exact ⟨hx, fun ⟨a, _, ha⟩ => hf a ha⟩

theorem ensure_notUnavailable (p : Prop) [Decidable p] {e : Thrown BrowserError}
    (he : e ≠ .error .ed25519Unavailable) : NotUnavailable (ensure p e) := by
  rw [NotUnavailable, ne_eq, ensure_eq_error]
  exact fun h => he h.2

theorem amountOf_notUnavailable (s : JsString) (int frac : List Char) :
    NotUnavailable (amountOf s int frac) := by
  refine NotUnavailable.bind (ensure_notUnavailable _ (by simp)) fun _ => ?_
  simp [NotUnavailable, pure, Except.pure]

theorem parseText_notUnavailable (s : JsString) : NotUnavailable (parseText s) := by
  refine (ensure_notUnavailable _ (by simp)).bind fun _ => ?_
  refine (ensure_notUnavailable _ (by simp)).bind fun _ => ?_
  refine (ensure_notUnavailable _ (by simp)).bind fun _ => ?_
  exact amountOf_notUnavailable _ _ _

theorem parseArray_notUnavailable (items : List Js) : NotUnavailable (parseArray items) := by
  have htext : ∀ items : List Js, NotUnavailable (Js.arr items).text := fun _ => text_ne_unavailable _
  unfold parseArray
  dsimp only
  split
  · exact (htext _).bind fun _ => by simp [NotUnavailable, raise]
  refine (htext _).bind fun int => ?_
  split
  · exact (htext _).bind fun _ => by simp [NotUnavailable, raise]
  split
  · exact (htext _).bind fun _ => amountOf_notUnavailable _ _ _
  refine (htext _).bind fun frac => ?_
  split
  · exact (htext _).bind fun _ => by simp [NotUnavailable, raise]
  · simp [NotUnavailable]

theorem parseAmount18dp_notUnavailable (v : Js) : NotUnavailable (parseAmount18dp v) := by
  cases v with
  | str s => exact parseText_notUnavailable s
  | arr items => exact parseArray_notUnavailable items
  | _ => simp [NotUnavailable, parseAmount18dp]

theorem rejects_parseAmount18dp (v : Js) : Rejects (uncaught (parseAmount18dp v)) ↔ ¬ IsAmount v := by
  rw [rejects_uncaught (parseAmount18dp_notUnavailable v), not_isAmount]

theorem rejects_toBigInt (v : Js) : Rejects (uncaught v.toBigInt) ↔ ¬ IsInteger v := by
  rw [rejects_uncaught toBigInt_ne_error, not_isInteger]

theorem amountOf_bounds {s : JsString} {int frac : List Char} {n : ℤ} (h : amountOf s int frac = .ok n) :
    0 ≤ n ∧ n ≤ maxAmount := by
  simp only [amountOf, bind_eq_ok, ensure_eq_ok, pure_eq_ok] at h
  obtain ⟨_, hmax, rfl⟩ := h
  exact ⟨by unfold scale; positivity, hmax⟩

theorem parseAmount18dp_bounds {v : Js} {n : ℤ} (h : parseAmount18dp v = .ok n) :
    0 ≤ n ∧ n ≤ maxAmount := by
  cases v with
  | str s =>
    simp only [parseAmount18dp, parseText, bind_eq_ok, ensure_eq_ok] at h
    obtain ⟨_, _, _, _, _, _, h⟩ := h
    exact amountOf_bounds h
  | arr items =>
    unfold parseAmount18dp parseArray at h
    dsimp only at h
    split at h
    · simp [bind_eq_ok, raise] at h
    obtain ⟨int, _, h⟩ := bind_eq_ok.mp h
    split at h
    · simp [bind_eq_ok, raise] at h
    split at h
    · obtain ⟨text, _, h⟩ := bind_eq_ok.mp h
      exact amountOf_bounds h
    obtain ⟨frac, _, h⟩ := bind_eq_ok.mp h
    split at h
    · simp [bind_eq_ok, raise] at h
    · cases h
  | _ => simp [parseAmount18dp] at h

theorem rejects_formatAmount18dp (n : ℤ) :
    Rejects (uncaught (formatAmount18dp n)) ↔ ¬ (0 ≤ n ∧ n ≤ maxAmount) := by
  have hne : formatAmount18dp n ≠ .error (.error .ed25519Unavailable) := by
    simp [formatAmount18dp, bind_eq_error, ensure_eq_error, pure, Except.pure]
  rw [rejects_uncaught hne]
  simp only [formatAmount18dp, bind_eq_error, ensure_eq_error, ensure_eq_ok, pure, Except.pure]
  by_cases h0 : 0 ≤ n <;> by_cases hmax : n ≤ maxAmount <;> simp [h0, hmax]

theorem formatAmount18dp_ok {n : ℤ} (h : 0 ≤ n ∧ n ≤ maxAmount) : ∃ s, formatAmount18dp n = .ok s := by
  simp [formatAmount18dp, bind_eq_ok, h.1, h.2]

/-! ## Profile -/

/-- What covers an asset. -/
def heldOf (c : Profile.Coverage) (rootSums : List (JsString × Js)) (asset : JsString) : Js :=
  ((rootSums.lookup (ofString c.covering ++ ofString "/" ++ asset)).getD .undefined).orElse
    (.str (ofString "0"))

def CoveredPasses (c : Profile.Coverage) (rootSums : List (JsString × Js)) (e : JsString × Js) : Prop :=
  ∀ asset, stripName (c.covered ++ "/") e.1 = some asset → ∃ held required,
    parseAmount18dp (heldOf c rootSums asset) = .ok held ∧ parseAmount18dp e.2 = .ok required ∧
      required ≤ held

/-- One of the two compared is no amount. -/
def CoveredThrows (c : Profile.Coverage) (rootSums : List (JsString × Js)) (e : JsString × Js) : Prop :=
  ∃ asset, stripName (c.covered ++ "/") e.1 = some asset ∧
    ¬ (IsAmount (heldOf c rootSums asset) ∧ IsAmount e.2)

def UnanimousPasses (leafCount : Js) (mapName : String) (e : JsString × Js) : Prop :=
  (stripName (mapName ++ "/") e.1).isSome = true → ∃ count : ℤ,
    leafCount.toBigInt = (.ok count : Throws ℤ) ∧ parseAmount18dp e.2 = .ok (count * scale)

/-- The count is no integer, the total no amount, or the total asked for none. -/
def UnanimousThrows (leafCount : Js) (mapName : String) (e : JsString × Js) : Prop :=
  (stripName (mapName ++ "/") e.1).isSome = true ∧ ¬ (IsAmount e.2 ∧ ∃ count : ℤ,
    leafCount.toBigInt = (.ok count : Throws ℤ) ∧ 0 ≤ count * scale ∧ count * scale ≤ maxAmount)

theorem checkCovered_eq_ok {rules : ProfileRules} {c : Profile.Coverage}
    {rootSums : List (JsString × Js)} {e : JsString × Js} :
    checkCovered rules c rootSums e = .ok () ↔ CoveredPasses c rootSums e := by
  unfold checkCovered CoveredPasses
  cases stripName (c.covered ++ "/") e.1 with
  | none => simp
  | some asset =>
    simp only [bind_eq_ok, uncaught_eq_ok, Option.some.injEq, forall_eq', heldOf]
    constructor
    · rintro ⟨held, hheld, required, hrequired, h⟩
      refine ⟨held, required, hheld, hrequired, le_of_not_gt fun hlt => ?_⟩
      rw [if_pos hlt] at h
      simp [refuse, bind_eq_ok] at h
    · rintro ⟨held, required, hheld, hrequired, hle⟩
      exact ⟨held, hheld, required, hrequired, if_neg (not_lt.mpr hle)⟩

theorem rejects_checkCovered {rules : ProfileRules} {c : Profile.Coverage}
    {rootSums : List (JsString × Js)} {e : JsString × Js} :
    Rejects (checkCovered rules c rootSums e) ↔ CoveredThrows c rootSums e := by
  unfold checkCovered CoveredThrows
  cases stripName (c.covered ++ "/") e.1 with
  | none => simp
  | some asset =>
    simp only [rejects_bind, uncaught_eq_ok, rejects_parseAmount18dp, Option.some.injEq, exists_eq_left',
      heldOf]
    rw [Classical.not_and_iff_not_or_not]
    refine ⟨?_, ?_⟩
    · rintro (h | ⟨held, hheld, h | ⟨required, hrequired, h⟩⟩)
      · exact .inl h
      · exact .inr h
      · -- two amounts have texts
        have hheldText := parseAmount18dp_bounds hheld
        have hrequiredText := parseAmount18dp_bounds hrequired
        split_ifs at h
        · simp [rejects_bind, rejects_formatAmount18dp, hheldText, hrequiredText] at h
        · simp at h
    · rintro (h | h)
      · exact .inl h
      · by_cases hheld : IsAmount (((rootSums.lookup
          (ofString c.covering ++ ofString "/" ++ asset)).getD .undefined).orElse (.str (ofString "0")))
        · obtain ⟨held, hheld⟩ := hheld
          exact .inr ⟨held, hheld, .inl h⟩
        · exact .inl hheld

theorem text_of_isPrintable {v : Js} (h : v.isPrintable = true) : ∃ s, (v.text : Throws JsString) = .ok s := by
  have hcases : _ ∨ v.isPrintable = false ∧ (v.text : Throws JsString) = .error .typeError := text_cases v
  rw [h] at hcases
  rcases hcases with hok | herror
  · exact hok.2
  · cases herror.1

theorem isPrintable_of_toBigInt {v : Js} {n : ℤ} (h : (v.toBigInt : Throws ℤ) = .ok n) :
    v.isPrintable = true := by
  by_contra hnot
  have hprimitive : (v.primitive : Throws Js) = .error .typeError :=
    primitive_eq_error.mpr ⟨Bool.eq_false_of_not_eq_true hnot, rfl⟩
  rw [Js.toBigInt, hprimitive] at h
  cases h

theorem checkUnanimous_eq_ok {rules : ProfileRules} {report : Js} (h : IsObject report)
    {mapName : String} {e : JsString × Js} : checkUnanimous rules report mapName e = .ok () ↔
      UnanimousPasses (report.prop "leaf_count") mapName e := by
  unfold checkUnanimous UnanimousPasses
  cases stripName (mapName ++ "/") e.1 with
  | none => simp
  | some rule =>
    simp only [uncaught_get h, ok_bind, bind_eq_ok, uncaught_eq_ok, Option.isSome_some, forall_const]
    constructor
    · rintro ⟨count, hcount, total, htotal, hcheck⟩
      refine ⟨count, hcount, ?_⟩
      by_cases heq : total = count * scale
      · rw [htotal, heq]
      · rw [if_pos heq] at hcheck
        simp [refuse, bind_eq_ok] at hcheck
    · rintro ⟨count, hcount, htotal⟩
      exact ⟨count, hcount, _, htotal, if_neg (not_not.mpr rfl)⟩

theorem rejects_checkUnanimous {rules : ProfileRules} {report : Js} (h : IsObject report)
    {mapName : String} {e : JsString × Js} : Rejects (checkUnanimous rules report mapName e) ↔
      UnanimousThrows (report.prop "leaf_count") mapName e := by
  unfold checkUnanimous UnanimousThrows
  cases stripName (mapName ++ "/") e.1 with
  | none => simp
  | some rule =>
    simp only [uncaught_get h, ok_bind, rejects_bind, uncaught_eq_ok, rejects_toBigInt,
      rejects_parseAmount18dp, Option.isSome_some, true_and]
    constructor
    · rintro (hcount | ⟨count, hcount, hamount | ⟨total, htotal, hcheck⟩⟩) ⟨hsum, n, hn, hrange⟩
      · exact hcount ⟨n, hn⟩
      · exact hamount hsum
      · obtain rfl := Except.ok.inj (hcount.symm.trans hn)
        have hprints : ¬ Rejects (uncaught (report.prop "leaf_count").text) := by
          rw [rejects_text, isPrintable_of_toBigInt hcount]
          decide
        split_ifs at hcheck
        · simp [rejects_bind, rejects_formatAmount18dp, parseAmount18dp_bounds htotal, hrange,
            hprints] at hcheck
        · simp at hcheck
    · intro hnot
      by_cases hcount : IsInteger (report.prop "leaf_count")
      · obtain ⟨count, hcount⟩ := hcount
        refine .inr ⟨count, hcount, ?_⟩
        by_cases hsum : IsAmount e.2
        · obtain ⟨total, htotal⟩ := hsum
          have hrange : ¬ (0 ≤ count * scale ∧ count * scale ≤ maxAmount) :=
            fun hrange => hnot ⟨⟨total, htotal⟩, count, hcount, hrange⟩
          refine .inr ⟨total, htotal, ?_⟩
          have hne : total ≠ count * scale := by
            rintro rfl
            exact hrange (parseAmount18dp_bounds htotal)
          obtain ⟨totalText, htotalText⟩ := formatAmount18dp_ok (parseAmount18dp_bounds htotal)
          obtain ⟨countText, hcountText⟩ := text_of_isPrintable (isPrintable_of_toBigInt hcount)
          rw [if_pos hne]
          simp [rejects_bind, rejects_formatAmount18dp, hrange, htotalText, hcountText, uncaught_eq_ok]
        · exact .inl hsum
      · exact .inl hcount

def sumsOf (report : Js) : List (JsString × Js) := entriesOf (report.prop "root_sums")

def AggregatePresent (report : Js) (aggregate : String) : Prop :=
  match qualifiedPrefix aggregate with
  | some pre => ∃ e ∈ sumsOf report, (stripName pre e.1).isSome = true
  | none =>
    if aggregate = "root_sums" then sumsOf report ≠ [] else entriesOf (report.prop "mark_prices") ≠ []

def CoveragePasses (report : Js) (c : Profile.Coverage) : Prop :=
  ∀ e ∈ sumsOf report, CoveredPasses c (sumsOf report) e

def CoverageThrows (report : Js) (c : Profile.Coverage) : Prop :=
  FirstThrows (CoveredPasses c (sumsOf report)) (CoveredThrows c (sumsOf report)) (sumsOf report)

def MapPasses (report : Js) (mapName : String) : Prop :=
  ∀ e ∈ sumsOf report, UnanimousPasses (report.prop "leaf_count") mapName e

def MapThrows (report : Js) (mapName : String) : Prop :=
  FirstThrows (UnanimousPasses (report.prop "leaf_count") mapName)
    (UnanimousThrows (report.prop "leaf_count") mapName) (sumsOf report)

structure RulesPass (report : Js) (rules : ProfileRules) : Prop where
  aggregates : ∀ aggregate ∈ rules.requiredAggregates, AggregatePresent report aggregate
  coverage : ∀ c ∈ rules.coverage.toList, CoveragePasses report c
  unanimous : ∀ mapName ∈ rules.unanimousMaps, MapPasses report mapName

/-- Amounts are first read when every aggregate is there. -/
structure RulesThrow (report : Js) (rules : ProfileRules) : Prop where
  aggregates : ∀ aggregate ∈ rules.requiredAggregates, AggregatePresent report aggregate
  amounts : FirstThrows (CoveragePasses report) (CoverageThrows report) rules.coverage.toList ∨
    (∀ c ∈ rules.coverage.toList, CoveragePasses report c) ∧
      FirstThrows (MapPasses report) (MapThrows report) rules.unanimousMaps

theorem checkAggregate_eq_ok {report : Js} {rules : ProfileRules} {aggregate : String} :
    checkAggregate rules (sumsOf report) (entriesOf (report.prop "mark_prices")) aggregate = .ok () ↔
      AggregatePresent report aggregate := by
  unfold checkAggregate AggregatePresent
  rw [ensure_eq_ok]
  cases qualifiedPrefix aggregate with
  | some pre => simp [List.any_eq_true]
  | none =>
    dsimp only
    split_ifs <;> simp

theorem not_rejects_checkAggregate (rules : ProfileRules) (rootSums markPrices : List (JsString × Js))
    (aggregate : String) : ¬ Rejects (checkAggregate rules rootSums markPrices aggregate) :=
  not_rejects_ensure _ _

theorem checkRules_eq_ok {report : Js} (h : IsObject report) {rules : ProfileRules} :
    checkRules report rules = .ok () ↔ RulesPass report rules := by
  simp only [checkRules, uncaught_get h, ok_bind, bind_eq_ok, forM_eq_ok, ← sumsOf.eq_1,
    checkAggregate_eq_ok, checkCovered_eq_ok, checkUnanimous_eq_ok h, exists_const]
  constructor
  · rintro ⟨ha, hc, hm⟩
    exact ⟨ha, hc, hm⟩
  · rintro ⟨ha, hc, hm⟩
    exact ⟨ha, hc, hm⟩

theorem rejects_checkRules {report : Js} (h : IsObject report) {rules : ProfileRules} :
    Rejects (checkRules report rules) ↔ RulesThrow report rules := by
  have haggregates : ¬ Rejects (forM rules.requiredAggregates
      (checkAggregate rules (sumsOf report) (entriesOf (report.prop "mark_prices")))) := by
    rw [rejects_forM]
    rintro ⟨_, aggregate, _, _, _, hrejects⟩
    exact not_rejects_checkAggregate _ _ _ aggregate hrejects
  have hcovered : ∀ c, (forM (sumsOf report) (checkCovered rules c (sumsOf report)) = .ok () ↔
      CoveragePasses report c) ∧ (Rejects (forM (sumsOf report) (checkCovered rules c (sumsOf report))) ↔
      CoverageThrows report c) := fun c => by
    rw [forM_eq_ok, rejects_forM_iff (fun _ => checkCovered_eq_ok) fun _ => rejects_checkCovered]
    simp only [checkCovered_eq_ok, CoveragePasses, CoverageThrows, and_self]
  have hmap : ∀ m, (forM (sumsOf report) (checkUnanimous rules report m) = .ok () ↔ MapPasses report m) ∧
      (Rejects (forM (sumsOf report) (checkUnanimous rules report m)) ↔ MapThrows report m) := fun m => by
    rw [forM_eq_ok, rejects_forM_iff (fun _ => checkUnanimous_eq_ok h) fun _ => rejects_checkUnanimous h]
    simp only [checkUnanimous_eq_ok h, MapPasses, MapThrows, and_self]
  simp only [checkRules, uncaught_get h, ok_bind, ← sumsOf.eq_1, rejects_bind, haggregates, false_or,
    forM_eq_ok, checkAggregate_eq_ok, exists_const, (hcovered _).1,
    rejects_forM_iff (fun c => (hcovered c).1) fun c => (hcovered c).2,
    rejects_forM_iff (fun m => (hmap m).1) fun m => (hmap m).2]
  exact ⟨fun ⟨ha, hm⟩ => ⟨ha, hm⟩, fun ⟨ha, hm⟩ => ⟨ha, hm⟩⟩

/-! ## The leaves a profile commits to -/

/-- The profile named has no text, or its rules throw. -/
def ProfileThrows (report : Js) : Prop :=
  (report.prop "profile").isPrintable = false ∨
    ∃ rules, lookupProfile (report.prop "profile") = some rules ∧ RulesThrow report rules

theorem lookupProfile_of_not_isPrintable {v : Js} (h : v.isPrintable = false) : lookupProfile v = none := by
  rw [lookupProfile, List.find?_eq_none]
  intro rules _
  cases v with
  | str s => cases h
  | _ => exact Bool.false_ne_true

theorem rulesOf_eq_ok {report : Js} (h : IsObject report) {rules : ProfileRules} :
    rulesOf report = .ok rules ↔ lookupProfile (report.prop "profile") = some rules := by
  simp only [rulesOf, uncaught_get h, ok_bind]
  cases lookupProfile (report.prop "profile") with
  | none => simp [bind_eq_ok, refuse]
  | some found => simp

theorem rejects_rulesOf {report : Js} (h : IsObject report) :
    Rejects (rulesOf report) ↔ (report.prop "profile").isPrintable = false := by
  simp only [rulesOf, uncaught_get h, ok_bind]
  cases hlookup : lookupProfile (report.prop "profile") with
  | none => simp [rejects_bind, rejects_text]
  | some found =>
    refine ⟨fun hrejects => absurd hrejects (not_rejects_pure found), fun hunprintable => ?_⟩
    rw [lookupProfile_of_not_isPrintable hunprintable] at hlookup
    cases hlookup

theorem rejects_expectLeafKind {report : Js} (h : IsObject report) {wanted : Profile.LeafKind} :
    Rejects (expectLeafKind report wanted) ↔ ProfileThrows report := by
  simp only [expectLeafKind, rejects_bind, rejects_rulesOf h, rulesOf_eq_ok h, rejects_checkRules h,
    not_rejects_ensure, and_false, exists_false, or_false, ProfileThrows]

theorem expectLeafKind_eq_ok {report : Js} (h : IsObject report) {wanted : Profile.LeafKind} :
    expectLeafKind report wanted = .ok () ↔ ∃ rules,
      lookupProfile (report.prop "profile") = some rules ∧ RulesPass report rules ∧ rules.leaf = wanted := by
  simp only [expectLeafKind, bind_eq_ok, rulesOf_eq_ok h, checkRules_eq_ok h, ensure_eq_ok, exists_const]

/-! ## The maps of a leaf -/

def mapEntries (leaf : Js) (required : String) : Throws (List (JsString × Js)) :=
  (((leaf.prop "maps").prop required).orElse (.obj [])).entries

def LeafMapPasses (leaf : Js) (required : String) : Prop :=
  (leaf.prop "maps").isNullish = false ∧ mapEntries leaf required ≠ .ok []

/-- There are no maps at all, or the refusal would name a subject without a text. -/
def LeafMapThrows (leaf : Js) (required : String) : Prop :=
  (leaf.prop "maps").isNullish = true ∨
    mapEntries leaf required = .ok [] ∧ (leaf.prop "subject_id").isPrintable = false

theorem orElse_entries (v : Js) : ∃ entries, ((v.orElse (.obj [])).entries : Throws _) = .ok entries := by
  cases v <;> exact ⟨_, rfl⟩

theorem checkLeafMap_eq {rules : ProfileRules} {leaf : Js} (h : IsObject leaf) {required : String} :
    checkLeafMap rules leaf required =
      (if (leaf.prop "maps").isNullish then .error (.throw .typeError)
      else uncaught (mapEntries leaf required) >>= fun entries =>
        if entries = [] then uncaught (leaf.prop "subject_id").text >>= fun subjectId =>
          refuse (.profile (.missingLeafMap rules.name required subjectId))
        else .ok ()) := by
  simp only [checkLeafMap, uncaught_get h, ok_bind, mapEntries]
  cases hnullish : (leaf.prop "maps").isNullish <;> simp [Js.get, hnullish, uncaught, Except.mapError] <;> rfl

theorem checkLeafMap_eq_ok {rules : ProfileRules} {leaf : Js} (h : IsObject leaf) {required : String} :
    checkLeafMap rules leaf required = .ok () ↔ LeafMapPasses leaf required := by
  obtain ⟨entries, hentries⟩ := orElse_entries ((leaf.prop "maps").prop required)
  rw [checkLeafMap_eq h, LeafMapPasses, mapEntries, hentries]
  cases (leaf.prop "maps").isNullish <;> by_cases hnil : entries = [] <;>
    simp [hnil, uncaught, Except.mapError, refuse, bind_eq_ok]

theorem rejects_checkLeafMap {rules : ProfileRules} {leaf : Js} (h : IsObject leaf) {required : String} :
    Rejects (checkLeafMap rules leaf required) ↔ LeafMapThrows leaf required := by
  obtain ⟨entries, hentries⟩ := orElse_entries ((leaf.prop "maps").prop required)
  rw [checkLeafMap_eq h, LeafMapThrows, mapEntries, hentries]
  cases (leaf.prop "maps").isNullish with
  | true => simp [Rejects]
  | false =>
    rw [show uncaught (.ok entries) = .ok entries from rfl, ok_bind]
    by_cases hnil : entries = [] <;> simp [hnil, rejects_bind, rejects_text]

/-! ## The fold -/

theorem parseSums_of_lpmap {m : Js} {bytes : List UInt8} (h : lpmap m = .ok bytes) :
    ∃ sums, parseSums m = .ok sums := by
  simp only [lpmap, bind_eq_ok] at h
  obtain ⟨entries, hentries, parts, hparts, _⟩ := h
  have hamounts : ∀ e ∈ entries, ∃ amount, parseAmount18dp e.2 = .ok amount := by
    intro e he
    obtain ⟨_, hpart⟩ := exists_mapM_eq_ok.mp ⟨parts, hparts⟩ e (mem_bytewise.mpr he)
    obtain ⟨amount, hamount, _⟩ := bind_eq_ok.mp hpart
    exact ⟨amount, hamount⟩
  have hentry : ∀ e ∈ entries, ∃ p, (do
      let amount ← parseAmount18dp e.2
      return (e.1, Sum.big amount)) = .ok p := fun e he => by
    obtain ⟨amount, hamount⟩ := hamounts e he
    exact ⟨_, bind_eq_ok.mpr ⟨amount, hamount, rfl⟩⟩
  obtain ⟨parsed, hparsed⟩ := exists_mapM_eq_ok.mpr hentry
  refine ⟨fromEntries parsed, ?_⟩
  rw [parseSums, hentries, ok_bind]
  exact bind_eq_ok.mpr ⟨parsed, hparsed, rfl⟩

variable {sha256 : List UInt8 → Digest} {ed : Ed25519}

theorem not_rejects_checkSigned (publicKeyHex messageHex : JsString) (signatureHex : Js) :
    ¬ Rejects (checkSigned ed publicKeyHex messageHex signatureHex) := by
  rw [checkSigned, rejects_bind]
  rintro (⟨t, h, ht⟩ | ⟨_, _, h⟩)
  · cases hx : verifyEd25519 ed publicKeyHex messageHex signatureHex with
    | ok valid => rw [hx] at h; cases h
    | error e =>
      rw [hx] at h
      simp only [Except.mapError] at h
      split at h
      · obtain rfl := Stop.throw.inj (Except.error.inj h)
        exact ht rfl
      · cases h
  · exact not_rejects_ensure _ _ h

theorem not_rejects_checkTotals (folded published : Sums) : ¬ Rejects (checkTotals folded published) := by
  rw [checkTotals, rejects_forM]
  rintro ⟨_, _, _, _, _, hrejects⟩
  exact not_rejects_ensure _ _ hrejects

/-- A report with a digest has sums that parse. -/
theorem not_rejects_foldAgainstReport {signed : Js} (h : SignedShape signed) (leaf : SolvencyNode)
    (steps expectedDigest : Js) (key : JsString) :
    ¬ Rejects (foldAgainstReport sha256 ed signed leaf steps expectedDigest key) := by
  simp only [foldAgainstReport, uncaught_get h.object, uncaught_get h.signature,
    uncaught_get h.report.object, ok_bind, rejects_bind, not_rejects_caught,
    not_rejects_ensure, not_rejects_checkSigned, not_rejects_checkTotals, false_or, and_false, exists_false, or_false]
  rintro ⟨digest, hdigest, _, _, _, _, _, _, _, _, _, _, hrejects⟩
  obtain ⟨preimage, hpreimage, _⟩ := map_eq_ok.mp (mapError_eq_ok.mp hdigest)
  have hroot : ∃ bytes, lpmap ((signed.prop "report").prop "root_sums") = .ok bytes := by
    simp only [reportPreimage, h.report.object.get, ok_bind, bind_eq_ok] at hpreimage
    obtain ⟨_, _, _, _, _, _, _, _, _, _, _, _, _, _, _, _, bytes, hbytes, _⟩ := hpreimage
    exact ⟨bytes, hbytes⟩
  obtain ⟨bytes, hbytes⟩ := hroot
  obtain ⟨sums, hsums⟩ := parseSums_of_lpmap hbytes
  rw [h.report.object.get, ok_bind, hsums] at hrejects
  exact not_rejects_ok sums hrejects

/-! ## The three verifiers -/

def ReportThrows (report : Js) : Prop :=
  ManifestThrows report ∨ ManifestPasses report ∧ ProfileThrows report

structure VersionsPass (signed proof : Js) (want : JsString) : Prop where
  proof : (proof.prop "format_version").is want = true
  algorithm : ((signed.prop "signature").prop "algorithm").is signatureAlgorithm = true

/-- A profile with v2 leaves is found first, and its leaf is looked into last. -/
def ProfileThrowsV2 (signed proof : Js) : Prop :=
  ((signed.prop "report").prop "profile").isPrintable = false ∨ ∃ rules,
    lookupProfile ((signed.prop "report").prop "profile") = some rules ∧ rules.leaf ∈ v2LeafKinds ∧
      (RulesThrow (signed.prop "report") rules ∨ RulesPass (signed.prop "report") rules ∧
        VersionsPass signed proof proofFormatVersionV2 ∧
        FirstThrows (LeafMapPasses (proof.prop "leaf")) (LeafMapThrows (proof.prop "leaf"))
          rules.requiredLeafMaps)

def ReportThrowsV2 (signed proof : Js) : Prop :=
  ManifestThrows (signed.prop "report") ∨
    ManifestPasses (signed.prop "report") ∧ ProfileThrowsV2 signed proof

def MembershipThrows (groupSigned membership : Js) : Prop :=
  (membership.prop "format_version").is groupMembershipFormatVersion = true ∧
    ProfileThrows (groupSigned.prop "report")

theorem checkVersions_eq_ok {signed proof : Js} (h : SignedShape signed) (hproof : IsObject proof)
    {want : JsString} : checkVersions signed proof want = .ok () ↔ VersionsPass signed proof want := by
  simp only [checkVersions, checkVersion, uncaught_get hproof, uncaught_get h.object,
    uncaught_get h.signature, ok_bind, bind_eq_ok, ensure_eq_ok, exists_const]
  constructor
  · rintro ⟨hp, ha⟩
    exact ⟨hp, ha⟩
  · rintro ⟨hp, ha⟩
    exact ⟨hp, ha⟩

theorem not_rejects_checkVersions {signed proof : Js} (h : SignedShape signed) (hproof : IsObject proof)
    (want : JsString) : ¬ Rejects (checkVersions signed proof want) := by
  simp [checkVersions, checkVersion, uncaught_get hproof, uncaught_get h.object,
    uncaught_get h.signature, rejects_bind]

theorem rejects_verifyReport {signed proof : Js} (h : SignedShape signed) (hproof : IsObject proof)
    {key : JsString} :
    Rejects (verifyReport sha256 ed signed proof key) ↔ ReportThrows (signed.prop "report") := by
  simp only [verifyReport, uncaught_get h.object, uncaught_get hproof, ok_bind, rejects_bind,
    rejects_checkReportVersionAndManifest h.report, checkReportVersionAndManifest_eq_ok h.report,
    rejects_expectLeafKind h.report.object, not_rejects_checkVersions h hproof, not_rejects_caught,
    not_rejects_foldAgainstReport h, and_false, exists_false, or_false, exists_const, ReportThrows]

theorem rejects_verifyMembership {groupSigned membership : Js} (h : SignedShape groupSigned)
    (hmembership : IsObject membership) {key : JsString} :
    Rejects (verifyMembership sha256 ed groupSigned membership key) ↔
      MembershipThrows groupSigned membership := by
  simp only [verifyMembership, checkVersion, uncaught_get h.object, uncaught_get h.signature,
    uncaught_get h.report.object, uncaught_get hmembership, ok_bind, rejects_bind, ensure_eq_ok,
    rejects_expectLeafKind h.report.object, not_rejects_ensure, not_rejects_caught,
    not_rejects_checkSigned, not_rejects_checkTotals, false_or, and_false, exists_false, or_false, exists_const,
    MembershipThrows]

theorem profileThrows_of_lookup {report : Js} {rules : ProfileRules}
    (h : lookupProfile (report.prop "profile") = some rules) :
    ProfileThrows report ↔ RulesThrow report rules := by
  have hprintable : (report.prop "profile").isPrintable ≠ false := fun hunprintable => by
    rw [lookupProfile_of_not_isPrintable hunprintable] at h
    cases h
  simp [ProfileThrows, hprintable, h]

theorem rejects_expectLeafV2 {report : Js} (h : IsObject report) : Rejects (expectLeafV2 report) ↔
    (report.prop "profile").isPrintable = false ∨ ∃ rules,
      lookupProfile (report.prop "profile") = some rules ∧ rules.leaf ∈ v2LeafKinds ∧
        RulesThrow report rules := by
  simp only [expectLeafV2, rejects_bind, rejects_rulesOf h, rulesOf_eq_ok h, not_rejects_ensure,
    ensure_eq_ok, false_or, rejects_expectLeafKind h, exists_const]
  refine or_congr_right (exists_congr fun rules => and_congr_right fun hlookup => ?_)
  rw [profileThrows_of_lookup hlookup]

theorem expectLeafV2_eq_ok {report : Js} (h : IsObject report) : expectLeafV2 report = .ok () ↔
    ∃ rules, lookupProfile (report.prop "profile") = some rules ∧ rules.leaf ∈ v2LeafKinds ∧
      RulesPass report rules := by
  simp only [expectLeafV2, bind_eq_ok, rulesOf_eq_ok h, ensure_eq_ok, exists_const, expectLeafKind_eq_ok h]
  refine exists_congr fun rules => and_congr_right fun hlookup => and_congr_right fun _ => ?_
  simp [hlookup]

theorem rejects_requiredMaps {rules : ProfileRules} {leaf : Js} (h : IsObject leaf) :
    Rejects (forM (some rules).toList fun rules => forM rules.requiredLeafMaps (checkLeafMap rules leaf)) ↔
      FirstThrows (LeafMapPasses leaf) (LeafMapThrows leaf) rules.requiredLeafMaps := by
  have hmaps : Rejects (forM rules.requiredLeafMaps (checkLeafMap rules leaf)) ↔ _ :=
    rejects_forM_iff (fun _ => checkLeafMap_eq_ok h) fun _ => rejects_checkLeafMap h
  rw [← hmaps]
  simp

theorem rejects_verifyReportV2 {signed proof : Js} (h : SignedShape signed) (hproof : IsObject proof)
    (hleaf : IsObject (proof.prop "leaf")) {key : JsString} :
    Rejects (verifyReportV2 sha256 ed signed proof key) ↔ ReportThrowsV2 signed proof := by
  simp only [verifyReportV2, uncaught_get h.object, uncaught_get h.report.object, uncaught_get hproof,
    ok_bind, rejects_bind, rejects_checkReportVersionAndManifest h.report,
    checkReportVersionAndManifest_eq_ok h.report, rejects_expectLeafV2 h.report.object,
    expectLeafV2_eq_ok h.report.object, not_rejects_checkVersions h hproof, checkVersions_eq_ok h hproof,
    not_rejects_caught, not_rejects_foldAgainstReport h, and_false, exists_false, or_false, false_or,
    exists_const, ReportThrowsV2, ProfileThrowsV2]
  refine or_congr_right (and_congr_right fun _ => ?_)
  rw [or_assoc]
  refine or_congr_right ?_
  constructor
  · rintro (⟨rules, hlookup, hkind, hthrows⟩ | ⟨⟨rules, hlookup, hkind, hpass⟩, hversions, hmaps⟩)
    · exact ⟨rules, hlookup, hkind, .inl hthrows⟩
    · rw [hlookup, rejects_requiredMaps hleaf] at hmaps
      exact ⟨rules, hlookup, hkind, .inr ⟨hpass, hversions, hmaps⟩⟩
  · rintro ⟨rules, hlookup, hkind, hthrows | ⟨hpass, hversions, hmaps⟩⟩
    · exact .inl ⟨rules, hlookup, hkind, hthrows⟩
    · rw [← rejects_requiredMaps hleaf, ← hlookup] at hmaps
      exact .inr ⟨⟨rules, hlookup, hkind, hpass⟩, hversions, hmaps⟩

/-- Each verifier ends in a result, or says that Ed25519 is missing, unless a value it reads outside
    every `try` throws. -/
theorem fails_visibly_iff {signed proof membership : Js} (hsigned : SignedShape signed)
    (hproof : IsObject proof) (hleaf : IsObject (proof.prop "leaf")) (hmembership : IsObject membership)
    (key : JsString) :
    (¬ Rejects (verifyReport sha256 ed signed proof key) ↔ ¬ ReportThrows (signed.prop "report")) ∧
    (¬ Rejects (verifyReportV2 sha256 ed signed proof key) ↔ ¬ ReportThrowsV2 signed proof) ∧
    (¬ Rejects (verifyMembership sha256 ed signed membership key) ↔
      ¬ MembershipThrows signed membership) :=
  ⟨not_congr (rejects_verifyReport hsigned hproof), not_congr (rejects_verifyReportV2 hsigned hproof hleaf),
    not_congr (rejects_verifyMembership hsigned hmembership)⟩

/-! ## A report whose covered amount is a word -/

def wordSigned : Js :=
  Js.object [
    ("report", Js.object [
      ("format_version", Js.string "canton-solvency-report-v1"),
      ("profile", Js.string "collateral.repo"),
      ("root_sums", Js.object [("collateral/USDA", Js.string "1"), ("exposure/USDA", Js.string "one")]),
      ("disclosures", Js.object [])]),
    ("signature", Js.object [])]

def wordProof : Js := Js.object [("leaf", Js.object [])]

def wordMembership : Js := Js.object [("format_version", Js.string "canton-solvency-group-membership-v1")]

theorem wordSigned_shape : SignedShape wordSigned :=
  ⟨⟨_, rfl⟩, ⟨_, rfl⟩, ⟨_, rfl⟩, .inl rfl, ⟨_, rfl⟩⟩

theorem browser_rejects :
    SignedShape wordSigned ∧ IsObject wordProof ∧ IsObject (wordProof.prop "leaf") ∧
      IsObject wordMembership ∧
      Rejects (verifyReport Sha256.sha256 (goldenEd25519 []) wordSigned wordProof []) ∧
      Rejects (verifyReportV2 Sha256.sha256 (goldenEd25519 []) wordSigned wordProof []) ∧
      Rejects (verifyMembership Sha256.sha256 (goldenEd25519 []) wordSigned wordMembership []) := by
  refine ⟨wordSigned_shape, ⟨_, rfl⟩, ⟨_, rfl⟩, ⟨_, rfl⟩, ?_, ?_, ?_⟩
  · exact ⟨.error (.notDecimal (ofString "one")), rfl, by simp⟩
  · exact ⟨.error (.notDecimal (ofString "one")), rfl, by simp⟩
  · exact ⟨.error (.notDecimal (ofString "one")), rfl, by simp⟩

theorem fails_visibly_iff_word :
    (¬ Rejects (verifyReport Sha256.sha256 (goldenEd25519 []) wordSigned wordProof []) ↔
      ¬ ReportThrows (wordSigned.prop "report")) ∧
    (¬ Rejects (verifyReportV2 Sha256.sha256 (goldenEd25519 []) wordSigned wordProof []) ↔
      ¬ ReportThrowsV2 wordSigned wordProof) ∧
    (¬ Rejects (verifyMembership Sha256.sha256 (goldenEd25519 []) wordSigned wordMembership []) ↔
      ¬ MembershipThrows wordSigned wordMembership) :=
  fails_visibly_iff wordSigned_shape ⟨_, rfl⟩ ⟨_, rfl⟩ ⟨_, rfl⟩ []

end AssuranceLayer.BrowserThrows
