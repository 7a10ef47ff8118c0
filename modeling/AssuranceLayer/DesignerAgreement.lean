import AssuranceLayer.ManifestAgreement
import AssuranceLayer.ManifestDiff

set_option autoImplicit false

/-!
What the designer calls a problem, and what a verifier refuses, field by field. They part on fields
that are not declared, on fields the format does not know, and on the audience.
-/
namespace AssuranceLayer.DesignerAgreement
open Fallible Utf16 JavaScript Reading BrowserThrows ManifestAgreement Designer
open Browser (IsReport IsManifest IsDisclosure entriesOf knownFields)
open ManifestDiff (document document_reads)

/-- The report with this manifest, in the format that has one. -/
def packaged (report manifest : Js) : Js :=
  .obj (setProp (setProp (entriesOf report) (ofString "format_version") (.str Browser.reportFormatVersionV2))
    (ofString "manifest") manifest)

/-! ## What may be wrong with a manifest -/

def Carries (report : Js) (path : JsString) : Prop := Designer.carriesData report path = .ok true

/-- A field the format has, and published exactly when it has data if it is one of the body. -/
def Consistent (report : Js) (e : JsString × Js) : Prop :=
  e.1 ∈ knownFields.map ofString ∧ (e.1 ∈ bodyFields.map ofString →
    (e.2.is (ofString "published") = true ↔ Carries report e.1))

/-- A field is declared that the format does not have. -/
def DeclaresUnknown (manifest : Js) : Prop :=
  ∃ e ∈ Designer.fieldsOf manifest, e.1 ∉ knownFields.map ofString

/-- A field of the body has data and is not declared. -/
def LeavesOut (report manifest : Js) : Prop :=
  ∃ path ∈ bodyFields.map ofString, path ∉ (Designer.fieldsOf manifest).map Prod.fst ∧ Carries report path

/-- There is no audience but blanks. -/
def Unnamed (manifest : Js) : Prop := isNamed (manifest.prop "audience") = false

/-! ## Shown, and refused -/

def rowText (locale : PageLocale) (path problem : JsString) : JsString :=
  translated locale .problemRow [(ofString "path", path), (ofString "problem", problem)]

/-- The text is what is shown for a problem in the row of this field. -/
def Tells (locale : PageLocale) (model : DesignerModel) (path text : JsString) : Prop :=
  ∃ row ∈ model.fields, row.path = path ∧
    ∃ problem, row.problem? = some problem ∧ text = rowText locale path problem

/-- Of the fields of the packaged report, the verifier does not pass the one declared under this path. -/
def Refused (report manifest : Js) (path : JsString) : Prop :=
  ∃ carried, Browser.carriesData (packaged report manifest) = .ok carried ∧
    ∃ e ∈ BrowserThrows.fieldsOf (packaged report manifest), e.1 = path ∧
      Browser.checkManifestField carried e ≠ .ok ()

/-- Nothing is shown exactly when the packaged report passes; each problem shown is about a field that
    is refused, and each field refused is shown. -/
structure ShownAsChecked (locale : PageLocale) (report manifest : Js) (model : DesignerModel) : Prop where
  publishable : model.problems = [] ↔
    Browser.checkReportVersionAndManifest (packaged report manifest) = .ok ()
  rejected : ∀ text ∈ model.problems, ∃ path, Refused report manifest path ∧ Tells locale model path text
  shown : ∀ path, Refused report manifest path → ∃ text ∈ model.problems, Tells locale model path text

/-! ## The packaged report -/

theorem prop_packaged {report : Js} (h : IsObject report) (manifest : Js) (name : String) :
    (packaged report manifest).prop name = if name = "manifest" then manifest
      else if name = "format_version" then .str Browser.reportFormatVersionV2 else report.prop name := by
  obtain ⟨props, rfl⟩ := h
  simp only [packaged, Js.prop, lookup_setProp, ofString_inj]
  split_ifs <;> rfl

theorem packaged_shape {report manifest : Js} (hreport : IsReport report) (hmanifest : IsManifest manifest) :
    ReportShape (packaged report manifest) :=
  ⟨⟨_, rfl⟩, .inr (by rw [prop_packaged hreport.object]; exact hmanifest.object),
    by rw [prop_packaged hreport.object]; exact hreport.disclosures.object⟩

theorem report_shape {report : Js} (h : IsReport report) : ReportShape report :=
  ⟨h.object, h.manifest.imp_right IsManifest.object, h.disclosures.object⟩

theorem accounts_toNumber {report : Js} (h : IsReport report) :
    ∃ n, (accountsOf report).toNumber = (.ok n : Browser.Throws Binary64.Number) := by
  obtain ⟨n, hn⟩ := h.disclosures.excludedHouseAccounts
  exact ⟨n, by rw [accountsOf, hn]; rfl⟩

theorem fieldsOf_eq {manifest : Js} (h : IsManifest manifest) :
    Designer.fieldsOf manifest = entriesOf (manifest.prop "fields") := by
  obtain ⟨_, rfl⟩ := h.object
  rfl

/-! ## Data -/

/-- One field at a time or all at once, the same fields carry data. -/
theorem carriesData_path {report : Js} (h : ReportShape report) {n : Binary64.Number}
    (hn : (accountsOf report).toNumber = (.ok n : Browser.Throws Binary64.Number)) (path : JsString) :
    Designer.carriesData report path = .ok (decide (path ∈ (carriedOf (bodyData report n)).map ofString)) := by
  have hmem : ∀ {k : String} {l : List String}, ofString k ∈ l.map ofString ↔ k ∈ l :=
    List.mem_map_of_injective fun _ _ heq => ofString_inj.mp heq
  rw [accountsOf] at hn
  simp only [Designer.carriesData, h.object.get, h.disclosures.orElse, h.disclosures.get, ok_bind, hn, bodyData]
  split_ifs with h1 h2 h3 h4 h5
  · subst h1
    simp [hmem, mem_carriedOf, pure, Except.pure, -List.isEmpty_eq_false_iff]
  · subst h2
    simp [hmem, mem_carriedOf, pure, Except.pure, -List.isEmpty_eq_false_iff]
  · subst h3
    simp [hmem, mem_carriedOf, pure, Except.pure, -List.isEmpty_eq_false_iff]
  · subst h4
    simp [hmem, mem_carriedOf, pure, Except.pure, -List.isEmpty_eq_false_iff]
  · subst h5
    simp [hmem, mem_carriedOf, pure, Except.pure, -List.isEmpty_eq_false_iff]
  · have hnot : path ∉ (carriedOf (bodyData report n)).map ofString := by
      rintro hpath
      obtain ⟨k, hk, rfl⟩ := List.mem_map.mp hpath
      rcases mem_carriedOf.mp hk with ⟨rfl, -⟩ | ⟨rfl, -⟩ | ⟨rfl, -⟩ | ⟨rfl, -⟩ | ⟨rfl, -⟩
      · exact h1 rfl
      · exact h2 rfl
      · exact h3 rfl
      · exact h4 rfl
      · exact h5 rfl
    exact congrArg Except.ok (decide_eq_false hnot).symm

theorem carries_iff {report : Js} (h : ReportShape report) {n : Binary64.Number}
    (hn : (accountsOf report).toNumber = (.ok n : Browser.Throws Binary64.Number)) {path : JsString} :
    Carries report path ↔ path ∈ (carriedOf (bodyData report n)).map ofString := by
  rw [Carries, carriesData_path h hn, Except.ok.injEq, decide_eq_true_eq]

/-! ## Words -/

/-- A text whose first character opens no placeholder keeps it. -/
theorem interpolate_ne_nil (params : Params) {u : UInt16} (hu : u ≠ unit '\x7b') (rest : JsString) :
    interpolate params none (u :: rest) ≠ [] := by
  rw [interpolate, if_neg hu]
  exact List.cons_ne_nil _ _

theorem problems_begin (locale : PageLocale) {key : DesignerKey}
    (h : key = .publishedNoData ∨ key = .publishesAnyway) :
    ((ofString (messages locale key)).head?.any (· ≠ unit '\x7b')) = true := by
  rcases h with rfl | rfl <;> cases locale <;> decide +kernel

theorem translated_ne_nil (locale : PageLocale) {key : DesignerKey} (params : Params)
    (h : key = .publishedNoData ∨ key = .publishesAnyway) : translated locale key params ≠ [] := by
  have hbegin := problems_begin locale h
  rw [translated]
  cases hmessage : ofString (messages locale key) with
  | nil => simp [hmessage] at hbegin
  | cons u rest => exact interpolate_ne_nil params (by simpa [hmessage] using hbegin) rest

def separator : PageLocale → JsString
  | .en => ofString ": "
  | .zhCN => ofString "："

theorem rowText_eq (locale : PageLocale) (path problem : JsString) :
    rowText locale path problem = path ++ (separator locale ++ problem) := by
  have hrow : rowText locale path problem = path ++ (separator locale ++ (problem ++ [])) := by
    cases locale <;> rfl
  rw [hrow, List.append_nil]

/-- What a text is about: all before its colon. -/
def subject (locale : PageLocale) (text : JsString) : JsString :=
  text.takeWhile fun u => (separator locale).head? ≠ some u

theorem known_plain (locale : PageLocale) : ∀ path ∈ knownFields.map ofString, ∀ u ∈ path,
    (separator locale).head? ≠ some u := by
  have hall : ((knownFields.map ofString).all fun path =>
      path.all fun u => decide ((separator locale).head? ≠ some u)) = true := by
    cases locale <;> decide +kernel
  simpa only [List.all_eq_true, decide_eq_true_eq] using hall

theorem subject_rowText (locale : PageLocale) {path : JsString} (h : path ∈ knownFields.map ofString)
    (problem : JsString) : subject locale (rowText locale path problem) = path := by
  have hstop : ∃ rest, separator locale ++ problem = ((separator locale).head?.getD 0) :: rest := by
    cases locale <;> exact ⟨_, rfl⟩
  obtain ⟨rest, hrest⟩ := hstop
  have hcolon : (separator locale).head? = some ((separator locale).head?.getD 0) := by
    cases locale <;> rfl
  rw [subject, rowText_eq, hrest, List.takeWhile_append_of_pos fun u hu =>
    decide_eq_true (known_plain locale path h u hu), List.takeWhile_cons_of_neg, List.append_nil]
  simpa using hcolon

theorem subject_noAudience (locale : PageLocale) :
    subject locale (translated locale .noAudience []) ∉ knownFields.map ofString := by
  cases locale <;> decide +kernel

theorem stateLabel_ok (locale : PageLocale) {state : Js} (h : IsDisclosure state) :
    ∃ label, stateLabel locale state = .ok label := by
  rcases h with rfl | rfl | rfl <;> exact ⟨_, rfl⟩

/-! ## Rows -/

theorem stateOf_given {manifest : Js} (h : IsManifest manifest)
    (hnames : ((Designer.fieldsOf manifest).map Prod.fst).Nodup) {e : JsString × Js}
    (he : e ∈ Designer.fieldsOf manifest) : stateOf manifest e.1 = e.2 := by
  obtain ⟨props, hprops, htyped⟩ := h.fields
  have hstate : IsDisclosure e.2 := htyped e (by rwa [fieldsOf_eq h, hprops] at he)
  rw [stateOf, (lookup_eq_some hnames).mpr he, Option.getD_some]
  rcases hstate with hs | hs | hs <;> rw [hs] <;> rfl

theorem stateOf_absent {manifest : Js} {path : JsString}
    (h : path ∉ (Designer.fieldsOf manifest).map Prod.fst) : stateOf manifest path = Js.string "withheld" := by
  have hnone : (Designer.fieldsOf manifest).lookup path = none := by
    rw [List.lookup_eq_none_iff]
    intro p hp
    exact bne_iff_ne.mpr fun heq => h (List.mem_map.mpr ⟨p, hp, heq.symm⟩)
  rw [stateOf, hnone]
  rfl

theorem stateOf_disclosure {manifest : Js} (h : IsManifest manifest)
    (hnames : ((Designer.fieldsOf manifest).map Prod.fst).Nodup) (path : JsString) :
    IsDisclosure (stateOf manifest path) := by
  by_cases hpath : path ∈ (Designer.fieldsOf manifest).map Prod.fst
  · obtain ⟨e, he, rfl⟩ := List.mem_map.mp hpath
    obtain ⟨props, hprops, htyped⟩ := h.fields
    rw [stateOf_given h hnames he]
    exact htyped e (by rwa [fieldsOf_eq h, hprops] at he)
  · rw [stateOf_absent hpath]
    exact .inr (.inr rfl)

theorem problemOf_ok (locale : PageLocale) (path : JsString) {state : Js} (h : IsDisclosure state) (has : Bool) :
    ∃ problem, problemOf locale path state has = .ok problem ∧ ((problem.filter (· ≠ [])) = none ↔
      (path ∈ bodyFields.map ofString → (state.is (ofString "published") = true ↔ has = true))) := by
  obtain ⟨label, hlabel⟩ := stateLabel_ok locale h
  have hmissing : translated locale .publishedNoData [] ≠ [] := translated_ne_nil locale _ (.inl rfl)
  have hanyway : translated locale .publishesAnyway [(ofString "state", label)] ≠ [] :=
    translated_ne_nil locale _ (.inr rfl)
  rw [problemOf, hlabel]
  by_cases hpath : path ∈ bodyFields.map ofString
  · cases state.is (ofString "published") <;> cases has <;>
      simp [hpath, hmissing, hanyway, pure, Except.pure, bind, Except.bind, Option.filter]
  · simp [hpath]

/-- As it is shown, a field of the body is published without data, or otherwise with data. -/
def Mismatched (report manifest : Js) (path : JsString) : Prop :=
  path ∈ bodyFields.map ofString ∧
    ¬ ((stateOf manifest path).is (ofString "published") = true ↔ Carries report path)

theorem designerRow_ok {report manifest : Js} (hreport : IsReport report) (hmanifest : IsManifest manifest)
    (hnames : ((Designer.fieldsOf manifest).map Prod.fst).Nodup) (locale : PageLocale) (path : JsString) :
    ∃ row, designerRow report manifest locale path = .ok row ∧ row.path = path ∧
      (row.problem? = none ↔ ¬ Mismatched report manifest path) := by
  obtain ⟨n, hn⟩ := accounts_toNumber hreport
  have hcarries := carriesData_path (report_shape hreport) hn path
  obtain ⟨problem, hproblem, hiff⟩ := problemOf_ok locale path (stateOf_disclosure hmanifest hnames path)
    (decide (path ∈ (carriedOf (bodyData report n)).map ofString))
  refine ⟨⟨path, stateOf manifest path, decide (path ∈ (carriedOf (bodyData report n)).map ofString), problem⟩,
    ?_, rfl, ?_⟩
  · rw [designerRow, hcarries, ok_bind, hproblem]
    rfl
  · rw [FieldRow.problem?, hiff, Mismatched, carries_iff (report_shape hreport) hn, decide_eq_true_eq, not_and,
      not_not]

theorem changeRows_after {previous manifest : Js} {row : ChangeRow} (h : row ∈ changeRows previous manifest) :
    row.after = fieldState (Designer.fieldsOf manifest) row.path := by
  rw [changeRows] at h
  split_ifs at h with hnull
  · cases h
  · obtain ⟨path, -, hrow⟩ := List.mem_filterMap.mp h
    rw [changeRow] at hrow
    split_ifs at hrow
    rw [← Option.some.inj hrow]

theorem fieldState_cases {manifest : Js} (h : IsManifest manifest) (path : JsString) :
    fieldState (Designer.fieldsOf manifest) path = .null ∨
      fieldState (Designer.fieldsOf manifest) path = .inherited ∨
      ∃ v, IsDisclosure v ∧ fieldState (Designer.fieldsOf manifest) path = .given v := by
  rw [fieldState]
  cases hlookup : (Designer.fieldsOf manifest).lookup path with
  | none => cases Browser.isInherited path <;> simp
  | some v =>
    obtain ⟨props, hprops, htyped⟩ := h.fields
    have hmem : (path, v) ∈ Designer.fieldsOf manifest := by
      obtain ⟨l, l', hl, -⟩ := List.lookup_eq_some_iff.mp hlookup
      rw [hl]
      simp
    have hv : IsDisclosure v := htyped (path, v) (by rwa [fieldsOf_eq h, hprops] at hmem)
    have hnull : v.isNullish = false := by
      rcases hv with hv | hv | hv <;> rw [hv] <;> rfl
    exact .inr (.inr ⟨v, hv, by simp [hnull]⟩)

theorem warningOf_ok (inheritedText : JsString → JsString) (locale : PageLocale) {manifest : Js}
    (h : IsManifest manifest) {previous : Js} {row : ChangeRow} (hrow : row ∈ changeRows previous manifest) :
    ∃ warning, warningOf inheritedText locale row = .ok warning := by
  rw [warningOf, changeRows_after hrow]
  cases row.reduction with
  | false => exact ⟨_, rfl⟩
  | true =>
    rcases fieldState_cases h row.path with hstate | hstate | ⟨v, hv, hstate⟩ <;> rw [hstate]
    · exact ⟨_, rfl⟩
    · exact ⟨_, rfl⟩
    · obtain ⟨label, hlabel⟩ := stateLabel_ok locale hv
      simp only [hlabel]
      exact ⟨_, rfl⟩

/-! ## Problems -/

theorem rows_ok {report manifest : Js} (hreport : IsReport report) (hmanifest : IsManifest manifest)
    (hnames : ((Designer.fieldsOf manifest).map Prod.fst).Nodup) (locale : PageLocale) :
    ∃ rows, designerRows report manifest locale = .ok rows ∧
      (∀ row ∈ rows, row.path ∈ knownFields.map ofString ∧
        (row.problem? = none ↔ ¬ Mismatched report manifest row.path)) ∧
      ∀ path ∈ knownFields.map ofString, ∃ row ∈ rows, row.path = path := by
  have hrow := designerRow_ok hreport hmanifest hnames locale
  have hknown : ∀ {path}, path ∈ sorted (knownFields.map ofString) ↔ path ∈ knownFields.map ofString :=
    List.mem_insertionSort _
  obtain ⟨rows, hrows⟩ := exists_mapM_eq_ok.mpr fun path (_ : path ∈ sorted (knownFields.map ofString)) =>
    (hrow path).imp fun _ h => h.1
  have hmade := mapM_eq_ok.mp hrows
  refine ⟨rows, hrows, fun row hmem => ?_, fun path hpath => ?_⟩
  · obtain ⟨path, hpath, hof⟩ := exists_of_forall₂ hmade.flip hmem
    obtain ⟨row', hof', hname, hproblem⟩ := hrow path
    obtain rfl : row' = row := Except.ok.inj (hof'.symm.trans hof)
    rw [hname]
    exact ⟨hknown.mp hpath, hproblem⟩
  · obtain ⟨row, hmem, hof⟩ := exists_of_forall₂ hmade (hknown.mpr hpath)
    obtain ⟨row', hof', hname, -⟩ := hrow path
    obtain rfl : row' = row := Except.ok.inj (hof'.symm.trans hof)
    exact ⟨row', hmem, hname⟩

/-- The rows of a model, and the problems it shows: those of the rows and the missing audience. -/
structure Built (locale : PageLocale) (report manifest : Js) (model : DesignerModel) : Prop where
  rows : designerRows report manifest locale = .ok model.fields
  problems : ∀ text, text ∈ model.problems ↔ (∃ path, Tells locale model path text) ∨
    Unnamed manifest ∧ text = translated locale .noAudience []

theorem buildDesigner_ok (inheritedText : JsString → JsString) {report manifest : Js} (previous : Js)
    (hreport : IsReport report) (hmanifest : IsManifest manifest)
    (hnames : ((Designer.fieldsOf manifest).map Prod.fst).Nodup) (locale : PageLocale) :
    ∃ model, buildDesigner inheritedText report manifest previous locale = .ok model ∧
      Built locale report manifest model := by
  obtain ⟨rows, hrows, -⟩ := rows_ok hreport hmanifest hnames locale
  obtain ⟨warnings, hwarnings⟩ : ∃ warnings,
      (changeRows previous manifest).mapM (warningOf inheritedText locale) = .ok warnings :=
    exists_mapM_eq_ok.mpr fun row hrow => warningOf_ok inheritedText locale hmanifest hrow
  have haudience : optionalProp manifest "audience" = manifest.prop "audience" := by
    obtain ⟨_, rfl⟩ := hmanifest.object
    rfl
  simp only [buildDesigner, hrows, ok_bind, hwarnings, haudience]
  refine ⟨_, rfl, hrows, fun text => ?_⟩
  rw [List.mem_append]
  refine or_congr ?_ ?_
  · simp only [List.mem_filterMap, Option.map_eq_some_iff, Tells, rowText]
    constructor
    · rintro ⟨row, hrow, problem, hproblem, rfl⟩
      exact ⟨row.path, row, hrow, rfl, problem, hproblem, rfl⟩
    · rintro ⟨_, row, hrow, rfl, problem, hproblem, rfl⟩
      exact ⟨row, hrow, problem, hproblem, rfl⟩
  · rw [Unnamed]
    cases isNamed (manifest.prop "audience") <;> simp

/-- A field that is declared is shown in its state; one that is not is shown as withheld. -/
theorem mismatched_iff {report manifest : Js} (hmanifest : IsManifest manifest)
    (hnames : ((Designer.fieldsOf manifest).map Prod.fst).Nodup) {path : JsString}
    (hknown : path ∈ knownFields.map ofString) : Mismatched report manifest path ↔
      (∃ e ∈ Designer.fieldsOf manifest, e.1 = path ∧ ¬ Consistent report e) ∨
      path ∈ bodyFields.map ofString ∧ path ∉ (Designer.fieldsOf manifest).map Prod.fst ∧ Carries report path := by
  by_cases hpath : path ∈ (Designer.fieldsOf manifest).map Prod.fst
  · obtain ⟨e, he, rfl⟩ := List.mem_map.mp hpath
    have hconsistent : ¬ Consistent report e ↔ Mismatched report manifest e.1 := by
      rw [Consistent, Mismatched, stateOf_given hmanifest hnames he]
      tauto
    constructor
    · exact fun h => .inl ⟨e, he, rfl, hconsistent.mpr h⟩
    · rintro (⟨e', he', hname, h⟩ | ⟨-, habsent, -⟩)
      · obtain rfl : e' = e := List.inj_on_of_nodup_map hnames he' he hname
        exact hconsistent.mp h
      · exact absurd hpath habsent
  · have hwithheld : ¬ (stateOf manifest path).is (ofString "published") = true := by
      rw [stateOf_absent hpath]
      decide
    rw [Mismatched, iff_false_left hwithheld, not_not]
    constructor
    · exact fun ⟨hbody, hcarries⟩ => .inr ⟨hbody, hpath, hcarries⟩
    · rintro (⟨e, he, rfl, -⟩ | ⟨hbody, -, hcarries⟩)
      · exact absurd (List.mem_map_of_mem he) hpath
      · exact ⟨hbody, hcarries⟩

theorem body_known : ∀ path ∈ bodyFields.map ofString, path ∈ knownFields.map ofString :=
  fun _ hpath => List.map_subset _ (by decide) hpath

/-! ## Refusals -/

theorem packaged_fields {report manifest : Js} (hreport : IsReport report) (hmanifest : IsManifest manifest) :
    BrowserThrows.fieldsOf (packaged report manifest) = Designer.fieldsOf manifest := by
  obtain ⟨props, hprops, -⟩ := hmanifest.fields
  rw [BrowserThrows.fieldsOf, prop_packaged hreport.object, fieldsOf_eq hmanifest, if_pos rfl, hprops]
  rfl

theorem packaged_carried {report manifest : Js} (hreport : IsReport report) (hmanifest : IsManifest manifest) :
    ∃ carried, Browser.carriesData (packaged report manifest) = .ok carried ∧
      ∀ e, FieldPasses carried e ↔ Consistent report e := by
  obtain ⟨n, hn⟩ := accounts_toNumber hreport
  have hprop := prop_packaged hreport.object manifest
  have hdata : bodyData (packaged report manifest) n = bodyData report n := by simp [bodyData, hprop]
  have haccounts : (accountsOf (packaged report manifest)).toNumber = (.ok n : Browser.Throws _) := by
    rw [← hn, accountsOf, accountsOf, hprop]
    rfl
  refine ⟨carriedOf (bodyData report n), ?_, fun e => ?_⟩
  · rw [carriesData_eq (packaged_shape hreport hmanifest) haccounts, hdata]
  · rw [FieldPasses, Consistent, carries_iff (report_shape hreport) hn]
    rfl

theorem refused_iff {report manifest : Js} (hreport : IsReport report) (hmanifest : IsManifest manifest)
    {path : JsString} : Refused report manifest path ↔
      ∃ e ∈ Designer.fieldsOf manifest, e.1 = path ∧ ¬ Consistent report e := by
  obtain ⟨carried, hcarried, hpasses⟩ := packaged_carried hreport hmanifest
  simp only [Refused, hcarried, Except.ok.injEq, exists_eq_left', packaged_fields hreport hmanifest, ne_eq,
    checkManifestField_eq_ok, hpasses]

/-- The verifier passes the packaged report when it refuses none of its fields. -/
theorem packaged_passes_iff {report manifest : Js} (hreport : IsReport report) (hmanifest : IsManifest manifest) :
    Browser.checkReportVersionAndManifest (packaged report manifest) = .ok () ↔
      ∀ e ∈ Designer.fieldsOf manifest, Consistent report e := by
  obtain ⟨carried, hcarried, hpasses⟩ := packaged_carried hreport hmanifest
  have hprop := prop_packaged hreport.object manifest
  have hobject : IsObject ((packaged report manifest).prop "manifest") := by
    rw [hprop]
    exact hmanifest.object
  have hversion : ((packaged report manifest).prop "format_version").is Browser.reportFormatVersionV2 = true := by
    rw [hprop]
    simp [Js.is, Js.strictEq]
  have hundefined : (packaged report manifest).prop "manifest" ≠ .undefined := by
    obtain ⟨props, hprops⟩ := hobject
    simp [hprops]
  rw [checkReportVersionAndManifest_eq_ok (packaged_shape hreport hmanifest), ManifestPasses,
    packaged_fields hreport hmanifest, hcarried]
  simp only [hundefined, and_false, false_or, hversion, hobject, true_and, Except.ok.injEq, exists_eq_left',
    hpasses]

theorem packaged_reads {report manifest : Js} {r : Document.Report} {m : Document.Manifest}
    (hr : ReadsReport report r) (hm : ReadsManifest manifest m) : ReadsReport (packaged report manifest)
      { r with formatVersion := Document.reportFormatVersionV2, manifest := some m } := by
  have hprop := prop_packaged hr.object manifest
  exact
    { object := ⟨_, rfl⟩
      formatVersion := hprop "format_version"
      profile := (hprop "profile").trans hr.profile
      publisher := (hprop "publisher").trans hr.publisher
      snapshotTime := (hprop "snapshot_time").trans hr.snapshotTime
      ledgerOffset := (hprop "ledger_offset").trans hr.ledgerOffset
      rootHash := (hprop "root_hash").trans hr.rootHash
      leafCount := (hprop "leaf_count").trans hr.leafCount
      rootSums := by rw [hprop]; exact hr.rootSums
      markPrices := by rw [hprop]; exact hr.markPrices
      disclosures := by rw [hprop]; exact hr.disclosures
      manifest := by rw [hprop]; exact hm }

section Agreement
variable {locale : PageLocale} {report manifest : Js} {model : DesignerModel} {path text : JsString}
  (hreport : IsReport report) (hmanifest : IsManifest manifest)
  (hnames : ((Designer.fieldsOf manifest).map Prod.fst).Nodup)
include hreport hmanifest hnames

/-- What is told of a field is about a mismatch, and the text begins with the field. -/
theorem Built.mismatched_of_tells (h : Built locale report manifest model) (htells : Tells locale model path text) :
    (path ∈ knownFields.map ofString ∧ Mismatched report manifest path) ∧ subject locale text = path := by
  obtain ⟨rows, hrows, hrow, -⟩ := rows_ok hreport hmanifest hnames locale
  obtain rfl : rows = model.fields := Except.ok.inj (hrows.symm.trans h.rows)
  obtain ⟨row, hmem, rfl, problem, hproblem, rfl⟩ := htells
  obtain ⟨hknown, hnone⟩ := hrow row hmem
  refine ⟨⟨hknown, ?_⟩, subject_rowText locale hknown problem⟩
  by_contra hmatches
  rw [hnone.mpr hmatches] at hproblem
  cases hproblem

theorem Built.tells_of_mismatched (h : Built locale report manifest model)
    (hknown : path ∈ knownFields.map ofString) (hmismatched : Mismatched report manifest path) :
    ∃ text ∈ model.problems, Tells locale model path text := by
  obtain ⟨rows, hrows, hrow, hall⟩ := rows_ok hreport hmanifest hnames locale
  obtain rfl : rows = model.fields := Except.ok.inj (hrows.symm.trans h.rows)
  obtain ⟨row, hmem, rfl⟩ := hall path hknown
  have hproblem : row.problem? ≠ none := fun hnone => (hrow row hmem).2.mp hnone hmismatched
  obtain ⟨problem, hsome⟩ := Option.ne_none_iff_exists'.mp hproblem
  have htells : Tells locale model row.path (rowText locale row.path problem) :=
    ⟨row, hmem, rfl, problem, hsome, rfl⟩
  exact ⟨_, (h.problems _).mpr (.inl ⟨_, htells⟩), htells⟩

theorem Built.shownAsChecked (h : Built locale report manifest model) (hknown : ¬ DeclaresUnknown manifest)
    (hcomplete : ¬ LeavesOut report manifest) (hnamed : ¬ Unnamed manifest) :
    ShownAsChecked locale report manifest model := by
  have hrejected : ∀ text ∈ model.problems, ∃ path, Refused report manifest path ∧
      Tells locale model path text := by
    intro text htext
    obtain ⟨path, htells⟩ := ((h.problems text).mp htext).resolve_right fun h => hnamed h.1
    obtain ⟨⟨hpath, hmismatched⟩, -⟩ := h.mismatched_of_tells hreport hmanifest hnames htells
    refine ⟨path, ?_, htells⟩
    rcases (mismatched_iff hmanifest hnames hpath).mp hmismatched with hdeclared | hleft
    · exact (refused_iff hreport hmanifest).mpr hdeclared
    · exact absurd ⟨path, hleft⟩ hcomplete
  have hshown : ∀ path, Refused report manifest path → ∃ text ∈ model.problems, Tells locale model path text := by
    intro path hrefused
    obtain ⟨e, he, rfl, hnot⟩ := (refused_iff hreport hmanifest).mp hrefused
    have hpath : e.1 ∈ knownFields.map ofString := not_not.mp fun h => hknown ⟨e, he, h⟩
    exact h.tells_of_mismatched hreport hmanifest hnames hpath
      ((mismatched_iff hmanifest hnames hpath).mpr (.inl ⟨e, he, rfl, hnot⟩))
  refine ⟨?_, hrejected, hshown⟩
  rw [packaged_passes_iff hreport hmanifest, List.eq_nil_iff_forall_not_mem]
  constructor
  · intro hnone e he
    by_contra hnot
    obtain ⟨text, htext, -⟩ := hshown e.1 ((refused_iff hreport hmanifest).mpr ⟨e, he, rfl, hnot⟩)
    exact hnone text htext
  · intro hconsistent text htext
    obtain ⟨path, hrefused, -⟩ := hrejected text htext
    obtain ⟨e, he, -, hnot⟩ := (refused_iff hreport hmanifest).mp hrefused
    exact hnot (hconsistent e he)

theorem Built.complete (h : Built locale report manifest model)
    (hchecked : ShownAsChecked locale report manifest model) :
    ¬ DeclaresUnknown manifest ∧ ¬ LeavesOut report manifest ∧ ¬ Unnamed manifest := by
  have hsubject : ∀ {path text}, Tells locale model path text →
      (path ∈ knownFields.map ofString ∧ Mismatched report manifest path) ∧ subject locale text = path :=
    fun htells => h.mismatched_of_tells hreport hmanifest hnames htells
  refine ⟨?_, ?_, ?_⟩
  · rintro ⟨e, he, hunknown⟩
    obtain ⟨text, -, htells⟩ := hchecked.shown e.1
      ((refused_iff hreport hmanifest).mpr ⟨e, he, rfl, fun hconsistent => hunknown hconsistent.1⟩)
    exact hunknown (hsubject htells).1.1
  · rintro ⟨path, hbody, habsent, hcarries⟩
    have hknown := body_known path hbody
    obtain ⟨text, htext, htells⟩ := h.tells_of_mismatched hreport hmanifest hnames hknown
      ((mismatched_iff hmanifest hnames hknown).mpr (.inr ⟨hbody, habsent, hcarries⟩))
    -- the text names the field left out, and a refused field is declared
    obtain ⟨path', hrefused, htells'⟩ := hchecked.rejected text htext
    obtain rfl : path' = path := (hsubject htells').2.symm.trans (hsubject htells).2
    obtain ⟨e, he, hname, -⟩ := (refused_iff hreport hmanifest).mp hrefused
    exact habsent (hname ▸ List.mem_map_of_mem he)
  · intro hunnamed
    obtain ⟨path, -, htells⟩ := hchecked.rejected _ ((h.problems _).mpr (.inr ⟨hunnamed, rfl⟩))
    obtain ⟨⟨hknown, -⟩, hpath⟩ := hsubject htells
    exact subject_noAudience locale (hpath ▸ hknown)

end Agreement

/-- The designer shows what the verifiers refuse, no more and no less, exactly of the manifests that
    declare no unknown field, leave out no field with data and name an audience. -/
theorem designer_agrees_iff (inheritedText : JsString → JsString) (locale : PageLocale) {report manifest : Js}
    (previous : Js) (hreport : IsReport report) (hmanifest : IsManifest manifest)
    (hnames : ((Designer.fieldsOf manifest).map Prod.fst).Nodup) :
    ∃ model, buildDesigner inheritedText report manifest previous locale = .ok model ∧
      (ShownAsChecked locale report manifest model ↔
        ¬ DeclaresUnknown manifest ∧ ¬ LeavesOut report manifest ∧ ¬ Unnamed manifest) ∧
      ∀ r m, ReadsReport report r → ReadsManifest manifest m →
        (Browser.checkReportVersionAndManifest (packaged report manifest) = .ok () ↔
          Verify.checkReportVersionAndManifest
            { r with formatVersion := Document.reportFormatVersionV2, manifest := some m } = .ok ()) := by
  obtain ⟨model, hmodel, hbuilt⟩ := buildDesigner_ok inheritedText previous hreport hmanifest hnames locale
  refine ⟨model, hmodel, ?_, fun r m hr hm => checkReportVersionAndManifest_agrees (packaged_reads hr hm)⟩
  constructor
  · exact fun h => hbuilt.complete hreport hmanifest hnames h
  · rintro ⟨hknown, hcomplete, hnamed⟩
    exact hbuilt.shownAsChecked hreport hmanifest hnames hknown hcomplete hnamed

/-! ## A draft and its manifests -/

instance (report : Js) (path : JsString) : Decidable (Carries report path) :=
  inferInstanceAs (Decidable (Designer.carriesData report path = .ok true))

instance (report : Js) (e : JsString × Js) : Decidable (Consistent report e) :=
  inferInstanceAs (Decidable (e.1 ∈ knownFields.map ofString ∧ (e.1 ∈ bodyFields.map ofString →
    (e.2.is (ofString "published") = true ↔ Carries report e.1))))

instance (manifest : Js) : Decidable (DeclaresUnknown manifest) :=
  inferInstanceAs (Decidable (∃ e ∈ Designer.fieldsOf manifest, e.1 ∉ knownFields.map ofString))

instance (report manifest : Js) : Decidable (LeavesOut report manifest) :=
  inferInstanceAs (Decidable (∃ path ∈ bodyFields.map ofString,
    path ∉ (Designer.fieldsOf manifest).map Prod.fst ∧ Carries report path))

instance (manifest : Js) : Decidable (Unnamed manifest) :=
  inferInstanceAs (Decidable (isNamed (manifest.prop "audience") = false))

instance (report manifest : Js) (path : JsString) : Decidable (Mismatched report manifest path) :=
  inferInstanceAs (Decidable (path ∈ bodyFields.map ofString ∧
    ¬ ((stateOf manifest path).is (ofString "published") = true ↔ Carries report path)))

def draftReport : Document.Report where
  formatVersion := Document.reportFormatVersion
  profile := "solvency.liabilities"
  publisher := "rocky"
  snapshotTime := "2026-01-01T00:00:00Z"
  ledgerOffset := "42"
  rootHash := ""
  leafCount := 1
  rootSums := SortedMap.ofList [("USDA", 7)]
  markPrices := SortedMap.empty
  disclosures := ⟨SortedMap.empty, 0, SortedMap.empty⟩
  manifest := none

def draft : Js := Js.ofJson (Wire.report.encode draftReport)

theorem draft_typed : IsReport draft := Rendering.isReport draftReport

theorem draft_reads : ReadsReport draft draftReport :=
  readsReport_of_decode (Wire.report.decode_encode draftReport) draft_typed

def publicManifest (audience : String) (fields : List (String × Document.Disclosure)) : Document.Manifest :=
  ⟨audience, SortedMap.ofList fields⟩

def consistent : Document.Manifest := publicManifest "public" [("root_sums", .published)]

/-- A manifest that is complete and has an audience. -/
theorem designer_agrees_iff_draft :
    ∃ model, buildDesigner id draft (document consistent) .null .en = .ok model ∧
      ShownAsChecked .en draft (document consistent) model ∧
      (Browser.checkReportVersionAndManifest (packaged draft (document consistent)) = .ok () ↔
        Verify.checkReportVersionAndManifest { draftReport with
          formatVersion := Document.reportFormatVersionV2, manifest := some consistent } = .ok ()) := by
  obtain ⟨model, hmodel, hagrees, hrust⟩ := designer_agrees_iff id .en .null draft_typed
    (Rendering.isManifest consistent) (by decide +kernel)
  exact ⟨model, hmodel, hagrees.mpr (by decide +kernel), hrust _ _ draft_reads (document_reads consistent)⟩

def unaddressed : Document.Manifest := publicManifest " " [("root_sums", .published)]
def misspelled : Document.Manifest := publicManifest "public" [("root_sums", .published), ("rootsums", .withheld)]
def incomplete : Document.Manifest := publicManifest "public" []

/-- A blank audience and a field left out are problems that no verifier has; an unknown field is none, and
    refused. -/
theorem designer_disagrees :
    (∀ m ∈ [unaddressed, incomplete],
      ∃ model, buildDesigner id draft (document m) .null .en = .ok model ∧ model.problems ≠ [] ∧
        Browser.checkReportVersionAndManifest (packaged draft (document m)) = .ok ()) ∧
    ∃ model, buildDesigner id draft (document misspelled) .null .en = .ok model ∧ model.problems = [] ∧
      Browser.checkReportVersionAndManifest (packaged draft (document misspelled)) ≠ .ok () := by
  have hbuilt : ∀ m, ((Designer.fieldsOf (document m)).map Prod.fst).Nodup → _ := fun m hnames =>
    buildDesigner_ok id .null draft_typed (Rendering.isManifest m) hnames .en
  have hpasses : ∀ m, _ := fun m => packaged_passes_iff draft_typed (Rendering.isManifest m)
  refine ⟨?_, ?_⟩
  · intro m hm
    have hcases : ((Designer.fieldsOf (document m)).map Prod.fst).Nodup ∧
        (∀ e ∈ Designer.fieldsOf (document m), Consistent draft e) ∧
        (LeavesOut draft (document m) ∨ Unnamed (document m)) := by
      revert m
      decide +kernel
    obtain ⟨hnames, hconsistent, hproblem⟩ := hcases
    obtain ⟨model, hmodel, hmade⟩ := hbuilt m hnames
    refine ⟨model, hmodel, fun hnone => ?_, (hpasses m).mpr hconsistent⟩
    -- with nothing shown and nothing refused, the two would agree
    have hagrees : ShownAsChecked .en draft (document m) model := by
      refine ⟨iff_of_true hnone ((hpasses m).mpr hconsistent), by simp [hnone], fun path hrefused => ?_⟩
      obtain ⟨e, he, -, hnot⟩ := (refused_iff draft_typed (Rendering.isManifest m)).mp hrefused
      exact absurd (hconsistent e he) hnot
    obtain ⟨-, hcomplete, hnamed⟩ := hmade.complete draft_typed (Rendering.isManifest m) hnames hagrees
    exact hproblem.elim hcomplete hnamed
  · have hnames : ((Designer.fieldsOf (document misspelled)).map Prod.fst).Nodup := by decide +kernel
    obtain ⟨model, hmodel, hmade⟩ := hbuilt misspelled hnames
    have hquiet : ∀ path ∈ knownFields.map ofString, ¬ Mismatched draft (document misspelled) path := by
      decide +kernel
    refine ⟨model, hmodel, List.eq_nil_iff_forall_not_mem.mpr fun text htext => ?_, fun hpass => ?_⟩
    · rcases (hmade.problems text).mp htext with ⟨path, htells⟩ | ⟨hunnamed, -⟩
      · obtain ⟨⟨hknown, hmismatched⟩, -⟩ :=
          hmade.mismatched_of_tells draft_typed (Rendering.isManifest misspelled) hnames htells
        exact hquiet path hknown hmismatched
      · exact absurd hunnamed (by decide +kernel)
    · exact absurd ((hpasses misspelled).mp hpass) (by decide +kernel)

end AssuranceLayer.DesignerAgreement
