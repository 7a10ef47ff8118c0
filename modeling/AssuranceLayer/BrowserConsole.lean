import AssuranceLayer.BrowserChain
import AssuranceLayer.BrowserTypes

set_option autoImplicit false

/-!
The console's view of an anchor history, which judges every row on its own, and the walk that stops
at the first failure.
-/
namespace AssuranceLayer.Browser
open Fallible Utf16 JavaScript

inductive ChainProblem where
  /-- "unrecognised anchor format {found}" -/
  | unrecognisedFormat (found : JsString)
  /-- "the first anchor names a predecessor, so this history does not start at its beginning" -/
  | notTheBeginning
  /-- "does not name the anchor before it" -/
  | notTheOneBefore
  /-- "publisher changed from {before}" -/
  | publisherChanged (before : JsString)
  /-- "snapshot time does not advance, so an instant has been restated" -/
  | timeRestated
  /-- "ledger offset moves backwards" -/
  | offsetRewound
deriving DecidableEq

structure HistoryRow where
  index : ℕ
  snapshotTime : Js
  reportDigest : Js
  linked : Bool
  /-- Why not, when `linked` is false. -/
  problem : Option ChainProblem

variable (sha256 : List UInt8 → Digest)

/-- What stops this anchor following the one before it, if anything. -/
def chainProblem (anchors : List Js) (index : ℕ) : Throws (Option ChainProblem) := do
  let anchor := anchors.getD index .undefined
  let version ← anchor.get "format_version"
  if version.is anchorFormatVersion = false then
    return some (.unrecognisedFormat (← version.text))
  let prev ← anchor.get "prev_anchor"
  match index with
  | 0 => return if prev.strictEq .undefined then none else some .notTheBeginning
  | i + 1 =>
    let previous := anchors.getD i .undefined
    let digest ← anchorDigestHex sha256 previous
    if prev.is digest = false then return some .notTheOneBefore
    let publisher ← anchor.get "publisher"
    let before ← previous.get "publisher"
    if publisher.strictEq before = false then return some (.publisherChanged (← before.text))
    let later ← (do (← previous.get "snapshot_time").lt (← anchor.get "snapshot_time"))
    if later = some false then return some .timeRestated
    let rewound ← (do (← anchor.get "ledger_offset").lt (← previous.get "ledger_offset"))
    if rewound = some true then return some .offsetRewound
    return none

def historyRow (anchors : List Js) (anchor : Js) (index : ℕ) : Throws HistoryRow := do
  let problem ← chainProblem sha256 anchors index
  let snapshotTime ← anchor.get "snapshot_time"
  let reportDigest ← anchor.get "report_digest"
  return ⟨index, snapshotTime, reportDigest, problem.isNone, problem⟩

/-- Each row says whether it links to the one before it. -/
def historyRows (anchors : List Js) : Throws (List HistoryRow) :=
  anchors.zipIdx.mapM fun e => historyRow sha256 anchors e.1 e.2

/-- The place at which a walk has failed. -/
def ChainFailure.index : ChainFailure → Option ℕ
  | .unsupportedVersion i _ | .broken i | .publisherChanged i | .wentBackwards i _ => some i
  | .notGenesis => some 0
  | .malformed _ => none

/-! ## One row -/

section
variable {sha256}

theorem lp_str (s : JsString) : lp (.str s) = .ok (lpBytes (Utf16.encode s)) := rfl

variable (sha256) in
theorem anchorDigestHex_typed {v : Js} (h : IsAnchor v) : ∃ digest, anchorDigestHex sha256 v = .ok digest := by
  obtain ⟨fv, hfv⟩ := h.formatVersion
  obtain ⟨rd, hrd⟩ := h.reportDigest
  obtain ⟨rh, hrh⟩ := h.rootHash
  obtain ⟨st, hst⟩ := h.snapshotTime
  obtain ⟨lo, hlo⟩ := h.ledgerOffset
  obtain ⟨pb, hpb⟩ := h.publisher
  obtain ⟨pk, hpk⟩ := h.publisherKey
  simp only [anchorDigestHex, anchorPreimage, h.object.get, ok_bind, hfv, hrd, hrh, hst, hlo, hpb, hpk, lp_str]
  obtain hprev | ⟨prev, hprev⟩ := h.prevAnchor
  · rw [hprev]
    exact ⟨_, rfl⟩
  · rw [hprev]
    exact ⟨_, rfl⟩

/-- A row and a step of the walk that judge an anchor alike. -/
def Alike (index : ℕ) (problem : Throws (Option ChainProblem)) (step : Except ChainFailure Unit) : Prop :=
  (problem = .ok none ∧ step = .ok ()) ∨
    ∃ p failure, problem = .ok (some p) ∧ step = .error failure ∧ failure.index = some index

theorem Alike.passed {index : ℕ} : Alike index (.ok none) (.ok ()) := .inl ⟨rfl, rfl⟩

theorem Alike.failed {index : ℕ} {p : ChainProblem} {failure : ChainFailure} (h : failure.index = some index) :
    Alike index (.ok (some p)) (.error failure) :=
  .inr ⟨p, failure, rfl, rfl, h⟩

theorem first_alike {anchors : List Js} {v : Js} (h : IsAnchor v) (hv : anchors[0]? = some v) :
    Alike 0 (chainProblem sha256 anchors 0) (checkAnchor sha256 anchors v 0) := by
  have hget : anchors.getD 0 .undefined = v := by rw [List.getD_eq_getElem?_getD, hv]; rfl
  obtain ⟨fv, hfv⟩ := h.formatVersion
  simp only [chainProblem, checkAnchor, hget, h.object.get, ok_bind, attempt, hfv, Except.mapError]
  by_cases hversion : (Js.str fv).is anchorFormatVersion = true
  · by_cases hprev : (v.prop "prev_anchor").strictEq .undefined = true
    · simp only [hversion, hprev, ensure]
      exact Alike.passed
    · simp only [hversion, hprev, ensure]
      exact Alike.failed rfl
  · simp only [hversion, ensure, Js.text]
    exact Alike.failed rfl

/-- The rules stand in one order in both, and no rule behind a broken one is looked at. -/
theorem next_alike {anchors : List Js} {v w : Js} {i : ℕ} (h : IsAnchor v) (hw : IsAnchor w)
    (hv : anchors[i + 1]? = some v) (hi : anchors[i]? = some w) :
    Alike (i + 1) (chainProblem sha256 anchors (i + 1)) (checkAnchor sha256 anchors v (i + 1)) := by
  have hget : anchors.getD (i + 1) .undefined = v := by rw [List.getD_eq_getElem?_getD, hv]; rfl
  have hget' : anchors.getD i .undefined = w := by rw [List.getD_eq_getElem?_getD, hi]; rfl
  obtain ⟨digest, hdigest⟩ := anchorDigestHex_typed sha256 hw
  obtain ⟨fv, hfv⟩ := h.formatVersion
  obtain ⟨pb, hpb⟩ := h.publisher
  obtain ⟨pb', hpb'⟩ := hw.publisher
  obtain ⟨st, hst⟩ := h.snapshotTime
  obtain ⟨st', hst'⟩ := hw.snapshotTime
  obtain ⟨lo, hlo⟩ := h.ledgerOffset
  obtain ⟨lo', hlo'⟩ := hw.ledgerOffset
  have hlt : ∀ s t : JsString, ((Js.str s).lt (.str t) : Throws _) =
      .ok (some (decide (unitValues s < unitValues t))) := fun _ _ => rfl
  simp only [chainProblem, checkAnchor, hget, hget', h.object.get, hw.object.get, ok_bind, attempt, hfv,
    hdigest, hpb, hpb', hst, hst', hlo, hlo', hlt, Except.mapError]
  by_cases hversion : (Js.str fv).is anchorFormatVersion = true
  · by_cases hprev : (v.prop "prev_anchor").is digest = true
    · have hdefined : (v.prop "prev_anchor").strictEq .undefined = false := by
        cases hp : v.prop "prev_anchor" <;> simp_all [Js.is, Js.strictEq]
      by_cases hpublisher : (Js.str pb).strictEq (.str pb') = true
      · by_cases htime : unitValues st' < unitValues st
        · by_cases hoffset : unitValues lo < unitValues lo'
          · simp only [hversion, hprev, hdefined, hpublisher, htime, hoffset, ensure]
            exact Alike.failed rfl
          · simp only [hversion, hprev, hdefined, hpublisher, htime, hoffset, ensure]
            exact Alike.passed
        · simp only [hversion, hprev, hdefined, hpublisher, htime, ensure]
          exact Alike.failed rfl
      · simp only [hversion, hprev, hdefined, hpublisher, ensure, Js.text]
        exact Alike.failed rfl
    · -- An anchor that names no predecessor names the one before it as little as one that names another.
      by_cases hdefined : (v.prop "prev_anchor").strictEq .undefined = true
      · simp only [hversion, hprev, hdefined, ensure]
        exact Alike.failed rfl
      · simp only [hversion, hprev, hdefined, ensure]
        exact Alike.failed rfl
  · simp only [hversion, ensure, Js.text]
    exact Alike.failed rfl

variable (sha256) in
theorem anchor_alike {anchors : List Js} (h : ∀ v ∈ anchors, IsAnchor v) {v : Js} {i : ℕ}
    (hv : anchors[i]? = some v) :
    Alike i (chainProblem sha256 anchors i) (checkAnchor sha256 anchors v i) := by
  cases i with
  | zero => exact first_alike (h v (List.mem_of_getElem? hv)) hv
  | succ i =>
    have hi : i < anchors.length := Nat.lt_of_succ_lt (List.getElem?_eq_some_iff.mp hv).1
    exact next_alike (h v (List.mem_of_getElem? hv)) (h _ (List.getElem_mem hi)) hv
      (List.getElem?_eq_getElem hi)

/-! ## The whole history -/

variable (sha256) in
/-- A row shows what the walk finds at its place. -/
structure Shows (anchors : List Js) (e : Js × ℕ) (row : HistoryRow) : Prop where
  index : row.index = e.2
  linked : row.linked = true ↔ checkAnchor sha256 anchors e.1 e.2 = .ok ()
  place : ∀ failure, checkAnchor sha256 anchors e.1 e.2 = .error failure → failure.index = some e.2

variable (sha256) in
theorem historyRow_shows {anchors : List Js} (h : ∀ v ∈ anchors, IsAnchor v) {e : Js × ℕ}
    (he : e ∈ anchors.zipIdx) : ∃ row, historyRow sha256 anchors e.1 e.2 = .ok row ∧
      Shows sha256 anchors e row := by
  obtain ⟨v, i⟩ := e
  have hv : anchors[i]? = some v := List.mem_zipIdx_iff_getElem?.mp he
  have hobject := (h v (List.mem_of_getElem? hv)).object
  simp only [historyRow, hobject.get, ok_bind]
  obtain ⟨hproblem, hstep⟩ | ⟨p, failure, hproblem, hstep, hindex⟩ := anchor_alike sha256 h hv
  · rw [hproblem]
    refine ⟨_, rfl, rfl, iff_of_true rfl hstep, fun failure hfailure => ?_⟩
    rw [hstep] at hfailure
    cases hfailure
  · rw [hproblem]
    refine ⟨_, rfl, rfl, iff_of_false Bool.false_ne_true fun hok => ?_, fun failure' hfailure => ?_⟩
    · rw [hstep] at hok
      cases hok
    · rw [hstep] at hfailure
      cases hfailure
      exact hindex

variable (sha256) in
/-- The rows are all linked exactly when the walk accepts, and the first that is not stands where the
    walk stops. -/
theorem history_rows_agree (anchors : List Js) (h : ∀ v ∈ anchors, IsAnchor v) :
    ∃ rows, historyRows sha256 anchors = .ok rows ∧ rows.map HistoryRow.index = List.range anchors.length ∧
      ((∀ row ∈ rows, row.linked = true) ↔ verifyAnchorChain sha256 (.arr anchors) = .ok ()) ∧
      ∀ failure, verifyAnchorChain sha256 (.arr anchors) = .error failure →
        ∃ pre row post, rows = pre ++ row :: post ∧ (∀ r ∈ pre, r.linked = true) ∧
          row.linked = false ∧ failure.index = some row.index := by
  obtain ⟨rows, hrows⟩ := exists_mapM_eq_ok.mpr fun e he =>
    (historyRow_shows sha256 h he).imp fun _ hrow => hrow.1
  have hshows : List.Forall₂ (Shows sha256 anchors) anchors.zipIdx rows := by
    refine (List.forall₂_iff_get.mpr ⟨(mapM_eq_ok.mp hrows).length_eq, fun i hi hi' => ?_⟩)
    obtain ⟨row, hrow, hshow⟩ := historyRow_shows sha256 h (List.get_mem anchors.zipIdx ⟨i, hi⟩)
    have heq := (mapM_eq_ok.mp hrows).get hi hi'
    rw [hrow] at heq
    exact Except.ok.inj heq ▸ hshow
  have hchain : verifyAnchorChain sha256 (.arr anchors) =
      forM anchors.zipIdx fun e => checkAnchor sha256 anchors e.1 e.2 := rfl
  refine ⟨rows, hrows, ?_, ?_, fun failure hfailure => ?_⟩
  · have hindex : rows.map HistoryRow.index = anchors.zipIdx.map Prod.snd := by
      rw [← List.forall₂_eq_eq_eq, List.forall₂_map_left_iff, List.forall₂_map_right_iff]
      exact hshows.flip.imp fun _ _ hs => hs.index
    rw [hindex, List.zipIdx_map_snd, List.range'_eq_map_range]
    simp
  · rw [hchain, forM_eq_ok]
    constructor
    · intro hall e he
      obtain ⟨row, hrow, hshow⟩ := exists_of_forall₂ hshows he
      exact hshow.linked.mp (hall row hrow)
    · intro hall row hrow
      obtain ⟨e, he, hshow⟩ := exists_of_forall₂ hshows.flip hrow
      exact hshow.linked.mpr (hall e he)
  · rw [hchain, forM_eq_error_iff] at hfailure
    obtain ⟨before, e, after, hsplit, hbefore, he⟩ := hfailure
    rw [hsplit] at hshows
    have hpre := List.forall₂_take_append _ _ _ hshows.flip
    obtain ⟨row, post, hrow, -, hdrop⟩ :=
      List.forall₂_cons_right_iff.mp (List.forall₂_drop_append _ _ _ hshows.flip)
    refine ⟨_, row, post, hdrop ▸ (List.take_append_drop before.length rows).symm, fun r hr => ?_, ?_, ?_⟩
    · obtain ⟨d, hd, hshow⟩ := exists_of_forall₂ hpre hr
      exact hshow.linked.mpr (hbefore d hd)
    · rw [← Bool.not_eq_true, hrow.linked, he]
      simp
    · rw [hrow.index]
      exact hrow.place failure he

end

/-! ## A history that changes hands -/

def sampleAnchor (time publisher : String) (prev : List (String × Js)) : Js :=
  Js.object ([("format_version", .str anchorFormatVersion), ("report_digest", Js.string "00"),
    ("root_hash", Js.string "11"), ("snapshot_time", Js.string time), ("ledger_offset", Js.string "01"),
    ("publisher", Js.string publisher), ("publisher_key", Js.string "22")] ++ prev)

def firstAnchor : Js := sampleAnchor "2026-01-01T00:00:00Z" "venue::one" []

def secondAnchor (publisher : String) : Js :=
  sampleAnchor "2026-01-02T00:00:00Z" publisher
    [("prev_anchor", .str ((anchorDigestHex Sha256.sha256 firstAnchor).toOption.getD []))]

theorem sample_typed : ∀ v ∈ [firstAnchor, secondAnchor "venue::two"], IsAnchor v := by
  intro v hv
  rcases List.mem_pair.mp hv with rfl | rfl
  · exact ⟨⟨_, rfl⟩, ⟨_, rfl⟩, ⟨_, rfl⟩, ⟨_, rfl⟩, ⟨_, rfl⟩, ⟨_, rfl⟩, ⟨_, rfl⟩, ⟨_, rfl⟩, .inl rfl⟩
  · exact ⟨⟨_, rfl⟩, ⟨_, rfl⟩, ⟨_, rfl⟩, ⟨_, rfl⟩, ⟨_, rfl⟩, ⟨_, rfl⟩, ⟨_, rfl⟩, ⟨_, rfl⟩, .inr ⟨_, rfl⟩⟩

theorem history_rows_agree_two : ∃ rows failure,
    historyRows Sha256.sha256 [firstAnchor, secondAnchor "venue::two"] = .ok rows ∧
      rows.map HistoryRow.linked = [true, false] ∧
      verifyAnchorChain Sha256.sha256 (.arr [firstAnchor, secondAnchor "venue::two"]) = .error failure ∧
      failure.index = some 1 := by
  obtain ⟨rows, hrows, hindex, hlinked, hfailed⟩ := history_rows_agree Sha256.sha256 _ sample_typed
  have hshown : (historyRows Sha256.sha256 [firstAnchor, secondAnchor "venue::two"]).toOption.map
      (List.map HistoryRow.linked) = some [true, false] := by decide +kernel
  rw [hrows] at hshown
  have hrow : rows.map HistoryRow.linked = [true, false] := Option.some.inj hshown
  cases hchain : verifyAnchorChain Sha256.sha256 (.arr [firstAnchor, secondAnchor "venue::two"]) with
  | ok u =>
    have hall := hlinked.mpr hchain
    have hmem : false ∈ rows.map HistoryRow.linked := by rw [hrow]; decide
    obtain ⟨row, hmem, hfalse⟩ := List.mem_map.mp hmem
    exact absurd (hall row hmem) (by rw [hfalse]; decide)
  | error failure =>
    obtain ⟨pre, row, post, rfl, hpre, hfalse, hplace⟩ := hfailed failure hchain
    refine ⟨_, failure, hrows, hrow, rfl, ?_⟩
    simp only [List.map_append, List.map_cons] at hrow hindex
    -- The first row that is not linked is the second.
    have hone : (pre.map HistoryRow.linked).length = 1 := by
      cases pre with
      | nil => simp [hfalse] at hrow
      | cons first rest =>
        cases rest with
        | nil => rfl
        | cons second rest =>
          have hsecond := hpre second (by simp)
          simp [hsecond] at hrow
    have hget := congrArg (fun is => is[1]?) hindex
    rw [List.length_map] at hone
    rw [hplace]
    simpa [List.getElem?_append_right, hone] using hget

end AssuranceLayer.Browser
