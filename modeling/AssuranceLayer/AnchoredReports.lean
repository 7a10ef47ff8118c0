import AssuranceLayer.Grading

set_option autoImplicit false

/-!
A history of anchors beside the reports they stand for: what the check of the pairs leaves open.
-/
namespace AssuranceLayer.AnchoredReports
open Fallible Document Digest Produce Anchoring Grading

variable (sha256 : List UInt8 → Digest)

def checkAnchoredReport (anchor : Anchor) (signed : SignedReport) (index : ℕ) : Except ChainFailure Unit :=
  ensure (anchor.reportDigest = reportDigestHex sha256 signed.report ∧
    anchor.rootHash = signed.report.rootHash) (.reportMismatch index)

/-- Reports are matched with the anchors by position. -/
def verifyAnchoredReports (anchors : List Anchor) (reports : List SignedReport) : Except ChainFailure Unit :=
  forM (anchors.zip reports).zipIdx fun pair => checkAnchoredReport sha256 pair.1.1 pair.1.2 pair.2

/-- What an anchor says of a report. -/
structure DescribesReport (anchor : Anchor) (signed : SignedReport) : Prop where
  reportDigest : anchor.reportDigest = reportDigestHex sha256 signed.report
  rootHash : anchor.rootHash = signed.report.rootHash
  snapshotTime : anchor.snapshotTime = signed.report.snapshotTime
  ledgerOffset : anchor.ledgerOffset = signed.report.ledgerOffset
  publisher : anchor.publisher = signed.report.publisher

/-- Every anchor has its report, every report its anchor, and they agree. -/
def Describes (history : List Anchor) (reports : List SignedReport) : Prop :=
  history.length = reports.length ∧
    ∀ (i : ℕ) (a : Anchor) (s : SignedReport), history[i]? = some a → reports[i]? = some s →
      DescribesReport sha256 a s

/-- The fields that are not compared. -/
structure SameMoment (anchor : Anchor) (signed : SignedReport) : Prop where
  snapshotTime : anchor.snapshotTime = signed.report.snapshotTime
  ledgerOffset : anchor.ledgerOffset = signed.report.ledgerOffset
  publisher : anchor.publisher = signed.report.publisher

variable {sha256}

theorem verifyAnchoredReports_eq_ok {history : List Anchor} {reports : List SignedReport} :
    verifyAnchoredReports sha256 history reports = .ok () ↔
      ∀ (i : ℕ) (a : Anchor) (s : SignedReport), history[i]? = some a → reports[i]? = some s →
        a.reportDigest = reportDigestHex sha256 s.report ∧ a.rootHash = s.report.rootHash := by
  simp only [verifyAnchoredReports, forM_eq_ok, checkAnchoredReport, ensure_eq_ok, Prod.forall,
    List.mk_mem_zipIdx_iff_getElem?, List.getElem?_zip_eq_some]
  constructor
  · exact fun h i a s ha hs => h a s i ⟨ha, hs⟩
  · exact fun h a s i hpair => h i a s hpair.1 hpair.2

theorem version_of_verifyChain {history : List Anchor} (h : verifyChain sha256 history = .ok ()) {i : ℕ}
    {a : Anchor} (ha : history[i]? = some a) : a.formatVersion = anchorFormatVersion :=
  (verifyChain_eq_ok.mp h).1 a (List.mem_of_getElem? ha)

theorem describes_iff {a : Anchor} {s : SignedReport} (hdigest : a.reportDigest = reportDigestHex sha256 s.report)
    (hroot : a.rootHash = s.report.rootHash) : DescribesReport sha256 a s ↔ SameMoment a s :=
  ⟨fun h => ⟨h.snapshotTime, h.ledgerOffset, h.publisher⟩,
    fun h => ⟨hdigest, hroot, h.snapshotTime, h.ledgerOffset, h.publisher⟩⟩

/-- The grading of a report asks all of it of an anchor. -/
theorem anchors_iff {a : Anchor} {s : SignedReport} (hversion : a.formatVersion = anchorFormatVersion) :
    anchors s.report a (reportDigestHex sha256 s.report) = true ↔ DescribesReport sha256 a s := by
  rw [anchors, decide_eq_true_eq]
  constructor
  · rintro ⟨-, hdigest, hroot, htime, hoffset, hpublisher⟩
    exact ⟨hdigest, hroot, htime, hoffset, hpublisher⟩
  · rintro ⟨hdigest, hroot, htime, hoffset, hpublisher⟩
    exact ⟨hversion, hdigest, hroot, htime, hoffset, hpublisher⟩

/-- Lists that both checks accept agree, as far as both go, about digest and root hash. They describe
    each other exactly when they are of one length and every anchor names the time, the offset and the
    publisher of the report at its place, which is when it counts as evidence for that report. -/
theorem anchored_history_iff {history : List Anchor} {reports : List SignedReport}
    (hchain : verifyChain sha256 history = .ok ())
    (hreports : verifyAnchoredReports sha256 history reports = .ok ()) :
    (∀ (i : ℕ) (a : Anchor) (s : SignedReport), history[i]? = some a → reports[i]? = some s →
      a.reportDigest = reportDigestHex sha256 s.report ∧ a.rootHash = s.report.rootHash) ∧
    (Describes sha256 history reports ↔ history.length = reports.length ∧
      ∀ (i : ℕ) (a : Anchor) (s : SignedReport), history[i]? = some a → reports[i]? = some s →
        SameMoment a s) ∧
    ∀ (i : ℕ) (a : Anchor) (s : SignedReport), history[i]? = some a → reports[i]? = some s →
      (SameMoment a s ↔ anchors s.report a (reportDigestHex sha256 s.report) = true) := by
  have hagree := verifyAnchoredReports_eq_ok.mp hreports
  have hpair : ∀ (i : ℕ) (a : Anchor) (s : SignedReport), history[i]? = some a → reports[i]? = some s →
      (DescribesReport sha256 a s ↔ SameMoment a s) := fun i a s ha hs =>
    let ⟨hdigest, hroot⟩ := hagree i a s ha hs
    describes_iff hdigest hroot
  refine ⟨hagree, ?_, ?_⟩
  · exact and_congr_right fun _ => forall₃_congr fun i a s => forall₂_congr fun ha hs => hpair i a s ha hs
  · exact fun i a s ha hs => (hpair i a s ha hs).symm.trans (anchors_iff (version_of_verifyChain hchain ha)).symm

/-! ## A day's report, and what may stand beside it -/

def day : SignedReport := signedSilent none

def anchorOfDay : Anchor := anchorReport Sha256.sha256 day none

theorem day_accepted (edit : Anchor → Anchor)
    (h : ∀ a, (edit a).formatVersion = a.formatVersion ∧ (edit a).prevAnchor = a.prevAnchor ∧
      (edit a).reportDigest = a.reportDigest ∧ (edit a).rootHash = a.rootHash) :
    verifyChain Sha256.sha256 [edit anchorOfDay] = .ok () ∧
      verifyAnchoredReports Sha256.sha256 [edit anchorOfDay] [day] = .ok () := by
  obtain ⟨hversion, hprev, hdigest, hroot⟩ := h anchorOfDay
  constructor
  · refine verifyChain_eq_ok.mpr ⟨?_, ?_, List.isChain_singleton _⟩
    · rintro a ha
      rw [List.mem_singleton.mp ha, hversion]
      rfl
    · rintro a ha
      rw [← Option.some.inj ha, hprev]
      rfl
  · refine verifyAnchoredReports_eq_ok.mpr fun i a s ha hs => ?_
    obtain ⟨rfl, rfl⟩ : a = edit anchorOfDay ∧ s = day := by
      cases i with
      | zero => exact ⟨(Option.some.inj ha).symm, (Option.some.inj hs).symm⟩
      | succ i => simp at ha
    exact ⟨hdigest, hroot⟩

/-- One day and its own anchor. -/
theorem anchored_history_iff_day : Describes Sha256.sha256 [anchorOfDay] [day] ↔
    [anchorOfDay].length = [day].length ∧ ∀ (i : ℕ) (a : Anchor) (s : SignedReport),
      [anchorOfDay][i]? = some a → [day][i]? = some s → SameMoment a s := by
  obtain ⟨hchain, hreports⟩ := day_accepted id fun _ => ⟨rfl, rfl, rfl, rfl⟩
  exact (anchored_history_iff hchain hreports).2.1

def restated (a : Anchor) : Anchor := { a with snapshotTime := "2030-01-01T00:00:00Z" }

/-- An anchor that names another time, and an anchor without a report, are both accepted. -/
theorem anchored_history_not_described :
    (verifyChain Sha256.sha256 [restated anchorOfDay] = .ok () ∧
      verifyAnchoredReports Sha256.sha256 [restated anchorOfDay] [day] = .ok () ∧
      ¬ Describes Sha256.sha256 [restated anchorOfDay] [day]) ∧
    verifyChain Sha256.sha256 [anchorOfDay] = .ok () ∧
      verifyAnchoredReports Sha256.sha256 [anchorOfDay] [] = .ok () ∧
      ¬ Describes Sha256.sha256 [anchorOfDay] [] := by
  obtain ⟨hchain, hreports⟩ := day_accepted restated fun _ => ⟨rfl, rfl, rfl, rfl⟩
  refine ⟨⟨hchain, hreports, fun h => ?_⟩, (day_accepted id fun _ => ⟨rfl, rfl, rfl, rfl⟩).1, rfl,
    fun h => absurd h.1 (by decide)⟩
  have htime : "2030-01-01T00:00:00Z" = day.report.snapshotTime := (h.2 0 _ _ rfl rfl).snapshotTime
  exact absurd htime (by decide)

end AssuranceLayer.AnchoredReports
