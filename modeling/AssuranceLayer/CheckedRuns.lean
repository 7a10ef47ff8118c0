import AssuranceLayer.Aggregation
import AssuranceLayer.JsonText
import AssuranceLayer.PackExactness
import AssuranceLayer.VerifyCommand

set_option autoImplicit false

/-!
What the exit of a command-line run says: what was checked when it ends in success, and which report
a passing pack is about.
-/
namespace AssuranceLayer.CheckedRuns
open Fallible Document Digest Profile Sign Verify Gates EvidencePack PackExactness Anchoring SortedMap
open VerifyCommand

section Run
variable (sha256 : List UInt8 → Digest) (ed : Ed25519) (parse : String → Option Json) (fs : FileSystem)

def documents {δ : Type} (kind : Kind δ) (paths : List FilePath) : List (FilePath × δ) :=
  paths.filterMap fun path => ((fs.readToString path).bind kind.read).map (Prod.mk path)

/-- Every file can be read, and is a document of the kind or may stand beside one. -/
def Recognised {δ : Type} (kind : Kind δ) (sweeping : Bool) (paths : List FilePath) : Prop :=
  ∀ path ∈ paths, ∃ text, fs.readToString path = some text ∧
    ((kind.read text).isSome = true ∨ sweeping = true ∧ kind.skip text = true)

/-- The directory has documents to sweep, and all of them are skipped. -/
def OnlySiblings {δ : Type} (kind : Kind δ) (dir : FilePath) : Prop :=
  ∃ paths, proofPaths fs dir = .ok paths ∧ ∀ path ∈ paths, ∃ text,
    fs.readToString path = some text ∧ kind.read text = none ∧ kind.skip text = true

def VacuousSweep {δ : Type} (kind : Kind δ) (report : FilePath) (source : ProofSource) : Prop :=
  (∃ signed, load parse fs Wire.signedReport report = .ok signed) ∧
    ∃ dir, source = .dir dir ∧ OnlySiblings fs kind dir

/-- Something was checked, and each outcome is a document that verified against the report. -/
def Checked {δ : Type} (kind : Kind δ) (report : FilePath) (key : String)
    (outcomes : List ProofOutcome) : Prop :=
  outcomes ≠ [] ∧ ∃ signed, load parse fs Wire.signedReport report = .ok signed ∧
    ∀ o ∈ outcomes, ∃ text doc, fs.readToString o.path = some text ∧ kind.read text = some doc ∧
      kind.check signed key doc = .ok ()

structure IndexAccepted (dir : FilePath) (key : String) (pack : SignedPack) : Prop where
  index : load parse fs Wire.signedPack (dir ++ [utf8 packFile]) = .ok pack
  delivery : ∃ members, delivered fs dir = .ok members ∧
    verifyPack sha256 ed pack key members = .ok ()

variable {sha256 ed parse fs} {δ : Type} {kind : Kind δ} {signed : SignedReport} {key : String}

theorem failureOf_eq_none {ε : Type} {x : Except ε Unit} : failureOf x = none ↔ x = .ok () := by
  cases x <;> simp [failureOf]

theorem mem_documents {paths : List FilePath} {d : FilePath × δ} : d ∈ documents fs kind paths ↔
    d.1 ∈ paths ∧ ∃ text, fs.readToString d.1 = some text ∧ kind.read text = some d.2 := by
  obtain ⟨path, doc⟩ := d
  simp only [documents, List.mem_filterMap, Option.map_eq_some_iff, Option.bind_eq_some_iff,
    Prod.mk.injEq]
  constructor
  · rintro ⟨_, hpath, _, ⟨text, htext, hdoc⟩, rfl, rfl⟩
    exact ⟨hpath, text, htext, hdoc⟩
  · rintro ⟨hpath, text, htext, hdoc⟩
    exact ⟨path, hpath, doc, ⟨text, htext, hdoc⟩, rfl, rfl⟩

theorem recognised_cons {sweeping : Bool} {path : FilePath} {paths : List FilePath} :
    Recognised fs kind sweeping (path :: paths) ↔ (∃ text, fs.readToString path = some text ∧
      ((kind.read text).isSome = true ∨ sweeping = true ∧ kind.skip text = true)) ∧
      Recognised fs kind sweeping paths :=
  List.forall_mem_cons

theorem documents_cons {path : FilePath} {paths : List FilePath} {text : String}
    (h : fs.readToString path = some text) : documents fs kind (path :: paths) =
      ((kind.read text).map (Prod.mk path)).toList ++ documents fs kind paths := by
  rw [documents, List.filterMap_cons, h, Option.bind_some]
  cases kind.read text <;> rfl

theorem sweep_eq_ok {sweeping : Bool} {paths : List FilePath} {outcomes : List ProofOutcome} :
    sweep fs kind signed key sweeping paths = .ok outcomes ↔ Recognised fs kind sweeping paths ∧
      outcomes = (documents fs kind paths).map fun d => outcome kind signed key d.1 d.2 := by
  induction paths generalizing outcomes with
  | nil =>
    have hnil : Recognised fs kind sweeping [] := fun _ h => absurd h List.not_mem_nil
    rw [sweep, Except.ok.injEq, eq_comm, and_iff_right hnil]
    rfl
  | cons path paths ih =>
    rw [sweep, recognised_cons]
    cases htext : fs.readToString path with
    | none => simp [okOr, bind, Except.bind]
    | some text =>
      rw [documents_cons htext]
      simp only [okOr, ok_bind, Option.some.injEq, exists_eq_left']
      cases kind.read text with
      | some doc =>
        simp only [bind_eq_ok, ih, pure_eq_ok, Option.isSome_some, true_or, true_and, Option.map_some,
          Option.toList_some, List.singleton_append, List.map_cons]
        constructor
        · rintro ⟨_, ⟨hrest, rfl⟩, rfl⟩
          exact ⟨hrest, rfl⟩
        · rintro ⟨hrest, rfl⟩
          exact ⟨_, ⟨hrest, rfl⟩, rfl⟩
      | none =>
        have hand : (sweeping && kind.skip text) = true ↔ sweeping = true ∧ kind.skip text = true := by
          rw [Bool.and_eq_true]
        simp only [Option.isSome_none, Bool.false_eq_true, false_or, Option.map_none, Option.toList_none,
          List.nil_append, ← hand]
        split_ifs with hskip
        · rw [ih, and_iff_right hskip]
        · simp [hskip]

theorem summarize_allPassed {docs : List (FilePath × δ)} :
    (summarize sha256 signed (docs.map fun d => outcome kind signed key d.1 d.2)).allPassed = true ↔
      ∀ d ∈ docs, kind.check signed key d.2 = .ok () := by
  simp only [Summary.allPassed, summarize, List.all_map, List.all_eq_true, Function.comp_apply, outcome,
    Option.isNone_iff_eq_none, failureOf_eq_none]

theorem verifyAll_eq_ok {report : FilePath} {source : ProofSource} {summary : Summary} :
    verifyAll sha256 parse fs kind report source key = .ok summary ↔ ∃ signed paths,
      load parse fs Wire.signedReport report = .ok signed ∧ source.paths fs = .ok paths ∧
      Recognised fs kind source.sweeping paths ∧
      summary = summarize sha256 signed
        ((documents fs kind paths).map fun d => outcome kind signed key d.1 d.2) := by
  simp only [verifyAll, bind_eq_ok, sweep_eq_ok, pure_eq_ok]
  constructor
  · rintro ⟨signed, hload, paths, hpaths, _, ⟨hrecognised, rfl⟩, rfl⟩
    exact ⟨signed, paths, hload, hpaths, hrecognised, rfl⟩
  · rintro ⟨signed, paths, hload, hpaths, hrecognised, rfl⟩
    exact ⟨signed, hload, paths, hpaths, _, ⟨hrecognised, rfl⟩, rfl⟩

theorem documents_nil {paths : List FilePath} (h : ∀ path ∈ paths, ∃ text,
    fs.readToString path = some text ∧ kind.read text = none ∧ kind.skip text = true) :
    documents fs kind paths = [] := by
  rw [List.eq_nil_iff_forall_not_mem]
  intro d hd
  obtain ⟨hpath, text, htext, hread⟩ := mem_documents.mp hd
  obtain ⟨text', htext', hnone, _⟩ := h d.1 hpath
  rw [htext, Option.some.injEq] at htext'
  rw [← htext', hread] at hnone
  exact Option.some_ne_none _ hnone

/-- Nothing was found to check only when every file swept was there to be skipped. -/
theorem onlySiblings_of_documents_nil {source : ProofSource} {paths : List FilePath}
    (hpaths : source.paths fs = .ok paths) (h : Recognised fs kind source.sweeping paths)
    (hnone : documents fs kind paths = []) : ∃ dir, source = .dir dir ∧ OnlySiblings fs kind dir := by
  have hskip : ∀ path ∈ paths, ∃ text, fs.readToString path = some text ∧ kind.read text = none ∧
      source.sweeping = true ∧ kind.skip text = true := by
    intro path hpath
    obtain ⟨text, htext, hread⟩ := h path hpath
    cases hdoc : kind.read text with
    | some doc =>
      have hmem : (path, doc) ∈ documents fs kind paths := mem_documents.mpr ⟨hpath, text, htext, hdoc⟩
      simp [hnone] at hmem
    | none =>
      rw [hdoc] at hread
      exact ⟨text, htext, hdoc, hread.resolve_left (by simp)⟩
  cases source with
  | file p =>
    obtain rfl : [p] = paths := Except.ok.inj hpaths
    obtain ⟨_, _, _, hsweeping, _⟩ := hskip p List.mem_cons_self
    exact absurd hsweeping (by simp [ProofSource.sweeping])
  | dir d =>
    refine ⟨d, rfl, paths, hpaths, fun path hpath => ?_⟩
    obtain ⟨text, htext, hread, _, hsib⟩ := hskip path hpath
    exact ⟨text, htext, hread, hsib⟩

theorem verifyAll_onlySiblings {report dir : FilePath}
    (hload : load parse fs Wire.signedReport report = .ok signed) (h : OnlySiblings fs kind dir) :
    verifyAll sha256 parse fs kind report (.dir dir) key = .ok (summarize sha256 signed []) := by
  obtain ⟨paths, hpaths, hskip⟩ := h
  refine verifyAll_eq_ok.mpr ⟨signed, paths, hload, hpaths, fun path hpath => ?_, ?_⟩
  · obtain ⟨text, htext, _, hsib⟩ := hskip path hpath
    exact ⟨text, htext, .inr ⟨rfl, hsib⟩⟩
  · rw [documents_nil hskip, List.map_nil]

theorem verifyAll_checked_iff {report : FilePath} {source : ProofSource} :
    (∀ summary, verifyAll sha256 parse fs kind report source key = .ok summary →
      summary.allPassed = true → Checked parse fs kind report key summary.outcomes) ↔
    ¬ VacuousSweep parse fs kind report source := by
  constructor
  · rintro h ⟨⟨signed, hload⟩, dir, rfl, honly⟩
    exact (h _ (verifyAll_onlySiblings hload honly) rfl).1 rfl
  · intro h summary hrun hpassed
    obtain ⟨signed, paths, hload, hpaths, hrecognised, rfl⟩ := verifyAll_eq_ok.mp hrun
    refine ⟨fun hnil => h ⟨⟨signed, hload⟩, ?_⟩, signed, hload, fun o ho => ?_⟩
    · exact onlySiblings_of_documents_nil hpaths hrecognised (List.map_eq_nil_iff.mp hnil)
    · obtain ⟨d, hd, rfl⟩ := List.mem_map.mp ho
      obtain ⟨_, text, htext, hread⟩ := mem_documents.mp hd
      exact ⟨text, d.2, htext, hread, summarize_allPassed.mp hpassed d hd⟩

theorem exitCode_eq_exitOk {result : Except RunError Summary} :
    exitCode result = exitOk ↔ ∃ summary, result = .ok summary ∧ summary.allPassed = true := by
  cases result with
  | error e => simp [exitCode, exitUsageOrIo, exitOk]
  | ok summary =>
    rw [exitCode]
    split_ifs with h <;> simp [h, exitVerificationFailed, exitOk]

def packSummary (pack : SignedPack) (contents : Summary) : PackSummary where
  publisher := pack.pack.publisher
  snapshotTime := pack.pack.snapshotTime
  reportDigest := pack.pack.reportDigest
  members := pack.pack.entries.length
  indexFailure := none
  contents := some contents

def packReport (dir : FilePath) : FilePath := dir ++ [utf8 "report.json"]

theorem runPack_passes_iff {dir : FilePath} {summary : PackSummary} :
    runPack sha256 ed parse fs (.verifyPack dir key) = .ok summary ∧ summary.allPassed = true ↔
      ∃ pack contents, IndexAccepted sha256 ed parse fs dir key pack ∧
        verifyAll sha256 parse fs (proofKind sha256 ed parse) (packReport dir) (.dir dir) key =
          .ok contents ∧ contents.allPassed = true ∧ summary = packSummary pack contents := by
  simp only [runPack, bind_eq_ok, pure_eq_ok]
  constructor
  · rintro ⟨⟨pack, hpack, members, hmembers, contents, hcontents, rfl⟩, hpassed⟩
    simp only [PackSummary.allPassed, Bool.and_eq_true, Option.isNone_iff_eq_none] at hpassed
    obtain ⟨hindex, hpassed⟩ := hpassed
    rw [hindex, packContents, map_eq_ok] at hcontents
    obtain ⟨contents, hrun, rfl⟩ := hcontents
    refine ⟨pack, contents, ⟨hpack, members, hmembers, failureOf_eq_none.mp hindex⟩, hrun, hpassed, ?_⟩
    rw [hindex]
    rfl
  · rintro ⟨pack, contents, ⟨hpack, members, hmembers, hindex⟩, hrun, hpassed, rfl⟩
    refine ⟨⟨pack, hpack, members, hmembers, some contents, ?_, ?_⟩, hpassed⟩
    · rw [failureOf_eq_none.mpr hindex, packContents, map_eq_ok]
      exact ⟨contents, hrun, rfl⟩
    · rw [failureOf_eq_none.mpr hindex]
      rfl

variable (sha256 ed parse fs) in
/-- A run that ends in success has checked something, except over a directory that holds nothing but
    the documents a sweep skips. -/
theorem no_vacuous_pass_iff :
    (∀ report source key, (exitCode (run sha256 ed parse fs (.verify report source key)) = exitOk →
        ∃ summary, run sha256 ed parse fs (.verify report source key) = .ok summary ∧
          Checked parse fs (proofKind sha256 ed parse) report key summary.outcomes) ↔
      ¬ VacuousSweep parse fs (proofKind sha256 ed parse) report source) ∧
    (∀ report source key, (exitCode (run sha256 ed parse fs (.verifyGroup report source key)) = exitOk →
        ∃ summary, run sha256 ed parse fs (.verifyGroup report source key) = .ok summary ∧
          Checked parse fs (membershipKind sha256 ed parse) report key summary.outcomes) ↔
      ¬ VacuousSweep parse fs (membershipKind sha256 ed parse) report source) ∧
    ∀ dir key, (∀ summary, runPack sha256 ed parse fs (.verifyPack dir key) = .ok summary →
        summary.allPassed = true → ∃ contents, summary.contents = some contents ∧
          Checked parse fs (proofKind sha256 ed parse) (packReport dir) key contents.outcomes) ↔
      ¬ ((∃ pack, IndexAccepted sha256 ed parse fs dir key pack) ∧
        VacuousSweep parse fs (proofKind sha256 ed parse) (packReport dir) (.dir dir)) := by
  have hexit : ∀ {δ : Type} (kind : Kind δ) report source key,
      (exitCode (verifyAll sha256 parse fs kind report source key) = exitOk →
        ∃ summary, verifyAll sha256 parse fs kind report source key = .ok summary ∧
          Checked parse fs kind report key summary.outcomes) ↔
      ¬ VacuousSweep parse fs kind report source := by
    intro δ kind report source key
    rw [exitCode_eq_exitOk, ← @verifyAll_checked_iff sha256 parse fs δ kind key report source]
    constructor
    · intro h summary hrun hpassed
      obtain ⟨summary', hrun', hchecked⟩ := h ⟨summary, hrun, hpassed⟩
      rw [hrun, Except.ok.injEq] at hrun'
      rwa [hrun']
    · rintro h ⟨summary, hrun, hpassed⟩
      exact ⟨summary, hrun, h summary hrun hpassed⟩
  refine ⟨hexit _, hexit _, fun dir key => ?_⟩
  have hpack : (∀ summary, runPack sha256 ed parse fs (.verifyPack dir key) = .ok summary →
        summary.allPassed = true → ∃ contents, summary.contents = some contents ∧
          Checked parse fs (proofKind sha256 ed parse) (packReport dir) key contents.outcomes) ↔
      ((∃ pack, IndexAccepted sha256 ed parse fs dir key pack) → ∀ contents,
        verifyAll sha256 parse fs (proofKind sha256 ed parse) (packReport dir) (.dir dir) key =
          .ok contents → contents.allPassed = true →
        Checked parse fs (proofKind sha256 ed parse) (packReport dir) key contents.outcomes) := by
    constructor
    · rintro h ⟨pack, hindex⟩ contents hrun hpassed
      obtain ⟨hsummary, hall⟩ := runPack_passes_iff.mpr ⟨pack, contents, hindex, hrun, hpassed, rfl⟩
      obtain ⟨contents', hcontents, hchecked⟩ := h _ hsummary hall
      rwa [Option.some.inj hcontents]
    · intro h summary hsummary hall
      obtain ⟨pack, contents, hindex, hrun, hpassed, rfl⟩ := runPack_passes_iff.mp ⟨hsummary, hall⟩
      exact ⟨contents, rfl, h ⟨pack, hindex⟩ contents hrun hpassed⟩
  rw [hpack, verifyAll_checked_iff, not_and]

/-! ## The report a pack names -/

variable (sha256 ed) in
/-- The report is about leaves of the proof's kind, and the leaf folds to the root and the totals that
    the key has signed. -/
def Proves (report : SignedReport) (key : String) : AnyProof → Prop
  | .v1 proof => WellDeclared report ∧
      (∃ rules, validate report.report = .ok rules ∧ rules.leaf = .customer) ∧
      proof.formatVersion = proofFormatVersion ∧
      ∃ salt leaf read folded, hexDecodeN 32 proof.leaf.salt = some salt ∧
        Merkle.leafNode sha256 salt proof.leaf.userId proof.leaf.balances.entries = .ok leaf ∧
        Folds sha256 ed report leaf proof.steps proof.reportDigest key read folded
  | .v2 proof => WellDeclared report ∧
      (∃ rules, validate report.report = .ok rules ∧ rules.leaf.usesLeafV2 = true ∧
        ∀ required ∈ rules.requiredLeafMaps, CarriesMap proof.leaf.maps required) ∧
      proof.formatVersion = proofFormatVersionV2 ∧
      ∃ salt leaf read folded, hexDecodeN 32 proof.leaf.salt = some salt ∧
        Merkle.leafNodeV2 sha256 salt proof.leaf.subjectId proof.leaf.maps = .ok leaf ∧
        Folds sha256 ed report leaf proof.steps proof.reportDigest key read folded

theorem declared_first {manifest rules version algorithm folds : Prop} :
    manifest ∧ rules ∧ version ∧ algorithm ∧ folds ↔ (manifest ∧ algorithm) ∧ rules ∧ version ∧ folds := by
  constructor
  · rintro ⟨hmanifest, hrules, hversion, halgorithm, hfolds⟩
    exact ⟨⟨hmanifest, halgorithm⟩, hrules, hversion, hfolds⟩
  · rintro ⟨⟨hmanifest, halgorithm⟩, hrules, hversion, hfolds⟩
    exact ⟨hmanifest, hrules, hversion, halgorithm, hfolds⟩

theorem verifyAgainst_eq_ok {report : SignedReport} {proof : AnyProof} :
    proof.verifyAgainst sha256 ed report key = .ok () ↔ Proves sha256 ed report key proof := by
  cases proof with
  | v1 proof =>
    rw [AnyProof.verifyAgainst, verify_eq_ok, Proves, wellDeclared_iff]
    exact declared_first
  | v2 proof =>
    rw [AnyProof.verifyAgainst, verifyV2_eq_ok, Proves, wellDeclared_iff]
    exact declared_first

variable (sha256 ed parse fs) in
/-- Every document of the directory is a proof of the report or is one that a sweep skips. -/
def ContentsAccepted (dir : FilePath) (key : String) (report : SignedReport) : Prop :=
  ∃ paths, proofPaths fs dir = .ok paths ∧ ∀ path ∈ paths, ∃ text, fs.readToString path = some text ∧
    (∀ proof, parseProof parse text = some proof → Proves sha256 ed report key proof) ∧
    (parseProof parse text = none → isSiblingDocument parse text = true)

theorem verifyAll_passes_iff {dir : FilePath} {report : SignedReport}
    (hload : load parse fs Wire.signedReport (packReport dir) = .ok report) :
    (∃ contents, verifyAll sha256 parse fs (proofKind sha256 ed parse) (packReport dir) (.dir dir) key =
      .ok contents ∧ contents.allPassed = true) ↔ ContentsAccepted sha256 ed parse fs dir key report := by
  constructor
  · rintro ⟨_, hrun, hpassed⟩
    obtain ⟨report', paths, hload', hpaths, hrecognised, rfl⟩ := verifyAll_eq_ok.mp hrun
    obtain rfl : report = report' := Except.ok.inj (hload.symm.trans hload')
    refine ⟨paths, hpaths, fun path hpath => ?_⟩
    obtain ⟨text, htext, hread⟩ := hrecognised path hpath
    refine ⟨text, htext, fun proof hproof => ?_, fun hnone => ?_⟩
    · exact verifyAgainst_eq_ok.mp
        (summarize_allPassed.mp hpassed (path, proof) (mem_documents.mpr ⟨hpath, text, htext, hproof⟩))
    · rcases hread with hsome | ⟨_, hskip⟩
      · rw [show (proofKind sha256 ed parse).read text = none from hnone] at hsome
        exact absurd hsome (by simp)
      · exact hskip
  · rintro ⟨paths, hpaths, hall⟩
    refine ⟨_, verifyAll_eq_ok.mpr ⟨report, paths, hload, hpaths, fun path hpath => ?_, rfl⟩, ?_⟩
    · obtain ⟨text, htext, _, hsib⟩ := hall path hpath
      refine ⟨text, htext, ?_⟩
      cases hproof : parseProof parse text with
      | none => exact .inr ⟨rfl, hsib hproof⟩
      | some proof => exact .inl (Option.isSome_iff_exists.mpr ⟨proof, hproof⟩)
    · rw [summarize_allPassed]
      intro d hd
      obtain ⟨hpath, text, htext, hread⟩ := mem_documents.mp hd
      obtain ⟨text', htext', hcheck, _⟩ := hall d.1 hpath
      rw [htext, Option.some.injEq] at htext'
      exact verifyAgainst_eq_ok.mpr (hcheck d.2 (htext' ▸ hread))

theorem verifyPack_ne_reportMismatch {pack : SignedPack} {members : SortedMap String (List UInt8)} :
    verifyPack sha256 ed pack key members ≠ .error .reportMismatch := by
  intro h
  simp only [verifyPack, bind_eq_error, ensure_eq_error, reduceCtorEq, and_false, false_or] at h
  obtain ⟨_, _, _, _, hsig | ⟨_, _, hentries | ⟨_, _, hkeys⟩⟩⟩ := h
  · cases hverify : verifySignature ed (trim key) (packDigest sha256 pack.pack) pack.signature.value with
    | ok _ => simp [hverify, Except.mapError] at hsig
    | error _ => simp [hverify, Except.mapError] at hsig
  · obtain ⟨e, _, he⟩ := forM_eq_error hentries
    simp only [checkEntry, checkName, bind_eq_error, ensure_eq_error, okOr_eq_error, reduceCtorEq,
      and_false, false_or, exists_false] at he
  · obtain ⟨name, _, hname⟩ := forM_eq_error hkeys
    simp only [ensure_eq_error, reduceCtorEq, and_false] at hname

variable (sha256 ed parse fs) in
/-- A passing run is about the report the pack names when the digests agree or something else is wrong
    with the delivery; nothing in the run compares the two. -/
theorem report_named_iff (dir : FilePath) (key : String) :
    (∀ summary report, runPack sha256 ed parse fs (.verifyPack dir key) = .ok summary →
      summary.allPassed = true → load parse fs Wire.signedReport (packReport dir) = .ok report →
      summary.reportDigest = reportDigestHex sha256 report.report) ↔
    ∀ pack report, load parse fs Wire.signedPack (dir ++ [utf8 packFile]) = .ok pack →
      load parse fs Wire.signedReport (packReport dir) = .ok report →
      pack.pack.reportDigest = reportDigestHex sha256 report.report ∨
      (∀ members, delivered fs dir = .ok members → ¬ Indexes sha256 ed pack key members) ∨
      ¬ ContentsAccepted sha256 ed parse fs dir key report := by
  constructor
  · intro h pack report hpack hreport
    by_cases hcontents : ContentsAccepted sha256 ed parse fs dir key report
    · rw [or_iff_left (not_not_intro hcontents), or_iff_not_imp_right]
      intro hindexed
      simp only [not_forall, not_not] at hindexed
      obtain ⟨members, hmembers, hindexes⟩ := hindexed
      have hindex : IndexAccepted sha256 ed parse fs dir key pack :=
        ⟨hpack, members, hmembers, verifyPack_eq_ok.mpr hindexes⟩
      obtain ⟨contents, hrun, hpassed⟩ := (verifyAll_passes_iff hreport).mpr hcontents
      obtain ⟨hsummary, hall⟩ := runPack_passes_iff.mpr ⟨pack, contents, hindex, hrun, hpassed, rfl⟩
      exact h _ report hsummary hall hreport
    · exact .inr (.inr hcontents)
  · intro h summary report hsummary hall hreport
    obtain ⟨pack, contents, ⟨hpack, members, hmembers, hindex⟩, hrun, hpassed, rfl⟩ :=
      runPack_passes_iff.mp ⟨hsummary, hall⟩
    have hcontents := (verifyAll_passes_iff hreport).mp ⟨contents, hrun, hpassed⟩
    rcases h pack report hpack hreport with hdigest | hrefused | hrefused
    · exact hdigest
    · exact absurd (verifyPack_eq_ok.mp hindex) (hrefused members hmembers)
    · exact absurd hcontents hrefused

end Run

/-! ## Two directories -/

def flatRead (files : List (String × String)) : FilePath → Option (List UInt8)
  | [name] => (decodeUtf8 name).bind fun text => ((ofList files).get? text).map utf8
  | _ => none

/-- A file system of one directory and the given files in it. -/
def flatDir (files : List (String × String)) : FileSystem where
  readDir path := if path = [] then some (files.map fun f => some (utf8 f.1)) else none
  isFile path := (flatRead files path).isSome
  read := flatRead files

theorem decodeUtf8_utf8 (s : String) : decodeUtf8 (utf8 s) = some s := by
  have hbytes : (⟨(utf8 s).toArray⟩ : ByteArray) = s.toByteArray := by
    rw [utf8, Array.toArray_toList]
  rw [decodeUtf8, hbytes, String.fromUTF8?, dif_pos s.isValidUTF8]
  rfl

section FlatDir
variable {files : List (String × String)} {f : String × String} {sha256 : List UInt8 → Digest}
  {ed : Ed25519} {parse : String → Option Json} {key : String}

theorem flatDir_read (h : (files.map Prod.fst).Nodup) (hf : f ∈ files) :
    (flatDir files).read [utf8 f.1] = some (utf8 f.2) := by
  change (decodeUtf8 (utf8 f.1)).bind _ = _
  rw [decodeUtf8_utf8, Option.bind_some, (get?_ofList h).mpr hf, Option.map_some]

theorem flatDir_readToString (h : (files.map Prod.fst).Nodup) (hf : f ∈ files) :
    (flatDir files).readToString [utf8 f.1] = some f.2 := by
  rw [FileSystem.readToString, flatDir_read h hf, Option.bind_some, decodeUtf8_utf8]

theorem flatDir_paths (h : ∃ f ∈ files, extension (utf8 f.1) = some (utf8 "json")) :
    ∃ paths, proofPaths (flatDir files) [] = .ok paths ∧
      ∀ path ∈ paths, ∃ f ∈ files, path = [utf8 f.1] := by
  simp only [proofPaths, bind_eq_ok, okOr_eq_ok, ensure_eq_ok, pure_eq_ok]
  refine ⟨_, ⟨_, rfl, (), ?_, rfl⟩, fun path hpath => ?_⟩
  · obtain ⟨f, hf, hext⟩ := h
    refine List.ne_nil_of_mem (show utf8 f.1 ∈ _ from ?_)
    simp only [List.mem_filter, List.mem_filterMap, List.mem_map, decide_eq_true_eq]
    exact ⟨⟨_, ⟨f, hf, rfl⟩, rfl⟩, hext⟩
  · simp only [List.mem_map, List.mem_mergeSort, List.mem_filter, List.mem_filterMap] at hpath
    obtain ⟨_, ⟨⟨_, ⟨f, hf, rfl⟩, hname⟩, _⟩, rfl⟩ := hpath
    exact ⟨f, hf, by rw [← Option.some.inj hname]; rfl⟩

theorem flatDir_delivered (h : (files.map Prod.fst).Nodup) :
    delivered (flatDir files) [] = .ok (ofList
      ((files.filter fun f => f.1 ≠ packFile).map fun f => (f.1, utf8 f.2))) := by
  suffices key : ∀ l : List (String × String), (∀ f ∈ l, f ∈ files) → ∀ members,
      (l.map fun f => some (utf8 f.1)).foldlM (deliveredEntry (flatDir files) []) members =
        .ok (((l.filter fun f => f.1 ≠ packFile).map fun f => (f.1, utf8 f.2)).foldl
          (fun m e => m.insert e.1 e.2) members) from key files (fun _ hf => hf) empty
  intro l
  induction l with
  | nil => exact fun _ _ => rfl
  | cons f l ih =>
    intro hl members
    have hread := flatDir_read h (hl f List.mem_cons_self)
    have hisFile : (flatDir files).isFile [utf8 f.1] = true := by
      change ((flatDir files).read [utf8 f.1]).isSome = true
      rw [hread]
      rfl
    have hstep : deliveredEntry (flatDir files) [] members (some (utf8 f.1)) =
        .ok (if f.1 = packFile then members else members.insert f.1 (utf8 f.2)) := by
      simp only [deliveredEntry, okOr, ok_bind, List.nil_append, hisFile, Bool.true_eq_false, if_false,
        decodeUtf8_utf8, hread]
      split_ifs <;> rfl
    rw [List.map_cons, List.foldlM_cons, hstep, ok_bind, ih fun g hg => hl g (List.mem_cons_of_mem _ hg)]
    by_cases hname : f.1 = packFile
    · simp [hname]
    · simp [hname]

theorem load_flatDir {α : Type} {c : Json.Codec α} {a : α} (h : (files.map Prod.fst).Nodup)
    (hf : f ∈ files) (hparse : parse f.2 = some (c.encode a)) :
    load parse (flatDir files) c [utf8 f.1] = .ok a := by
  simp only [load, bind_eq_ok, okOr_eq_ok]
  refine ⟨f.2, flatDir_readToString h hf, ?_⟩
  rw [fromStr, hparse, Option.bind_some, c.decode_encode]

theorem flatDir_onlySiblings (h : (files.map Prod.fst).Nodup)
    (hjson : ∃ f ∈ files, extension (utf8 f.1) = some (utf8 "json"))
    (hskip : ∀ f ∈ files, parseProof parse f.2 = none ∧ isSiblingDocument parse f.2 = true) :
    OnlySiblings (flatDir files) (proofKind sha256 ed parse) [] := by
  obtain ⟨paths, hpaths, hfiles⟩ := flatDir_paths hjson
  refine ⟨paths, hpaths, fun path hpath => ?_⟩
  obtain ⟨f, hf, rfl⟩ := hfiles path hpath
  exact ⟨f.2, flatDir_readToString h hf, hskip f hf⟩

theorem flatDir_contentsAccepted {report : SignedReport} (h : (files.map Prod.fst).Nodup)
    (hjson : ∃ f ∈ files, extension (utf8 f.1) = some (utf8 "json"))
    (hall : ∀ f ∈ files, (parseProof parse f.2 = none ∧ isSiblingDocument parse f.2 = true) ∨
      ∃ proof, parseProof parse f.2 = some proof ∧ proof.verifyAgainst sha256 ed report key = .ok ()) :
    ContentsAccepted sha256 ed parse (flatDir files) [] key report := by
  obtain ⟨paths, hpaths, hfiles⟩ := flatDir_paths hjson
  refine ⟨paths, hpaths, fun path hpath => ?_⟩
  obtain ⟨f, hf, rfl⟩ := hfiles path hpath
  refine ⟨f.2, flatDir_readToString h hf, ?_⟩
  rcases hall f hf with ⟨hnone, hsib⟩ | ⟨proof, hproof, hverify⟩
  · exact ⟨fun proof hproof => by simp [hnone] at hproof, fun _ => hsib⟩
  · refine ⟨fun proof' hproof' => ?_, fun hnone => by simp [hproof] at hnone⟩
    rw [hproof, Option.some.injEq] at hproof'
    rwa [← hproof', ← verifyAgainst_eq_ok]

end FlatDir

section Texts
variable {parse : String → Option Json} {text : String}

theorem parseProof_report {signed : SignedReport} (h : parse text = some (Wire.signedReport.encode signed)) :
    parseProof parse text = none ∧ isSiblingDocument parse text = true := by
  refine ⟨?_, ?_⟩
  · rw [parseProof, h]
    rfl
  · simp [isSiblingDocument, fromStr, h, Wire.signedReport.decode_encode]

theorem parseProof_pack {pack : SignedPack} (h : parse text = some (Wire.signedPack.encode pack)) :
    parseProof parse text = none ∧ isSiblingDocument parse text = true := by
  refine ⟨?_, ?_⟩
  · rw [parseProof, h]
    rfl
  · simp [isSiblingDocument, fromStr, h, Wire.signedPack.decode_encode]

theorem parseProof_anchor {anchor : Anchor} (h : parse text = some (Wire.anchor.encode anchor)) :
    parseProof parse text = none ∧ isSiblingDocument parse text = true := by
  have hv1 : Wire.proofDocument.decode (Wire.anchor.encode anchor) = none :=
    if_neg fun hnames => absurd (hnames.2 "root_hash"
      (List.mem_cons_of_mem _ (List.mem_cons_of_mem _ List.mem_cons_self))) (by decide)
  have hv2 : Wire.proofDocumentV2.decode (Wire.anchor.encode anchor) = none :=
    if_neg fun hnames => absurd (hnames.2 "root_hash"
      (List.mem_cons_of_mem _ (List.mem_cons_of_mem _ List.mem_cons_self))) (by decide)
  refine ⟨?_, ?_⟩
  · simp [parseProof, h, hv1, hv2]
  · simp [isSiblingDocument, fromStr, h, Wire.anchor.decode_encode]

theorem parseProof_proof {proof : ProofDocument} (h : parse text = some (Wire.proofDocument.encode proof))
    (hversion : proof.formatVersion = proofFormatVersion) : parseProof parse text = some (.v1 proof) := by
  have hpeek : versionPeek (Wire.proofDocument.encode proof) = some proof.formatVersion := rfl
  have hv1 : proofFormatVersion ≠ proofFormatVersionV2 := by decide
  simp only [parseProof, h, Option.bind_eq_bind, Option.bind_some, hpeek, hversion, if_neg hv1,
    Wire.proofDocument.decode_encode]
  rfl

end Texts

def written (j : Json) : String := Json.toStringPretty j ++ "\n"

theorem ofText_written (j : Json) : Json.ofText (written j) = some j :=
  Json.ofText_toStringPretty j (by decide)

def heldReport : SignedReport := Aggregation.pairSigned Aggregation.holderBalances

def heldKey : String := goldenSigner.publicKeyHex Aggregation.pairEd25519

def heldAnchor : Anchor := anchorReport Sha256.sha256 heldReport none

def publishedFiles : List (String × String) :=
  [("report.json", written (Wire.signedReport.encode heldReport)),
    ("anchor.json", written (Wire.anchor.encode heldAnchor))]

/-- A directory with a report and its anchor: the run ends in success and has checked nothing. -/
theorem vacuous_pass : ∃ summary,
    run Sha256.sha256 Aggregation.pairEd25519 Json.ofText
      (flatDir publishedFiles) (.verify [utf8 "report.json"] (.dir []) heldKey) = .ok summary ∧
    exitCode (.ok summary) = exitOk ∧ summary.outcomes = [] := by
  have hnames : (publishedFiles.map Prod.fst).Nodup := by decide
  have hfile : ("report.json", written (Wire.signedReport.encode heldReport)) ∈ publishedFiles :=
    List.mem_cons_self
  have hload := load_flatDir hnames hfile (ofText_written _)
  have honly : OnlySiblings (flatDir publishedFiles) (proofKind Sha256.sha256 Aggregation.pairEd25519
      Json.ofText) [] := by
    refine flatDir_onlySiblings hnames ⟨_, hfile, by decide⟩ ?_
    simp only [publishedFiles, List.forall_mem_cons]
    exact ⟨parseProof_report (ofText_written _), parseProof_anchor (ofText_written _),
      fun _ h => absurd h List.not_mem_nil⟩
  exact ⟨summarize Sha256.sha256 heldReport [], verifyAll_onlySiblings hload honly, rfl, rfl⟩

def heldProof : ProofDocument := Aggregation.pairProof Aggregation.holderBalances "alice" "bob" false

def packedMembers : List (String × List UInt8) :=
  [("report.json", utf8 (written (Wire.signedReport.encode heldReport))),
    ("proof-alice.json", utf8 (written (Wire.proofDocument.encode heldProof)))]

/-- The index of the two files, signed over another report's digest. -/
def misnamedPack : SignedPack :=
  ((buildPack Sha256.sha256 Aggregation.pairEd25519 "venue::rocky" "2026-01-01T00:00:00Z" "aa11"
    packedMembers goldenSigner).toOption).getD ⟨⟨"", "", "", "", []⟩, ⟨"", "", ""⟩⟩

def packedFiles : List (String × String) :=
  [("report.json", written (Wire.signedReport.encode heldReport)),
    ("proof-alice.json", written (Wire.proofDocument.encode heldProof)),
    ("pack.json", written (Wire.signedPack.encode misnamedPack))]

theorem misnamedPack_built : buildPack Sha256.sha256 Aggregation.pairEd25519 "venue::rocky"
    "2026-01-01T00:00:00Z" "aa11" packedMembers goldenSigner = .ok misnamedPack := by
  have hplain : ∀ m ∈ packedMembers, PlainName m.1 := by
    simp only [packedMembers, List.forall_mem_cons]
    exact ⟨by decide, by decide, fun _ h => absurd h List.not_mem_nil⟩
  obtain ⟨signed, hbuilt⟩ := @buildPack_exists Sha256.sha256 Aggregation.pairEd25519 "venue::rocky"
    "2026-01-01T00:00:00Z" "aa11" packedMembers goldenSigner hplain (by simp [packedMembers])
  have hsigned : misnamedPack = signed := by
    rw [misnamedPack, hbuilt]
    rfl
  rw [hsigned, hbuilt]

theorem heldProof_verifies :
    verify Sha256.sha256 Aggregation.pairEd25519 heldReport heldProof heldKey = .ok () :=
  Aggregation.pair_accepted (eq_ok_getD (by decide +kernel)) (by decide +kernel)
    (by decide +kernel) heldProof List.mem_cons_self

/-- The pack names another report, and the delivery passes. -/
theorem misnamed_pack_passes : ∃ summary,
    runPack Sha256.sha256 Aggregation.pairEd25519 Json.ofText
      (flatDir packedFiles) (.verifyPack [] heldKey) = .ok summary ∧ summary.allPassed = true ∧
    load Json.ofText (flatDir packedFiles) Wire.signedReport (packReport []) =
      .ok heldReport ∧
    summary.reportDigest ≠ reportDigestHex Sha256.sha256 heldReport.report := by
  have hnames : (packedFiles.map Prod.fst).Nodup := by simp [packedFiles]
  have hreportFile : ("report.json", written (Wire.signedReport.encode heldReport)) ∈ packedFiles :=
    List.mem_cons_self
  have hpackFile : ("pack.json", written (Wire.signedPack.encode misnamedPack)) ∈ packedFiles :=
    List.mem_cons_of_mem _ (List.mem_cons_of_mem _ List.mem_cons_self)
  have hreportRead := load_flatDir hnames hreportFile (ofText_written _)
  have hpackRead := load_flatDir hnames hpackFile (ofText_written _)
  have hload : load Json.ofText (flatDir packedFiles) Wire.signedReport
      (packReport []) = .ok heldReport := by
    rw [packReport, List.nil_append]
    exact hreportRead
  have hloadPack : load Json.ofText (flatDir packedFiles) Wire.signedPack
      ([] ++ [utf8 packFile]) = .ok misnamedPack := by
    rw [List.nil_append, packFile]
    exact hpackRead
  have hindex : IndexAccepted Sha256.sha256 Aggregation.pairEd25519
      Json.ofText (flatDir packedFiles) [] heldKey misnamedPack := by
    refine ⟨hloadPack, _, flatDir_delivered hnames, ?_⟩
    have hmembers : (packedFiles.filter fun f => f.1 ≠ packFile).map (fun f => (f.1, utf8 f.2)) =
        packedMembers := by
      simp [packedFiles, packedMembers, packFile]
    rw [hmembers]
    exact buildPack_verifies (recorded_acceptsOwn _ _ _) misnamedPack_built
  have hcontents : ContentsAccepted Sha256.sha256 Aggregation.pairEd25519
      Json.ofText (flatDir packedFiles) [] heldKey heldReport := by
    refine flatDir_contentsAccepted hnames ⟨_, hreportFile, by decide⟩ ?_
    simp only [packedFiles, List.forall_mem_cons]
    exact ⟨.inl (parseProof_report (ofText_written _)),
      .inr ⟨_, parseProof_proof (ofText_written _) rfl, heldProof_verifies⟩,
      .inl (parseProof_pack (ofText_written _)), fun _ h => absurd h List.not_mem_nil⟩
  obtain ⟨contents, hrun, hpassed⟩ := (verifyAll_passes_iff hload).mpr hcontents
  obtain ⟨hsummary, hall⟩ :=
    runPack_passes_iff.mpr ⟨misnamedPack, contents, hindex, hrun, hpassed, rfl⟩
  refine ⟨_, hsummary, hall, hload, ?_⟩
  have hnamed : misnamedPack.pack.reportDigest = "aa11" := by
    rw [(buildPack_eq_ok.mp misnamedPack_built).2.2.1]
  change misnamedPack.pack.reportDigest ≠ _
  rw [hnamed]
  decide +kernel

end AssuranceLayer.CheckedRuns
