import AssuranceLayer.Primitives
import AssuranceLayer.Sha256

set_option autoImplicit false

/-!
Compatibility statements: how an implementation says what it makes of the corpus, and what a reader
finds wrong with it.
-/
namespace AssuranceLayer.Compat

def compatFormatVersion : String := "canton-solvency-compat-v1"
def corpusDigestDomain : String := "rocky-solvency-corpus-v1"

structure CaseResult where
  id : String
  expected : String
  /-- `accept`, `reject`, or `skip`. -/
  outcome : String
deriving DecidableEq

structure Statement where
  formatVersion : String
  implementation : String
  version : String
  supports : List String
  corpusDigest : String
  results : List CaseResult
deriving DecidableEq

/-- One case as the manifest describes it. -/
structure CaseSpec where
  id : String
  expect : String
  requires : List String
deriving DecidableEq

def corpusPreimage (cases : List CaseSpec) : List UInt8 :=
  utf8 corpusDigestDomain ++ (u64le cases.length ++ cases.flatMap fun case =>
    lp case.id ++ (lp case.expect ++ (u64le case.requires.length ++ case.requires.flatMap lp)))

def corpusDigest (sha256 : List UInt8 → Digest) (cases : List CaseSpec) : String :=
  hexEncode (sha256 (corpusPreimage cases)).toList

inductive Defect where
  /-- "{}: no result reported" -/
  | noResult (id : String)
  /-- "{}: claims {} but skipped the case" -/
  | claimedButSkipped (id : String) (requires : List String)
  /-- "{}: reported {} but does not claim {}" -/
  | reportedUnclaimed (id outcome : String) (missing : List String)
deriving DecidableEq

def claimed (statement : Statement) (case : CaseSpec) : Bool :=
  case.requires.all fun r => r ∈ statement.supports

def reported (statement : Statement) (case : CaseSpec) : Option CaseResult :=
  statement.results.find? fun r => r.id = case.id

def caseDefects (statement : Statement) (case : CaseSpec) : List Defect :=
  match reported statement case with
  | none => [.noResult case.id]
  | some result =>
    let skipped := result.outcome = "skip"
    (if claimed statement case ∧ skipped then [.claimedButSkipped case.id case.requires] else []) ++
    (if ¬ claimed statement case ∧ ¬ skipped then
      [.reportedUnclaimed case.id result.outcome (case.requires.filter (· ∉ statement.supports))]
    else [])

def defects (statement : Statement) (cases : List CaseSpec) : List Defect :=
  cases.flatMap (caseDefects statement)

/-! ## What a statement owes its reader -/

def outcomes : List String := ["accept", "reject", "skip"]

variable (sha256 : List UInt8 → Digest)

structure HeldToAccount (statement : Statement) (cases : List CaseSpec) : Prop where
  digest : statement.corpusDigest = corpusDigest sha256 cases
  oneEach : ∀ case ∈ cases, statement.results.countP (fun r => r.id = case.id) = 1
  noOther : ∀ r ∈ statement.results, ∃ case ∈ cases, case.id = r.id
  expected : ∀ r ∈ statement.results, ∀ case ∈ cases, case.id = r.id → r.expected = case.expect
  outcome : ∀ r ∈ statement.results, r.outcome ∈ outcomes
  skips : ∀ r ∈ statement.results, ∀ case ∈ cases, case.id = r.id →
    (r.outcome = "skip" ↔ ¬ ∀ name ∈ case.requires, name ∈ statement.supports)

/-- A case without a result, or whose first result is skipped though claimed, or is not skipped
    though not claimed. -/
def Caught (statement : Statement) (case : CaseSpec) : Prop :=
  ∀ r, reported statement case = some r →
    ((r.outcome = "skip") ↔ ∀ name ∈ case.requires, name ∈ statement.supports)

/-- What no single case shows. -/
structure Kept (statement : Statement) (cases : List CaseSpec) : Prop where
  digest : statement.corpusDigest = corpusDigest sha256 cases
  distinct : (statement.results.map CaseResult.id).Nodup
  expected : ∀ r ∈ statement.results, ∃ case ∈ cases, case.id = r.id ∧ r.expected = case.expect
  outcome : ∀ r ∈ statement.results, r.outcome ∈ outcomes

variable {sha256} {statement : Statement} {cases : List CaseSpec}

theorem claimed_iff {case : CaseSpec} :
    claimed statement case = true ↔ ∀ name ∈ case.requires, name ∈ statement.supports := by
  simp [claimed]

theorem caseDefects_eq_nil {case : CaseSpec} : caseDefects statement case = [] ↔
    ¬ Caught statement case := by
  rw [caseDefects, Caught]
  cases hr : reported statement case with
  | none => simp
  | some result =>
    simp only [Option.some.injEq, forall_eq', ← claimed_iff, List.append_eq_nil_iff]
    by_cases hclaimed : claimed statement case = true
    · by_cases hskipped : result.outcome = "skip" <;> simp [hclaimed, hskipped]
    · by_cases hskipped : result.outcome = "skip" <;> simp [hclaimed, hskipped]

/-- The pass over the cases reports nothing exactly when no case is caught. -/
theorem defects_eq_nil : defects statement cases = [] ↔ ∀ case ∈ cases, ¬ Caught statement case := by
  rw [defects, List.flatMap_eq_nil_iff]
  exact forall₂_congr fun _ _ => caseDefects_eq_nil

theorem reported_mem {case : CaseSpec} {r : CaseResult} (h : reported statement case = some r) :
    r ∈ statement.results ∧ r.id = case.id :=
  ⟨List.mem_of_find?_eq_some h, by simpa using List.find?_some h⟩

theorem exists_reported {case : CaseSpec} {r : CaseResult} (hr : r ∈ statement.results)
    (hid : r.id = case.id) : ∃ s, reported statement case = some s := by
  rw [reported, ← Option.isSome_iff_exists, List.find?_isSome]
  exact ⟨r, hr, decide_eq_true hid⟩

/-- Of results under pairwise different ids the first is the only one. -/
theorem reported_of_mem (h : (statement.results.map CaseResult.id).Nodup) {case : CaseSpec}
    {r : CaseResult} (hr : r ∈ statement.results) (hid : r.id = case.id) :
    reported statement case = some r := by
  obtain ⟨s, hs⟩ := exists_reported hr hid
  obtain ⟨hmem, hsid⟩ := reported_mem hs
  rwa [List.inj_on_of_nodup_map h hr hmem (hid.trans hsid.symm)]

theorem HeldToAccount.not_caught (h : HeldToAccount sha256 statement cases) {case : CaseSpec}
    (hcase : case ∈ cases) : ¬ Caught statement case := by
  intro hcaught
  obtain ⟨s, hs, hsid⟩ := List.countP_pos_iff.mp (h.oneEach case hcase ▸ Nat.one_pos)
  obtain ⟨r, hr⟩ := exists_reported hs (of_decide_eq_true hsid)
  obtain ⟨hmem, hid⟩ := reported_mem hr
  have hskips := h.skips r hmem case hcase hid.symm
  have hclash := hcaught r hr
  tauto

theorem HeldToAccount.kept (h : HeldToAccount sha256 statement cases) : Kept sha256 statement cases where
  digest := h.digest
  distinct := by
    rw [List.nodup_iff_count_le_one]
    intro id
    by_cases hid : id ∈ statement.results.map CaseResult.id
    · obtain ⟨r, hr, rfl⟩ := List.mem_map.mp hid
      obtain ⟨case, hcase, heq⟩ := h.noOther r hr
      have hone := h.oneEach case hcase
      rw [heq] at hone
      rw [List.count, List.countP_map]
      exact hone.le
    · rw [List.count_eq_zero_of_not_mem hid]
      exact Nat.zero_le 1
  expected r hr := by
    obtain ⟨case, hcase, heq⟩ := h.noOther r hr
    exact ⟨case, hcase, heq, h.expected r hr case hcase heq⟩
  outcome := h.outcome

theorem Kept.held (h : Kept sha256 statement cases) (hdistinct : (cases.map CaseSpec.id).Nodup)
    (hcases : ∀ case ∈ cases, ¬ Caught statement case) : HeldToAccount sha256 statement cases where
  digest := h.digest
  oneEach case hcase := by
    have hle := List.nodup_iff_count_le_one.mp h.distinct case.id
    rw [List.count, List.countP_map] at hle
    have hsome : ∃ r, reported statement case = some r := by
      by_contra hnone
      exact hcases case hcase fun r hr => absurd ⟨r, hr⟩ hnone
    obtain ⟨r, hr⟩ := hsome
    obtain ⟨hmem, hid⟩ := reported_mem hr
    have hpos : 0 < statement.results.countP (fun r => r.id = case.id) :=
      List.countP_pos_iff.mpr ⟨r, hmem, decide_eq_true hid⟩
    exact le_antisymm hle hpos
  noOther r hr := by
    obtain ⟨case, hcase, heq, _⟩ := h.expected r hr
    exact ⟨case, hcase, heq⟩
  expected r hr case hcase heq := by
    obtain ⟨case', hcase', heq', hexpect⟩ := h.expected r hr
    rwa [List.inj_on_of_nodup_map hdistinct hcase hcase' (heq.trans heq'.symm)]
  outcome := h.outcome
  skips r hr case hcase heq := by
    have hclean := hcases case hcase
    rw [Caught, reported_of_mem h.distinct hr heq.symm] at hclean
    simp only [Option.some.injEq, forall_eq'] at hclean
    tauto

variable (sha256) in
/-- The defects say whether a statement can be held to account exactly when it shows one at a single
    case, or is bound to the corpus, repeats and invents no id, expects what the cases expect and
    reports known outcomes only: none of these is looked at. -/
theorem held_to_account_iff (statement : Statement) (cases : List CaseSpec)
    (hdistinct : (cases.map CaseSpec.id).Nodup) :
    (defects statement cases = [] ↔ HeldToAccount sha256 statement cases) ↔
      (∃ case ∈ cases, Caught statement case) ∨ Kept sha256 statement cases := by
  rw [defects_eq_nil]
  constructor
  · intro h
    by_cases hcaught : ∃ case ∈ cases, Caught statement case
    · exact .inl hcaught
    · refine .inr (h.mp fun case hcase hc => hcaught ⟨case, hcase, hc⟩).kept
  · rintro (⟨case, hcase, hc⟩ | hkept)
    · exact iff_of_false (fun h => h case hcase hc) fun h => h.not_caught hcase hc
    · exact ⟨hkept.held hdistinct, fun h _ => h.not_caught⟩

def sampleCases : List CaseSpec := [⟨"good-proof", "accept", ["proof-v1"]⟩, ⟨"pack", "reject", ["pack-v1"]⟩]

def sampleStatement : Statement where
  formatVersion := compatFormatVersion
  implementation := "sample"
  version := "0"
  supports := ["proof-v1"]
  corpusDigest := corpusDigest Sha256.sha256 sampleCases
  results := [⟨"good-proof", "accept", "accept"⟩, ⟨"pack", "reject", "skip"⟩]

theorem held_to_account_iff_sample :
    (sampleCases.map CaseSpec.id).Nodup ∧
      (defects sampleStatement sampleCases = [] ↔ HeldToAccount Sha256.sha256 sampleStatement sampleCases) :=
  ⟨by decide, (held_to_account_iff Sha256.sha256 sampleStatement sampleCases (by decide)).mpr
    (.inr ⟨rfl, by decide, by decide, by decide⟩)⟩

/-- A copied digest, a result of a case the corpus does not have, an outcome of no meaning, and the
    same case once more as a pass. -/
def loose : Statement :=
  { sampleStatement with
    corpusDigest := ""
    results := [⟨"good-proof", "reject", "passed"⟩, ⟨"pack", "accept", "skip"⟩,
      ⟨"pack", "reject", "accept"⟩, ⟨"unheard-of", "accept", "accept"⟩] }

theorem loose_without_defects : defects loose sampleCases = [] ∧
    ¬ HeldToAccount Sha256.sha256 loose sampleCases := by
  refine ⟨by decide, fun h => ?_⟩
  exact absurd (h.outcome ⟨"good-proof", "reject", "passed"⟩ (by decide)) (by decide)

end AssuranceLayer.Compat
