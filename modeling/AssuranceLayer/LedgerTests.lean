import AssuranceLayer.Lineage

set_option autoImplicit false

/-!
The two tests of a ledger-derived figure: the one that reads the declared levels against the graph, by
an index of its sources, and the one that establishes a level, by a search among them.
-/
namespace AssuranceLayer.LedgerTests
open Fallible Document Digest Sign Verify Assurance ProvenanceGraph Grading Lineage SortedMap

def checkLevel (p : Provenance) (byId : SortedMap String Source) (e : String × AssuranceLevel) :
    Except VerificationFailure Unit :=
  if e.2 ≠ .ledgerDerived then .ok ()
  else
    match p.derivations.find? fun d => d.field = e.1 with
    | none => .error (.provenanceInconsistent e.1 .noDerivation)
    | some derivation =>
      ensure ((derivation.sources.filterMap byId.get?).any fun s => s.kind.onLedger)
        (.provenanceInconsistent e.1 .allOffLedger)

/-- The graph against the declared levels. -/
def checkAgainstAssurance (p : Provenance) (levels : SortedMap String AssuranceLevel) :
    Except VerificationFailure Unit :=
  let byId := ofList (p.sources.map fun s => (s.id, s))
  forM levels.entries (checkLevel p byId)

/-- Where no two sources share an id, the index finds what the search finds. -/
theorem byId_get? {sources : List Source} (h : (sources.map Source.id).Nodup) {id : String} {s : Source} :
    (ofList (sources.map fun s => (s.id, s))).get? id = some s ↔ s ∈ sources ∧ s.id = id := by
  have hkeys : ((sources.map fun s => (s.id, s)).map Prod.fst).Nodup := by
    rw [List.map_map]
    exact h
  rw [get?_ofList hkeys, List.mem_map]
  constructor
  · rintro ⟨t, ht, heq⟩
    obtain ⟨rfl, rfl⟩ := Prod.mk.inj heq
    exact ⟨ht, rfl⟩
  · rintro ⟨hs, rfl⟩
    exact ⟨s, hs, rfl⟩

theorem onLedger_iff {sources : List Source} (h : (sources.map Source.id).Nodup) (ids : List String) :
    ((ids.filterMap (ofList (sources.map fun s => (s.id, s))).get?).any fun s => s.kind.onLedger) =
      ids.any fun id => sources.any fun s => s.id = id ∧ s.kind.onLedger := by
  rw [Bool.eq_iff_iff]
  simp only [List.any_eq_true, List.mem_filterMap, byId_get? h, decide_eq_true_eq]
  constructor
  · rintro ⟨s, ⟨id, hid, hs, heq⟩, hledger⟩
    exact ⟨id, hid, s, hs, heq, hledger⟩
  · rintro ⟨id, hid, s, hs, heq, hledger⟩
    exact ⟨s, ⟨id, hid, hs, heq⟩, hledger⟩

theorem checkLevel_eq_ok {p : Provenance} (h : WellFormed p) {e : String × AssuranceLevel} :
    checkLevel p (ofList (p.sources.map fun s => (s.id, s))) e = .ok () ↔
      (e.2 = .ledgerDerived → derivesFromLedger p e.1 = true) := by
  rw [checkLevel, derivesFromLedger]
  by_cases hlevel : e.2 = .ledgerDerived
  · rw [if_neg (not_not.mpr hlevel), forall_prop_of_true hlevel]
    cases p.derivations.find? fun d => decide (d.field = e.1) with
    | none => simp
    | some derivation =>
      simp only [ensure_eq_ok]
      rw [onLedger_iff h.ids]
  · simp [hlevel]

theorem checkAgainstAssurance_eq_ok {p : Provenance} (h : WellFormed p)
    {levels : SortedMap String AssuranceLevel} : checkAgainstAssurance p levels = .ok () ↔
      ∀ f, levels.get? f = some .ledgerDerived → derivesFromLedger p f = true := by
  simp only [checkAgainstAssurance, forM_eq_ok, checkLevel_eq_ok h, get?_eq_some]
  constructor
  · exact fun hall f hf => hall (f, .ledgerDerived) hf rfl
  · rintro hall ⟨f, level⟩ he rfl
    exact hall f he

variable (sha256 : List UInt8 → Digest) (ed : Ed25519)

/-- On a graph that verifies, a figure declared ledger-derived passes the check exactly when its level
    would be established. -/
theorem ledger_tests_agree {signedReport : SignedReport} {signed : SignedProvenance} {key : String}
    (h : verifyProvenance sha256 ed signedReport signed key = .ok ()) :
    (∀ f, checkAgainstAssurance signed.provenance (ofList [(f, .ledgerDerived)]) = .ok () ↔
      derivesFromLedger signed.provenance f = true) ∧
    ∀ levels, checkAgainstAssurance signed.provenance levels = .ok () ↔
      ∀ f, levels.get? f = some .ledgerDerived → derivesFromLedger signed.provenance f = true := by
  have hgraph := (verifyProvenance_eq_ok.mp h).graph
  refine ⟨fun f => ?_, fun levels => checkAgainstAssurance_eq_ok hgraph⟩
  have hget : ∀ q, (ofList [(f, AssuranceLevel.ledgerDerived)]).get? q = some .ledgerDerived ↔ q = f := by
    intro q
    have hkeys : ([(f, AssuranceLevel.ledgerDerived)].map Prod.fst).Nodup := List.nodup_singleton f
    rw [get?_ofList hkeys, List.mem_singleton, Prod.mk.injEq, and_iff_left rfl]
  rw [checkAgainstAssurance_eq_ok hgraph]
  simp only [hget, forall_eq]

/-! ## A publisher's own graph -/

def ownGraph : Provenance :=
  { strayGraph with reportDigest := reportDigestHex Sha256.sha256 (silentReport none) }

def signedGraph : SignedProvenance where
  provenance := ownGraph
  signature :=
    { algorithm := signatureAlgorithm
      publicKey := goldenTrust.publisher
      value := goldenSigner.signDigest (goldenEd25519 []) (provenanceDigest Sha256.sha256 ownGraph) }

theorem signedGraph_verifies : verifyProvenance Sha256.sha256 (goldenEd25519 []) (signedSilent none) signedGraph
    goldenTrust.publisher = .ok () :=
  verifyProvenance_eq_ok.mpr
    { version := rfl
      digest := rfl
      signer := rfl
      algorithm := rfl
      signature := verifySignature_own (recorded_acceptsOwn _ _ _) goldenSigner _
      graph := ⟨by decide, by decide, by decide, by decide⟩ }

theorem ledger_tests_agree_golden :
    (∀ f, checkAgainstAssurance ownGraph (ofList [(f, .ledgerDerived)]) = .ok () ↔
      derivesFromLedger ownGraph f = true) ∧
    ∀ levels, checkAgainstAssurance ownGraph levels = .ok () ↔
      ∀ f, levels.get? f = some .ledgerDerived → derivesFromLedger ownGraph f = true :=
  ledger_tests_agree Sha256.sha256 (goldenEd25519 []) signedGraph_verifies

end AssuranceLayer.LedgerTests
