import AssuranceLayer.Grading

set_option autoImplicit false

/-!
How levels come about: more evidence takes none away, its order does not matter, and a level that an
attestation gives rests on one signed by a key trusted for its role.
-/
namespace AssuranceLayer.Establishment
open Document Digest Sign Verify Assurance Grading SortedMap

/-- Pieces added where there were none, and attestations beside those there were. -/
structure Extends (small large : Evidence) : Prop where
  proof : small.proof = none ∨ large.proof = small.proof
  anchor : small.anchor = none ∨ large.anchor = small.anchor
  provenance : small.provenance = none ∨ large.provenance = small.provenance
  attestations : ∀ s ∈ small.attestations, s ∈ large.attestations

/-- The same pieces, and the same attestations in any order and any number of times. -/
structure SameUpToOrder (e f : Evidence) : Prop where
  proof : e.proof = f.proof
  anchor : e.anchor = f.anchor
  provenance : e.provenance = f.provenance
  attestations : ∀ s, s ∈ e.attestations ↔ s ∈ f.attestations

/-- Someone trusted for the role attests to the field of this very report. -/
structure Attested (sha256 : List UInt8 → Digest) (ed : Ed25519) (report : Report)
    (attestations : List SignedAttestation) (keys : TrustedKeys) (field : String) (role : AttestorRole)
    (s : SignedAttestation) : Prop where
  mem : s ∈ attestations
  ofField : s.attestation.field = field
  ofReport : s.attestation.reportDigest = reportDigestHex sha256 report
  asRole : s.attestation.role = role
  trusted : keys.attestors.get? s.signature.publicKey = some role
  signature : verifySignature ed s.signature.publicKey (attestationDigest sha256 s.attestation)
    s.signature.value = .ok ()

variable {sha256 : List UInt8 → Digest} {ed : Ed25519} {signed : SignedReport} {evidence : Evidence}
  {trusted : TrustedKeys} {field : String}

theorem establish_eq_some {levels : Finset AssuranceLevel} :
    (establish sha256 ed signed evidence trusted).get? field = some levels ↔
      field ∈ assessedFields ∧ levelsOf sha256 ed signed evidence trusted field = levels := by
  by_cases h : field ∈ assessedFields
  · rw [establish_get? h, Option.some.injEq, and_iff_right h]
  · have hnone : (establish sha256 ed signed evidence trusted).get? field = none := by
      rw [get?_eq_none, establish, keys_ofList, List.map_map]
      simpa using h
    simp [hnone, h]

theorem of_added {α : Type} {small large : Option α} (h : small = none ∨ large = small) {a : α}
    (ha : small = some a) : large = some a := by
  rcases h with h | h
  · exact nomatch h.symm.trans ha
  · exact h.trans ha

theorem supports_mono {small large : Evidence} (h : Extends small large) {level : AssuranceLevel}
    (hs : Supports sha256 ed signed small trusted field level) :
    Supports sha256 ed signed large trusted field level := by
  cases level with
  | notDisclosed => exact hs
  | claimedOnly => trivial
  | issuerAttested =>
    obtain ⟨s, hmem, hattests⟩ := hs
    exact ⟨s, h.attestations s hmem, hattests⟩
  | thirdPartyAttested =>
    obtain ⟨s, hmem, hattests⟩ := hs
    exact ⟨s, h.attestations s hmem, hattests⟩
  | ledgerDerived =>
    obtain ⟨⟨a, ha, hanchors⟩, p, hp, hderives⟩ := hs
    exact ⟨⟨a, of_added h.anchor ha, hanchors⟩, p, of_added h.provenance hp, hderives⟩
  | cryptographicallyVerified =>
    obtain ⟨hfield, p, hp, hverify⟩ := hs
    exact ⟨hfield, p, of_added h.proof hp, hverify⟩

theorem levelsOf_mono {small large : Evidence} (h : Extends small large) :
    levelsOf sha256 ed signed small trusted field ⊆ levelsOf sha256 ed signed large trusted field := by
  intro level hlevel
  rw [mem_levelsOf] at hlevel ⊢
  split_ifs at hlevel ⊢ with hwithheld
  · exact hlevel
  · exact supports_mono h hlevel

theorem SameUpToOrder.extends {e f : Evidence} (h : SameUpToOrder e f) : Extends e f ∧ Extends f e :=
  ⟨⟨.inr h.proof.symm, .inr h.anchor.symm, .inr h.provenance.symm, fun s => (h.attestations s).mp⟩,
    .inr h.proof, .inr h.anchor, .inr h.provenance, fun s => (h.attestations s).mpr⟩

theorem establish_of_same {e f : Evidence} (h : SameUpToOrder e f) :
    establish sha256 ed signed e trusted = establish sha256 ed signed f trusted := by
  have hlevels : ∀ field, levelsOf sha256 ed signed e trusted field = levelsOf sha256 ed signed f trusted field :=
    fun _ => (levelsOf_mono h.extends.1).antisymm (levelsOf_mono h.extends.2)
  simp only [establish, hlevels]

theorem attested_of_attests {role : AttestorRole} {s : SignedAttestation} (hmem : s ∈ evidence.attestations)
    (hrole : s.attestation.role = role)
    (h : attests sha256 ed trusted (reportDigestHex sha256 signed.report) field s = true) :
    Attested sha256 ed signed.report evidence.attestations trusted field role s := by
  obtain ⟨-, hfield, hdigest, htrusted, -, hsignature⟩ := of_decide_eq_true h
  exact ⟨hmem, hfield, hdigest, hrole, hrole ▸ htrusted, hsignature⟩

theorem attested_of_mem {role : AttestorRole}
    (h : attestedLevel role ∈ levelsOf sha256 ed signed evidence trusted field) :
    ∃ s, Attested sha256 ed signed.report evidence.attestations trusted field role s := by
  rw [mem_levelsOf] at h
  split_ifs at h with hwithheld
  · cases role <;> cases h
  · cases role with
    | issuer =>
      obtain ⟨s, hmem, hrole, hattests⟩ := h
      exact ⟨s, attested_of_attests hmem hrole hattests⟩
    | thirdParty =>
      obtain ⟨s, hmem, hrole, hattests⟩ := h
      exact ⟨s, attested_of_attests hmem hrole hattests⟩

theorem notDisclosed_alone (h : .notDisclosed ∈ levelsOf sha256 ed signed evidence trusted field) :
    levelsOf sha256 ed signed evidence trusted field = {.notDisclosed} := by
  ext level
  rw [mem_levelsOf] at h ⊢
  split_ifs at h ⊢ with hwithheld
  · rw [Finset.mem_singleton]
  · exact h.elim

variable (sha256 ed) in
/-- More evidence leaves every level standing, the order of attestations changes nothing, an attested
    level has its attestation, and a field that is not disclosed has no other level. -/
theorem establishment_laws (signed : SignedReport) (trusted : TrustedKeys) :
    (∀ small large, Extends small large → ∀ field levels,
      (establish sha256 ed signed small trusted).get? field = some levels →
      ∃ more, (establish sha256 ed signed large trusted).get? field = some more ∧ levels ⊆ more) ∧
    (∀ e f, SameUpToOrder e f → establish sha256 ed signed e trusted = establish sha256 ed signed f trusted) ∧
    ∀ evidence field levels, (establish sha256 ed signed evidence trusted).get? field = some levels →
      (∀ role, attestedLevel role ∈ levels →
        ∃ s, Attested sha256 ed signed.report evidence.attestations trusted field role s) ∧
      (.notDisclosed ∈ levels → levels = {.notDisclosed}) := by
  simp only [establish_eq_some]
  refine ⟨?_, fun e f h => establish_of_same h, ?_⟩
  · rintro small large h field _ ⟨hfield, rfl⟩
    exact ⟨_, ⟨hfield, rfl⟩, levelsOf_mono h⟩
  · rintro evidence field _ ⟨-, rfl⟩
    exact ⟨fun role => attested_of_mem, notDisclosed_alone⟩

/-! ## An issuer's attestation -/

def issued : Attestation where
  formatVersion := attestationFormatVersion
  reportDigest := reportDigestHex Sha256.sha256 (silentReport none)
  field := "root_sums"
  role := .issuer
  attestor := "issuer"
  basis := "the register of the issuer"

def signedIssued : SignedAttestation where
  attestation := issued
  signature :=
    { algorithm := signatureAlgorithm
      publicKey := goldenTrust.publisher
      value := goldenSigner.signDigest (goldenEd25519 []) (attestationDigest Sha256.sha256 issued) }

def issuerTrust : TrustedKeys := { goldenTrust with attestors := ofList [(goldenTrust.publisher, .issuer)] }

theorem signedIssued_attests : attests Sha256.sha256 (goldenEd25519 []) issuerTrust
    (reportDigestHex Sha256.sha256 (signedSilent none).report) "root_sums" signedIssued = true := by
  refine decide_eq_true ⟨rfl, rfl, rfl, ?_, rfl, ?_⟩
  · have hkeys : ([(goldenTrust.publisher, AttestorRole.issuer)].map Prod.fst).Nodup :=
      List.nodup_singleton _
    exact (get?_ofList hkeys).mpr List.mem_cons_self
  · exact verifySignature_own (recorded_acceptsOwn _ _ _) goldenSigner _

/-- With the attestation the field is attested, and stays what it was without; a withheld field is not
    disclosed, and nothing else. -/
theorem establishment_laws_issued :
    (∃ more, (establish Sha256.sha256 (goldenEd25519 []) (signedSilent none)
        { noEvidence with attestations := [signedIssued] } issuerTrust).get? "root_sums" = some more ∧
      levelsOf Sha256.sha256 (goldenEd25519 []) (signedSilent none) noEvidence issuerTrust "root_sums" ⊆ more) ∧
    establish Sha256.sha256 (goldenEd25519 []) (signedSilent none)
        { noEvidence with attestations := [signedIssued, signedIssued] } issuerTrust =
      establish Sha256.sha256 (goldenEd25519 []) (signedSilent none)
        { noEvidence with attestations := [signedIssued] } issuerTrust ∧
    (∃ s, Attested Sha256.sha256 (goldenEd25519 []) (silentReport none) [signedIssued] issuerTrust "root_sums"
      .issuer s) ∧
    levelsOf Sha256.sha256 (goldenEd25519 []) (signedSilent (some (withholding "mark_prices"))) noEvidence
      issuerTrust "mark_prices" = {.notDisclosed} := by
  have hlaws := establishment_laws Sha256.sha256 (goldenEd25519 []) (signedSilent none) issuerTrust
  have hwithheld := establishment_laws Sha256.sha256 (goldenEd25519 [])
    (signedSilent (some (withholding "mark_prices"))) issuerTrust
  refine ⟨hlaws.1 noEvidence _ ⟨.inl rfl, .inl rfl, .inl rfl, by simp [noEvidence]⟩ "root_sums" _ ?_,
    hlaws.2.1 _ _ ⟨rfl, rfl, rfl, by simp⟩, (hlaws.2.2 { noEvidence with attestations := [signedIssued] }
      "root_sums" _ (establish_eq_some.mpr ⟨by decide, rfl⟩)).1 .issuer ?_,
    (hwithheld.2.2 noEvidence "mark_prices" _ (establish_eq_some.mpr ⟨by decide, rfl⟩)).2 ?_⟩
  · exact establish_eq_some.mpr ⟨by decide, rfl⟩
  · rw [mem_levelsOf, if_neg (by decide)]
    exact ⟨signedIssued, List.mem_singleton_self _, rfl, signedIssued_attests⟩
  · rw [mem_levelsOf, if_pos (by decide +kernel)]

end AssuranceLayer.Establishment
