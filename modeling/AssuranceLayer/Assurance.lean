import AssuranceLayer.Primitives

set_option autoImplicit false

/-!
The kinds of evidence a figure can rest on, and attestations: an outside party's signed statement
about one field of one report.
-/
namespace AssuranceLayer.Assurance
open Framing

inductive AssuranceLevel where
  | notDisclosed
  | claimedOnly
  | issuerAttested
  | thirdPartyAttested
  | ledgerDerived
  | cryptographicallyVerified
deriving DecidableEq

def attestationDigestDomain : String := "rocky-solvency-attestation-v1"

inductive AttestorRole where
  | issuer
  | thirdParty
deriving DecidableEq

/-- The role as the attestation's digest spells it. -/
def AttestorRole.spelling : AttestorRole → String
  | .issuer => "issuer"
  | .thirdParty => "third-party"

structure Attestation where
  formatVersion : String
  reportDigest : String
  field : String
  role : AttestorRole
  attestor : String
  basis : String
deriving DecidableEq

def attestationFields (a : Attestation) : List UInt8 :=
  lp a.formatVersion ++ (lp a.reportDigest ++ (lp a.field ++ (lp a.role.spelling ++
    (lp a.attestor ++ lp a.basis))))

def attestationPreimage (a : Attestation) : List UInt8 :=
  utf8 attestationDigestDomain ++ attestationFields a

structure ShortAttestation (a : Attestation) : Prop where
  formatVersion : Short a.formatVersion
  reportDigest : Short a.reportDigest
  field : Short a.field
  attestor : Short a.attestor
  basis : Short a.basis

theorem framed_role : Framed (fun _ : AttestorRole => True) fun r => lp r.spelling :=
  framed_lp.comp _ AttestorRole.spelling (fun r _ => by cases r <;> decide) fun r s _ _ h => by
    cases r <;> cases s <;> first | rfl | exact absurd h (by decide)

theorem framed_attestationFields : Framed ShortAttestation attestationFields :=
  (framed_lp.pair (framed_lp.pair (framed_lp.pair (framed_role.pair
    (framed_lp.pair framed_lp))))).comp ShortAttestation
    (fun a => (a.formatVersion, a.reportDigest, a.field, a.role, a.attestor, a.basis))
    (fun _ h => ⟨h.formatVersion, h.reportDigest, h.field, trivial, h.attestor, h.basis⟩)
    (by rintro ⟨⟩ ⟨⟩ _ _ ⟨⟩; rfl)

variable (sha256 : List UInt8 → Digest)

def attestationDigest (a : Attestation) : Digest := sha256 (attestationPreimage a)

end AssuranceLayer.Assurance
