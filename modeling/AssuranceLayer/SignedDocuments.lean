import AssuranceLayer.Anchoring
import AssuranceLayer.Assurance
import AssuranceLayer.EvidencePack
import AssuranceLayer.ProvenanceGraph

set_option autoImplicit false

/-!
Everything that is signed or chained: the byte strings hashed for reports, anchors, packs,
attestations and provenance graphs tell all of these documents apart.
-/
namespace AssuranceLayer.SignedDocuments
open Framing Document Digest Anchoring Assurance EvidencePack ProvenanceGraph

inductive SignedDocument where
  | report (r : Report)
  | anchor (a : Anchor)
  | pack (p : Pack)
  | attestation (a : Attestation)
  | provenance (p : Provenance)

def SignedDocument.preimage : SignedDocument → List UInt8
  | .report r => reportPreimage r
  | .anchor a => anchorPreimage a
  | .pack p => packPreimage p
  | .attestation a => attestationPreimage a
  | .provenance p => provenancePreimage p

def SignedDocument.Short : SignedDocument → Prop
  | .report r => ShortReport r
  | .anchor a => a.Short
  | .pack p => ShortPack p
  | .attestation a => ShortAttestation a
  | .provenance p => ShortProvenance p

/-- A report carries a manifest exactly when its version covers one. -/
def SignedDocument.ManifestByVersion : SignedDocument → Prop
  | .report r => Digest.ManifestByVersion r
  | _ => True

def SignedDocument.domain : SignedDocument → String
  | .report r => if r.formatVersion = reportFormatVersionV2 then reportDigestDomainV2
      else reportDigestDomain
  | .anchor _ => anchorDigestDomain
  | .pack _ => packDigestDomain
  | .attestation _ => attestationDigestDomain
  | .provenance _ => provenanceDigestDomain

def domains : List String :=
  [reportDigestDomain, reportDigestDomainV2, anchorDigestDomain, packDigestDomain,
    attestationDigestDomain, provenanceDigestDomain]

theorem report_domain (r : Report) : (SignedDocument.report r).domain = reportDigestDomain ∨
    (SignedDocument.report r).domain = reportDigestDomainV2 := by
  by_cases h : r.formatVersion = reportFormatVersionV2
  · exact .inr (if_pos h)
  · exact .inl (if_neg h)

theorem domain_mem (d : SignedDocument) : d.domain ∈ domains := by
  cases d with
  | report r => rcases report_domain r with h | h <;> simp [h, domains]
  | anchor a => simp [domains, SignedDocument.domain]
  | pack p => simp [domains, SignedDocument.domain]
  | attestation a => simp [domains, SignedDocument.domain]
  | provenance p => simp [domains, SignedDocument.domain]

theorem domains_separate : ∀ a ∈ domains, ∀ b ∈ domains, utf8 a <+: utf8 b → a = b := by
  decide +kernel

theorem domain_begins (d : SignedDocument) : utf8 d.domain <+: d.preimage := by
  cases d <;> exact List.prefix_append _ _

theorem domain_eq {d e : SignedDocument} (h : d.preimage = e.preimage) : d.domain = e.domain := by
  rcases List.prefix_or_prefix_of_prefix (h ▸ domain_begins d) (domain_begins e) with hp | hp
  · exact domains_separate _ (domain_mem d) _ (domain_mem e) hp
  · exact (domains_separate _ (domain_mem e) _ (domain_mem d) hp).symm

/-- Equal preimages are of one document. -/
theorem preimage_eq {d e : SignedDocument} (hd : d.Short) (he : e.Short)
    (hmd : d.ManifestByVersion) (hme : e.ManifestByVersion) (h : d.preimage = e.preimage) : d = e := by
  have hdomain := domain_eq h
  cases d <;> cases e
  case report.report r s => rw [reportPreimage_inj hd he hmd hme h]
  case anchor.anchor a b => rw [anchorPreimage_inj hd he h]
  case pack.pack p q => rw [framed_packFields.eq hd he (List.append_cancel_left h)]
  case attestation.attestation a b =>
    rw [framed_attestationFields.eq hd he (List.append_cancel_left h)]
  case provenance.provenance p q =>
    rw [framed_provenanceFields.eq hd he (List.append_cancel_left h)]
  -- Two kinds never open with one domain string.
  all_goals
    simp only [SignedDocument.domain] at hdomain
    (try split_ifs at hdomain) <;> exact absurd hdomain (by decide)

def emptyPredecessor : Anchor := { firstDay with prevAnchor := some "" }

/-- An anchor met twice, and a genesis beside an anchor that names an empty predecessor. -/
theorem preimage_eq_days :
    SignedDocument.anchor firstDay = .anchor (sampleAnchor "2026-01-01T00:00:00Z" none) ∧
      (SignedDocument.anchor firstDay).preimage ≠ (SignedDocument.anchor emptyPredecessor).preimage := by
  have hfirst : (SignedDocument.anchor firstDay).Short := show firstDay.Short by decide +kernel
  have hempty : (SignedDocument.anchor emptyPredecessor).Short :=
    show emptyPredecessor.Short by decide +kernel
  refine ⟨preimage_eq hfirst hfirst trivial trivial rfl, fun h => ?_⟩
  have heq := preimage_eq hfirst hempty trivial trivial h
  exact absurd (SignedDocument.anchor.inj heq) (by decide +kernel)

end AssuranceLayer.SignedDocuments
