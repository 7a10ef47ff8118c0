import AssuranceLayer.Primitives

set_option autoImplicit false

/-! Provenance graphs: the sources a report's figures were derived from. -/
namespace AssuranceLayer.ProvenanceGraph
open Framing

def provenanceDigestDomain : String := "rocky-solvency-provenance-v1"

inductive SourceKind where
  | participant
  | synchronizer
  | party
  | template
  | offLedger
deriving DecidableEq

def SourceKind.asStr : SourceKind → String
  | .participant => "participant"
  | .synchronizer => "synchronizer"
  | .party => "party"
  | .template => "template"
  | .offLedger => "off-ledger"

def SourceKind.onLedger : SourceKind → Bool
  | .offLedger => false
  | _ => true

structure Source where
  id : String
  kind : SourceKind
  name : String
  basis : Option String
deriving DecidableEq

structure Derivation where
  field : String
  sources : List String
  method : String
deriving DecidableEq

structure Provenance where
  formatVersion : String
  reportDigest : String
  sources : List Source
  derivations : List Derivation
deriving DecidableEq

def sourceFields (s : Source) : List UInt8 :=
  lp s.id ++ (lp s.kind.asStr ++ (lp s.name ++ optional 0 1 lp s.basis))

def derivationFields (d : Derivation) : List UInt8 :=
  lp d.field ++ (counted u64le lp d.sources ++ lp d.method)

def provenanceFields (p : Provenance) : List UInt8 :=
  lp p.formatVersion ++ (lp p.reportDigest ++ (counted u64le sourceFields p.sources ++
    counted u64le derivationFields p.derivations))

def provenancePreimage (p : Provenance) : List UInt8 := utf8 provenanceDigestDomain ++ provenanceFields p

structure ShortSource (s : Source) : Prop where
  id : Short s.id
  name : Short s.name
  basis : ∀ b, s.basis = some b → Short b

structure ShortDerivation (d : Derivation) : Prop where
  field : Short d.field
  sources : d.sources.length < 256 ^ 8 ∧ ∀ id ∈ d.sources, Short id
  method : Short d.method

structure ShortProvenance (p : Provenance) : Prop where
  formatVersion : Short p.formatVersion
  reportDigest : Short p.reportDigest
  sources : p.sources.length < 256 ^ 8 ∧ ∀ s ∈ p.sources, ShortSource s
  derivations : p.derivations.length < 256 ^ 8 ∧ ∀ d ∈ p.derivations, ShortDerivation d

theorem framed_kind : Framed (fun _ : SourceKind => True) fun k => lp k.asStr :=
  framed_lp.comp _ SourceKind.asStr (fun k _ => by cases k <;> decide) fun k l _ _ h => by
    cases k <;> cases l <;> first | rfl | exact absurd h (by decide)

theorem framed_sourceFields : Framed ShortSource sourceFields :=
  (framed_lp.pair (framed_kind.pair (framed_lp.pair (framed_lp.optional (by decide))))).comp
    ShortSource (fun s => (s.id, s.kind, s.name, s.basis))
    (fun _ h => ⟨h.id, trivial, h.name, h.basis⟩) (by rintro ⟨⟩ ⟨⟩ _ _ ⟨⟩; rfl)

theorem framed_derivationFields : Framed ShortDerivation derivationFields :=
  (framed_lp.pair ((framed_u64le.counted framed_lp).pair framed_lp)).comp ShortDerivation
    (fun d => (d.field, d.sources, d.method)) (fun _ h => ⟨h.field, h.sources, h.method⟩)
    (by rintro ⟨⟩ ⟨⟩ _ _ ⟨⟩; rfl)

theorem framed_provenanceFields : Framed ShortProvenance provenanceFields :=
  (framed_lp.pair (framed_lp.pair ((framed_u64le.counted framed_sourceFields).pair
    (framed_u64le.counted framed_derivationFields)))).comp ShortProvenance
    (fun p => (p.formatVersion, p.reportDigest, p.sources, p.derivations))
    (fun _ h => ⟨h.formatVersion, h.reportDigest, h.sources, h.derivations⟩)
    (by rintro ⟨⟩ ⟨⟩ _ _ ⟨⟩; rfl)

variable (sha256 : List UInt8 → Digest)

def provenanceDigest (p : Provenance) : Digest := sha256 (provenancePreimage p)

end AssuranceLayer.ProvenanceGraph
