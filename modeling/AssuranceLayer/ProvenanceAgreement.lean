import AssuranceLayer.BrowserProvenance
import AssuranceLayer.CoverageAgreement
import AssuranceLayer.Lineage

set_option autoImplicit false

/-!
Provenance graphs in the two verifiers. They ask the same of a graph, but for how a trusted key may be
spelled, what counts as white space in a basis, and the counts that go into a report's digest.
-/
namespace AssuranceLayer.ProvenanceAgreement
open Fallible Utf16 JavaScript Json Json.Codec Json.Fields Reading KeySpelling CoverageAgreement
open Document Digest ProvenanceGraph Grading Lineage
open Sign (Ed25519 verifySignature goldenEd25519 goldenSigner)

/-! ## Documents -/

def readSourceKind (s : String) : Option SourceKind :=
  if s = "participant" then some .participant
  else if s = "synchronizer" then some .synchronizer
  else if s = "party" then some .party
  else if s = "template" then some .template
  else if s = "off-ledger" then some .offLedger
  else none

/-- A name, or an object that gives the name a null. -/
def sourceKind : Codec SourceKind where
  encode k := .str k.asStr
  decode
    | .str s => readSourceKind s
    | .obj [(s, .null)] => readSourceKind s
    | _ => none
  decode_encode k := by cases k <;> rfl

theorem string_ne_null (s : String) : string.encode s ≠ .null := fun h => Json.noConfusion h

def source : Codec Source :=
  record (((field "id" string).both ((field "kind" sourceKind).both ((field "name" string).both
    (optional "basis" string string_ne_null)))).iso
    (fun p => ⟨p.1, p.2.1, p.2.2.1, p.2.2.2⟩) (fun s => (s.id, s.kind, s.name, s.basis)) fun _ => rfl)
    (by decide)

def derivation : Codec Derivation :=
  record (((field "field" string).both ((field "sources" (list string)).both (field "method" string))).iso
    (fun p => ⟨p.1, p.2.1, p.2.2⟩) (fun d => (d.field, d.sources, d.method)) fun _ => rfl) (by decide)

def provenance : Codec Provenance :=
  record (((field "format_version" string).both ((field "report_digest" string).both
    ((field "sources" (list source)).both (field "derivations" (list derivation))))).iso
    (fun p => ⟨p.1, p.2.1, p.2.2.1, p.2.2.2⟩)
    (fun p => (p.formatVersion, p.reportDigest, p.sources, p.derivations)) fun _ => rfl) (by decide)

def signedProvenance : Codec SignedProvenance :=
  record (((field "provenance" provenance).both (field "signature" Wire.signatureBlock)).iso
    (fun p => ⟨p.1, p.2⟩) (fun s => (s.provenance, s.signature)) fun _ => rfl) (by decide)

/-! ## What the browser reads in them -/

/-- An array of values that are read. -/
def ReadsList {α : Type} (R : Js → α → Prop) (v : Js) (l : List α) : Prop :=
  ∃ items, v = .arr items ∧ List.Forall₂ R items l

def ReadsString (v : Js) (s : String) : Prop := v = Js.string s

/-- No basis is spelled by leaving it out, or by null. -/
def ReadsBasis (v : Js) : Option String → Prop
  | none => v = .undefined ∨ v = .null
  | some basis => v = Js.string basis

structure ReadsSource (v : Js) (s : Source) : Prop where
  object : IsObject v
  id : v.prop "id" = Js.string s.id
  kind : v.prop "kind" = Js.string s.kind.asStr
  name : v.prop "name" = Js.string s.name
  basis : ReadsBasis (v.prop "basis") s.basis

structure ReadsDerivation (v : Js) (d : Derivation) : Prop where
  object : IsObject v
  field : v.prop "field" = Js.string d.field
  sources : ReadsList ReadsString (v.prop "sources") d.sources
  method : v.prop "method" = Js.string d.method

structure ReadsGraph (v : Js) (p : Provenance) : Prop where
  object : IsObject v
  formatVersion : v.prop "format_version" = Js.string p.formatVersion
  reportDigest : v.prop "report_digest" = Js.string p.reportDigest
  sources : ReadsList ReadsSource (v.prop "sources") p.sources
  derivations : ReadsList ReadsDerivation (v.prop "derivations") p.derivations

structure ReadsSignedGraph (v : Js) (s : SignedProvenance) : Prop where
  object : IsObject v
  provenance : ReadsGraph (v.prop "provenance") s.provenance
  signature : ReadsSignature (v.prop "signature") s.signature

theorem readsList_of_decode {α : Type} {c : Codec α} {type : Js → Prop} {R : Js → α → Prop}
    (hitem : ∀ j a, c.decode j = some a → type (Js.ofJson j) → R (Js.ofJson j) a) {j : Json} {l : List α}
    (h : (Codec.list c).decode j = some l) (htype : Browser.IsArray type (Js.ofJson j)) :
    ReadsList R (Js.ofJson j) l := by
  obtain ⟨items, rfl, hitems⟩ := list_decode.mp h
  obtain ⟨_, heq, htypes⟩ := htype
  rw [Js.ofJson, ofItems_eq_map] at heq
  obtain rfl := Js.arr.inj heq
  have htyped : ∀ i ∈ items, type (Js.ofJson i) := fun i hi => htypes _ (List.mem_map_of_mem hi)
  refine ⟨_, by rw [Js.ofJson, ofItems_eq_map], List.forall₂_map_left_iff.mpr ?_⟩
  exact ((List.forall₂_and_left _ _).mpr ⟨htyped, hitems⟩).imp fun i a hi => hitem i a hi.2 hi.1

theorem readSourceKind_asStr (k : SourceKind) : readSourceKind k.asStr = some k := by
  cases k <;> rfl

theorem readsKind_of_decode {j : Json} {k : SourceKind} (h : sourceKind.decode j = some k)
    (htype : ∃ kind ∈ Browser.sourceKinds, Js.ofJson j = Js.string kind) :
    Js.ofJson j = Js.string k.asStr := by
  obtain ⟨kind, hkind, hj⟩ := htype
  have hname : ∀ kind ∈ Browser.sourceKinds, ∃ e : SourceKind, kind = e.asStr := by
    intro kind hkind
    simp only [Browser.sourceKinds, List.mem_cons, List.not_mem_nil, or_false] at hkind
    obtain rfl | rfl | rfl | rfl | rfl := hkind
    · exact ⟨.participant, rfl⟩
    · exact ⟨.synchronizer, rfl⟩
    · exact ⟨.party, rfl⟩
    · exact ⟨.template, rfl⟩
    · exact ⟨.offLedger, rfl⟩
  obtain ⟨e, rfl⟩ := hname kind hkind
  cases j with
  | str s =>
    obtain rfl := ofString_inj.mp (Js.str.inj hj)
    obtain rfl := Option.some.inj ((readSourceKind_asStr e).symm.trans h)
    rfl
  | _ => cases hj

theorem readsSource_of_decode {j : Json} {s : Source} (h : source.decode j = some s)
    (htype : Browser.IsSource (Js.ofJson j)) : ReadsSource (Js.ofJson j) s := by
  obtain ⟨entries, rfl, hnodup, hread⟩ := members_of_decode h htype.object
  simp only [Fields.iso_read, Fields.both_read, Fields.field_read, string_decode, exists_eq_right] at hread
  obtain ⟨⟨id, kind, name, basis⟩, ⟨hid, ⟨jk, hjk, hk⟩, hname, hb⟩, rfl⟩ := hread
  have hkind := htype.kind
  rw [prop_of_lookup hnodup hjk] at hkind
  have hbasis : ReadsBasis ((Js.ofJson (.obj entries)).prop "basis") basis := by
    obtain ⟨rfl, hnone | hnull⟩ | ⟨jb, b, rfl, _, hjb, hb⟩ := Fields.optional_read.mp hb
    · exact .inl (prop_of_absent hnodup hnone)
    · exact .inr (prop_of_lookup hnodup hnull)
    · exact (prop_of_lookup hnodup hjb).trans (readsString_of_decode hb)
  exact ⟨htype.object, prop_of_lookup hnodup hid,
    (prop_of_lookup hnodup hjk).trans (readsKind_of_decode hk hkind), prop_of_lookup hnodup hname, hbasis⟩

theorem readsDerivation_of_decode {j : Json} {d : Derivation} (h : derivation.decode j = some d)
    (htype : Browser.IsDerivation (Js.ofJson j)) : ReadsDerivation (Js.ofJson j) d := by
  obtain ⟨entries, rfl, hnodup, hread⟩ := members_of_decode h htype.object
  simp only [Fields.iso_read, Fields.both_read, Fields.field_read, string_decode, exists_eq_right] at hread
  obtain ⟨⟨_, _, _⟩, ⟨hfield, ⟨js, hjs, hs⟩, hmethod⟩, rfl⟩ := hread
  have hsources := htype.sources
  rw [prop_of_lookup hnodup hjs] at hsources
  exact ⟨htype.object, prop_of_lookup hnodup hfield, prop_of_lookup hnodup hjs ▸
    readsList_of_decode (fun _ _ hd _ => readsString_of_decode hd) hs hsources, prop_of_lookup hnodup hmethod⟩

theorem readsGraph_of_decode {j : Json} {p : Provenance} (h : provenance.decode j = some p)
    (htype : Browser.IsProvenance (Js.ofJson j)) : ReadsGraph (Js.ofJson j) p := by
  obtain ⟨entries, rfl, hnodup, hread⟩ := members_of_decode h htype.object
  simp only [Fields.iso_read, Fields.both_read, Fields.field_read, string_decode, exists_eq_right] at hread
  obtain ⟨⟨_, _, _, _⟩, ⟨hversion, hdigest, ⟨js, hjs, hs⟩, jd, hjd, hd⟩, rfl⟩ := hread
  have hsources := htype.sources
  have hderivations := htype.derivations
  rw [prop_of_lookup hnodup hjs] at hsources
  rw [prop_of_lookup hnodup hjd] at hderivations
  exact ⟨htype.object, prop_of_lookup hnodup hversion, prop_of_lookup hnodup hdigest,
    prop_of_lookup hnodup hjs ▸ readsList_of_decode (fun _ _ => readsSource_of_decode) hs hsources,
    prop_of_lookup hnodup hjd ▸ readsList_of_decode (fun _ _ => readsDerivation_of_decode) hd hderivations⟩

theorem readsSignedGraph_of_decode {j : Json} {s : SignedProvenance} (h : signedProvenance.decode j = some s)
    (htype : Browser.IsSignedProvenance (Js.ofJson j)) : ReadsSignedGraph (Js.ofJson j) s := by
  obtain ⟨entries, rfl, hnodup, hread⟩ := members_of_decode h htype.object
  simp only [Fields.iso_read, Fields.both_read, Fields.field_read] at hread
  obtain ⟨⟨_, _⟩, ⟨⟨jp, hjp, hp⟩, js, hjs, hs⟩, rfl⟩ := hread
  have hprovenance := htype.provenance
  have hsignature := htype.signature.object
  rw [prop_of_lookup hnodup hjp] at hprovenance
  rw [prop_of_lookup hnodup hjs] at hsignature
  exact ⟨htype.object, prop_of_lookup hnodup hjp ▸ readsGraph_of_decode hp hprovenance,
    prop_of_lookup hnodup hjs ▸ readsSignature_of_decode hs hsignature⟩

/-! ## What is written -/

section Written
open Rendering

theorem isSource (s : Source) : Browser.IsSource (Js.ofJson (source.encode s)) := by
  have hkinds : ∀ k : SourceKind, k.asStr ∈ Browser.sourceKinds := fun k => by cases k <;> decide
  obtain ⟨id, kind, name, _ | basis⟩ := s <;> rw [source]
  · exact ⟨⟨_, rfl⟩, member_isString rfl, ⟨_, hkinds kind, prop_encode rfl rfl⟩, member_isString rfl,
      .inl (prop_encode_absent rfl)⟩
  · exact ⟨⟨_, rfl⟩, member_isString rfl, ⟨_, hkinds kind, prop_encode rfl rfl⟩, member_isString rfl,
      .inr (member_isString rfl)⟩

theorem isDerivation (d : Derivation) : Browser.IsDerivation (Js.ofJson (derivation.encode d)) := by
  rw [derivation]
  exact ⟨⟨_, rfl⟩, member_isString rfl, member_is (isArray_list isString_string d.sources) rfl, member_isString rfl⟩

theorem isProvenance (p : Provenance) : Browser.IsProvenance (Js.ofJson (provenance.encode p)) := by
  rw [provenance]
  exact ⟨⟨_, rfl⟩, member_isString rfl, member_isString rfl, member_is (isArray_list isSource p.sources) rfl,
    member_is (isArray_list isDerivation p.derivations) rfl⟩

theorem isSignedProvenance (signed : SignedProvenance) :
    Browser.IsSignedProvenance (Js.ofJson (signedProvenance.encode signed)) := by
  rw [signedProvenance]
  exact ⟨⟨_, rfl⟩, member_is (isProvenance signed.provenance) rfl, member_is (isSignatureBlock signed.signature) rfl⟩

end Written

/-! ## Digests -/

theorem mapM_reads {α β : Type} {R : Js → α → Prop} {items : List Js} {l : List α} {f : Js → Browser.Throws β}
    {g : α → β} (hf : ∀ v a, R v a → f v = .ok (g a)) (h : List.Forall₂ R items l) :
    items.mapM f = .ok (l.map g) :=
  mapM_eq_ok.mpr (List.forall₂_map_right_iff.mpr (h.imp hf))

theorem countOf_reads {α : Type} {R : Js → α → Prop} {v : Js} {l : List α} (h : ReadsList R v l) :
    Browser.countOf v = .ok (u64le l.length) := by
  obtain ⟨items, rfl, hitems⟩ := h
  rw [Browser.countOf, hitems.length_eq]

theorem readsString_lp (v : Js) (s : String) (h : ReadsString v s) : Browser.lp v = .ok (lp s) := by
  rw [ReadsString] at h
  rw [h, lp_string]

theorem sourcePreimage_reads {v : Js} {s : Source} (h : ReadsSource v s) :
    Browser.sourcePreimage v = .ok (sourceFields s) := by
  have hbasis : (if (v.prop "basis").isNullish then .ok [0] else List.cons 1 <$> Browser.lp (v.prop "basis")) =
      (.ok (Framing.optional 0 1 lp s.basis) : Browser.Throws _) := by
    have hread := h.basis
    cases hb : s.basis with
    | none =>
      rw [hb] at hread
      obtain heq | heq := hread <;> rw [heq] <;> rfl
    | some basis =>
      rw [hb] at hread
      rw [show v.prop "basis" = Js.string basis from hread, lp_string]
      rfl
  simp only [Browser.sourcePreimage, h.object.get, ok_bind, h.id, h.kind, h.name, lp_string, hbasis]
  rfl

theorem derivationPreimage_reads {v : Js} {d : Derivation} (h : ReadsDerivation v d) :
    Browser.derivationPreimage v = .ok (derivationFields d) := by
  obtain ⟨items, hitems, hsources⟩ := id h.sources
  have hids : items.mapM Browser.lp = .ok (d.sources.map lp) :=
    mapM_reads readsString_lp hsources
  simp only [Browser.derivationPreimage, h.object.get, ok_bind, h.field, h.method, lp_string,
    countOf_reads h.sources]
  simp only [hitems, Js.elements, ok_bind, hids]
  rw [derivationFields, Framing.counted, List.flatMap, List.append_assoc]
  rfl

theorem provenancePreimage_reads {v : Js} {p : Provenance} (h : ReadsGraph v p) :
    Browser.provenancePreimage v = .ok (provenancePreimage p) := by
  obtain ⟨sources, hsources, hs⟩ := id h.sources
  obtain ⟨derivations, hderivations, hd⟩ := id h.derivations
  have hsourceParts : sources.mapM Browser.sourcePreimage = .ok (p.sources.map sourceFields) :=
    mapM_reads (fun _ _ => sourcePreimage_reads) hs
  have hderivationParts : derivations.mapM Browser.derivationPreimage = .ok (p.derivations.map derivationFields) :=
    mapM_reads (fun _ _ => derivationPreimage_reads) hd
  simp only [Browser.provenancePreimage, h.object.get, ok_bind, h.formatVersion, h.reportDigest, lp_string,
    countOf_reads h.sources, countOf_reads h.derivations]
  simp only [hsources, hderivations, Js.elements]
  rw [ok_bind, hsourceParts, ok_bind, ok_bind, hderivationParts, ok_bind, provenancePreimage, provenanceFields,
    Framing.counted, Framing.counted, List.flatMap, List.flatMap, List.append_assoc]
  rfl

variable {sha256 : List UInt8 → Digest} {ed : Ed25519}

theorem provenanceDigestHex_reads {v : Js} {p : Provenance} (h : ReadsGraph v p) :
    Browser.provenanceDigestHex sha256 v = .ok (ofString (hexEncode (provenanceDigest sha256 p).toList)) := by
  rw [Browser.provenanceDigestHex, provenancePreimage_reads h]
  rfl

/-! ## The graph -/

theorem isOneOf_strings {s : String} {seen : List String} :
    Browser.isOneOf (Js.string s) (seen.map Js.string) = true ↔ s ∈ seen := by
  simp only [Browser.isOneOf, List.any_map, List.any_eq_true, Function.comp, Js.string, Js.strictEq,
    decide_eq_true_eq, ofString_inj, exists_eq_right']

/-- White space as the browser has it. -/
def givenInBrowser (basis : String) : Bool := trimmed basis ≠ ""

/-- White space as Rust has it. -/
def givenInRust (basis : String) : Bool := trim basis ≠ ""

theorem tracing_ok {α : Type} (a : α) : Browser.tracing (.ok a) = .ok a := rfl

theorem trimmedBasis_reads {v : Js} {basis : Option String} (h : ReadsBasis v basis) :
    Browser.trimmedBasis v = .ok (ofString (trimmed (basis.getD ""))) := by
  cases basis with
  | none => obtain rfl | rfl := h <;> rfl
  | some basis =>
    obtain rfl := h
    rw [Option.getD_some, ← trim_ofString]
    rfl

theorem checkSource_iff {v : Js} {s : Source} (h : ReadsSource v s) {seen : List String} {out : List Js} :
    Browser.checkSource (seen.map Js.string) v = .ok out ↔
      s.id ∉ seen ∧ (s.kind = .offLedger → s.basis.any givenInBrowser = true) ∧
        (s.id :: seen).map Js.string = out := by
  have hkind : (Js.string s.kind.asStr).is (ofString "off-ledger") = true ↔ s.kind = .offLedger := by
    rw [is_string]
    cases s.kind <;> decide
  have hgiven : ofString (trimmed (s.basis.getD "")) ≠ [] ↔ s.basis.any givenInBrowser = true := by
    rw [ne_eq, show ([] : JsString) = ofString "" from rfl, ofString_inj]
    cases s.basis with
    | none => exact iff_of_false (not_not_intro (by decide)) Bool.false_ne_true
    | some basis => exact decide_eq_true_iff.symm
  simp only [Browser.checkSource, h.object.get, tracing_ok, ok_bind, h.id, h.kind, trimmedBasis_reads h.basis,
    hkind]
  by_cases hoff : s.kind = .offLedger
  · simp only [hoff, if_true, bind_eq_ok, ensure_eq_ok, exists_and_right, exists_const, pure_eq_ok, hgiven,
      ← Bool.not_eq_true, isOneOf_strings, forall_const, List.map_cons]
  · simp only [hoff, if_false, bind_eq_ok, ensure_eq_ok, exists_const, pure_eq_ok, ← Bool.not_eq_true,
      isOneOf_strings, false_implies, true_and, List.map_cons]

/-- Values that are taken one after the other, each under a name of its own. -/
theorem fold_distinct {α β γ ε : Type} {R : β → α → Prop} {step : List γ → β → Except ε (List γ)}
    {name : α → String} {enc : String → γ} {good : α → Prop}
    (hstep : ∀ b a, R b a → ∀ seen out, step (seen.map enc) b = .ok out ↔
      name a ∉ seen ∧ good a ∧ (name a :: seen).map enc = out)
    {items : List β} {l : List α} (h : List.Forall₂ R items l) {seen : List String} {out : List γ} :
    items.foldlM step (seen.map enc) = .ok out ↔ ((l.map name).Nodup ∧ ∀ a ∈ l, name a ∉ seen) ∧
      (∀ a ∈ l, good a) ∧ ((l.map name).reverse ++ seen).map enc = out := by
  induction h generalizing seen with
  | nil => simp [pure, Except.pure]
  | @cons b a items l hread _ ih =>
    simp only [List.foldlM_cons, bind_eq_ok, hstep _ _ hread, List.map_cons, List.nodup_cons, List.forall_mem_cons,
      List.reverse_cons, List.append_assoc, List.singleton_append]
    constructor
    · rintro ⟨_, ⟨hfresh, hgood, rfl⟩, hrest⟩
      obtain ⟨⟨hnodup, hseen⟩, hall, hout⟩ := (@ih (name a :: seen)).mp hrest
      simp only [List.mem_cons, not_or] at hseen
      refine ⟨⟨⟨fun hmem => ?_, hnodup⟩, hfresh, fun c hc => (hseen c hc).2⟩, ⟨hgood, hall⟩, hout⟩
      obtain ⟨c, hc, heq⟩ := List.mem_map.mp hmem
      exact (hseen c hc).1 heq
    · rintro ⟨⟨⟨hnew, hnodup⟩, hfresh, hseen⟩, ⟨hgood, hall⟩, hout⟩
      refine ⟨_, ⟨hfresh, hgood, rfl⟩, (@ih (name a :: seen)).mpr ⟨⟨hnodup, fun c hc => ?_⟩, hall, hout⟩⟩
      rw [List.mem_cons, not_or]
      exact ⟨fun heq => hnew (heq ▸ List.mem_map_of_mem hc), hseen c hc⟩

theorem isAssessed_string {field : String} : Browser.isAssessed (Js.string field) = true ↔ field ∈ assessedFields := by
  rw [Browser.isAssessed, List.any_eq_true]
  simp only [is_string, exists_eq_right']
  exact Iff.rfl

/-- What a derivation needs of the ids that are declared. -/
def Wired (ids : List String) (d : Derivation) : Prop :=
  d.field ∈ assessedFields ∧ d.sources ≠ [] ∧ ∀ id ∈ d.sources, id ∈ ids

theorem strings_of_reads {items : List Js} {l : List String} (h : List.Forall₂ ReadsString items l) :
    items = l.map Js.string := by
  induction h with
  | nil => rfl
  | cons hread _ ih => rw [ih, List.map_cons, show _ = Js.string _ from hread]

theorem checkDerivation_iff {v : Js} {d : Derivation} (h : ReadsDerivation v d) {ids seen : List String}
    {out : List Js} : Browser.checkDerivation (ids.map Js.string) (seen.map Js.string) v = .ok out ↔
      d.field ∉ seen ∧ Wired ids d ∧ (d.field :: seen).map Js.string = out := by
  obtain ⟨items, hitems, hsources⟩ := h.sources
  have htext : Browser.tracing (Js.string d.field).text = .ok (ofString d.field) := rfl
  rw [strings_of_reads hsources] at hitems
  simp only [Browser.checkDerivation, h.object.get, tracing_ok, ok_bind, h.field, htext, hitems, Wired]
  by_cases hknown : d.field ∈ assessedFields
  · rw [isAssessed_string.mpr hknown, Bool.not_true, if_neg Bool.false_ne_true]
    cases hids : d.sources with
    | nil => simp [bind_eq_ok]
    | cons id rest =>
      simp only [List.map_cons, bind_eq_ok, ensure_eq_ok, forM_eq_ok, pure_eq_ok, exists_and_right, exists_const,
        List.forall_mem_cons, List.forall_mem_map, isOneOf_strings, ← Bool.not_eq_true, hknown, true_and, ne_eq,
        reduceCtorEq, not_false_eq_true]
  · have hunknown : Browser.isAssessed (Js.string d.field) = false :=
      Bool.eq_false_iff.mpr (mt isAssessed_string.mp hknown)
    rw [hunknown, Bool.not_false, if_pos rfl]
    refine iff_of_false ?_ fun hall => hknown hall.2.1.1
    rintro ⟨⟩

/-! ## What either verifier asks -/

/-- Off-ledger sources say how their figure arrives. -/
def BasesGiven (given : String → Bool) (p : Provenance) : Prop :=
  ∀ s ∈ p.sources, s.kind = .offLedger → s.basis.any given = true

/-- Everything that is asked of a graph, but for who signed it: by the digest of the report and the key
    that a verifier goes by, and by what it takes for a basis. -/
structure Founded (sha256 : List UInt8 → Digest) (ed : Ed25519) (digest : Report → Digest)
    (given : String → Bool) (key : String) (signedReport : SignedReport) (signed : SignedProvenance) : Prop where
  version : signed.provenance.formatVersion = provenanceFormatVersion
  named : signed.provenance.reportDigest = hexEncode (digest signedReport.report).toList
  algorithm : signed.signature.algorithm = signatureAlgorithm
  signature : verifySignature ed key (provenanceDigest sha256 signed.provenance) signed.signature.value = .ok ()
  ids : (signed.provenance.sources.map Source.id).Nodup
  bases : BasesGiven given signed.provenance
  fields : (signed.provenance.derivations.map Derivation.field).Nodup
  wired : ∀ d ∈ signed.provenance.derivations, Wired (signed.provenance.sources.map Source.id) d

/-- Keys are compared as they stand. -/
theorem verifyProvenance_iff {signedReport : SignedReport} {signed : SignedProvenance} {key : String} :
    verifyProvenance sha256 ed signedReport signed key = .ok () ↔
      Founded sha256 ed (reportDigest sha256) givenInRust key signedReport signed ∧
        SameSpelling signed.signature.publicKey key := by
  rw [verifyProvenance_eq_ok]
  constructor
  · rintro ⟨hversion, hdigest, hsigner, halgorithm, hsigned, hids, hbases, hfields, hwired⟩
    exact ⟨⟨hversion, hdigest, halgorithm, hsigned, hids, hbases, hfields, hwired⟩, hsigner,
      trimmed_of_verifies hsigned⟩
  · rintro ⟨⟨hversion, hdigest, halgorithm, hsigned, hids, hbases, hfields, hwired⟩, hsigner, -⟩
    exact ⟨hversion, hdigest, hsigner, halgorithm, hsigned, hids, hbases, hfields, hwired⟩

theorem checkGraph_iff {v w : Js} {p : Provenance} (hv : ReadsList ReadsSource v p.sources)
    (hw : ReadsList ReadsDerivation w p.derivations) : Browser.checkGraph v w = .ok () ↔
      ((p.sources.map Source.id).Nodup ∧ BasesGiven givenInBrowser p) ∧
        (p.derivations.map Derivation.field).Nodup ∧ ∀ d ∈ p.derivations, Wired (p.sources.map Source.id) d := by
  obtain ⟨sources, rfl, hs⟩ := hv
  obtain ⟨derivations, rfl, hd⟩ := hw
  have hsources : ∀ ids, sources.foldlM Browser.checkSource [] = .ok ids ↔
      ((p.sources.map Source.id).Nodup ∧ BasesGiven givenInBrowser p) ∧
        ((p.sources.map Source.id).reverse).map Js.string = ids := by
    intro ids
    have hfold := @fold_distinct _ _ _ _ ReadsSource Browser.checkSource Source.id Js.string
      (fun s => s.kind = .offLedger → s.basis.any givenInBrowser = true)
      (fun v s h seen out => checkSource_iff h) sources p.sources hs [] ids
    simpa [and_assoc, BasesGiven] using hfold
  have hderivations : ∀ fields, derivations.foldlM
      (Browser.checkDerivation ((p.sources.map Source.id).reverse.map Js.string)) [] = .ok fields ↔
      ((p.derivations.map Derivation.field).Nodup ∧ ∀ d ∈ p.derivations, Wired (p.sources.map Source.id) d) ∧
        ((p.derivations.map Derivation.field).reverse).map Js.string = fields := by
    intro fields
    have hfold := @fold_distinct _ _ _ _ ReadsDerivation
      (Browser.checkDerivation ((p.sources.map Source.id).reverse.map Js.string)) Derivation.field Js.string
      (Wired (p.sources.map Source.id).reverse) (fun v d h seen out => checkDerivation_iff h) derivations
      p.derivations hd [] fields
    simpa [and_assoc, Wired] using hfold
  simp only [Browser.checkGraph, bind_eq_ok, hsources, pure_eq_ok]
  constructor
  · rintro ⟨_, ⟨hgood, rfl⟩, fields, hfields, _⟩
    exact ⟨hgood, ((hderivations fields).mp hfields).1⟩
  · rintro ⟨hgood, hwired⟩
    exact ⟨_, ⟨hgood, rfl⟩, _, (hderivations _).mpr ⟨hwired, rfl⟩, trivial⟩

/-- Keys are compared without the white space around them and in lower case. -/
theorem browser_iff {toLowerCase : JsString → JsString} {v w : Js} {signedReport : SignedReport}
    {signed : SignedProvenance} (hv : ReadsSigned v signedReport) (hw : ReadsSignedGraph w signed)
    (key : String) :
    Browser.verifyProvenance toLowerCase sha256 ed v w (ofString key) = .ok () ↔
      Founded sha256 ed (readDigest sha256) givenInBrowser (trimmed key) signedReport signed ∧
        AlikeInLower toLowerCase signed.signature.publicKey key := by
  have hgraph : Browser.optionalGet w "provenance" = w.prop "provenance" := by
    obtain ⟨_, rfl⟩ := hw.object
    rfl
  have hversion : Browser.optionalGet (w.prop "provenance") "format_version" =
      Js.string signed.provenance.formatVersion := by
    rw [← hw.provenance.formatVersion]
    obtain ⟨_, heq⟩ := hw.provenance.object
    rw [heq]
    rfl
  have hlowered : Browser.lowered toLowerCase (Js.string signed.signature.publicKey) =
    .ok (toLowerCase (ofString signed.signature.publicKey)) := rfl
  have hcheck : Browser.checkProvenanceVersion (Js.string signed.provenance.formatVersion) = .ok () ↔
      signed.provenance.formatVersion = provenanceFormatVersion := by
    rw [Browser.checkProvenanceVersion, ← is_string]
    cases hv : (Js.string signed.provenance.formatVersion).is Browser.provenanceFormatVersion with
    | true => exact iff_of_true rfl hv
    | false =>
      refine iff_of_false ?_ (Bool.eq_false_iff.mp hv)
      rintro ⟨⟩
  simp only [Browser.verifyProvenance, hgraph, hversion, hw.provenance.object.get, hv.object.get,
    hw.object.get, hw.signature.object.get, ok_bind, tracing_ok, hw.provenance.reportDigest,
    reportDigestHex_reads hv.report, hw.signature.publicKey, hw.signature.algorithm, hw.signature.value, hlowered,
    trim_ofString, provenanceDigestHex_reads hw.provenance]
  simp only [bind_eq_ok, hcheck, ensure_eq_ok, exists_const, is_string, Browser.tracing, mapError_eq_ok,
    checkGraph_iff hw.provenance.sources hw.provenance.derivations, Browser.signatureAlgorithm]
  constructor
  · rintro ⟨hversion, hnamed, hkey, halgorithm, valid, hvalid, rfl, ⟨hids, hbases⟩, hfields, hwired⟩
    exact ⟨⟨hversion, hnamed, halgorithm, HexTexts.verifyEd25519_iff.mp hvalid, hids, hbases, hfields, hwired⟩, hkey⟩
  · rintro ⟨⟨hversion, hnamed, halgorithm, hsigned, hids, hbases, hfields, hwired⟩, hkey⟩
    exact ⟨hversion, hnamed, hkey, halgorithm, true, HexTexts.verifyEd25519_iff.mpr hsigned, rfl, ⟨hids, hbases⟩,
      hfields, hwired⟩

/-! ## Agreement -/

/-- Where the counts are kept and the bases are given to both, a graph that goes by one reading goes by
    the other. -/
theorem founded_congr {key : String} {signedReport : SignedReport} {signed : SignedProvenance}
    (hc : CountsKept sha256 signedReport) (hrust : BasesGiven givenInRust signed.provenance)
    (hbrowser : BasesGiven givenInBrowser signed.provenance) :
    Founded sha256 ed (readDigest sha256) givenInBrowser key signedReport signed ↔
      Founded sha256 ed (reportDigest sha256) givenInRust key signedReport signed := by
  constructor
  · rintro ⟨hversion, hnamed, halgorithm, hsigned, hids, _, hfields, hwired⟩
    exact ⟨hversion, hc ▸ hnamed, halgorithm, hsigned, hids, hrust, hfields, hwired⟩
  · rintro ⟨hversion, hnamed, halgorithm, hsigned, hids, _, hfields, hwired⟩
    exact ⟨hversion, hc ▸ hnamed, halgorithm, hsigned, hids, hbrowser, hfields, hwired⟩

variable (sha256 ed) in
/-- What Rust finds founded, under a key that is spelled as it is given, keeps its counts, and no basis
    of it is blank to the browser. -/
def KeptInBrowser (signedReport : SignedReport) (signed : SignedProvenance) (key : String) : Prop :=
  Founded sha256 ed (reportDigest sha256) givenInRust key signedReport signed →
    SameSpelling signed.signature.publicKey key →
      CountsKept sha256 signedReport ∧ BasesGiven givenInBrowser signed.provenance

variable (sha256 ed) in
/-- What the browser finds founded, under a key that is the given one in lower case, keeps its counts, no
    basis of it is blank to Rust, and the key is spelled as it is given. -/
def SpelledInRust (toLowerCase : JsString → JsString) (signedReport : SignedReport)
    (signed : SignedProvenance) (key : String) : Prop :=
  Founded sha256 ed (readDigest sha256) givenInBrowser (trimmed key) signedReport signed →
    AlikeInLower toLowerCase signed.signature.publicKey key →
      (CountsKept sha256 signedReport ∧ BasesGiven givenInRust signed.provenance) ∧
        SameSpelling signed.signature.publicKey key

variable (sha256 ed) in
/-- The two checks agree exactly when what either finds founded has its counts kept, its bases in what
    both call text, and its key spelled as the caller spells it. -/
theorem graphs_agree_iff (toLowerCase : JsString → JsString) {jr jp : Json} {signedReport : SignedReport}
    {signed : SignedProvenance} (hr : Wire.signedReport.decode jr = some signedReport)
    (hp : signedProvenance.decode jp = some signed) (tr : Browser.IsSignedReport (Js.ofJson jr))
    (tp : Browser.IsSignedProvenance (Js.ofJson jp)) (key : String) :
    (Browser.verifyProvenance toLowerCase sha256 ed (Js.ofJson jr) (Js.ofJson jp) (ofString key) = .ok () ↔
      verifyProvenance sha256 ed signedReport signed key = .ok ()) ↔
    KeptInBrowser sha256 ed signedReport signed key ∧
      SpelledInRust sha256 ed toLowerCase signedReport signed key := by
  have hkept : Founded sha256 ed (readDigest sha256) givenInBrowser (trimmed key) signedReport signed →
      Founded sha256 ed (reportDigest sha256) givenInRust key signedReport signed →
      CountsKept sha256 signedReport ∧ BasesGiven givenInRust signed.provenance ∧
        BasesGiven givenInBrowser signed.provenance := fun hread h =>
    ⟨countsKept_of_named hread.named.symm h.named.symm, h.bases, hread.bases⟩
  rw [browser_iff (readsSigned_of_decode hr tr) (readsSignedGraph_of_decode hp tp), verifyProvenance_iff,
    agree_iff hkept]
  · refine and_congr (forall_congr' fun hfounded => forall_congr' fun hspelling => ?_)
      (forall_congr' fun hread => forall_congr' fun _ => ?_)
    · rw [and_iff_left (hspelling.alikeInLower toLowerCase), and_iff_right hfounded.bases]
    · rw [and_iff_left hread.bases]
  · rintro ⟨hcounts, hrust, hbrowser⟩ hspelling
    rw [hspelling.2]
    exact founded_congr hcounts hrust hbrowser

/-! ## A graph judged differently -/

/-- A basis of a next line, which is white space to Rust alone. -/
def blankGraph : Provenance where
  formatVersion := provenanceFormatVersion
  reportDigest := reportDigestHex Sha256.sha256 (custodyAt "2026-09-09T10:00:00Z").report
  sources := [⟨"p1", .participant, "participant", none⟩, ⟨"px", .offLedger, "prices", some "\u0085"⟩]
  derivations := [⟨"root_sums", ["p1"], "sum of active Holding contracts"⟩, ⟨"mark_prices", ["px"], "close"⟩]

def signedBlank : SignedProvenance where
  provenance := blankGraph
  signature :=
    { algorithm := signatureAlgorithm
      publicKey := signerKey
      value := goldenSigner.signDigest (goldenEd25519 []) (provenanceDigest Sha256.sha256 blankGraph) }

theorem graphs_agree_iff_blank :
    Browser.verifyProvenance asciiLowerCase Sha256.sha256 (goldenEd25519 [])
        (Js.ofJson (Wire.signedReport.encode (custodyAt "2026-09-09T10:00:00Z")))
        (Js.ofJson (signedProvenance.encode signedBlank)) (ofString signerKey) = .ok () ∧
      verifyProvenance Sha256.sha256 (goldenEd25519 []) (custodyAt "2026-09-09T10:00:00Z") signedBlank
        signerKey ≠ .ok () ∧
      ¬ (KeptInBrowser Sha256.sha256 (goldenEd25519 []) (custodyAt "2026-09-09T10:00:00Z") signedBlank signerKey ∧
        SpelledInRust Sha256.sha256 (goldenEd25519 []) asciiLowerCase (custodyAt "2026-09-09T10:00:00Z") signedBlank
          signerKey) := by
  have htrimmed : trimmed signerKey = signerKey := trimmed_of_hex signerKey_decodes
  have hbrowser : Browser.verifyProvenance asciiLowerCase Sha256.sha256 (goldenEd25519 [])
      (Js.ofJson (Wire.signedReport.encode (custodyAt "2026-09-09T10:00:00Z")))
      (Js.ofJson (signedProvenance.encode signedBlank)) (ofString signerKey) = .ok () := by
    rw [browser_iff (readsSigned_of_decode (Wire.signedReport.decode_encode _) (Rendering.isSignedReport _))
      (readsSignedGraph_of_decode (signedProvenance.decode_encode _) (isSignedProvenance _)), htrimmed]
    exact ⟨{
      version := rfl
      named := congrArg (fun d : Digest => hexEncode d.toList) (signedAt_countsKept _ _ _).symm
      algorithm := rfl
      signature := Sign.verifySignature_own (Sign.recorded_acceptsOwn _ _ _) goldenSigner _
      ids := by decide
      bases := by unfold BasesGiven; decide +kernel
      fields := by decide
      wired := by unfold Wired; decide }, rfl⟩
  have hrust : verifyProvenance Sha256.sha256 (goldenEd25519 []) (custodyAt "2026-09-09T10:00:00Z") signedBlank
      signerKey ≠ .ok () := by
    intro h
    have hbases : BasesGiven givenInRust blankGraph := (verifyProvenance_iff.mp h).1.bases
    have hblank : ¬ BasesGiven givenInRust blankGraph := by
      unfold BasesGiven
      decide +kernel
    exact hblank hbases
  refine ⟨hbrowser, hrust, fun hboth => hrust ?_⟩
  exact ((graphs_agree_iff Sha256.sha256 (goldenEd25519 []) asciiLowerCase (Wire.signedReport.decode_encode _)
    (signedProvenance.decode_encode _) (Rendering.isSignedReport _) (isSignedProvenance _) signerKey).mpr
      hboth).mp hbrowser

/-! ## Figures of the ledger -/

theorem findDerivation_reads {items : List Js} {l : List Derivation}
    (h : List.Forall₂ ReadsDerivation items l) (field : String) :
    ∃ found, Browser.findDerivation (ofString field) items = .ok found ∧
      Option.Rel ReadsDerivation found (l.find? fun d => d.field = field) := by
  induction h with
  | nil => exact ⟨none, rfl, .none⟩
  | @cons v d items l hread _ ih =>
    simp only [Browser.findDerivation, hread.object.get, ok_bind, hread.field, List.find?_cons]
    by_cases hfield : d.field = field
    · rw [if_pos (is_string.mpr hfield), decide_eq_true hfield]
      exact ⟨some v, rfl, .some hread⟩
    · rw [if_neg (mt is_string.mp hfield), decide_eq_false hfield]
      exact ih

theorem anyM_reads {α : Type} {R : Js → α → Prop} {f : Js → Browser.Throws Bool} {g : α → Bool}
    (hf : ∀ v a, R v a → f v = .ok (g a)) {items : List Js} {l : List α} (h : List.Forall₂ R items l) :
    items.anyM f = .ok (l.any g) := by
  induction h with
  | nil => rfl
  | @cons v a items l hread _ ih =>
    rw [List.anyM, hf v a hread, ok_bind, List.any_cons]
    cases g a with
    | true => rfl
    | false => exact ih

theorem namesOnLedger_reads {id : String} {v : Js} {s : Source} (h : ReadsSource v s) :
    Browser.namesOnLedger (Js.string id) v = .ok (decide (s.id = id ∧ s.kind.onLedger)) := by
  have hkind : (Js.string s.kind.asStr).is (ofString "off-ledger") = !s.kind.onLedger := by
    cases s.kind <;> decide
  have hid : (Js.string s.id).strictEq (Js.string id) = decide (s.id = id) := by
    rw [Js.string, Js.string, Js.strictEq, decide_eq_decide, ofString_inj]
  simp only [Browser.namesOnLedger, h.object.get, ok_bind, h.id, h.kind, hid, hkind, Bool.not_not]
  by_cases heq : s.id = id
  · simp [heq, pure, Except.pure]
  · simp [heq, pure, Except.pure]

/-- Both find the same figures to come from the ledger. -/
theorem derivesFromLedger_reads {v : Js} {p : Provenance} (h : ReadsGraph v p) (field : String) :
    Browser.derivesFromLedger v (ofString field) = .ok (derivesFromLedger p field) := by
  obtain ⟨sources, hsources, hs⟩ := h.sources
  obtain ⟨derivations, hderivations, hd⟩ := h.derivations
  obtain ⟨found, hfound, hrel⟩ := findDerivation_reads hd field
  simp only [Browser.derivesFromLedger, Browser.derivationOf, h.object.get, ok_bind, hderivations, Js.isNullish,
    Browser.itemsOf, hfound, hsources, derivesFromLedger, Bool.false_eq_true, if_false]
  generalize p.derivations.find? (fun d => d.field = field) = first at hrel ⊢
  cases hrel with
  | none => rfl
  | @some v d hread =>
    obtain ⟨ids, hids, hstrings⟩ := hread.sources
    simp only [hread.object.get, ok_bind, hids]
    refine anyM_reads (fun w id hid => ?_) hstrings
    obtain rfl : w = Js.string id := hid
    exact anyM_reads (R := ReadsSource) (fun _ _ => namesOnLedger_reads) hs

end AssuranceLayer.ProvenanceAgreement
