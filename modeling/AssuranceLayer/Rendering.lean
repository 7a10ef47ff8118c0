import AssuranceLayer.BrowserTypes
import AssuranceLayer.JsonParse
import AssuranceLayer.Wire

set_option autoImplicit false

/-! What is written as JSON is, parsed in a browser, of the types the browser declares. -/
namespace AssuranceLayer.Rendering
open Utf16 JavaScript Json Document Coverage
open Sums (AmountMap)

theorem mem_fromEntries {α : Type} {entries : List (JsString × α)} {p : JsString × α}
    (h : p ∈ fromEntries entries) : p ∈ entries := by
  induction entries using List.reverseRecOn with
  | nil => exact h
  | append_singleton entries e ih =>
    rw [fromEntries_concat] at h
    rcases mem_setProp.mp h with ⟨hname, hvalue⟩ | ⟨-, hp⟩
    · exact List.mem_append_right _ (List.mem_singleton.mpr (Prod.ext hname hvalue))
    · exact List.mem_append_left _ (ih hp)

theorem isRecord_map {α : Type} {c : Codec α} {type : Js → Prop} (h : ∀ a, type (Js.ofJson (c.encode a)))
    (m : SortedMap String α) : Browser.IsRecord type (Js.ofJson ((Codec.map c).encode m)) := by
  refine ⟨_, rfl, fun p hp => ?_⟩
  have hmem := mem_fromEntries hp
  rw [ofMembers_eq_map, List.map_map] at hmem
  obtain ⟨e, -, rfl⟩ := List.mem_map.mp hmem
  exact h e.2

theorem isString_string (s : String) : Browser.IsString (Js.ofJson (Codec.string.encode s)) := ⟨_, rfl⟩

theorem isAmountMap (m : AmountMap) : Browser.IsAmountMap (Js.ofJson (Wire.amountMap.encode m)) :=
  isRecord_map isString_string _

theorem isDisclosure (d : Disclosure) : Browser.IsDisclosure (Js.ofJson (Wire.disclosure.encode d)) := by
  cases d
  · exact .inl rfl
  · exact .inr (.inl rfl)
  · exact .inr (.inr rfl)

section Members
variable {α : Type} {F : Fields α} {h : F.names.Nodup} {a : α} {name : String}

/-- A member that is written is read. -/
theorem prop_encode {j : Json} (hname : (F.write a).lookup name = some j) {v : Js} (hv : Js.ofJson j = v) :
    (Js.ofJson ((Codec.record F h).encode a)).prop name = v :=
  hv ▸ prop_of_lookup (h.sublist (F.write_names a)) hname

theorem prop_encode_absent (hname : (F.write a).lookup name = none) :
    (Js.ofJson ((Codec.record F h).encode a)).prop name = .undefined :=
  prop_of_absent (h.sublist (F.write_names a)) hname

theorem member_isString {s : String} (hname : (F.write a).lookup name = some (.str s)) :
    Browser.IsString ((Js.ofJson ((Codec.record F h).encode a)).prop name) :=
  ⟨_, prop_encode hname rfl⟩

theorem member_isNumber {n : ℕ} (hname : (F.write a).lookup name = some (.num n)) :
    Browser.IsNumber ((Js.ofJson ((Codec.record F h).encode a)).prop name) :=
  ⟨_, prop_encode hname rfl⟩

theorem member_is {type : Js → Prop} {j : Json} (htype : type (Js.ofJson j))
    (hname : (F.write a).lookup name = some j) :
    type ((Js.ofJson ((Codec.record F h).encode a)).prop name) := by
  rwa [prop_encode hname rfl]

end Members

theorem isManifest (m : Manifest) : Browser.IsManifest (Js.ofJson (Wire.manifest.encode m)) := by
  rw [Wire.manifest]
  exact ⟨⟨_, rfl⟩, member_isString rfl, member_is (isRecord_map isDisclosure m.fields) rfl⟩

theorem isDisclosures (d : Disclosures) : Browser.IsDisclosures (Js.ofJson (Wire.disclosures.encode d)) := by
  rw [Wire.disclosures]
  exact ⟨⟨_, rfl⟩, member_is (isAmountMap d.badDebt) rfl, member_isNumber rfl,
    member_is (isAmountMap d.excludedHouseTotals) rfl⟩

theorem isReport (r : Report) : Browser.IsReport (Js.ofJson (Wire.report.encode r)) := by
  have hmanifest : (Js.ofJson (Wire.report.encode r)).prop "manifest" = .undefined ∨
      Browser.IsManifest ((Js.ofJson (Wire.report.encode r)).prop "manifest") := by
    obtain ⟨_, _, _, _, _, _, _, _, _, _, _ | m⟩ := r <;> rw [Wire.report]
    · exact .inl (prop_encode_absent rfl)
    · exact .inr (member_is (isManifest m) rfl)
  rw [Wire.report] at hmanifest ⊢
  exact ⟨⟨_, rfl⟩, member_isString rfl, member_isString rfl, member_isString rfl, member_isString rfl,
    member_isString rfl, member_isString rfl, member_isNumber rfl, member_is (isAmountMap r.rootSums) rfl,
    member_is (isAmountMap r.markPrices) rfl, member_is (isDisclosures r.disclosures) rfl, hmanifest⟩

theorem isSignatureBlock (b : SignatureBlock) :
    Browser.IsSignatureBlock (Js.ofJson (Wire.signatureBlock.encode b)) := by
  rw [Wire.signatureBlock]
  exact ⟨⟨_, rfl⟩, member_isString rfl, member_isString rfl, member_isString rfl⟩

theorem isSignedReport (signed : SignedReport) :
    Browser.IsSignedReport (Js.ofJson (Wire.signedReport.encode signed)) := by
  rw [Wire.signedReport]
  exact ⟨⟨_, rfl⟩, member_is (isReport signed.report) rfl, member_is (isSignatureBlock signed.signature) rfl⟩

theorem isArray_list {α : Type} {c : Codec α} {type : Js → Prop} (h : ∀ a, type (Js.ofJson (c.encode a)))
    (l : List α) : Browser.IsArray type (Js.ofJson ((Codec.list c).encode l)) := by
  refine ⟨_, by rw [Codec.list, Js.ofJson, ofItems_eq_map, List.map_map], fun w hw => ?_⟩
  obtain ⟨a, -, rfl⟩ := List.mem_map.mp hw
  exact h a

theorem isProofStep (step : ProofStepDocument) :
    Browser.IsProofStep (Js.ofJson (Wire.proofStep.encode step)) := by
  rw [Wire.proofStep]
  exact ⟨⟨_, rfl⟩, member_isString rfl, member_is (isAmountMap step.siblingSums) rfl, _, prop_encode rfl rfl⟩

theorem isLeaf (leaf : LeafPreimage) : Browser.IsLeaf (Js.ofJson (Wire.leafPreimage.encode leaf)) := by
  rw [Wire.leafPreimage]
  exact ⟨⟨_, rfl⟩, member_isString rfl, member_isString rfl, member_is (isAmountMap leaf.balances) rfl⟩

theorem isLeafV2 (leaf : LeafPreimageV2) : Browser.IsLeafV2 (Js.ofJson (Wire.leafPreimageV2.encode leaf)) := by
  rw [Wire.leafPreimageV2]
  exact ⟨⟨_, rfl⟩, member_isString rfl, member_isString rfl, member_is (isRecord_map isAmountMap leaf.maps) rfl⟩

theorem isProofDocument (proof : ProofDocument) :
    Browser.IsProofDocument (Js.ofJson (Wire.proofDocument.encode proof)) := by
  rw [Wire.proofDocument]
  exact ⟨⟨_, rfl⟩, member_isString rfl, member_isString rfl, member_is (isLeaf proof.leaf) rfl,
    member_is (isArray_list isProofStep proof.steps) rfl⟩

theorem isProofDocumentV2 (proof : ProofDocumentV2) :
    Browser.IsProofDocumentV2 (Js.ofJson (Wire.proofDocumentV2.encode proof)) := by
  rw [Wire.proofDocumentV2]
  exact ⟨⟨_, rfl⟩, member_isString rfl, member_isString rfl, member_is (isLeafV2 proof.leaf) rfl,
    member_is (isArray_list isProofStep proof.steps) rfl⟩

theorem isCoverageStatement (statement : CoverageStatement) :
    Browser.IsCoverageStatement (Js.ofJson (Wire.coverageStatement.encode statement)) := by
  rw [Wire.coverageStatement]
  exact ⟨⟨_, rfl⟩, member_isString rfl, member_isString rfl, member_isString rfl, member_isString rfl⟩

end AssuranceLayer.Rendering
