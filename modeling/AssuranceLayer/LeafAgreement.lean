import AssuranceLayer.BrowserThrows
import AssuranceLayer.FoldAgreement
import AssuranceLayer.Rendering

set_option autoImplicit false

/-!
Proof documents in the two verifiers. The leaf of a document that decodes has one hash and one set of
sums in both.
-/
namespace AssuranceLayer.LeafAgreement
open Fallible Utf16 JavaScript Json Reading SumAgreement FoldAgreement SortedMap
open Document
open Merkle (Maps SafeMaps qualified)
open Browser (Sum)

/-! ## Documents -/

structure ReadsLeaf (v : Js) (l : LeafPreimage) : Prop where
  object : IsObject v
  salt : v.prop "salt" = Js.string l.salt
  userId : v.prop "user_id" = Js.string l.userId
  balances : ReadsAmounts (v.prop "balances") l.balances

def ReadsMaps (v : Js) (m : Maps) : Prop := ∃ props, v = .obj props ∧ Mirrors ReadsAmounts props m

structure ReadsLeafV2 (v : Js) (l : LeafPreimageV2) : Prop where
  object : IsObject v
  salt : v.prop "salt" = Js.string l.salt
  subjectId : v.prop "subject_id" = Js.string l.subjectId
  maps : ReadsMaps (v.prop "maps") l.maps

def ReadsSteps (v : Js) (steps : List ProofStepDocument) : Prop :=
  ∃ items, v = .arr items ∧ List.Forall₂ ReadsStep items steps

/-- A proof document about a leaf that is read. -/
structure ReadsProof (v : Js) (formatVersion reportDigest : String) (leaf : Js → Prop)
    (steps : List ProofStepDocument) : Prop where
  object : IsObject v
  formatVersion : v.prop "format_version" = Js.string formatVersion
  reportDigest : v.prop "report_digest" = Js.string reportDigest
  leaf : leaf (v.prop "leaf")
  steps : ReadsSteps (v.prop "steps") steps

theorem readsLeaf_of_decode {j : Json} {l : LeafPreimage} (h : Wire.leafPreimage.decode j = some l)
    (hobject : IsObject (Js.ofJson j)) : ReadsLeaf (Js.ofJson j) l := by
  obtain ⟨entries, rfl, hnodup, hread⟩ := members_of_decode h hobject
  simp only [Fields.iso_read, Fields.both_read, Fields.field_read, string_decode, exists_eq_right] at hread
  obtain ⟨⟨_, _, _⟩, ⟨hsalt, huser, jb, hjb, hb⟩, rfl⟩ := hread
  exact ⟨hobject, prop_of_lookup hnodup hsalt, prop_of_lookup hnodup huser,
    prop_of_lookup hnodup hjb ▸ readsAmounts_of_decode hb⟩

theorem readsLeafV2_of_decode {j : Json} {l : LeafPreimageV2} (h : Wire.leafPreimageV2.decode j = some l)
    (hobject : IsObject (Js.ofJson j)) : ReadsLeafV2 (Js.ofJson j) l := by
  obtain ⟨entries, rfl, hnodup, hread⟩ := members_of_decode h hobject
  simp only [Fields.iso_read, Fields.both_read, Fields.field_read, string_decode, exists_eq_right] at hread
  obtain ⟨⟨_, _, _⟩, ⟨hsalt, hsubject, jm, hjm, hm⟩, rfl⟩ := hread
  exact ⟨hobject, prop_of_lookup hnodup hsalt, prop_of_lookup hnodup hsubject,
    prop_of_lookup hnodup hjm ▸ mirrors_of_map (fun _ _ => readsAmounts_of_decode) hm⟩

theorem readsStep_of_decode {j : Json} {s : ProofStepDocument} (h : Wire.proofStep.decode j = some s)
    (hobject : IsObject (Js.ofJson j)) : ReadsStep (Js.ofJson j) s := by
  obtain ⟨entries, rfl, hnodup, hread⟩ := members_of_decode h hobject
  simp only [Fields.iso_read, Fields.both_read, Fields.field_read, string_decode, boolean_decode,
    exists_eq_right] at hread
  obtain ⟨⟨_, _, _⟩, ⟨hhash, ⟨js, hjs, hs⟩, hside⟩, rfl⟩ := hread
  exact ⟨hobject, prop_of_lookup hnodup hhash, prop_of_lookup hnodup hjs ▸ readsAmounts_of_decode hs,
    prop_of_lookup hnodup hside⟩

theorem readsSteps_of_decode {j : Json} {steps : List ProofStepDocument}
    (h : (Codec.list Wire.proofStep).decode j = some steps)
    (htype : Browser.IsArray Browser.IsProofStep (Js.ofJson j)) : ReadsSteps (Js.ofJson j) steps := by
  obtain ⟨items, rfl, hitems⟩ := list_decode.mp h
  obtain ⟨_, heq, htypes⟩ := htype
  rw [Js.ofJson, ofItems_eq_map] at heq
  obtain rfl := Js.arr.inj heq
  have hobjects : ∀ i ∈ items, IsObject (Js.ofJson i) := fun i hi => (htypes _ (List.mem_map_of_mem hi)).object
  refine ⟨_, by rw [Js.ofJson, ofItems_eq_map], List.forall₂_map_left_iff.mpr ?_⟩
  exact ((List.forall₂_and_left _ _).mpr ⟨hobjects, hitems⟩).imp fun i s hi => readsStep_of_decode hi.2 hi.1

theorem readsProof_of_decode {j : Json} {p : ProofDocument} (h : Wire.proofDocument.decode j = some p)
    (htype : Browser.IsProofDocument (Js.ofJson j)) :
    ReadsProof (Js.ofJson j) p.formatVersion p.reportDigest (ReadsLeaf · p.leaf) p.steps := by
  obtain ⟨entries, rfl, hnodup, hread⟩ := members_of_decode h htype.object
  simp only [Fields.iso_read, Fields.both_read, Fields.field_read, string_decode, exists_eq_right] at hread
  obtain ⟨⟨_, _, _, _⟩, ⟨hversion, hdigest, ⟨jl, hjl, hl⟩, js, hjs, hs⟩, rfl⟩ := hread
  have hleaf := htype.leaf
  have hsteps := htype.steps
  rw [prop_of_lookup hnodup hjl] at hleaf
  rw [prop_of_lookup hnodup hjs] at hsteps
  exact ⟨htype.object, prop_of_lookup hnodup hversion, prop_of_lookup hnodup hdigest,
    prop_of_lookup hnodup hjl ▸ readsLeaf_of_decode hl hleaf.object,
    prop_of_lookup hnodup hjs ▸ readsSteps_of_decode hs hsteps⟩

theorem readsProofV2_of_decode {j : Json} {p : ProofDocumentV2} (h : Wire.proofDocumentV2.decode j = some p)
    (htype : Browser.IsProofDocumentV2 (Js.ofJson j)) :
    ReadsProof (Js.ofJson j) p.formatVersion p.reportDigest (ReadsLeafV2 · p.leaf) p.steps := by
  obtain ⟨entries, rfl, hnodup, hread⟩ := members_of_decode h htype.object
  simp only [Fields.iso_read, Fields.both_read, Fields.field_read, string_decode, exists_eq_right] at hread
  obtain ⟨⟨_, _, _, _⟩, ⟨hversion, hdigest, ⟨jl, hjl, hl⟩, js, hjs, hs⟩, rfl⟩ := hread
  have hleaf := htype.leaf
  have hsteps := htype.steps
  rw [prop_of_lookup hnodup hjl] at hleaf
  rw [prop_of_lookup hnodup hjs] at hsteps
  exact ⟨htype.object, prop_of_lookup hnodup hversion, prop_of_lookup hnodup hdigest,
    prop_of_lookup hnodup hjl ▸ readsLeafV2_of_decode hl hleaf.object,
    prop_of_lookup hnodup hjs ▸ readsSteps_of_decode hs hsteps⟩

/-! ## Leaves over one balance set -/

variable {sha256 : List UInt8 → Digest}

theorem encode_string (s : String) : (Js.string s).encode = (.ok (utf8 s) : Browser.Throws _) := by
  simp [Js.encode, Js.string, Js.text]

theorem leafNode_reads {v : Js} {l : LeafPreimage} (h : ReadsLeaf v l) {salt : Bytes 32}
    (hsalt : hexDecodeN 32 l.salt = some salt) :
    ∃ node, Browser.leafNode sha256 v = .ok node ∧ ReadsNode node
      ⟨sha256 (Merkle.leafPreimage sha256 salt l.userId (Canonical.sumsCanonical l.balances)), l.balances⟩ := by
  obtain ⟨sums, hparse, hholds⟩ := parseSums_reads h.balances
  refine ⟨⟨_, sums⟩, ?_, rfl, hholds⟩
  simp only [Browser.leafNode, Browser.leafHashHex, h.object.get, ok_bind, h.salt, h.userId, hparse,
    encode_string, hexToBytes_of_decode hsalt, canonicalSums_holds hholds, encode_ofString]
  rfl

/-! ## Leaves over several maps -/

theorem isSafeChar_lt {c : Char} (h : Merkle.isSafeChar c = true) : c.toNat < 0x10000 := by
  simp only [Merkle.isSafeChar, Bool.or_eq_true, decide_eq_true_eq] at h
  rcases h with ((h | rfl) | rfl) | rfl
  · simp only [Char.isAlphanum, Char.isAlpha, Char.isUpper, Char.isLower, Char.isDigit, Bool.or_eq_true,
      Bool.and_eq_true, decide_eq_true_eq, ge_iff_le, UInt32.le_iff_toNat_le] at h
    have hval : c.toNat = c.val.toNat := rfl
    simp at h
    omega
  all_goals decide

theorem isSafe_ofString (s : String) : Browser.isSafe (ofString s) = Merkle.isSafeName s := by
  have hchars : (asChars (ofString s)).all Merkle.isSafeChar = true ↔ s.toList.all Merkle.isSafeChar = true := by
    constructor
    · intro h
      rwa [← AmountTexts.asChars_eq (by decide) (fun _ => isSafeChar_lt) (.inl h)]
    · intro h
      rwa [AmountTexts.asChars_eq (by decide) (fun _ => isSafeChar_lt) (.inr h)]
  have hempty : ofString s ≠ [] ↔ s ≠ "" := not_congr (ofString_inj (t := ""))
  rw [Bool.eq_iff_iff, Browser.isSafe, Merkle.isSafeName, decide_eq_true_eq, decide_eq_true_eq, hempty]
  exact and_congr_right fun _ => hchars

theorem checkNames_iff {v : Js} {k : String} {m : Sums.AmountMap} (h : ReadsAmounts v m) :
    Browser.checkNames (ofString k, v) = .ok () ↔
      Merkle.isSafeName k = true ∧ ∀ a ∈ m.keys, Merkle.isSafeName a = true := by
  obtain ⟨props, rfl, hm⟩ := h
  simp only [Browser.checkNames, Js.entries, ok_bind, bind_eq_ok, ensure_eq_ok, exists_const, forM_eq_ok,
    isSafe_ofString]
  refine and_congr_right fun _ => ?_
  constructor
  · intro hall a ha
    obtain ⟨p, hp, hname⟩ := List.mem_map.mp (hm.complete a ha)
    have hsafe := hall p hp
    rwa [hname, isSafe_ofString] at hsafe
  · intro hall p hp
    obtain ⟨a, _, hname, hget, _⟩ := hm.sound p hp
    rw [hname, isSafe_ofString]
    exact hall a (mem_keys.mpr (by simp [hget]))

/-- The names of all maps and assets pass together. -/
theorem checkAllNames_iff {props : List (JsString × Js)} {maps : Maps} (h : Mirrors ReadsAmounts props maps) :
    forM (bytewise props) Browser.checkNames = .ok () ↔ SafeMaps maps := by
  rw [forM_eq_ok, SafeMaps]
  constructor
  · rintro hall ⟨k, m⟩ hm
    obtain ⟨v, hv, hreads⟩ := h.lookup (get?_eq_some.mpr hm)
    have hmem := (bytewise_perm props).mem_iff.mpr ((lookup_eq_some h.nodup).mp hv)
    exact (checkNames_iff hreads).mp (hall _ hmem)
  · rintro hall ⟨name, v⟩ hp
    obtain ⟨k, m, rfl, hget, hreads⟩ := h.sound _ ((bytewise_perm props).mem_iff.mp hp)
    exact (checkNames_iff hreads).mpr (hall _ (get?_eq_some.mp hget))

theorem leafHashV2Hex_reads {v : Js} {maps : Maps} (h : ReadsMaps v maps) (hsafe : SafeMaps maps)
    {saltHex subjectId : String} {salt : Bytes 32} (hsalt : hexDecodeN 32 saltHex = some salt) :
    Browser.leafHashV2Hex sha256 (Js.string saltHex) (Js.string subjectId) v =
      .ok (Browser.hashHex sha256 (Merkle.leafPreimageV2 sha256 salt subjectId maps)) := by
  obtain ⟨props, rfl, hm⟩ := h
  have hparts : (bytewise props).mapM (fun e => do
      let amounts ← Browser.lpmap e.2
      return Browser.lpBytes (encode e.1) ++ amounts) =
      .ok (maps.entries.map fun m => lp m.1 ++ Sums.lpmap m.2) := by
    rw [mapM_eq_ok, List.forall₂_map_right_iff]
    refine hm.bytewise.imp fun p e hpe => ?_
    rw [lpmap_reads hpe.2, ok_bind, hpe.1, encode_ofString]
    rfl
  have hlen := hm.bytewise.length_eq
  simp only [Browser.leafHashV2Hex, Js.entries, ok_bind, (checkAllNames_iff hm).mpr hsafe, encode_string,
    hexToBytes_of_decode hsalt, hparts, hlen]
  rw [Merkle.leafPreimageV2, Merkle.lpmaps, List.flatMap]
  rfl

theorem entries_read {v : Js} {m : Sums.AmountMap} (h : ReadsAmounts v m) (k : String) :
    ∃ l : List (String × U128), l.Perm m.entries ∧ (do
        (← v.entries).mapM fun e => do
          let amount ← Browser.parseAmount18dp e.2
          return (Browser.qualified (ofString k) e.1, Sum.big amount) : Browser.Throws _) =
      .ok (l.map fun e => (ofString (qualified k e.1), Sum.big e.2.val)) := by
  obtain ⟨props, rfl, hm⟩ := h
  obtain ⟨l, hl, hperm⟩ := Mirrors.entries_perm hm
  refine ⟨l, hperm, ?_⟩
  rw [Js.entries, ok_bind, mapM_eq_ok, List.forall₂_map_right_iff]
  refine hl.imp fun p e hpe => ?_
  rw [parseAmount18dp_reads hpe.2, ok_bind, hpe.1, Browser.qualified, qualified, ofString_append, ofString_append]
  rfl

/-- The amounts of all maps, in the order in which they are met. -/
theorem parts_read {props : List (JsString × Js)} {l : List (String × Sums.AmountMap)}
    (h : List.Forall₂ (fun p e => p.1 = ofString e.1 ∧ ReadsAmounts p.2 e.2) props l) :
    ∃ parts, props.mapM (fun m => do
        (← m.2.entries).mapM fun e => do
          let amount ← Browser.parseAmount18dp e.2
          return (Browser.qualified m.1 e.1, Sum.big amount)) = (.ok parts : Browser.Throws _) ∧
      ∃ flat : List (String × U128), parts.flatten = flat.map (fun e => (ofString e.1, Sum.big e.2.val)) ∧
        flat.Perm (l.flatMap fun m => m.2.entries.map fun e => (qualified m.1 e.1, e.2)) := by
  induction h with
  | nil => exact ⟨[], rfl, [], rfl, .nil⟩
  | @cons p e props l hpe _ ih =>
    obtain ⟨parts, hparts, flat, hflat, hperm⟩ := ih
    obtain ⟨first, hfirst, hread⟩ := entries_read hpe.2 e.1
    rw [← hpe.1] at hread
    refine ⟨first.map (fun a => (ofString (qualified e.1 a.1), Sum.big a.2.val)) :: parts, ?_,
      first.map (fun a => (qualified e.1 a.1, a.2)) ++ flat, ?_, ?_⟩
    · rw [List.mapM_cons, hread, ok_bind, hparts]
      rfl
    · rw [List.flatten_cons, hflat, List.map_append, List.map_map]
      rfl
    · rw [List.flatMap_cons]
      exact (hfirst.map _).append hperm

theorem flattenMaps_reads {v : Js} {maps : Maps} (h : ReadsMaps v maps) (hsafe : SafeMaps maps) :
    ∃ sums, Browser.flattenMaps v = .ok sums ∧ Holds sums (Merkle.flatten maps) := by
  obtain ⟨props, rfl, hm⟩ := h
  obtain ⟨l, hl, hperm⟩ := Mirrors.entries_perm hm
  obtain ⟨parts, hparts, flat, hflat, hall⟩ := parts_read hl
  refine ⟨fromEntries parts.flatten, ?_, ?_⟩
  · exact bind_eq_ok.mpr ⟨props, rfl, bind_eq_ok.mpr ⟨parts, hparts, rfl⟩⟩
  · have hsource := hall.trans (hperm.flatMap_right fun m => m.2.entries.map fun e => (qualified m.1 e.1, e.2))
    rw [Holds, Merkle.flatten, ← ofList_perm hsource (Merkle.flatten_nodup hsafe), hflat]
    refine Mirrors.fromEntries ?_
    rw [List.forall₂_map_left_iff, List.forall₂_same]
    exact fun e _ => ⟨rfl, rfl⟩

theorem leafNodeV2_reads {v : Js} {l : LeafPreimageV2} (h : ReadsLeafV2 v l) (hsafe : SafeMaps l.maps)
    {salt : Bytes 32} (hsalt : hexDecodeN 32 l.salt = some salt) :
    ∃ node, Browser.leafNodeV2 sha256 (v.prop "salt") (v.prop "subject_id") (v.prop "maps") = .ok node ∧
      ReadsNode node ⟨sha256 (Merkle.leafPreimageV2 sha256 salt l.subjectId l.maps), Merkle.flatten l.maps⟩ := by
  obtain ⟨sums, hflat, hholds⟩ := flattenMaps_reads h.maps hsafe
  refine ⟨⟨_, sums⟩, ?_, rfl, hholds⟩
  rw [Browser.leafNodeV2, hflat, ok_bind, h.salt, h.subjectId, leafHashV2Hex_reads h.maps hsafe hsalt, ok_bind]
  rfl

/-- A map that is required is carried in both. -/
theorem checkLeafMap_agrees {v : Js} {l : LeafPreimageV2} (h : ReadsLeafV2 v l) {rules : Profile.ProfileRules}
    {required : String} :
    Browser.checkLeafMap rules v required = .ok () ↔ Verify.CarriesMap l.maps required := by
  obtain ⟨props, hprops, hm⟩ := h.maps
  rw [BrowserThrows.checkLeafMap_eq_ok h.object, BrowserThrows.LeafMapPasses, BrowserThrows.mapEntries, hprops,
    Verify.CarriesMap]
  cases hget : l.maps.get? required with
  | none => simp [Js.prop, hm.lookup_none hget, Js.orElse, Js.isNullish, Js.entries]
  | some m =>
    obtain ⟨w, hw, entries, rfl, hmirrors⟩ := hm.lookup hget
    have hnil : entries ≠ [] ↔ m.isEmpty = false := by
      rw [← hmirrors.isEmpty, ne_eq, ← List.isEmpty_iff, Bool.not_eq_true]
    simp [Js.prop, hw, Js.orElse, Js.isNullish, Js.entries, ← hnil]

end AssuranceLayer.LeafAgreement
