import AssuranceLayer.BrowserChain
import AssuranceLayer.Reading

set_option autoImplicit false

/-!
The two walks of an anchor history. They ask the same of versions, links and publishers; the one
orders times and offsets by bytes, the other by UTF-16 code units, and a predecessor that is null is
none to the one and a name to the other.
-/
namespace AssuranceLayer.ChainAgreement
open Fallible Utf16 JavaScript Json
open Anchoring (Anchor)
open Reading (lp_string is_string)

/-! ## The fields of an anchor -/

/-- The anchor a value stands for. No predecessor is spelled by leaving the field out, or by null. -/
structure Reads (v : Js) (a : Anchor) : Prop where
  get : ∀ name, (v.get name : Browser.Throws Js) = .ok (v.prop name)
  formatVersion : v.prop "format_version" = Js.string a.formatVersion
  reportDigest : v.prop "report_digest" = Js.string a.reportDigest
  rootHash : v.prop "root_hash" = Js.string a.rootHash
  snapshotTime : v.prop "snapshot_time" = Js.string a.snapshotTime
  ledgerOffset : v.prop "ledger_offset" = Js.string a.ledgerOffset
  publisher : v.prop "publisher" = Js.string a.publisher
  publisherKey : v.prop "publisher_key" = Js.string a.publisherKey
  prevAnchor : a.prevAnchor = none ∧ (v.prop "prev_anchor" = .undefined ∨ v.prop "prev_anchor" = .null) ∨
    ∃ prev, a.prevAnchor = some prev ∧ v.prop "prev_anchor" = Js.string prev

theorem reads_of_decode {entries : List (String × Json)} {a : Anchor}
    (h : Wire.anchor.decode (.obj entries) = some a) :
    Reads (Js.ofJson (.obj entries)) a ∧
      ((Js.ofJson (.obj entries)).prop "prev_anchor" = .null ↔
        entries.lookup "prev_anchor" = some .null) := by
  obtain ⟨_, h'⟩ | ⟨_, ⟨rfl⟩, hnodup, -, hread⟩ := record_decode h
  · cases h'
  simp only [Fields.iso_read, Fields.both_read, Fields.field_read, string_decode, exists_eq_right] at hread
  obtain ⟨⟨fv, rd, rh, st, lo, pb, pk, prev⟩, ⟨hfv, hrd, hrh, hst, hlo, hpb, hpk, hprev⟩, rfl⟩ := hread
  have hprop := prop_ofJson hnodup "prev_anchor"
  have hreads : _ → Reads (Js.ofJson (.obj entries)) ⟨fv, rd, rh, st, lo, pb, pk, prev⟩ :=
    Reads.mk (fun _ => rfl) (prop_of_lookup hnodup hfv) (prop_of_lookup hnodup hrd) (prop_of_lookup hnodup hrh)
      (prop_of_lookup hnodup hst) (prop_of_lookup hnodup hlo) (prop_of_lookup hnodup hpb) (prop_of_lookup hnodup hpk)
  obtain ⟨hnone, hlookup | hlookup⟩ | ⟨j, s, hsome, hne, hlookup, hj⟩ := Fields.optional_read.mp hprev
  · rw [hlookup] at hprop ⊢
    exact ⟨hreads (.inl ⟨hnone, .inl hprop⟩), by simp [hprop]⟩
  · rw [hlookup] at hprop ⊢
    exact ⟨hreads (.inl ⟨hnone, .inr hprop⟩), iff_of_true hprop rfl⟩
  · obtain rfl := string_decode.mp hj
    rw [hlookup] at hprop ⊢
    refine ⟨hreads (.inr ⟨s, hsome, hprop⟩), iff_of_false (fun h => ?_) (by simp)⟩
    cases hprop.symm.trans h

/-! ## Digests -/

variable {sha256 : List UInt8 → Digest}

theorem anchorPreimage_reads {v : Js} {a : Anchor} (h : Reads v a) (hnull : v.prop "prev_anchor" ≠ .null) :
    Browser.anchorPreimage v = .ok (Anchoring.anchorPreimage a) := by
  have hprev : (if (v.prop "prev_anchor").strictEq .undefined = true then .ok [0]
      else List.cons 1 <$> Browser.lp (v.prop "prev_anchor") : Browser.Throws (List UInt8)) =
      .ok (Framing.optional 0 1 AssuranceLayer.lp a.prevAnchor) := by
    obtain ⟨ha, hv | hv⟩ | ⟨prev, ha, hv⟩ := h.prevAnchor
    · rw [ha, hv]
      rfl
    · exact absurd hv hnull
    · rw [ha, hv, lp_string]
      rfl
  simp only [Browser.anchorPreimage, h.get, ok_bind, h.formatVersion, h.reportDigest, h.rootHash,
    h.snapshotTime, h.ledgerOffset, h.publisher, h.publisherKey, lp_string, hprev]
  rfl

theorem anchorDigestHex_reads {v : Js} {a : Anchor} (h : Reads v a)
    (hnull : v.prop "prev_anchor" ≠ .null) :
    Browser.anchorDigestHex sha256 v = .ok (ofString (Anchoring.anchorDigestHex sha256 a)) := by
  rw [Browser.anchorDigestHex, anchorPreimage_reads h hnull]
  rfl

/-! ## One step of the walk -/

/-- One anchor may stand right before the other, but for the order of their times and offsets. -/
structure Links (sha256 : List UInt8 → Digest) (previous anchor : Anchor) : Prop where
  link : anchor.prevAnchor = some (Anchoring.anchorDigestHex sha256 previous)
  publisher : anchor.publisher = previous.publisher

/-- Times ascend and offsets do not descend, by bytes. -/
def InByteOrder (previous anchor : Anchor) : Prop :=
  previous.snapshotTime < anchor.snapshotTime ∧ previous.ledgerOffset ≤ anchor.ledgerOffset

/-- The same by UTF-16 code units. -/
def InUnitOrder (previous anchor : Anchor) : Prop :=
  unitValues (ofString previous.snapshotTime) < unitValues (ofString anchor.snapshotTime) ∧
    unitValues (ofString previous.ledgerOffset) ≤ unitValues (ofString anchor.ledgerOffset)

theorem lt_string (s t : String) : ((Js.string s).lt (Js.string t) : Browser.Throws _) =
    .ok (some (decide (unitValues (ofString s) < unitValues (ofString t)))) := rfl

theorem attempt_ok {α : Type} (a : α) : Browser.attempt (.ok a) = .ok a := rfl

theorem checkAnchor_zero {history : List Js} {v : Js} {a : Anchor} (h : Reads v a) :
    Browser.checkAnchor sha256 history v 0 = .ok () ↔
      a.formatVersion = Anchoring.anchorFormatVersion ∧ v.prop "prev_anchor" = .undefined := by
  simp only [Browser.checkAnchor, h.get, attempt_ok, ok_bind, bind_eq_ok, ensure_eq_ok, exists_const,
    h.formatVersion, Browser.anchorFormatVersion, is_string, Anchoring.anchorFormatVersion]
  refine and_congr_right fun _ => ?_
  cases v.prop "prev_anchor" <;> simp [Js.strictEq]

theorem checkAnchor_succ {history : List Js} {v w : Js} {a b : Anchor} {i : ℕ} (h : Reads v a)
    (hi : history[i]? = some w) (hw : Reads w b) (hnull : w.prop "prev_anchor" ≠ .null) :
    Browser.checkAnchor sha256 history v (i + 1) = .ok () ↔
      a.formatVersion = Anchoring.anchorFormatVersion ∧ Links sha256 b a ∧ InUnitOrder b a := by
  have hget : history.getD i .undefined = w := by rw [List.getD_eq_getElem?_getD, hi]; rfl
  simp only [Browser.checkAnchor, h.get, hw.get, hget, attempt_ok, ok_bind, bind_eq_ok, ensure_eq_ok,
    exists_const, h.formatVersion, h.publisher, hw.publisher, h.snapshotTime, hw.snapshotTime,
    h.ledgerOffset, hw.ledgerOffset, Browser.anchorFormatVersion, is_string, lt_string,
    anchorDigestHex_reads hw hnull, Anchoring.anchorFormatVersion]
  constructor
  · rintro ⟨hversion, hdefined, hlink, hpublisher, htime, hoffset⟩
    obtain ⟨-, hv | hv⟩ | ⟨prev, ha, hv⟩ := h.prevAnchor
    · rw [hv] at hdefined
      cases hdefined
    · rw [hv] at hlink
      cases hlink
    · rw [hv, is_string] at hlink
      exact ⟨hversion, ⟨hlink ▸ ha, is_string.mp hpublisher⟩, by simpa using htime, by simpa using hoffset⟩
  · rintro ⟨hversion, ⟨hlink, hpublisher⟩, htime, hoffset⟩
    obtain ⟨ha, -⟩ | ⟨prev, ha, hv⟩ := h.prevAnchor
    · rw [ha] at hlink
      cases hlink
    · obtain rfl := Option.some.inj (ha.symm.trans hlink)
      rw [hv]
      exact ⟨hversion, rfl, is_string.mpr rfl, is_string.mpr hpublisher, by simpa using htime,
        by simpa using hoffset⟩

/-! ## Histories -/

/-- Every anchor is an object, and the first leaves its predecessor out. -/
structure PlainHistory (items : List Json) : Prop where
  objects : ∀ j ∈ items, ∃ entries, j = .obj entries
  first : ∀ entries, items.head? = some (.obj entries) → entries.lookup "prev_anchor" ≠ some .null

/-- What both walks ask, apart from the order of times and offsets. -/
structure LinkedHistory (sha256 : List UInt8 → Digest) (anchors : List Anchor) : Prop where
  versions : ∀ a ∈ anchors, a.formatVersion = Anchoring.anchorFormatVersion
  genesis : ∀ a ∈ anchors.head?, a.prevAnchor = none
  links : anchors.IsChain (Links sha256)

theorem verifyChain_eq_ok {anchors : List Anchor} : Anchoring.verifyChain sha256 anchors = .ok () ↔
    LinkedHistory sha256 anchors ∧ anchors.IsChain InByteOrder := by
  have hsplit : anchors.IsChain (Anchoring.Precedes sha256) ↔
      anchors.IsChain (Links sha256) ∧ anchors.IsChain InByteOrder := by
    simp only [List.isChain_iff_getElem, ← forall_and]
    exact forall_congr' fun i => forall_congr' fun hi =>
      ⟨fun h => ⟨⟨h.link, h.publisher⟩, h.time, h.offset⟩,
        fun h => ⟨h.1.link, h.1.publisher, h.2.1, h.2.2⟩⟩
  rw [Anchoring.verifyChain_eq_ok, hsplit]
  exact ⟨fun h => ⟨⟨h.1, h.2.1, h.2.2.1⟩, h.2.2.2⟩, fun h => ⟨h.1.versions, h.1.genesis, h.1.links, h.2⟩⟩

/-- No item passes under a null. -/
theorem not_null_of_checkAnchor {history : List Js} {v : Js} {a : Anchor} {i : ℕ} (h : Reads v a)
    (hcheck : Browser.checkAnchor sha256 history v i = .ok ()) : v.prop "prev_anchor" ≠ .null := by
  intro hnull
  simp only [Browser.checkAnchor, h.get, attempt_ok, ok_bind, bind_eq_ok, ensure_eq_ok, exists_const,
    hnull] at hcheck
  cases i with
  | zero => cases ensure_eq_ok.mp hcheck.2
  | succ i =>
    obtain ⟨_, _, hrest⟩ := bind_eq_ok.mp hcheck.2
    obtain ⟨digest, _, hrest⟩ := bind_eq_ok.mp hrest
    obtain ⟨_, hlink, _⟩ := bind_eq_ok.mp hrest
    cases ensure_eq_ok.mp hlink

theorem object_of_checkAnchor {history : List Js} {j : Json} {a : Anchor} {i : ℕ}
    (h : Wire.anchor.decode j = some a)
    (hcheck : Browser.checkAnchor sha256 history (Js.ofJson j) i = .ok ()) : ∃ entries, j = .obj entries := by
  obtain ⟨items, rfl⟩ | ⟨entries, rfl, _⟩ := record_decode h
  · simp only [Browser.checkAnchor, bind_eq_ok] at hcheck
    obtain ⟨version, hversion, _, his, _⟩ := hcheck
    obtain rfl := Except.ok.inj hversion
    cases ensure_eq_ok.mp his
  · exact ⟨entries, rfl⟩

theorem verifyAnchorChain_eq_ok {items : List Json} :
    Browser.verifyAnchorChain sha256 (Js.ofJson (.arr items)) = .ok () ↔ ∀ i (hi : i < items.length),
      Browser.checkAnchor sha256 (items.map Js.ofJson) (Js.ofJson items[i]) i = .ok () := by
  simp only [Browser.verifyAnchorChain, Js.ofJson, attempt_ok, ok_bind, forM_eq_ok, ofItems_eq_map]
  constructor
  · intro h i hi
    exact h (Js.ofJson items[i], i) (List.mk_mem_zipIdx_iff_getElem?.mpr (by simp [hi]))
  · rintro h ⟨v, i⟩ he
    obtain ⟨hi, rfl⟩ := List.getElem?_eq_some_iff.mp (List.mk_mem_zipIdx_iff_getElem?.mp he)
    rw [List.length_map] at hi
    rw [List.getElem_map]
    exact h i hi

variable (sha256) in
/-- The browser accepts exactly the plain histories that are linked and ordered by code units. -/
theorem browser_accepts_iff {items : List Json} {anchors : List Anchor}
    (h : List.Forall₂ (fun j a => Wire.anchor.decode j = some a) items anchors) :
    Browser.verifyAnchorChain sha256 (Js.ofJson (.arr items)) = .ok () ↔
      PlainHistory items ∧ LinkedHistory sha256 anchors ∧ anchors.IsChain InUnitOrder := by
  have hlen := h.length_eq
  have hat : ∀ i (hi : i < items.length), Wire.anchor.decode items[i] = some anchors[i] := fun i hi => h.get hi _
  have hmap : ∀ i (hi : i < items.length), (items.map Js.ofJson)[i]? = some (Js.ofJson items[i]) :=
    fun i hi => by simp [hi]
  rw [verifyAnchorChain_eq_ok]
  constructor
  · intro hcheck
    have hobject := fun i hi => object_of_checkAnchor (hat i hi) (hcheck i hi)
    have hreads : ∀ i (hi : i < items.length), Reads (Js.ofJson items[i]) anchors[i] := fun i hi => by
      obtain ⟨entries, hentries⟩ := hobject i hi
      have hdecode := hat i hi
      rw [hentries] at hdecode ⊢
      exact (reads_of_decode hdecode).1
    have hstep : ∀ i (hi : i + 1 < items.length),
        anchors[i + 1].formatVersion = Anchoring.anchorFormatVersion ∧
          Links sha256 anchors[i] anchors[i + 1] ∧ InUnitOrder anchors[i] anchors[i + 1] := fun i hi =>
      (checkAnchor_succ (hreads (i + 1) hi) (hmap i (by omega)) (hreads i (by omega))
        (not_null_of_checkAnchor (hreads i (by omega)) (hcheck i (by omega)))).mp (hcheck (i + 1) hi)
    refine ⟨⟨?_, ?_⟩, ⟨?_, ?_, ?_⟩, ?_⟩
    · intro j hj
      obtain ⟨i, hi, rfl⟩ := List.getElem_of_mem hj
      exact hobject i hi
    · intro entries hhead hnull
      obtain ⟨hi, hzero⟩ := List.getElem?_eq_some_iff.mp (List.head?_eq_getElem?.symm.trans hhead)
      have hdecode := hat 0 hi
      have hundefined := ((checkAnchor_zero (hreads 0 hi)).mp (hcheck 0 hi)).2
      rw [hzero] at hdecode hundefined
      rw [((reads_of_decode hdecode).2).mpr hnull] at hundefined
      cases hundefined
    · intro a ha
      obtain ⟨i, hi, rfl⟩ := List.getElem_of_mem ha
      cases i with
      | zero => exact ((checkAnchor_zero (hreads 0 (by omega))).mp (hcheck 0 (by omega))).1
      | succ i => exact (hstep i (by omega)).1
    · intro a ha
      rw [List.head?_eq_getElem?, Option.mem_def] at ha
      obtain ⟨hi, rfl⟩ := List.getElem?_eq_some_iff.mp ha
      have hundefined := ((checkAnchor_zero (hreads 0 (by omega))).mp (hcheck 0 (by omega))).2
      obtain ⟨hnone, _⟩ | ⟨prev, _, hprev⟩ := (hreads 0 (by omega)).prevAnchor
      · exact hnone
      · cases hprev.symm.trans hundefined
    · exact List.isChain_iff_getElem.mpr fun i hi => (hstep i (by omega)).2.1
    · exact List.isChain_iff_getElem.mpr fun i hi => (hstep i (by omega)).2.2
  · rintro ⟨hplain, hlinked, horder⟩ i hi
    have hlinks := List.isChain_iff_getElem.mp hlinked.links
    have hreads : ∀ i (hi : i < items.length), Reads (Js.ofJson items[i]) anchors[i] ∧
        (Js.ofJson items[i]).prop "prev_anchor" ≠ .null := fun i hi => by
      obtain ⟨entries, hentries⟩ := hplain.objects items[i] (List.getElem_mem hi)
      have hdecode := hat i hi
      rw [hentries] at hdecode ⊢
      obtain ⟨hread, hnull⟩ := reads_of_decode hdecode
      refine ⟨hread, fun h => ?_⟩
      cases i with
      | zero => exact hplain.first entries (List.head?_eq_getElem?.trans (by simp [hi, hentries])) (hnull.mp h)
      | succ i =>
        -- a null is no name
        obtain ⟨hnone, _⟩ | ⟨prev, _, hprev⟩ := hread.prevAnchor
        · cases hnone.symm.trans (hlinks i (by omega)).link
        · cases hprev.symm.trans h
    have hversion := hlinked.versions anchors[i] (List.getElem_mem _)
    cases i with
    | zero =>
      refine (checkAnchor_zero (hreads 0 hi).1).mpr ⟨hversion, ?_⟩
      obtain ⟨_, hundefined | hnull⟩ | ⟨prev, hprev, _⟩ := (hreads 0 hi).1.prevAnchor
      · exact hundefined
      · exact absurd hnull (hreads 0 hi).2
      · cases hprev.symm.trans (hlinked.genesis anchors[0] (by simp [List.head?_eq_getElem?]))
    | succ i =>
      exact (checkAnchor_succ (hreads (i + 1) hi).1 (hmap i (by omega)) (hreads i (by omega)).1
        (hreads i (by omega)).2).mpr ⟨hversion, hlinks i (by omega),
          List.isChain_iff_getElem.mp horder i (by omega)⟩

variable (sha256) in
/-- The two walks agree on a history exactly when, if its versions, links and publishers are right,
    the order by code units on a plain history is the order by bytes. -/
theorem chains_agree_iff {j : Json} {anchors : List Anchor}
    (h : (Codec.list Wire.anchor).decode j = some anchors) :
    (Browser.verifyAnchorChain sha256 (Js.ofJson j) = .ok () ↔
      Anchoring.verifyChain sha256 anchors = .ok ()) ↔
    (LinkedHistory sha256 anchors →
      ((∀ items, j = .arr items → PlainHistory items) ∧ anchors.IsChain InUnitOrder ↔
        anchors.IsChain InByteOrder)) := by
  obtain ⟨items, rfl, hitems⟩ := list_decode.mp h
  rw [browser_accepts_iff sha256 hitems, verifyChain_eq_ok]
  simp only [Json.arr.injEq, forall_eq']
  tauto

open Anchoring (sampleAnchor firstDay secondDay)

theorem chains_agree_iff_two :
    (Browser.verifyAnchorChain Sha256.sha256
        (Js.ofJson ((Codec.list Wire.anchor).encode [firstDay, secondDay])) = .ok () ↔
      Anchoring.verifyChain Sha256.sha256 [firstDay, secondDay] = .ok ()) ↔
    (LinkedHistory Sha256.sha256 [firstDay, secondDay] →
      ((∀ items, (Codec.list Wire.anchor).encode [firstDay, secondDay] = .arr items → PlainHistory items) ∧
        [firstDay, secondDay].IsChain InUnitOrder ↔ [firstDay, secondDay].IsChain InByteOrder)) :=
  chains_agree_iff Sha256.sha256 ((Codec.list Wire.anchor).decode_encode [firstDay, secondDay])

/-! ## Two histories judged differently -/

/-- U+E000, whose one code unit stands above the surrogates. -/
def privateOffset : Anchor :=
  { sampleAnchor "2026-01-01T00:00:00Z" none with ledgerOffset := String.singleton (Char.ofNat 0xE000) }

/-- U+10000, whose bytes stand above those of U+E000. -/
def astralOffset : Anchor :=
  { sampleAnchor "2026-01-02T00:00:00Z" (some privateOffset) with
    ledgerOffset := String.singleton (Char.ofNat 0x10000) }

/-- A genesis that gives its predecessor as null. -/
def nullGenesis : Json :=
  match Wire.anchor.encode firstDay with
  | .obj entries => .obj (entries ++ [("prev_anchor", .null)])
  | j => j

theorem offsets_accepted : Anchoring.verifyChain Sha256.sha256 [privateOffset, astralOffset] = .ok () := by
  rw [Anchoring.verifyChain_eq_ok]
  refine ⟨?_, ?_, ?_⟩
  · intro a ha
    rcases List.mem_pair.mp ha with rfl | rfl <;> rfl
  · rintro a ⟨⟩
    rfl
  · refine List.isChain_pair.mpr ⟨rfl, rfl, ?_, ?_⟩
    · decide +kernel
    · decide +kernel

theorem offsets_out_of_unit_order : ¬ InUnitOrder privateOffset astralOffset := by
  rintro ⟨_, h⟩
  revert h
  decide +kernel

def offsetsDocument : Json := (Codec.list Wire.anchor).encode [privateOffset, astralOffset]

theorem chains_disagree :
    ((Codec.list Wire.anchor).decode offsetsDocument = some [privateOffset, astralOffset] ∧
      Anchoring.verifyChain Sha256.sha256 [privateOffset, astralOffset] = .ok () ∧
      Browser.verifyAnchorChain Sha256.sha256 (Js.ofJson offsetsDocument) ≠ .ok ()) ∧
    (Codec.list Wire.anchor).decode (.arr [nullGenesis]) = some [firstDay] ∧
      Anchoring.verifyChain Sha256.sha256 [firstDay] = .ok () ∧
      Browser.verifyAnchorChain Sha256.sha256 (Js.ofJson (.arr [nullGenesis])) ≠ .ok () := by
  refine ⟨⟨(Codec.list Wire.anchor).decode_encode _, offsets_accepted, ?_⟩, rfl, ?_, ?_⟩
  · intro h
    have hitems : List.Forall₂ (fun j a => Wire.anchor.decode j = some a)
        ([privateOffset, astralOffset].map Wire.anchor.encode) [privateOffset, astralOffset] :=
      .cons (Wire.anchor.decode_encode _) (.cons (Wire.anchor.decode_encode _) .nil)
    exact offsets_out_of_unit_order (List.isChain_pair.mp ((browser_accepts_iff _ hitems).mp h).2.2)
  · change Anchoring.verifyChain Sha256.sha256 (Anchoring.sampleHistory none ["2026-01-01T00:00:00Z"]) = _
    exact Anchoring.sampleHistory_accepted (List.isChain_singleton _)
  · intro h
    have hitems : List.Forall₂ (fun j a => Wire.anchor.decode j = some a) [nullGenesis] [firstDay] :=
      .cons rfl .nil
    exact ((browser_accepts_iff _ hitems).mp h).1.first _ rfl rfl

end AssuranceLayer.ChainAgreement
