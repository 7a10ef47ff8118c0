import AssuranceLayer.Document

set_option autoImplicit false

/-! The digest of a report: a domain string and every field behind its length. -/
namespace AssuranceLayer.Digest
open Framing Sums Document SortedMap

def reportDigestDomain : String := "rocky-solvency-report-v1"
def reportDigestDomainV2 : String := "rocky-solvency-report-v2"

def manifestSection (m : Manifest) : List UInt8 :=
  lp m.audience ++ (u64le m.fields.entries.length ++
    m.fields.entries.flatMap fun e => lp e.1 ++ lp e.2.asStr)

def reportFields (r : Report) : List UInt8 :=
  lp r.formatVersion ++ (lp r.profile ++ (lp r.publisher ++ (lp r.snapshotTime ++
    (lp r.ledgerOffset ++ (lp r.rootHash ++ (u64le r.leafCount.val ++ (lpmap r.rootSums ++
      (lpmap r.markPrices ++ (lpmap r.disclosures.badDebt ++
        (u64le r.disclosures.excludedHouseAccounts.val ++ lpmap r.disclosures.excludedHouseTotals))))))))))

def reportPreimage (r : Report) : List UInt8 :=
  let v2 := r.formatVersion = reportFormatVersionV2
  utf8 (if v2 then reportDigestDomainV2 else reportDigestDomain) ++ (reportFields r ++
    -- v1 stops here.
    if v2 then (r.manifest.map manifestSection).getD [] else [])

def ShortManifest (m : Manifest) : Prop :=
  Short m.audience ∧ m.fields.entries.length < 256 ^ 8 ∧ ∀ e ∈ m.fields.entries, Short e.1

structure ShortReport (r : Report) : Prop where
  formatVersion : Short r.formatVersion
  profile : Short r.profile
  publisher : Short r.publisher
  snapshotTime : Short r.snapshotTime
  ledgerOffset : Short r.ledgerOffset
  rootHash : Short r.rootHash
  rootSums : ShortMap r.rootSums
  markPrices : ShortMap r.markPrices
  badDebt : ShortMap r.disclosures.badDebt
  excludedHouseTotals : ShortMap r.disclosures.excludedHouseTotals
  manifest : ∀ m, r.manifest = some m → ShortManifest m

theorem framed_disclosure : Framed (fun _ : Disclosure => True) fun d => lp d.asStr :=
  framed_lp.comp _ Disclosure.asStr (fun d _ => by cases d <;> decide)
    fun _ _ _ _ => Disclosure.asStr_inj

theorem framed_manifestSection : Framed ShortManifest manifestSection := by
  have hfields := (framed_u64le.counted (framed_lp.pair framed_disclosure)).comp
    (fun f : SortedMap String Disclosure => f.entries.length < 256 ^ 8 ∧ ∀ e ∈ f.entries, Short e.1)
    SortedMap.entries (fun _ h => ⟨h.1, fun e he => ⟨h.2 e he, trivial⟩⟩)
    fun _ _ _ _ => ext_entries
  exact (framed_lp.pair hfields).comp ShortManifest (fun m => (m.audience, m.fields))
    (fun _ h => h) (by rintro ⟨⟩ ⟨⟩ _ _ ⟨⟩; rfl)

theorem framed_u64 : Framed (fun _ : U64 => True) fun n => u64le n.val :=
  framed_u64le.comp _ Fin.val (fun n _ => n.isLt) fun _ _ _ _ => Fin.ext

theorem framed_reportFields :
    Framed (fun r : Report => ShortReport r ∧ r.manifest = none) reportFields :=
  (framed_lp.pair (framed_lp.pair (framed_lp.pair (framed_lp.pair (framed_lp.pair (framed_lp.pair
    (framed_u64.pair (framed_lpmap.pair (framed_lpmap.pair (framed_lpmap.pair
      (framed_u64.pair framed_lpmap))))))))))).comp
    (fun r : Report => ShortReport r ∧ r.manifest = none)
    (fun r => (r.formatVersion, r.profile, r.publisher, r.snapshotTime, r.ledgerOffset, r.rootHash,
      r.leafCount, r.rootSums, r.markPrices, r.disclosures.badDebt,
      r.disclosures.excludedHouseAccounts, r.disclosures.excludedHouseTotals))
    (fun _ ⟨h, _⟩ => ⟨h.formatVersion, h.profile, h.publisher, h.snapshotTime, h.ledgerOffset,
      h.rootHash, trivial, h.rootSums, h.markPrices, h.badDebt, trivial, h.excludedHouseTotals⟩)
    (by
      rintro ⟨_, _, _, _, _, _, _, _, _, ⟨_, _, _⟩, _⟩ ⟨_, _, _, _, _, _, _, _, _, ⟨_, _, _⟩, _⟩
        ⟨_, rfl⟩ ⟨_, rfl⟩ ⟨⟩
      rfl)

/-- The manifest stands in a report exactly when its version covers one. -/
def ManifestByVersion (r : Report) : Prop :=
  r.manifest.isSome = true ↔ r.formatVersion = reportFormatVersionV2

def withoutManifest (r : Report) : Report := { r with manifest := none }

theorem eq_of_withoutManifest {r s : Report} (h : withoutManifest r = withoutManifest s)
    (hm : r.manifest = s.manifest) : r = s := by
  cases r
  cases s
  simp only [withoutManifest, Report.mk.injEq, and_true] at h hm ⊢
  tauto

theorem ShortReport.withoutManifest {r : Report} (h : ShortReport r) :
    ShortReport (withoutManifest r) :=
  ⟨h.formatVersion, h.profile, h.publisher, h.snapshotTime, h.ledgerOffset, h.rootHash, h.rootSums,
    h.markPrices, h.badDebt, h.excludedHouseTotals, fun _ hm => absurd hm (by simp [Digest.withoutManifest])⟩

def manifestTail (r : Report) : List UInt8 :=
  if r.formatVersion = reportFormatVersionV2 then (r.manifest.map manifestSection).getD [] else []

theorem reportPreimage_parts {r s : Report} (hr : ShortReport r) (hs : ShortReport s)
    (h : reportPreimage r = reportPreimage s) :
    withoutManifest r = withoutManifest s ∧ manifestTail r = manifestTail s := by
  have hlen : ∀ t : Report, (utf8 (if t.formatVersion = reportFormatVersionV2 then
      reportDigestDomainV2 else reportDigestDomain)).length = 24 := by
    intro t
    split_ifs <;> decide
  have hrest := (List.append_inj h ((hlen r).trans (hlen s).symm)).2
  exact framed_reportFields (withoutManifest r) (withoutManifest s)
    ⟨hr.withoutManifest, rfl⟩ ⟨hs.withoutManifest, rfl⟩ _ _ hrest

theorem manifestSection_ne_nil (m : Manifest) : manifestSection m ≠ [] := by
  intro h
  have haudience := (List.append_eq_nil_iff.mp h).1
  have hlen := congrArg List.length (List.append_eq_nil_iff.mp haudience).1
  rw [u64le, littleEndian_length] at hlen
  exact absurd hlen (by decide)

theorem manifest_of_tail {r s : Report} (hr : ShortReport r) (hs : ShortReport s)
    (hvr : r.formatVersion = reportFormatVersionV2) (hvs : s.formatVersion = reportFormatVersionV2)
    (h : manifestTail r = manifestTail s) : r.manifest = s.manifest := by
  rw [manifestTail, manifestTail, if_pos hvr, if_pos hvs] at h
  cases hm : r.manifest with
  | none =>
    cases hn : s.manifest with
    | none => rfl
    | some n =>
      rw [hm, hn] at h
      exact absurd h.symm (manifestSection_ne_nil n)
  | some m =>
    cases hn : s.manifest with
    | none =>
      rw [hm, hn] at h
      exact absurd h (manifestSection_ne_nil m)
    | some n =>
      rw [hm, hn] at h
      rw [framed_manifestSection.eq (hr.manifest m hm) (hs.manifest n hn) h]

/-- A preimage determines its report up to the manifest, and with it under the version that covers
    one. -/
theorem reportPreimage_body {r s : Report} (hr : ShortReport r) (hs : ShortReport s)
    (h : reportPreimage r = reportPreimage s) :
    withoutManifest r = withoutManifest s ∧ (r.formatVersion = reportFormatVersionV2 → r = s) := by
  obtain ⟨hbody, htail⟩ := reportPreimage_parts hr hs h
  have hversion : (withoutManifest r).formatVersion = (withoutManifest s).formatVersion :=
    congrArg Report.formatVersion hbody
  refine ⟨hbody, fun hv => eq_of_withoutManifest hbody ?_⟩
  exact manifest_of_tail hr hs hv (hversion.symm.trans hv) htail

theorem reportPreimage_inj {r s : Report} (hr : ShortReport r) (hs : ShortReport s)
    (hmr : ManifestByVersion r) (hms : ManifestByVersion s)
    (h : reportPreimage r = reportPreimage s) : r = s := by
  obtain ⟨hbody, hv2⟩ := reportPreimage_body hr hs h
  by_cases hv : r.formatVersion = reportFormatVersionV2
  · exact hv2 hv
  · have hversion : (withoutManifest r).formatVersion = (withoutManifest s).formatVersion :=
      congrArg Report.formatVersion hbody
    have hvs : s.formatVersion ≠ reportFormatVersionV2 := fun heq => hv (hversion.trans heq)
    refine eq_of_withoutManifest hbody ?_
    rw [Option.not_isSome_iff_eq_none.mp (mt hmr.mp hv), Option.not_isSome_iff_eq_none.mp (mt hms.mp hvs)]

variable (sha256 : List UInt8 → Digest)

def reportDigest (r : Report) : Digest := sha256 (reportPreimage r)

def reportDigestHex (r : Report) : String := hexEncode (reportDigest sha256 r).toList

end AssuranceLayer.Digest
