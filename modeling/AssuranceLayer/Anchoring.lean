import AssuranceLayer.Chain
import AssuranceLayer.Digest
import AssuranceLayer.Fallible
import AssuranceLayer.Instant
import AssuranceLayer.Sha256

set_option autoImplicit false

/-!
Anchors: each names the report it stands for and, by digest, the anchor before it. A history is
walked oldest first and must start at an anchor that names no predecessor.
-/
namespace AssuranceLayer.Anchoring
open Fallible Framing Chain Document Digest Instant

def anchorFormatVersion : String := "canton-solvency-anchor-v1"
def anchorDigestDomain : String := "rocky-solvency-anchor-v1"

structure Anchor where
  formatVersion : String
  reportDigest : String
  rootHash : String
  snapshotTime : String
  ledgerOffset : String
  publisher : String
  publisherKey : String
  prevAnchor : Option String
deriving DecidableEq

def anchorFields (a : Anchor) : List UInt8 :=
  lp a.formatVersion ++ (lp a.reportDigest ++ (lp a.rootHash ++ (lp a.snapshotTime ++
    (lp a.ledgerOffset ++ (lp a.publisher ++ (lp a.publisherKey ++
      optional 0 1 lp a.prevAnchor))))))

def anchorPreimage (a : Anchor) : List UInt8 := utf8 anchorDigestDomain ++ anchorFields a

def Anchor.Short (a : Anchor) : Prop :=
  AssuranceLayer.Short a.formatVersion ∧ AssuranceLayer.Short a.reportDigest ∧
    AssuranceLayer.Short a.rootHash ∧ AssuranceLayer.Short a.snapshotTime ∧
    AssuranceLayer.Short a.ledgerOffset ∧ AssuranceLayer.Short a.publisher ∧
    AssuranceLayer.Short a.publisherKey ∧ ∀ p, a.prevAnchor = some p → AssuranceLayer.Short p

instance (a : Anchor) : Decidable a.Short :=
  inferInstanceAs (Decidable (_ ∧ _))

theorem framed_anchorFields : Framed Anchor.Short anchorFields :=
  (framed_lp.pair (framed_lp.pair (framed_lp.pair (framed_lp.pair (framed_lp.pair
    (framed_lp.pair (framed_lp.pair (framed_lp.optional (by decide))))))))).comp Anchor.Short
    (fun a => (a.formatVersion, a.reportDigest, a.rootHash, a.snapshotTime, a.ledgerOffset,
      a.publisher, a.publisherKey, a.prevAnchor)) (fun _ h => h)
    (by rintro ⟨⟩ ⟨⟩ _ _ ⟨⟩; rfl)

theorem anchorPreimage_inj {a b : Anchor} (ha : a.Short) (hb : b.Short)
    (h : anchorPreimage a = anchorPreimage b) : a = b :=
  framed_anchorFields.eq ha hb (List.append_cancel_left h)

variable (sha256 : List UInt8 → Digest)

def anchorDigest (a : Anchor) : Digest := sha256 (anchorPreimage a)

def anchorDigestHex (a : Anchor) : String := hexEncode (anchorDigest sha256 a).toList

def anchorReport (signed : SignedReport) (previous : Option Anchor) : Anchor where
  formatVersion := anchorFormatVersion
  reportDigest := reportDigestHex sha256 signed.report
  rootHash := signed.report.rootHash
  snapshotTime := signed.report.snapshotTime
  ledgerOffset := signed.report.ledgerOffset
  publisher := signed.report.publisher
  publisherKey := signed.signature.publicKey
  prevAnchor := previous.map (anchorDigestHex sha256)

inductive ChainFailure where
  /-- "the first anchor names a predecessor, so this history is incomplete" -/
  | notGenesis
  /-- "anchor {index} does not name the one before it" -/
  | broken (index : ℕ)
  /-- "anchor {index} moves {field} backwards, which restates history" -/
  | wentBackwards (index : ℕ) (field : String)
  /-- "anchor {index} is from a different publisher" -/
  | publisherChanged (index : ℕ)
  /-- "anchor {index} uses unsupported version {found:?}" -/
  | unsupportedVersion (index : ℕ) (found : String)
  /-- "anchor {index} describes a different report than the one supplied" -/
  | reportMismatch (index : ℕ)
deriving DecidableEq

def checkAnchor (anchors : List Anchor) (anchor : Anchor) (index : ℕ) : Except ChainFailure Unit := do
  ensure (anchor.formatVersion = anchorFormatVersion)
    (.unsupportedVersion index anchor.formatVersion)
  match index, anchor.prevAnchor with
  | 0, some _ => .error .notGenesis
  | 0, none => .ok ()
  | _ + 1, none => .error (.broken index)
  | i + 1, some prev =>
    let previous := anchors.getD i anchor
    ensure (prev = anchorDigestHex sha256 previous) (.broken index)
    ensure (anchor.publisher = previous.publisher) (.publisherChanged index)
    ensure (previous.snapshotTime < anchor.snapshotTime) (.wentBackwards index "snapshot_time")
    ensure (previous.ledgerOffset ≤ anchor.ledgerOffset) (.wentBackwards index "ledger_offset")

/-- Walks a publisher's anchors oldest first. -/
def verifyChain (anchors : List Anchor) : Except ChainFailure Unit :=
  forM anchors.zipIdx fun e => checkAnchor sha256 anchors e.1 e.2

/-- One anchor may stand right before the other. -/
structure Precedes (previous anchor : Anchor) : Prop where
  link : anchor.prevAnchor = some (anchorDigestHex sha256 previous)
  publisher : anchor.publisher = previous.publisher
  time : previous.snapshotTime < anchor.snapshotTime
  offset : previous.ledgerOffset ≤ anchor.ledgerOffset

variable {sha256}

theorem checkAnchor_zero {anchors : List Anchor} {anchor : Anchor} :
    checkAnchor sha256 anchors anchor 0 = .ok () ↔
      anchor.formatVersion = anchorFormatVersion ∧ anchor.prevAnchor = none := by
  unfold checkAnchor
  rw [bind_eq_ok]
  cases anchor.prevAnchor <;> simp [Unique.exists_iff]

theorem checkAnchor_succ {anchors : List Anchor} {previous anchor : Anchor} {i : ℕ}
    (hi : anchors[i]? = some previous) : checkAnchor sha256 anchors anchor (i + 1) = .ok () ↔
      anchor.formatVersion = anchorFormatVersion ∧ Precedes sha256 previous anchor := by
  have hget : anchors.getD i anchor = previous := by rw [List.getD_eq_getElem?_getD, hi]; rfl
  unfold checkAnchor
  rw [bind_eq_ok]
  cases hprev : anchor.prevAnchor with
  | none =>
    simp only [reduceCtorEq, and_false, exists_false, false_iff, not_and]
    exact fun _ h => absurd (hprev.symm.trans h.link) (by simp)
  | some prev =>
    simp only [hget, bind_eq_ok, ensure_eq_ok, Unique.exists_iff]
    constructor
    · rintro ⟨hversion, rfl, hpublisher, htime, hoffset⟩
      exact ⟨hversion, hprev, hpublisher, htime, hoffset⟩
    · rintro ⟨hversion, h⟩
      exact ⟨hversion, Option.some.inj (hprev.symm.trans h.link), h.publisher, h.time, h.offset⟩

/-- The walk accepts exactly the histories that start at a genesis and whose every anchor may
    stand after the one before it. -/
theorem verifyChain_eq_ok {anchors : List Anchor} : verifyChain sha256 anchors = .ok () ↔
    (∀ a ∈ anchors, a.formatVersion = anchorFormatVersion) ∧
      (∀ a ∈ anchors.head?, a.prevAnchor = none) ∧ anchors.IsChain (Precedes sha256) := by
  rw [verifyChain, forM_eq_ok, List.isChain_iff_getElem]
  constructor
  · intro h
    have hat : ∀ (i : ℕ) (hi : i < anchors.length), checkAnchor sha256 anchors anchors[i] i = .ok () :=
      fun i hi => h (anchors[i], i) (List.mk_mem_zipIdx_iff_getElem?.mpr (List.getElem?_eq_getElem hi))
    have hsucc : ∀ (i : ℕ) (hi : i + 1 < anchors.length),
        anchors[i + 1].formatVersion = anchorFormatVersion ∧
          Precedes sha256 anchors[i] anchors[i + 1] := fun i hi =>
      (checkAnchor_succ (List.getElem?_eq_getElem (Nat.lt_of_succ_lt hi))).mp (hat (i + 1) hi)
    refine ⟨fun a ha => ?_, fun a ha => ?_, fun i hi => (hsucc i hi).2⟩
    · obtain ⟨i, hi, rfl⟩ := List.getElem_of_mem ha
      cases i with
      | zero => exact (checkAnchor_zero.mp (hat 0 hi)).1
      | succ i => exact (hsucc i hi).1
    · rw [List.head?_eq_getElem?, Option.mem_def] at ha
      obtain ⟨hi, rfl⟩ := List.getElem?_eq_some_iff.mp ha
      exact (checkAnchor_zero.mp (hat 0 hi)).2
  · rintro ⟨hversions, hgenesis, hsteps⟩ ⟨a, index⟩ he
    have ha := List.mk_mem_zipIdx_iff_getElem?.mp he
    have hversion := hversions a (List.mem_of_getElem? ha)
    cases index with
    | zero => exact checkAnchor_zero.mpr ⟨hversion, hgenesis a (by rw [List.head?_eq_getElem?, ha]; rfl)⟩
    | succ i =>
      obtain ⟨hi, rfl⟩ := List.getElem?_eq_some_iff.mp ha
      exact (checkAnchor_succ (List.getElem?_eq_getElem (Nat.lt_of_succ_lt hi))).mpr
        ⟨hversion, hsteps i hi⟩

theorem verifyChain_linked {anchors : List Anchor} (h : verifyChain sha256 anchors = .ok ()) :
    Linked Anchor.prevAnchor (anchorDigestHex sha256) anchors := by
  obtain ⟨_, hgenesis, hsteps⟩ := verifyChain_eq_ok.mp h
  exact ⟨hgenesis, hsteps.imp fun _ _ h => h.link⟩

variable (sha256) in
/-- Tamper evidence: two accepted histories that end at one anchor digest are one history. -/
theorem history_of_head {A B : List Anchor} (hA : A ≠ []) (hB : B ≠ [])
    (hvA : verifyChain sha256 A = .ok ()) (hvB : verifyChain sha256 B = .ok ())
    (hshort : ∀ a ∈ A ++ B, a.Short) (hcf : CollisionFreeOn sha256 ((A ++ B).map anchorPreimage))
    (h : anchorDigest sha256 (A.getLast hA) = anchorDigest sha256 (B.getLast hB)) : A = B := by
  refine (verifyChain_linked hvA).eq_of_last (verifyChain_linked hvB) ?_ ?_
  · intro a ha b hb hab
    have ha := List.mem_append_left B ha
    have hb := List.mem_append_right A hb
    exact anchorPreimage_inj (hshort a ha) (hshort b hb)
      (hcf _ (List.mem_map_of_mem ha) _ (List.mem_map_of_mem hb) (hexEncode_digest_inj hab))
  · rw [List.getLast?_eq_some_getLast hA, List.getLast?_eq_some_getLast hB, Option.map_some,
      Option.map_some, anchorDigestHex, anchorDigestHex, h]

variable (sha256) in
/-- The times of an accepted history are of the profile and strictly increase as instants exactly
    when all of them are of the profile and no two neighbours fall in the same second. -/
theorem time_law_iff {anchors : List Anchor} (h : verifyChain sha256 anchors = .ok ()) :
    ((∀ a ∈ anchors, (parse a.snapshotTime).isSome) ∧
      anchors.Pairwise fun a b => Before a.snapshotTime b.snapshotTime) ↔
    (∀ a ∈ anchors, (parse a.snapshotTime).isSome) ∧
      anchors.IsChain fun a b => secondOf a.snapshotTime ≠ secondOf b.snapshotTime := by
  obtain ⟨_, _, hsteps⟩ := verifyChain_eq_ok.mp h
  refine and_congr_right fun hparse => ?_
  let before := fun a b : Anchor => Before a.snapshotTime b.snapshotTime
  have htrans : Trans before before before := ⟨Before.trans⟩
  rw [← List.isChain_iff_pairwise, List.isChain_iff_getElem, List.isChain_iff_getElem]
  rw [List.isChain_iff_getElem] at hsteps
  exact forall_congr' fun i => forall_congr' fun hi => before_iff (hparse _ (List.getElem_mem _))
    (hparse _ (List.getElem_mem _)) (hsteps i hi).time

/-! ## A history of two days -/

def sampleAnchor (snapshotTime : String) (previous : Option Anchor) : Anchor where
  formatVersion := anchorFormatVersion
  reportDigest := hexEncode (List.replicate 32 0xaa)
  rootHash := hexEncode (List.replicate 32 0xbb)
  snapshotTime
  ledgerOffset := "000000000000000042"
  publisher := "venue::one"
  publisherKey := hexEncode (List.replicate 32 0xcc)
  prevAnchor := previous.map (anchorDigestHex Sha256.sha256)

def sampleHistory (previous : Option Anchor) : List String → List Anchor
  | [] => []
  | time :: times =>
    let anchor := sampleAnchor time previous
    anchor :: sampleHistory (some anchor) times

def firstDay : Anchor := sampleAnchor "2026-01-01T00:00:00Z" none
def secondDay : Anchor := sampleAnchor "2026-01-02T00:00:00Z" (some firstDay)

theorem sampleHistory_versions {previous : Option Anchor} {times : List String} :
    ∀ a ∈ sampleHistory previous times, a.formatVersion = anchorFormatVersion := by
  induction times generalizing previous with
  | nil => simp [sampleHistory]
  | cons time times ih => exact List.forall_mem_cons.mpr ⟨rfl, ih⟩

theorem sampleHistory_chain {previous : Option Anchor} {time : String} {times : List String}
    (h : (time :: times).IsChain (· < ·)) :
    (sampleHistory previous (time :: times)).IsChain (Precedes Sha256.sha256) := by
  induction times generalizing previous time with
  | nil => exact List.isChain_singleton _
  | cons next times ih =>
    obtain ⟨hlt, hrest⟩ := List.isChain_cons_cons.mp h
    exact List.isChain_cons_cons.mpr ⟨⟨rfl, rfl, hlt, le_rfl⟩, ih hrest⟩

theorem sampleHistory_accepted {time : String} {times : List String}
    (h : (time :: times).IsChain (· < ·)) :
    verifyChain Sha256.sha256 (sampleHistory none (time :: times)) = .ok () :=
  verifyChain_eq_ok.mpr ⟨sampleHistory_versions, fun _ ha => Option.some.inj ha ▸ rfl,
    sampleHistory_chain h⟩

theorem twoDays_accepted : verifyChain Sha256.sha256 [firstDay, secondDay] = .ok () := by
  have htimes : ["2026-01-01T00:00:00Z", "2026-01-02T00:00:00Z"].IsChain (· < ·) := by decide +kernel
  simpa only [sampleHistory, firstDay, secondDay] using sampleHistory_accepted htimes

theorem history_of_head_two :
    verifyChain Sha256.sha256 [firstDay, secondDay] = .ok () ∧
      sampleHistory none ["2026-01-01T00:00:00Z", "2026-01-02T00:00:00Z"] = [firstDay, secondDay] := by
  have hv := twoDays_accepted
  refine ⟨hv, history_of_head Sha256.sha256 (by simp [sampleHistory]) (by simp) (by decide +kernel) hv
    ?_ (collisionFreeOn_of_nodup (by decide +kernel)) rfl⟩
  decide +kernel

/-- A time with a fraction and the same second without one are accepted as two days, and so are
    texts that are no times. -/
theorem time_law_fails :
    (verifyChain Sha256.sha256 (sampleHistory none ["2026-01-01T00:00:00.5Z", "2026-01-01T00:00:00Z"])
        = .ok () ∧
      parse "2026-01-01T00:00:00.5Z" = parse "2026-01-01T00:00:00Z") ∧
    verifyChain Sha256.sha256 (sampleHistory none ["today", "tomorrow"]) = .ok () ∧
      parse "today" = none := by
  have hseconds : ["2026-01-01T00:00:00.5Z", "2026-01-01T00:00:00Z"].IsChain (· < ·) := by decide +kernel
  have hdays : ["today", "tomorrow"].IsChain (· < ·) := by decide +kernel
  exact ⟨⟨sampleHistory_accepted hseconds, by decide +kernel⟩, sampleHistory_accepted hdays,
    by decide +kernel⟩

theorem time_law_iff_two :
    [firstDay, secondDay].Pairwise fun a b => Before a.snapshotTime b.snapshotTime :=
  ((time_law_iff Sha256.sha256 twoDays_accepted).mpr (by decide +kernel)).2

end AssuranceLayer.Anchoring
