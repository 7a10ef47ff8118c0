import AssuranceLayer.Command
import AssuranceLayer.Conservation

set_option autoImplicit false

/-!
Histories and the publications that continue them. A publisher links by digest and checks nothing
else of its predecessor, so a history stays accepted when the request itself moves forward.
-/
namespace AssuranceLayer.Extension
open Fallible Document Sign Produce Anchoring Command Conservation Service

/-- A request of this publisher, time and offset moves forward from an anchor. -/
structure MovesForward (last : Anchor) (publisher snapshotTime ledgerOffset : String) : Prop where
  publisher : publisher = last.publisher
  time : last.snapshotTime < snapshotTime
  offset : last.ledgerOffset ≤ ledgerOffset

instance (last : Anchor) (publisher snapshotTime ledgerOffset : String) :
    Decidable (MovesForward last publisher snapshotTime ledgerOffset) :=
  decidable_of_iff (publisher = last.publisher ∧ last.snapshotTime < snapshotTime ∧
      last.ledgerOffset ≤ ledgerOffset)
    ⟨fun h => ⟨h.1, h.2.1, h.2.2⟩, fun h => ⟨h.publisher, h.time, h.offset⟩⟩

variable {sha256 : List UInt8 → Digest} {ed : Ed25519}

theorem anchorReport_precedes {signed : SignedReport} {last : Anchor} :
    Precedes sha256 last (anchorReport sha256 signed (some last)) ↔
      MovesForward last signed.report.publisher signed.report.snapshotTime signed.report.ledgerOffset :=
  ⟨fun h => ⟨h.publisher, h.time, h.offset⟩, fun h => ⟨rfl, h.publisher, h.time, h.offset⟩⟩

theorem verifyChain_concat {history : List Anchor} {last anchor : Anchor}
    (h : verifyChain sha256 history = .ok ()) (hlast : history.getLast? = some last) :
    verifyChain sha256 (history ++ [anchor]) = .ok () ↔
      anchor.formatVersion = anchorFormatVersion ∧ Precedes sha256 last anchor := by
  obtain ⟨hversions, hgenesis, hsteps⟩ := verifyChain_eq_ok.mp h
  have hhead : (history ++ [anchor]).head? = history.head? := by
    cases history with
    | nil => simp at hlast
    | cons first rest => rfl
  rw [verifyChain_eq_ok, hhead, List.isChain_append, hlast]
  simp only [List.mem_append, List.mem_singleton, or_imp, forall_and, forall_eq, Option.mem_def,
    Option.some.injEq, List.head?_cons, List.isChain_singleton, hsteps, true_and, forall_eq']
  exact ⟨fun hall => ⟨hall.1.2, hall.2.2⟩, fun hnew => ⟨⟨hversions, hnew.1⟩, hgenesis, hnew.2⟩⟩

theorem extends_iff {history : List Anchor} {last : Anchor} {signed : SignedReport}
    (h : verifyChain sha256 history = .ok ()) (hlast : history.getLast? = some last) :
    verifyChain sha256 (history ++ [anchorReport sha256 signed (some last)]) = .ok () ↔
      MovesForward last signed.report.publisher signed.report.snapshotTime
        signed.report.ledgerOffset := by
  rw [verifyChain_concat h hlast, anchorReport_precedes]
  exact and_iff_right rfl

theorem publish_states {leaves : List LeafInput} {metadata : ReportMetadata} {signer : ReportSigner}
    {pub : Publication} (h : publish sha256 ed leaves metadata signer = .ok pub) :
    pub.signedReport.report.publisher = metadata.publisher ∧
      pub.signedReport.report.snapshotTime = metadata.snapshotTime ∧
      pub.signedReport.report.ledgerOffset = metadata.ledgerOffset := by
  obtain ⟨nodes, tree, hpublished⟩ := publishWith_published h
  rw [hpublished.report]
  exact ⟨rfl, rfl, rfl⟩

theorem deliver_states {print : Json → String} {req : PublishRequest} {masterSalt : Bytes 32}
    {signer : ReportSigner} {d : Delivery} {clamped : ℕ}
    (h : deliver sha256 ed print req masterSalt signer = .ok (d, clamped)) :
    d.anchor = anchorReport sha256 d.signed req.previousAnchor ∧
      d.signed.report.publisher = req.publisher ∧ d.signed.report.snapshotTime = req.snapshotTime ∧
      d.signed.report.ledgerOffset = req.ledgerOffset := by
  obtain ⟨pub, hpub, hsigned, _, hanchor, _⟩ := deliver_spec h
  obtain ⟨metadata, haccepted, hpublish⟩ := publication_spec hpub
  obtain ⟨hpublisher, htime, hoffset⟩ := publish_states hpublish
  rw [hanchor, hsigned]
  exact ⟨rfl, hpublisher.trans haccepted.publisher, htime.trans haccepted.snapshotTime,
    hoffset.trans haccepted.ledgerOffset⟩

variable (sha256 ed) in
/-- A publication continues an accepted history exactly when its request moves forward, on the
    publishing route and on the command line. -/
theorem extension_iff {history : List Anchor} {last : Anchor}
    (h : verifyChain sha256 history = .ok ()) (hlast : history.getLast? = some last) :
    (∀ (print : Json → String) (req : PublishRequest) (masterSalt : Bytes 32) (signer : ReportSigner)
        (resp : PublishResponse), req.previousAnchor = some last →
      doPublish sha256 ed print req masterSalt signer = .ok resp →
      ∃ d, deliver sha256 ed print req masterSalt signer = .ok (d, resp.clamped) ∧
        ⟨"anchor.json", pretty print (Wire.anchor.encode d.anchor)⟩ ∈ resp.files ∧
        (verifyChain sha256 (history ++ [d.anchor]) = .ok () ↔
          MovesForward last req.publisher req.snapshotTime req.ledgerOffset)) ∧
    ∀ (args : PublishArgs) (signer : ReportSigner) (pub : Publication) (anchor : Anchor),
      args.prevAnchor = some last → publishCommand sha256 ed args signer = .ok (pub, anchor) →
      (verifyChain sha256 (history ++ [anchor]) = .ok () ↔
        MovesForward last args.publisher args.snapshotTime args.ledgerOffset) := by
  constructor
  · intro print req masterSalt signer resp hprevious hresp
    obtain ⟨d, hdeliver, heq⟩ := doPublish_spec hresp
    obtain ⟨hanchor, hpublisher, htime, hoffset⟩ := deliver_states hdeliver
    refine ⟨d, hdeliver, ?_, ?_⟩
    · rw [heq]
      exact List.mem_append_left _ (List.mem_cons_of_mem _ List.mem_cons_self)
    · rw [hanchor, hprevious, extends_iff h hlast, hpublisher, htime, hoffset]
  · intro args signer pub anchor hprevious hpub
    simp only [publishCommand, bind_eq_ok, mapError_eq_ok, pure_eq_ok] at hpub
    obtain ⟨leaves, _, published, hpublish, heq⟩ := hpub
    obtain ⟨rfl, rfl⟩ := Prod.mk.inj heq
    obtain ⟨hpublisher, htime, hoffset⟩ := publish_states hpublish
    rw [hprevious, extends_iff h hlast, hpublisher, htime, hoffset]

/-! ## After the first day -/

def nextRequest (snapshotTime : String) : PublishRequest :=
  { sampleRequest sampleLeaves with snapshotTime := snapshotTime, previousAnchor := some firstDay }

def publishNext (snapshotTime : String) : Except PublishFailure PublishResponse :=
  doPublish Sha256.sha256 (goldenEd25519 []) Json.toStringPretty (nextRequest snapshotTime) sampleSalt
    goldenSigner

def deliverNext (snapshotTime : String) : Except PublishFailure (Delivery × ℕ) :=
  deliver Sha256.sha256 (goldenEd25519 []) Json.toStringPretty (nextRequest snapshotTime) sampleSalt
    goldenSigner

def nextArgs (snapshotTime : String) : PublishArgs where
  balances := "alice, USDA, 100.5\nbob, USDA, 7\n\nalice, CBTC, 0.25\n"
  publisher := "venue::one"
  snapshotTime := snapshotTime
  ledgerOffset := "000000000000003042"
  manifest := none
  prevAnchor := some firstDay

theorem firstDay_accepted : verifyChain Sha256.sha256 [firstDay] = .ok () := by decide +kernel

theorem firstDay_last : [firstDay].getLast? = some firstDay := rfl

theorem extension_iff_next :
    (∃ resp d, publishNext "2026-01-02T00:00:00Z" = .ok resp ∧
      deliverNext "2026-01-02T00:00:00Z" = .ok (d, resp.clamped) ∧
      verifyChain Sha256.sha256 ([firstDay] ++ [d.anchor]) = .ok ()) ∧
    ∃ pub anchor, publishCommand Sha256.sha256 (goldenEd25519 []) (nextArgs "2026-01-02T00:00:00Z")
        goldenSigner = .ok (pub, anchor) ∧
      verifyChain Sha256.sha256 ([firstDay] ++ [anchor]) = .ok () := by
  obtain ⟨hroute, hcommand⟩ :=
    extension_iff Sha256.sha256 (goldenEd25519 []) firstDay_accepted firstDay_last
  obtain ⟨resp, hresp⟩ : ∃ resp, publishNext "2026-01-02T00:00:00Z" = .ok resp :=
    exists_of_isOk (by decide +kernel)
  obtain ⟨⟨pub, anchor⟩, hpub⟩ : ∃ out, publishCommand Sha256.sha256 (goldenEd25519 [])
      (nextArgs "2026-01-02T00:00:00Z") goldenSigner = .ok out := exists_of_isOk (by decide +kernel)
  obtain ⟨d, hdeliver, _, hiff⟩ := hroute _ _ _ _ _ rfl hresp
  exact ⟨⟨resp, d, hresp, hdeliver, hiff.mpr (by decide)⟩, pub, anchor, hpub,
    (hcommand _ _ _ _ rfl hpub).mpr (by decide)⟩

/-- A request for the day before is published, and no history can hold its anchor. -/
theorem extension_fails : ∃ resp d, publishNext "2025-12-31T00:00:00Z" = .ok resp ∧
    deliverNext "2025-12-31T00:00:00Z" = .ok (d, resp.clamped) ∧
    verifyChain Sha256.sha256 [firstDay] = .ok () ∧
    verifyChain Sha256.sha256 ([firstDay] ++ [d.anchor]) ≠ .ok () := by
  obtain ⟨resp, hresp⟩ : ∃ resp, publishNext "2025-12-31T00:00:00Z" = .ok resp :=
    exists_of_isOk (by decide +kernel)
  obtain ⟨d, hdeliver, _⟩ := doPublish_spec hresp
  obtain ⟨hanchor, hpublisher, htime, hoffset⟩ := deliver_states hdeliver
  have hprevious : (nextRequest "2025-12-31T00:00:00Z").previousAnchor = some firstDay := rfl
  refine ⟨resp, d, hresp, hdeliver, firstDay_accepted, ?_⟩
  rw [hanchor, hprevious, Ne, extends_iff firstDay_accepted firstDay_last, hpublisher, htime, hoffset]
  decide

end AssuranceLayer.Extension
