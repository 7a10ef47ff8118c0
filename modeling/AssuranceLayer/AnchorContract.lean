import AssuranceLayer.Extension

set_option autoImplicit false

/-!
Anchors on the ledger: contracts that their publisher creates, discloses and archives, and what can be
shown of a history when some of it is missing.
-/
namespace AssuranceLayer.AnchorContract
open Fallible Chain Document Digest Sign Anchoring Conservation Extension Service

/-! ## The template -/

def hexDigits : List Char := "0123456789abcdef".toList

/-- Lowercase hex of an exact length. -/
def isHex (n : ℕ) (t : String) : Bool := t.toList.length = n ∧ t.toList.all fun c => c ∈ hexDigits

structure ReportAnchor where
  publisher : String
  observers : List String
  formatVersion : String
  reportDigest : String
  rootHash : String
  /-- Microseconds. -/
  snapshotTime : ℤ
  ledgerOffset : String
  publisherKey : String
  prevAnchor : Option String
  anchorDigest : String
deriving DecidableEq

def ReportAnchor.ensures (p : ReportAnchor) : Bool :=
  p.formatVersion = "canton-solvency-anchor-v1" ∧ isHex 64 p.reportDigest ∧ isHex 64 p.rootHash ∧
    isHex 64 p.anchorDigest ∧ isHex 64 p.publisherKey ∧ p.prevAnchor.all (isHex 64) ∧ p.ledgerOffset ≠ ""

/-- What is anchored, whoever may see it. -/
def ReportAnchor.fact (p : ReportAnchor) : ReportAnchor := { p with observers := [] }

def ReportAnchor.discloseTo (p : ReportAnchor) (newObservers : List String) : ReportAnchor :=
  { p with observers := (p.observers ++ newObservers).eraseDups }

/-! ## The ledger -/

/-- Contracts by their ids, with whether they are still active. -/
abbrev Ledger := List (ReportAnchor × Bool)

inductive Command where
  | create (payload : ReportAnchor)
  | disclose (contract : ℕ) (newObservers : List String)
  | archive (contract : ℕ)
deriving DecidableEq

structure Submission where
  actAs : List String
  command : Command

/-- A command succeeds when the publisher acts, on a contract that is active, with a payload that the
    template admits. -/
def submit (l : Ledger) (s : Submission) : Option Ledger :=
  match s.command with
  | .create p => if p.publisher ∈ s.actAs ∧ p.ensures then some (l ++ [(p, true)]) else none
  | .disclose i newObservers =>
    match l[i]? with
    | some (p, true) =>
      if p.publisher ∈ s.actAs ∧ (p.discloseTo newObservers).ensures then
        some (l ++ [(p.discloseTo newObservers, true)])
      else none
    | _ => none
  | .archive i =>
    match l[i]? with
    | some (p, true) => if p.publisher ∈ s.actAs then some (l.set i (p, false)) else none
    | _ => none

/-- A submission that fails leaves no trace. -/
def run (l : Ledger) (submissions : List Submission) : Ledger :=
  submissions.foldl (fun l s => (submit l s).getD l) l

theorem submit_cases {l l' : Ledger} {s : Submission} (h : submit l s = some l') :
    (∃ p : ReportAnchor, l' = l ++ [(p, true)] ∧ p.publisher ∈ s.actAs ∧ p.ensures = true ∧
      (s.command = .create p ∨ ∃ (i : ℕ) (q : ReportAnchor) (newObservers : List String),
        l[i]? = some (q, true) ∧ p = q.discloseTo newObservers)) ∨
    ∃ (i : ℕ) (p : ReportAnchor),
      l' = l.set i (p, false) ∧ l[i]? = some (p, true) ∧ p.publisher ∈ s.actAs := by
  unfold submit at h
  split at h
  · rename_i p hcommand
    split at h
    · exact .inl ⟨p, (Option.some.inj h).symm, And.left ‹_›, And.right ‹_›, .inl hcommand⟩
    · cases h
  · rename_i i newObservers hcommand
    split at h
    · rename_i p hp
      split at h
      · exact .inl ⟨_, (Option.some.inj h).symm, And.left ‹_›, And.right ‹_›,
          .inr ⟨i, p, newObservers, hp, rfl⟩⟩
      · cases h
    · cases h
  · rename_i i hcommand
    split at h
    · rename_i p hp
      split at h
      · exact .inr ⟨i, p, (Option.some.inj h).symm, hp, ‹_›⟩
      · cases h
    · cases h

/-- What a ledger still says of what it said before, and where the rest comes from. -/
structure Continues (l l' : Ledger) (submissions : List Submission) : Prop where
  /-- A contract stays as it is, and is not active again once it is archived. -/
  kept : ∀ (i : ℕ) (p : ReportAnchor) (active : Bool), l[i]? = some (p, active) →
    ∃ active', l'[i]? = some (p, active') ∧ (active' = true → active = true)
  /-- Only who acts for its publisher archives it. -/
  archived : ∀ (i : ℕ) (p : ReportAnchor), l[i]? = some (p, true) → l'[i]? = some (p, false) →
    ∃ s ∈ submissions, p.publisher ∈ s.actAs
  /-- What is new is well formed, says what its publisher anchored, and is seen by whoever saw that. -/
  added : ∀ (i : ℕ) (p : ReportAnchor) (active : Bool), l.length ≤ i → l'[i]? = some (p, active) →
    p.ensures = true ∧
    (∃ s ∈ submissions, p.publisher ∈ s.actAs) ∧
    ∃ q : ReportAnchor, q.fact = p.fact ∧ q.observers ⊆ p.observers ∧
      ((∃ s ∈ submissions, s.command = .create q ∧ q.publisher ∈ s.actAs) ∨
        ∃ (j : ℕ) (active : Bool), l[j]? = some (q, active))

variable {l l' : Ledger} {submissions : List Submission}

theorem Continues.refl (l : Ledger) : Continues l l [] where
  kept i p active h := ⟨active, h, fun h => h⟩
  archived i p h h' := by
    rw [h] at h'
    cases h'
  added i p active hi h := by
    rw [List.getElem?_eq_none hi] at h
    cases h

theorem Continues.length_le (h : Continues l l' submissions) : l.length ≤ l'.length := by
  by_contra! hlt
  obtain ⟨active, hget, _⟩ := h.kept _ _ _ (List.getElem?_eq_getElem hlt)
  rw [List.getElem?_eq_none le_rfl] at hget
  cases hget

theorem discloseTo_observers (p : ReportAnchor) (newObservers : List String) :
    p.observers ⊆ (p.discloseTo newObservers).observers := by
  intro o ho
  exact List.mem_eraseDups.mpr (List.mem_append_left _ ho)

theorem Continues.mono (h : Continues l l' submissions) (s : Submission) :
    Continues l l' (submissions ++ [s]) := by
  have hearlier : ∀ s' ∈ submissions, s' ∈ submissions ++ [s] := fun s' => List.mem_append_left _
  refine ⟨h.kept, fun i p hp hp' => ?_, fun i p active hi hp => ?_⟩
  · obtain ⟨s', hs', hacts⟩ := h.archived i p hp hp'
    exact ⟨s', hearlier s' hs', hacts⟩
  · obtain ⟨hensures, ⟨s', hs', hacts⟩, o, hfact, hobservers, horigin⟩ := h.added i p active hi hp
    refine ⟨hensures, ⟨s', hearlier s' hs', hacts⟩, o, hfact, hobservers, horigin.imp_left ?_⟩
    rintro ⟨s', hs', hcreated⟩
    exact ⟨s', hearlier s' hs', hcreated⟩

/-- Where the fact of a contract comes from, old or new. -/
theorem Continues.origin (h : Continues l l' submissions) {i : ℕ} {p : ReportAnchor} {active : Bool}
    (hp : l'[i]? = some (p, active)) : ∃ q : ReportAnchor, q.fact = p.fact ∧ q.observers ⊆ p.observers ∧
      ((∃ s ∈ submissions, s.command = .create q ∧ q.publisher ∈ s.actAs) ∨
        ∃ (j : ℕ) (active : Bool), l[j]? = some (q, active)) := by
  rcases lt_or_ge i l.length with hi | hi
  · obtain ⟨⟨q, b⟩, hq⟩ : ∃ e, l[i]? = some e := ⟨_, List.getElem?_eq_getElem hi⟩
    obtain ⟨b', hget, _⟩ := h.kept i q b hq
    cases hp.symm.trans hget
    exact ⟨p, rfl, fun _ hx => hx, .inr ⟨i, b, hq⟩⟩
  · exact (h.added i p active hi hp).2.2

theorem Continues.append (h : Continues l l' submissions) {s : Submission} {p : ReportAnchor}
    (hs : s ∈ submissions) (hacts : p.publisher ∈ s.actAs) (hensures : p.ensures = true)
    (horigin : s.command = .create p ∨ ∃ (i : ℕ) (q : ReportAnchor) (newObservers : List String),
      l'[i]? = some (q, true) ∧ p = q.discloseTo newObservers) :
    Continues l (l' ++ [(p, true)]) submissions := by
  have hsame : ∀ i < l'.length, (l' ++ [(p, true)])[i]? = l'[i]? := fun i hi => List.getElem?_append_left hi
  constructor
  · intro i q active hq
    obtain ⟨active', hget, hactive⟩ := h.kept i q active hq
    exact ⟨active', (hsame i (List.getElem?_eq_some_iff.mp hget).1).trans hget, hactive⟩
  · intro i q hq hq'
    have hi : i < l'.length := lt_of_lt_of_le (List.getElem?_eq_some_iff.mp hq).1 h.length_le
    rw [hsame i hi] at hq'
    exact h.archived i q hq hq'
  · intro i q active hi hq
    rcases lt_or_ge i l'.length with hlt | hge
    · rw [hsame i hlt] at hq
      exact h.added i q active hi hq
    · obtain ⟨rfl, rfl⟩ : q = p ∧ active = true := by
        rw [List.getElem?_append_right hge] at hq
        have hbound := (List.getElem?_eq_some_iff.mp hq).1
        rw [List.length_singleton] at hbound
        have hzero : i - l'.length = 0 := by omega
        rw [hzero] at hq
        cases hq
        exact ⟨rfl, rfl⟩
      refine ⟨hensures, ⟨s, hs, hacts⟩, ?_⟩
      rcases horigin with hcreate | ⟨j, r, newObservers, hr, rfl⟩
      · exact ⟨q, rfl, fun _ hx => hx, .inl ⟨s, hs, hcreate, hacts⟩⟩
      · obtain ⟨o, hfact, hobservers, horigin⟩ := h.origin hr
        exact ⟨o, hfact, fun x hx => discloseTo_observers r newObservers (hobservers hx), horigin⟩

theorem Continues.archive (h : Continues l l' submissions) {s : Submission} {i : ℕ} {p : ReportAnchor}
    (hs : s ∈ submissions) (hp : l'[i]? = some (p, true)) (hacts : p.publisher ∈ s.actAs) :
    Continues l (l'.set i (p, false)) submissions := by
  have hset : (l'.set i (p, false))[i]? = some (p, false) :=
    List.getElem?_set_self (List.getElem?_eq_some_iff.mp hp).1
  constructor
  · intro j q active hq
    obtain ⟨active', hget, hactive⟩ := h.kept j q active hq
    rcases eq_or_ne i j with rfl | hne
    · cases hp.symm.trans hget
      exact ⟨false, hset, fun hfalse => absurd hfalse (by simp)⟩
    · exact ⟨active', (List.getElem?_set_ne hne).trans hget, hactive⟩
  · intro j q hq hq'
    rcases eq_or_ne i j with rfl | hne
    · obtain ⟨_, hget, _⟩ := h.kept i q true hq
      cases hp.symm.trans hget
      exact ⟨s, hs, hacts⟩
    · rw [List.getElem?_set_ne hne] at hq'
      exact h.archived j q hq hq'
  · intro j q active hj hq
    rcases eq_or_ne i j with rfl | hne
    · cases hset.symm.trans hq
      exact h.added i p true hj hp
    · exact h.added j q active hj ((List.getElem?_set_ne hne).symm.trans hq)

/-- Whatever is submitted, by whomever: anchors stay as they are, only their publisher withdraws them,
    and disclosing one says nothing new and hides it from nobody. -/
theorem run_continues (l : Ledger) (submissions : List Submission) : Continues l (run l submissions) submissions := by
  induction submissions using List.reverseRecOn with
  | nil => exact .refl l
  | append_singleton submissions s ih =>
    rw [run, List.foldl_concat]
    change Continues l ((submit (run l submissions) s).getD (run l submissions)) _
    cases hsubmit : submit (run l submissions) s with
    | none => exact ih.mono s
    | some l' =>
      have hlast : s ∈ submissions ++ [s] := List.mem_append_right _ List.mem_cons_self
      rcases submit_cases hsubmit with ⟨p, rfl, hacts, hensures, horigin⟩ | ⟨i, p, rfl, hp, hacts⟩
      · exact (ih.mono s).append hlast hacts hensures horigin
      · exact (ih.mono s).archive hlast hp hacts

/-! ## Delivered anchors -/

/-- The contract for an anchor document. -/
def contractOf (sha256 : List UInt8 → Digest) (a : Anchor) (observers : List String) (snapshotTime : ℤ) :
    ReportAnchor where
  publisher := a.publisher
  observers := observers
  formatVersion := a.formatVersion
  reportDigest := a.reportDigest
  rootHash := a.rootHash
  snapshotTime := snapshotTime
  ledgerOffset := a.ledgerOffset
  publisherKey := a.publisherKey
  prevAnchor := a.prevAnchor
  anchorDigest := anchorDigestHex sha256 a

theorem isHex_hexEncode {n : ℕ} (bytes : Bytes n) : isHex (2 * n) (hexEncode bytes.toList) = true := by
  have hdigit : ∀ d < 16, d.digitChar ∈ hexDigits := by decide
  refine decide_eq_true ⟨?_, List.all_eq_true.mpr fun c hc => decide_eq_true ?_⟩
  · rw [hexEncode, String.toList_ofList, List.length_flatMap]
    simp [hexPair, Nat.mul_comm]
  · rw [hexEncode, String.toList_ofList, List.mem_flatMap] at hc
    obtain ⟨b, _, hb⟩ := hc
    have hhigh : b.toNat / 16 < 16 := by have := b.toNat_lt; omega
    rcases List.mem_pair.mp hb with rfl | rfl
    · exact hdigit _ hhigh
    · exact hdigit _ (Nat.mod_lt _ (by decide))

variable {sha256 : List UInt8 → Digest} {ed : Ed25519} {print : Json → String}

/-- What a delivery states that the template asks for. -/
theorem deliver_hex {req : PublishRequest} {masterSalt : Bytes 32} {signer : ReportSigner} {d : Delivery}
    {clamped : ℕ} (h : deliver sha256 ed print req masterSalt signer = .ok (d, clamped)) :
    d.anchor.formatVersion = "canton-solvency-anchor-v1" ∧ isHex 64 d.anchor.reportDigest = true ∧
      isHex 64 d.anchor.rootHash = true ∧ isHex 64 d.anchor.publisherKey = true ∧
      d.anchor.prevAnchor.all (isHex 64) = true ∧ d.anchor.ledgerOffset = req.ledgerOffset := by
  obtain ⟨pub, hpub, hsigned, _, hanchor, _⟩ := deliver_spec h
  obtain ⟨metadata, haccepted, hpublish⟩ := publication_spec hpub
  obtain ⟨nodes, tree, hpublished⟩ := Produce.publishWith_published hpublish
  rw [hanchor, hpublished.report]
  refine ⟨rfl, isHex_hexEncode (n := 32) _, isHex_hexEncode (n := 32) _, isHex_hexEncode (n := 32) _, ?_,
    haccepted.ledgerOffset⟩
  cases hprevious : req.previousAnchor with
  | none => rfl
  | some previous => exact isHex_hexEncode (n := 32) _

/-- The ledger takes the anchor of every delivery whose offset is not empty. -/
theorem delivered_admitted {req : PublishRequest} {masterSalt : Bytes 32} {signer : ReportSigner}
    {d : Delivery} {clamped : ℕ} (h : deliver sha256 ed print req masterSalt signer = .ok (d, clamped))
    (l : Ledger) (observers : List String) (snapshotTime : ℤ) :
    (submit l ⟨[d.anchor.publisher], .create (contractOf sha256 d.anchor observers snapshotTime)⟩).isSome ↔
      req.ledgerOffset ≠ "" := by
  obtain ⟨hversion, hreport, hroot, hkey, hprevious, hoffset⟩ := deliver_hex h
  have hdigest : isHex 64 (anchorDigestHex sha256 d.anchor) = true := isHex_hexEncode (n := 32) _
  have hensures : (contractOf sha256 d.anchor observers snapshotTime).ensures = true ↔ req.ledgerOffset ≠ "" := by
    rw [← hoffset, ReportAnchor.ensures, decide_eq_true_iff]
    exact ⟨fun h => h.2.2.2.2.2.2, fun h => ⟨hversion, hreport, hroot, hdigest, hkey, hprevious, h⟩⟩
  rw [← hensures, submit]
  simp [contractOf]

theorem delivered_admitted_golden : ∃ d : Delivery, ∀ (l : Ledger) (observers : List String) (snapshotTime : ℤ),
    (submit l ⟨[d.anchor.publisher],
      .create (contractOf Sha256.sha256 d.anchor observers snapshotTime)⟩).isSome := by
  obtain ⟨⟨d, clamped⟩, h⟩ : ∃ r, deliver Sha256.sha256 (goldenEd25519 []) Json.toStringPretty
      (nextRequest "2026-01-02T00:00:00Z") sampleSalt goldenSigner = .ok r := exists_of_isOk (by decide +kernel)
  exact ⟨d, fun l observers snapshotTime =>
    (delivered_admitted h l observers snapshotTime).mpr (by decide +kernel)⟩

/-! ## What is left of a history -/

theorem verifyChain_initial {A B : List Anchor} (hA : verifyChain sha256 A = .ok ()) (h : B <+: A) :
    verifyChain sha256 B = .ok () := by
  obtain ⟨rest, rfl⟩ := h
  obtain ⟨hversions, hgenesis, hchain⟩ := verifyChain_eq_ok.mp hA
  refine verifyChain_eq_ok.mpr ⟨fun a ha => hversions a (List.mem_append_left _ ha), fun a ha => ?_,
    (List.isChain_append.mp hchain).1⟩
  refine hgenesis a ?_
  rw [List.head?_append, Option.mem_def.mp ha]
  rfl

/-- Of an accepted history, however its anchors are picked, repeated and ordered, only what ends it
    early is accepted: an anchor that is withheld shows, unless all later ones are withheld too. -/
theorem accepted_iff_initial {A B : List Anchor} (hA : verifyChain sha256 A = .ok ()) (hsub : B ⊆ A)
    (hshort : ∀ a ∈ A, a.Short) (hcf : CollisionFreeOn sha256 (A.map anchorPreimage)) :
    verifyChain sha256 B = .ok () ↔ B <+: A := by
  refine ⟨fun hB => ?_, verifyChain_initial hA⟩
  rcases List.eq_nil_or_concat' B with rfl | ⟨first, b, rfl⟩
  · exact List.nil_prefix
  obtain ⟨before, after, hsplit⟩ := List.append_of_mem (hsub (List.mem_append_right first List.mem_cons_self))
  have hprefix : before ++ [b] <+: A := ⟨after, by rw [hsplit, List.append_assoc, List.singleton_append]⟩
  have hsame : first ++ [b] = before ++ [b] := by
    refine (verifyChain_linked hB).eq_of_last (verifyChain_linked (verifyChain_initial hA hprefix))
      (fun x hx y hy hxy => ?_) (by rw [List.getLast?_concat, List.getLast?_concat])
    have hx := hsub hx
    have hy := hprefix.subset hy
    exact anchorPreimage_inj (hshort x hx) (hshort y hy)
      (hcf _ (List.mem_map_of_mem hx) _ (List.mem_map_of_mem hy) (hexEncode_digest_inj hxy))
  rwa [hsame]

/-- Without the first day the second is not accepted. -/
theorem accepted_iff_initial_two : ¬ verifyChain Sha256.sha256 [secondDay] = .ok () := by
  rw [accepted_iff_initial twoDays_accepted (by simp) (by decide +kernel)
    (collisionFreeOn_of_nodup (by decide +kernel))]
  decide +kernel

end AssuranceLayer.AnchorContract
