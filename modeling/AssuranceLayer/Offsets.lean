import AssuranceLayer.Anchoring

set_option autoImplicit false

/-!
Offsets as numbers. A history compares them as strings, which agrees with the numbers they write
as soon as they are padded to one width.
-/
namespace AssuranceLayer.Offsets
open Anchoring Instant

def IsOffset (s : String) : Prop := s ≠ "" ∧ s.toList.all isAsciiDigit = true

instance (s : String) : Decidable (IsOffset s) := inferInstanceAs (Decidable (_ ∧ _))

def offsetValue (s : String) : ℕ := digitsValue s.toList

def padded (width : ℕ) (s : String) : List Char := s.toList.leftpad width '0'

def widest (anchors : List Anchor) : ℕ :=
  (anchors.map fun a => a.ledgerOffset.toList.length).foldr max 0

variable (sha256 : List UInt8 → Digest)

/-- Every rule of a history but the one about offsets. -/
structure OtherRules (anchors : List Anchor) : Prop where
  versions : ∀ a ∈ anchors, a.formatVersion = anchorFormatVersion
  genesis : ∀ a ∈ anchors.head?, a.prevAnchor = none
  steps : anchors.IsChain fun previous anchor =>
    anchor.prevAnchor = some (anchorDigestHex sha256 previous) ∧
      anchor.publisher = previous.publisher ∧ previous.snapshotTime < anchor.snapshotTime

def NeverDecrease (anchors : List Anchor) : Prop :=
  anchors.Pairwise fun a b => offsetValue a.ledgerOffset ≤ offsetValue b.ledgerOffset

instance (anchors : List Anchor) : Decidable (NeverDecrease anchors) :=
  inferInstanceAs (Decidable (List.Pairwise _ _))

/-- Accepted histories never rewind, and none is refused that only breaks no other rule. -/
structure OffsetLaw (anchors : List Anchor) : Prop where
  accepted : verifyChain sha256 anchors = .ok () → NeverDecrease anchors
  notRefused : OtherRules sha256 anchors → NeverDecrease anchors → verifyChain sha256 anchors = .ok ()

variable {sha256} {anchors : List Anchor}

theorem verifyChain_iff_offsets : verifyChain sha256 anchors = .ok () ↔
    OtherRules sha256 anchors ∧ anchors.IsChain fun a b => a.ledgerOffset ≤ b.ledgerOffset := by
  rw [verifyChain_eq_ok]
  constructor
  · rintro ⟨hversions, hgenesis, hsteps⟩
    exact ⟨⟨hversions, hgenesis, hsteps.imp fun _ _ h => ⟨h.link, h.publisher, h.time⟩⟩,
      hsteps.imp fun _ _ h => h.offset⟩
  · rintro ⟨⟨hversions, hgenesis, hsteps⟩, hoffsets⟩
    refine ⟨hversions, hgenesis, ?_⟩
    rw [List.isChain_iff_getElem] at hsteps hoffsets ⊢
    exact fun i hi => ⟨(hsteps i hi).1, (hsteps i hi).2.1, (hsteps i hi).2.2, hoffsets i hi⟩

/-! ## Padding -/

theorem padded_length {width : ℕ} {s : String} (h : s.toList.length ≤ width) :
    (padded width s).length = width := by
  rw [padded, List.length_leftpad]
  omega

theorem padded_all {s : String} (width : ℕ) (h : IsOffset s) :
    (padded width s).all isAsciiDigit = true := by
  rw [padded, List.leftpad, List.all_append, h.2, Bool.and_true, List.all_eq_true]
  intro c hc
  rw [List.eq_of_mem_replicate hc]
  decide

theorem padded_value (width : ℕ) (s : String) : digitsValue (padded width s) = offsetValue s := by
  rw [padded, List.leftpad, digitsValue, Nat.ofDigitChars_append, Nat.ofDigitChars_replicate_zero,
    Nat.mul_zero]
  rfl

theorem padded_le_iff {width : ℕ} {s t : String} (hs : IsOffset s) (ht : IsOffset t)
    (hsw : s.toList.length ≤ width) (htw : t.toList.length ≤ width) :
    padded width s ≤ padded width t ↔ offsetValue s ≤ offsetValue t := by
  have hlen : (padded width s).length = (padded width t).length := by
    rw [padded_length hsw, padded_length htw]
  rw [← padded_value width s, ← padded_value width t]
  constructor
  · intro h
    rcases h.eq_or_lt with heq | hlt
    · rw [heq]
    · exact (digitsValue_lt hlen (padded_all width hs) (padded_all width ht) hlt).le
  · intro h
    by_contra hgt
    have hlt := digitsValue_lt hlen.symm (padded_all width ht) (padded_all width hs) (not_le.mp hgt)
    omega

theorem length_le_widest {a : Anchor} (ha : a ∈ anchors) :
    a.ledgerOffset.toList.length ≤ widest anchors := by
  rw [widest]
  induction anchors with
  | nil => simp at ha
  | cons b anchors ih =>
    rw [List.map_cons, List.foldr_cons]
    rcases List.mem_cons.mp ha with rfl | ha
    · exact le_max_left _ _
    · exact (ih ha).trans (le_max_right _ _)

theorem neverDecrease_iff : NeverDecrease anchors ↔
    anchors.IsChain fun a b => offsetValue a.ledgerOffset ≤ offsetValue b.ledgerOffset := by
  let increases := fun a b : Anchor => offsetValue a.ledgerOffset ≤ offsetValue b.ledgerOffset
  have htrans : Trans increases increases increases := ⟨fun hab hbc => le_trans hab hbc⟩
  exact List.isChain_iff_pairwise.symm

theorem neverDecrease_iff_padded (h : ∀ a ∈ anchors, IsOffset a.ledgerOffset) :
    NeverDecrease anchors ↔ anchors.IsChain fun a b =>
      padded (widest anchors) a.ledgerOffset ≤ padded (widest anchors) b.ledgerOffset := by
  rw [neverDecrease_iff, List.isChain_iff_getElem, List.isChain_iff_getElem]
  exact forall_congr' fun i => forall_congr' fun hi =>
    (padded_le_iff (h _ (List.getElem_mem _)) (h _ (List.getElem_mem _))
      (length_le_widest (List.getElem_mem _)) (length_le_widest (List.getElem_mem _))).symm

/-- The law, in terms of the two orders. -/
theorem offset_law_iff_orders : OffsetLaw sha256 anchors ↔ (OtherRules sha256 anchors →
    ((anchors.IsChain fun a b => a.ledgerOffset ≤ b.ledgerOffset) ↔ NeverDecrease anchors)) := by
  constructor
  · rintro ⟨haccepted, hnot⟩ hrules
    exact ⟨fun hoffsets => haccepted (verifyChain_iff_offsets.mpr ⟨hrules, hoffsets⟩),
      fun hvalues => (verifyChain_iff_offsets.mp (hnot hrules hvalues)).2⟩
  · intro hiff
    refine ⟨fun hok => ?_, fun hrules hvalues => ?_⟩
    · obtain ⟨hrules, hoffsets⟩ := verifyChain_iff_offsets.mp hok
      exact (hiff hrules).mp hoffsets
    · exact verifyChain_iff_offsets.mpr ⟨hrules, (hiff hrules).mpr hvalues⟩

theorem padded_of_width {width : ℕ} {s : String} (h : s.toList.length = width) :
    padded width s = s.toList := by
  rw [padded, List.leftpad, h, Nat.sub_self, List.replicate_zero, List.nil_append]

/-- Offsets of one width are compared as they should be. -/
theorem offset_law_of_width {width : ℕ} (h : ∀ a ∈ anchors, IsOffset a.ledgerOffset)
    (hwidth : ∀ a ∈ anchors, a.ledgerOffset.toList.length = width) : OffsetLaw sha256 anchors := by
  refine offset_law_iff_orders.mpr fun _ => ?_
  rw [neverDecrease_iff, List.isChain_iff_getElem, List.isChain_iff_getElem]
  refine forall_congr' fun i => forall_congr' fun hi => ?_
  have hi' := hwidth _ (List.getElem_mem (Nat.lt_of_succ_lt hi))
  have hj := hwidth _ (List.getElem_mem hi)
  rw [← padded_le_iff (h _ (List.getElem_mem _)) (h _ (List.getElem_mem _)) hi'.le hj.le,
    padded_of_width hi', padded_of_width hj, String.le_iff_toList_le]

variable (sha256) in
/-- The law of offsets holds of a history of offsets exactly when another rule is broken or the
    offsets are in order as they stand just if they are in order padded to one width. Offsets that
    are of one width to begin with always are. -/
theorem offset_law_iff (h : ∀ a ∈ anchors, IsOffset a.ledgerOffset) :
    (OffsetLaw sha256 anchors ↔ (OtherRules sha256 anchors →
      ((anchors.IsChain fun a b => a.ledgerOffset ≤ b.ledgerOffset) ↔
        anchors.IsChain fun a b =>
          padded (widest anchors) a.ledgerOffset ≤ padded (widest anchors) b.ledgerOffset))) ∧
    ∀ width, (∀ a ∈ anchors, a.ledgerOffset.toList.length = width) → OffsetLaw sha256 anchors := by
  constructor
  · rw [← neverDecrease_iff_padded h]
    exact offset_law_iff_orders
  · exact fun _ hwidth => offset_law_of_width h hwidth

/-! ## Offsets that gain or lose a digit -/

def offsetHistory (previous : Option Anchor) : List (String × String) → List Anchor
  | [] => []
  | (time, offset) :: rest =>
    let anchor := { sampleAnchor time previous with ledgerOffset := offset }
    anchor :: offsetHistory (some anchor) rest

theorem offset_law_iff_two : OffsetLaw Sha256.sha256
    (offsetHistory none [("2026-01-01T00:00:00Z", "09"), ("2026-01-02T00:00:00Z", "10")]) :=
  (offset_law_iff Sha256.sha256 (by decide +kernel)).1.mpr fun _ =>
    iff_of_true (by decide +kernel) (by decide +kernel)

/-- From offset 10 back to 9 is accepted, and from 9 on to 10 is refused. -/
theorem offset_law_fails :
    (verifyChain Sha256.sha256
        (offsetHistory none [("2026-01-01T00:00:00Z", "10"), ("2026-01-02T00:00:00Z", "9")]) = .ok () ∧
      offsetValue "9" < offsetValue "10") ∧
    verifyChain Sha256.sha256
        (offsetHistory none [("2026-01-01T00:00:00Z", "9"), ("2026-01-02T00:00:00Z", "10")]) =
      .error (.wentBackwards 1 "ledger_offset") := by
  decide +kernel

end AssuranceLayer.Offsets
