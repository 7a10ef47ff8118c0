import AssuranceLayer.NodeBinding
import AssuranceLayer.SumAgreement
import AssuranceLayer.Verify

set_option autoImplicit false

/-!
The fold of an inclusion proof in the two verifiers. The nodes on the way agree where inherited names
stand on the left; where two folds end in one hash, they must have.
-/
namespace AssuranceLayer.FoldAgreement
open Fallible Utf16 JavaScript Reading SumAgreement SortedMap
open Document LevelTree Verify
open Merkle (Node)
open NodeBinding (comboPreimage)

structure ReadsStep (v : Js) (step : ProofStepDocument) : Prop where
  object : IsObject v
  siblingHash : v.prop "sibling_hash" = Js.string step.siblingHash
  siblingSums : ReadsAmounts (v.prop "sibling_sums") step.siblingSums
  siblingOnLeft : v.prop "sibling_on_left" = .bool step.siblingOnLeft

def names (sums : Sums.AmountMap) : Set String := {k | k ∈ sums.keys}

/-- What a step adds on the right, the left owns if it is inherited. -/
def StepOwns (owned : Set String) (step : ProofStepDocument) : Prop :=
  if step.siblingOnLeft then LeftOwns (names step.siblingSums) owned
  else LeftOwns owned (names step.siblingSums)

def PathOwns (owned : Set String) : List ProofStepDocument → Prop
  | [] => True
  | step :: steps => StepOwns owned step ∧ PathOwns (owned ∪ names step.siblingSums) steps

/-- What is hashed when two nodes are combined. -/
def combinePreimage (left right : Browser.SolvencyNode) : Browser.Throws (List UInt8) := do
  let l ← Browser.hexToBytes (.str left.hashHex)
  let r ← Browser.hexToBytes (.str right.hashHex)
  let canonical ← Browser.canonicalSums (Browser.addSums left.sums right.sums)
  return utf8 "rocky-solvency-node-v1" ++ (l ++ (r ++ encode canonical))

def stepPreimage (current : Browser.SolvencyNode) (step : Js) : Browser.Throws (List UInt8) := do
  let hash ← Browser.hexToBytes (← step.get "sibling_hash")
  let sums ← Browser.parseSums (← step.get "sibling_sums")
  let sibling : Browser.SolvencyNode := ⟨Browser.bytesToHex hash, sums⟩
  if (← step.get "sibling_on_left").truthy then combinePreimage sibling current
  else combinePreimage current sibling

variable {sha256 : List UInt8 → Digest}

/-- A step whose sibling hash has its length is a combination with a sibling. -/
theorem foldStep_reads {v : Js} {step : ProofStepDocument} {s : Step Node} (h : ReadsStep v step)
    (hs : readStep step = .ok s) : ∃ sibling, ReadsNode sibling s.sibling ∧ ∀ current,
      Browser.foldStep sha256 Browser.parseSums current v =
        (if s.siblingOnLeft then Browser.combineNodes sha256 sibling current
          else Browser.combineNodes sha256 current sibling) ∧
      stepPreimage current v =
        if s.siblingOnLeft then combinePreimage sibling current else combinePreimage current sibling := by
  obtain ⟨hhash, hsums, hside⟩ := readStep_eq_ok.mp hs
  obtain ⟨sums, hparse, hholds⟩ := parseSums_reads h.siblingSums
  refine ⟨⟨Browser.bytesToHex s.sibling.hash.toList, sums⟩, ⟨rfl, hsums ▸ hholds⟩, fun current => ?_⟩
  simp only [Browser.foldStep, stepPreimage, h.object.get, ok_bind, h.siblingHash, hexToBytes_of_decode hhash,
    hparse, h.siblingOnLeft, Js.truthy, hside]
  cases step.siblingOnLeft <;> exact ⟨rfl, rfl⟩

theorem combine_names {l r n : Node} (h : Merkle.combine sha256 l r = .ok n) :
    names n.sums = names l.sums ∪ names r.sums := Set.ext fun k => Merkle.combine_keys h k

theorem step_agrees {v : Js} {step : ProofStepDocument} {s : Step Node} (h : ReadsStep v step)
    (hs : readStep step = .ok s) {node : Browser.SolvencyNode} {n : Node} (hnode : ReadsNode node n)
    (hown : StepOwns (names n.sums) step) :
    Agrees (fun a b => ReadsNode a b ∧ names b.sums = names n.sums ∪ names step.siblingSums)
      (Browser.foldStep sha256 Browser.parseSums node v) (climb (Merkle.combine sha256) n s) := by
  obtain ⟨-, hsums, hside⟩ := readStep_eq_ok.mp hs
  obtain ⟨sibling, hsibling, hfold⟩ := @foldStep_reads sha256 _ _ _ h hs
  rw [(hfold node).1, climb]
  rw [StepOwns, ← hsums, ← hside] at hown
  rw [← hsums]
  split_ifs at hown ⊢
  · exact (combineNodes_agrees hsibling hnode hown).with fun b hb => by
      rw [combine_names hb, Set.union_comm]
  · exact (combineNodes_agrees hnode hsibling hown).with fun b hb => combine_names hb

theorem fold_agrees {items : List Js} {steps : List ProofStepDocument} {read : List (Step Node)}
    (hitems : List.Forall₂ ReadsStep items steps)
    (hread : List.Forall₂ (fun d s => readStep d = .ok s) steps read) {node : Browser.SolvencyNode} {n : Node}
    (hnode : ReadsNode node n) (hown : PathOwns (names n.sums) steps) :
    Agrees (fun a b => ReadsNode a b ∧ names b.sums = steps.foldl (fun o s => o ∪ names s.siblingSums) (names n.sums))
      (items.foldlM (Browser.foldStep sha256 Browser.parseSums) node)
      (refold (Merkle.combine sha256) n read) := by
  induction hitems generalizing read node n with
  | nil =>
    cases hread
    exact Agrees.ok ⟨hnode, rfl⟩
  | cons hstep _ ih =>
    cases hread with
    | cons hs hrest =>
      rw [List.foldlM_cons, refold, List.foldlM_cons]
      refine (step_agrees hstep hs hnode hown.1).bind fun a b hab => ?_
      have hrest := ih hrest hab.1 (hab.2 ▸ hown.2)
      rw [hab.2] at hrest
      exact hrest

/-! ## Folds that end in one hash -/

variable (sha256) in
/-- What is hashed on the way up, in the browser. -/
def foldPreimages (current : Browser.SolvencyNode) : List Js → List (List UInt8)
  | [] => []
  | step :: steps =>
    match stepPreimage current step, Browser.foldStep sha256 Browser.parseSums current step with
    | .ok preimage, .ok next => preimage :: foldPreimages next steps
    | _, _ => []

theorem combineNodes_eq_ok {left right node : Browser.SolvencyNode} :
    Browser.combineNodes sha256 left right = .ok node ↔ ∃ preimage, combinePreimage left right = .ok preimage ∧
      node = ⟨Browser.hashHex sha256 preimage, Browser.addSums left.sums right.sums⟩ := by
  simp only [Browser.combineNodes, combinePreimage, bind_eq_ok, pure_eq_ok]
  constructor
  · rintro ⟨l, hl, r, hr, text, htext, rfl⟩
    exact ⟨_, ⟨l, hl, r, hr, text, htext, rfl⟩, rfl⟩
  · rintro ⟨_, ⟨l, hl, r, hr, text, htext, rfl⟩, rfl⟩
    exact ⟨l, hl, r, hr, text, htext, rfl⟩

/-- Two combinations hashed to one digest combine the same hashes, and lose no name where their parts
    agree. -/
theorem combination_owns {hashed : List (List UInt8)} (hcf : CollisionFreeOn sha256 hashed)
    {left right node : Browser.SolvencyNode} {l r n : Node} {lh rh : Digest}
    (hleft : left.hashHex = ofString (hexEncode lh.toList)) (hright : right.hashHex = ofString (hexEncode rh.toList))
    (hnode : Browser.combineNodes sha256 left right = .ok node) (hn : Merkle.combine sha256 l r = .ok n)
    (hpre : ∀ p, combinePreimage left right = .ok p → p ∈ hashed)
    (hpre' : Merkle.nodePreimage l.hash r.hash n.sums ∈ hashed)
    (heq : node.hashHex = ofString (hexEncode n.hash.toList)) :
    lh = l.hash ∧ rh = r.hash ∧
      (Holds left.sums l.sums → Holds right.sums r.sums → LeftOwns (names l.sums) (names r.sums)) := by
  obtain ⟨preimage, hpreimage, rfl⟩ := combineNodes_eq_ok.mp hnode
  have hmem := hpre preimage hpreimage
  simp only [combinePreimage, hleft, hright, hexToBytes_hex, ok_bind, bind_eq_ok, pure_eq_ok] at hpreimage
  obtain ⟨text, htext, rfl⟩ := hpreimage
  obtain ⟨hs, hhash⟩ := Merkle.combine_eq_ok.mp hn
  have hdigest := hexEncode_digest_inj (ofString_inj.mp heq)
  rw [hhash] at hdigest
  have hsame : preimage Merkle.nodeDomain lh rh (encode text) = Merkle.nodePreimage l.hash r.hash n.sums :=
    hcf _ hmem _ hpre' hdigest
  obtain ⟨-, hl, hr, htail⟩ := preimage_inj rfl hsame
  exact ⟨hl, hr, fun hhl hhr => leftOwns_of_text hhl hhr hs htext htail⟩

theorem foldStep_preimage {v : Js} {step : ProofStepDocument} {s : Step Node} (h : ReadsStep v step)
    (hs : readStep step = .ok s) {node next : Browser.SolvencyNode}
    (hnext : Browser.foldStep sha256 Browser.parseSums node v = .ok next) :
    ∃ p, stepPreimage node v = .ok p ∧ next.hashHex = ofString (hexEncode (sha256 p).toList) := by
  obtain ⟨sibling, -, hreads⟩ := @foldStep_reads sha256 _ _ _ h hs
  rw [(hreads node).1] at hnext
  rw [(hreads node).2]
  split_ifs at hnext ⊢ <;> obtain ⟨p, hp, rfl⟩ := combineNodes_eq_ok.mp hnext <;> exact ⟨p, hp, rfl⟩

theorem step_owns {hashed : List (List UInt8)} (hcf : CollisionFreeOn sha256 hashed) {v : Js}
    {step : ProofStepDocument} {s : Step Node} (h : ReadsStep v step) (hs : readStep step = .ok s)
    {node next : Browser.SolvencyNode} {n up : Node} {d : Digest}
    (hhash : node.hashHex = ofString (hexEncode d.toList))
    (hnext : Browser.foldStep sha256 Browser.parseSums node v = .ok next)
    (hup : climb (Merkle.combine sha256) n s = .ok up) (hpre : ∀ p, stepPreimage node v = .ok p → p ∈ hashed)
    (hcombo : comboPreimage (comboOf n s up) ∈ hashed)
    (heq : next.hashHex = ofString (hexEncode up.hash.toList)) :
    d = n.hash ∧ (Holds node.sums n.sums → StepOwns (names n.sums) step) := by
  obtain ⟨-, hsums, hside⟩ := readStep_eq_ok.mp hs
  obtain ⟨sibling, hsibling, hreads⟩ := @foldStep_reads sha256 _ _ _ h hs
  rw [(hreads node).1] at hnext
  rw [(hreads node).2] at hpre
  rw [climb] at hup
  rw [comboPreimage, comboOf] at hcombo
  rw [StepOwns, ← hsums, ← hside]
  split_ifs at hnext hpre hup hcombo ⊢
  · obtain ⟨-, hd, howns⟩ := combination_owns hcf hsibling.hash hhash hnext hup hpre hcombo heq
    exact ⟨hd, howns hsibling.sums⟩
  · obtain ⟨hd, -, howns⟩ := combination_owns hcf hhash hsibling.hash hnext hup hpre hcombo heq
    exact ⟨hd, fun hholds => howns hholds hsibling.sums⟩

theorem foldPreimages_cons {v : Js} {items : List Js} {current next : Browser.SolvencyNode} {p : List UInt8}
    (hp : stepPreimage current v = .ok p) (hnext : Browser.foldStep sha256 Browser.parseSums current v = .ok next) :
    foldPreimages sha256 current (v :: items) = p :: foldPreimages sha256 next items := by
  rw [foldPreimages, hp, hnext]

/-- Where two folds end in one hash they started from one, and lost no name on the way. -/
theorem fold_owns {hashed : List (List UInt8)} (hcf : CollisionFreeOn sha256 hashed) {items : List Js}
    {steps : List ProofStepDocument} {read : List (Step Node)} (hitems : List.Forall₂ ReadsStep items steps)
    (hread : List.Forall₂ (fun d s => readStep d = .ok s) steps read) {node top : Browser.SolvencyNode}
    {n m : Node} {d : Digest} (hhash : node.hashHex = ofString (hexEncode d.toList))
    (hfold : items.foldlM (Browser.foldStep sha256 Browser.parseSums) node = .ok top)
    (hrefold : refold (Merkle.combine sha256) n read = .ok m)
    (hpre : ∀ p ∈ foldPreimages sha256 node items, p ∈ hashed)
    (hcombos : ∀ c ∈ refoldCombos (Merkle.combine sha256) n read, comboPreimage c ∈ hashed)
    (heq : top.hashHex = ofString (hexEncode m.hash.toList)) :
    d = n.hash ∧ (Holds node.sums n.sums → PathOwns (names n.sums) steps) := by
  induction hitems generalizing read node n d with
  | nil =>
    cases hread
    cases hfold
    cases hrefold
    exact ⟨hexEncode_digest_inj (ofString_inj.mp (hhash.symm.trans heq)), fun _ => trivial⟩
  | @cons v step items steps hstep _ ih =>
    cases hread with
    | @cons _ s _ read hs hread =>
      rw [List.foldlM_cons] at hfold
      obtain ⟨next, hnext, hfold⟩ := bind_eq_ok.mp hfold
      rw [refold, List.foldlM_cons] at hrefold
      obtain ⟨up, hup, hrefold⟩ := bind_eq_ok.mp hrefold
      obtain ⟨p, hp, hdigest⟩ := foldStep_preimage hstep hs hnext
      rw [foldPreimages_cons hp hnext] at hpre
      rw [refoldCombos, hup] at hcombos
      -- the rest of the way shows that the step ends in one hash
      obtain ⟨hd, hrest⟩ := ih hread hdigest hfold hrefold
        (fun q hq => hpre q (List.mem_cons_of_mem _ hq)) (fun c hc => hcombos c (List.mem_cons_of_mem _ hc))
      obtain ⟨hstart, howns⟩ := step_owns hcf hstep hs hhash hnext hup
        (fun q hq => Except.ok.inj (hp.symm.trans hq) ▸ hpre p List.mem_cons_self)
        (hcombos _ List.mem_cons_self) (hd ▸ hdigest)
      refine ⟨hstart, fun hholds => ⟨howns hholds, ?_⟩⟩
      have hagrees := @step_agrees sha256 _ _ _ hstep hs _ _ ⟨hstart ▸ hhash, hholds⟩ (howns hholds)
      obtain ⟨up', hup', hreads, hnames⟩ := hagrees.1 next hnext
      obtain rfl := Except.ok.inj (hup.symm.trans hup')
      exact hnames ▸ hrest hreads.sums

end AssuranceLayer.FoldAgreement
