import AssuranceLayer.Verify

set_option autoImplicit false

/-!
What a node's hash fixes when no two preimages at hand share a digest: a combination's hash fixes
the hashes of its parts and the canonical text of its sums, and no leaf has a combination's hash.
-/
namespace AssuranceLayer.NodeBinding
open Fallible Sums Canonical Merkle LevelTree Document
open Verify hiding combine combine_eq_ok

variable {sha256 : List UInt8 → Digest} {preimages : List (List UInt8)}

def comboPreimage (c : Combo Node) : List UInt8 := nodePreimage c.1.hash c.2.1.hash c.2.2.sums

variable (sha256 preimages) in
/-- Combinations whose preimages are among those at hand. -/
def Hashed (cs : List (Combo Node)) : Prop :=
  ∀ c ∈ cs, combine sha256 c.1 c.2.1 = .ok c.2.2 ∧ comboPreimage c ∈ preimages

variable (sha256 preimages) in
def HashedLeaf (x : Node) : Prop :=
  ∃ domain a b tail, domain ∈ [leafDomain, leafDomainV2] ∧
    preimage domain a b tail ∈ preimages ∧ x.hash = sha256 (preimage domain a b tail)

theorem domain_length {domain : String} (h : domain ∈ [leafDomain, leafDomainV2]) :
    (utf8 domain).length = (utf8 nodeDomain).length ∧ domain ≠ nodeDomain := by
  revert domain
  decide +kernel

theorem Hashed.parts (hcf : CollisionFreeOn sha256 preimages) {cs ds : List (Combo Node)}
    (hcs : Hashed sha256 preimages cs) (hds : Hashed sha256 preimages ds) {c d : Combo Node}
    (hc : c ∈ cs) (hd : d ∈ ds) (h : c.2.2.hash = d.2.2.hash) :
    c.1.hash = d.1.hash ∧ c.2.1.hash = d.2.1.hash ∧
      sumsCanonical c.2.2.sums = sumsCanonical d.2.2.sums := by
  have hpre : comboPreimage c = comboPreimage d := by
    apply hcf _ (hcs c hc).2 _ (hds d hd).2
    rw [comboPreimage, comboPreimage, ← (combine_eq_ok.mp (hcs c hc).1).2,
      ← (combine_eq_ok.mp (hds d hd).1).2, h]
  obtain ⟨_, hl, hr, hsums⟩ := preimage_inj rfl hpre
  exact ⟨hl, hr, utf8_inj hsums⟩

theorem Hashed.binds (hcf : CollisionFreeOn sha256 preimages) {cs ds : List (Combo Node)}
    (hcs : Hashed sha256 preimages cs) (hds : Hashed sha256 preimages ds) :
    Binds Node.hash cs ds := by
  intro c hc d hd h
  obtain ⟨hl, hr, _⟩ := hcs.parts hcf hds hc hd h
  exact ⟨hl, hr⟩

theorem HashedLeaf.fresh (hcf : CollisionFreeOn sha256 preimages) {x : Node}
    (hx : HashedLeaf sha256 preimages x) {cs : List (Combo Node)}
    (hcs : Hashed sha256 preimages cs) : Fresh Node.hash cs x := by
  obtain ⟨domain, a, b, tail, hdomain, hmem, hhash⟩ := hx
  intro c hc h
  obtain ⟨hlen, hne⟩ := domain_length hdomain
  have hpre : preimage domain a b tail = comboPreimage c := by
    apply hcf _ hmem _ (hcs c hc).2
    rw [← hhash, h, (combine_eq_ok.mp (hcs c hc).1).2, comboPreimage]
  exact hne (preimage_inj hlen hpre).1

theorem hashed_combos {leaves : List Node} {ls : List (List Node)} {root : Node}
    (h : Levels (combine sha256) leaves ls root)
    (hmem : ∀ c ∈ combos ls, comboPreimage c ∈ preimages) : Hashed sha256 preimages (combos ls) :=
  fun c hc => ⟨h.mem_combos hc, hmem c hc⟩

theorem hashed_refold {start : Node} {steps : List (Step Node)}
    (hmem : ∀ c ∈ refoldCombos (combine sha256) start steps, comboPreimage c ∈ preimages) :
    Hashed sha256 preimages (refoldCombos (combine sha256) start steps) :=
  fun c hc => ⟨mem_refoldCombos_combine hc, hmem c hc⟩

theorem leafNode_hashed {salt : Bytes 32} {userId : String} {balances : List (String × U128)}
    {n : Node} (h : leafNode sha256 salt userId balances = .ok n)
    (hmem : leafPreimage sha256 salt userId (sumsCanonical (SortedMap.ofList balances)) ∈ preimages) :
    HashedLeaf sha256 preimages n := by
  obtain ⟨_, rfl⟩ := (leafNode_eq_ok sha256).mp h
  exact ⟨_, _, _, _, List.mem_cons_self, hmem, rfl⟩

theorem leafNodeV2_hashed {salt : Bytes 32} {subjectId : String} {maps : Maps} {n : Node}
    (h : leafNodeV2 sha256 salt subjectId maps = .ok n)
    (hmem : leafPreimageV2 sha256 salt subjectId maps ∈ preimages) :
    HashedLeaf sha256 preimages n := by
  obtain ⟨_, rfl⟩ := (leafNodeV2_eq_ok sha256).mp h
  exact ⟨_, _, _, _, List.mem_cons_of_mem _ List.mem_cons_self, hmem, rfl⟩

/-! ## Amounts along a fold -/

theorem refold_amount {start f : Node} {steps : List (Step Node)}
    (hf : refold (combine sha256) start steps = .ok f) (a : String) :
    amount f.sums a = amount start.sums a + (steps.map fun s => amount s.sibling.sums a).sum := by
  induction steps using List.reverseRecOn generalizing f with
  | nil =>
    cases hf
    rfl
  | append_singleton pre step ih =>
    obtain ⟨mid, hmid, hclimb⟩ := refold_snoc.mp hf
    have hstep : amount f.sums a = amount mid.sums a + amount step.sibling.sums a := by
      unfold climb at hclimb
      split_ifs at hclimb
      · rw [congrFun (combine_amount hclimb) a, Pi.add_apply, Nat.add_comm]
      · rw [congrFun (combine_amount hclimb) a, Pi.add_apply]
    rw [hstep, ih hmid, List.map_append, List.sum_append, List.map_singleton, List.sum_singleton,
      Nat.add_assoc]

theorem refold_amount_le {start f : Node} {steps : List (Step Node)}
    (hf : refold (combine sha256) start steps = .ok f) (a : String) :
    amount start.sums a ≤ amount f.sums a := by
  rw [refold_amount hf]
  exact Nat.le_add_right _ _

theorem refold_mem_keys {start f : Node} {steps : List (Step Node)}
    (hf : refold (combine sha256) start steps = .ok f) {a : String} :
    a ∈ f.sums.keys ↔ a ∈ start.sums.keys ∨ ∃ s ∈ steps, a ∈ s.sibling.sums.keys := by
  induction steps using List.reverseRecOn generalizing f with
  | nil =>
    cases hf
    simp
  | append_singleton pre step ih =>
    obtain ⟨mid, hmid, hclimb⟩ := refold_snoc.mp hf
    have hstep : a ∈ f.sums.keys ↔ a ∈ mid.sums.keys ∨ a ∈ step.sibling.sums.keys := by
      unfold climb at hclimb
      split_ifs at hclimb
      · rw [combine_keys hclimb, or_comm]
      · exact combine_keys hclimb a
    rw [hstep, ih hmid, or_assoc]
    simp only [List.mem_append, List.mem_singleton, or_and_right, exists_or, exists_eq_left]

theorem refold_keys {start f : Node} {steps : List (Step Node)}
    (hf : refold (combine sha256) start steps = .ok f) {a : String} (ha : a ∈ start.sums.keys) :
    a ∈ f.sums.keys :=
  (refold_mem_keys hf).mpr (.inl ha)

def siblingTotal (steps : List ProofStepDocument) (a : String) : ℕ :=
  (steps.map fun s => amount s.siblingSums a).sum

theorem siblingTotal_read {steps : List ProofStepDocument} {read : List (Step Node)}
    (h : List.Forall₂ (fun d s => readStep d = .ok s) steps read) (a : String) :
    (read.map fun s => amount s.sibling.sums a).sum = siblingTotal steps a := by
  unfold siblingTotal
  congr 1
  rw [← List.forall₂_eq_eq_eq, List.forall₂_map_left_iff, List.forall₂_map_right_iff]
  exact h.flip.imp fun s d hs => by rw [(readStep_eq_ok.mp hs).2.1]

theorem siblingKeys_read {steps : List ProofStepDocument} {read : List (Step Node)}
    (h : List.Forall₂ (fun d s => readStep d = .ok s) steps read) (a : String) :
    (∃ s ∈ read, a ∈ s.sibling.sums.keys) ↔ ∃ s ∈ steps, a ∈ s.siblingSums.keys := by
  induction h with
  | nil => simp
  | cons hs _ ih =>
    rw [List.exists_mem_cons_iff, List.exists_mem_cons_iff, ih, (readStep_eq_ok.mp hs).2.1]

end AssuranceLayer.NodeBinding
