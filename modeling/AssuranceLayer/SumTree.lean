import AssuranceLayer.Merkle
import AssuranceLayer.Sha256

set_option autoImplicit false

/-!
The Merkle sum tree. Building succeeds exactly when every exact total fits, the root carries the
totals of all leaves, and the path of each leaf is accepted.
-/
namespace AssuranceLayer.Merkle
open Fallible Amount Sums LevelTree SortedMap

structure Proof where
  steps : List (Step Node)
deriving DecidableEq

variable (sha256 : List UInt8 → Digest)

/-- All levels of a completed build, from the leaves to the root. -/
structure SumTree where
  levels : List (List Node)
  built : ∃ leaves root, Levels (combine sha256) leaves levels root

variable {sha256}

theorem Levels.root_eq {ε α : Type} {c : α → α → Except ε α} {leaves : List α} {ls : List (List α)}
    {root : α} (h : Levels c leaves ls root) : ls.getLast?.bind List.head? = some root := by
  rw [h.last]
  rfl

theorem SumTree.root_isSome (t : SumTree sha256) :
    (t.levels.getLast?.bind List.head?).isSome := by
  obtain ⟨_, _, h⟩ := t.built
  rw [Levels.root_eq h]
  rfl

def SumTree.root (t : SumTree sha256) : Node :=
  (t.levels.getLast?.bind List.head?).get t.root_isSome

/-- The sibling path of a leaf; a level where the node was promoted alone contributes no step. -/
def SumTree.prove (t : SumTree sha256) (leafIndex : ℕ) : Except MerkleError Proof := do
  ensure (leafIndex < (t.levels.headD []).length) (.leafIndexOutOfRange leafIndex)
  return ⟨path leafIndex t.levels⟩

variable (sha256)

def SumTree.build (leaves : List Node) : Except MerkleError (SumTree sha256) :=
  if hne : leaves = [] then .error .noLeaves
  else
    match hl : levelsFrom (combine sha256) leaves.length leaves with
    | .error e => .error e
    | .ok levels => .ok ⟨levels, leaves, levelsFrom_levels hne (Nat.le_succ _) hl⟩

def verifyProof (leaf : Node) (proof : Proof) (root : Node) : Bool :=
  match refold (combine sha256) leaf proof.steps with
  | .ok node => node = root
  | .error _ => false

variable {sha256}

theorem build_eq_ok {leaves : List Node} {t : SumTree sha256} :
    SumTree.build sha256 leaves = .ok t ↔ Levels (combine sha256) leaves t.levels t.root := by
  constructor
  · intro h
    unfold SumTree.build at h
    split at h
    · cases h
    · rename_i hne
      split at h
      · cases h
      · rename_i levels hl
        cases h
        obtain ⟨root, hroot⟩ := levelsFrom_levels hne (Nat.le_succ _) hl
        have heq : SumTree.root ⟨levels, leaves, root, hroot⟩ = root := by
          simp only [SumTree.root, Levels.root_eq hroot, Option.get_some]
        exact heq.symm ▸ hroot
  · intro h
    have hl := h.levelsFrom_eq leaves.length (Nat.le_succ _)
    unfold SumTree.build
    rw [dif_neg h.ne_nil]
    split
    · rename_i e he
      rw [hl] at he
      cases he
    · rename_i levels hlevels
      rw [hl] at hlevels
      cases hlevels
      rfl

theorem prove_eq_ok {leaves : List Node} {t : SumTree sha256} (ht : SumTree.build sha256 leaves = .ok t)
    {i : ℕ} {p : Proof} :
    t.prove i = .ok p ↔ i < leaves.length ∧ p = ⟨path i t.levels⟩ := by
  have hhead : t.levels.headD [] = leaves := by
    rw [List.headD_eq_head?_getD, (build_eq_ok.mp ht).head]
    rfl
  simp only [SumTree.prove, bind_eq_ok, ensure_eq_ok, pure_eq_ok, hhead]
  constructor
  · rintro ⟨_, hi, rfl⟩
    exact ⟨hi, rfl⟩
  · rintro ⟨hi, rfl⟩
    exact ⟨(), hi, rfl⟩

theorem refold_prove {leaves : List Node} {t : SumTree sha256} (ht : SumTree.build sha256 leaves = .ok t)
    {i : ℕ} {leaf : Node} (hleaf : leaves[i]? = some leaf) :
    refold (combine sha256) leaf (path i t.levels) = .ok t.root :=
  (build_eq_ok.mp ht).refold_path hleaf

theorem sum_map_apply {α ι : Type} (f : α → ι → ℕ) (l : List α) (i : ι) :
    (l.map f).sum i = (l.map fun x => f x i).sum := by
  induction l with
  | nil => rfl
  | cons x l ih => rw [List.map_cons, List.sum_cons, Pi.add_apply, ih, List.map_cons, List.sum_cons]

theorem root_amount {leaves : List Node} {t : SumTree sha256} (ht : SumTree.build sha256 leaves = .ok t)
    (a : String) : amount t.root.sums a = (leaves.map fun n => amount n.sums a).sum := by
  have h := (build_eq_ok.mp ht).root_sum (fun n : Node => amount n.sums)
    (fun _ _ _ => combine_amount)
  have ha := congrFun h a
  rwa [sum_map_apply] at ha

theorem root_keys {leaves : List Node} {t : SumTree sha256} (ht : SumTree.build sha256 leaves = .ok t)
    (a : String) : a ∈ t.root.sums.keys ↔ ∃ n ∈ leaves, a ∈ n.sums.keys :=
  (build_eq_ok.mp ht).root_mark (fun n : Node => a ∈ n.sums.keys) fun _ _ _ h => combine_keys h a

theorem exists_build_iff (leaves : List Node) : (∃ t, SumTree.build sha256 leaves = .ok t) ↔
    leaves ≠ [] ∧ ∀ a, (leaves.map fun n => amount n.sums a).sum ≤ 2 ^ 128 - 1 := by
  constructor
  · rintro ⟨t, ht⟩
    refine ⟨(build_eq_ok.mp ht).ne_nil, fun a => ?_⟩
    rw [← root_amount ht]
    exact Nat.le_sub_one_of_lt (amount_lt _ a)
  · rintro ⟨hne, htotal⟩
    -- Totals only shrink towards the leaves, so no partial addition can overflow.
    obtain ⟨levels, hl⟩ := @levelsFrom_total _ _ (combine sha256) _ _
      (fun n : Node => amount n.sums) (fun f => ∀ a, f a < 2 ^ 128)
      (fun f g h => ⟨fun a => (Nat.le_add_right _ _).trans_lt (h a),
        fun a => (Nat.le_add_left _ _).trans_lt (h a)⟩)
      (fun _ _ h => combine_total h) (fun _ _ _ => combine_amount) leaves.length leaves
      (fun a => by
        rw [sum_map_apply]
        exact (htotal a).trans_lt (by norm_num))
    obtain ⟨root, hroot⟩ := levelsFrom_levels hne (Nat.le_succ _) hl
    refine ⟨⟨levels, leaves, root, hroot⟩, build_eq_ok.mpr ?_⟩
    have heq : SumTree.root ⟨levels, leaves, root, hroot⟩ = root := by
      simp only [SumTree.root, Levels.root_eq hroot, Option.get_some]
    exact heq.symm ▸ hroot

theorem verifyProof_eq_true {leaf root : Node} {p : Proof} :
    verifyProof sha256 leaf p root = true ↔ refold (combine sha256) leaf p.steps = .ok root := by
  unfold verifyProof
  cases refold (combine sha256) leaf p.steps with
  | error e => simp
  | ok node => simp

variable (sha256) in
/-- Building is exact: it fails only on an empty list or an exact total that does not fit, and a
    built tree carries every key, every total and an accepted path for every leaf. -/
theorem build_exact (leaves : List Node) :
    ((∃ t, SumTree.build sha256 leaves = .ok t) ↔
      leaves ≠ [] ∧ ∀ a, (leaves.map fun n => amount n.sums a).sum ≤ 2 ^ 128 - 1) ∧
    ∀ t, SumTree.build sha256 leaves = .ok t →
      (∀ a, a ∈ t.root.sums.keys ↔ ∃ n ∈ leaves, a ∈ n.sums.keys) ∧
      (∀ a, amount t.root.sums a = (leaves.map fun n => amount n.sums a).sum) ∧
      (∀ i, (∃ p, t.prove i = .ok p) ↔ i < leaves.length) ∧
      ∀ i leaf, leaves[i]? = some leaf →
        ∃ p, t.prove i = .ok p ∧ verifyProof sha256 leaf p t.root = true := by
  refine ⟨exists_build_iff leaves, fun t ht => ⟨root_keys ht, root_amount ht, fun i => ?_,
    fun i leaf hleaf => ?_⟩⟩
  · constructor
    · rintro ⟨p, hp⟩
      exact ((prove_eq_ok ht).mp hp).1
    · exact fun hi => ⟨_, (prove_eq_ok ht).mpr ⟨hi, rfl⟩⟩
  · have hi : i < leaves.length := (List.getElem?_eq_some_iff.mp hleaf).1
    exact ⟨_, (prove_eq_ok ht).mpr ⟨hi, rfl⟩, verifyProof_eq_true.mpr (refold_prove ht hleaf)⟩

/-- Three leaves, so that the last one is promoted alone. -/
def threeLeaves : List Node :=
  [⟨Sha256.sha256 [1], ofList [("CBTC", 2), ("USDA", 1)]⟩, ⟨Sha256.sha256 [2], ofList [("USDA", 2)]⟩,
    ⟨Sha256.sha256 [3], ofList [("USDA", 3)]⟩]

theorem build_exact_three : ∃ t, SumTree.build Sha256.sha256 threeLeaves = .ok t ∧
    amount t.root.sums "USDA" = 6 ∧ amount t.root.sums "CBTC" = 2 ∧
    ∃ p, t.prove 2 = .ok p ∧
      verifyProof Sha256.sha256 ⟨Sha256.sha256 [3], ofList [("USDA", 3)]⟩ p t.root = true := by
  obtain ⟨hbuild, hexact⟩ := build_exact Sha256.sha256 threeLeaves
  have hok : (SumTree.build Sha256.sha256 threeLeaves).isOk = true := by decide +kernel
  obtain ⟨t, ht⟩ := exists_of_isOk hok
  obtain ⟨_, hamount, _, hverify⟩ := hexact t ht
  exact ⟨t, ht, (hamount "USDA").trans (by decide +kernel), (hamount "CBTC").trans (by decide +kernel),
    hverify 2 _ rfl⟩

end AssuranceLayer.Merkle
