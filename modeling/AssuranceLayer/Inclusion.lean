import AssuranceLayer.NodeBinding

set_option autoImplicit false

/-!
Inclusion against an honestly built tree: a leaf preimage and any steps that fold to the tree's
root, in hash and in sums, are a committed leaf and its own path.
-/
namespace AssuranceLayer.Inclusion
open Fallible Amount Sums Canonical Merkle LevelTree NodeBinding SortedMap

inductive LeafOpening where
  | v1 (salt : Bytes 32) (userId : String) (balances : List (String × U128))
  | v2 (salt : Bytes 32) (subjectId : String) (maps : Maps)

variable (sha256 : List UInt8 → Digest)

def LeafOpening.node : LeafOpening → Except MerkleError Node
  | .v1 salt userId balances => leafNode sha256 salt userId balances
  | .v2 salt subjectId maps => leafNodeV2 sha256 salt subjectId maps

/-- What the leaf's hash is taken over: the subject, then the leaf. -/
def LeafOpening.preimages : LeafOpening → List (List UInt8)
  | .v1 salt userId balances =>
    [utf8 userId, leafPreimage sha256 salt userId (sumsCanonical (ofList balances))]
  | .v2 salt subjectId maps => [utf8 subjectId, leafPreimageV2 sha256 salt subjectId maps]

def LeafOpening.PlainV1 : LeafOpening → Prop
  | .v1 _ _ balances => ∀ e ∈ balances, '|' ∉ e.1.toList
  | .v2 .. => False

def LeafOpening.IsV2 : LeafOpening → Prop
  | .v1 .. => False
  | .v2 .. => True

def LeafOpening.Short : LeafOpening → Prop
  | .v1 .. => True
  | .v2 _ _ maps => ShortMaps maps

/-- The same salt, the same subject, and the same amounts or the same maps. -/
def LeafOpening.SameClaim : LeafOpening → LeafOpening → Prop
  | .v1 salt userId balances, .v1 salt' userId' balances' =>
    salt = salt' ∧ userId = userId' ∧ amount (ofList balances) = amount (ofList balances')
  | .v2 salt subjectId maps, .v2 salt' subjectId' maps' =>
    salt = salt' ∧ subjectId = subjectId' ∧ maps = maps'
  | _, _ => False

/-- Every byte string hashed by the build, by the opened leaf and by its fold. -/
def inclusionPreimages (committed : List LeafOpening) (tree : SumTree sha256) (opening : LeafOpening)
    (leaf : Node) (steps : List (Step Node)) : List (List UInt8) :=
  committed.flatMap (LeafOpening.preimages sha256) ++ (combos tree.levels).map comboPreimage ++
    opening.preimages sha256 ++ (refoldCombos (combine sha256) leaf steps).map comboPreimage

variable {sha256} {preimages : List (List UInt8)}

theorem opening_hashed {o : LeafOpening} {n : Node} (h : o.node sha256 = .ok n)
    (hmem : ∀ p ∈ o.preimages sha256, p ∈ preimages) : HashedLeaf sha256 preimages n := by
  cases o with
  | v1 salt userId balances => exact leafNode_hashed h (hmem _ (by simp [LeafOpening.preimages]))
  | v2 salt subjectId maps => exact leafNodeV2_hashed h (hmem _ (by simp [LeafOpening.preimages]))

theorem leafNode_inj (hcf : CollisionFreeOn sha256 preimages) {s s' : Bytes 32} {u u' : String}
    {b b' : List (String × U128)} {m n : Node} (hm : leafNode sha256 s u b = .ok m)
    (hn : leafNode sha256 s' u' b' = .ok n)
    (hmem : ∀ p ∈ (LeafOpening.v1 s u b).preimages sha256, p ∈ preimages)
    (hmem' : ∀ p ∈ (LeafOpening.v1 s' u' b').preimages sha256, p ∈ preimages)
    (h : m.hash = n.hash) : s = s' ∧ u = u' ∧ sumsCanonical m.sums = sumsCanonical n.sums := by
  obtain ⟨_, rfl⟩ := (leafNode_eq_ok sha256).mp hm
  obtain ⟨_, rfl⟩ := (leafNode_eq_ok sha256).mp hn
  have hpre := hcf _ (hmem _ (by simp [LeafOpening.preimages])) _
    (hmem' _ (by simp [LeafOpening.preimages])) h
  obtain ⟨_, hs, hu, hc⟩ := preimage_inj rfl hpre
  have huser := hcf _ (hmem _ (by simp [LeafOpening.preimages])) _
    (hmem' _ (by simp [LeafOpening.preimages])) hu
  exact ⟨hs, utf8_inj huser, utf8_inj hc⟩

theorem leafNodeV2_inj (hcf : CollisionFreeOn sha256 preimages) {s s' : Bytes 32} {u u' : String}
    {maps maps' : Maps} {m n : Node} (hm : leafNodeV2 sha256 s u maps = .ok m)
    (hn : leafNodeV2 sha256 s' u' maps' = .ok n) (hshort : ShortMaps maps) (hshort' : ShortMaps maps')
    (hmem : ∀ p ∈ (LeafOpening.v2 s u maps).preimages sha256, p ∈ preimages)
    (hmem' : ∀ p ∈ (LeafOpening.v2 s' u' maps').preimages sha256, p ∈ preimages)
    (h : m.hash = n.hash) : s = s' ∧ u = u' ∧ maps = maps' := by
  obtain ⟨_, rfl⟩ := (leafNodeV2_eq_ok sha256).mp hm
  obtain ⟨_, rfl⟩ := (leafNodeV2_eq_ok sha256).mp hn
  have hpre := hcf _ (hmem _ (by simp [LeafOpening.preimages])) _
    (hmem' _ (by simp [LeafOpening.preimages])) h
  obtain ⟨_, hs, hu, hmaps⟩ := preimage_inj rfl hpre
  have huser := hcf _ (hmem _ (by simp [LeafOpening.preimages])) _
    (hmem' _ (by simp [LeafOpening.preimages])) hu
  exact ⟨hs, utf8_inj huser, framed_lpmaps.eq hshort hshort' hmaps⟩

theorem leafNode_ne_leafNodeV2 (hcf : CollisionFreeOn sha256 preimages) {s s' : Bytes 32}
    {u u' : String} {b : List (String × U128)} {maps : Maps} {m n : Node}
    (hm : leafNode sha256 s u b = .ok m) (hn : leafNodeV2 sha256 s' u' maps = .ok n)
    (hmem : ∀ p ∈ (LeafOpening.v1 s u b).preimages sha256, p ∈ preimages)
    (hmem' : ∀ p ∈ (LeafOpening.v2 s' u' maps).preimages sha256, p ∈ preimages) :
    m.hash ≠ n.hash := by
  obtain ⟨_, rfl⟩ := (leafNode_eq_ok sha256).mp hm
  obtain ⟨_, rfl⟩ := (leafNodeV2_eq_ok sha256).mp hn
  intro h
  have hpre := hcf _ (hmem _ (by simp [LeafOpening.preimages])) _
    (hmem' _ (by simp [LeafOpening.preimages])) h
  exact absurd (preimage_inj (by decide +kernel) hpre).1 (by decide)

/-- A node whose hash is taken over the canonical text of its sums. -/
def Sealed (sha256 : List UInt8 → Digest) (preimages : List (List UInt8)) (n : Node) : Prop :=
  ∃ domain a b, (utf8 domain).length = 22 ∧
    preimage domain a b (utf8 (sumsCanonical n.sums)) ∈ preimages ∧
    n.hash = sha256 (preimage domain a b (utf8 (sumsCanonical n.sums)))

theorem Sealed.canonical (hcf : CollisionFreeOn sha256 preimages) {m n : Node}
    (hm : Sealed sha256 preimages m) (hn : Sealed sha256 preimages n) (h : m.hash = n.hash) :
    sumsCanonical m.sums = sumsCanonical n.sums := by
  obtain ⟨d, a, b, hlen, hmem, hhash⟩ := hm
  obtain ⟨d', a', b', hlen', hmem', hhash'⟩ := hn
  have hpre := hcf _ hmem _ hmem' (by rw [← hhash, ← hhash', h])
  exact utf8_inj (preimage_inj (hlen.trans hlen'.symm) hpre).2.2.2

theorem leafNode_sealed {s : Bytes 32} {u : String} {b : List (String × U128)} {n : Node}
    (h : leafNode sha256 s u b = .ok n)
    (hmem : ∀ p ∈ (LeafOpening.v1 s u b).preimages sha256, p ∈ preimages) :
    Sealed sha256 preimages n := by
  obtain ⟨_, rfl⟩ := (leafNode_eq_ok sha256).mp h
  exact ⟨leafDomain, s, sha256 (utf8 u), by decide +kernel,
    hmem _ (by simp [LeafOpening.preimages, leafPreimage]), rfl⟩

theorem hashed_sealed {cs : List (Combo Node)} (hcs : Hashed sha256 preimages cs) {c : Combo Node}
    (hc : c ∈ cs) : Sealed sha256 preimages c.2.2 :=
  ⟨nodeDomain, c.1.hash, c.2.1.hash, by decide +kernel, (hcs c hc).2, (combine_eq_ok.mp (hcs c hc).1).2⟩

/-- Names that spell amounts for other names are worth nothing to a leaf whose fold ends at sums
    without such names: the leaf's text then says what its amounts say. -/
theorem hidden_eq_zero_of_fold {m f r : AmountMap} (hle : ∀ a, amount m a ≤ amount f a)
    (hkeys : ∀ k ∈ m.keys, k ∈ f.keys) (hfr : amount f = amount r)
    (hcanonical : sumsCanonical f = sumsCanonical r) (hplain : ∀ k ∈ r.keys, '|' ∉ k.toList)
    {a : String} (ha : '|' ∉ a.toList) : hiddenAmount m a = 0 := by
  have hzero : hiddenAmount f a = 0 := by
    have h := canonical_amount hcanonical ha
    rw [hidden_eq_zero_of_plain hplain, hfr] at h
    omega
  rw [hiddenAmount, List.sum_eq_zero_iff] at hzero ⊢
  intro x hx
  obtain ⟨e, he, rfl⟩ := List.mem_map.mp hx
  obtain ⟨hmem, hbar⟩ := List.mem_filter.mp he
  -- The bar-carrying name totals zero at the root, so the fold holds the very same entry.
  have hroot : amount f e.1 = 0 := by
    rw [hfr]
    exact amount_of_not_mem fun h => hplain e.1 h (by simpa using hbar)
  have hm : m.get? e.1 = some e.2 := get?_eq_some.mpr hmem
  have hv : e.2.val = 0 := by
    have h := hle e.1
    rw [amount_of_get? hm, hroot] at h
    omega
  obtain ⟨w, hw⟩ := Option.isSome_iff_exists.mp
    (mem_keys.mp (hkeys e.1 (List.mem_map_of_mem hmem)))
  have hwv : w = e.2 := by
    rw [amount_of_get? hw] at hroot
    exact Fin.ext (hroot.trans hv.symm)
  exact hzero _ (List.mem_map_of_mem (List.mem_filter.mpr ⟨get?_eq_some.mp (hwv ▸ hw), hbar⟩))

theorem amount_eq_of_canonical {m n r f : AmountMap} (hle : ∀ a, amount m a ≤ amount f a)
    (hkeys : ∀ k ∈ m.keys, k ∈ f.keys) (hfr : amount f = amount r)
    (hcanonical : sumsCanonical f = sumsCanonical r) (hplain : ∀ k ∈ r.keys, '|' ∉ k.toList)
    (hmn : sumsCanonical m = sumsCanonical n) (hplainN : ∀ k ∈ n.keys, '|' ∉ k.toList) :
    amount m = amount n := by
  funext a
  by_cases ha : '|' ∈ a.toList
  · have hm := hle a
    rw [hfr, amount_of_not_mem fun h => hplain a h ha] at hm
    rw [amount_of_not_mem fun h => hplainN a h ha]
    omega
  · have h := canonical_amount hmn ha
    rwa [hidden_eq_zero_of_fold hle hkeys hfr hcanonical hplain ha,
      hidden_eq_zero_of_plain hplainN] at h

section Tree
variable {committed : List LeafOpening} {nodes : List Node} {tree : SumTree sha256}

theorem plain_keys {o : LeafOpening} {n : Node} (h : o.node sha256 = .ok n) (hplain : o.PlainV1) :
    ∀ k ∈ n.sums.keys, '|' ∉ k.toList := by
  cases o with
  | v1 salt userId balances =>
    obtain ⟨_, rfl⟩ := (leafNode_eq_ok sha256).mp h
    intro k hk
    obtain ⟨e, he, rfl⟩ := List.mem_map.mp (keys_ofList.mp hk)
    exact hplain e he
  | v2 salt subjectId maps => exact absurd hplain id

theorem committed_at (hnodes : List.Forall₂ (fun c n => c.node sha256 = .ok n) committed nodes)
    {i : ℕ} {n : Node} (hn : nodes[i]? = some n) :
    ∃ c, committed[i]? = some c ∧ c.node sha256 = .ok n := by
  obtain ⟨hi, rfl⟩ := List.getElem?_eq_some_iff.mp hn
  have hc : i < committed.length := hnodes.length_eq.symm ▸ hi
  exact ⟨committed[i], List.getElem?_eq_getElem hc, List.Forall₂.get hnodes hc hi⟩

/-- The root of a tree over plain balances is sealed, and none of its names holds a bar. -/
theorem root_plain (hnodes : List.Forall₂ (fun c n => c.node sha256 = .ok n) committed nodes)
    (htree : SumTree.build sha256 nodes = .ok tree) (hplain : ∀ c ∈ committed, c.PlainV1) :
    ∀ k ∈ tree.root.sums.keys, '|' ∉ k.toList := by
  intro k hk
  obtain ⟨n, hn, hkn⟩ := (root_keys htree k).mp hk
  obtain ⟨i, hi⟩ := List.mem_iff_getElem?.mp hn
  obtain ⟨c, hc, hcn⟩ := committed_at hnodes hi
  exact plain_keys hcn (hplain c (List.mem_of_getElem? hc)) k hkn

theorem root_sealed (hnodes : List.Forall₂ (fun c n => c.node sha256 = .ok n) committed nodes)
    (htree : SumTree.build sha256 nodes = .ok tree) (hplain : ∀ c ∈ committed, c.PlainV1)
    (hmem : ∀ c ∈ committed, ∀ p ∈ c.preimages sha256, p ∈ preimages)
    (hcombos : Hashed sha256 preimages (combos tree.levels)) : Sealed sha256 preimages tree.root := by
  rcases (build_eq_ok.mp htree).root_origin with hroot | ⟨c, hc, hroot⟩
  · obtain ⟨i, hi⟩ := List.mem_iff_getElem?.mp hroot
    obtain ⟨c, hc, hcn⟩ := committed_at hnodes hi
    have hmemc := hmem c (List.mem_of_getElem? hc)
    have hplainc := hplain c (List.mem_of_getElem? hc)
    cases c with
    | v1 salt userId balances => exact leafNode_sealed hcn hmemc
    | v2 salt subjectId maps => exact absurd hplainc id
  · exact hroot ▸ hashed_sealed hcombos hc

/-- The opened leaf stands at the hash of a committed one, and its steps are that leaf's path. -/
theorem fold_is_path (hcf : CollisionFreeOn sha256 preimages)
    (hnodes : List.Forall₂ (fun c n => c.node sha256 = .ok n) committed nodes)
    (htree : SumTree.build sha256 nodes = .ok tree) {leaf folded : Node} {steps : List (Step Node)}
    (hleaf : HashedLeaf sha256 preimages leaf)
    (hrefold : refold (combine sha256) leaf steps = .ok folded)
    (hhash : folded.hash = tree.root.hash)
    (hcommitted : ∀ c ∈ committed, ∀ p ∈ c.preimages sha256, p ∈ preimages)
    (hcombos : Hashed sha256 preimages (combos tree.levels))
    (hfolds : Hashed sha256 preimages (refoldCombos (combine sha256) leaf steps)) :
    ∃ (i : ℕ) (c : LeafOpening) (n : Node), committed[i]? = some c ∧ nodes[i]? = some n ∧
      c.node sha256 = .ok n ∧ leaf.hash = n.hash ∧
      steps.map (tag Node.hash) = (path i tree.levels).map (tag Node.hash) := by
  have hfresh : ∀ x ∈ nodes, Fresh Node.hash (refoldCombos (combine sha256) leaf steps) x := by
    intro x hx
    obtain ⟨j, hj⟩ := List.mem_iff_getElem?.mp hx
    obtain ⟨c, hc, hcn⟩ := committed_at hnodes hj
    exact (opening_hashed hcn (hcommitted c (List.mem_of_getElem? hc))).fresh hcf hfolds
  obtain ⟨i, n, hn, hhashn, htags⟩ := (build_eq_ok.mp htree).inclusion hrefold hhash
    (hcombos.binds hcf hfolds) (hleaf.fresh hcf hcombos) hfresh
  obtain ⟨c, hc, hcn⟩ := committed_at hnodes hn
  exact ⟨i, c, n, hc, hn, hcn, hhashn, htags⟩

/-- A leaf over balances that folds to a plain tree's root, in hash and in sums, makes the same
    claim as the committed leaf it shares its hash with. -/
theorem same_claim_v1 (hcf : CollisionFreeOn sha256 preimages)
    (hnodes : List.Forall₂ (fun c n => c.node sha256 = .ok n) committed nodes)
    (htree : SumTree.build sha256 nodes = .ok tree) (hplain : ∀ c ∈ committed, c.PlainV1)
    {leaf folded n : Node} {steps : List (Step Node)} {s s' : Bytes 32} {u u' : String}
    {b b' : List (String × U128)} (hleaf : (LeafOpening.v1 s u b).node sha256 = .ok leaf)
    (hrefold : refold (combine sha256) leaf steps = .ok folded)
    (hhash : folded.hash = tree.root.hash) (hsums : amount folded.sums = amount tree.root.sums)
    (hcommitted : ∀ c ∈ committed, ∀ p ∈ c.preimages sha256, p ∈ preimages)
    (hopening : ∀ p ∈ (LeafOpening.v1 s u b).preimages sha256, p ∈ preimages)
    (hcombos : Hashed sha256 preimages (combos tree.levels))
    (hfolds : Hashed sha256 preimages (refoldCombos (combine sha256) leaf steps))
    (hc : LeafOpening.v1 s' u' b' ∈ committed) (hcn : (LeafOpening.v1 s' u' b').node sha256 = .ok n)
    (hhashn : leaf.hash = n.hash) :
    (LeafOpening.v1 s u b).SameClaim (LeafOpening.v1 s' u' b') := by
  obtain ⟨hs, hu, hcanonical⟩ := leafNode_inj hcf hleaf hcn hopening (hcommitted _ hc) hhashn
  have hsealed : Sealed sha256 preimages folded := by
    rcases refold_origin hrefold with rfl | ⟨d, hd, rfl⟩
    · exact leafNode_sealed hleaf hopening
    · exact hashed_sealed hfolds hd
  have hroot := hsealed.canonical hcf (root_sealed hnodes htree hplain hcommitted hcombos) hhash
  have hamount := amount_eq_of_canonical (refold_amount_le hrefold)
    (fun k hk => refold_keys hrefold hk) hsums hroot (root_plain hnodes htree hplain) hcanonical
    (plain_keys hcn (hplain _ hc))
  obtain ⟨_, rfl⟩ := (leafNode_eq_ok sha256).mp hleaf
  obtain ⟨_, rfl⟩ := (leafNode_eq_ok sha256).mp hcn
  exact ⟨hs, hu, hamount⟩

end Tree

variable (sha256) in
/-- Inclusion soundness: whatever leaf preimage and steps fold to the root of an honestly built
    tree are one of its leaves and that leaf's own path. -/
theorem inclusion_sound (committed : List LeafOpening) (nodes : List Node) (tree : SumTree sha256)
    (hnodes : List.Forall₂ (fun c n => c.node sha256 = .ok n) committed nodes)
    (htree : SumTree.build sha256 nodes = .ok tree)
    (hkind : (∀ c ∈ committed, c.PlainV1) ∨ ∀ c ∈ committed, c.IsV2)
    (opening : LeafOpening) (leaf folded : Node) (steps : List (Step Node))
    (hleaf : opening.node sha256 = .ok leaf) (hfold : Verify.fold sha256 leaf ⟨steps⟩ = .ok folded)
    (hhash : folded.hash = tree.root.hash) (hsums : amount folded.sums = amount tree.root.sums)
    (hshort : ∀ o ∈ opening :: committed, o.Short)
    (hcf : CollisionFreeOn sha256 (inclusionPreimages sha256 committed tree opening leaf steps)) :
    ∃ i c n p, committed[i]? = some c ∧ nodes[i]? = some n ∧ leaf.hash = n.hash ∧
      opening.SameClaim c ∧ tree.prove i = .ok p ∧
      steps.map (tag Node.hash) = p.steps.map (tag Node.hash) := by
  have hrefold : refold (combine sha256) leaf steps = .ok folded := Verify.fold_eq_ok.mp hfold
  have hcommitted : ∀ c ∈ committed, ∀ p ∈ c.preimages sha256,
      p ∈ inclusionPreimages sha256 committed tree opening leaf steps := fun c hc p hp => by
    simp only [inclusionPreimages, List.mem_append, List.mem_flatMap]
    exact .inl (.inl (.inl ⟨c, hc, hp⟩))
  have hopening : ∀ p ∈ opening.preimages sha256,
      p ∈ inclusionPreimages sha256 committed tree opening leaf steps := fun p hp => by
    simp only [inclusionPreimages, List.mem_append]
    exact .inl (.inr hp)
  have hcombos : Hashed sha256 (inclusionPreimages sha256 committed tree opening leaf steps)
      (combos tree.levels) := hashed_combos (build_eq_ok.mp htree) fun c hc => by
    simp only [inclusionPreimages, List.mem_append]
    exact .inl (.inl (.inr (List.mem_map_of_mem hc)))
  have hfolds : Hashed sha256 (inclusionPreimages sha256 committed tree opening leaf steps)
      (refoldCombos (combine sha256) leaf steps) := hashed_refold fun c hc => by
    simp only [inclusionPreimages, List.mem_append]
    exact .inr (List.mem_map_of_mem hc)
  obtain ⟨i, c, n, hc, hn, hcn, hhashn, htags⟩ := fold_is_path hcf hnodes htree
    (opening_hashed hleaf hopening) hrefold hhash hcommitted hcombos hfolds
  have hcmem := List.mem_of_getElem? hc
  refine ⟨i, c, n, ⟨path i tree.levels⟩, hc, hn, hhashn, ?_,
    (prove_eq_ok htree).mpr ⟨(List.getElem?_eq_some_iff.mp hn).1, rfl⟩, htags⟩
  cases opening with
  | v1 s u b =>
    cases c with
    | v1 s' u' b' =>
      have hplain : ∀ c ∈ committed, c.PlainV1 := hkind.resolve_right fun h => h _ hcmem
      exact same_claim_v1 hcf hnodes htree hplain hleaf hrefold hhash hsums hcommitted hopening hcombos
        hfolds hcmem hcn hhashn
    | v2 s' u' maps' =>
      exact absurd hhashn (leafNode_ne_leafNodeV2 hcf hleaf hcn hopening (hcommitted _ hcmem))
  | v2 s u maps =>
    cases c with
    | v1 s' u' b' =>
      exact absurd hhashn.symm (leafNode_ne_leafNodeV2 hcf hcn hleaf (hcommitted _ hcmem) hopening)
    | v2 s' u' maps' =>
      exact leafNodeV2_inj hcf hleaf hcn (hshort _ List.mem_cons_self)
        (hshort _ (List.mem_cons_of_mem _ hcmem)) hopening (hcommitted _ hcmem) hhashn

def aliceOpening : LeafOpening := .v1 (Sign.bytesOf 32 1) "alice" [("USDA", 100), ("CBTC", 7)]
def bobOpening : LeafOpening := .v1 (Sign.bytesOf 32 2) "bob" [("USDA", 5)]

def openingNode (o : LeafOpening) : Node :=
  ((o.node Sha256.sha256).toOption).getD ⟨Sign.bytesOf 32 0, empty⟩

def pairTree : SumTree Sha256.sha256 :=
  (SumTree.build Sha256.sha256 [openingNode aliceOpening, openingNode bobOpening]).toOption.get
    (by decide +kernel)

theorem inclusion_sound_pair : ∃ i c n p, [aliceOpening, bobOpening][i]? = some c ∧
    [openingNode aliceOpening, openingNode bobOpening][i]? = some n ∧
    (openingNode bobOpening).hash = n.hash ∧ bobOpening.SameClaim c ∧ pairTree.prove i = .ok p ∧
    [(⟨openingNode aliceOpening, true⟩ : Step Node)].map (tag Node.hash) =
      p.steps.map (tag Node.hash) := by
  have hplain : ∀ c ∈ [aliceOpening, bobOpening], c.PlainV1 := by
    simp only [aliceOpening, bobOpening, List.forall_mem_cons, LeafOpening.PlainV1]
    exact ⟨⟨by decide, by decide, by simp⟩, ⟨by decide, by simp⟩, by simp⟩
  have hshort : ∀ o ∈ [bobOpening, aliceOpening, bobOpening], o.Short := by
    simp [aliceOpening, bobOpening, LeafOpening.Short]
  have hfold : refold (combine Sha256.sha256) (openingNode bobOpening)
      [⟨openingNode aliceOpening, true⟩] = .ok pairTree.root :=
    verifyProof_eq_true.mp (show verifyProof _ _ ⟨[⟨openingNode aliceOpening, true⟩]⟩ _ = true by
      decide +kernel)
  exact inclusion_sound Sha256.sha256 _ _ pairTree (.cons rfl (.cons rfl .nil)) (eq_ok_get _)
    (.inl hplain) bobOpening _ pairTree.root _ rfl (Verify.fold_eq_ok.mpr hfold) rfl rfl hshort
    (collisionFreeOn_of_nodup (by decide +kernel))

end AssuranceLayer.Inclusion
