import AssuranceLayer.Canonical
import AssuranceLayer.LevelTree
import AssuranceLayer.Sha256

set_option autoImplicit false

/-!
Nodes of the Merkle sum tree: leaves over one balance set, leaves over several named maps, and
the combination of two nodes. `sha256` stands for the hash throughout.
-/
namespace AssuranceLayer.Merkle
open Framing Fallible Amount Sums Canonical SortedMap

inductive MerkleError where
  /-- "cannot build a tree with no leaves" -/
  | noLeaves
  /-- "duplicate asset {asset:?} in balance set" -/
  | duplicateAsset (asset : String)
  /-- "unsafe map name {map_name:?}" -/
  | unsafeMapName (mapName : String)
  /-- "unsafe asset name {asset:?}" -/
  | unsafeAssetName (asset : String)
  /-- "sum overflow on asset {asset:?}" -/
  | sumOverflow (asset : String)
  /-- "leaf index {leaf_index} out of range" -/
  | leafIndexOutOfRange (leafIndex : ℕ)
deriving DecidableEq

structure Node where
  hash : Digest
  sums : AmountMap
deriving DecidableEq

/-! ## Leaves over one balance set -/

def duplicateName : List (String × U128) → Option String
  | x :: y :: rest => if x.1 = y.1 then some x.1 else duplicateName (y :: rest)
  | _ => none

def canonicalBalances (balances : List (String × U128)) : Except MerkleError String :=
  let sorted := balances.insertionSort (fun a b => a.1 ≤ b.1)
  match duplicateName sorted with
  | some asset => .error (.duplicateAsset asset)
  | none => .ok (String.intercalate "|" (sorted.map renderEntry))

def leafDomain : String := "rocky-solvency-leaf-v1"
def leafDomainV2 : String := "rocky-solvency-leaf-v2"
def nodeDomain : String := "rocky-solvency-node-v1"

variable (sha256 : List UInt8 → Digest)

/-- The salt of one leaf, derived from the salt of the snapshot. -/
def leafSalt (masterSalt : List UInt8) (userId : String) : Bytes 32 :=
  Sha256.hmac sha256 masterSalt (utf8 userId)

def leafPreimage (salt : Bytes 32) (userId canonical : String) : List UInt8 :=
  preimage leafDomain salt (sha256 (utf8 userId)) (utf8 canonical)

/-- `H(domain ‖ salt ‖ H(user_id) ‖ canonical(balances))`. -/
def leafHash (salt : Bytes 32) (userId : String) (balances : List (String × U128)) :
    Except MerkleError Digest := do
  let canonical ← canonicalBalances balances
  return sha256 (leafPreimage sha256 salt userId canonical)

def insertUnique (sums : AmountMap) (e : String × U128) : Except MerkleError AmountMap :=
  match sums.get? e.1 with
  | some _ => .error (.duplicateAsset e.1)
  | none => .ok (sums.insert e.1 e.2)

def leafNode (salt : Bytes 32) (userId : String) (balances : List (String × U128)) :
    Except MerkleError Node := do
  let hash ← leafHash sha256 salt userId balances
  let sums ← balances.foldlM insertUnique empty
  return ⟨hash, sums⟩

theorem duplicateName_eq_none {l : List (String × U128)} (h : l.Pairwise (fun a b => a.1 ≤ b.1)) :
    duplicateName l = none ↔ l.Pairwise (fun a b => a.1 < b.1) := by
  induction l using duplicateName.induct with
  | case1 x y rest heq =>
    rw [duplicateName, if_pos heq]
    simp only [reduceCtorEq, false_iff]
    intro hlt
    exact absurd heq (ne_of_lt ((List.pairwise_cons.mp hlt).1 y (by simp)))
  | case2 x y rest hne ih =>
    obtain ⟨hx, hy⟩ := List.pairwise_cons.mp h
    rw [duplicateName, if_neg hne, ih hy]
    constructor
    · intro hlt
      refine List.pairwise_cons.mpr ⟨fun z hz => ?_, hlt⟩
      have hxy : x.1 < y.1 := lt_of_le_of_ne (hx y (by simp)) hne
      rcases List.mem_cons.mp hz with rfl | hz
      · exact hxy
      · exact hxy.trans ((List.pairwise_cons.mp hlt).1 z hz)
    · exact fun hlt => (List.pairwise_cons.mp hlt).2
  | case3 l hl =>
    match l, hl with
    | [], _ => simp [duplicateName]
    | [x], _ => simp [duplicateName]
    | x :: y :: rest, hl => exact absurd rfl (hl x y rest)

theorem sorted_le (balances : List (String × U128)) :
    (balances.insertionSort (fun a b => a.1 ≤ b.1)).Pairwise (fun a b => a.1 ≤ b.1) :=
  haveI : Std.Total fun a b : String × U128 => a.1 ≤ b.1 := ⟨fun a b => le_total a.1 b.1⟩
  haveI : IsTrans (String × U128) fun a b => a.1 ≤ b.1 := ⟨fun _ _ _ => le_trans⟩
  List.pairwise_insertionSort _ _

theorem sorted_ascending_iff (balances : List (String × U128)) :
    (balances.insertionSort (fun a b => a.1 ≤ b.1)).Pairwise (fun a b => a.1 < b.1) ↔
      (balances.map Prod.fst).Nodup := by
  have hperm := List.perm_insertionSort (fun a b : String × U128 => a.1 ≤ b.1) balances
  rw [← (hperm.map Prod.fst).nodup_iff, List.Nodup, List.pairwise_map]
  constructor
  · exact fun hlt => hlt.imp ne_of_lt
  · exact fun hne => ((sorted_le balances).and hne).imp fun h => lt_of_le_of_ne h.1 h.2

/-- A balance set has a canonical text when its names are distinct, and the text is that of the
    map the set amounts to. -/
theorem canonicalBalances_eq_ok {balances : List (String × U128)} {c : String} :
    canonicalBalances balances = .ok c ↔
      (balances.map Prod.fst).Nodup ∧ c = sumsCanonical (ofList balances) := by
  have hperm := List.perm_insertionSort (fun a b : String × U128 => a.1 ≤ b.1) balances
  have hnone := (duplicateName_eq_none (sorted_le balances)).trans (sorted_ascending_iff balances)
  have hmap (hnodup : (balances.map Prod.fst).Nodup) :
      balances.insertionSort (fun a b => a.1 ≤ b.1) = (ofList balances).entries := by
    have hasc := (sorted_ascending_iff balances).mpr hnodup
    have heq : (⟨_, hasc⟩ : AmountMap) = ofList balances := by
      apply ext_get?
      intro k
      ext v
      rw [get?_eq_some, get?_ofList hnodup]
      exact hperm.mem_iff
    exact congrArg SortedMap.entries heq
  rw [canonicalBalances]
  cases hd : duplicateName (balances.insertionSort (fun a b => a.1 ≤ b.1)) with
  | none =>
    have hnodup := hnone.mp hd
    simp only [Except.ok.injEq, hnodup, true_and, hmap hnodup, sumsCanonical, eq_comm]
  | some asset =>
    have hnot : ¬ (balances.map Prod.fst).Nodup := fun h => by simp [hnone.mpr h] at hd
    simp [hnot]

theorem insertUnique_eq_ok {m n : AmountMap} {e : String × U128} :
    insertUnique m e = .ok n ↔ (True ∧ m.get? e.1 = none) ∧ n = m.insert e.1 e.2 := by
  unfold insertUnique
  cases hget : m.get? e.1 with
  | none => simp [eq_comm]
  | some v => simp

theorem insertUnique_fold {l : List (String × U128)} (h : (l.map Prod.fst).Nodup) :
    l.foldlM insertUnique empty = .ok (ofList l) :=
  (foldlM_fresh fun m e n => (insertUnique_eq_ok : insertUnique m e = .ok n ↔ _)).mpr
    ⟨fun _ _ => ⟨trivial, rfl⟩, h, rfl⟩

/-- A leaf exists for a balance set with distinct names, and carries the set as its sums. -/
theorem leafNode_eq_ok {salt : Bytes 32} {userId : String} {balances : List (String × U128)}
    {n : Node} : leafNode sha256 salt userId balances = .ok n ↔
      (balances.map Prod.fst).Nodup ∧
        n = ⟨sha256 (leafPreimage sha256 salt userId (sumsCanonical (ofList balances))),
          ofList balances⟩ := by
  simp only [leafNode, leafHash, bind_eq_ok, pure_eq_ok, canonicalBalances_eq_ok]
  constructor
  · rintro ⟨hash, ⟨c, ⟨hnodup, rfl⟩, rfl⟩, sums, hsums, rfl⟩
    rw [insertUnique_fold hnodup] at hsums
    cases hsums
    exact ⟨hnodup, rfl⟩
  · rintro ⟨hnodup, rfl⟩
    exact ⟨_, ⟨_, ⟨hnodup, rfl⟩, rfl⟩, _, insertUnique_fold hnodup, rfl⟩

theorem leafNode_entries (salt : Bytes 32) (userId : String) (m : AmountMap) :
    leafNode sha256 salt userId m.entries =
      .ok ⟨sha256 (leafPreimage sha256 salt userId (sumsCanonical m)), m⟩ := by
  rw [leafNode_eq_ok, ofList_entries]
  exact ⟨m.keys_nodup, rfl⟩

/-! ## Leaves over several named maps -/

abbrev Maps := SortedMap String AmountMap

def isSafeChar (c : Char) : Bool := c.isAlphanum || c = '.' || c = '_' || c = '-'

/-- Names allowed in a leaf over maps: not empty, and free of every delimiter. -/
def isSafeName (name : String) : Bool := name ≠ "" ∧ name.toList.all isSafeChar

def qualified (mapName asset : String) : String := mapName ++ "/" ++ asset

/-- `count ‖ (lp(map) ‖ lpmap(amounts))*`. -/
def lpmaps (maps : Maps) : List UInt8 :=
  u64le maps.entries.length ++ maps.entries.flatMap fun m => lp m.1 ++ lpmap m.2

def leafPreimageV2 (salt : Bytes 32) (subjectId : String) (maps : Maps) : List UInt8 :=
  preimage leafDomainV2 salt (sha256 (utf8 subjectId)) (lpmaps maps)

/-- `H(domain ‖ salt ‖ H(subject_id) ‖ count ‖ (lp(map) ‖ lpmap(amounts))*)`. -/
def leafHashV2 (salt : Bytes 32) (subjectId : String) (maps : Maps) :
    Except MerkleError Digest := do
  forM maps.entries fun m => do
    ensure (isSafeName m.1) (.unsafeMapName m.1)
    forM m.2.keys fun asset => ensure (isSafeName asset) (.unsafeAssetName asset)
  return sha256 (leafPreimageV2 sha256 salt subjectId maps)

def flatten (maps : Maps) : AmountMap :=
  ofList (maps.entries.flatMap fun m => m.2.entries.map fun e => (qualified m.1 e.1, e.2))

def leafNodeV2 (salt : Bytes 32) (subjectId : String) (maps : Maps) : Except MerkleError Node := do
  let hash ← leafHashV2 sha256 salt subjectId maps
  return ⟨hash, flatten maps⟩

def SafeMaps (maps : Maps) : Prop :=
  ∀ m ∈ maps.entries, isSafeName m.1 = true ∧ ∀ a ∈ m.2.keys, isSafeName a = true

theorem leafNodeV2_eq_ok {salt : Bytes 32} {subjectId : String} {maps : Maps} {n : Node} :
    leafNodeV2 sha256 salt subjectId maps = .ok n ↔
      SafeMaps maps ∧ n = ⟨sha256 (leafPreimageV2 sha256 salt subjectId maps), flatten maps⟩ := by
  simp only [leafNodeV2, leafHashV2, bind_eq_ok, pure_eq_ok, forM_eq_ok, ensure_eq_ok, SafeMaps]
  constructor
  · rintro ⟨hash, ⟨_, hsafe, rfl⟩, rfl⟩
    exact ⟨fun m hm => (hsafe m hm).choose_spec, rfl⟩
  · rintro ⟨hsafe, rfl⟩
    exact ⟨_, ⟨(), fun m hm => ⟨(), hsafe m hm⟩, rfl⟩, rfl⟩

theorem safe_not_mem {name : String} (h : isSafeName name = true) {c : Char}
    (hc : isSafeChar c = false) : c ∉ name.toList := by
  intro hmem
  simp only [isSafeName, decide_eq_true_eq] at h
  have hsafe := List.all_eq_true.mp h.2 c hmem
  simp [hc] at hsafe

theorem qualified_toList (m a : String) :
    (qualified m a).toList = m.toList ++ '/' :: a.toList := by
  rw [qualified, String.toList_append, String.toList_append, List.append_assoc]
  rfl

theorem qualified_plain {mapName asset : String} (hmap : isSafeName mapName = true)
    (hasset : isSafeName asset = true) : '|' ∉ (qualified mapName asset).toList := by
  rw [qualified_toList, List.mem_append, List.mem_cons, not_or, not_or]
  exact ⟨safe_not_mem hmap (by decide), by decide, safe_not_mem hasset (by decide)⟩

theorem qualified_inj {m a m' a' : String} (h : isSafeName m = true) (h' : isSafeName m' = true)
    (heq : qualified m a = qualified m' a') : m = m' ∧ a = a' := by
  have hsplit := congrArg (fun s => splitOnce '/' s.toList) heq
  simp only [qualified_toList] at hsplit
  rw [splitOnce_append (safe_not_mem h (by decide)), splitOnce_append (safe_not_mem h' (by decide)),
    Option.some.injEq, Prod.mk.injEq, String.toList_inj, String.toList_inj] at hsplit
  exact hsplit

theorem flatten_nodup {maps : Maps} (h : SafeMaps maps) :
    ((maps.entries.flatMap fun m => m.2.entries.map fun e => (qualified m.1 e.1, e.2)).map
      Prod.fst).Nodup := by
  rw [List.map_flatMap, List.nodup_flatMap]
  constructor
  · intro m hm
    rw [List.map_map]
    refine List.Nodup.of_map (fun s => splitOnce '/' s.toList) ?_
    rw [List.map_map]
    have hkeys : (m.2.entries.map fun e => some (m.1.toList, e.1.toList)).Nodup := by
      have hmap : (m.2.keys.map fun a => some (m.1.toList, a.toList)).Nodup :=
        m.2.keys_nodup.map fun a b hab => by
          rw [Option.some.injEq, Prod.mk.injEq] at hab
          exact String.toList_inj.mp hab.2
      rwa [keys, List.map_map] at hmap
    convert hkeys using 1
    refine List.map_congr_left fun e _ => ?_
    simp only [Function.comp, qualified_toList]
    exact splitOnce_append (safe_not_mem (h m hm).1 (by decide))
  · have hne := List.pairwise_map.mp maps.keys_nodup
    refine hne.imp_of_mem fun {m n} hm hn hmn => ?_
    simp only [Function.onFun, List.map_map, List.disjoint_left, List.mem_map, Function.comp]
    rintro k ⟨e, _, rfl⟩ ⟨f, _, hf⟩
    exact hmn (qualified_inj (h n hn).1 (h m hm).1 hf).1.symm

theorem flatten_get? {maps : Maps} (h : SafeMaps maps) {k : String} {v : U128} :
    (flatten maps).get? k = some v ↔ ∃ name amounts asset, (name, amounts) ∈ maps.entries ∧
      (asset, v) ∈ amounts.entries ∧ k = qualified name asset := by
  rw [flatten, get?_ofList (flatten_nodup h)]
  simp only [List.mem_flatMap, List.mem_map, Prod.mk.injEq, Prod.exists]
  constructor
  · rintro ⟨name, amounts, hm, asset, w, he, rfl, rfl⟩
    exact ⟨name, amounts, asset, hm, he, rfl⟩
  · rintro ⟨name, amounts, asset, hm, he, rfl⟩
    exact ⟨name, amounts, hm, asset, v, he, rfl, rfl⟩

theorem flatten_plain {maps : Maps} (h : SafeMaps maps) {k : String} (hk : k ∈ (flatten maps).keys) :
    '|' ∉ k.toList := by
  obtain ⟨v, hv⟩ := Option.isSome_iff_exists.mp (mem_keys.mp hk)
  obtain ⟨name, amounts, asset, hm, he, rfl⟩ := (flatten_get? h).mp hv
  exact qualified_plain (h _ hm).1 ((h _ hm).2 asset (List.mem_map_of_mem he))

def ShortMaps (maps : Maps) : Prop :=
  maps.entries.length < 256 ^ 8 ∧ ∀ m ∈ maps.entries, Short m.1 ∧ ShortMap m.2

instance (maps : Maps) : Decidable (ShortMaps maps) := inferInstanceAs (Decidable (_ ∧ _))

theorem framed_lpmaps : Framed ShortMaps lpmaps :=
  (framed_u64le.counted (framed_lp.pair framed_lpmap)).comp
    ShortMaps SortedMap.entries (fun _ hm => hm) fun _ _ _ _ => ext_entries

/-! ## Combining two nodes -/

def nodePreimage (left right : Digest) (sums : AmountMap) : List UInt8 :=
  preimage nodeDomain left right (utf8 (sumsCanonical sums))

def combine (left right : Node) : Except MerkleError Node := do
  let sums ← addSums .sumOverflow left.sums right.sums
  return ⟨sha256 (nodePreimage left.hash right.hash sums), sums⟩

variable {sha256}

theorem combine_eq_ok {l r n : Node} : combine sha256 l r = .ok n ↔
    addSums MerkleError.sumOverflow l.sums r.sums = .ok n.sums ∧
      n.hash = sha256 (nodePreimage l.hash r.hash n.sums) := by
  simp only [combine, bind_eq_ok, pure_eq_ok]
  constructor
  · rintro ⟨sums, hsums, rfl⟩
    exact ⟨hsums, rfl⟩
  · rintro ⟨hsums, hhash⟩
    exact ⟨n.sums, hsums, by rw [← hhash]⟩

theorem combine_amount {l r n : Node} (h : combine sha256 l r = .ok n) :
    amount n.sums = amount l.sums + amount r.sums :=
  funext fun a => addSums_amount (combine_eq_ok.mp h).1 a

theorem combine_keys {l r n : Node} (h : combine sha256 l r = .ok n) (a : String) :
    a ∈ n.sums.keys ↔ a ∈ l.sums.keys ∨ a ∈ r.sums.keys :=
  addSums_keys (combine_eq_ok.mp h).1 a

theorem combine_total {l r : Node} (h : ∀ a, amount l.sums a + amount r.sums a < 2 ^ 128) :
    ∃ n, combine sha256 l r = .ok n := by
  obtain ⟨sums, hsums⟩ := addSums_total MerkleError.sumOverflow h
  exact ⟨⟨sha256 (nodePreimage l.hash r.hash sums), sums⟩, combine_eq_ok.mpr ⟨hsums, rfl⟩⟩

end AssuranceLayer.Merkle
