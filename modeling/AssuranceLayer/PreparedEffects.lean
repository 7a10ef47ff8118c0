import AssuranceLayer.EffectWalk

set_option autoImplicit false

/-!
What the effects of a prepared transaction list and count: every node once, at a depth that its
references explain.
-/
namespace AssuranceLayer.Prepared
open SortedMap DamlValue DepthFirst

def DamlNode.type (n : DamlNode) : Option NodeType := n.versionedNode.bind Node.nodeType

/-- One node has another among its children. -/
def Refers (tx : DamlTransaction) (a b : String) : Prop :=
  ∃ n ∈ tx.nodes, n.nodeId = a ∧ ∃ t, n.type = some t ∧ b ∈ t.children

theorem mem_byId_of_type {tx : DamlTransaction} {nodeId : String} {t : NodeType}
    (h : typeIn (byId tx.nodes) nodeId = some t) :
    nodeId ∈ (byId tx.nodes).keys := by
  obtain ⟨v1, hv, _⟩ := Option.bind_eq_some_iff.mp h
  exact mem_keys.mpr (Option.isSome_iff_exists.mpr ⟨v1, hv⟩)

section
variable {tx : DamlTransaction} (hdistinct : (tx.nodes.map DamlNode.nodeId).Nodup)
include hdistinct

theorem get?_byId {nodeId : String} {v1 : Node} : (byId tx.nodes).get? nodeId = some v1 ↔
    ∃ n ∈ tx.nodes, n.nodeId = nodeId ∧ n.versionedNode = some v1 := by
  have hkeys : ((tx.nodes.filterMap fun n => n.versionedNode.map fun v1 => (n.nodeId, v1)).map Prod.fst).Nodup := by
    have hsub : ((tx.nodes.filterMap fun n => n.versionedNode.map fun v1 => (n.nodeId, v1)).map Prod.fst).Sublist
        (tx.nodes.map DamlNode.nodeId) := by
      induction tx.nodes with
      | nil => exact List.Sublist.slnil
      | cons n ns ih =>
        rw [List.filterMap_cons]
        cases n.versionedNode with
        | none => exact ih.cons _
        | some v1 => exact ih.cons_cons _
    exact hsub.nodup hdistinct
  rw [byId, get?_ofList hkeys]
  simp only [List.mem_filterMap, Option.map_eq_some_iff, Prod.mk.injEq]
  constructor
  · rintro ⟨n, hn, v, hv, rfl, rfl⟩
    exact ⟨n, hn, rfl, hv⟩
  · rintro ⟨n, hn, rfl, hv⟩
    exact ⟨n, hn, v1, hv, rfl, rfl⟩

theorem typeIn_eq_some {nodeId : String} {t : NodeType} : typeIn (byId tx.nodes) nodeId = some t ↔
    ∃ n ∈ tx.nodes, n.nodeId = nodeId ∧ n.type = some t := by
  simp only [typeIn, Option.bind_eq_some_iff, get?_byId hdistinct, DamlNode.type]
  constructor
  · rintro ⟨v1, ⟨n, hn, hid, hv⟩, ht⟩
    exact ⟨n, hn, hid, v1, hv, ht⟩
  · rintro ⟨n, hn, hid, v1, hv, ht⟩
    exact ⟨v1, ⟨n, hn, hid, hv⟩, ht⟩

theorem refersTo_iff {a b : String} : RefersTo (following (byId tx.nodes)) a b ↔
    Refers tx a b ∧ b ∈ (byId tx.nodes).keys := by
  rw [RefersTo, following, Refers]
  cases htype : typeIn (byId tx.nodes) a with
  | none =>
    simp only [List.not_mem_nil, false_iff, not_and]
    rintro ⟨n, hn, hid, t, ht, _⟩
    rw [(typeIn_eq_some hdistinct).mpr ⟨n, hn, hid, ht⟩] at htype
    cases htype
  | some t =>
    obtain ⟨n, hn, hid, ht⟩ := (typeIn_eq_some hdistinct).mp htype
    simp only [List.mem_filter, decide_eq_true_eq]
    refine and_congr_left fun _ => ⟨fun hb => ⟨n, hn, hid, t, ht, hb⟩, ?_⟩
    rintro ⟨n', hn', hid', t', ht', hb⟩
    have htype' := (typeIn_eq_some hdistinct).mpr ⟨n', hn', hid', ht'⟩
    rw [htype] at htype'
    rwa [Option.some.inj htype']

/-- On the way to a node that has a type every node has one. -/
theorem reaches_iff {r k : String} (hk : k ∈ (byId tx.nodes).keys) :
    Relation.ReflTransGen (RefersTo (following (byId tx.nodes))) r k ↔ Relation.ReflTransGen (Refers tx) r k := by
  constructor
  · exact Relation.ReflTransGen.mono (fun _ _ hab => ((refersTo_iff hdistinct).mp hab).1) _ _
  · intro h
    induction h with
    | refl => exact .refl
    | tail _ hstep ih =>
      have hstep' := hstep
      obtain ⟨n, hn, hid, t, ht, _⟩ := hstep'
      exact (ih (mem_byId_of_type ((typeIn_eq_some hdistinct).mpr ⟨n, hn, hid, ht⟩))).tail
        ((refersTo_iff hdistinct).mpr ⟨hstep, hk⟩)

end

/-- Met before its own turn: from a start before its first place among the starts it can be reached. -/
def ReachedEarlier (tx : DamlTransaction) (nodeId : String) : Prop :=
  ∃ pre post, starts tx = pre ++ nodeId :: post ∧ nodeId ∉ pre ∧
    ∃ r ∈ pre, Relation.ReflTransGen (Refers tx) r nodeId

/-- Every typed node once and nothing else, counted by kind, and at depths that follow the walk. -/
structure FaithfulListing (chrono : Chrono) (includeArguments : Bool) (tx : DamlTransaction)
    (effects : Effects) : Prop where
  each : (effects.nodes.map EffectNode.nodeId).Perm
    ((tx.nodes.filter fun n => n.type.isSome).map DamlNode.nodeId)
  own : ∀ e ∈ effects.nodes, ∃ n ∈ tx.nodes, ∃ t, n.type = some t ∧
    e = effectOf chrono includeArguments n.nodeId e.depth t
  tally : Tally effects.nodes effects.counts
  depths : ∀ before e after, effects.nodes = before ++ e :: after →
    (ReachedEarlier tx e.nodeId → ∃ p ∈ before, Refers tx p.nodeId e.nodeId ∧ e.depth = p.depth + 1) ∧
    (¬ ReachedEarlier tx e.nodeId → e.depth = 0)

section
variable {chrono : Chrono} {includeArguments : Bool} {tx : DamlTransaction} {log : Log String}
  (hlog : Explores (following (byId tx.nodes)) (starts tx) 0 [] log)

theorem listedAs_eq_some {nodes : ById} {entry : String × ℕ} {e : EffectNode} :
    listedAs chrono includeArguments nodes entry = some e ↔
      ∃ t, typeIn nodes entry.1 = some t ∧ effectOf chrono includeArguments entry.1 entry.2 t = e :=
  Option.map_eq_some_iff

theorem listedAs_nodeId {nodes : ById} {entry : String × ℕ} {e : EffectNode}
    (h : listedAs chrono includeArguments nodes entry = some e) : e.nodeId = entry.1 ∧ e.depth = entry.2 := by
  obtain ⟨t, _, rfl⟩ := listedAs_eq_some.mp h
  exact ⟨effectOf_nodeId .., effectOf_depth ..⟩

theorem listed_ids_sublist (nodes : ById) (log : Log String) :
    ((log.filterMap (listedAs chrono includeArguments nodes)).map EffectNode.nodeId).Sublist (met log) := by
  induction log with
  | nil => exact List.Sublist.slnil
  | cons entry log ih =>
    rw [List.filterMap_cons]
    cases hlisted : listedAs chrono includeArguments nodes entry with
    | none => exact ih.cons _
    | some e =>
      rw [List.map_cons, (listedAs_nodeId hlisted).1]
      exact ih.cons_cons _

theorem listed_own (hdistinct : (tx.nodes.map DamlNode.nodeId).Nodup) {e : EffectNode}
    (he : e ∈ log.filterMap (listedAs chrono includeArguments (byId tx.nodes))) :
    ∃ n ∈ tx.nodes, ∃ t, n.type = some t ∧ e = effectOf chrono includeArguments n.nodeId e.depth t := by
  obtain ⟨entry, _, hlisted⟩ := List.mem_filterMap.mp he
  obtain ⟨t, ht, rfl⟩ := listedAs_eq_some.mp hlisted
  obtain ⟨n, hn, hid, htype⟩ := (typeIn_eq_some hdistinct).mp ht
  exact ⟨n, hn, t, htype, by rw [effectOf_depth, hid]⟩

include hlog

theorem exists_entry {n : DamlNode} (hn : n ∈ tx.nodes) : ∃ entry ∈ log, entry.1 = n.nodeId :=
  List.mem_map.mp (hlog.subset (List.mem_append_right _ (List.mem_map_of_mem hn)))

variable (hdistinct : (tx.nodes.map DamlNode.nodeId).Nodup)
include hdistinct

theorem listed_ids_perm : ((log.filterMap (listedAs chrono includeArguments (byId tx.nodes))).map
    EffectNode.nodeId).Perm ((tx.nodes.filter fun n => n.type.isSome).map DamlNode.nodeId) := by
  refine (List.perm_ext_iff_of_nodup ?_ ?_).mpr fun nodeId => ?_
  · exact (listed_ids_sublist _ _).nodup (hlog.nodup List.nodup_nil)
  · exact (List.filter_sublist.map _).nodup hdistinct
  · simp only [List.mem_map, List.mem_filterMap, List.mem_filter, listedAs_eq_some]
    constructor
    · rintro ⟨_, ⟨entry, _, t, ht, rfl⟩, rfl⟩
      obtain ⟨n, hn, hid, htype⟩ := (typeIn_eq_some hdistinct).mp ht
      exact ⟨n, ⟨hn, by rw [htype]; rfl⟩, by rw [hid, effectOf_nodeId]⟩
    · rintro ⟨n, ⟨hn, htyped⟩, rfl⟩
      obtain ⟨t, ht⟩ := Option.isSome_iff_exists.mp htyped
      obtain ⟨entry, hentry, hid⟩ := exists_entry hlog hn
      exact ⟨_, ⟨entry, hentry, t, (typeIn_eq_some hdistinct).mpr ⟨n, hn, hid.symm, ht⟩, rfl⟩,
        by rw [effectOf_nodeId, hid]⟩

/-- The depth of a listed node, and where it comes from. -/
theorem listed_depth {before after : List EffectNode} {e : EffectNode}
    (h : log.filterMap (listedAs chrono includeArguments (byId tx.nodes)) = before ++ e :: after) :
    (ReachedEarlier tx e.nodeId → ∃ p ∈ before, Refers tx p.nodeId e.nodeId ∧ e.depth = p.depth + 1) ∧
    (¬ ReachedEarlier tx e.nodeId → e.depth = 0) := by
  obtain ⟨first, rest, rfl, hfirst, hrest⟩ := List.filterMap_eq_append_iff.mp h
  obtain ⟨gap, entry, last, rfl, hgap, hentry, hlast⟩ := List.filterMap_eq_cons_iff.mp hrest
  obtain ⟨hid, hdepth⟩ := listedAs_nodeId hentry
  obtain ⟨t, ht, _⟩ := listedAs_eq_some.mp hentry
  obtain ⟨n, hn, hnid, _⟩ := (typeIn_eq_some hdistinct).mp ht
  have hkey := mem_byId_of_type ht
  have hsplit : first ++ (gap ++ entry :: last) = (first ++ gap) ++ (entry.1, entry.2) :: last := by
    rw [List.append_assoc]
  rw [ReachedEarlier, hid, hdepth]
  constructor
  · rintro ⟨pre, post, hstarts, hnew, r, hr, hpath⟩
    rw [hstarts] at hlog
    obtain ⟨p, hp, hrefers, hd⟩ := (hlog.depth_eq hnew hsplit).1 ⟨r, hr, (reaches_iff hdistinct hkey).mpr hpath⟩
    have hrefers' := ((refersTo_iff hdistinct).mp hrefers).1
    obtain ⟨m, hm, hmid, t', ht', _⟩ := id hrefers'
    have hlisted : listedAs chrono includeArguments (byId tx.nodes) p = some _ :=
      listedAs_eq_some.mpr ⟨t', (typeIn_eq_some hdistinct).mpr ⟨m, hm, hmid, ht'⟩, rfl⟩
    obtain hp | hp := List.mem_append.mp hp
    · refine ⟨_, hfirst ▸ List.mem_filterMap.mpr ⟨p, hp, hlisted⟩, ?_, ?_⟩
      · rw [effectOf_nodeId]
        exact hrefers'
      · rw [effectOf_depth, hd]
    · rw [hgap p hp] at hlisted
      cases hlisted
  · intro hnot
    have hmem : entry.1 ∈ starts tx := hnid ▸ List.mem_append_right _ (List.mem_map_of_mem hn)
    obtain ⟨pre, post, hstarts, hnew⟩ := List.eq_append_cons_of_mem hmem
    rw [hstarts] at hlog
    refine (hlog.depth_eq hnew hsplit).2 ?_
    rintro ⟨r, hr, hpath⟩
    exact hnot ⟨pre, post, hstarts, hnew, r, hr, (reaches_iff hdistinct hkey).mp hpath⟩

theorem stateOf_listing (effects : Effects)
    (hnodes : effects.nodes = (stateOf chrono includeArguments (byId tx.nodes) log).out)
    (hcounts : effects.counts = (stateOf chrono includeArguments (byId tx.nodes) log).counts) :
    FaithfulListing chrono includeArguments tx effects where
  each := by
    rw [hnodes, stateOf_out]
    exact listed_ids_perm hlog hdistinct
  own := by
    rw [hnodes, stateOf_out]
    exact fun e he => listed_own hdistinct he
  tally := by
    rw [hnodes, hcounts]
    exact stateOf_tally chrono includeArguments (byId tx.nodes) log
  depths := by
    rw [hnodes, stateOf_out]
    exact fun before e after h => listed_depth hlog hdistinct h

end

section
variable (chrono : Chrono) (includeArguments : Bool) (base64Decode : String → Option (List UInt8))

/-- The effects of a transaction are one listing, for whatever fuel its nodes ask for. -/
theorem effectsOf_returns {prepared : PreparedTransaction} {tx : DamlTransaction}
    (htx : prepared.transaction = some tx) (size : ℕ) (hash scheme : String) : ∃ log effects,
      Explores (following (byId tx.nodes)) (starts tx) 0 [] log ∧
      (∀ fuel, tx.nodes.length + 1 < fuel →
        effectsOf chrono includeArguments base64Decode fuel prepared size hash scheme = some (.ok effects)) ∧
      effects.nodes = (stateOf chrono includeArguments (byId tx.nodes) log).out ∧
      effects.counts = (stateOf chrono includeArguments (byId tx.nodes) log).counts ∧
      ∀ ic ∈ effects.inputContracts, ic.consumed = true ↔
        ic.contractId ∈ (stateOf chrono includeArguments (byId tx.nodes) log).consumed.keys := by
  obtain ⟨log, hlog, hreturns⟩ := walkAll_returns chrono includeArguments tx
  have hone : ∃ effects, effectsOf chrono includeArguments base64Decode (tx.nodes.length + 2) prepared size hash
      scheme = some (.ok effects) ∧ effects.nodes = (stateOf chrono includeArguments (byId tx.nodes) log).out ∧
      effects.counts = (stateOf chrono includeArguments (byId tx.nodes) log).counts ∧
      ∀ ic ∈ effects.inputContracts, ic.consumed = true ↔
        ic.contractId ∈ (stateOf chrono includeArguments (byId tx.nodes) log).consumed.keys := by
    rw [effectsOf, htx]
    simp only [hreturns (tx.nodes.length + 2) (by omega)]
    refine ⟨_, rfl, rfl, rfl, fun ic hic => ?_⟩
    obtain ⟨input, _, rfl⟩ := List.mem_map.mp hic
    exact decide_eq_true_iff
  obtain ⟨effects, heffects, hrest⟩ := hone
  refine ⟨log, effects, hlog, fun fuel hfuel => ?_, hrest⟩
  rw [← heffects, effectsOf, effectsOf, htx]
  simp only [hreturns fuel hfuel, hreturns (tx.nodes.length + 2) (by omega)]

/-- For distinct node ids the walk ends, with a faithful listing. -/
theorem effects_listing {prepared : PreparedTransaction} {tx : DamlTransaction}
    (htx : prepared.transaction = some tx) (hdistinct : (tx.nodes.map DamlNode.nodeId).Nodup)
    (size : ℕ) (hash scheme : String) : ∃ effects, (∀ fuel, tx.nodes.length + 1 < fuel →
        effectsOf chrono includeArguments base64Decode fuel prepared size hash scheme = some (.ok effects)) ∧
      FaithfulListing chrono includeArguments tx effects := by
  obtain ⟨log, effects, hlog, hreturns, hnodes, hcounts, _⟩ :=
    effectsOf_returns chrono includeArguments base64Decode htx size hash scheme
  exact ⟨effects, hreturns, stateOf_listing hlog hdistinct effects hnodes hcounts⟩

end

/-- A calendar for transactions that hold no time. -/
def noCalendar : Chrono := ⟨fun _ => none, fun _ => none⟩

def sampleCreate : Create := ⟨"00a", "wallet", none, none, ["alice"], ["alice"]⟩

def sampleExercise (children : List String) : Exercise :=
  ⟨"00b", "wallet", none, ["alice"], ["alice"], ["alice"], none, "Transfer", none, true, children, none, []⟩

/-- A create under an exercise that are met in the other order. -/
def orphans : DamlTransaction :=
  ⟨"2", [], [⟨"1", some ⟨some (.create sampleCreate)⟩⟩, ⟨"2", some ⟨some (.exercise (sampleExercise ["1"]))⟩⟩]⟩

theorem effects_listing_orphans : ∃ effects, (∀ fuel, orphans.nodes.length + 1 < fuel →
      effectsOf noCalendar true (fun _ => some []) fuel ⟨some orphans, none⟩ 0 "" "V2" = some (.ok effects)) ∧
    FaithfulListing noCalendar true orphans effects :=
  effects_listing noCalendar true (fun _ => some []) rfl (by decide) 0 "" "V2"

/-- Every listed child of a listed node after a listed parent and one deeper, and all others at depth 0. -/
def AfterParents (tx : DamlTransaction) (listed : List EffectNode) : Prop :=
  ∀ before e after, listed = before ++ e :: after →
    ((∃ p ∈ listed, Refers tx p.nodeId e.nodeId) →
      ∃ p ∈ before, Refers tx p.nodeId e.nodeId ∧ e.depth = p.depth + 1) ∧
    ((¬ ∃ p ∈ listed, Refers tx p.nodeId e.nodeId) → e.depth = 0)

theorem orphan_before_parent : (orphans.nodes.map DamlNode.nodeId).Nodup ∧ ∃ effects,
    effectsOf noCalendar true (fun _ => some []) 4 ⟨some orphans, none⟩ 0 "" "V2" = some (.ok effects) ∧
    ¬ AfterParents orphans effects.nodes := by
  refine ⟨by decide, _, rfl, fun h => ?_⟩
  obtain ⟨hparent, _⟩ := h [] _ _ rfl
  obtain ⟨_, hbefore, _⟩ := hparent ⟨_, List.mem_cons_of_mem _ List.mem_cons_self, _,
    List.mem_cons_of_mem _ List.mem_cons_self, rfl, _, rfl, List.mem_cons_self⟩
  cases hbefore

end AssuranceLayer.Prepared
