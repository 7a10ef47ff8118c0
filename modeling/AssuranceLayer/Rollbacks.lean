import AssuranceLayer.PreparedEffects

set_option autoImplicit false

/-!
What a rollback undoes, and what the effects of a transaction with rollbacks report all the same.
-/
namespace AssuranceLayer.Prepared
open SortedMap DamlValue DepthFirst

def NodeType.isCreate : NodeType → Bool
  | .create _ => true
  | _ => false

def NodeType.isArchive : NodeType → Bool
  | .exercise e => e.consuming
  | _ => false

/-- Under a rollback, at whatever depth. -/
def RolledBack (tx : DamlTransaction) (nodeId : String) : Prop :=
  ∃ n ∈ tx.nodes, (∃ children, n.type = some (.rollback children)) ∧
    Relation.TransGen (Refers tx) n.nodeId nodeId

open Classical in
/-- How many nodes of a kind are under no rollback. -/
noncomputable def surviving (tx : DamlTransaction) (kind : NodeType → Bool) : ℕ :=
  tx.nodes.countP fun n => n.type.any kind ∧ ¬ RolledBack tx n.nodeId

/-- What the effects are to report of what would be committed. -/
structure ReportsCommitted (tx : DamlTransaction) (effects : Effects) : Prop where
  creates : effects.counts.creates = surviving tx NodeType.isCreate
  archives : effects.counts.archives = surviving tx NodeType.isArchive
  inputs : ∀ ic ∈ effects.inputContracts, ic.consumed = true ↔
    ∃ n ∈ tx.nodes, (∃ t, n.type = some t ∧ t.archives = some ic.contractId) ∧ ¬ RolledBack tx n.nodeId
  shown : ∀ e ∈ effects.nodes, e.kind = .create ∨ e.consuming = some true → ¬ RolledBack tx e.nodeId

/-- No create and no archive has a rollback over it. -/
def NothingUndone (tx : DamlTransaction) : Prop :=
  ∀ n ∈ tx.nodes, n.type.any NodeType.isCreate ∨ n.type.any NodeType.isArchive → ¬ RolledBack tx n.nodeId

/-- Every node once, as a root or as a child, and under a root. -/
structure FormsForest (tx : DamlTransaction) : Prop where
  distinct : (tx.nodes.map DamlNode.nodeId).Nodup
  once : (tx.roots ++ tx.nodes.flatMap fun n => (n.type.map NodeType.children).getD []).Perm
    (tx.nodes.map DamlNode.nodeId)
  under : ∀ n ∈ tx.nodes, ∃ r ∈ tx.roots, Relation.ReflTransGen (Refers tx) r n.nodeId

section
variable (chrono : Chrono) (includeArguments : Bool)

theorem effectOf_kind (nodeId : String) (depth : ℕ) (t : NodeType) :
    (effectOf chrono includeArguments nodeId depth t).kind = .create ↔ t.isCreate = true := by
  cases t <;> simp [effectOf, NodeType.isCreate]

theorem effectOf_consuming (nodeId : String) (depth : ℕ) (t : NodeType) :
    (effectOf chrono includeArguments nodeId depth t).consuming = some true ↔ t.isArchive = true := by
  cases t <;> simp [effectOf, NodeType.isArchive]

theorem isArchive_of_archives {t : NodeType} {cid : String} (h : t.archives = some cid) : t.isArchive = true := by
  cases t with
  | exercise e =>
    rw [NodeType.archives] at h
    split at h
    · assumption
    · cases h
  | _ => cases h

end

section
variable {chrono : Chrono} {includeArguments : Bool} {tx : DamlTransaction} {effects : Effects}
  (hdistinct : (tx.nodes.map DamlNode.nodeId).Nodup)
  (hlisting : FaithfulListing chrono includeArguments tx effects)
include hdistinct hlisting

/-- The listed nodes of a kind are as many as the transaction has. -/
theorem listed_count {kind : NodeType → Bool} {shown : EffectNode → Bool}
    (hshown : ∀ nodeId depth t, shown (effectOf chrono includeArguments nodeId depth t) = kind t) :
    effects.nodes.countP shown = tx.nodes.countP fun n => n.type.any kind := by
  have htype : ∀ n ∈ tx.nodes, typeIn (byId tx.nodes) n.nodeId = n.type := by
    intro n hn
    refine Option.ext fun t => (typeIn_eq_some hdistinct).trans ⟨?_, fun ht => ⟨n, hn, rfl, ht⟩⟩
    rintro ⟨m, hm, hid, ht⟩
    rwa [List.inj_on_of_nodup_map hdistinct hm hn hid] at ht
  have hlisted : ∀ e ∈ effects.nodes, shown e = (typeIn (byId tx.nodes) e.nodeId).any kind := by
    intro e he
    obtain ⟨n, hn, t, ht, heq⟩ := hlisting.own e he
    rw [heq, hshown, effectOf_nodeId, htype n hn, ht]
    rfl
  calc effects.nodes.countP shown
      = (effects.nodes.map EffectNode.nodeId).countP fun id => (typeIn (byId tx.nodes) id).any kind := by
        rw [List.countP_map]
        exact List.countP_congr fun e he => by rw [hlisted e he]; rfl
    _ = ((tx.nodes.filter fun n => n.type.isSome).map DamlNode.nodeId).countP fun id =>
          (typeIn (byId tx.nodes) id).any kind := hlisting.each.countP_eq _
    _ = tx.nodes.countP fun n => n.type.any kind := by
        rw [List.countP_map, List.countP_filter]
        refine List.countP_congr fun n hn => ?_
        rw [Function.comp_apply, htype n hn]
        cases n.type <;> simp

theorem exists_listed {n : DamlNode} (hn : n ∈ tx.nodes) {t : NodeType} (ht : n.type = some t) :
    ∃ e ∈ effects.nodes, ∃ depth, e = effectOf chrono includeArguments n.nodeId depth t := by
  have hid : n.nodeId ∈ effects.nodes.map EffectNode.nodeId :=
    hlisting.each.mem_iff.mpr (List.mem_map_of_mem (List.mem_filter.mpr ⟨hn, by rw [ht]; rfl⟩))
  obtain ⟨e, he, heid⟩ := List.mem_map.mp hid
  obtain ⟨m, hm, t', ht', heq⟩ := hlisting.own e he
  rw [heq, effectOf_nodeId] at heid
  obtain rfl := List.inj_on_of_nodup_map hdistinct hm hn heid
  obtain rfl := Option.some.inj (ht'.symm.trans ht)
  exact ⟨e, he, e.depth, heq⟩

theorem nothingUndone_of_shown
    (hshown : ∀ e ∈ effects.nodes, e.kind = .create ∨ e.consuming = some true → ¬ RolledBack tx e.nodeId) :
    NothingUndone tx := by
  intro n hn hkind
  cases ht : n.type with
  | none =>
    rw [ht] at hkind
    simp at hkind
  | some t =>
    obtain ⟨e, he, depth, rfl⟩ := exists_listed hdistinct hlisting hn ht
    have h := hshown _ he
    rw [effectOf_kind, effectOf_consuming, effectOf_nodeId] at h
    rw [ht] at hkind
    exact h hkind

/-- Report and transaction agree on a counter as far as no rollback takes a node of its kind away. -/
theorem listed_surviving {kind : NodeType → Bool} {shown : EffectNode → Bool}
    (hshown : ∀ nodeId depth t, shown (effectOf chrono includeArguments nodeId depth t) = true ↔ kind t = true)
    (hkept : ∀ n ∈ tx.nodes, n.type.any kind → ¬ RolledBack tx n.nodeId) :
    effects.nodes.countP shown = surviving tx kind := by
  rw [listed_count hdistinct hlisting fun nodeId depth t => Bool.eq_iff_iff.mpr (hshown nodeId depth t), surviving]
  refine List.countP_congr fun n hn => ?_
  simp only [decide_eq_true_eq]
  exact ⟨fun h => ⟨h, hkept n hn h⟩, And.left⟩

/-- The effects report what would be committed exactly when no rollback undoes a create or an archive. -/
theorem reportsCommitted_iff (hinputs : ∀ ic ∈ effects.inputContracts, ic.consumed = true ↔
      ∃ n ∈ tx.nodes, ∃ t, n.type = some t ∧ t.archives = some ic.contractId) :
    ReportsCommitted tx effects ↔ NothingUndone tx := by
  refine ⟨fun h => nothingUndone_of_shown hdistinct hlisting h.shown, fun h => ?_⟩
  constructor
  · rw [hlisting.tally.creates]
    refine listed_surviving hdistinct hlisting (fun nodeId depth t => ?_) fun n hn hkind => h n hn (.inl hkind)
    rw [decide_eq_true_iff]
    exact effectOf_kind chrono includeArguments nodeId depth t
  · rw [hlisting.tally.archives]
    refine listed_surviving hdistinct hlisting (fun nodeId depth t => ?_) fun n hn hkind => h n hn (.inr hkind)
    rw [decide_eq_true_iff]
    exact effectOf_consuming chrono includeArguments nodeId depth t
  · intro ic hic
    rw [hinputs ic hic]
    refine exists_congr fun n => and_congr_right fun hn => (and_iff_left_of_imp ?_).symm
    rintro ⟨t, ht, harchives⟩
    refine h n hn (.inr ?_)
    rw [ht]
    exact isArchive_of_archives harchives
  · intro e he hkind
    obtain ⟨n, hn, t, ht, heq⟩ := hlisting.own e he
    rw [heq, effectOf_kind, effectOf_consuming] at hkind
    rw [heq, effectOf_nodeId]
    refine h n hn ?_
    rw [ht]
    exact hkind

end

/-- A contract is consumed when some node of the transaction archives it. -/
theorem consumed_iff {chrono : Chrono} {includeArguments : Bool} {tx : DamlTransaction}
    (hdistinct : (tx.nodes.map DamlNode.nodeId).Nodup) {log : Log String}
    (hlog : Explores (following (byId tx.nodes)) (starts tx) 0 [] log) {cid : String} :
    cid ∈ (stateOf chrono includeArguments (byId tx.nodes) log).consumed.keys ↔
      ∃ n ∈ tx.nodes, ∃ t, n.type = some t ∧ t.archives = some cid := by
  rw [mem_consumed]
  constructor
  · rintro ⟨entry, _, t, htype, harchives⟩
    obtain ⟨n, hn, _, ht⟩ := (typeIn_eq_some hdistinct).mp htype
    exact ⟨n, hn, t, ht, harchives⟩
  · rintro ⟨n, hn, t, ht, harchives⟩
    obtain ⟨entry, hentry, hid⟩ := exists_entry hlog hn
    exact ⟨entry, hentry, t, (typeIn_eq_some hdistinct).mpr ⟨n, hn, hid.symm, ht⟩, harchives⟩

/-- The effects of a prepared transaction report what would be committed exactly when nothing is undone. -/
theorem effects_report_committed_iff (chrono : Chrono) (includeArguments : Bool)
    (base64Decode : String → Option (List UInt8)) {prepared : PreparedTransaction} {tx : DamlTransaction}
    (htx : prepared.transaction = some tx) (hdistinct : (tx.nodes.map DamlNode.nodeId).Nodup)
    (size : ℕ) (hash scheme : String) : ∃ effects, (∀ fuel, tx.nodes.length + 1 < fuel →
        effectsOf chrono includeArguments base64Decode fuel prepared size hash scheme = some (.ok effects)) ∧
      (ReportsCommitted tx effects ↔ NothingUndone tx) := by
  obtain ⟨log, effects, hlog, hreturns, hnodes, hcounts, hconsumed⟩ :=
    effectsOf_returns chrono includeArguments base64Decode htx size hash scheme
  have hlisting := stateOf_listing hlog hdistinct effects hnodes hcounts
  refine ⟨effects, hreturns, reportsCommitted_iff hdistinct hlisting fun ic hic => ?_⟩
  exact (hconsumed ic hic).trans (consumed_iff hdistinct hlog)

/-- A create under a rollback. -/
def undoneCreate : DamlTransaction :=
  ⟨"2", ["0"], [⟨"0", some ⟨some (.rollback ["1"])⟩⟩, ⟨"1", some ⟨some (.create sampleCreate)⟩⟩]⟩

theorem effects_report_committed_iff_undone : ∃ effects, (∀ fuel, undoneCreate.nodes.length + 1 < fuel →
      effectsOf noCalendar true (fun _ => some []) fuel ⟨some undoneCreate, none⟩ 0 "" "V2" =
        some (.ok effects)) ∧
    (ReportsCommitted undoneCreate effects ↔ NothingUndone undoneCreate) :=
  effects_report_committed_iff noCalendar true (fun _ => some []) rfl (by decide) 0 "" "V2"

theorem undoneCreate_refers : Refers undoneCreate "0" "1" :=
  ⟨_, List.mem_cons_self, rfl, _, rfl, List.mem_cons_self⟩

theorem undoneCreate_forest : FormsForest undoneCreate where
  distinct := by decide
  once := List.Perm.refl _
  under := by
    intro n hn
    refine ⟨"0", List.mem_cons_self, ?_⟩
    obtain rfl | hn := List.mem_cons.mp hn
    · exact .refl
    · obtain rfl := List.mem_singleton.mp hn
      exact .single undoneCreate_refers

theorem undone_create_counted : FormsForest undoneCreate ∧ ∃ effects,
    effectsOf noCalendar true (fun _ => some []) 4 ⟨some undoneCreate, none⟩ 0 "" "V2" = some (.ok effects) ∧
    effects.counts.creates = 1 ∧ surviving undoneCreate NodeType.isCreate = 0 ∧
    ¬ ReportsCommitted undoneCreate effects := by
  have hundone : RolledBack undoneCreate "1" :=
    ⟨_, List.mem_cons_self, ⟨_, rfl⟩, .single undoneCreate_refers⟩
  have hnone : surviving undoneCreate NodeType.isCreate = 0 := by
    rw [surviving, List.countP_eq_zero]
    intro n hn
    simp only [decide_eq_true_eq]
    rintro ⟨hcreate, hkept⟩
    obtain rfl | hn := List.mem_cons.mp hn
    · cases hcreate
    · obtain rfl := List.mem_singleton.mp hn
      exact hkept hundone
  refine ⟨undoneCreate_forest, _, rfl, rfl, hnone, fun h => ?_⟩
  have hcreates := h.creates
  rw [hnone] at hcreates
  cases hcreates

end AssuranceLayer.Prepared
