import AssuranceLayer.Prepared

set_option autoImplicit false

/-!
The walk over a prepared transaction keeps a log of the nodes met, and everything it accumulates is
read off that log.
-/
namespace AssuranceLayer.Prepared
open SortedMap DamlValue DepthFirst

/-! ## The walk as a depth-first exploration -/

def typeIn (nodes : ById) (nodeId : String) : Option NodeType := (nodes.get? nodeId).bind Node.nodeType

/-- The children a walk goes on to, which are nodes of the transaction. -/
def following (nodes : ById) (nodeId : String) : List String :=
  match typeIn nodes nodeId with
  | none => []
  | some n => n.children.filter (· ∈ nodes.keys)

section
variable (chrono : Chrono) (includeArguments : Bool) (nodes : ById)

/-- What meeting a node does. -/
def WalkState.meet (s : WalkState) (nodeId : String) (depth : ℕ) : WalkState :=
  match typeIn nodes nodeId with
  | none => s.visit nodeId
  | some n => (s.visit nodeId).record chrono includeArguments nodeId depth n

def stateOf (log : Log String) : WalkState :=
  log.foldl (fun s e => s.meet chrono includeArguments nodes e.1 e.2) .initial

theorem stateOf_concat (log : Log String) (e : String × ℕ) :
    stateOf chrono includeArguments nodes (log ++ [e]) =
      (stateOf chrono includeArguments nodes log).meet chrono includeArguments nodes e.1 e.2 := by
  rw [stateOf, List.foldl_append]
  rfl

theorem meet_visited (s : WalkState) (nodeId : String) (depth : ℕ) :
    (s.meet chrono includeArguments nodes nodeId depth).visited = s.visited.insert nodeId () := by
  rw [WalkState.meet]
  split <;> rfl

theorem mem_visited {log : Log String} {nodeId : String} :
    nodeId ∈ (stateOf chrono includeArguments nodes log).visited.keys ↔ nodeId ∈ met log := by
  induction log using List.reverseRecOn with
  | nil => exact Iff.rfl
  | append_singleton log e ih =>
    rw [stateOf_concat, meet_visited, mem_keys_insert, ih, met_append, met_singleton, List.mem_append,
      List.mem_singleton, or_comm]

/-- A loop of visits over the nodes that are to be visited. -/
theorem foldlM_stateOf {α : Type} {step : WalkState → α → Option WalkState} {node : α → Option String}
    {fuel depth : ℕ}
    (hnone : ∀ log a, node a = none → step (stateOf chrono includeArguments nodes log) a =
      some (stateOf chrono includeArguments nodes log))
    (hsome : ∀ log a k, node a = some k → step (stateOf chrono includeArguments nodes log) a =
      (visit (following nodes) fuel k depth log).map (stateOf chrono includeArguments nodes))
    (l : List α) (log : Log String) : l.foldlM step (stateOf chrono includeArguments nodes log) =
      ((l.filterMap node).foldlM (fun log k => visit (following nodes) fuel k depth log) log).map
        (stateOf chrono includeArguments nodes) := by
  induction l generalizing log with
  | nil => rfl
  | cons a l ih =>
    rw [List.foldlM_cons, List.filterMap_cons]
    cases hnode : node a with
    | none =>
      rw [hnone log a hnode]
      exact ih log
    | some k =>
      rw [hsome log a k hnode, List.foldlM_cons]
      cases visit (following nodes) fuel k depth log with
      | none => rfl
      | some log' => exact ih log'

theorem walk_stateOf (fuel : ℕ) (nodeId : String) (depth : ℕ) (log : Log String) :
    walk chrono includeArguments nodes fuel nodeId depth (stateOf chrono includeArguments nodes log) =
      (visit (following nodes) fuel nodeId depth log).map (stateOf chrono includeArguments nodes) := by
  induction fuel generalizing nodeId depth log with
  | zero => rfl
  | succ fuel ih =>
    by_cases hmet : nodeId ∈ met log
    · rw [walk, visit, if_pos hmet, if_pos ((mem_visited chrono includeArguments nodes).mpr hmet)]
      rfl
    · rw [walk, visit, if_neg hmet, if_neg (mt (mem_visited chrono includeArguments nodes).mp hmet), following]
      have hmeet := stateOf_concat chrono includeArguments nodes log (nodeId, depth)
      rw [WalkState.meet] at hmeet
      simp only [← typeIn.eq_def nodes nodeId]
      cases htype : typeIn nodes nodeId with
      | none =>
        rw [htype] at hmeet
        exact congrArg some hmeet.symm
      | some n =>
        rw [htype] at hmeet
        simp only [← List.filterMap_eq_filter] at hmeet ⊢
        rw [← hmeet]
        refine foldlM_stateOf chrono includeArguments nodes (fun log child h => ?_) (fun log child k h => ?_) _ _
        · rw [if_neg (by simpa using h)]
        · obtain ⟨rfl, hmem⟩ := Option.guard_eq_some_iff.mp h
          rw [if_pos (of_decide_eq_true hmem)]
          exact ih child (depth + 1) log

end

/-- Where walks start: the roots, then every node in the order of the file. -/
def starts (tx : DamlTransaction) : List String := tx.roots ++ tx.nodes.map DamlNode.nodeId

section
variable (chrono : Chrono) (includeArguments : Bool)

theorem walkAll_stateOf (fuel : ℕ) (tx : DamlTransaction) :
    walkAll chrono includeArguments (fuel + 1) tx =
      (visitAll (following (byId tx.nodes)) (fuel + 1) (starts tx) []).map
        (stateOf chrono includeArguments (byId tx.nodes)) := by
  have hroots : tx.roots.foldlM (fun s root => walk chrono includeArguments (byId tx.nodes) (fuel + 1) root 0 s)
      .initial = (visitAll (following (byId tx.nodes)) (fuel + 1) tx.roots []).map
        (stateOf chrono includeArguments (byId tx.nodes)) := by
    rw [visitAll]
    conv_rhs => rw [← List.filterMap_some (l := tx.roots)]
    refine foldlM_stateOf chrono includeArguments (byId tx.nodes) (fun log root h => ?_) (fun log root k h => ?_)
      tx.roots []
    · exact absurd h (Option.some_ne_none _)
    · rw [← Option.some.inj h]
      exact walk_stateOf chrono includeArguments _ (fuel + 1) root 0 log
  have hnodes : ∀ log, tx.nodes.foldlM
      (fun s n => if n.nodeId ∈ s.visited.keys then some s
        else walk chrono includeArguments (byId tx.nodes) (fuel + 1) n.nodeId 0 s)
      (stateOf chrono includeArguments (byId tx.nodes) log) =
        (visitAll (following (byId tx.nodes)) (fuel + 1) (tx.nodes.map DamlNode.nodeId) log).map
          (stateOf chrono includeArguments (byId tx.nodes)) := by
    intro log
    have hmap : tx.nodes.map DamlNode.nodeId = tx.nodes.filterMap fun n => some n.nodeId := by
      rw [List.filterMap_eq_map']
    rw [hmap]
    refine foldlM_stateOf chrono includeArguments (byId tx.nodes) (fun _ _ h => absurd h (Option.some_ne_none _))
      (fun log n k h => ?_) tx.nodes log
    obtain rfl := Option.some.inj h
    split_ifs with hvisited
    · rw [visit, if_pos ((mem_visited chrono includeArguments _).mp hvisited)]
      rfl
    · exact walk_stateOf chrono includeArguments _ (fuel + 1) n.nodeId 0 log
  have happend : visitAll (following (byId tx.nodes)) (fuel + 1) (starts tx) [] =
      (visitAll (following (byId tx.nodes)) (fuel + 1) tx.roots []).bind
        (visitAll (following (byId tx.nodes)) (fuel + 1) (tx.nodes.map DamlNode.nodeId)) := List.foldlM_append
  rw [walkAll, hroots, happend]
  cases visitAll (following (byId tx.nodes)) (fuel + 1) tx.roots [] with
  | none => rfl
  | some log => exact hnodes log

/-! ## Enough fuel -/

theorem following_mem {nodes : ById} {a b : String} (h : b ∈ following nodes a) : b ∈ nodes.keys := by
  rw [following] at h
  split at h
  · cases h
  · exact of_decide_eq_true (List.mem_filter.mp h).2

theorem byId_keys_length (nodes : List DamlNode) : (byId nodes).keys.toFinset.card ≤ nodes.length := by
  have hsub : (byId nodes).keys.toFinset ⊆ (nodes.map DamlNode.nodeId).toFinset := by
    intro k hk
    rw [List.mem_toFinset, byId, keys_ofList, List.map_filterMap, List.mem_filterMap] at hk
    obtain ⟨n, hn, hk⟩ := hk
    simp only [Option.map_map, Option.map_eq_some_iff, Function.comp] at hk
    obtain ⟨_, _, rfl⟩ := hk
    exact List.mem_toFinset.mpr (List.mem_map_of_mem hn)
  refine (Finset.card_le_card hsub).trans ((List.toFinset_card_le _).trans_eq ?_)
  exact List.length_map _

theorem walkAll_returns (tx : DamlTransaction) : ∃ log,
    Explores (following (byId tx.nodes)) (starts tx) 0 [] log ∧ ∀ fuel, tx.nodes.length + 1 < fuel →
      walkAll chrono includeArguments fuel tx = some (stateOf chrono includeArguments (byId tx.nodes) log) := by
  have hids : ∀ a, ∀ b ∈ following (byId tx.nodes) a, b ∈ (byId tx.nodes).keys.toFinset :=
    fun a b hb => List.mem_toFinset.mpr (following_mem hb)
  have hcard := byId_keys_length tx.nodes
  have hreturns : ∀ fuel, tx.nodes.length + 1 < fuel →
      ∃ log, visitAll (following (byId tx.nodes)) fuel (starts tx) [] = some log :=
    fun fuel hfuel => visitAll_returns hids (by omega) (starts tx)
  obtain ⟨log, hlog⟩ := hreturns (tx.nodes.length + 2) (by omega)
  refine ⟨log, visitAll_explores hlog, fun fuel hfuel => ?_⟩
  obtain ⟨log', hlog'⟩ := hreturns fuel hfuel
  obtain ⟨fuel, rfl⟩ : ∃ n, fuel = n + 1 := ⟨fuel - 1, by omega⟩
  rw [walkAll_stateOf, hlog', visitAll_fuel hlog hlog']
  rfl

end

/-! ## What the log says -/

section
variable (chrono : Chrono) (includeArguments : Bool) (nodes : ById)

/-- The listed form of an entry of the log. -/
def listedAs (e : String × ℕ) : Option EffectNode :=
  (typeIn nodes e.1).map (effectOf chrono includeArguments e.1 e.2)

theorem stateOf_out (log : Log String) :
    (stateOf chrono includeArguments nodes log).out = log.filterMap (listedAs chrono includeArguments nodes) := by
  induction log using List.reverseRecOn with
  | nil => rfl
  | append_singleton log e ih =>
    rw [stateOf_concat, List.filterMap_append, ← ih, WalkState.meet, List.filterMap_cons, listedAs]
    cases typeIn nodes e.1 with
    | none => simp [WalkState.visit]
    | some n => rfl

/-- The counters are the numbers of listed nodes of each kind. -/
structure Tally (listed : List EffectNode) (counts : EffectCounts) : Prop where
  creates : counts.creates = listed.countP fun e => e.kind = .create
  archives : counts.archives = listed.countP fun e => e.consuming = some true
  exercises : counts.exercises = listed.countP fun e => e.kind = .exercise
  fetches : counts.fetches = listed.countP fun e => e.kind = .fetch
  rollbacks : counts.rollbacks = listed.countP fun e => e.kind = .rollback

theorem Tally.add {listed : List EffectNode} {counts : EffectCounts} (h : Tally listed counts)
    (nodeId : String) (depth : ℕ) (n : NodeType) :
    Tally (listed ++ [effectOf chrono includeArguments nodeId depth n]) (counts.add n) := by
  constructor <;> rw [List.countP_append, List.countP_singleton]
  · rw [← h.creates]
    cases n <;> rfl
  · rw [← h.archives]
    cases n with
    | exercise e => cases he : e.consuming <;> simp [EffectCounts.add, effectOf, he]
    | _ => rfl
  · rw [← h.exercises]
    cases n <;> rfl
  · rw [← h.fetches]
    cases n <;> rfl
  · rw [← h.rollbacks]
    cases n <;> rfl

theorem stateOf_tally (log : Log String) : Tally (stateOf chrono includeArguments nodes log).out
    (stateOf chrono includeArguments nodes log).counts := by
  induction log using List.reverseRecOn with
  | nil => exact ⟨rfl, rfl, rfl, rfl, rfl⟩
  | append_singleton log e ih =>
    rw [stateOf_concat, WalkState.meet]
    cases typeIn nodes e.1 with
    | none => exact ih
    | some n => exact ih.add chrono includeArguments e.1 e.2 n

theorem mem_extend {set : SortedSet} {names : List String} {name : String} :
    name ∈ (SortedSet.extend set names).keys ↔ name ∈ set.keys ∨ name ∈ names := by
  induction names generalizing set with
  | nil => simp [SortedSet.extend]
  | cons first names ih =>
    rw [SortedSet.extend, List.foldl_cons, ← SortedSet.extend, ih, mem_keys_insert, List.mem_cons]
    tauto

/-- A contract is consumed when a node that has been met archives it. -/
theorem mem_consumed {log : Log String} {cid : String} :
    cid ∈ (stateOf chrono includeArguments nodes log).consumed.keys ↔
      ∃ e ∈ log, ∃ n, typeIn nodes e.1 = some n ∧ n.archives = some cid := by
  induction log using List.reverseRecOn with
  | nil =>
    simp only [List.not_mem_nil, false_and, exists_false, iff_false]
    exact List.not_mem_nil
  | append_singleton log e ih =>
    have hstep : cid ∈ ((stateOf chrono includeArguments nodes log).meet chrono includeArguments nodes e.1
        e.2).consumed.keys ↔ cid ∈ (stateOf chrono includeArguments nodes log).consumed.keys ∨
          ∃ n, typeIn nodes e.1 = some n ∧ n.archives = some cid := by
      rw [WalkState.meet]
      cases typeIn nodes e.1 with
      | none => simp [WalkState.visit]
      | some n => simp [WalkState.record, WalkState.visit, mem_extend]
    simp only [stateOf_concat, hstep, ih, List.mem_append, List.mem_singleton, or_and_right, exists_or,
      exists_eq_left]

theorem effectOf_nodeId (nodeId : String) (depth : ℕ) (n : NodeType) :
    (effectOf chrono includeArguments nodeId depth n).nodeId = nodeId := by
  cases n <;> rfl

theorem effectOf_depth (nodeId : String) (depth : ℕ) (n : NodeType) :
    (effectOf chrono includeArguments nodeId depth n).depth = depth := by
  cases n <;> rfl

end
end AssuranceLayer.Prepared
