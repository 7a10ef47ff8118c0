import Mathlib.Data.Finset.Card
import Mathlib.Data.List.Nodup
import Mathlib.Logic.Relation

set_option autoImplicit false

/-!
Depth-first exploration of a graph given by what each node refers to, from several starts in turn.
A node is met once, whatever refers to it, and the log keeps the order of meeting and the depths.
-/
namespace AssuranceLayer.DepthFirst

abbrev Log (κ : Type) := List (κ × ℕ)

def met {κ : Type} (log : Log κ) : List κ := log.map Prod.fst

section
variable {κ : Type} [DecidableEq κ] (next : κ → List κ)

/-- One visit, which has not returned when the fuel is spent. -/
def visit : ℕ → κ → ℕ → Log κ → Option (Log κ)
  | 0, _, _, _ => none
  | fuel + 1, k, depth, log =>
    if k ∈ met log then some log
    else (next k).foldlM (fun log c => visit fuel c (depth + 1) log) (log ++ [(k, depth)])

def visitAll (fuel : ℕ) (starts : List κ) (log : Log κ) : Option (Log κ) :=
  starts.foldlM (fun log k => visit next fuel k 0 log) log

end

/-! ## Exploring a list of nodes, without fuel -/

/-- From one log to another by exploring nodes at a depth, one after the other. -/
inductive Explores {κ : Type} (next : κ → List κ) : List κ → ℕ → Log κ → Log κ → Prop
  | done (depth : ℕ) (log : Log κ) : Explores next [] depth log log
  | seen {k : κ} {ks : List κ} {depth : ℕ} {log log' : Log κ} (h : k ∈ met log)
      (rest : Explores next ks depth log log') : Explores next (k :: ks) depth log log'
  | fresh {k : κ} {ks : List κ} {depth : ℕ} {log mid log' : Log κ} (h : k ∉ met log)
      (under : Explores next (next k) (depth + 1) (log ++ [(k, depth)]) mid)
      (rest : Explores next ks depth mid log') : Explores next (k :: ks) depth log log'

section
variable {κ : Type} {next : κ → List κ} {ks : List κ} {depth : ℕ} {log log' : Log κ}

@[simp] theorem met_append (log log' : Log κ) : met (log ++ log') = met log ++ met log' := List.map_append

@[simp] theorem met_singleton (k : κ) (depth : ℕ) : met [(k, depth)] = [k] := rfl

theorem mem_met_append_self {log : Log κ} {k : κ} {depth : ℕ} : k ∈ met (log ++ [(k, depth)]) := by simp

/-- What has been met stays, in its place. -/
theorem Explores.isPrefix (h : Explores next ks depth log log') : log <+: log' := by
  induction h with
  | done => exact List.prefix_refl _
  | seen _ _ ih => exact ih
  | fresh _ _ _ ihUnder ihRest => exact (List.prefix_append _ _).trans (ihUnder.trans ihRest)

theorem Explores.met_subset (h : Explores next ks depth log log') : met log ⊆ met log' :=
  List.map_subset _ h.isPrefix.subset

theorem Explores.nodup (h : Explores next ks depth log log') (hlog : (met log).Nodup) : (met log').Nodup := by
  induction h with
  | done => exact hlog
  | seen _ _ ih => exact ih hlog
  | fresh hnew _ _ ihUnder ihRest =>
    refine ihRest (ihUnder ?_)
    rw [met_append, met_singleton]
    exact List.nodup_append_comm.mp (List.nodup_cons.mpr ⟨hnew, hlog⟩)

theorem Explores.subset (h : Explores next ks depth log log') : ks ⊆ met log' := by
  induction h with
  | done => exact List.nil_subset _
  | seen hseen rest ih => exact List.cons_subset.mpr ⟨rest.met_subset hseen, ih⟩
  | fresh _ under rest _ ihRest =>
    exact List.cons_subset.mpr ⟨rest.met_subset (under.met_subset mem_met_append_self), ihRest⟩

/-- Everything a newly met node refers to has been met in the end. -/
theorem Explores.closed (h : Explores next ks depth log log') {k : κ} (hk : k ∈ met log') :
    k ∈ met log ∨ next k ⊆ met log' := by
  induction h with
  | done => exact .inl hk
  | seen _ _ ih => exact ih hk
  | fresh _ under rest ihUnder ihRest =>
    obtain hmid | hclosed := ihRest hk
    · obtain hstart | hclosed := ihUnder hmid
      · rw [met_append, met_singleton, List.mem_append, List.mem_singleton] at hstart
        obtain hlog | rfl := hstart
        · exact .inl hlog
        · exact .inr (List.Subset.trans under.subset rest.met_subset)
      · exact .inr (List.Subset.trans hclosed rest.met_subset)
    · exact .inr hclosed

/-- One node refers to another. -/
def RefersTo (next : κ → List κ) (a b : κ) : Prop := b ∈ next a

theorem Explores.reachable (h : Explores next ks depth log log') {k : κ} (hk : k ∈ met log') :
    k ∈ met log ∨ ∃ r ∈ ks, Relation.ReflTransGen (RefersTo next) r k := by
  induction h with
  | done => exact .inl hk
  | seen _ _ ih =>
    obtain hlog | ⟨r, hr, hpath⟩ := ih hk
    · exact .inl hlog
    · exact .inr ⟨r, List.mem_cons_of_mem _ hr, hpath⟩
  | @fresh j _ _ _ _ _ _ _ _ ihUnder ihRest =>
    obtain hmid | ⟨r, hr, hpath⟩ := ihRest hk
    · obtain hstart | ⟨r, hr, hpath⟩ := ihUnder hmid
      · rw [met_append, met_singleton, List.mem_append, List.mem_singleton] at hstart
        obtain hlog | rfl := hstart
        · exact .inl hlog
        · exact .inr ⟨k, List.mem_cons_self, .refl⟩
      · exact .inr ⟨j, List.mem_cons_self, .head hr hpath⟩
    · exact .inr ⟨r, List.mem_cons_of_mem _ hr, hpath⟩

theorem isPrefix_or_split {α : Type} {l l' pre post : List α} {x : α} (h : l <+: l')
    (hsplit : l' = pre ++ x :: post) : l <+: pre ∨ ∃ post', l = pre ++ x :: post' := by
  have hpre : pre ++ [x] <+: l' := ⟨post, by rw [hsplit, List.append_assoc]; rfl⟩
  obtain hle | hge := List.prefix_or_prefix_of_prefix h hpre
  · obtain rfl | hle := List.prefix_concat_iff.mp hle
    · exact .inr ⟨[], rfl⟩
    · exact .inl hle
  · obtain ⟨post', rfl⟩ := hge
    exact .inr ⟨post', by rw [List.append_assoc]; rfl⟩

/-- A newly met node is one of those explored, at their depth, or stands behind one that refers to it,
    one deeper. -/
theorem Explores.parent (h : Explores next ks depth log log') {pre post : Log κ} {k : κ} {d : ℕ}
    (hsplit : log' = pre ++ (k, d) :: post) (hnew : log <+: pre) :
    (k ∈ ks ∧ d = depth) ∨ ∃ p ∈ pre, RefersTo next p.1 k ∧ d = p.2 + 1 := by
  induction h generalizing pre post with
  | done depth log =>
    rw [hsplit] at hnew
    exact absurd hnew.length_le (by simp)
  | seen _ _ ih => exact (ih hsplit hnew).imp_left fun hk => ⟨List.mem_cons_of_mem _ hk.1, hk.2⟩
  | @fresh j ks depth log mid log' _ under rest ihUnder ihRest =>
    obtain hmid | ⟨post', hsplit'⟩ := isPrefix_or_split rest.isPrefix hsplit
    · exact (ihRest hsplit hmid).imp_left fun hk => ⟨List.mem_cons_of_mem _ hk.1, hk.2⟩
    · obtain hstart | ⟨post'', hstart⟩ := isPrefix_or_split under.isPrefix hsplit'
      · obtain ⟨hk, rfl⟩ | hparent := ihUnder hsplit' hstart
        · exact .inr ⟨(j, depth), hstart.subset (by simp), hk, rfl⟩
        · exact .inr hparent
      · -- The entry is that of the node explored here.
        have hlen := congrArg List.length hstart
        have hle := hnew.length_le
        simp only [List.length_append, List.length_cons, List.length_nil] at hlen
        have hentry := (List.append_inj hstart (by omega)).2
        simp only [List.cons.injEq, Prod.mk.injEq] at hentry
        exact .inl ⟨hentry.1.1 ▸ List.mem_cons_self, hentry.1.2.symm⟩

theorem Explores.append {ks' : List κ} : Explores next (ks ++ ks') depth log log' ↔
    ∃ mid, Explores next ks depth log mid ∧ Explores next ks' depth mid log' := by
  constructor
  · intro h
    induction ks generalizing log with
    | nil => exact ⟨log, .done depth log, h⟩
    | cons k ks ih =>
      cases h with
      | seen hseen rest =>
        obtain ⟨mid, hfirst, hsecond⟩ := ih rest
        exact ⟨mid, .seen hseen hfirst, hsecond⟩
      | fresh hnew under rest =>
        obtain ⟨mid, hfirst, hsecond⟩ := ih rest
        exact ⟨mid, .fresh hnew under hfirst, hsecond⟩
  · rintro ⟨mid, hfirst, hsecond⟩
    induction hfirst with
    | done => exact hsecond
    | seen hseen _ ih => exact .seen hseen (ih hsecond)
    | fresh hnew under _ _ ih => exact .fresh hnew under (ih hsecond)

theorem Explores.unique {log'' : Log κ} (h : Explores next ks depth log log')
    (h' : Explores next ks depth log log'') : log' = log'' := by
  induction h generalizing log'' with
  | done => cases h'; rfl
  | seen hseen _ ih =>
    cases h' with
    | seen _ rest => exact ih rest
    | fresh hnew _ _ => exact absurd hseen hnew
  | fresh hnew _ _ ihUnder ihRest =>
    cases h' with
    | seen hseen _ => exact absurd hseen hnew
    | fresh _ under rest =>
      obtain rfl := ihUnder under
      exact ihRest rest

/-! ## From nothing met -/

/-- What has been met is what the starts reach. -/
theorem Explores.mem_met_iff (h : Explores next ks depth [] log') {k : κ} :
    k ∈ met log' ↔ ∃ r ∈ ks, Relation.ReflTransGen (RefersTo next) r k := by
  constructor
  · intro hk
    exact (h.reachable hk).resolve_left List.not_mem_nil
  · rintro ⟨r, hr, hpath⟩
    induction hpath with
    | refl => exact h.subset hr
    | tail _ hstep ih => exact (h.closed ih).resolve_left List.not_mem_nil hstep

/-- A node reached from before its own place among the starts stands behind a node that refers to it,
    one deeper; any other stands at the depth of the starts. -/
theorem Explores.depth_eq {pre post : List κ} {k : κ} {d : ℕ} {before after : Log κ}
    (h : Explores next (pre ++ k :: post) depth [] log') (hfirst : k ∉ pre)
    (hsplit : log' = before ++ (k, d) :: after) :
    ((∃ r ∈ pre, Relation.ReflTransGen (RefersTo next) r k) →
      ∃ p ∈ before, RefersTo next p.1 k ∧ d = p.2 + 1) ∧
    ((¬ ∃ r ∈ pre, Relation.ReflTransGen (RefersTo next) r k) → d = depth) := by
  obtain ⟨mid, hpre, hrest⟩ := Explores.append.mp h
  rw [← hpre.mem_met_iff]
  -- Met once, the node has no other entry before this one.
  have honce : k ∉ met before := by
    have hnodup := h.nodup List.nodup_nil
    rw [hsplit, met_append] at hnodup
    exact List.disjoint_right.mp (List.disjoint_of_nodup_append hnodup) List.mem_cons_self
  constructor
  · intro hmet
    obtain hmid | ⟨post', hmid⟩ := isPrefix_or_split hrest.isPrefix hsplit
    · exact absurd (List.map_subset _ hmid.subset hmet) honce
    · exact (hpre.parent hmid List.nil_prefix).resolve_left fun hk => hfirst hk.1
  · intro hunmet
    cases hrest with
    | seen hseen _ => exact absurd hseen hunmet
    | fresh _ under rest =>
      obtain hstart | ⟨post', hstart⟩ :=
        isPrefix_or_split (under.isPrefix.trans rest.isPrefix) hsplit
      · exact absurd (List.map_subset _ hstart.subset mem_met_append_self) honce
      · have hmem : (k, d) ∈ mid ++ [(k, depth)] := hstart ▸ by simp
        obtain hmem | hmem := List.mem_append.mp hmem
        · exact absurd (List.mem_map_of_mem hmem) hunmet
        · exact (Prod.mk.inj (List.mem_singleton.mp hmem)).2

end

/-! ## Enough fuel -/

section
variable {κ : Type} [DecidableEq κ] {next : κ → List κ}

theorem visits_explores {fuel : ℕ} {k : κ} {depth : ℕ} {log log' : Log κ}
    (h : visit next fuel k depth log = some log') : Explores next [k] depth log log' := by
  induction fuel generalizing k depth log log' with
  | zero => cases h
  | succ fuel ih =>
    rw [visit] at h
    split_ifs at h with hmet
    · cases h
      exact .seen hmet (.done _ _)
    · refine .fresh hmet ?_ (.done _ _)
      generalize log ++ [(k, depth)] = start at h ⊢
      generalize next k = ks at h ⊢
      induction ks generalizing start with
      | nil => cases h; exact .done _ _
      | cons c cs ihCs =>
        obtain ⟨mid, hmid, hrest⟩ := Option.bind_eq_some_iff.mp h
        exact Explores.append.mpr ⟨mid, ih hmid, ihCs mid hrest⟩

theorem visitAll_explores {fuel : ℕ} {starts : List κ} {log log' : Log κ}
    (h : visitAll next fuel starts log = some log') : Explores next starts 0 log log' := by
  induction starts generalizing log with
  | nil => cases h; exact .done _ _
  | cons k starts ih =>
    obtain ⟨mid, hmid, hrest⟩ := Option.bind_eq_some_iff.mp h
    exact Explores.append.mpr ⟨mid, visits_explores hmid, ih hrest⟩

/-- How many of the nodes that may be referred to are still to be met. -/
def unmet (ids : Finset κ) (log : Log κ) : ℕ := (ids.filter (· ∉ met log)).card

theorem unmet_mono {ids : Finset κ} {log log' : Log κ} (h : met log ⊆ met log') :
    unmet ids log' ≤ unmet ids log :=
  Finset.card_le_card (Finset.monotone_filter_right _ fun _ _ hk hlog => hk (h hlog))

theorem unmet_fresh {ids : Finset κ} {log : Log κ} {k : κ} {depth : ℕ} (hk : k ∈ ids) (hnew : k ∉ met log) :
    unmet ids (log ++ [(k, depth)]) < unmet ids log := by
  refine Finset.card_lt_card ⟨Finset.monotone_filter_right _ fun _ _ hj hlog => hj (by simp [hlog]), fun hsub => ?_⟩
  have hmem := (Finset.mem_filter.mp (hsub (Finset.mem_filter.mpr ⟨hk, hnew⟩))).2
  exact hmem mem_met_append_self

/-- A list of visits returns when each of them does. -/
theorem visits_return {ids : Finset κ} {fuel depth : ℕ} (bound : ℕ) {ks : List κ} {log : Log κ}
    (hvisit : ∀ k ∈ ks, ∀ log, unmet ids log ≤ bound → ∃ log', visit next fuel k depth log = some log')
    (hlog : unmet ids log ≤ bound) :
    ∃ log', ks.foldlM (fun log k => visit next fuel k depth log) log = some log' := by
  induction ks generalizing log with
  | nil => exact ⟨log, rfl⟩
  | cons k ks ih =>
    obtain ⟨mid, hmid⟩ := hvisit k List.mem_cons_self log hlog
    obtain ⟨log', hlog'⟩ := ih (fun j hj => hvisit j (List.mem_cons_of_mem _ hj))
      ((unmet_mono (visits_explores hmid).met_subset).trans hlog)
    exact ⟨log', Option.bind_eq_some_iff.mpr ⟨mid, hmid, hlog'⟩⟩

theorem visit_returns {ids : Finset κ} (hids : ∀ k, ∀ c ∈ next k, c ∈ ids) {fuel : ℕ} {k : κ} (hk : k ∈ ids)
    {depth : ℕ} {log : Log κ} (hfuel : unmet ids log < fuel) : ∃ log', visit next fuel k depth log = some log' := by
  induction fuel generalizing k depth log with
  | zero => omega
  | succ fuel ih =>
    rw [visit]
    split_ifs with hmet
    · exact ⟨log, rfl⟩
    · have hless : unmet ids (log ++ [(k, depth)]) < unmet ids log := unmet_fresh hk hmet
      refine visits_return (unmet ids (log ++ [(k, depth)])) (fun c hc log' hlog' => ?_) le_rfl
      exact ih (hids k c hc) (by omega)

/-- Every exploration returns as soon as the fuel exceeds the nodes that may be referred to by two. -/
theorem visitAll_returns {ids : Finset κ} (hids : ∀ k, ∀ c ∈ next k, c ∈ ids) {fuel : ℕ}
    (hfuel : ids.card + 1 < fuel) (starts : List κ) : ∃ log', visitAll next fuel starts [] = some log' := by
  have hbound : ∀ log, unmet ids log ≤ ids.card := fun log => Finset.card_filter_le _ _
  refine visits_return _ (fun k _ log hlog => ?_) (hbound [])
  obtain ⟨fuel, rfl⟩ : ∃ n, fuel = n + 1 := ⟨fuel - 1, by omega⟩
  rw [visit]
  split_ifs
  · exact ⟨log, rfl⟩
  · refine visits_return _ (fun c hc log' hlog' => visit_returns hids (hids k c hc) ?_) (hbound _)
    omega

/-- More fuel changes nothing. -/
theorem visitAll_fuel {fuel fuel' : ℕ} {starts : List κ} {log log' log'' : Log κ}
    (h : visitAll next fuel starts log = some log') (h' : visitAll next fuel' starts log = some log'') :
    log' = log'' :=
  (visitAll_explores h).unique (visitAll_explores h')

end

end AssuranceLayer.DepthFirst
