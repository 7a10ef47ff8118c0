import AssuranceLayer.Fallible

set_option autoImplicit false

/-!
Finite maps kept as their entries in strictly ascending key order, which is the order an ordered
tree map iterates in. The order is a field, so two maps with the same lookups are equal and a
rendering of the entries is a function of the map.
-/
namespace AssuranceLayer

structure SortedMap (κ ν : Type) [LinearOrder κ] where
  entries : List (κ × ν)
  ascending : entries.Pairwise (fun a b => a.1 < b.1)

namespace SortedMap
variable {κ ν : Type} [LinearOrder κ]

instance [DecidableEq ν] : DecidableEq (SortedMap κ ν) := fun m n =>
  decidable_of_iff (m.entries = n.entries) (by cases m; cases n; simp)

def empty : SortedMap κ ν := ⟨[], List.Pairwise.nil⟩

instance : Inhabited (SortedMap κ ν) := ⟨empty⟩

def keys (m : SortedMap κ ν) : List κ := m.entries.map Prod.fst

def isEmpty (m : SortedMap κ ν) : Bool := m.entries.isEmpty

def lookupEntries (k : κ) : List (κ × ν) → Option ν
  | [] => none
  | (k', v) :: rest => if k' = k then some v else lookupEntries k rest

def get? (m : SortedMap κ ν) (k : κ) : Option ν := lookupEntries k m.entries

def insertEntries (k : κ) (v : ν) : List (κ × ν) → List (κ × ν)
  | [] => [(k, v)]
  | (k', v') :: rest =>
    if k < k' then (k, v) :: (k', v') :: rest
    else if k = k' then (k, v) :: rest
    else (k', v') :: insertEntries k v rest

theorem mem_insertEntries {k : κ} {v : ν} {e : κ × ν} {l : List (κ × ν)}
    (h : e ∈ insertEntries k v l) : e = (k, v) ∨ e ∈ l := by
  induction l with
  | nil => simpa [insertEntries] using h
  | cons hd rest ih =>
    obtain ⟨k', v'⟩ := hd
    rw [insertEntries] at h
    split_ifs at h <;> grind

theorem insertEntries_ascending (k : κ) (v : ν) {l : List (κ × ν)}
    (h : l.Pairwise (fun a b => a.1 < b.1)) :
    (insertEntries k v l).Pairwise (fun a b => a.1 < b.1) := by
  induction l with
  | nil => simp [insertEntries]
  | cons hd rest ih =>
    obtain ⟨k', v'⟩ := hd
    obtain ⟨hhd, hrest⟩ := List.pairwise_cons.mp h
    rw [insertEntries]
    split_ifs with hlt heq
    · exact List.pairwise_cons.mpr ⟨fun e he => by
        rcases List.mem_cons.mp he with rfl | he
        · exact hlt
        · exact hlt.trans (hhd e he), h⟩
    · subst heq
      exact List.pairwise_cons.mpr ⟨hhd, hrest⟩
    · refine List.pairwise_cons.mpr ⟨fun e he => ?_, ih hrest⟩
      rcases mem_insertEntries he with rfl | he
      · exact lt_of_le_of_ne (not_lt.mp hlt) (Ne.symm heq)
      · exact hhd e he

def insert (m : SortedMap κ ν) (k : κ) (v : ν) : SortedMap κ ν :=
  ⟨insertEntries k v m.entries, insertEntries_ascending k v m.ascending⟩

def erase (m : SortedMap κ ν) (k : κ) : SortedMap κ ν :=
  ⟨m.entries.filter fun e => e.1 ≠ k, m.ascending.filter _⟩

/-- Collecting key-value pairs in order, later pairs replacing earlier ones. -/
def ofList (l : List (κ × ν)) : SortedMap κ ν := l.foldl (fun m e => m.insert e.1 e.2) empty

theorem ext_entries {m n : SortedMap κ ν} (h : m.entries = n.entries) : m = n := by
  cases m
  cases n
  simpa using h

@[simp] theorem get?_empty (k : κ) : (empty : SortedMap κ ν).get? k = none := rfl

theorem lookupEntries_insertEntries (k q : κ) (v : ν) (l : List (κ × ν)) :
    lookupEntries q (insertEntries k v l) = if k = q then some v else lookupEntries q l := by
  induction l with
  | nil => rfl
  | cons hd rest ih =>
    obtain ⟨k', v'⟩ := hd
    rw [insertEntries]
    by_cases hq : k = q
    · subst hq
      rw [if_pos rfl] at ih ⊢
      split_ifs with hlt heq
      · rw [lookupEntries, if_pos rfl]
      · rw [lookupEntries, if_pos rfl]
      · rw [lookupEntries, if_neg (Ne.symm heq), ih]
    · rw [if_neg hq] at ih ⊢
      split_ifs with hlt heq
      · rw [lookupEntries, if_neg hq]
      · subst heq
        rw [lookupEntries, lookupEntries, if_neg hq, if_neg hq]
      · rw [lookupEntries, lookupEntries, ih]

@[simp] theorem get?_insert (m : SortedMap κ ν) (k q : κ) (v : ν) :
    (m.insert k v).get? q = if k = q then some v else m.get? q :=
  lookupEntries_insertEntries k q v m.entries

theorem lookupEntries_eq_some {k : κ} {v : ν} {l : List (κ × ν)}
    (h : l.Pairwise (fun a b => a.1 < b.1)) : lookupEntries k l = some v ↔ (k, v) ∈ l := by
  induction l with
  | nil => simp [lookupEntries]
  | cons hd rest ih =>
    obtain ⟨k', v'⟩ := hd
    obtain ⟨hhd, hrest⟩ := List.pairwise_cons.mp h
    rw [lookupEntries]
    split_ifs with heq
    · subst heq
      constructor
      · intro hv
        simp_all
      · intro hmem
        rcases List.mem_cons.mp hmem with he | he
        · simp_all
        · exact absurd (hhd _ he) (lt_irrefl _)
    · rw [ih hrest]
      simp [Ne.symm heq]

theorem get?_eq_some {m : SortedMap κ ν} {k : κ} {v : ν} :
    m.get? k = some v ↔ (k, v) ∈ m.entries :=
  lookupEntries_eq_some m.ascending

theorem mem_of_lookupEntries {k : κ} {v : ν} {l : List (κ × ν)} (h : lookupEntries k l = some v) :
    (k, v) ∈ l := by
  induction l with
  | nil => simp [lookupEntries] at h
  | cons hd rest ih =>
    obtain ⟨k', v'⟩ := hd
    rw [lookupEntries] at h
    split_ifs at h with heq
    · cases h
      simp [heq]
    · exact List.mem_cons_of_mem _ (ih h)

theorem mem_keys {m : SortedMap κ ν} {k : κ} : k ∈ m.keys ↔ (m.get? k).isSome := by
  rw [Option.isSome_iff_exists]
  simp only [keys, List.mem_map, get?_eq_some]
  constructor
  · rintro ⟨e, he, rfl⟩
    exact ⟨e.2, he⟩
  · rintro ⟨v, hv⟩
    exact ⟨(k, v), hv, rfl⟩

theorem get?_eq_none {m : SortedMap κ ν} {k : κ} : m.get? k = none ↔ k ∉ m.keys := by
  rw [mem_keys, Option.not_isSome_iff_eq_none]

@[simp] theorem mem_keys_insert {m : SortedMap κ ν} {k q : κ} {v : ν} :
    q ∈ (m.insert k v).keys ↔ q = k ∨ q ∈ m.keys := by
  rw [mem_keys, mem_keys, get?_insert]
  split_ifs with h
  · simp [h]
  · simp [Ne.symm h]

theorem get?_erase_eq_some {m : SortedMap κ ν} {k q : κ} {v : ν} :
    (m.erase k).get? q = some v ↔ q ≠ k ∧ m.get? q = some v := by
  rw [get?_eq_some, get?_eq_some, erase, List.mem_filter, and_comm, decide_eq_true_eq]

@[simp] theorem get?_erase (m : SortedMap κ ν) (k q : κ) :
    (m.erase k).get? q = if k = q then none else m.get? q := by
  ext v
  rw [get?_erase_eq_some]
  split_ifs with h
  · simp [h]
  · simp [Ne.symm h]

theorem mem_keys_erase {m : SortedMap κ ν} {k q : κ} : q ∈ (m.erase k).keys ↔ q ≠ k ∧ q ∈ m.keys := by
  simp only [mem_keys, Option.isSome_iff_exists, get?_erase_eq_some, exists_and_left]

def filter (m : SortedMap κ ν) (p : κ → ν → Bool) : SortedMap κ ν :=
  ⟨m.entries.filter fun e => p e.1 e.2, m.ascending.filter _⟩

theorem get?_filter_eq_some {m : SortedMap κ ν} {p : κ → ν → Bool} {k : κ} {v : ν} :
    (m.filter p).get? k = some v ↔ m.get? k = some v ∧ p k v = true := by
  rw [get?_eq_some, get?_eq_some, filter, List.mem_filter]

theorem keys_ascending (m : SortedMap κ ν) : m.keys.Pairwise (· < ·) :=
  List.Pairwise.map _ (fun _ _ h => h) m.ascending

theorem keys_nodup (m : SortedMap κ ν) : m.keys.Nodup := m.keys_ascending.imp ne_of_lt

theorem entries_nodup (m : SortedMap κ ν) : m.entries.Nodup := m.keys_nodup.of_map _

/-- Of two entries the one with the smaller key stands first. -/
theorem rel_of_pairwise {m : SortedMap κ ν} {R : κ × ν → κ × ν → Prop} (h : m.entries.Pairwise R) {e f : κ × ν}
    (he : e ∈ m.entries) (hf : f ∈ m.entries) (hlt : e.1 < f.1) : R e f := by
  obtain ⟨before, after, hsplit⟩ := List.append_of_mem he
  have hascending := m.ascending
  rw [hsplit] at h hf hascending
  rw [List.pairwise_append, List.pairwise_cons] at h hascending
  obtain hf | hf := List.mem_append.mp hf
  · exact absurd (hascending.2.2 f hf e List.mem_cons_self) (lt_asymm hlt)
  · obtain rfl | hf := List.mem_cons.mp hf
    · exact absurd hlt (lt_irrefl _)
    · exact h.2.1.1 f hf

theorem ext_get? {m n : SortedMap κ ν} (h : ∀ k, m.get? k = n.get? k) : m = n := by
  apply ext_entries
  have hmem : ∀ e, e ∈ m.entries ↔ e ∈ n.entries := by
    intro ⟨k, v⟩
    rw [← get?_eq_some, ← get?_eq_some, h k]
  have hperm : m.entries.Perm n.entries :=
    (List.perm_ext_iff_of_nodup m.entries_nodup n.entries_nodup).mpr hmem
  exact hperm.eq_of_pairwise (fun _ _ _ _ hab hba => absurd hab (not_lt.mpr hba.le))
    m.ascending n.ascending

theorem isEmpty_iff {m : SortedMap κ ν} : m.isEmpty = true ↔ ∀ k, m.get? k = none := by
  constructor
  · intro h k
    have hnil : m.entries = [] := List.isEmpty_iff.mp h
    simp [get?, hnil, lookupEntries]
  · intro h
    rw [isEmpty, List.isEmpty_iff, List.eq_nil_iff_forall_not_mem]
    rintro ⟨k, v⟩ he
    rw [← get?_eq_some, h k] at he
    exact Option.some_ne_none v he.symm

theorem isEmpty_eq_false_iff {m : SortedMap κ ν} : m.isEmpty = false ↔ ∃ k, k ∈ m.keys := by
  rw [← Bool.not_eq_true, isEmpty_iff, not_forall]
  exact exists_congr fun k => by rw [mem_keys, ← Option.ne_none_iff_isSome]

theorem get?_foldl_insert {l : List (κ × ν)} (h : (l.map Prod.fst).Nodup) (m : SortedMap κ ν)
    (k : κ) : (l.foldl (fun m e => m.insert e.1 e.2) m).get? k =
      (lookupEntries k l).or (m.get? k) := by
  induction l generalizing m with
  | nil => rfl
  | cons e l ih =>
    obtain ⟨q, v⟩ := e
    rw [List.map_cons, List.nodup_cons] at h
    rw [List.foldl_cons, ih h.2, get?_insert, lookupEntries]
    split_ifs with hq
    · subst hq
      have hnone : lookupEntries q l = none := by
        rw [Option.eq_none_iff_forall_ne_some]
        intro w hw
        exact h.1 (List.mem_map.mpr ⟨_, mem_of_lookupEntries hw, rfl⟩)
      rw [hnone]
      rfl
    · rfl

theorem get?_ofList {l : List (κ × ν)} (h : (l.map Prod.fst).Nodup) {k : κ} {v : ν} :
    (ofList l).get? k = some v ↔ (k, v) ∈ l := by
  rw [ofList, get?_foldl_insert h, get?_empty, Option.or_none]
  constructor
  · exact mem_of_lookupEntries
  · intro hmem
    induction l with
    | nil => simp at hmem
    | cons e l ih =>
      obtain ⟨q, w⟩ := e
      rw [List.map_cons, List.nodup_cons] at h
      rw [lookupEntries]
      rcases List.mem_cons.mp hmem with he | hmem
      · cases he
        exact if_pos rfl
      · rw [if_neg, ih h.2 hmem]
        rintro rfl
        exact h.1 (List.mem_map.mpr ⟨_, hmem, rfl⟩)

theorem keys_ofList {l : List (κ × ν)} {k : κ} : k ∈ (ofList l).keys ↔ k ∈ l.map Prod.fst := by
  suffices key : ∀ m : SortedMap κ ν, k ∈ (l.foldl (fun m e => m.insert e.1 e.2) m).keys ↔
      k ∈ m.keys ∨ k ∈ l.map Prod.fst by
    rw [ofList, key]
    simp [keys, empty]
  induction l with
  | nil => simp
  | cons e l ih =>
    intro m
    rw [List.foldl_cons, ih, mem_keys_insert, List.map_cons, List.mem_cons]
    tauto

theorem ofList_entries (m : SortedMap κ ν) : ofList m.entries = m := by
  apply ext_get?
  intro k
  ext v
  rw [get?_ofList m.keys_nodup, get?_eq_some]

theorem ofList_concat (l : List (κ × ν)) (e : κ × ν) :
    ofList (l ++ [e]) = (ofList l).insert e.1 e.2 := by
  rw [ofList, List.foldl_append]
  rfl

theorem mem_of_get?_ofList {l : List (κ × ν)} {k : κ} {v : ν} (h : (ofList l).get? k = some v) :
    (k, v) ∈ l := by
  induction l using List.reverseRecOn with
  | nil => cases h
  | append_singleton l e ih =>
    rw [ofList_concat, get?_insert] at h
    split at h
    · cases h
      subst k
      exact List.mem_append_right _ List.mem_cons_self
    · exact List.mem_append_left _ (ih h)

/-- The later entries of a list count. -/
theorem get?_ofList_append (l l' : List (κ × ν)) (k : κ) :
    (ofList (l ++ l')).get? k = ((ofList l').get? k).or ((ofList l).get? k) := by
  induction l' using List.reverseRecOn with
  | nil => rw [List.append_nil]; rfl
  | append_singleton l' e ih =>
    rw [← List.append_assoc, ofList_concat, ofList_concat, get?_insert, get?_insert, ih]
    split_ifs <;> rfl

/-- Distinct names are collected without loss. -/
theorem entries_ofList_perm {l : List (κ × ν)} (h : (l.map Prod.fst).Nodup) :
    (ofList l).entries.Perm l := by
  refine (List.perm_ext_iff_of_nodup (ofList l).entries_nodup (h.of_map _)).mpr ?_
  rintro ⟨k, v⟩
  rw [← get?_eq_some, get?_ofList h]

theorem ofList_perm {l l' : List (κ × ν)} (h : l'.Perm l) (hnodup : (l.map Prod.fst).Nodup) :
    ofList l' = ofList l := by
  have hnodup' : (l'.map Prod.fst).Nodup := (h.map Prod.fst).nodup_iff.mpr hnodup
  apply ext_get?
  intro k
  ext v
  rw [get?_ofList hnodup', get?_ofList hnodup, h.mem_iff]

theorem ofList_of_perm {m : SortedMap κ ν} {l : List (κ × ν)} (h : l.Perm m.entries) : ofList l = m :=
  (ofList_perm h m.keys_nodup).trans (ofList_entries m)

theorem isEmpty_ofList (l : List (κ × ν)) : (ofList l).isEmpty = l.isEmpty := by
  have hkeys : ∀ k, k ∈ (ofList l).keys ↔ k ∈ l.map Prod.fst := fun _ => keys_ofList
  rw [Bool.eq_iff_iff, ← not_iff_not, Bool.not_eq_true, Bool.not_eq_true, isEmpty_eq_false_iff]
  simp only [hkeys]
  cases l with
  | nil => simp
  | cons e l => exact iff_of_true ⟨e.1, List.mem_cons_self⟩ rfl

section Fresh
open Fallible
variable {ε ι : Type} {step : SortedMap κ ν → ι → Except ε (SortedMap κ ν)} {key : ι → κ}
  {value : ι → ν} {admitted : ι → Prop}

/-- A loop that inserts under new names only: it accepts admitted elements with distinct names. -/
theorem foldlM_fresh
    (hstep : ∀ m x n, step m x = .ok n ↔
      (admitted x ∧ m.get? (key x) = none) ∧ n = m.insert (key x) (value x))
    {l : List ι} {m n : SortedMap κ ν} : l.foldlM step m = .ok n ↔
      (∀ x ∈ l, admitted x ∧ m.get? (key x) = none) ∧ (l.map key).Nodup ∧
      n = l.foldl (fun m x => m.insert (key x) (value x)) m := by
  induction l generalizing m with
  | nil => simp [pure, Except.pure, eq_comm]
  | cons x l ih =>
    simp only [List.foldlM_cons, bind_eq_ok, hstep, ih, List.map_cons, List.nodup_cons, List.foldl_cons,
      List.forall_mem_cons, List.mem_map, not_exists]
    constructor
    · rintro ⟨mid, ⟨hx, rfl⟩, hrest, hnodup, rfl⟩
      have hother : ∀ y ∈ l, key x ≠ key y := by
        intro y hy heq
        have hnew := (hrest y hy).2
        rw [get?_insert, if_pos heq] at hnew
        exact Option.some_ne_none _ hnew
      refine ⟨⟨hx, fun y hy => ?_⟩, ⟨fun y hy => hother y hy.1 hy.2.symm, hnodup⟩, rfl⟩
      have hy' := hrest y hy
      rwa [get?_insert, if_neg (hother y hy)] at hy'
    · rintro ⟨⟨hx, hrest⟩, ⟨hnot, hnodup⟩, rfl⟩
      refine ⟨_, ⟨hx, rfl⟩, fun y hy => ?_, hnodup, rfl⟩
      rw [get?_insert, if_neg fun heq => hnot y ⟨hy, heq.symm⟩]
      exact hrest y hy

end Fresh

/-! ## Acting on the values -/

def mapValues {μ : Type} (f : ν → μ) (m : SortedMap κ ν) : SortedMap κ μ :=
  ⟨m.entries.map fun e => (e.1, f e.2), List.Pairwise.map _ (fun _ _ h => h) m.ascending⟩

theorem lookupEntries_map {μ : Type} (f : κ → ν → μ) (k : κ) (l : List (κ × ν)) :
    lookupEntries k (l.map fun e => (e.1, f e.1 e.2)) = (lookupEntries k l).map (f k) := by
  induction l with
  | nil => rfl
  | cons e l ih =>
    rw [List.map_cons, lookupEntries, lookupEntries, ih]
    split_ifs with h
    · rw [h, Option.map_some]
    · rfl

theorem get?_mapValues {μ : Type} (f : ν → μ) (m : SortedMap κ ν) (k : κ) :
    (m.mapValues f).get? k = (m.get? k).map f :=
  lookupEntries_map (fun _ => f) k m.entries

def mapWithKey {μ : Type} (f : κ → ν → μ) (m : SortedMap κ ν) : SortedMap κ μ :=
  ⟨m.entries.map fun e => (e.1, f e.1 e.2), List.Pairwise.map _ (fun _ _ h => h) m.ascending⟩

theorem get?_mapWithKey {μ : Type} (f : κ → ν → μ) (m : SortedMap κ ν) (k : κ) :
    (m.mapWithKey f).get? k = (m.get? k).map (f k) :=
  lookupEntries_map f k m.entries

section Traverse
open Fallible
variable {ε μ : Type} {f : κ → ν → Except ε μ} {m : SortedMap κ ν} {n : SortedMap κ μ}

/-- Every value replaced by what a computation returns for it, in key order. -/
def traverse (f : κ → ν → Except ε μ) (m : SortedMap κ ν) : Except ε (SortedMap κ μ) := do
  let entries ← m.entries.mapM fun e => Prod.mk e.1 <$> f e.1 e.2
  return ofList entries

theorem traverse_eq_ok : m.traverse f = .ok n ↔
    List.Forall₂ (fun e e' => f e.1 e.2 = .ok e'.2 ∧ e.1 = e'.1) m.entries n.entries := by
  have hstep : ∀ (e : κ × ν) (e' : κ × μ),
      (Prod.mk e.1 <$> f e.1 e.2 = .ok e') ↔ f e.1 e.2 = .ok e'.2 ∧ e.1 = e'.1 := by
    rintro ⟨k, v⟩ ⟨k', w⟩
    simp only [map_eq_ok, Prod.mk.injEq]
    constructor
    · rintro ⟨w', hw, rfl, rfl⟩
      exact ⟨hw, rfl⟩
    · rintro ⟨hw, rfl⟩
      exact ⟨w, hw, rfl, rfl⟩
  simp only [traverse, bind_eq_ok, pure_eq_ok, mapM_eq_ok, hstep]
  constructor
  · rintro ⟨l, hl, rfl⟩
    have hkeys : l.map Prod.fst = m.keys := by
      rw [keys, ← List.forall₂_eq_eq_eq, List.forall₂_map_left_iff, List.forall₂_map_right_iff]
      exact hl.flip.imp fun _ _ h => h.2.symm
    have hasc : l.Pairwise fun a b => a.1 < b.1 := by
      have hkeysAsc := m.keys_ascending
      rw [← hkeys] at hkeysAsc
      exact List.pairwise_map.mp hkeysAsc
    rwa [ofList_entries ⟨l, hasc⟩]
  · exact fun h => ⟨_, h, ofList_entries n⟩

theorem lookupEntries_traverse {l : List (κ × ν)} {l' : List (κ × μ)}
    (h : List.Forall₂ (fun e e' => f e.1 e.2 = .ok e'.2 ∧ e.1 = e'.1) l l') (k : κ) :
    lookupEntries k l' = (lookupEntries k l).bind fun v => (f k v).toOption := by
  induction h with
  | nil => rfl
  | @cons e e' l l' he _ ih =>
    obtain ⟨q, v⟩ := e
    obtain ⟨q', w⟩ := e'
    obtain ⟨hw, rfl⟩ : f q v = .ok w ∧ q = q' := he
    rw [lookupEntries, lookupEntries]
    split_ifs with hq
    · subst hq
      rw [Option.bind_some, hw]
      rfl
    · exact ih

theorem traverse_get? (h : m.traverse f = .ok n) (k : κ) :
    n.get? k = (m.get? k).bind fun v => (f k v).toOption :=
  lookupEntries_traverse (traverse_eq_ok.mp h) k

theorem traverse_keys (h : m.traverse f = .ok n) : n.keys = m.keys := by
  rw [keys, keys, ← List.forall₂_eq_eq_eq, List.forall₂_map_left_iff, List.forall₂_map_right_iff]
  exact (traverse_eq_ok.mp h).flip.imp fun _ _ h => h.2.symm

theorem traverse_some (h : m.traverse f = .ok n) {k : κ} {v : ν} (hk : m.get? k = some v) :
    ∃ w, n.get? k = some w ∧ f k v = .ok w := by
  have hget := traverse_get? h k
  have hmem : k ∈ n.keys := by
    rw [traverse_keys h, mem_keys, hk]
    rfl
  obtain ⟨w, hw⟩ := Option.isSome_iff_exists.mp (mem_keys.mp hmem)
  rw [hw, hk, Option.bind_some] at hget
  exact ⟨w, hw, toOption_eq_some.mp hget.symm⟩

theorem traverse_isEmpty (h : m.traverse f = .ok n) : n.isEmpty = m.isEmpty := by
  have hlen := (traverse_eq_ok.mp h).length_eq
  rw [isEmpty, isEmpty, Bool.eq_iff_iff, List.isEmpty_iff, List.isEmpty_iff,
    ← List.length_eq_zero_iff, ← List.length_eq_zero_iff, hlen]

theorem traverse_mapValues {g : μ → ν} (h : ∀ k v, f k (g v) = .ok v) :
    (n.mapValues g).traverse f = .ok n := by
  rw [traverse_eq_ok, mapValues, List.forall₂_map_left_iff, List.forall₂_same]
  exact fun e _ => ⟨h e.1 e.2, rfl⟩

end Traverse

end SortedMap
end AssuranceLayer
