import AssuranceLayer.Reading
import AssuranceLayer.Rendering
import AssuranceLayer.Designer

set_option autoImplicit false

/-!
What changed between two manifests, as Rust lists it and as the designer shows it.
-/
namespace AssuranceLayer.ManifestDiff
open Utf16 JavaScript Document Reading SortedMap
open Browser (isInherited)
open Designer (FieldState ChangeRow fieldState changeRow changeRows fieldsOf sorted)

/-! ## The list of changes -/

inductive ManifestChange where
  | added (path : String) (state : Disclosure)
  | removed (path : String) (was : Disclosure)
  | changed (path : String) (was state : Disclosure)
deriving DecidableEq

def ManifestChange.path : ManifestChange → String
  | .added path _ | .removed path _ | .changed path _ _ => path

/-- A move away from published, or a published field dropped. -/
def ManifestChange.isReduction : ManifestChange → Bool
  | .added _ _ => false
  | .removed _ was => was = .published
  | .changed _ was state => was = .published ∧ state ≠ .published

/-- `Vec::dedup`. -/
def dedup : List String → List String
  | a :: b :: rest => if a = b then dedup (b :: rest) else a :: dedup (b :: rest)
  | l => l

def change (previous current : Manifest) (path : String) : Option ManifestChange :=
  match previous.fields.get? path, current.fields.get? path with
  | some was, some state => if was ≠ state then some (.changed path was state) else none
  | none, some state => some (.added path state)
  | some was, none => some (.removed path was)
  -- The path came from one of the two.
  | none, none => none

def paths (previous current : Manifest) : List String :=
  dedup ((previous.fields.keys ++ current.fields.keys).insertionSort (· ≤ ·))

/-- Field by field, in the order of the paths. -/
def diff (previous current : Manifest) : List ManifestChange :=
  (paths previous current).filterMap (change previous current)

/-! ## What the list says -/

def ManifestChange.before : ManifestChange → Option Disclosure
  | .added _ _ => none
  | .removed _ was | .changed _ was _ => some was

def ManifestChange.after : ManifestChange → Option Disclosure
  | .removed _ _ => none
  | .added _ state | .changed _ _ state => some state

def applyChange (fields : SortedMap String Disclosure) : ManifestChange → SortedMap String Disclosure
  | .added path state | .changed path _ state => fields.insert path state
  | .removed path _ => fields.erase path

theorem get?_applyChange (fields : SortedMap String Disclosure) (c : ManifestChange) (k : String) :
    (applyChange fields c).get? k = if c.path = k then c.after else fields.get? k := by
  cases c with
  | added path state => exact get?_insert _ _ _ _
  | changed path was state => exact get?_insert _ _ _ _
  | removed path was => exact get?_erase _ _ _

theorem isReduction_iff {c : ManifestChange} :
    c.isReduction = true ↔ c.before = some .published ∧ c.after ≠ some .published := by
  cases c <;> simp [ManifestChange.isReduction, ManifestChange.before, ManifestChange.after]

theorem change_eq_some {previous current : Manifest} {path : String} {c : ManifestChange} :
    change previous current path = some c ↔ c.path = path ∧ c.before = previous.fields.get? path ∧
      c.after = current.fields.get? path ∧ previous.fields.get? path ≠ current.fields.get? path := by
  rw [change]
  cases previous.fields.get? path <;> cases current.fields.get? path <;> cases c <;>
    simp [ManifestChange.path, ManifestChange.before, ManifestChange.after] <;> grind

theorem mem_dedup {l : List String} {a : String} : a ∈ dedup l ↔ a ∈ l := by
  induction l using dedup.induct with
  | case1 b rest ih =>
    rw [dedup, if_pos rfl, ih]
    simp
  | case2 b c rest hne ih => rw [dedup, if_neg hne, List.mem_cons, ih, ← List.mem_cons]
  | case3 l hl => rw [dedup]; exact hl

theorem dedup_ascending {l : List String} (h : l.Pairwise (· ≤ ·)) : (dedup l).Pairwise (· < ·) := by
  induction l using dedup.induct with
  | case1 b rest ih =>
    rw [dedup, if_pos rfl]
    exact ih h.of_cons
  | case2 b c rest hne ih =>
    obtain ⟨hb, hrest⟩ := List.pairwise_cons.mp h
    rw [dedup, if_neg hne]
    refine List.pairwise_cons.mpr ⟨fun x hx => ?_, ih hrest⟩
    have hbc : b < c := lt_of_le_of_ne (hb c List.mem_cons_self) hne
    rcases List.mem_cons.mp (mem_dedup.mp hx) with rfl | hx
    · exact hbc
    · exact hbc.trans_le ((List.pairwise_cons.mp hrest).1 x hx)
  | case3 l hl =>
    rcases l with _ | ⟨a, _ | ⟨b, rest⟩⟩
    · exact List.Pairwise.nil
    · exact List.pairwise_singleton _ _
    · exact absurd rfl (hl a b rest)

theorem mem_paths {previous current : Manifest} {k : String} :
    k ∈ paths previous current ↔ k ∈ previous.fields.keys ∨ k ∈ current.fields.keys := by
  rw [paths, mem_dedup, List.mem_insertionSort, List.mem_append]

theorem paths_ascending (previous current : Manifest) : (paths previous current).Pairwise (· < ·) :=
  dedup_ascending (List.pairwise_insertionSort _ _)

theorem mem_diff {previous current : Manifest} {c : ManifestChange} : c ∈ diff previous current ↔
    c.before = previous.fields.get? c.path ∧ c.after = current.fields.get? c.path ∧
      previous.fields.get? c.path ≠ current.fields.get? c.path := by
  rw [diff, List.mem_filterMap]
  simp only [change_eq_some]
  constructor
  · rintro ⟨_, -, rfl, h⟩
    exact h
  · intro h
    refine ⟨c.path, mem_paths.mpr ?_, rfl, h⟩
    by_contra hnot
    rw [not_or, ← get?_eq_none, ← get?_eq_none] at hnot
    exact h.2.2 (hnot.1.trans hnot.2.symm)

theorem change_isSome {previous current : Manifest} {k : String}
    (h : previous.fields.get? k ≠ current.fields.get? k) : ∃ c, change previous current k = some c := by
  rw [change]
  cases hp : previous.fields.get? k <;> cases hc : current.fields.get? k <;> simp [hp, hc] at h ⊢
  exact h

theorem exists_change {previous current : Manifest} {k : String}
    (h : previous.fields.get? k ≠ current.fields.get? k) : ∃ c ∈ diff previous current, c.path = k := by
  obtain ⟨c, hc⟩ := change_isSome h
  obtain ⟨rfl, hdiff⟩ := change_eq_some.mp hc
  exact ⟨c, mem_diff.mpr hdiff, rfl⟩

theorem diff_ascending (previous current : Manifest) :
    ((diff previous current).map ManifestChange.path).Pairwise (· < ·) := by
  have hsub : ((diff previous current).map ManifestChange.path).Sublist (paths previous current) := by
    rw [diff]
    generalize paths previous current = l
    induction l with
    | nil => exact List.Sublist.refl _
    | cons k l ih =>
      cases hk : change previous current k with
      | none =>
        rw [List.filterMap_cons_none hk]
        exact ih.cons k
      | some c =>
        rw [List.filterMap_cons_some hk, List.map_cons, (change_eq_some.mp hk).1]
        exact ih.cons_cons k
  exact (paths_ascending previous current).sublist hsub

theorem applyChanges_get? {l : List ManifestChange} (h : (l.map ManifestChange.path).Nodup)
    (fields : SortedMap String Disclosure) (k : String) :
    (∀ c ∈ l, c.path = k → (l.foldl applyChange fields).get? k = c.after) ∧
      (k ∉ l.map ManifestChange.path → (l.foldl applyChange fields).get? k = fields.get? k) := by
  induction l generalizing fields with
  | nil => exact ⟨fun _ hc => absurd hc List.not_mem_nil, fun _ => rfl⟩
  | cons c l ih =>
    rw [List.map_cons, List.nodup_cons] at h
    obtain ⟨hmem, hnot⟩ := ih h.2 (applyChange fields c)
    rw [List.foldl_cons, List.map_cons]
    constructor
    · intro d hd hk
      rcases List.mem_cons.mp hd with rfl | hd
      · rw [hnot (hk ▸ h.1), get?_applyChange, if_pos hk]
      · exact hmem d hd hk
    · intro hk
      rw [List.mem_cons, not_or] at hk
      rw [hnot hk.2, get?_applyChange, if_neg (Ne.symm hk.1)]

theorem apply_diff (previous current : Manifest) :
    (diff previous current).foldl applyChange previous.fields = current.fields := by
  have hnodup : ((diff previous current).map ManifestChange.path).Nodup :=
    (diff_ascending previous current).imp ne_of_lt
  refine ext_get? fun k => ?_
  obtain ⟨hmem, hnot⟩ := applyChanges_get? hnodup previous.fields k
  by_cases hk : previous.fields.get? k = current.fields.get? k
  · rw [← hk]
    refine hnot fun hpath => ?_
    obtain ⟨c, hc, rfl⟩ := List.mem_map.mp hpath
    exact (mem_diff.mp hc).2.2 hk
  · obtain ⟨c, hc, rfl⟩ := exists_change hk
    rw [hmem c hc rfl, (mem_diff.mp hc).2.1]

theorem diff_eq_nil {previous current : Manifest} :
    diff previous current = [] ↔ previous.fields = current.fields := by
  constructor
  · intro h
    rw [← apply_diff previous current, h]
    rfl
  · intro h
    refine List.eq_nil_iff_forall_not_mem.mpr fun c hc => (mem_diff.mp hc).2.2 (by rw [h])

theorem reductions_iff {previous current : Manifest} {k : String} :
    (∃ c ∈ diff previous current, c.path = k ∧ c.isReduction = true) ↔
      previous.fields.get? k = some .published ∧ current.fields.get? k ≠ some .published := by
  constructor
  · rintro ⟨c, hc, rfl, hreduction⟩
    obtain ⟨hbefore, hafter, -⟩ := mem_diff.mp hc
    rwa [isReduction_iff, hbefore, hafter] at hreduction
  · intro h
    obtain ⟨c, hc, rfl⟩ := exists_change fun heq => h.2 (heq ▸ h.1)
    obtain ⟨hbefore, hafter, -⟩ := mem_diff.mp hc
    exact ⟨c, hc, rfl, isReduction_iff.mpr (hbefore ▸ hafter ▸ h)⟩

/-! ## The designer's rows -/

def ShowsState (s : FieldState) : Option Disclosure → Prop
  | none => s = .null
  | some d => s = .given (Js.string d.asStr)

/-- A row shows a change. -/
structure Shows (row : ChangeRow) (c : ManifestChange) : Prop where
  path : row.path = ofString c.path
  before : ShowsState row.before c.before
  after : ShowsState row.after c.after
  reduction : row.reduction = c.isReduction

theorem fields_mirror {v : Js} {m : Manifest} (h : ReadsManifest v m) :
    Mirrors ReadsState (fieldsOf v) m.fields := by
  obtain ⟨props, hprops, hmirrors⟩ := h.fields
  obtain ⟨_, rfl⟩ := h.object
  rw [fieldsOf, Designer.optionalProp, if_neg Bool.noConfusion, hprops]
  exact hmirrors

theorem mem_names {props : List (JsString × Js)} {m : SortedMap String Disclosure}
    (h : Mirrors ReadsState props m) {name : JsString} :
    name ∈ props.map Prod.fst ↔ name ∈ m.keys.map ofString := by
  constructor
  · intro hname
    obtain ⟨p, hp, rfl⟩ := List.mem_map.mp hname
    obtain ⟨k, d, hk, hget, -⟩ := h.sound p hp
    exact List.mem_map.mpr ⟨k, mem_keys.mpr (by simp [hget]), hk.symm⟩
  · intro hname
    obtain ⟨k, hk, rfl⟩ := List.mem_map.mp hname
    exact h.complete k hk

theorem fieldState_shows {props : List (JsString × Js)} {m : SortedMap String Disclosure}
    (h : Mirrors ReadsState props m) {k : String} (hk : k ∈ knownFields) :
    ShowsState (fieldState props (ofString k)) (m.get? k) := by
  have hown : isInherited (ofString k) = false := by
    revert k
    decide +kernel
  cases hget : m.get? k with
  | none =>
    rw [fieldState, h.lookup_none hget, hown]
    rfl
  | some d =>
    obtain ⟨v, hv, rfl⟩ := h.lookup hget
    rw [fieldState, hv]
    rfl

theorem same_shows {s t : FieldState} {a b : Option Disclosure} (hs : ShowsState s a) (ht : ShowsState t b) :
    s.same t = true ↔ a = b := by
  cases a <;> cases b <;> rw [show s = _ from hs, show t = _ from ht]
  · simp [FieldState.same]
  · simp [FieldState.same]
  · simp [FieldState.same]
  · rename_i d e
    rw [FieldState.same, show (Js.string d.asStr).strictEq (Js.string e.asStr) =
      (Js.string d.asStr).is (ofString e.asStr) from rfl, is_string, Option.some.injEq]
    exact ⟨Disclosure.asStr_inj, congrArg _⟩

theorem isPublished_shows {s : FieldState} {a : Option Disclosure} (hs : ShowsState s a) :
    s.isPublished = true ↔ a = some .published := by
  cases a with
  | none => rw [show s = _ from hs]; simp [FieldState.isPublished]
  | some d =>
    rw [show s = _ from hs, FieldState.isPublished, is_string, Option.some.injEq]
    cases d <;> decide

theorem unitValues_inj {s t : JsString} (h : unitValues s = unitValues t) : s = t :=
  List.map_injective_iff.mpr (fun _ _ => UInt16.toNat_inj.mp) h

theorem known_lt : ∀ k ∈ knownFields, ∀ l ∈ knownFields, k < l →
    unitValues (ofString k) ≤ unitValues (ofString l) := by decide +kernel

theorem nodup_eraseDups (l : List JsString) : l.eraseDups.Nodup := by
  induction hn : l.length using Nat.strongRecOn generalizing l with
  | ind n ih =>
    cases l with
    | nil => exact List.nodup_nil
    | cons a l =>
      rw [List.eraseDups_cons, List.nodup_cons, List.mem_eraseDups]
      have hlen := List.length_filter_le (fun b => !b == a) l
      refine ⟨by simp, ih _ ?_ _ rfl⟩
      rw [List.length_cons] at hn
      omega

/-- The paths the designer walks are those of the two maps, in the same order. -/
theorem sorted_paths {v w : Js} {previous current : Manifest} (hv : ReadsManifest v previous)
    (hw : ReadsManifest w current) (hknown : ∀ k ∈ paths previous current, k ∈ knownFields) :
    sorted ((fieldsOf v).map Prod.fst ++ (fieldsOf w).map Prod.fst).eraseDups =
      (paths previous current).map ofString := by
  have hmem : ∀ name, name ∈ (fieldsOf v).map Prod.fst ++ (fieldsOf w).map Prod.fst ↔
      name ∈ (paths previous current).map ofString := by
    intro name
    rw [List.mem_append, mem_names (fields_mirror hv), mem_names (fields_mirror hw), ← List.mem_append,
      ← List.map_append, List.mem_map, List.mem_map]
    exact exists_congr fun k => and_congr_left fun _ => by rw [List.mem_append, mem_paths]
  have hperm : (sorted ((fieldsOf v).map Prod.fst ++ (fieldsOf w).map Prod.fst).eraseDups).Perm
      ((paths previous current).map ofString) := by
    refine (List.perm_insertionSort _ _).trans ((List.perm_ext_iff_of_nodup (nodup_eraseDups _) ?_).mpr ?_)
    · have hnodup : (paths previous current).Nodup := (paths_ascending previous current).imp ne_of_lt
      exact hnodup.map fun _ _ heq => ofString_inj.mp heq
    · intro name
      rw [List.mem_eraseDups, hmem]
  refine hperm.eq_of_pairwise (fun a b _ _ hab hba => unitValues_inj (le_antisymm hab hba))
    (List.pairwise_insertionSort _ _) (List.pairwise_map.mpr ?_)
  exact (paths_ascending previous current).imp_of_mem fun hk hl hlt => known_lt _ (hknown _ hk) _ (hknown _ hl) hlt

theorem changeRow_shows {before after : List (JsString × Js)} {previous current : Manifest}
    (hb : Mirrors ReadsState before previous.fields) (ha : Mirrors ReadsState after current.fields)
    {k : String} (hk : k ∈ knownFields) :
    Option.Rel Shows (changeRow before after (ofString k)) (change previous current k) := by
  have hwas := fieldState_shows hb hk
  have hstate := fieldState_shows ha hk
  rw [changeRow]
  by_cases heq : previous.fields.get? k = current.fields.get? k
  · have hnone : change previous current k = none :=
      Option.eq_none_iff_forall_ne_some.mpr fun c hc => (change_eq_some.mp hc).2.2.2 heq
    rw [hnone, if_pos ((same_shows hwas hstate).mpr heq)]
    exact Option.Rel.none
  · obtain ⟨c, hc⟩ := change_isSome heq
    obtain ⟨hpath, hbefore, hafter, -⟩ := change_eq_some.mp hc
    rw [hc, if_neg (mt (same_shows hwas hstate).mp heq)]
    refine Option.Rel.some ⟨hpath ▸ rfl, hbefore ▸ hwas, hafter ▸ hstate, ?_⟩
    rw [Bool.eq_iff_iff, Bool.and_eq_true, Bool.not_eq_true', isReduction_iff, hbefore, hafter,
      isPublished_shows hwas, ne_eq, ← isPublished_shows hstate, Bool.not_eq_true]

theorem changeRows_shows {v w : Js} {previous current : Manifest} (hv : ReadsManifest v previous)
    (hw : ReadsManifest w current) (hknown : ∀ k ∈ paths previous current, k ∈ knownFields) :
    List.Forall₂ Shows (changeRows v w) (diff previous current) := by
  rw [changeRows, hv.object.truthy, if_neg (Bool.noConfusion), diff]
  simp only [sorted_paths hv hw hknown]
  generalize hl : paths previous current = l at hknown
  clear hl
  induction l with
  | nil => exact List.Forall₂.nil
  | cons k l ih =>
    have hrow := changeRow_shows (fields_mirror hv) (fields_mirror hw) (hknown k List.mem_cons_self)
    have hrest := ih fun j hj => hknown j (List.mem_cons_of_mem _ hj)
    rw [List.map_cons, List.filterMap_cons, List.filterMap_cons]
    generalize changeRow (fieldsOf v) (fieldsOf w) (ofString k) = row at hrow
    generalize change previous current k = c at hrow
    cases hrow with
    | none => exact hrest
    | some hrow => exact List.Forall₂.cons hrow hrest

/-- The changes rebuild the new manifest from the old one, one for each path that differs, in the order
    of the paths; the designer shows the same. -/
theorem manifest_diff_exact (previous current : Manifest) :
    (diff previous current).foldl applyChange previous.fields = current.fields ∧
    ((diff previous current).map ManifestChange.path).Pairwise (· < ·) ∧
    (diff previous current = [] ↔ previous.fields = current.fields) ∧
    (∀ k, (∃ c ∈ diff previous current, c.path = k ∧ c.isReduction = true) ↔
      previous.fields.get? k = some .published ∧ current.fields.get? k ≠ some .published) ∧
    ∀ v w, ReadsManifest v previous → ReadsManifest w current →
      (∀ k ∈ previous.fields.keys ++ current.fields.keys, k ∈ knownFields) →
        List.Forall₂ Shows (changeRows v w) (diff previous current) :=
  ⟨apply_diff _ _, diff_ascending _ _, diff_eq_nil, fun _ => reductions_iff, fun _ _ hv hw hknown =>
    changeRows_shows hv hw fun k hk => hknown k (List.mem_append.mpr (mem_paths.mp hk))⟩

/-- A document of a manifest reads as it. -/
def document (m : Manifest) : Js := Js.ofJson (Wire.manifest.encode m)

theorem document_reads (m : Manifest) : ReadsManifest (document m) m :=
  readsManifest_of_decode (Wire.manifest.decode_encode m) (Rendering.isManifest m)

def lastQuarter : Manifest := ⟨"public", ofList [("root_sums", .published), ("mark_prices", .published)]⟩
def thisQuarter : Manifest := ⟨"public", ofList [("root_sums", .withheld), ("customer_balances", .committed)]⟩

theorem manifest_diff_exact_quarter :
    List.Forall₂ Shows (changeRows (document lastQuarter) (document thisQuarter)) (diff lastQuarter thisQuarter) ∧
    diff lastQuarter thisQuarter = [.added "customer_balances" .committed, .removed "mark_prices" .published,
      .changed "root_sums" .published .withheld] :=
  ⟨(manifest_diff_exact lastQuarter thisQuarter).2.2.2.2 _ _ (document_reads _) (document_reads _)
    (by decide +kernel), by decide +kernel⟩

end AssuranceLayer.ManifestDiff
