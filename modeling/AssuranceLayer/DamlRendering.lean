import AssuranceLayer.DamlValue

set_option autoImplicit false

/-!
The types of Daml values, and the types whose values the rendering keeps apart.
-/
namespace AssuranceLayer.DamlValue
open SortedMap

/-! ## Values up to the order of their text maps -/

mutual

/-- The value with the entries of every text map in the order of their keys. -/
def ordered : LfValue → LfValue
  | .optional value => .optional (orderedOption value)
  | .list elements => .list (orderedElements elements)
  | .textMap entries => .textMap (ofList (orderedEntries entries)).entries
  | .genMap entries => .genMap (orderedPairs entries)
  | .record recordId fields => .record recordId (orderedEntries fields)
  | .variant variantId constructor value => .variant variantId constructor (orderedOption value)
  | .absent => .absent
  | .unit => .unit
  | .bool b => .bool b
  | .int64 i => .int64 i
  | .date d => .date d
  | .timestamp t => .timestamp t
  | .numeric n => .numeric n
  | .party p => .party p
  | .text t => .text t
  | .contractId c => .contractId c
  | .enum enumId constructor => .enum enumId constructor

def orderedOption : Option LfValue → Option LfValue
  | none => none
  | some v => some (ordered v)

def orderedElements : List LfValue → List LfValue
  | [] => []
  | v :: elements => ordered v :: orderedElements elements

def orderedEntries : List (String × Option LfValue) → List (String × Option LfValue)
  | [] => []
  | (key, value) :: entries => (key, orderedOption value) :: orderedEntries entries

def orderedPairs : List (Option LfValue × Option LfValue) → List (Option LfValue × Option LfValue)
  | [] => []
  | (key, value) :: entries => (orderedOption key, orderedOption value) :: orderedPairs entries

end

theorem orderedElements_eq_map (elements : List LfValue) : orderedElements elements = elements.map ordered := by
  induction elements with
  | nil => rfl
  | cons v elements ih => rw [orderedElements, ih, List.map_cons]

theorem orderedEntries_eq_map (entries : List (String × Option LfValue)) :
    orderedEntries entries = entries.map fun e => (e.1, orderedOption e.2) := by
  induction entries with
  | nil => rfl
  | cons e entries ih => rw [orderedEntries, ih, List.map_cons]

theorem orderedPairs_eq_map (entries : List (Option LfValue × Option LfValue)) :
    orderedPairs entries = entries.map fun e => (orderedOption e.1, orderedOption e.2) := by
  induction entries with
  | nil => rfl
  | cons e entries ih => rw [orderedPairs, ih, List.map_cons]

/-! ## Types -/

/-- Types over the names of data types. The arguments of a parametric type are part of its name. -/
inductive DamlType (ν : Type) where
  | unit
  | bool
  | int64
  | date
  | timestamp
  | numeric
  | party
  | text
  | contractId
  | optional (t : DamlType ν)
  | list (t : DamlType ν)
  | textMap (t : DamlType ν)
  | genMap (k t : DamlType ν)
  | data (name : ν)

/-- The fields of a record stand under the labels its values carry, empty where they are left out. -/
inductive DataDef (ν : Type) where
  | record (recordId : Option Identifier) (fields : List (String × DamlType ν))
  | variant (variantId : Option Identifier) (constructors : List (String × DamlType ν))
  | enum (enumId : Option Identifier) (constructors : List String)

/-- The values of a type, with every sub-value present. -/
inductive HasType {ν : Type} (env : ν → DataDef ν) : LfValue → DamlType ν → Prop
  | unit : HasType env .unit .unit
  | bool (b : Bool) : HasType env (.bool b) .bool
  | int64 (i : Int64) : HasType env (.int64 i) .int64
  | date (d : Int32) : HasType env (.date d) .date
  | timestamp (t : Int64) : HasType env (.timestamp t) .timestamp
  | numeric (n : String) : HasType env (.numeric n) .numeric
  | party (p : String) : HasType env (.party p) .party
  | text (t : String) : HasType env (.text t) .text
  | contractId (c : String) : HasType env (.contractId c) .contractId
  | none (t : DamlType ν) : HasType env (.optional none) (.optional t)
  | some {v : LfValue} {t : DamlType ν} (h : HasType env v t) : HasType env (.optional (some v)) (.optional t)
  | list {vs : List LfValue} {t : DamlType ν} (h : ∀ v ∈ vs, HasType env v t) : HasType env (.list vs) (.list t)
  | textMap {es : List (String × LfValue)} {t : DamlType ν} (hdistinct : (es.map Prod.fst).Nodup)
      (h : ∀ e ∈ es, HasType env e.2 t) : HasType env (.textMap (es.map fun e => (e.1, some e.2))) (.textMap t)
  | genMap {es : List (LfValue × LfValue)} {k t : DamlType ν} (hdistinct : (es.map fun e => ordered e.1).Nodup)
      (hkeys : ∀ e ∈ es, HasType env e.1 k) (hvalues : ∀ e ∈ es, HasType env e.2 t) :
      HasType env (.genMap (es.map fun e => (some e.1, some e.2))) (.genMap k t)
  | record {name : ν} {recordId : Option Identifier} {rows : List ((String × DamlType ν) × LfValue)}
      (hdef : env name = .record recordId (rows.map Prod.fst)) (h : ∀ r ∈ rows, HasType env r.2 r.1.2) :
      HasType env (.record recordId (rows.map fun r => (r.1.1, some r.2))) (.data name)
  | variant {name : ν} {variantId : Option Identifier} {constructors : List (String × DamlType ν)} {c : String}
      {t : DamlType ν} {v : LfValue} (hdef : env name = .variant variantId constructors)
      (hc : constructors.lookup c = some t) (h : HasType env v t) :
      HasType env (.variant variantId c (some v)) (.data name)
  | enum {name : ν} {enumId : Option Identifier} {constructors : List String} {c : String}
      (hdef : env name = .enum enumId constructors) (hc : c ∈ constructors) :
      HasType env (.enum enumId c) (.data name)

section
variable {ν : Type}

/-- The types that hold no other type. -/
def DamlType.Plain : DamlType ν → Prop
  | .unit | .bool | .int64 | .date | .timestamp | .numeric | .party | .text | .contractId => True
  | _ => False

/-- The types that have a value. -/
inductive Habitable (env : ν → DataDef ν) : DamlType ν → Prop
  | plain {t : DamlType ν} (h : t.Plain) : Habitable env t
  | optional (t : DamlType ν) : Habitable env (.optional t)
  | list (t : DamlType ν) : Habitable env (.list t)
  | textMap (t : DamlType ν) : Habitable env (.textMap t)
  | genMap (k t : DamlType ν) : Habitable env (.genMap k t)
  | record {name : ν} {recordId : Option Identifier} {fields : List (String × DamlType ν)}
      (hdef : env name = .record recordId fields) (h : ∀ f ∈ fields, Habitable env f.2) : Habitable env (.data name)
  | variant {name : ν} {variantId : Option Identifier} {constructors : List (String × DamlType ν)} {c : String}
      {t : DamlType ν} (hdef : env name = .variant variantId constructors) (hc : constructors.lookup c = some t)
      (h : Habitable env t) : Habitable env (.data name)
  | enum {name : ν} {enumId : Option Identifier} {constructors : List String} {c : String}
      (hdef : env name = .enum enumId constructors) (hc : c ∈ constructors) : Habitable env (.data name)

/-- The types that have two different values. -/
inductive Varies (env : ν → DataDef ν) : DamlType ν → Prop
  | plain {t : DamlType ν} (h : t.Plain) (hunit : t ≠ .unit) : Varies env t
  | optional {t : DamlType ν} (h : Habitable env t) : Varies env (.optional t)
  | list {t : DamlType ν} (h : Habitable env t) : Varies env (.list t)
  | textMap {t : DamlType ν} (h : Habitable env t) : Varies env (.textMap t)
  | genMap {k t : DamlType ν} (hkey : Habitable env k) (h : Habitable env t) : Varies env (.genMap k t)
  | record {name : ν} {recordId : Option Identifier} {fields : List (String × DamlType ν)} {f : String × DamlType ν}
      (hdef : env name = .record recordId fields) (hall : ∀ f ∈ fields, Habitable env f.2) (hf : f ∈ fields)
      (h : Varies env f.2) : Varies env (.data name)
  | constructors {name : ν} {variantId : Option Identifier} {constructors : List (String × DamlType ν)}
      {c c' : String} {t t' : DamlType ν} (hdef : env name = .variant variantId constructors)
      (hc : constructors.lookup c = some t) (hc' : constructors.lookup c' = some t') (hne : c ≠ c')
      (h : Habitable env t) (h' : Habitable env t') : Varies env (.data name)
  | variant {name : ν} {variantId : Option Identifier} {constructors : List (String × DamlType ν)} {c : String}
      {t : DamlType ν} (hdef : env name = .variant variantId constructors) (hc : constructors.lookup c = some t)
      (h : Varies env t) : Varies env (.data name)
  | enum {name : ν} {enumId : Option Identifier} {constructors : List String} {c c' : String}
      (hdef : env name = .enum enumId constructors) (hc : c ∈ constructors) (hc' : c' ∈ constructors)
      (hne : c ≠ c') : Varies env (.data name)

/-- The types with values that cannot be told apart: an optional within an optional, a record in which
    the position of an unlabelled field is the label of another field, and what holds such a type. -/
inductive Loses (env : ν → DataDef ν) : DamlType ν → Prop
  | nested (t : DamlType ν) : Loses env (.optional (.optional t))
  | optional {t : DamlType ν} (h : Loses env t) : Loses env (.optional t)
  | list {t : DamlType ν} (h : Loses env t) : Loses env (.list t)
  | textMap {t : DamlType ν} (h : Loses env t) : Loses env (.textMap t)
  | key {k t : DamlType ν} (hkey : Loses env k) (h : Habitable env t) : Loses env (.genMap k t)
  | value {k t : DamlType ν} (hkey : Habitable env k) (h : Loses env t) : Loses env (.genMap k t)
  | field {name : ν} {recordId : Option Identifier} {fields : List (String × DamlType ν)} {f : String × DamlType ν}
      (hdef : env name = .record recordId fields) (hall : ∀ f ∈ fields, Habitable env f.2) (hf : f ∈ fields)
      (h : Loses env f.2) : Loses env (.data name)
  | shadowed {name : ν} {recordId : Option Identifier} {pre post : List (String × DamlType ν)}
      {f : String × DamlType ν} (hdef : env name = .record recordId (pre ++ f :: post))
      (hall : ∀ g ∈ pre ++ f :: post, Habitable env g.2)
      (hlater : fieldLabel pre.length f.1 ∈ fieldLabels (pre.length + 1) (post.map Prod.fst))
      (h : Varies env f.2) : Loses env (.data name)
  | variant {name : ν} {variantId : Option Identifier} {constructors : List (String × DamlType ν)} {c : String}
      {t : DamlType ν} (hdef : env name = .variant variantId constructors) (hc : constructors.lookup c = some t)
      (h : Loses env t) : Loses env (.data name)

variable {env : ν → DataDef ν} {t : DamlType ν}

/-! ## Types with a value -/

theorem exists_rows {P : LfValue → DamlType ν → Prop} {fields : List (String × DamlType ν)}
    (h : ∀ f ∈ fields, ∃ v, P v f.2) : ∃ rows : List ((String × DamlType ν) × LfValue),
      rows.map Prod.fst = fields ∧ ∀ r ∈ rows, P r.2 r.1.2 := by
  induction fields with
  | nil => exact ⟨[], rfl, by simp⟩
  | cons f fields ih =>
    obtain ⟨v, hv⟩ := h f List.mem_cons_self
    obtain ⟨rows, rfl, hrows⟩ := ih fun g hg => h g (List.mem_cons_of_mem _ hg)
    exact ⟨(f, v) :: rows, rfl, List.forall_mem_cons.mpr ⟨hv, hrows⟩⟩

theorem exists_of_plain (h : t.Plain) : ∃ v, HasType env v t := by
  cases t with
  | unit => exact ⟨_, .unit⟩
  | bool => exact ⟨_, .bool true⟩
  | int64 => exact ⟨_, .int64 0⟩
  | date => exact ⟨_, .date 0⟩
  | timestamp => exact ⟨_, .timestamp 0⟩
  | numeric => exact ⟨_, .numeric ""⟩
  | party => exact ⟨_, .party ""⟩
  | text => exact ⟨_, .text ""⟩
  | contractId => exact ⟨_, .contractId ""⟩
  | _ => cases h

theorem Habitable.exists_value (h : Habitable env t) : ∃ v, HasType env v t := by
  induction h with
  | plain h => exact exists_of_plain h
  | optional t => exact ⟨_, .none t⟩
  | list t => exact ⟨.list [], .list (by simp)⟩
  | textMap t => exact ⟨_, @HasType.textMap ν env [] t List.nodup_nil (by simp)⟩
  | genMap k t => exact ⟨_, @HasType.genMap ν env [] k t List.nodup_nil (by simp) (by simp)⟩
  | record hdef _ ih =>
    obtain ⟨rows, rfl, hrows⟩ := exists_rows ih
    exact ⟨_, .record hdef hrows⟩
  | variant hdef hc _ ih =>
    obtain ⟨v, hv⟩ := ih
    exact ⟨_, .variant hdef hc hv⟩
  | enum hdef hc => exact ⟨_, .enum hdef hc⟩

theorem HasType.habitable {v : LfValue} (h : HasType env v t) : Habitable env t := by
  induction h with
  | none => exact .optional _
  | some => exact .optional _
  | list => exact .list _
  | textMap => exact .textMap _
  | genMap => exact .genMap _ _
  | record hdef _ ih =>
    refine .record hdef fun f hf => ?_
    obtain ⟨r, hr, rfl⟩ := List.mem_map.mp hf
    exact ih r hr
  | variant hdef hc _ ih => exact .variant hdef hc ih
  | enum hdef hc => exact .enum hdef hc
  | _ => exact .plain trivial

theorem hasType_singleton_textMap {v : LfValue} (h : HasType env v t) :
    HasType env (.textMap [("", some v)]) (.textMap t) :=
  @HasType.textMap ν env [("", v)] t (List.nodup_singleton _) (by simpa using h)

theorem hasType_singleton_genMap {k : DamlType ν} {key v : LfValue} (hkey : HasType env key k)
    (h : HasType env v t) : HasType env (.genMap [(some key, some v)]) (.genMap k t) :=
  @HasType.genMap ν env [(key, v)] k t (List.nodup_singleton _) (by simpa using hkey) (by simpa using h)

/-- Records that differ in one field at most. -/
theorem exists_records {name : ν} {recordId : Option Identifier} {pre post : List (String × DamlType ν)}
    {f : String × DamlType ν} (hdef : env name = .record recordId (pre ++ f :: post))
    (hall : ∀ g ∈ pre ++ f :: post, Habitable env g.2) :
    ∃ before after : List (String × Option LfValue), before.map Prod.fst = pre.map Prod.fst ∧
      after.map Prod.fst = post.map Prod.fst ∧ ∀ v, HasType env v f.2 →
        HasType env (.record recordId (before ++ (f.1, some v) :: after)) (.data name) := by
  obtain ⟨before, rfl, hbefore⟩ := exists_rows fun g hg => (hall g (List.mem_append_left _ hg)).exists_value
  obtain ⟨after, rfl, hafter⟩ := exists_rows fun g hg =>
    (hall g (List.mem_append_right _ (List.mem_cons_of_mem _ hg))).exists_value
  refine ⟨before.map fun r => (r.1.1, some r.2), after.map fun r => (r.1.1, some r.2), ?_, ?_, fun v hv => ?_⟩
  · rw [List.map_map, List.map_map]
    rfl
  · rw [List.map_map, List.map_map]
    rfl
  · have hrows : ∀ r ∈ before ++ (f, v) :: after, HasType env r.2 r.1.2 := by
      simp only [List.forall_mem_append, List.forall_mem_cons]
      exact ⟨hbefore, hv, hafter⟩
    have hrecord := @HasType.record ν env name recordId (before ++ (f, v) :: after)
      (by rw [hdef, List.map_append, List.map_cons]) hrows
    rwa [List.map_append, List.map_cons] at hrecord

theorem ordered_record_ne {recordId : Option Identifier} {before after : List (String × Option LfValue)}
    {label : String} {v w : LfValue} (h : ordered v ≠ ordered w) :
    ordered (.record recordId (before ++ (label, some v) :: after)) ≠
      ordered (.record recordId (before ++ (label, some w) :: after)) := by
  rw [ordered, ordered, orderedEntries_eq_map, orderedEntries_eq_map, List.map_append, List.map_append]
  intro heq
  have hrest := List.append_cancel_left (LfValue.record.inj heq).2
  simp only [List.map_cons, List.cons.injEq, Prod.mk.injEq, orderedOption, Option.some.injEq] at hrest
  exact h hrest.1.2

/-! ## Types with two different values -/

theorem exists_two_of_plain (h : t.Plain) (hunit : t ≠ .unit) :
    ∃ v w, HasType env v t ∧ HasType env w t ∧ ordered v ≠ ordered w := by
  cases t with
  | unit => exact absurd rfl hunit
  | bool => exact ⟨_, _, .bool true, .bool false, by simp [ordered]⟩
  | int64 => exact ⟨_, _, .int64 0, .int64 1, by simp [ordered]⟩
  | date => exact ⟨_, _, .date 0, .date 1, by simp [ordered]⟩
  | timestamp => exact ⟨_, _, .timestamp 0, .timestamp 1, by simp [ordered]⟩
  | numeric => exact ⟨_, _, .numeric "0", .numeric "1", by simp [ordered]⟩
  | party => exact ⟨_, _, .party "0", .party "1", by simp [ordered]⟩
  | text => exact ⟨_, _, .text "0", .text "1", by simp [ordered]⟩
  | contractId => exact ⟨_, _, .contractId "0", .contractId "1", by simp [ordered]⟩
  | _ => cases h

theorem Varies.exists_values (h : Varies env t) :
    ∃ v w, HasType env v t ∧ HasType env w t ∧ ordered v ≠ ordered w := by
  induction h with
  | plain h hunit => exact exists_two_of_plain h hunit
  | optional h =>
    obtain ⟨v, hv⟩ := h.exists_value
    exact ⟨_, _, .none _, .some hv, by simp [ordered, orderedOption]⟩
  | @list t h =>
    obtain ⟨v, hv⟩ := h.exists_value
    exact ⟨.list [], .list [v], .list (by simp), .list (by simpa using hv), by simp [ordered, orderedElements]⟩
  | @textMap t h =>
    obtain ⟨v, hv⟩ := h.exists_value
    refine ⟨_, _, @HasType.textMap ν env [] t List.nodup_nil (by simp), hasType_singleton_textMap hv, ?_⟩
    simp [ordered, orderedEntries, ofList, SortedMap.insert, insertEntries, empty]
  | @genMap k t hkey h =>
    obtain ⟨key, hkey⟩ := hkey.exists_value
    obtain ⟨v, hv⟩ := h.exists_value
    refine ⟨_, _, @HasType.genMap ν env [] k t List.nodup_nil (by simp) (by simp),
      hasType_singleton_genMap hkey hv, ?_⟩
    simp [ordered, orderedPairs]
  | record hdef hall hf _ ih =>
    obtain ⟨v, w, hv, hw, hne⟩ := ih
    obtain ⟨pre, post, rfl⟩ := List.append_of_mem hf
    obtain ⟨before, after, _, _, hrecord⟩ := exists_records hdef hall
    exact ⟨_, _, hrecord v hv, hrecord w hw, ordered_record_ne hne⟩
  | constructors hdef hc hc' hne h h' =>
    obtain ⟨v, hv⟩ := h.exists_value
    obtain ⟨w, hw⟩ := h'.exists_value
    exact ⟨_, _, .variant hdef hc hv, .variant hdef hc' hw, by simp [ordered, hne]⟩
  | variant hdef hc _ ih =>
    obtain ⟨v, w, hv, hw, hne⟩ := ih
    exact ⟨_, _, .variant hdef hc hv, .variant hdef hc hw, by simp [ordered, orderedOption, hne]⟩
  | enum hdef hc hc' hne => exact ⟨_, _, .enum hdef hc, .enum hdef hc', by simp [ordered, hne]⟩

theorem orderedEntries_rows {rows rows' : List ((String × DamlType ν) × LfValue)}
    (hfields : rows.map Prod.fst = rows'.map Prod.fst)
    (h : ∀ (i : ℕ) (hi : i < rows.length) (hi' : i < rows'.length), ordered rows[i].2 = ordered rows'[i].2) :
    orderedEntries (rows.map fun r => (r.1.1, some r.2)) = orderedEntries (rows'.map fun r => (r.1.1, some r.2)) := by
  have hlen : rows.length = rows'.length := by simpa using congrArg List.length hfields
  rw [orderedEntries_eq_map, orderedEntries_eq_map, List.map_map, List.map_map]
  refine List.ext_getElem (by simpa using hlen) fun i hi hi' => ?_
  rw [List.length_map] at hi hi'
  have hlabel : rows[i].1 = rows'[i].1 := by
    have hget := congrArg (fun l => l[i]?) hfields
    simpa [hi, hi'] using hget
  simp only [List.getElem_map, Function.comp, orderedOption, h i hi hi', hlabel]

theorem HasType.varies {v w : LfValue} (hv : HasType env v t) (hw : HasType env w t)
    (hne : ordered v ≠ ordered w) : Varies env t := by
  induction hv generalizing w with
  | unit => cases hw; exact absurd rfl hne
  | none t =>
    cases hw with
    | none => exact absurd rfl hne
    | some h => exact .optional h.habitable
  | some h => exact .optional h.habitable
  | @list vs t h =>
    cases hw with
    | @list ws t h' =>
      cases vs with
      | nil =>
        cases ws with
        | nil => exact absurd rfl hne
        | cons w ws => exact .list (h' w List.mem_cons_self).habitable
      | cons v vs => exact .list (h v List.mem_cons_self).habitable
  | @textMap es t _ h =>
    cases hw with
    | @textMap es' t _ h' =>
      cases es with
      | nil =>
        cases es' with
        | nil => exact absurd rfl hne
        | cons e es' => exact .textMap (h' e List.mem_cons_self).habitable
      | cons e es => exact .textMap (h e List.mem_cons_self).habitable
  | @genMap es k t _ hk h =>
    cases hw with
    | @genMap es' k t _ hk' h' =>
      cases es with
      | nil =>
        cases es' with
        | nil => exact absurd rfl hne
        | cons e es' =>
          exact .genMap (hk' e List.mem_cons_self).habitable (h' e List.mem_cons_self).habitable
      | cons e es => exact .genMap (hk e List.mem_cons_self).habitable (h e List.mem_cons_self).habitable
  | @record name recordId rows hdef h ih =>
    cases hw with
    | @record _ recordId' rows' hdef' h' =>
      obtain ⟨rfl, hfields⟩ := DataDef.record.inj (hdef.symm.trans hdef')
      by_contra hnot
      refine hne (congrArg (LfValue.record recordId) (orderedEntries_rows hfields fun i hi hi' => ?_))
      by_contra hdiffer
      have hlabel : rows'[i].1 = rows[i].1 := by
        have hget := congrArg (fun l => l[i]?) hfields
        simpa [hi, hi', eq_comm] using hget
      have hw := h' rows'[i] (List.getElem_mem hi')
      rw [hlabel] at hw
      refine hnot (.record hdef (fun f hf => ?_) (List.mem_map_of_mem (List.getElem_mem hi))
        (ih _ (List.getElem_mem hi) hw hdiffer))
      obtain ⟨r, hr, rfl⟩ := List.mem_map.mp hf
      exact (h r hr).habitable
    | variant hdef' => cases hdef.symm.trans hdef'
    | enum hdef' => cases hdef.symm.trans hdef'
  | @variant name variantId constructors c t v hdef hc h ih =>
    cases hw with
    | record hdef' => cases hdef.symm.trans hdef'
    | @variant _ variantId' constructors' c' t' w hdef' hc' h' =>
      obtain ⟨rfl, rfl⟩ := DataDef.variant.inj (hdef.symm.trans hdef')
      by_cases hsame : c = c'
      · subst hsame
        obtain rfl := Option.some.inj (hc.symm.trans hc')
        refine .variant hdef hc (ih h' fun heq => hne ?_)
        simp [ordered, orderedOption, heq]
      · exact .constructors hdef hc hc' hsame h.habitable h'.habitable
    | enum hdef' => cases hdef.symm.trans hdef'
  | @enum name enumId constructors c hdef hc =>
    cases hw with
    | record hdef' => cases hdef.symm.trans hdef'
    | variant hdef' => cases hdef.symm.trans hdef'
    | @enum _ enumId' constructors' c' hdef' hc' =>
      obtain ⟨rfl, rfl⟩ := DataDef.enum.inj (hdef.symm.trans hdef')
      exact .enum hdef hc hc' fun heq => hne (by rw [heq])
  | _ => exact .plain trivial (by simp)

/-! ## Values that cannot be told apart -/

variable (chrono : Chrono)

/-- A record shows a field whatever the other fields are. -/
theorem valueToJson_record_congr {recordId : Option Identifier} {before after : List (String × Option LfValue)}
    {label : String} {v w : LfValue} (h : valueToJson chrono v = valueToJson chrono w) :
    valueToJson chrono (.record recordId (before ++ (label, some v) :: after)) =
      valueToJson chrono (.record recordId (before ++ (label, some w) :: after)) := by
  simp only [valueToJson, fieldsToJson_append, fieldsToJson, valueOrNull, h]

theorem get?_ofList_at (pre post : List (String × Json)) (k q : String) (x : Json) :
    (ofList (pre ++ (k, x) :: post)).get? q =
      ((ofList post).get? q).or (if k = q then some x else (ofList pre).get? q) := by
  have hsplit : pre ++ (k, x) :: post = (pre ++ [(k, x)]) ++ post := by rw [List.append_assoc]; rfl
  rw [hsplit, get?_ofList_append, ofList_concat, get?_insert]

theorem ofList_shadowed {pre post : List (String × Json)} {k : String} {x y : Json} (h : k ∈ post.map Prod.fst) :
    ofList (pre ++ (k, x) :: post) = ofList (pre ++ (k, y) :: post) := by
  have hlater : ((ofList post).get? k).isSome := mem_keys.mp (keys_ofList.mpr h)
  refine ext_get? fun q => ?_
  rw [get?_ofList_at, get?_ofList_at]
  split_ifs with hq
  · obtain ⟨z, hz⟩ := Option.isSome_iff_exists.mp hlater
    rw [← hq, hz]
    rfl
  · rfl

/-- A field whose name a later one takes is not shown at all. -/
theorem valueToJson_record_shadowed {recordId : Option Identifier} {before after : List (String × Option LfValue)}
    {label : String} (h : fieldLabel before.length label ∈ fieldLabels (before.length + 1) (after.map Prod.fst))
    (v w : LfValue) : valueToJson chrono (.record recordId (before ++ (label, some v) :: after)) =
      valueToJson chrono (.record recordId (before ++ (label, some w) :: after)) := by
  simp only [valueToJson, fieldsToJson_append, fieldsToJson, Nat.zero_add]
  rw [ofList_shadowed]
  rwa [fieldsToJson_labels]

theorem Loses.exists_values (h : Loses env t) : ∃ v w, HasType env v t ∧ HasType env w t ∧
    valueToJson chrono v = valueToJson chrono w ∧ ordered v ≠ ordered w := by
  induction h with
  | nested t => exact ⟨_, _, .none _, .some (.none t), rfl, by simp [ordered, orderedOption]⟩
  | optional _ ih =>
    obtain ⟨v, w, hv, hw, heq, hne⟩ := ih
    exact ⟨_, _, .some hv, .some hw, heq, by simpa [ordered, orderedOption] using hne⟩
  | list _ ih =>
    obtain ⟨v, w, hv, hw, heq, hne⟩ := ih
    refine ⟨.list [v], .list [w], .list (by simpa using hv), .list (by simpa using hw), ?_, ?_⟩
    · simp only [valueToJson, elementsToJson, heq]
    · simpa [ordered, orderedElements] using hne
  | textMap _ ih =>
    obtain ⟨v, w, hv, hw, heq, hne⟩ := ih
    refine ⟨_, _, hasType_singleton_textMap hv, hasType_singleton_textMap hw, ?_, ?_⟩
    · simp only [valueToJson, entriesToJson, valueOrNull, heq]
    · simpa [ordered, orderedEntries, orderedOption, ofList, SortedMap.insert, insertEntries, empty] using hne
  | key _ h ih =>
    obtain ⟨v, w, hv, hw, heq, hne⟩ := ih
    obtain ⟨u, hu⟩ := h.exists_value
    refine ⟨_, _, hasType_singleton_genMap hv hu, hasType_singleton_genMap hw hu, ?_, ?_⟩
    · simp only [valueToJson, pairsToJson, valueOrNull, heq]
    · simpa [ordered, orderedPairs, orderedOption] using hne
  | value hkey _ ih =>
    obtain ⟨v, w, hv, hw, heq, hne⟩ := ih
    obtain ⟨u, hu⟩ := hkey.exists_value
    refine ⟨_, _, hasType_singleton_genMap hu hv, hasType_singleton_genMap hu hw, ?_, ?_⟩
    · simp only [valueToJson, pairsToJson, valueOrNull, heq]
    · simpa [ordered, orderedPairs, orderedOption] using hne
  | field hdef hall hf _ ih =>
    obtain ⟨v, w, hv, hw, heq, hne⟩ := ih
    obtain ⟨pre, post, rfl⟩ := List.append_of_mem hf
    obtain ⟨before, after, _, _, hrecord⟩ := exists_records hdef hall
    exact ⟨_, _, hrecord v hv, hrecord w hw, valueToJson_record_congr chrono heq, ordered_record_ne hne⟩
  | shadowed hdef hall hlater h =>
    obtain ⟨v, w, hv, hw, hne⟩ := h.exists_values
    obtain ⟨before, after, hbefore, hafter, hrecord⟩ := exists_records hdef hall
    rw [← hafter, ← List.length_map Prod.fst, ← hbefore, List.length_map] at hlater
    exact ⟨_, _, hrecord v hv, hrecord w hw, valueToJson_record_shadowed chrono hlater v w, ordered_record_ne hne⟩
  | variant hdef hc _ ih =>
    obtain ⟨v, w, hv, hw, heq, hne⟩ := ih
    refine ⟨_, _, .variant hdef hc hv, .variant hdef hc hw, ?_, ?_⟩
    · simp only [valueToJson, valueOrNull, heq]
    · simpa [ordered, orderedOption] using hne

end

/-! ## Numerals, dates and times -/

theorem toString_int_tail {i : ℤ} {c : Char} (h : c ∈ (toString i).toList.tail) : c.isDigit = true := by
  rw [show toString i = i.repr from rfl, Int.repr_eq_if] at h
  split_ifs at h with hi
  · rw [Nat.toList_repr] at h
    exact Nat.isDigit_of_mem_toDigits (by decide) (by decide) (List.mem_of_mem_tail h)
  · rw [String.toList_append, Nat.toList_repr] at h
    exact Nat.isDigit_of_mem_toDigits (by decide) (by decide) h

theorem toString_int_head {i : ℤ} {c : Char} {cs : List Char} (h : (toString i).toList = c :: cs) :
    c = '-' ∨ c.isDigit = true := by
  rw [show toString i = i.repr from rfl, Int.repr_eq_if] at h
  split_ifs at h with hi
  · rw [Nat.toList_repr] at h
    exact .inr (Nat.isDigit_of_mem_toDigits (by decide) (by decide) (h ▸ List.mem_cons_self))
  · rw [String.toList_append] at h
    exact .inl (List.cons.inj h).1.symm

/-- What the calendar library documents of its texts: they tell the times and the days apart, and
    carry the marks of RFC 3339, a `T` before the time and dashes after the year. -/
structure Chrono.Documented (chrono : Chrono) : Prop where
  times : ∀ a b s, chrono.rfc3339Micros a = some s → chrono.rfc3339Micros b = some s → a = b
  timeText : ∀ a s, chrono.rfc3339Micros a = some s → 'T' ∈ s.toList
  days : ∀ a b s, chrono.dateText a = some s → chrono.dateText b = some s → a / 86400 = b / 86400
  dayText : ∀ a s, chrono.dateText a = some s → '-' ∈ s.toList.tail

section
variable {chrono : Chrono} (hchrono : chrono.Documented)
include hchrono

theorem Chrono.Documented.time_ne {a : Int64} {s : String} (h : chrono.rfc3339Micros a = some s) (i : ℤ) :
    s ≠ toString i := by
  rintro rfl
  have hT := hchrono.timeText a _ h
  cases htext : (toString i).toList with
  | nil => rw [htext] at hT; cases hT
  | cons c cs =>
    rw [htext, List.mem_cons] at hT
    obtain rfl | hT := hT
    · exact absurd (toString_int_head htext) (by decide)
    · have htail : 'T' ∈ (toString i).toList.tail := by rwa [htext]
      exact absurd (toString_int_tail htail) (by decide)

theorem Chrono.Documented.day_ne {a : ℤ} {s : String} (h : chrono.dateText a = some s) (i : ℤ) :
    s ≠ toString i := by
  rintro rfl
  exact absurd (toString_int_tail (hchrono.dayText a _ h)) (by decide)

theorem date_inj {d e : Int32} (h : valueToJson chrono (.date d) = valueToJson chrono (.date e)) : d = e := by
  rw [← Int32.toInt_inj]
  simp only [valueToJson, Json.str.injEq] at h
  cases hd : chrono.dateText (d.toInt * 86400) with
  | none =>
    cases he : chrono.dateText (e.toInt * 86400) with
    | none =>
      rw [hd, he] at h
      exact Int.repr_injective h
    | some s =>
      rw [hd, he] at h
      exact absurd h.symm (hchrono.day_ne he _)
  | some s =>
    cases he : chrono.dateText (e.toInt * 86400) with
    | none =>
      rw [hd, he] at h
      exact absurd h (hchrono.day_ne hd _)
    | some s' =>
      rw [hd, he] at h
      have hday := hchrono.days _ _ s hd (by rw [he]; exact congrArg some h.symm)
      rwa [Int.mul_ediv_cancel _ (by decide), Int.mul_ediv_cancel _ (by decide)] at hday

theorem microsToRfc3339_inj {a b : UInt64} {s : String} (ha : microsToRfc3339 chrono a = some s)
    (hb : microsToRfc3339 chrono b = some s) : a.toInt64 = b.toInt64 := by
  rw [microsToRfc3339] at ha hb
  split_ifs at ha hb
  exact hchrono.times _ _ s ha hb

theorem microsToRfc3339_ne {a : UInt64} {s : String} (h : microsToRfc3339 chrono a = some s) (i : ℤ) :
    s ≠ toString i := by
  rw [microsToRfc3339] at h
  split_ifs at h
  exact hchrono.time_ne h i

theorem timestamp_inj {t u : Int64} (h : valueToJson chrono (.timestamp t) = valueToJson chrono (.timestamp u)) :
    t = u := by
  simp only [valueToJson, Json.str.injEq] at h
  cases ht : microsToRfc3339 chrono t.toUInt64 with
  | none =>
    cases hu : microsToRfc3339 chrono u.toUInt64 with
    | none =>
      rw [ht, hu] at h
      exact Int64.toInt_inj.mp (Int.repr_injective h)
    | some s =>
      rw [ht, hu] at h
      exact absurd h.symm (microsToRfc3339_ne hchrono hu _)
  | some s =>
    cases hu : microsToRfc3339 chrono u.toUInt64 with
    | none =>
      rw [ht, hu] at h
      exact absurd h (microsToRfc3339_ne hchrono ht _)
    | some s' =>
      rw [ht, hu] at h
      exact microsToRfc3339_inj hchrono ht (by rw [hu]; exact congrArg some h.symm)

end

/-! ## Rendering what can be told apart -/

theorem map_eq_of_map_eq {α β γ : Type} {f : α → β} {g : α → γ} {l l' : List α}
    (h : ∀ a ∈ l, ∀ b ∈ l', f a = f b → g a = g b) (heq : l.map f = l'.map f) : l.map g = l'.map g := by
  induction l generalizing l' with
  | nil => rw [List.map_eq_nil_iff.mp heq.symm]
  | cons a l ih =>
    obtain ⟨b, rest, rfl, hb, hrest⟩ := List.map_eq_cons_iff.mp heq.symm
    rw [List.map_cons, List.map_cons, h a List.mem_cons_self b List.mem_cons_self hb.symm,
      ih (fun a ha b hb => h a (List.mem_cons_of_mem _ ha) b (List.mem_cons_of_mem _ hb)) hrest.symm]

section
variable {ν : Type} {env : ν → DataDef ν} {t : DamlType ν} (chrono : Chrono)

/-- Only an optional is ever shown as null. -/
theorem HasType.optional_of_null {v : LfValue} (h : HasType env v t) (hnull : valueToJson chrono v = .null) :
    ∃ t', t = .optional t' := by
  cases h with
  | none => exact ⟨_, rfl⟩
  | some => exact ⟨_, rfl⟩
  | _ => simp [valueToJson] at hnull

/-- What stands under the name of a field that no later field takes. -/
theorem get?_fieldsToJson {rows : List ((String × DamlType ν) × LfValue)} {i : ℕ} (hi : i < rows.length)
    (hlast : fieldLabel i rows[i].1.1 ∉ fieldLabels (i + 1) ((rows.drop (i + 1)).map fun r => r.1.1)) :
    (ofList (fieldsToJson chrono 0 (rows.map fun r => (r.1.1, some r.2)))).get? (fieldLabel i rows[i].1.1) =
      some (valueToJson chrono rows[i].2) := by
  have hsplit : rows = rows.take i ++ rows[i] :: rows.drop (i + 1) := by
    rw [← List.drop_eq_getElem_cons hi, List.take_append_drop]
  have hlen : (rows.take i).length = i := List.length_take_of_le hi.le
  have habsent : (ofList (fieldsToJson chrono (i + 1) ((rows.drop (i + 1)).map fun r => (r.1.1, some r.2)))).get?
      (fieldLabel i rows[i].1.1) = none := by
    rw [get?_eq_none, keys_ofList, fieldsToJson_labels, List.map_map]
    exact hlast
  have hjson : fieldsToJson chrono 0 (rows.map fun r => (r.1.1, some r.2)) =
      fieldsToJson chrono 0 ((rows.take i).map fun r => (r.1.1, some r.2)) ++
        (fieldLabel i rows[i].1.1, valueToJson chrono rows[i].2) ::
          fieldsToJson chrono (i + 1) ((rows.drop (i + 1)).map fun r => (r.1.1, some r.2)) := by
    conv_lhs => rw [hsplit, List.map_append, List.map_cons, fieldsToJson_append, fieldsToJson, List.length_map, hlen,
      Nat.zero_add]
    rfl
  rw [hjson, get?_ofList_at, habsent, if_pos rfl]
  rfl

theorem loses_of_shadowed {name : ν} {recordId : Option Identifier} {fields : List (String × DamlType ν)}
    (hdef : env name = .record recordId fields) (hall : ∀ f ∈ fields, Habitable env f.2) {i : ℕ}
    (hi : i < fields.length)
    (hlater : fieldLabel i fields[i].1 ∈ fieldLabels (i + 1) ((fields.drop (i + 1)).map Prod.fst))
    (h : Varies env fields[i].2) : Loses env (.data name) := by
  have hsplit : fields.take i ++ fields[i] :: fields.drop (i + 1) = fields := by
    rw [← List.drop_eq_getElem_cons hi, List.take_append_drop]
  have hlen : (fields.take i).length = i := List.length_take_of_le hi.le
  rw [← hsplit] at hdef hall
  exact .shadowed hdef hall (by rwa [hlen]) h

theorem mem_of_ofList_eq {β γ δ : Type} {f : β → γ} {g : β → δ} {l l' : List (String × β)}
    (hl : (l.map Prod.fst).Nodup) (hl' : (l'.map Prod.fst).Nodup)
    (h : ∀ e ∈ l, ∀ e' ∈ l', f e.2 = f e'.2 → g e.2 = g e'.2)
    (heq : ofList (l.map fun e => (e.1, f e.2)) = ofList (l'.map fun e => (e.1, f e.2))) {e : String × δ}
    (he : e ∈ l.map fun e => (e.1, g e.2)) : e ∈ l'.map fun e => (e.1, g e.2) := by
  obtain ⟨b, hb, rfl⟩ := List.mem_map.mp he
  have hkeys : ∀ {α : Type} (f : β → α) (l : List (String × β)),
      (l.map fun e => (e.1, f e.2)).map Prod.fst = l.map Prod.fst := by simp
  have hget : (ofList (l.map fun e => (e.1, f e.2))).get? b.1 = some (f b.2) :=
    (get?_ofList (by rwa [hkeys])).mpr (List.mem_map_of_mem (f := fun e => (e.1, f e.2)) hb)
  rw [heq, get?_ofList (by rwa [hkeys])] at hget
  obtain ⟨b', hb', heq'⟩ := List.mem_map.mp hget
  obtain ⟨hkey, hvalue⟩ := Prod.mk.inj heq'
  rw [← hkey, h b hb b' hb' hvalue.symm]
  exact List.mem_map_of_mem (f := fun e => (e.1, g e.2)) hb'

/-- Maps with equal entries in one reading have equal entries in another that follows from it. -/
theorem ofList_eq_of_ofList_eq {β γ δ : Type} {f : β → γ} {g : β → δ} {l l' : List (String × β)}
    (hl : (l.map Prod.fst).Nodup) (hl' : (l'.map Prod.fst).Nodup)
    (h : ∀ e ∈ l, ∀ e' ∈ l', f e.2 = f e'.2 → g e.2 = g e'.2)
    (heq : ofList (l.map fun e => (e.1, f e.2)) = ofList (l'.map fun e => (e.1, f e.2))) :
    ofList (l.map fun e => (e.1, g e.2)) = ofList (l'.map fun e => (e.1, g e.2)) := by
  have hkeys : ∀ l : List (String × β), (l.map fun e => (e.1, g e.2)).map Prod.fst = l.map Prod.fst := by simp
  refine ext_get? fun k => ?_
  ext u
  rw [get?_ofList (by rwa [hkeys]), get?_ofList (by rwa [hkeys])]
  exact ⟨mem_of_ofList_eq hl hl' h heq,
    mem_of_ofList_eq hl' hl (fun e he e' he' hf => (h e' he' e he hf.symm).symm) heq.symm⟩

theorem ordered_eq_of_json (hchrono : chrono.Documented) {v w : LfValue} (hloses : ¬ Loses env t)
    (hv : HasType env v t) (hw : HasType env w t) (h : valueToJson chrono v = valueToJson chrono w) :
    ordered v = ordered w := by
  induction hv generalizing w with
  | unit => cases hw; rfl
  | bool b => cases hw; simp_all [valueToJson, ordered]
  | int64 i =>
    cases hw with
    | int64 j =>
      simp only [valueToJson, Json.str.injEq] at h
      rw [Int64.toInt_inj.mp (Int.repr_injective h)]
  | date d =>
    cases hw with
    | date e => rw [date_inj hchrono h]
  | timestamp t =>
    cases hw with
    | timestamp u => rw [timestamp_inj hchrono h]
  | numeric n => cases hw; simp_all [valueToJson, ordered]
  | party p => cases hw; simp_all [valueToJson, ordered]
  | text t => cases hw; simp_all [valueToJson, ordered]
  | contractId c => cases hw; simp_all [valueToJson, ordered]
  | none t =>
    cases hw with
    | none => rfl
    | some hw =>
      obtain ⟨t', rfl⟩ := hw.optional_of_null chrono h.symm
      exact absurd (.nested t') hloses
  | some hv ih =>
    cases hw with
    | none =>
      obtain ⟨t', rfl⟩ := hv.optional_of_null chrono h
      exact absurd (.nested t') hloses
    | some hw => simp [ordered, orderedOption, ih (fun hl => hloses (.optional hl)) hw h]
  | @list vs t hvs ih =>
    cases hw with
    | @list ws t hws =>
      simp only [valueToJson, elementsToJson_eq_map, Json.arr.injEq] at h
      simp only [ordered, orderedElements_eq_map, LfValue.list.injEq]
      exact map_eq_of_map_eq (fun v hv w hw => ih v hv (fun hl => hloses (.list hl)) (hws w hw)) h
  | @textMap es t hdistinct hes ih =>
    cases hw with
    | @textMap es' t hdistinct' hes' =>
      simp only [valueToJson, entriesToJson_eq_map, List.map_map, Json.obj.injEq] at h
      simp only [ordered, orderedEntries_eq_map, List.map_map, LfValue.textMap.injEq]
      refine congrArg entries (ofList_eq_of_ofList_eq (f := valueToJson chrono) (g := fun v => some (ordered v))
        hdistinct hdistinct' (fun e he e' he' hjson => ?_) (ext_entries h))
      exact congrArg some (ih e he (fun hl => hloses (.textMap hl)) (hes' e' he') hjson)
  | @genMap es k t _ hkeys hvalues ihKeys ihValues =>
    cases hw with
    | @genMap es' k t _ hkeys' hvalues' =>
      simp only [valueToJson, pairsToJson_eq_map, List.map_map, Json.arr.injEq] at h
      simp only [ordered, orderedPairs_eq_map, List.map_map, LfValue.genMap.injEq]
      refine map_eq_of_map_eq (fun e he e' he' hjson => ?_) h
      simp only [Function.comp, valueOrNull, Json.arr.injEq, List.cons.injEq, and_true] at hjson
      have hkey := ihKeys e he (fun hl => hloses (.key hl (hvalues e he).habitable)) (hkeys' e' he') hjson.1
      have hvalue := ihValues e he (fun hl => hloses (.value (hkeys e he).habitable hl)) (hvalues' e' he') hjson.2
      simp only [Function.comp, orderedOption, hkey, hvalue]
  | @record name recordId rows hdef hrows ih =>
    cases hw with
    | @record _ recordId' rows' hdef' hrows' =>
      obtain ⟨rfl, hfields⟩ := DataDef.record.inj (hdef.symm.trans hdef')
      have hall : ∀ f ∈ rows.map Prod.fst, Habitable env f.2 := by
        intro f hf
        obtain ⟨r, hr, rfl⟩ := List.mem_map.mp hf
        exact (hrows r hr).habitable
      simp only [valueToJson, Json.obj.injEq] at h
      refine congrArg (LfValue.record recordId) (orderedEntries_rows hfields fun i hi hi' => ?_)
      have hlabel : rows'[i].1 = rows[i].1 := by
        have hget := congrArg (fun l => l[i]?) hfields
        simpa [hi, hi', eq_comm] using hget
      have hw := hrows' rows'[i] (List.getElem_mem hi')
      rw [hlabel] at hw
      by_cases hlater : fieldLabel i rows[i].1.1 ∈ fieldLabels (i + 1) ((rows.drop (i + 1)).map fun r => r.1.1)
      · -- Whatever is not shown has one value only.
        by_contra hne
        refine hloses (loses_of_shadowed hdef hall (i := i) (by simpa using hi) ?_ ?_)
        · simpa [← List.map_drop, List.map_map, Function.comp_def] using hlater
        · simpa using (hrows _ (List.getElem_mem hi)).varies hw hne
      · have hlabels : (rows.drop (i + 1)).map (fun r => r.1.1) = (rows'.drop (i + 1)).map fun r => r.1.1 := by
          have hdrop := congrArg (fun l => (l.drop (i + 1)).map Prod.fst) hfields
          simpa [← List.map_drop, List.map_map, Function.comp_def] using hdrop
        have hshown := get?_fieldsToJson chrono hi hlater
        have hshown' := get?_fieldsToJson chrono hi' (by rwa [hlabel, ← hlabels])
        rw [ext_entries h, ← hlabel, hshown'] at hshown
        exact ih _ (List.getElem_mem hi) (fun hl => hloses (.field hdef hall
          (List.mem_map_of_mem (List.getElem_mem hi)) hl)) hw (Option.some.inj hshown).symm
    | variant hdef' => cases hdef.symm.trans hdef'
    | enum hdef' => cases hdef.symm.trans hdef'
  | @variant name variantId constructors c t v hdef hc hv ih =>
    cases hw with
    | record hdef' => cases hdef.symm.trans hdef'
    | @variant _ variantId' constructors' c' t' w hdef' hc' hw =>
      obtain ⟨rfl, rfl⟩ := DataDef.variant.inj (hdef.symm.trans hdef')
      simp only [valueToJson, valueOrNull, Json.obj.injEq, List.cons.injEq, Prod.mk.injEq, Json.str.injEq,
        true_and, and_true] at h
      obtain ⟨rfl, hvalue⟩ := h
      obtain rfl := Option.some.inj (hc.symm.trans hc')
      simp only [ordered, orderedOption, ih (fun hl => hloses (.variant hdef hc hl)) hw hvalue]
    | enum hdef' => cases hdef.symm.trans hdef'
  | @enum name enumId constructors c hdef hc =>
    cases hw with
    | record hdef' => cases hdef.symm.trans hdef'
    | variant hdef' => cases hdef.symm.trans hdef'
    | @enum _ enumId' constructors' c' hdef' hc' =>
      obtain ⟨rfl, rfl⟩ := DataDef.enum.inj (hdef.symm.trans hdef')
      simp only [valueToJson, Json.str.injEq] at h
      rw [h]

/-- Values of the type with equal JSON are equal, up to the order of the entries of text maps. -/
def RendersFaithfully (env : ν → DataDef ν) (t : DamlType ν) : Prop :=
  ∀ v w, HasType env v t → HasType env w t → valueToJson chrono v = valueToJson chrono w → ordered v = ordered w

theorem renders_faithfully_iff (hchrono : chrono.Documented) (env : ν → DataDef ν) (t : DamlType ν) :
    RendersFaithfully chrono env t ↔ ¬ Loses env t := by
  constructor
  · intro h hloses
    obtain ⟨v, w, hv, hw, heq, hne⟩ := hloses.exists_values chrono
    exact hne (h v w hv hw heq)
  · intro hloses v w hv hw heq
    exact ordered_eq_of_json chrono hchrono hloses hv hw heq

end

/-! ## A moment and a day -/

def sampleChrono : Chrono where
  rfc3339Micros t := if t = 1700000000000000 then some "2023-11-14T22:13:20.000000Z" else none
  dateText seconds := if seconds = 0 then some "1970-01-01" else none

theorem sampleChrono_documented : sampleChrono.Documented where
  times := by
    intro a b s ha hb
    simp only [sampleChrono, Option.ite_none_right_eq_some] at ha hb
    rw [ha.1, hb.1]
  timeText := by
    intro a s ha
    simp only [sampleChrono, Option.ite_none_right_eq_some, Option.some.injEq] at ha
    rw [← ha.2]
    decide
  days := by
    intro a b s ha hb
    simp only [sampleChrono, Option.ite_none_right_eq_some] at ha hb
    rw [ha.1, hb.1]
  dayText := by
    intro a s ha
    simp only [sampleChrono, Option.ite_none_right_eq_some, Option.some.injEq] at ha
    rw [← ha.2]
    decide

def sampleEnv (_ : String) : DataDef String := .record none [("_1", .text), ("", .text)]

-- The second field is shown under the label of the first.
example : valueToJson sampleChrono (.record none [("_1", some (.text "first")), ("", some (.text "second"))]) =
    .obj [("_1", .str "second")] := by rfl

theorem renders_faithfully_iff_times :
    RendersFaithfully sampleChrono sampleEnv (.genMap .party (.optional .timestamp)) := by
  refine (renders_faithfully_iff sampleChrono sampleChrono_documented sampleEnv _).mpr fun h => ?_
  cases h with
  | key hkey => cases hkey
  | value _ h =>
    cases h with
    | optional h => cases h

/-- An absent optional text and a present one that is absent inside are shown alike. -/
theorem nested_optionals_collapse : ¬ RendersFaithfully sampleChrono sampleEnv (.optional (.optional .text)) := by
  intro h
  have heq := h (.optional none) (.optional (some (.optional none))) (.none _) (.some (.none _)) rfl
  simp [ordered, orderedOption] at heq

end AssuranceLayer.DamlValue
