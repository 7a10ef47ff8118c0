import AssuranceLayer.JavaScript
import AssuranceLayer.Json

set_option autoImplicit false

/-!
What `JSON.parse` makes of a document. Of members with one name the last counts, as in a map that
is filled in their order.
-/
namespace AssuranceLayer.JavaScript
open Utf16 Binary64

section Members
variable {α β : Type}

theorem lookup_cons_ite {κ : Type} [BEq κ] [LawfulBEq κ] [DecidableEq κ] (p : κ × α) (l : List (κ × α)) (k : κ) :
    (p :: l).lookup k = if k = p.1 then some p.2 else l.lookup k := by
  rw [List.lookup_cons]
  by_cases hk : k = p.1
  · rw [if_pos hk, hk, beq_self_eq_true]
  · rw [if_neg hk, beq_eq_false_iff_ne.mpr hk]

theorem lookup_insertProp {props : List (JsString × α)} {name : JsString} (h : name ∉ props.map Prod.fst)
    (v : α) (k : JsString) :
    (insertProp name v props).lookup k = if k = name then some v else props.lookup k := by
  induction props with
  | nil => exact lookup_cons_ite (name, v) [] k
  | cons p rest ih =>
    rw [List.map_cons, List.mem_cons, not_or] at h
    rw [insertProp]
    split_ifs with hbefore hk hk
    · rw [lookup_cons_ite, if_pos hk]
    · rw [lookup_cons_ite, if_neg hk]
    · rw [lookup_cons_ite, ih h.2, if_pos hk, if_neg (hk ▸ h.1)]
    · rw [lookup_cons_ite, lookup_cons_ite, ih h.2, if_neg hk]

theorem lookup_replace (props : List (JsString × α)) (name : JsString) (v : α) (k : JsString) :
    (props.map fun p => if p.1 = name then (name, v) else p).lookup k =
      if k = name ∧ name ∈ props.map Prod.fst then some v else props.lookup k := by
  induction props with
  | nil => simp
  | cons p rest ih =>
    rw [List.map_cons, lookup_cons_ite, ih, lookup_cons_ite]
    by_cases hp : p.1 = name
    · subst hp
      by_cases hk : k = p.1 <;> simp [hk]
    · have hne : name ≠ p.1 := Ne.symm hp
      have hmem : name ∈ (p :: rest).map Prod.fst ↔ name ∈ rest.map Prod.fst := by simp [hne]
      simp only [if_neg hp, hmem]
      by_cases hk : k = name
      · simp [hk, hne]
      · simp [hk]

theorem lookup_setProp (props : List (JsString × α)) (name : JsString) (v : α) (k : JsString) :
    (setProp props name v).lookup k = if k = name then some v else props.lookup k := by
  rw [setProp]
  split_ifs with hmem hk hk
  · rw [lookup_replace, if_pos ⟨hk, hmem⟩]
  · rw [lookup_replace, if_neg fun h => hk h.1]
  · rw [lookup_insertProp hmem, if_pos hk]
  · rw [lookup_insertProp hmem, if_neg hk]

theorem fromEntries_concat (entries : List (JsString × α)) (e : JsString × α) :
    fromEntries (entries ++ [e]) = setProp (fromEntries entries) e.1 e.2 := by
  rw [fromEntries, List.foldl_append]
  rfl

theorem lookup_fromEntries (entries : List (JsString × α)) (k : JsString) :
    (fromEntries entries).lookup k = entries.reverse.lookup k := by
  induction entries using List.reverseRecOn with
  | nil => rfl
  | append_singleton entries e ih =>
    rw [fromEntries_concat, lookup_setProp, ih, List.reverse_append, List.reverse_singleton,
      List.singleton_append, lookup_cons_ite]

theorem lookup_map_ofString (entries : List (String × α)) (f : α → β) (name : String) :
    (entries.map fun e => (ofString e.1, f e.2)).lookup (ofString name) = (entries.lookup name).map f := by
  induction entries with
  | nil => rfl
  | cons e entries ih =>
    rw [List.map_cons, lookup_cons_ite, lookup_cons_ite, ih]
    by_cases h : name = e.1
    · rw [if_pos h, if_pos (ofString_inj.mpr h)]
      rfl
    · rw [if_neg h, if_neg (mt ofString_inj.mp h)]

theorem lookup_reverse {entries : List (String × Json)} (h : (entries.map Prod.fst).Nodup) (name : String) :
    entries.reverse.lookup name = entries.lookup name := by
  induction entries with
  | nil => rfl
  | cons e entries ih =>
    rw [List.map_cons, List.nodup_cons] at h
    rw [List.reverse_cons, List.lookup_append, ih h.2, lookup_cons_ite, lookup_cons_ite, List.lookup_nil]
    split_ifs with hname
    · rw [Json.lookup_of_not_mem (hname ▸ h.1)]
      rfl
    · rw [Option.or_none]

end Members

mutual

def Js.ofJson : Json → Js
  | .null => .null
  | .bool b => .bool b
  | .num n => .num (ofNat n)
  | .str s => Js.string s
  | .arr items => .arr (ofItems items)
  | .obj entries => .obj (fromEntries (ofMembers entries))

def ofItems : List Json → List Js
  | [] => []
  | j :: items => Js.ofJson j :: ofItems items

def ofMembers : List (String × Json) → List (JsString × Js)
  | [] => []
  | (name, j) :: entries => (ofString name, Js.ofJson j) :: ofMembers entries

end

theorem ofItems_eq_map (items : List Json) : ofItems items = items.map Js.ofJson := by
  induction items with
  | nil => rfl
  | cons j items ih => rw [ofItems, ih, List.map_cons]

theorem ofMembers_eq_map (entries : List (String × Json)) :
    ofMembers entries = entries.map fun e => (ofString e.1, Js.ofJson e.2) := by
  induction entries with
  | nil => rfl
  | cons e entries ih =>
    obtain ⟨name, j⟩ := e
    rw [ofMembers, ih, List.map_cons]

/-- A member of an object without repeated names. -/
theorem prop_ofJson {entries : List (String × Json)} (h : (entries.map Prod.fst).Nodup) (name : String) :
    (Js.ofJson (.obj entries)).prop name = ((entries.lookup name).map Js.ofJson).getD .undefined := by
  rw [Js.ofJson, Js.prop, lookup_fromEntries, ofMembers_eq_map, ← List.map_reverse, lookup_map_ofString,
    lookup_reverse h]

theorem prop_of_lookup {entries : List (String × Json)} (h : (entries.map Prod.fst).Nodup) {name : String}
    {j : Json} (hname : entries.lookup name = some j) : (Js.ofJson (.obj entries)).prop name = Js.ofJson j := by
  rw [prop_ofJson h, hname]
  rfl

theorem prop_of_absent {entries : List (String × Json)} (h : (entries.map Prod.fst).Nodup) {name : String}
    (hname : entries.lookup name = none) : (Js.ofJson (.obj entries)).prop name = .undefined := by
  rw [prop_ofJson h, hname]
  rfl

theorem obj_of_isObject {j : Json} (h : IsObject (Js.ofJson j)) : ∃ entries, j = .obj entries := by
  obtain ⟨props, hprops⟩ := h
  cases j with
  | obj entries => exact ⟨entries, rfl⟩
  | _ => cases hprops

end AssuranceLayer.JavaScript
