import AssuranceLayer.Merkle

set_option autoImplicit false

/-!
The texts and the byte strings of maps of amounts read back. Of a text the pieces between bars are read,
each at its last colon; of a byte string the counts and the lengths tell where the map ends.
-/
namespace AssuranceLayer.Decoding
open Framing Amount Sums Canonical Merkle SortedMap

/-- No name holds the bar that stands between two entries. -/
def Plain (m : AmountMap) : Prop := ∀ k ∈ m.keys, '|' ∉ k.toList

instance (m : AmountMap) : Decidable (Plain m) := inferInstanceAs (Decidable (∀ _ ∈ _, _))

/-- The names and amounts a text spells, in its order. -/
def readEntries (text : List Char) : List (List Char × U128) := (text.splitOn '|').filterMap readPiece

theorem readEntries_intercalate {l : List (String × U128)} (h : ∀ e ∈ l, '|' ∉ e.1.toList) :
    readEntries (['|'].intercalate (l.map renderChars)) = l.map fun e => (e.1.toList, e.2) := by
  obtain rfl | hne := eq_or_ne l []
  · rfl
  · have hpieces : ∀ piece ∈ l.map renderChars, '|' ∉ piece := by
      intro piece hpiece
      obtain ⟨e, he, rfl⟩ := List.mem_map.mp hpiece
      exact bar_not_mem_render (h e he)
    have hsplit := List.splitOn_intercalate '|' hpieces (by simpa using hne)
    rw [readEntries, hsplit, List.filterMap_map, ← List.filterMap_eq_map]
    exact List.filterMap_congr fun e _ => readPiece_render e

/-- The text of a map whose names have no bar reads back as its entries. -/
theorem readEntries_canonical {m : AmountMap} (h : Plain m) :
    readEntries (sumsCanonical m).toList = m.entries.map fun e => (e.1.toList, e.2) := by
  rw [sumsCanonical_toList]
  exact readEntries_intercalate fun e he => h e.1 (List.mem_map_of_mem he)

theorem sumsCanonical_inj {m n : AmountMap} (hm : Plain m) (hn : Plain n)
    (h : sumsCanonical m = sumsCanonical n) : m = n := by
  have hread := readEntries_canonical hm
  rw [h, readEntries_canonical hn] at hread
  refine ext_entries (List.map_injective_iff.mpr (fun e f hef => ?_) hread.symm)
  obtain ⟨hname, hamount⟩ := Prod.mk.inj hef
  exact Prod.ext (String.toList_inj.mp hname) hamount

/-- With a bar in its name one entry reads as two. -/
example : sumsCanonical (ofList [("A:0.000000000000000001|B", 2)]) = sumsCanonical (ofList [("A", 1), ("B", 2)]) := by
  decide +kernel

theorem canonicalBalances_perm {l l' : List (String × U128)} (hnodup : (l.map Prod.fst).Nodup)
    (h : l'.Perm l) : canonicalBalances l' = .ok (sumsCanonical (ofList l)) := by
  rw [canonicalBalances_eq_ok, ofList_perm h hnodup]
  exact ⟨(h.map Prod.fst).nodup_iff.mpr hnodup, rfl⟩

/-- Texts of maps without bars in their names and byte strings of maps can be read one way only, and a
list of balances has the text of its map in whatever order it is. -/
theorem encodings_decodable :
    (∀ m n : AmountMap, Plain m → Plain n → sumsCanonical m = sumsCanonical n → m = n) ∧
    (∀ mapName asset, isSafeName mapName = true → isSafeName asset = true →
      '|' ∉ (qualified mapName asset).toList) ∧
    (∀ m n : AmountMap, ShortMap m → ShortMap n → ∀ s t, lpmap m ++ s = lpmap n ++ t → m = n ∧ s = t) ∧
    ∀ l l' : List (String × U128), (l.map Prod.fst).Nodup → l'.Perm l →
      canonicalBalances l' = .ok (sumsCanonical (ofList l)) :=
  ⟨fun _ _ => sumsCanonical_inj, fun _ _ => qualified_plain, fun m n hm hn s t => framed_lpmap m n hm hn s t,
    fun _ _ => canonicalBalances_perm⟩

theorem encodings_decodable_pair :
    (ofList [("a:b.1", 1), ("c", 2)] : AmountMap) = ofList [("c", 2), ("a:b.1", 1)] ∧
    '|' ∉ (qualified "collateral" "USD.A-1").toList ∧
    ((ofList [("a|b", 1), ("c", 2)] : AmountMap) = ofList [("c", 2), ("a|b", 1)] ∧ ([7] : List UInt8) = [7]) ∧
    canonicalBalances [("c", 2), ("a:b.1", 1)] = .ok (sumsCanonical (ofList [("a:b.1", 1), ("c", 2)])) := by
  obtain ⟨htext, hqualified, hbytes, hperm⟩ := encodings_decodable
  exact ⟨htext _ _ (by decide +kernel) (by decide +kernel) (by decide +kernel),
    hqualified _ _ (by decide) (by decide),
    hbytes _ _ (by decide +kernel) (by decide +kernel) _ _ (by decide +kernel),
    hperm _ _ (by decide) (List.Perm.swap _ _ _)⟩

end AssuranceLayer.Decoding
