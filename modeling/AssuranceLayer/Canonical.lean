import AssuranceLayer.Sums

set_option autoImplicit false

/-!
The delimiter-joined text of a map of amounts, and what it says about the map when names may hold
the delimiter. A text spells an amount for a name wherever a piece between two bars reads
`name:amount`; names that hold a bar spell amounts for other names, here called hidden.
-/
namespace AssuranceLayer.Canonical
open Amount Sums SortedMap

/-- `ASSET:int.<18 digits>`. -/
def renderEntry (e : String × U128) : String := e.1 ++ ":" ++ formatAmount18dp e.2

/-- The rendered entries in key order, joined by `|`. -/
def sumsCanonical (sums : AmountMap) : String :=
  String.intercalate "|" (sums.entries.map renderEntry)

def renderChars (e : String × U128) : List Char := e.1.toList ++ ':' :: amountChars e.2

theorem renderEntry_toList (e : String × U128) : (renderEntry e).toList = renderChars e := by
  have hamount : (formatAmount18dp e.2).toList = amountChars e.2 := String.toList_ofList
  rw [renderEntry, String.toList_append, String.toList_append, hamount, List.append_assoc]
  rfl

theorem sumsCanonical_toList (sums : AmountMap) :
    (sumsCanonical sums).toList = ['|'].intercalate (sums.entries.map renderChars) := by
  rw [sumsCanonical, String.toList_intercalate, List.map_map]
  congr 1
  exact List.map_congr_left fun e _ => renderEntry_toList e

/-! ## What a text spells -/

/-- The name and the canonical amount of a piece. The colon is the last one: amounts have none. -/
def readPiece (piece : List Char) : Option (List Char × U128) :=
  match splitOnce ':' piece.reverse with
  | none => none
  | some (amt, name) =>
    match parseAmount18dp (String.ofList amt.reverse) with
    | .ok v => if amountChars v = amt.reverse then some (name.reverse, v) else none
    | .error _ => none

theorem readPiece_render (e : String × U128) : readPiece (renderChars e) = some (e.1.toList, e.2) := by
  have hrev : (renderChars e).reverse = (amountChars e.2).reverse ++ ':' :: e.1.toList.reverse := by
    simp [renderChars]
  have hcolon : ':' ∉ (amountChars e.2).reverse := by
    rw [List.mem_reverse]
    exact not_mem_amountChars (by decide) (by decide) e.2
  have hparse : parseAmount18dp (String.ofList (amountChars e.2)) = .ok e.2 := parse_format e.2
  rw [readPiece, hrev, splitOnce_append hcolon]
  simp only [List.reverse_reverse, hparse, ↓reduceIte]

def pieceAmount (a : String) (piece : List Char) : ℕ :=
  match readPiece piece with
  | some (name, v) => if name = a.toList then v.val else 0
  | none => 0

/-- The amount a text spells for a name, over all pieces between bars. -/
def spelled (a : String) (text : List Char) : ℕ := ((text.splitOn '|').map (pieceAmount a)).sum

theorem spelled_bar (a : String) (l r : List Char) :
    spelled a (l ++ '|' :: r) = spelled a l + spelled a r := by
  rw [spelled, List.splitOn_eq_splitOnP, List.splitOnP_append_cons _ _ (by simp), List.map_append,
    List.sum_append]
  rfl

theorem spelled_intercalate (a : String) (pieces : List (List Char)) :
    spelled a (['|'].intercalate pieces) = (pieces.map (spelled a)).sum := by
  induction pieces with
  | nil => rfl
  | cons p ps ih =>
    cases ps with
    | nil => simp [List.intercalate]
    | cons q qs =>
      have hjoin : ['|'].intercalate (p :: q :: qs) = p ++ '|' :: ['|'].intercalate (q :: qs) := by
        simp [List.intercalate]
      rw [hjoin, spelled_bar, ih]
      rfl

theorem bar_not_mem_render {e : String × U128} (h : '|' ∉ e.1.toList) : '|' ∉ renderChars e := by
  rw [renderChars, List.mem_append, List.mem_cons, not_or, not_or]
  exact ⟨h, by decide, not_mem_amountChars (by decide) (by decide) e.2⟩

theorem spelled_plain {e : String × U128} (h : '|' ∉ e.1.toList) (a : String) :
    spelled a (renderChars e) = if e.1 = a then e.2.val else 0 := by
  have hbar := bar_not_mem_render h
  have hone : (renderChars e).splitOn '|' = [renderChars e] := by
    rw [List.splitOn_eq_splitOnP]
    refine List.splitOnP_eq_singleton fun c hc => ?_
    rw [beq_eq_false_iff_ne]
    rintro rfl
    exact hbar hc
  rw [spelled, hone, List.map_singleton, List.sum_singleton, pieceAmount, readPiece_render]
  simp only [String.toList_inj]

/-- What the names holding a bar spell for a name. -/
def hiddenAmount (sums : AmountMap) (a : String) : ℕ :=
  ((sums.entries.filter fun e => '|' ∈ e.1.toList).map fun e => spelled a (renderChars e)).sum

theorem sum_spelled {a : String} (ha : '|' ∉ a.toList) (l : List (String × U128)) :
    (l.map fun e => spelled a (renderChars e)).sum = entryTotal a l +
      ((l.filter fun e => '|' ∈ e.1.toList).map fun e => spelled a (renderChars e)).sum := by
  induction l with
  | nil => rfl
  | cons e l ih =>
    rw [entryTotal] at ih ⊢
    rw [List.map_cons, List.sum_cons, List.map_cons, List.sum_cons, ih]
    by_cases hbar : '|' ∈ e.1.toList
    · have hne : e.1 ≠ a := fun h => ha (h ▸ hbar)
      rw [List.filter_cons_of_pos (by simpa using hbar), List.map_cons, List.sum_cons, if_neg hne]
      omega
    · rw [List.filter_cons_of_neg (by simpa using hbar), spelled_plain hbar]
      omega

/-- For a name without a bar, the text of a map spells the map's amount and what is hidden. -/
theorem spelled_canonical (sums : AmountMap) {a : String} (ha : '|' ∉ a.toList) :
    spelled a (sumsCanonical sums).toList = amount sums a + hiddenAmount sums a := by
  rw [sumsCanonical_toList, spelled_intercalate, List.map_map, hiddenAmount, ← entryTotal_entries]
  exact sum_spelled ha sums.entries

theorem canonical_amount {m n : AmountMap} (h : sumsCanonical m = sumsCanonical n) {a : String}
    (ha : '|' ∉ a.toList) : amount m a + hiddenAmount m a = amount n a + hiddenAmount n a := by
  rw [← spelled_canonical m ha, ← spelled_canonical n ha, h]

theorem hidden_eq_zero_of_plain {m : AmountMap} (h : ∀ k ∈ m.keys, '|' ∉ k.toList) (a : String) :
    hiddenAmount m a = 0 := by
  have hnil : (m.entries.filter fun e => '|' ∈ e.1.toList) = [] := by
    rw [List.filter_eq_nil_iff]
    intro e he
    simpa using h e.1 (List.mem_map_of_mem he)
  rw [hiddenAmount, hnil]
  rfl

end AssuranceLayer.Canonical
