import AssuranceLayer.PreviewTotals

set_option autoImplicit false

/-!
A file of balances without errors, row by row: every row is one balance of one customer, and the
totals that are shown are the totals of the rows.
-/
namespace AssuranceLayer.BrowserCsv
open Utf16 JavaScript AmountCodec

/-! ## Rows -/

/-- A customer, an asset, and an amount. -/
abbrev Row := JsString × JsString × JsString

/-- A blank line, a comment, or the header. -/
def isSkipped (raw : JsString × ℕ) : Bool :=
  let line := Browser.trim raw.1
  line = [] ∨ line.head? = some numberSign ∨ (raw.2 = 0 ∧ isHeader ((splitLine line).headD []))

def kept (raws : List (JsString × ℕ)) : List JsString :=
  (raws.filter fun raw => !isSkipped raw).map fun raw => Browser.trim raw.1

/-- The lines that are neither blank nor a comment nor the header. -/
def dataLines (text : JsString) : List JsString := kept (textLines text).zipIdx

/-- What a line says in its first three columns. -/
def rowOf (line : JsString) : Row :=
  match splitLine line with
  | userId :: asset :: amount :: _ => (userId, asset, amount)
  | _ => ([], [], [])

def rowValue (r : Row) : ℕ := scaled (unsigned r.2.2)

/-- The amounts of an asset that are negative, or that are not. -/
def totalOf (rows : List Row) (negative : Bool) (asset : JsString) : ℕ :=
  ((rows.filter fun r => isNegative r.2.2 = negative ∧ r.2.1 = asset).map rowValue).sum

/-- A line that is accepted on its own. -/
structure Readable (line : JsString) : Prop where
  columns : ∃ rest, splitLine line = (rowOf line).1 :: (rowOf line).2.1 :: (rowOf line).2.2 :: rest
  amount : isAmount (rowOf line).2.2 = true

def rowsOf (byUser : List (JsString × Record)) : List Row :=
  byUser.flatMap fun u => u.2.map fun e => (u.1, e.1, e.2)

/-- What has been read is the rows. -/
structure Holds (s : CsvState) (rows : List Row) : Prop where
  users : (s.byUser.map Prod.fst).Nodup
  assets : ∀ u ∈ s.byUser, (u.2.map Prod.fst).Nodup
  entries : (rowsOf s.byUser).Perm rows
  totals : ∀ a, Shows s.totals a (totalOf rows false a)
  negativeTotals : ∀ a, Shows s.negativeTotals a (totalOf rows true a)

/-! ## Entries of a map -/

section
variable {map : List (JsString × Record)} {key : JsString} {b v : Record}

theorem setEntry_of_none (h : map.lookup key = none) :
    setEntry map key v = map ++ [(key, v)] ∧ key ∉ map.map Prod.fst := by
  have hnew : key ∉ map.map Prod.fst := by
    intro hmem
    obtain ⟨e, he, rfl⟩ := List.mem_map.mp hmem
    have hne := List.lookup_eq_none_iff.mp h e he
    simp at hne
  exact ⟨if_neg hnew, hnew⟩

theorem setEntry_of_some (hnodup : (map.map Prod.fst).Nodup) (h : map.lookup key = some b) :
    ∃ before after, map = before ++ (key, b) :: after ∧ setEntry map key v = before ++ (key, v) :: after := by
  have hmem := (lookup_eq_some hnodup).mp h
  obtain ⟨before, after, rfl⟩ := List.append_of_mem hmem
  refine ⟨before, after, rfl, ?_⟩
  have hkeys : key ∈ (before ++ (key, b) :: after).map Prod.fst := List.mem_map_of_mem hmem
  rw [List.map_append, List.map_cons, List.nodup_append, List.nodup_cons] at hnodup
  obtain ⟨_, ⟨hafter, _⟩, hbefore⟩ := hnodup
  have hsame : ∀ l : List (JsString × Record), key ∉ l.map Prod.fst →
      (l.map fun e => if e.1 = key then (key, v) else e) = l := by
    intro l hl
    conv_rhs => rw [← List.map_id l]
    refine List.map_congr_left fun e he => if_neg ?_
    rintro rfl
    exact hl (List.mem_map_of_mem he)
  rw [setEntry, if_pos hkeys, List.map_append, List.map_cons, if_pos rfl, hsame after hafter, hsame before]
  exact fun hl => hbefore key hl key List.mem_cons_self rfl

theorem setEntry_nodup (hnodup : (map.map Prod.fst).Nodup) : ((setEntry map key v).map Prod.fst).Nodup := by
  cases h : map.lookup key with
  | none =>
    obtain ⟨heq, hnew⟩ := setEntry_of_none (v := v) h
    rw [heq, List.map_append, List.map_singleton, ← List.concat_eq_append]
    exact hnodup.concat hnew
  | some b =>
    obtain ⟨before, after, rfl, heq⟩ := setEntry_of_some (v := v) hnodup h
    rw [heq]
    simpa using hnodup

theorem mem_setEntry {u : JsString × Record} (h : u ∈ setEntry map key v) : u = (key, v) ∨ u ∈ map := by
  rw [setEntry] at h
  split_ifs at h
  · obtain ⟨e, he, rfl⟩ := List.mem_map.mp h
    split_ifs
    · exact .inl rfl
    · exact .inr he
  · obtain h | h := List.mem_append.mp h
    · exact .inr h
    · exact .inl (List.mem_singleton.mp h)

end

/-- A balance under an asset that the customer does not have yet is one more row. -/
theorem rowsOf_setEntry {map : List (JsString × Record)} (hnodup : (map.map Prod.fst).Nodup)
    {userId asset amount : JsString} (hnew : asset ∉ ((map.lookup userId).getD []).map Prod.fst) :
    (rowsOf (setEntry map userId (setProp ((map.lookup userId).getD []) asset amount))).Perm
      (rowsOf map ++ [(userId, asset, amount)]) := by
  have hset : ∀ props : Record, asset ∉ props.map Prod.fst →
      ((setProp props asset amount).map fun e => (userId, e.1, e.2)).Perm
        ((props.map fun e => (userId, e.1, e.2)) ++ [(userId, asset, amount)]) := by
    intro props hprops
    rw [setProp, if_neg hprops]
    exact ((insertProp_perm asset amount props).map _).trans (List.perm_append_singleton _ _).symm
  cases h : map.lookup userId with
  | none =>
    rw [(setEntry_of_none h).1, rowsOf, List.flatMap_append]
    refine List.Perm.append_left _ ?_
    rw [List.flatMap_singleton]
    exact hset [] List.not_mem_nil
  | some b =>
    rw [h] at hnew
    obtain ⟨before, after, hmap, heq⟩ := setEntry_of_some (v := setProp b asset amount) hnodup h
    rw [Option.getD_some, heq, hmap, rowsOf, rowsOf, List.flatMap_append, List.flatMap_append, List.flatMap_cons,
      List.flatMap_cons, List.append_assoc, List.append_assoc]
    refine List.Perm.append_left _ ?_
    have hone := (hset b hnew).append_right (rowsOf after)
    rw [List.append_assoc] at hone
    exact hone.trans (List.Perm.append_left _ List.perm_append_comm)

/-! ## One line -/

theorem report_errors {s : CsvState} {maxErrors : ℕ} (hmax : 0 < maxErrors) (problem : RowProblem) :
    (s.report maxErrors problem).errors ≠ [] := by
  rw [CsvState.report]
  split_ifs with hlen
  · exact List.append_ne_nil_of_right_ne_nil _ (List.cons_ne_nil _ _)
  · intro hnil
    rw [hnil, List.length_nil] at hlen
    exact hlen hmax

theorem rowOf_eq {line userId asset amount : JsString} {rest : List JsString}
    (h : splitLine line = userId :: asset :: amount :: rest) : rowOf line = (userId, asset, amount) := by
  rw [rowOf, h]

/-- A line about which there is nothing to report. -/
theorem readLine_clean {maxErrors : ℕ} (hmax : 0 < maxErrors) {s : CsvState} {raw : JsString × ℕ}
    (h : (readLine maxErrors s raw).errors = []) :
    isSkipped raw = true ∧ readLine maxErrors s raw = s ∨
      isSkipped raw = false ∧ Readable (Browser.trim raw.1) ∧
        hasProperty ((s.byUser.lookup (rowOf (Browser.trim raw.1)).1).getD []) (rowOf (Browser.trim raw.1)).2.1 = false ∧
        readLine maxErrors s raw =
          s.enter (rowOf (Browser.trim raw.1)).1 (rowOf (Browser.trim raw.1)).2.1 (rowOf (Browser.trim raw.1)).2.2 := by
  rw [readLine] at h ⊢
  rw [isSkipped]
  generalize Browser.trim raw.1 = line at h ⊢
  by_cases hblank : line = [] ∨ line.head? = some numberSign
  · refine .inl ⟨decide_eq_true (hblank.imp_right .inl), if_pos hblank⟩
  · by_cases hheader : raw.2 = 0 ∧ isHeader ((splitLine line).headD []) = true
    · refine .inl ⟨decide_eq_true (.inr (.inr hheader)), ?_⟩
      rw [if_neg hblank, if_pos hheader]
    · refine .inr ⟨decide_eq_false ?_, ?_⟩
      · rintro (hnil | hcomment | hfirst)
        · exact hblank (.inl hnil)
        · exact hblank (.inr hcomment)
        · exact hheader hfirst
      · simp only [if_neg hblank, if_neg hheader] at h ⊢
        split at h
        · next userId asset amount rest hcols =>
          rw [rowOf_eq hcols]
          split_ifs at h with hnames hamount hhas
          · exact absurd h (report_errors hmax _)
          · exact absurd h (report_errors hmax _)
          · exact absurd h (report_errors hmax _)
          · have hamount' : isAmount amount = true := by simpa using hamount
            have hhas' := Bool.eq_false_iff.mpr hhas
            refine ⟨⟨⟨rest, ?_⟩, ?_⟩, hhas', ?_⟩
            · rw [rowOf_eq hcols, hcols]
            · rw [rowOf_eq hcols]
              exact hamount'
            · rw [if_neg hnames, if_neg hamount, if_neg hhas]
        · exact absurd h (report_errors hmax _)

/-! ## All lines -/

theorem totalOf_concat (rows : List Row) (r : Row) (negative : Bool) (asset : JsString) :
    totalOf (rows ++ [r]) negative asset = totalOf rows negative asset +
      if isNegative r.2.2 = negative ∧ r.2.1 = asset then rowValue r else 0 := by
  rw [totalOf, totalOf, List.filter_append, List.map_append, List.sum_append]
  by_cases hr : isNegative r.2.2 = negative ∧ r.2.1 = asset <;> simp [hr]

/-- One more row. -/
theorem Holds.enter {s : CsvState} {rows : List Row} (h : Holds s rows) {line : JsString} (hline : Readable line)
    (hnew : hasProperty ((s.byUser.lookup (rowOf line).1).getD []) (rowOf line).2.1 = false) :
    Holds (s.enter (rowOf line).1 (rowOf line).2.1 (rowOf line).2.2) (rows ++ [rowOf line]) := by
  obtain ⟨n, hspells⟩ := isDecimal_iff.mp hline.amount
  generalize rowOf line = r at hnew hspells ⊢
  obtain ⟨userId, asset, amount⟩ := r
  have hvalue : rowValue (userId, asset, amount) = n := scaled_eq hspells
  have hfresh : asset ∉ ((s.byUser.lookup userId).getD []).map Prod.fst :=
    fun hmem => of_decide_eq_false hnew (.inl hmem)
  have hbyUser : (s.enter userId asset amount).byUser =
      setEntry s.byUser userId (setProp ((s.byUser.lookup userId).getD []) asset amount) := by
    rw [CsvState.enter]
    split_ifs <;> rfl
  constructor
  · rw [hbyUser]
    exact setEntry_nodup h.users
  · intro u hu
    rw [hbyUser] at hu
    obtain rfl | hu := mem_setEntry hu
    · refine setProp_nodup ?_ asset amount
      cases hlookup : s.byUser.lookup userId with
      | none => exact List.nodup_nil
      | some b => exact h.assets _ ((lookup_eq_some h.users).mp hlookup)
    · exact h.assets u hu
  · rw [hbyUser]
    exact (rowsOf_setEntry h.users hfresh).trans (h.entries.append_right _)
  · intro a
    rw [totalOf_concat, CsvState.enter, hvalue]
    cases hneg : isNegative amount with
    | true => simpa [hneg] using h.totals a
    | false =>
      rw [unsigned, if_neg (by simp [hneg])] at hspells
      simpa [hneg] using addTo_shows hspells (h.totals a)
  · intro a
    rw [totalOf_concat, CsvState.enter, hvalue]
    cases hneg : isNegative amount with
    | true =>
      rw [unsigned, if_pos hneg] at hspells
      simpa [hneg] using addTo_shows hspells (h.negativeTotals a)
    | false => simpa [hneg] using h.negativeTotals a

theorem kept_cons (raw : JsString × ℕ) (raws : List (JsString × ℕ)) :
    kept (raw :: raws) = if isSkipped raw = true then kept raws else Browser.trim raw.1 :: kept raws := by
  rw [kept, kept, List.filter_cons]
  cases isSkipped raw <;> rfl

/-- What has been reported stays. -/
theorem errors_before {maxErrors : ℕ} (hmax : 0 < maxErrors) {raws : List (JsString × ℕ)} {s : CsvState}
    (h : (raws.foldl (readLine maxErrors) s).errors = []) : s.errors = [] := by
  induction raws generalizing s with
  | nil => exact h
  | cons raw raws ih =>
    have hraw := ih h
    obtain ⟨_, heq⟩ | ⟨_, _, _, heq⟩ := readLine_clean hmax hraw
    · rwa [heq] at hraw
    · rw [heq, CsvState.enter] at hraw
      split_ifs at hraw <;> exact hraw

/-- Lines about which there is nothing to report add their rows. -/
theorem Holds.lines {maxErrors : ℕ} (hmax : 0 < maxErrors) {raws : List (JsString × ℕ)} {s : CsvState}
    {rows : List Row} (h : Holds s rows) (hclean : (raws.foldl (readLine maxErrors) s).errors = []) :
    (∀ line ∈ kept raws, Readable line) ∧
      Holds (raws.foldl (readLine maxErrors) s) (rows ++ (kept raws).map rowOf) := by
  induction raws generalizing s rows with
  | nil =>
    refine ⟨fun _ hline => absurd hline List.not_mem_nil, ?_⟩
    rw [show kept [] = [] from rfl, List.map_nil, List.append_nil]
    exact h
  | cons raw raws ih =>
    rw [List.foldl_cons] at hclean ⊢
    rw [kept_cons]
    obtain ⟨hskip, heq⟩ | ⟨hskip, hline, hnew, heq⟩ := readLine_clean hmax (errors_before hmax hclean)
    · rw [heq] at hclean ⊢
      rw [if_pos hskip]
      exact ih h hclean
    · rw [heq] at hclean ⊢
      rw [if_neg (by simp [hskip]), List.map_cons, List.append_cons]
      obtain ⟨hlines, hholds⟩ := ih (h.enter hline hnew) hclean
      exact ⟨List.forall_mem_cons.mpr ⟨hline, hlines⟩, hholds⟩

/-! ## Files -/

theorem holds_initial : Holds .initial [] where
  users := List.nodup_nil
  assets _ h := absurd h List.not_mem_nil
  entries := List.Perm.nil
  totals _ := rfl
  negativeTotals _ := rfl

/-- The balances of all leaves, each with its customer. -/
def leafRows (leaves : List Leaf) : List Row :=
  leaves.flatMap fun l => l.balances.map fun e => (l.userId, e.1, e.2)

/-- What a file without errors is read as. -/
structure ReadAs (text : JsString) (parse : BalancesParse) : Prop where
  readable : ∀ line ∈ dataLines text, Readable line
  entries : (leafRows parse.leaves).Perm ((dataLines text).map rowOf)
  users : (parse.leaves.map Leaf.userId).Nodup
  assets : ∀ l ∈ parse.leaves, (l.balances.map Prod.fst).Nodup
  totals : ∀ a, Shows parse.totals a (totalOf ((dataLines text).map rowOf) false a)
  negativeTotals : ∀ a, Shows parse.negativeTotals a (totalOf ((dataLines text).map rowOf) true a)

theorem parse_readAs {text : JsString} {maxErrors : ℕ} (hmax : 0 < maxErrors)
    (h : (parseBalancesCsv text maxErrors).errors = []) : ReadAs text (parseBalancesCsv text maxErrors) := by
  obtain ⟨hlines, hholds⟩ := holds_initial.lines hmax h
  have hperm := List.perm_insertionSort (fun a b => unitValues a.1 ≤ unitValues b.1) (readLines maxErrors text).byUser
  constructor
  · exact hlines
  · have hrows : leafRows (parseBalancesCsv text maxErrors).leaves =
        rowsOf ((readLines maxErrors text).byUser.insertionSort fun a b => unitValues a.1 ≤ unitValues b.1) := by
      rw [leafRows, parseBalancesCsv, List.flatMap_map]
      rfl
    rw [hrows]
    exact (hperm.flatMap_right _).trans hholds.entries
  · rw [parseBalancesCsv, List.map_map]
    exact ((hperm.map Prod.fst).nodup_iff).mpr hholds.users
  · intro l hl
    obtain ⟨u, hu, rfl⟩ := List.mem_map.mp hl
    exact hholds.assets u (hperm.mem_iff.mp hu)
  · exact hholds.totals
  · exact hholds.negativeTotals

end AssuranceLayer.BrowserCsv
