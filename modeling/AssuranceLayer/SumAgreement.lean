import AssuranceLayer.HexTexts
import AssuranceLayer.Reading

set_option autoImplicit false

/-!
Sums in the two verifiers: plain objects of big integers against ordered maps. They add and render
alike where no name that every object has stands on the right of an addition alone.
-/
namespace AssuranceLayer.SumAgreement
open Fallible Utf16 JavaScript Reading SortedMap
open Sums (AmountMap amount entryTotal)
open Browser (Sum inheritedNames)

/-! ## Sums that are read -/

def HoldsAmount (s : Sum) (a : U128) : Prop := s = .big a.val

/-- An object of sums holds a map. -/
def Holds (sums : Browser.Sums) (m : AmountMap) : Prop := Mirrors HoldsAmount sums m

theorem Mirrors.entries_perm {α β : Type} {R : α → β → Prop} {props : List (JsString × α)}
    {m : SortedMap String β} (h : Mirrors R props m) :
    ∃ l, List.Forall₂ (fun p e => p.1 = ofString e.1 ∧ R p.2 e.2) props l ∧ l.Perm m.entries :=
  List.perm_comp_forall₂ (bytewise_perm props).symm h.bytewise

theorem parseSums_reads {v : Js} {m : AmountMap} (h : ReadsAmounts v m) :
    ∃ sums, Browser.parseSums v = .ok sums ∧ Holds sums m := by
  obtain ⟨props, rfl, hm⟩ := h
  obtain ⟨l, hl, hperm⟩ := Mirrors.entries_perm hm
  have hparsed : props.mapM (fun e => do
      let amount ← Browser.parseAmount18dp e.2
      return (e.1, Sum.big amount)) =
      .ok (l.map fun e => (ofString e.1, Sum.big e.2.val)) := by
    rw [mapM_eq_ok, List.forall₂_map_right_iff]
    refine hl.imp fun p e hpe => ?_
    rw [parseAmount18dp_reads hpe.2, ok_bind, hpe.1]
    rfl
  refine ⟨fromEntries (l.map fun e => (ofString e.1, Sum.big e.2.val)), ?_, ?_⟩
  · simp only [Browser.parseSums, Js.entries, ok_bind, hparsed]
    rfl
  · rw [Holds, ← ofList_of_perm hperm]
    refine Mirrors.fromEntries ?_
    rw [List.forall₂_map_left_iff, List.forall₂_same]
    exact fun e _ => ⟨rfl, rfl⟩

/-! ## Canonical texts -/

theorem intercalate_cons_cons {α : Type} (sep p q : List α) (rest : List (List α)) :
    sep.intercalate (p :: q :: rest) = p ++ (sep ++ sep.intercalate (q :: rest)) := by
  simp [List.intercalate]

theorem intercalate_flatMap {α β : Type} (f : α → List β) (sep : List α) (parts : List (List α)) :
    (sep.intercalate parts).flatMap f = (sep.flatMap f).intercalate (parts.map (List.flatMap f)) := by
  match parts with
  | [] => rfl
  | [p] => simp [List.intercalate]
  | p :: q :: rest =>
    have ih := intercalate_flatMap f sep (q :: rest)
    rw [List.map_cons] at ih
    rw [intercalate_cons_cons, List.map_cons, List.map_cons, intercalate_cons_cons, List.flatMap_append,
      List.flatMap_append, ih]

theorem intercalate_ofString (sep : String) (parts : List String) :
    (ofString sep).intercalate (parts.map ofString) = ofString (sep.intercalate parts) := by
  rw [ofString, ofString, String.toList_intercalate, intercalate_flatMap, List.map_map]
  rfl

theorem canonicalSums_holds {sums : Browser.Sums} {m : AmountMap} (h : Holds sums m) :
    Browser.canonicalSums sums = .ok (ofString (Canonical.sumsCanonical m)) := by
  have hparts : (bytewise sums).mapM (fun e => do
      let amount ← Browser.formatSum e.2
      return e.1 ++ ofString ":" ++ amount) = .ok ((m.entries.map Canonical.renderEntry).map ofString) := by
    rw [mapM_eq_ok, List.map_map, List.forall₂_map_right_iff]
    refine (Mirrors.bytewise h).imp fun p e hpe => ?_
    rw [show p.2 = .big e.2.val from hpe.2, Browser.formatSum, AmountTexts.formatAmount18dp_val, ok_bind,
      hpe.1, ← ofString_append, ← ofString_append]
    rfl
  simp only [Browser.canonicalSums, hparts, ok_bind, intercalate_ofString]
  rfl

/-! ## Additions -/

/-- An object of sums has the given names, with the given amount under each. -/
structure Tallies (sums : Browser.Sums) (names : Set String) (total : String → ℕ) : Prop where
  nodup : (sums.map Prod.fst).Nodup
  sound : ∀ p ∈ sums, ∃ k ∈ names, p = (ofString k, .big (total k))
  complete : ∀ k ∈ names, (ofString k, Sum.big (total k)) ∈ sums
  absent : ∀ k ∉ names, total k = 0

theorem tallies_of_holds {sums : Browser.Sums} {m : AmountMap} (h : Holds sums m) :
    Tallies sums {k | k ∈ m.keys} (amount m) where
  nodup := h.nodup
  sound := fun p hp => by
    obtain ⟨k, a, hk, hget, ha⟩ := h.sound p hp
    refine ⟨k, mem_keys.mpr (by simp [hget]), ?_⟩
    rw [Sums.amount_of_get? hget, ← hk, ← show p.2 = .big a.val from ha]
  complete := fun k hk => by
    obtain ⟨a, hget⟩ := Option.isSome_iff_exists.mp (mem_keys.mp hk)
    obtain ⟨s, hs, rfl⟩ := Mirrors.lookup h hget
    rw [Sums.amount_of_get? hget]
    exact (lookup_eq_some h.nodup).mp hs
  absent := fun _ hk => Sums.amount_of_not_mem hk

theorem Tallies.holds {sums : Browser.Sums} {names : Set String} {total : String → ℕ}
    (h : Tallies sums names total) {m : AmountMap} (hkeys : ∀ k, k ∈ m.keys ↔ k ∈ names)
    (hamount : ∀ k, amount m k = total k) : Holds sums m where
  nodup := h.nodup
  sound := fun p hp => by
    obtain ⟨k, hk, rfl⟩ := h.sound p hp
    obtain ⟨a, hget⟩ := Option.isSome_iff_exists.mp (mem_keys.mp ((hkeys k).mpr hk))
    refine ⟨k, a, rfl, hget, ?_⟩
    rw [HoldsAmount, ← hamount, Sums.amount_of_get? hget]
  complete := fun k hk => List.mem_map_of_mem (h.complete k ((hkeys k).mp hk))

theorem Tallies.lookup {sums : Browser.Sums} {names : Set String} {total : String → ℕ}
    (h : Tallies sums names total) (k : String) [Decidable (k ∈ names)] :
    sums.lookup (ofString k) = if k ∈ names then some (.big (total k)) else none := by
  split_ifs with hk
  · exact (lookup_eq_some h.nodup).mpr (h.complete k hk)
  · cases hlookup : sums.lookup (ofString k) with
    | none => rfl
    | some v =>
      obtain ⟨k', hk', heq⟩ := h.sound _ ((lookup_eq_some h.nodup).mp hlookup)
      rw [ofString_inj.mp (Prod.mk.inj heq).1] at hk
      exact absurd hk' hk

/-- No name that every object has stands on the right alone. -/
def LeftOwns (left right : Set String) : Prop := ∀ k ∈ inheritedNames, k ∈ right → k ∈ left

theorem isInherited_ofString {k : String} : Browser.isInherited (ofString k) = true ↔ k ∈ inheritedNames := by
  rw [Browser.isInherited, decide_eq_true_eq, List.mem_map]
  exact ⟨fun ⟨_, hn, h⟩ => ofString_inj.mp h ▸ hn, fun h => ⟨k, h, rfl⟩⟩

theorem proto_ofString {k : String} (h : k ∉ inheritedNames) : ofString k ≠ ofString "__proto__" :=
  fun heq => h (ofString_inj.mp heq ▸ by decide)

theorem addEntry_tallies {sums : Browser.Sums} {names : Set String} {total : String → ℕ}
    (h : Tallies sums names total) (e : String × U128) (hown : e.1 ∈ inheritedNames → e.1 ∈ names) :
    Tallies (Browser.addEntry sums (ofString e.1, .big e.2.val)) (insert e.1 names)
      fun k => total k + if e.1 = k then e.2.val else 0 := by
  classical
  have hset : Browser.addEntry sums (ofString e.1, .big e.2.val) =
      setProp sums (ofString e.1) (.big (total e.1 + e.2.val : ℕ)) := by
    rw [Browser.addEntry, h.lookup]
    by_cases hk : e.1 ∈ names
    · rw [if_pos hk]
      simp [Browser.Sum.add]
    · have hnot : e.1 ∉ inheritedNames := mt hown hk
      rw [if_neg hk]
      simp [proto_ofString hnot, mt isInherited_ofString.mp hnot, Browser.Sum.add, h.absent _ hk]
  rw [hset]
  refine ⟨setProp_nodup h.nodup _ _, ?_, ?_, ?_⟩
  · rintro ⟨name, v⟩ hp
    rcases mem_setProp.mp hp with ⟨rfl, rfl⟩ | ⟨hne, hp⟩
    · exact ⟨e.1, Set.mem_insert _ _, by simp⟩
    · obtain ⟨k, hk, heq⟩ := h.sound _ hp
      obtain ⟨rfl, rfl⟩ := Prod.mk.inj heq
      have hek : e.1 ≠ k := fun heq => hne (heq ▸ rfl)
      exact ⟨k, Set.mem_insert_of_mem _ hk, by simp [hek]⟩
  · intro k hk
    rw [mem_setProp]
    by_cases hek : e.1 = k
    · exact .inl ⟨by rw [hek], by simp [hek]⟩
    · refine .inr ⟨mt ofString_inj.mp (Ne.symm hek), ?_⟩
      have := h.complete k (hk.resolve_left (Ne.symm hek))
      simpa [hek] using this
  · intro k hk
    rw [Set.mem_insert_iff, not_or] at hk
    rw [h.absent k hk.2, if_neg (Ne.symm hk.1)]

theorem addEntries_tallies {l : List (String × U128)} {sums : Browser.Sums} {names : Set String}
    {total : String → ℕ} (h : Tallies sums names total) (hown : LeftOwns names {k | k ∈ l.map Prod.fst}) :
    Tallies ((l.map fun e => (ofString e.1, Sum.big e.2.val)).foldl Browser.addEntry sums)
      (names ∪ {k | k ∈ l.map Prod.fst}) fun k => total k + entryTotal k l := by
  induction l generalizing sums names total with
  | nil => simpa [entryTotal] using h
  | cons e l ih =>
    have hstep := addEntry_tallies h e fun he => hown e.1 he (by simp)
    have hnames : names ∪ {k | k ∈ (e :: l).map Prod.fst} =
        insert e.1 names ∪ {k | k ∈ l.map Prod.fst} := Set.ext fun k => by
      simp only [List.map_cons, List.mem_cons, Set.mem_union, Set.mem_ofPred_eq, Set.mem_insert_iff]
      tauto
    have htotal : (fun k => total k + entryTotal k (e :: l)) =
        fun k => (total k + if e.1 = k then e.2.val else 0) + entryTotal k l := funext fun k => by
      rw [entryTotal, List.map_cons, List.sum_cons, ← entryTotal, Nat.add_assoc]
    rw [hnames, htotal]
    exact ih hstep fun k hk hmem => .inr (hown k hk (List.mem_cons_of_mem _ hmem))

/-- The amounts of both, name by name, whatever they come to. -/
theorem addSums_tallies {a b : Browser.Sums} {m n : AmountMap} (ha : Holds a m) (hb : Holds b n)
    (hown : LeftOwns {k | k ∈ m.keys} {k | k ∈ n.keys}) :
    Tallies (Browser.addSums a b) {k | k ∈ m.keys ∨ k ∈ n.keys} fun k => amount m k + amount n k := by
  obtain ⟨l, hl, hperm⟩ := Mirrors.entries_perm hb
  have hb' : b = l.map fun e => (ofString e.1, Sum.big e.2.val) := by
    rw [← List.forall₂_eq_eq_eq, List.forall₂_map_right_iff]
    exact hl.imp fun p e hpe => Prod.ext hpe.1 hpe.2
  have hkeys : ∀ k, k ∈ l.map Prod.fst ↔ k ∈ n.keys := fun k => (hperm.map Prod.fst).mem_iff
  have htotal : ∀ k, entryTotal k l = amount n k := fun k => by
    rw [← Sums.entryTotal_entries]
    exact (hperm.map _).sum_eq
  have hown' : LeftOwns {k | k ∈ m.keys} {k | k ∈ l.map Prod.fst} := fun k hk hmem =>
    hown k hk ((hkeys k).mp hmem)
  have h := addEntries_tallies (tallies_of_holds ha) hown'
  have hnames : {k | k ∈ m.keys ∨ k ∈ n.keys} = {k | k ∈ m.keys} ∪ {k | k ∈ l.map Prod.fst} :=
    Set.ext fun k => or_congr_right (hkeys k).symm
  rw [Browser.addSums, hb', hnames]
  simp only [htotal] at h
  exact h

/-! ## Texts that a sum does not have -/

theorem formatSums {sums : Browser.Sums} {text : JsString} (h : Browser.canonicalSums sums = .ok text) :
    ∀ p ∈ sums, ∃ a : U128, p.2 = .big a.val := by
  simp only [Browser.canonicalSums, bind_eq_ok, mapM_eq_ok] at h
  obtain ⟨parts, hparts, -⟩ := h
  intro p hp
  have hmem := (bytewise_perm sums).mem_iff.mpr hp
  obtain ⟨i, hi, rfl⟩ := List.getElem_of_mem hmem
  have hpart := hparts.get hi (hparts.length_eq ▸ hi)
  simp only [List.get_eq_getElem] at hpart
  obtain ⟨t, ht, -⟩ := hpart
  cases hsum : (bytewise sums)[i].2 with
  | text =>
    rw [hsum] at ht
    cases ht
  | big n =>
    rw [hsum, Browser.formatSum] at ht
    obtain ⟨a, rfl, -⟩ := AmountTexts.formatAmount18dp_eq_ok ht
    exact ⟨a, rfl⟩

theorem Tallies.lt {sums : Browser.Sums} {names : Set String} {total : String → ℕ}
    (h : Tallies sums names total) {text : JsString} (htext : Browser.canonicalSums sums = .ok text)
    (k : String) : total k < 2 ^ 128 := by
  by_cases hk : k ∈ names
  · obtain ⟨a, ha⟩ := formatSums htext _ (h.complete k hk)
    have hval : (total k : ℤ) = a.val := Sum.big.inj ha
    have := a.isLt
    omega
  · rw [h.absent k hk]
    norm_num

/-! ## Names that are inherited -/

theorem addEntry_lookup_ne {sums : Browser.Sums} {e : JsString × Sum} {k : JsString} (h : k ≠ e.1) :
    (Browser.addEntry sums e).lookup k = sums.lookup k := by
  rw [Browser.addEntry]
  cases sums.lookup e.1 with
  | some w => exact (lookup_setProp _ _ _ _).trans (if_neg h)
  | none =>
    dsimp only
    split_ifs
    · rfl
    · exact (lookup_setProp _ _ _ _).trans (if_neg h)
    · exact (lookup_setProp _ _ _ _).trans (if_neg h)

/-- A sum that is a text stays one. -/
theorem addEntries_text {k : JsString} (b : Browser.Sums) {sums : Browser.Sums}
    (h : sums.lookup k = some .text) : (b.foldl Browser.addEntry sums).lookup k = some .text := by
  induction b generalizing sums with
  | nil => exact h
  | cons e b ih =>
    refine ih ?_
    by_cases hk : k = e.1
    · subst hk
      rw [Browser.addEntry, h]
      exact (lookup_setProp _ _ _ _).trans (if_pos rfl)
    · rw [addEntry_lookup_ne hk, h]

/-- What is added to an inherited name becomes a text. -/
theorem addEntries_inherited {k : JsString} (hk : Browser.isInherited k = true)
    (hproto : k ≠ ofString "__proto__") {b : Browser.Sums} (hb : k ∈ b.map Prod.fst) {sums : Browser.Sums}
    (h : sums.lookup k = none) : (b.foldl Browser.addEntry sums).lookup k = some .text := by
  induction b generalizing sums with
  | nil => cases hb
  | cons e b ih =>
    by_cases he : k = e.1
    · refine addEntries_text b ?_
      subst he
      rw [Browser.addEntry, h]
      dsimp only
      rw [if_neg hproto, if_pos hk]
      exact (lookup_setProp _ _ _ _).trans (if_pos rfl)
    · refine ih (List.mem_of_ne_of_mem he hb) ?_
      rw [addEntry_lookup_ne he, h]

/-- What is assigned to `__proto__` is lost. -/
theorem addEntries_proto (b : Browser.Sums) {sums : Browser.Sums}
    (h : sums.lookup (ofString "__proto__") = none) : b.foldl Browser.addEntry sums =
      (b.filter fun e => e.1 ≠ ofString "__proto__").foldl Browser.addEntry sums := by
  induction b generalizing sums with
  | nil => rfl
  | cons e b ih =>
    by_cases he : e.1 = ofString "__proto__"
    · have hlost : Browser.addEntry sums e = sums := by
        rw [Browser.addEntry, he, h]
        exact if_pos rfl
      rw [List.foldl_cons, hlost, ih h, List.filter_cons_of_neg (by simpa using he)]
    · rw [List.filter_cons_of_pos (by simpa using he), List.foldl_cons, List.foldl_cons]
      exact ih ((addEntry_lookup_ne (Ne.symm he)).trans h)

theorem amount_erase (m : AmountMap) (k a : String) :
    amount (m.erase k) a = if a = k then 0 else amount m a := by
  split_ifs with ha
  · exact Sums.amount_of_not_mem fun h => (mem_keys_erase.mp h).1 ha
  · by_cases hmem : a ∈ m.keys
    · obtain ⟨v, hv⟩ := Option.isSome_iff_exists.mp (mem_keys.mp hmem)
      rw [Sums.amount_of_get? hv, Sums.amount_of_get? (get?_erase_eq_some.mpr ⟨ha, hv⟩)]
    · rw [Sums.amount_of_not_mem hmem, Sums.amount_of_not_mem fun h => hmem (mem_keys_erase.mp h).2]

theorem holds_erase {sums : Browser.Sums} {m : AmountMap} (h : Holds sums m) (k : String) :
    Holds (sums.filter fun e => e.1 ≠ ofString k) (m.erase k) where
  nodup := h.nodup.sublist (List.filter_sublist.map _)
  sound := fun p hp => by
    rw [List.mem_filter, decide_eq_true_eq] at hp
    obtain ⟨a, v, ha, hget, hv⟩ := h.sound p hp.1
    exact ⟨a, v, ha, get?_erase_eq_some.mpr ⟨fun heq => hp.2 (heq ▸ ha), hget⟩, hv⟩
  complete := fun a ha => by
    obtain ⟨hne, hmem⟩ := mem_keys_erase.mp ha
    obtain ⟨p, hp, hname⟩ := List.mem_map.mp (h.complete a hmem)
    refine List.mem_map.mpr ⟨p, List.mem_filter.mpr ⟨hp, decide_eq_true fun heq => hne ?_⟩, hname⟩
    exact ofString_inj.mp (hname.symm.trans heq)

theorem intercalate_length {α : Type} (sep : α) (pieces : List (List α)) :
    ([sep].intercalate pieces).length = (pieces.map fun p => p.length + 1).sum - 1 := by
  match pieces with
  | [] => rfl
  | [p] => simp [List.intercalate]
  | p :: q :: rest =>
    have ih := intercalate_length sep (q :: rest)
    rw [List.map_cons, List.sum_cons] at ih
    rw [intercalate_cons_cons, List.length_append, List.length_append, ih, List.map_cons, List.map_cons,
      List.sum_cons, List.sum_cons, List.length_singleton]
    omega

theorem sum_filter_le {α : Type} {l : List α} {p : α → Bool} {f : α → ℕ} {x : α} (hx : x ∈ l)
    (hp : p x = false) : ((l.filter p).map f).sum + f x ≤ (l.map f).sum := by
  induction l with
  | nil => cases hx
  | cons y l ih =>
    have hle : ((l.filter p).map f).sum ≤ (l.map f).sum :=
      (List.filter_sublist.map f).sum_le_sum fun _ _ => Nat.zero_le _
    rcases List.mem_cons.mp hx with rfl | hx
    · rw [List.filter_cons_of_neg (by simp [hp]), List.map_cons, List.sum_cons]
      omega
    · have hrest := ih hx
      rw [List.filter_cons, List.map_cons, List.sum_cons]
      split_ifs
      · rw [List.map_cons, List.sum_cons]
        omega
      · omega

/-- A text is shorter by a name that is left out. -/
theorem canonical_erase {m : AmountMap} {k : String} (h : k ∈ m.keys) :
    Canonical.sumsCanonical (m.erase k) ≠ Canonical.sumsCanonical m := by
  intro heq
  have hlen := congrArg (fun t => t.toList.length) heq
  simp only [Canonical.sumsCanonical_toList, intercalate_length, List.map_map] at hlen
  obtain ⟨e, he, rfl⟩ := List.mem_map.mp h
  have hle : (((m.erase e.1).entries.map ((fun p => p.length + 1) ∘ Canonical.renderChars)).sum +
      ((Canonical.renderChars e).length + 1) ≤
      (m.entries.map ((fun p => p.length + 1) ∘ Canonical.renderChars)).sum) :=
    sum_filter_le he (by simp)
  have hpiece : 1 ≤ (Canonical.renderChars e).length := by
    rw [Canonical.renderChars, List.length_append, List.length_cons]
    omega
  omega

/-- A sum that has a text, and the text of the map it should be, has lost no name. -/
theorem leftOwns_of_text {a b : Browser.Sums} {m n s : AmountMap} (ha : Holds a m) (hb : Holds b n)
    {ε : Type} {overflow : String → ε} (hs : Sums.addSums overflow m n = .ok s) {text : JsString}
    (htext : Browser.canonicalSums (Browser.addSums a b) = .ok text)
    (heq : encode text = utf8 (Canonical.sumsCanonical s)) :
    LeftOwns {k | k ∈ m.keys} {k | k ∈ n.keys} := by
  have hmissing : ∀ {k}, k ∉ m.keys → a.lookup (ofString k) = none := fun {k} hk =>
    Mirrors.lookup_none ha (get?_eq_none.mpr hk)
  have hother : ∀ k ∈ inheritedNames, k ≠ "__proto__" → k ∈ n.keys → k ∈ m.keys := by
    intro k hk hne hn
    by_contra hm
    have hlookup := addEntries_inherited (isInherited_ofString.mpr hk) (mt ofString_inj.mp hne)
      (hb.complete k hn) (hmissing hm)
    obtain ⟨before, after, hmem, -⟩ := List.lookup_eq_some_iff.mp hlookup
    obtain ⟨v, hv⟩ := formatSums htext (ofString k, .text)
      (show (ofString k, Sum.text) ∈ b.foldl Browser.addEntry a by rw [hmem]; simp)
    cases hv
  by_contra hnot
  -- only `__proto__` can have been lost
  obtain ⟨hn, hm⟩ : "__proto__" ∈ n.keys ∧ "__proto__" ∉ m.keys := by
    by_contra h
    refine hnot fun k hk hright => ?_
    by_cases hne : k = "__proto__"
    · subst hne
      exact not_not.mp fun hleft => h ⟨hright, hleft⟩
    · exact hother k hk hne hright
  have hlost : Browser.addSums a b =
      Browser.addSums a (b.filter fun e => e.1 ≠ ofString "__proto__") := addEntries_proto b (hmissing hm)
  have htallies := addSums_tallies ha (holds_erase hb "__proto__") fun k hk hmem =>
    hother k hk (mem_keys_erase.mp hmem).1 (mem_keys_erase.mp hmem).2
  rw [← hlost] at htallies
  have hholds : Holds (Browser.addSums a b) (s.erase "__proto__") := by
    refine htallies.holds (fun k => ?_) fun k => ?_
    · have hne : k ∈ m.keys → k ≠ "__proto__" := fun hk heq => hm (heq ▸ hk)
      rw [mem_keys_erase, Sums.addSums_keys hs]
      simp only [Set.mem_ofPred_eq, mem_keys_erase]
      tauto
    · rw [amount_erase, amount_erase, Sums.addSums_amount hs]
      split_ifs with hk
      · rw [hk, Sums.amount_of_not_mem hm]
      · rfl
  rw [canonicalSums_holds hholds] at htext
  obtain rfl := Except.ok.inj htext
  rw [encode_ofString] at heq
  exact canonical_erase ((Sums.addSums_keys hs "__proto__").mpr (.inr hn)) (utf8_inj heq)

/-! ## Totals -/

theorem sameSum_iff {folded published : Browser.Sums} {m n : AmountMap} (hf : Holds folded m)
    (hp : Holds published n) (k : String) : Browser.sameSum folded published (ofString k) = true ↔
      amount m k = amount n k ∧ (k ∈ inheritedNames → (k ∈ m.keys ↔ k ∈ n.keys)) := by
  classical
  have hleft := (tallies_of_holds hf).lookup k
  have hright := (tallies_of_holds hp).lookup k
  simp only [Set.mem_ofPred_eq] at hleft hright
  rw [Browser.sameSum, hleft, hright]
  by_cases hm : k ∈ m.keys <;> by_cases hn : k ∈ n.keys
  · simp [hm, hn]
  · have hinherited : Browser.isInherited (ofString k) = false ↔ k ∉ inheritedNames := by
      rw [← isInherited_ofString, Bool.not_eq_true]
    simp [hm, hn, Sums.amount_of_not_mem hn, hinherited, and_comm]
  · have hinherited : Browser.isInherited (ofString k) = false ↔ k ∉ inheritedNames := by
      rw [← isInherited_ofString, Bool.not_eq_true]
    simp [hm, hn, Sums.amount_of_not_mem hm, hinherited]
    tauto
  · simp [hm, hn, Sums.amount_of_not_mem hm, Sums.amount_of_not_mem hn]

/-- The totals agree when the amounts do, and the same inherited names are given. -/
theorem checkTotals_iff {folded published : Browser.Sums} {m n : AmountMap} (hf : Holds folded m)
    (hp : Holds published n) : Browser.checkTotals folded published = .ok () ↔
      amount m = amount n ∧ ∀ k ∈ inheritedNames, k ∈ m.keys ↔ k ∈ n.keys := by
  simp only [Browser.checkTotals, forM_eq_ok, ensure_eq_ok]
  constructor
  · intro h
    have hall : ∀ k, amount m k = amount n k ∧ (k ∈ inheritedNames → (k ∈ m.keys ↔ k ∈ n.keys)) := by
      intro k
      rw [← sameSum_iff hf hp]
      by_cases hm : k ∈ m.keys
      · exact h _ (List.mem_append_left _ (hf.complete k hm))
      · by_cases hn : k ∈ n.keys
        · exact h _ (List.mem_append_right _ (hp.complete k hn))
        · rw [sameSum_iff hf hp, Sums.amount_of_not_mem hm, Sums.amount_of_not_mem hn]
          exact ⟨rfl, fun _ => iff_of_false hm hn⟩
    exact ⟨funext fun k => (hall k).1, fun k => (hall k).2⟩
  · rintro ⟨hamount, hkeys⟩ name hname
    obtain ⟨k, rfl⟩ : ∃ k, name = ofString k := by
      rcases List.mem_append.mp hname with hname | hname
      · obtain ⟨p, hp, rfl⟩ := List.mem_map.mp hname
        obtain ⟨k, _, hk, _⟩ := hf.sound p hp
        exact ⟨k, hk⟩
      · obtain ⟨p, hp', rfl⟩ := List.mem_map.mp hname
        obtain ⟨k, _, hk, _⟩ := hp.sound p hp'
        exact ⟨k, hk⟩
    exact (sameSum_iff hf hp k).mpr ⟨congrFun hamount k, hkeys k⟩

section Nodes
variable {sha256 : List UInt8 → Digest}

structure ReadsNode (node : Browser.SolvencyNode) (n : Merkle.Node) : Prop where
  hash : node.hashHex = ofString (hexEncode n.hash.toList)
  sums : Holds node.sums n.sums

theorem hexToBytes_hex (bytes : List UInt8) :
    Browser.hexToBytes (.str (ofString (hexEncode bytes))) = .ok bytes := by
  have h := HexTexts.hexToBytes_string (hexEncode bytes)
  rwa [hexDecode_encode] at h

theorem hexToBytes_of_decode {s : String} {n : ℕ} {bytes : Bytes n} (h : hexDecodeN n s = some bytes) :
    Browser.hexToBytes (Js.string s) = .ok bytes.toList := by
  rw [HexTexts.hexToBytes_string, HexTexts.hexDecodeN_eq_some.mp h]
  rfl

/-- Where the left owns what is inherited, nodes are combined alike. -/
theorem combineNodes_agrees {left right : Browser.SolvencyNode} {l r : Merkle.Node} (hl : ReadsNode left l)
    (hr : ReadsNode right r) (hown : LeftOwns {k | k ∈ l.sums.keys} {k | k ∈ r.sums.keys}) :
    Agrees ReadsNode (Browser.combineNodes sha256 left right) (Merkle.combine sha256 l r) := by
  have htallies := addSums_tallies hl.sums hr.sums hown
  -- what the maps add up to is what the objects add up to
  have hholds : ∀ {s}, Sums.addSums Merkle.MerkleError.sumOverflow l.sums r.sums = .ok s →
      Holds (Browser.addSums left.sums right.sums) s := fun hs =>
    htallies.holds (Sums.addSums_keys hs) (Sums.addSums_amount hs)
  have hcombine : ∀ {s}, Sums.addSums Merkle.MerkleError.sumOverflow l.sums r.sums = .ok s →
      ∃ node, Browser.combineNodes sha256 left right = .ok node ∧
        ReadsNode node ⟨sha256 (Merkle.nodePreimage l.hash r.hash s), s⟩ := fun {s} hs => by
    refine ⟨⟨Browser.hashHex sha256 (Merkle.nodePreimage l.hash r.hash s),
      Browser.addSums left.sums right.sums⟩, ?_, rfl, hholds hs⟩
    simp only [Browser.combineNodes, hl.hash, hr.hash, hexToBytes_hex, canonicalSums_holds (hholds hs), ok_bind,
      encode_ofString]
    rfl
  constructor
  · intro node hnode
    have htext := hnode
    simp only [Browser.combineNodes, bind_eq_ok] at htext
    obtain ⟨_, _, _, _, text, htext, _⟩ := htext
    obtain ⟨s, hs⟩ := Sums.addSums_total Merkle.MerkleError.sumOverflow fun k => htallies.lt htext k
    obtain ⟨node', hnode', hreads⟩ := hcombine hs
    obtain rfl := Except.ok.inj (hnode.symm.trans hnode')
    exact ⟨_, Merkle.combine_eq_ok.mpr ⟨hs, rfl⟩, hreads⟩
  · intro n hn
    obtain ⟨hs, hhash⟩ := Merkle.combine_eq_ok.mp hn
    obtain ⟨node, hnode, hreads⟩ := hcombine hs
    refine ⟨node, hnode, ?_⟩
    rwa [← hhash] at hreads

end Nodes

end AssuranceLayer.SumAgreement
