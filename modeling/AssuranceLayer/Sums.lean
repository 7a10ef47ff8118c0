import AssuranceLayer.Amount

set_option autoImplicit false

/-!
Maps of amounts by name. An absent name and a zero amount are the same claim, so `amount` reads
both as zero; addition of one map into another is checked entry by entry.
-/
namespace AssuranceLayer.Sums
open Framing Fallible Amount SortedMap

abbrev AmountMap := SortedMap String U128

def amount (m : AmountMap) (a : String) : ℕ := ((m.get? a).getD 0).val

@[simp] theorem amount_empty (a : String) : amount empty a = 0 := rfl

theorem amount_lt (m : AmountMap) (a : String) : amount m a < 2 ^ 128 := Fin.isLt _

theorem amount_of_get? {m : AmountMap} {a : String} {v : U128} (h : m.get? a = some v) :
    amount m a = v.val := by
  rw [amount, h]
  rfl

theorem amount_of_not_mem {m : AmountMap} {a : String} (h : a ∉ m.keys) : amount m a = 0 := by
  rw [amount, get?_eq_none.mpr h]
  rfl

theorem amount_insert (m : AmountMap) (k a : String) (v : U128) :
    amount (m.insert k v) a = if k = a then v.val else amount m a := by
  rw [amount, get?_insert]
  split_ifs <;> rfl

theorem ext_amount {m n : AmountMap} (hkeys : ∀ k, k ∈ m.keys ↔ k ∈ n.keys)
    (h : ∀ k ∈ n.keys, amount m k = amount n k) : m = n := by
  refine ext_get? fun k => ?_
  by_cases hk : k ∈ n.keys
  · obtain ⟨v, hv⟩ := Option.isSome_iff_exists.mp (mem_keys.mp hk)
    obtain ⟨w, hw⟩ := Option.isSome_iff_exists.mp (mem_keys.mp ((hkeys k).mpr hk))
    have hvw := h k hk
    rw [amount_of_get? hw, amount_of_get? hv] at hvw
    rw [hv, hw, Fin.ext hvw]
  · rw [get?_eq_none.mpr hk, get?_eq_none.mpr (mt (hkeys k).mp hk)]

def entryTotal (a : String) (l : List (String × U128)) : ℕ :=
  (l.map fun e => if e.1 = a then e.2.val else 0).sum

theorem entryTotal_of_not_mem {a : String} {l : List (String × U128)} (h : a ∉ l.map Prod.fst) :
    entryTotal a l = 0 := by
  induction l with
  | nil => rfl
  | cons e l ih =>
    rw [List.map_cons, List.mem_cons, not_or] at h
    have htail := ih h.2
    rw [entryTotal] at htail ⊢
    rw [List.map_cons, List.sum_cons, if_neg (Ne.symm h.1), htail]

theorem entryTotal_eq (a : String) {l : List (String × U128)} (h : (l.map Prod.fst).Nodup) :
    entryTotal a l = ((lookupEntries a l).getD 0).val := by
  induction l with
  | nil => rfl
  | cons e l ih =>
    obtain ⟨k, v⟩ := e
    rw [List.map_cons, List.nodup_cons] at h
    have htail := ih h.2
    rw [entryTotal] at htail ⊢
    rw [List.map_cons, List.sum_cons, lookupEntries]
    split_ifs with hk
    · subst hk
      have hzero := entryTotal_of_not_mem h.1
      rw [entryTotal] at hzero
      rw [hzero]
      rfl
    · rw [htail, Nat.zero_add]

theorem entryTotal_entries (a : String) (m : AmountMap) : entryTotal a m.entries = amount m a :=
  entryTotal_eq a m.keys_nodup

theorem entryTotal_perm {l l' : List (String × U128)} (h : l.Perm l') (a : String) :
    entryTotal a l = entryTotal a l' := (h.map _).sum_eq

theorem entryTotal_concat (a : String) (l : List (String × U128)) (e : String × U128) :
    entryTotal a (l ++ [e]) = entryTotal a l + if e.1 = a then e.2.val else 0 := by
  rw [entryTotal, List.map_append, List.sum_append, List.map_singleton, List.sum_singleton, entryTotal]

theorem entryTotal_eq_zero_iff {a : String} {l : List (String × U128)} :
    entryTotal a l = 0 ↔ ∀ e ∈ l, e.1 = a → e.2 = 0 := by
  rw [entryTotal, List.sum_eq_zero_iff, List.forall_mem_map]
  exact forall₂_congr fun e _ => by rw [ite_eq_right_iff, Fin.val_eq_zero_iff]

section
variable {f : String → String} (hf : ∀ s, f (f s) = f s) {l : List (String × U128)}
include hf

/-- Nothing is left under a name that is renamed. -/
theorem entryTotal_renamed {a : String} (ha : f a ≠ a) : entryTotal a (l.map fun e => (f e.1, e.2)) = 0 := by
  refine entryTotal_of_not_mem ?_
  rw [List.map_map, List.mem_map]
  rintro ⟨e, _, he⟩
  refine ha ?_
  rw [← he]
  exact hf e.1

/-- Renaming entries changes no total exactly when only entries that hold nothing are renamed. -/
theorem entryTotal_rename_iff : (∀ a, entryTotal a l = entryTotal a (l.map fun e => (f e.1, e.2))) ↔
    ∀ e ∈ l, f e.1 ≠ e.1 → e.2 = 0 := by
  constructor
  · intro h e he hne
    exact entryTotal_eq_zero_iff.mp ((h e.1).trans (entryTotal_renamed hf hne)) e he rfl
  · intro h a
    rw [entryTotal, entryTotal, List.map_map]
    refine congrArg List.sum (List.map_congr_left fun e he => ?_)
    by_cases hname : f e.1 = e.1
    · simp [hname]
    · simp [h e he hname]

end

theorem entryTotal_flatMap {α : Type} (a : String) (l : List α) (f : α → List (String × U128)) :
    entryTotal a (l.flatMap f) = (l.map fun x => entryTotal a (f x)).sum := by
  induction l with
  | nil => rfl
  | cons x l ih =>
    rw [entryTotal] at ih ⊢
    rw [List.flatMap_cons, List.map_append, List.sum_append, ih, List.map_cons, List.sum_cons, entryTotal]

/-- Bounds that add up to what is bounded are attained one by one. -/
theorem sum_eq_iff_of_le {α : Type} {l : List α} {f g : α → ℕ} (h : ∀ x ∈ l, f x ≤ g x) :
    (l.map f).sum = (l.map g).sum ↔ ∀ x ∈ l, f x = g x := by
  induction l with
  | nil => simp
  | cons x l ih =>
    obtain ⟨hx, hl⟩ := List.forall_mem_cons.mp h
    have hle : (l.map f).sum ≤ (l.map g).sum := List.sum_le_sum hl
    rw [List.map_cons, List.sum_cons, List.map_cons, List.sum_cons, List.forall_mem_cons, ← ih hl]
    omega

/-! ## Collecting entries that may share a name -/

/-- The last entry under a name holds no more than all entries under it. -/
theorem amount_ofList_le (a : String) (l : List (String × U128)) :
    amount (ofList l) a ≤ entryTotal a l := by
  induction l using List.reverseRecOn with
  | nil => exact le_refl 0
  | append_singleton l e ih =>
    rw [ofList_concat, amount_insert, entryTotal_concat]
    split_ifs <;> omega

/-- Collecting loses nothing exactly when every entry that is replaced later holds nothing. -/
theorem amount_ofList_eq_iff {l : List (String × U128)} :
    (∀ a, amount (ofList l) a = entryTotal a l) ↔ l.Pairwise fun e f => e.1 = f.1 → e.2 = 0 := by
  induction l using List.reverseRecOn with
  | nil => simp [entryTotal, ofList]
  | append_singleton l e ih =>
    have hstep : (∀ a, amount (ofList (l ++ [e])) a = entryTotal a (l ++ [e])) ↔
        entryTotal e.1 l = 0 ∧ ∀ a, amount (ofList l) a = entryTotal a l := by
      simp only [ofList_concat, amount_insert, entryTotal_concat]
      constructor
      · intro h
        have hself := h e.1
        rw [if_pos rfl, if_pos rfl] at hself
        have hzero : entryTotal e.1 l = 0 := by omega
        refine ⟨hzero, fun a => ?_⟩
        by_cases ha : e.1 = a
        · subst ha
          have hle := amount_ofList_le e.1 l
          omega
        · have hother := h a
          rwa [if_neg ha, if_neg ha, Nat.add_zero] at hother
      · rintro ⟨hzero, hrest⟩ a
        split_ifs with ha
        · rw [← ha, hzero, Nat.zero_add]
        · rw [hrest a, Nat.add_zero]
    rw [hstep, ih, entryTotal_eq_zero_iff, List.pairwise_append]
    simp [and_comm]

/-! ## Adding one map into another -/

section Add
variable {ε ε' : Type} (overflow : String → ε)

def addEntry (sums : AmountMap) (e : String × U128) : Except ε AmountMap := do
  let v ← okOr (U128.checkedAdd ((sums.get? e.1).getD 0) e.2) (overflow e.1)
  return sums.insert e.1 v

def addSums (left right : AmountMap) : Except ε AmountMap :=
  right.entries.foldlM (addEntry overflow) left

variable {overflow}

theorem addEntry_eq_ok {sums s : AmountMap} {e : String × U128} :
    addEntry overflow sums e = .ok s ↔
      ∃ v : U128, amount sums e.1 + e.2.val = v.val ∧ sums.insert e.1 v = s := by
  simp only [addEntry, bind_eq_ok, okOr_eq_ok, pure_eq_ok, U128.checkedAdd_eq_some, amount]

theorem addEntry_amount {sums s : AmountMap} {e : String × U128}
    (h : addEntry overflow sums e = .ok s) (a : String) :
    amount s a = amount sums a + if e.1 = a then e.2.val else 0 := by
  obtain ⟨v, hv, rfl⟩ := addEntry_eq_ok.mp h
  rw [amount_insert]
  split_ifs with ha
  · rw [← hv, ha]
  · rfl

theorem addEntries_amount {l : List (String × U128)} {sums s : AmountMap}
    (h : l.foldlM (addEntry overflow) sums = .ok s) (a : String) :
    amount s a = amount sums a + entryTotal a l := by
  induction l generalizing sums with
  | nil =>
    cases h
    rfl
  | cons e l ih =>
    obtain ⟨mid, hmid, hs⟩ := bind_eq_ok.mp h
    rw [ih hs, addEntry_amount hmid, entryTotal, entryTotal, List.map_cons, List.sum_cons,
      Nat.add_assoc]

theorem addEntries_keys {l : List (String × U128)} {sums s : AmountMap}
    (h : l.foldlM (addEntry overflow) sums = .ok s) (a : String) :
    a ∈ s.keys ↔ a ∈ sums.keys ∨ a ∈ l.map Prod.fst := by
  induction l generalizing sums with
  | nil =>
    cases h
    simp
  | cons e l ih =>
    obtain ⟨mid, hmid, hs⟩ := bind_eq_ok.mp h
    obtain ⟨v, _, rfl⟩ := addEntry_eq_ok.mp hmid
    rw [ih hs, mem_keys_insert, List.map_cons, List.mem_cons]
    tauto

theorem addEntries_total {l : List (String × U128)} {sums : AmountMap}
    (h : ∀ a, amount sums a + entryTotal a l < 2 ^ 128) :
    ∃ s, l.foldlM (addEntry overflow) sums = .ok s := by
  induction l generalizing sums with
  | nil => exact ⟨sums, rfl⟩
  | cons e l ih =>
    have hstep : ∀ a, entryTotal a (e :: l) = (if e.1 = a then e.2.val else 0) + entryTotal a l :=
      fun a => by rw [entryTotal, List.map_cons, List.sum_cons, entryTotal]
    have hfit : amount sums e.1 + e.2.val < 2 ^ 128 := by
      have he := h e.1
      rw [hstep, if_pos rfl] at he
      omega
    have hmid : addEntry overflow sums e = .ok (sums.insert e.1 ⟨_, hfit⟩) :=
      addEntry_eq_ok.mpr ⟨⟨_, hfit⟩, rfl, rfl⟩
    have hrest : ∀ a, amount (sums.insert e.1 ⟨_, hfit⟩) a + entryTotal a l < 2 ^ 128 := by
      intro a
      have ha := h a
      rw [hstep] at ha
      rw [addEntry_amount hmid]
      omega
    obtain ⟨s, hs⟩ := ih hrest
    exact ⟨s, by rw [List.foldlM_cons, hmid, ok_bind, hs]⟩

theorem addSums_amount {l r s : AmountMap} (h : addSums overflow l r = .ok s) (a : String) :
    amount s a = amount l a + amount r a := by
  rw [addEntries_amount h, entryTotal_entries]

theorem addSums_keys {l r s : AmountMap} (h : addSums overflow l r = .ok s) (a : String) :
    a ∈ s.keys ↔ a ∈ l.keys ∨ a ∈ r.keys :=
  addEntries_keys h a

variable (overflow) in
theorem addSums_total {l r : AmountMap} (h : ∀ a, amount l a + amount r a < 2 ^ 128) :
    ∃ s, addSums overflow l r = .ok s :=
  addEntries_total fun a => by rw [entryTotal_entries]; exact h a

variable (overflow) in
/-- What is returned does not depend on how an overflow is reported. -/
theorem addSums_eq_ok_iff (overflow' : String → ε') {l r s : AmountMap} :
    addSums overflow l r = .ok s ↔ addSums overflow' l r = .ok s := by
  rw [addSums, addSums]
  induction r.entries generalizing l with
  | nil => simp [pure, Except.pure]
  | cons e rest ih => simp only [List.foldlM_cons, bind_eq_ok, addEntry_eq_ok, ih]

end Add

/-! ## Length-prefixed encoding -/

/-- `u64le(count) ‖ (lp(asset) ‖ lp(canonical_amount))*`, assets in order. -/
def lpmap (m : AmountMap) : List UInt8 :=
  u64le m.entries.length ++ m.entries.flatMap fun e => lp e.1 ++ lp (formatAmount18dp e.2)

def ShortMap (m : AmountMap) : Prop := m.entries.length < 256 ^ 8 ∧ ∀ e ∈ m.entries, Short e.1

instance (m : AmountMap) : Decidable (ShortMap m) := inferInstanceAs (Decidable (_ ∧ _))

theorem amountChars_length_le (v : U128) : (amountChars v).length ≤ 58 := by
  have hlt : v.val / scale.val < 10 ^ 39 :=
    lt_of_le_of_lt (Nat.div_le_self _ _) (lt_trans v.isLt (by norm_num))
  have h := Nat.toDigits_length 10 (v.val / scale.val) 39 (by decide) hlt
  rw [amountChars, List.length_append, List.length_cons, fracDigits_length]
  omega

theorem short_format (v : U128) : Short (formatAmount18dp v) := by
  have hascii : (amountChars v).all (fun c => isAsciiDigit c || c = '.') = true :=
    List.all_eq_true.mpr fun c hc => by
      rcases mem_amountChars hc with h | h
      · simp [h]
      · simp [h]
  have hlen : (utf8 (formatAmount18dp v)).length = (amountChars v).length :=
    utf8_length_of_single hascii fun c hc => by
      rcases Bool.or_eq_true _ _ ▸ hc with h | h
      · exact isAsciiDigit_ascii h
      · rw [of_decide_eq_true h]
        rfl
  have hle := amountChars_length_le v
  unfold Short
  omega

theorem framed_lpmap : Framed ShortMap lpmap := by
  have hval : Framed (fun _ : U128 => True) fun v => lp (formatAmount18dp v) :=
    framed_lp.comp _ formatAmount18dp (fun v _ => short_format v) fun _ _ _ _ => format_inj
  have h := (framed_u64le.counted (framed_lp.pair hval)).comp
    ShortMap SortedMap.entries (fun m hm => ⟨hm.1, fun e he => ⟨hm.2 e he, trivial⟩⟩)
    (fun _ _ _ _ => ext_entries)
  exact h

end AssuranceLayer.Sums
