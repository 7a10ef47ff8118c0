import AssuranceLayer.Conservation
import AssuranceLayer.PreviewRows

set_option autoImplicit false

/-!
What a request holds under its names as they are written, against what is signed for it, and the
numbers that the browser and the service find behind one text.
-/
namespace AssuranceLayer.PreviewAgreement
open Fallible Utf16 JavaScript AmountTexts AmountCodec Amount Sums Document Sign Produce Service
open Conservation SortedMap BrowserCsv
open Profile (stripPrefix_eq_some)

/-! ## Requests -/

variable {sha256 : List UInt8 → Digest} {ed : Ed25519} {req : PublishRequest} {masterSalt : Bytes 32}
  {signer : ReportSigner}

/-- What the entries of all leaves hold under their names, as they stand in the request. -/
def heldUnder (req : PublishRequest) (value : String → U128) : List (String × U128) :=
  (allEntries req.leaves).map fun e => (e.1, value e.2)

theorem enteredTotal_eq (a : String) : enteredTotal req a =
    entryTotal a ((heldUnder req entered).map fun e => (trim e.1, e.2)) := by
  rw [heldUnder, List.map_map, allEntries, List.map_flatMap, entryTotal_flatMap]
  rfl

theorem owedTotal_eq (a : String) : owedTotal req a =
    entryTotal a ((heldUnder req owed).map fun e => (trim e.1, e.2)) := by
  rw [heldUnder, List.map_map, allEntries, List.map_flatMap, entryTotal_flatMap]
  rfl

theorem rootSums_le {pub : Publication} {clamped : ℕ}
    (h : publication sha256 ed req masterSalt signer = .ok (pub, clamped)) (a : String) :
    amount pub.signedReport.report.rootSums a ≤ enteredTotal req a := by
  rw [publication_rootSums h, enteredTotal]
  exact List.sum_le_sum fun l _ => position_amount_le l.balances a

/-- The liabilities are what stands in the request exactly when a name that is trimmed holds nothing, and
    no amount is replaced. -/
theorem rootSums_eq_iff {pub : Publication} {clamped : ℕ}
    (h : publication sha256 ed req masterSalt signer = .ok (pub, clamped)) :
    (∀ a, entryTotal a (heldUnder req entered) = amount pub.signedReport.report.rootSums a) ↔
      (∀ e ∈ heldUnder req entered, trim e.1 ≠ e.1 → e.2 = 0) ∧ NoAmountReplaced req := by
  rw [← positions_total_iff]
  simp only [← publication_rootSums h, enteredTotal_eq]
  constructor
  · intro heq
    have hnames : ∀ e ∈ heldUnder req entered, trim e.1 ≠ e.1 → e.2 = 0 := by
      intro e he hne
      have hle := rootSums_le h e.1
      rw [enteredTotal_eq, entryTotal_renamed trim_trim hne, ← heq] at hle
      exact entryTotal_eq_zero_iff.mp (Nat.le_zero.mp hle) e he rfl
    exact ⟨hnames, fun a => by rw [← heq, (entryTotal_rename_iff trim_trim).mpr hnames]⟩
  · rintro ⟨hnames, htotals⟩ a
    rw [(entryTotal_rename_iff trim_trim).mpr hnames, htotals]

/-- The bad debt is what stands in the request exactly when a name that is trimmed owes nothing. -/
theorem badDebt_eq_iff {pub : Publication} {clamped : ℕ}
    (h : publication sha256 ed req masterSalt signer = .ok (pub, clamped))
    (hdisclosed : req.disclosures.badDebt = empty) :
    (∀ a, entryTotal a (heldUnder req owed) = amount pub.signedReport.report.disclosures.badDebt a) ↔
      ∀ e ∈ heldUnder req owed, trim e.1 ≠ e.1 → e.2 = 0 := by
  have hnone : ∀ a, disclosedBadDebt req a = 0 := by
    intro a
    rw [disclosedBadDebt, hdisclosed]
    rfl
  simp only [publication_badDebt h, hnone, Nat.zero_add, owedTotal_eq]
  exact entryTotal_rename_iff trim_trim

/-! ## Amounts that both read -/

/-- An amount that the service reads. -/
def Legible (raw : String) : Prop := ∃ v, parseAmount18dp ((magnitude raw).getD (trim raw)) = .ok v

theorem readEntry_legible {userId : String} {state state' : Clamped × AmountMap} {e : String × String}
    (h : readEntry userId state e = .ok state') : Legible e.2 := by
  simp only [readEntry, bind_eq_ok, ensure_eq_ok] at h
  obtain ⟨_, _, h⟩ := h
  rw [Legible, magnitude]
  cases hm : stripPrefix "-" (trim e.2) with
  | none =>
    simp only [hm, bind_eq_ok, mapError_eq_ok] at h
    obtain ⟨v, hv, _⟩ := h
    exact ⟨v, hv⟩
  | some m =>
    simp only [hm, bind_eq_ok, mapError_eq_ok] at h
    obtain ⟨v, hv, _⟩ := h
    exact ⟨v, hv⟩

theorem publication_legible {pub : Publication} {clamped : ℕ}
    (h : publication sha256 ed req masterSalt signer = .ok (pub, clamped)) :
    ∀ e ∈ allEntries req.leaves, Legible e.2 := by
  simp only [publication, bind_eq_ok] at h
  obtain ⟨_, _, _, _, _, _, read, hread, _⟩ := h
  intro e he
  obtain ⟨l, hl, he⟩ := List.mem_flatMap.mp he
  rw [← List.zipIdx_map_fst 0 req.leaves] at hl
  obtain ⟨leaf, hleaf, rfl⟩ := List.mem_map.mp hl
  obtain ⟨state, state', hstep⟩ := foldlM_mem hread hleaf
  simp only [readLeaf, bind_eq_ok] at hstep
  obtain ⟨_, _, _, _, _, hentries, _⟩ := hstep
  obtain ⟨_, _, hentry⟩ := foldlM_mem hentries he
  exact readEntry_legible hentry

theorem spells_text {units : JsString} {n : ℕ} (h : Spells (asChars units) n) :
    ofString (String.ofList (asChars units)) = units := by
  refine ofString_asChars fun c hc hzero => ?_
  have hchar := List.all_eq_true.mp (spells_chars h) c hc
  rw [hzero] at hchar
  exact absurd hchar (by decide)

theorem isWhitespace_amountChar {c : Char} (h : isAmountChar c = true) : isWhitespace c = false := by
  rw [isAmountChar, Bool.or_eq_true, decide_eq_true_eq] at h
  obtain h | rfl := h
  · simp only [isAsciiDigit, Char.le_def, UInt32.le_iff_toNat_le, decide_eq_true_eq] at h
    have hlow : 48 ≤ c.toNat := h.1
    have hhigh : c.toNat ≤ 57 := h.2
    simp only [isWhitespace, decide_eq_false_iff_not]
    omega
  · decide

/-- The number behind a text, as the service reads it. -/
theorem parse_spells {cs : List Char} {n : ℕ} {v : U128} (h : Spells cs n)
    (hv : parseAmount18dp (String.ofList cs) = .ok v) : v.val = n := by
  have hdecimal := parseAmount18dp_iff.mp hv
  rw [String.toList_ofList, decimal_iff] at hdecimal
  have hchars : asChars (ofString (String.ofList cs)) = cs := by
    rw [asChars_eq (p := isAmountChar) (by decide) (fun _ => isAmountChar_lt), String.toList_ofList]
    rw [String.toList_ofList]
    exact .inr (spells_chars h)
  have hscaled : ∀ m, Spells cs m → scaled (ofString (String.ofList cs)) = m := by
    intro m hm
    refine scaled_eq ?_
    rwa [hchars]
  rw [← hscaled n h, hscaled v.val hdecimal.1]

theorem trim_amount {cs : List Char} {n : ℕ} (h : Spells cs n) (front : String)
    (hfront : ∀ c ∈ front.toList, isWhitespace c = false) :
    trim (front ++ String.ofList cs) = front ++ String.ofList cs := by
  refine trim_eq_self fun c hc => ?_
  rw [String.toList_append, String.toList_ofList, List.mem_append] at hc
  obtain hc | hc := hc
  · exact hfront c hc
  · exact isWhitespace_amountChar (List.all_eq_true.mp (spells_chars h) c hc)

/-- What the browser takes for an amount, the service reads as the same number. -/
theorem amount_read {raw : String} (hamount : isAmount (ofString raw) = true) (hlegible : Legible raw) :
    (entered raw).val = (if isNegative (ofString raw) = true then 0 else scaled (unsigned (ofString raw))) ∧
    (owed raw).val = if isNegative (ofString raw) = true then scaled (unsigned (ofString raw)) else 0 := by
  obtain ⟨n, hn⟩ := isDecimal_iff.mp hamount
  have htext := spells_text hn
  rw [scaled_eq hn]
  rw [Legible] at hlegible
  generalize asChars (unsigned (ofString raw)) = cs at hn htext
  cases hnegative : isNegative (ofString raw) with
  | true =>
    rw [unsigned, if_pos hnegative] at htext
    have hraw : raw = "-" ++ String.ofList cs := by
      have hunits : ofString raw = minus :: (ofString raw).tail :=
        (List.cons_head?_tail (Option.mem_def.mpr (of_decide_eq_true hnegative))).symm
      rw [← ofString_inj, hunits, ← htext, ofString_append]
      rfl
    have hmagnitude : magnitude raw = some (String.ofList cs) := by
      rw [magnitude, hraw, trim_amount hn "-" (List.forall_mem_singleton.mpr (by decide))]
      exact stripPrefix_eq_some.mpr rfl
    rw [hmagnitude, Option.getD_some] at hlegible
    obtain ⟨v, hv⟩ := hlegible
    have hvn := parse_spells hn hv
    simp [entered, owed, hmagnitude, hv, Except.toOption, hvn]
  | false =>
    rw [unsigned, if_neg (by simp [hnegative])] at htext
    have hraw : raw = String.ofList cs := ofString_inj.mp htext.symm
    have htrim : trim raw = raw := by
      have h := trim_amount hn "" (fun c hc => absurd hc List.not_mem_nil)
      rwa [String.empty_append, ← hraw] at h
    have hmagnitude : magnitude raw = none := by
      rw [magnitude, htrim, Option.eq_none_iff_forall_ne_some]
      intro m hm
      -- an amount has no minus sign inside
      have hmem : '-' ∈ cs := by
        rw [← String.toList_ofList (l := cs), ← hraw, stripPrefix_eq_some.mp hm, String.toList_append]
        exact List.mem_cons_self
      exact absurd (List.all_eq_true.mp (spells_chars hn) _ hmem) (by decide)
    rw [hmagnitude, Option.getD_none, htrim, hraw] at hlegible
    obtain ⟨v, hv⟩ := hlegible
    have hvn := parse_spells hn hv
    rw [← hraw] at hv
    simp [entered, owed, hmagnitude, htrim, hv, Except.toOption, hvn]

end AssuranceLayer.PreviewAgreement
