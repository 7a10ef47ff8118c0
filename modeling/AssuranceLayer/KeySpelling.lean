import AssuranceLayer.BrowserCoverage
import AssuranceLayer.HexTexts
import AssuranceLayer.Reading

set_option autoImplicit false

/-!
How the two verifiers take a trusted key and the counts of a report, whatever document is checked with
them, and when two checks that differ there agree.
-/
namespace AssuranceLayer.KeySpelling
open Utf16 JavaScript Reading
open Binary64 (isSpace)
open Document Digest
open Sign (Ed25519 verifySignature)

/-! ## Keys -/

/-- A key without the white space around it. -/
def trimmed (key : String) : String := String.ofList (Binary64.stripSpace key.toList)

theorem dropWhile_flatMap {α β : Type} {f : α → List β} {p : α → Bool} {q : β → Bool}
    (hf : ∀ a, f a ≠ []) (h : ∀ a, ∀ b ∈ f a, q b = p a) (l : List α) :
    (l.flatMap f).dropWhile q = (l.dropWhile p).flatMap f := by
  induction l with
  | nil => rfl
  | cons a l ih =>
    rw [List.flatMap_cons, List.dropWhile_cons]
    cases hp : p a with
    | true =>
      rw [if_pos rfl, ← ih]
      exact List.dropWhile_append_of_pos fun b hb => (h a b hb).trans hp
    | false =>
      rw [if_neg Bool.false_ne_true, List.flatMap_cons]
      obtain ⟨b, rest, hb⟩ := List.exists_cons_of_ne_nil (hf a)
      have hq : q b = false := (h a b (hb ▸ List.mem_cons_self)).trans hp
      rw [hb, List.cons_append, List.dropWhile_cons, hq, if_neg Bool.false_ne_true]

theorem isSpace_of_le {c : Char} (h : 0x10000 ≤ c.toNat) : isSpace c = false := by
  simp only [isSpace, decide_eq_false_iff_not]
  omega

theorem isSpace_units (c : Char) : ∀ u ∈ charUnits c, isSpace (unitChar u) = isSpace c := by
  intro u hu
  by_cases hc : c.toNat < 0x10000
  · rw [charUnits_of_lt hc, List.mem_singleton] at hu
    rw [hu, unitChar, unit_toNat hc, Char.ofNat_toNat]
  · obtain ⟨hlow, hhigh⟩ := mem_charUnits_of_le (not_lt.mp hc) hu
    rw [unitChar_surrogate hlow hhigh, isSpace_of_le (not_lt.mp hc)]
    decide

theorem trim_ofString (key : String) : Browser.trim (ofString key) = ofString (trimmed key) := by
  have hback : ∀ c, ∀ u ∈ (List.reverse ∘ charUnits) c, isSpace (unitChar u) = isSpace c :=
    fun c u hu => isSpace_units c u (List.mem_reverse.mp hu)
  have hne : ∀ c, (List.reverse ∘ charUnits) c ≠ [] :=
    fun c => mt List.reverse_eq_nil_iff.mp (charUnits_ne_nil c)
  rw [Browser.trim, ofString, ofString, trimmed, String.toList_ofList, Binary64.stripSpace]
  simp only [dropWhile_flatMap charUnits_ne_nil isSpace_units]
  rw [List.reverse_flatMap, dropWhile_flatMap hne hback, List.reverse_flatMap]
  exact List.flatMap_congr fun c _ => List.reverse_reverse _

theorem trimmed_of_hex {n : ℕ} {key : String} {bytes : Bytes n} (h : hexDecodeN n key = some bytes) :
    trimmed key = key := by
  have hhex := HexTexts.hexDecodeChars_chars (HexTexts.hexDecodeN_eq_some.mp h)
  have hspace : ∀ c ∈ key.toList, isSpace c = false := fun c hc => by
    have hbounds := HexTexts.isHexDigit_bounds (List.all_eq_true.mp hhex c hc)
    simp only [isSpace, decide_eq_false_iff_not]
    omega
  rw [trimmed, Binary64.stripSpace, dropWhile_of_none hspace,
    dropWhile_of_none fun c hc => hspace c (List.mem_reverse.mp hc), List.reverse_reverse, String.ofList_toList]

theorem trimmed_of_verifies {ed : Ed25519} {key value : String} {digest : Digest}
    (h : verifySignature ed key digest value = .ok ()) : trimmed key = key := by
  simp only [verifySignature, Fallible.bind_eq_ok, Fallible.okOr_eq_ok] at h
  obtain ⟨_, hkey, _⟩ := h
  exact trimmed_of_hex hkey

/-- Rust takes a key that is recorded as the caller spells it, with no white space around it. -/
def SameSpelling (recorded key : String) : Prop := recorded = key ∧ trimmed key = key

/-- The browser takes a key that is recorded as the caller's without white space, in lower case. -/
def AlikeInLower (toLowerCase : JsString → JsString) (recorded key : String) : Prop :=
  toLowerCase (ofString recorded) = toLowerCase (ofString (trimmed key))

theorem SameSpelling.alikeInLower {recorded key : String} (h : SameSpelling recorded key)
    (toLowerCase : JsString → JsString) : AlikeInLower toLowerCase recorded key := by
  rw [AlikeInLower, h.1, h.2]

/-! ## Counts -/

/-- The digest of a report whose counts are read as doubles. -/
def readDigest (sha256 : List UInt8 → Digest) (r : Report) : Digest := reportDigest sha256 (asRead r)

/-- The counts of a report go into its digest as they are. -/
def CountsKept (sha256 : List UInt8 → Digest) (signed : SignedReport) : Prop :=
  readDigest sha256 signed.report = reportDigest sha256 signed.report

variable {sha256 : List UInt8 → Digest} {signed : SignedReport}

theorem countsKept_of_lt (hleaves : signed.report.leafCount.val < 2 ^ 53)
    (haccounts : signed.report.disclosures.excludedHouseAccounts.val < 2 ^ 53) : CountsKept sha256 signed := by
  rw [CountsKept, readDigest, asRead, readCount_of_lt hleaves, readCount_of_lt haccounts]

/-- Two readings of a digest that one document names are one. -/
theorem countsKept_of_named {named : String} (hread : hexEncode (readDigest sha256 signed.report).toList = named)
    (h : hexEncode (reportDigest sha256 signed.report).toList = named) : CountsKept sha256 signed :=
  hexEncode_digest_inj (hread.trans h.symm)

/-! ## Agreement -/

/-- Two checks that ask the same of what is kept agree exactly when what passes in one is kept, and passes
    what the other asks besides. -/
theorem agree_iff {Read Supported Kept alike spelled : Prop} (hkept : Read → Supported → Kept)
    (hcongr : Kept → spelled → (Read ↔ Supported)) : (Read ∧ alike ↔ Supported ∧ spelled) ↔
      (Supported → spelled → Kept ∧ alike) ∧ (Read → alike → Kept ∧ spelled) := by
  constructor
  · intro h
    constructor
    · intro hsupported hspelled
      obtain ⟨hread, halike⟩ := h.mpr ⟨hsupported, hspelled⟩
      exact ⟨hkept hread hsupported, halike⟩
    · intro hread halike
      obtain ⟨hsupported, hspelled⟩ := h.mp ⟨hread, halike⟩
      exact ⟨hkept hread hsupported, hspelled⟩
  · rintro ⟨hbrowser, hrust⟩
    constructor
    · rintro ⟨hread, halike⟩
      obtain ⟨hk, hspelled⟩ := hrust hread halike
      exact ⟨(hcongr hk hspelled).mp hread, hspelled⟩
    · rintro ⟨hsupported, hspelled⟩
      obtain ⟨hk, halike⟩ := hbrowser hsupported hspelled
      exact ⟨(hcongr hk hspelled).mpr hsupported, halike⟩

end AssuranceLayer.KeySpelling
