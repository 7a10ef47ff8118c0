import AssuranceLayer.Primitives

set_option autoImplicit false

/-!
Strings as UTF-16 code units, their reading as characters with lone surrogates replaced, and the
order of the UTF-8 bytes, which is the order of the characters.
-/
namespace AssuranceLayer.Utf16

def isHigh (u : UInt16) : Bool := 0xD800 ≤ u ∧ u < 0xDC00
def isLow (u : UInt16) : Bool := 0xDC00 ≤ u ∧ u < 0xE000

def charUnits (c : Char) : List UInt16 :=
  let n := c.toNat
  if n < 0x10000 then [UInt16.ofNat n]
  else [UInt16.ofNat (0xD800 + (n - 0x10000) / 0x400), UInt16.ofNat (0xDC00 + (n - 0x10000) % 0x400)]

def ofString (s : String) : List UInt16 := s.toList.flatMap charUnits

def replacement : Char := Char.ofNat 0xFFFD

def single (u : UInt16) : Char :=
  if isHigh u || isLow u then replacement else Char.ofNat u.toNat

def paired (hi lo : UInt16) : Char :=
  Char.ofNat (0x10000 + (hi.toNat - 0xD800) * 0x400 + (lo.toNat - 0xDC00))

/-- The characters of a string. A surrogate outside a pair reads as U+FFFD. -/
def scalars : List UInt16 → List Char
  | [] => []
  | [u] => [single u]
  | hi :: lo :: rest =>
    if isHigh hi && isLow lo then paired hi lo :: scalars rest else single hi :: scalars (lo :: rest)

/-- The string with these code units, if no surrogate stands outside a pair. -/
def toString? (units : List UInt16) : Option String :=
  let s := String.ofList (scalars units)
  if ofString s = units then some s else none

/-- `TextEncoder.encode`. -/
def encode (units : List UInt16) : List UInt8 := utf8 (String.ofList (scalars units))

theorem toNat_valid (c : Char) : c.toNat < 0xD800 ∨ 0xDFFF < c.toNat ∧ c.toNat < 0x110000 := c.valid

theorem ofNat_of_toNat (c : Char) {n : ℕ} (h : n = c.toNat) : Char.ofNat n = c := by
  rw [h, Char.ofNat_toNat]

theorem unit_toNat {n : ℕ} (h : n < 0x10000) : (UInt16.ofNat n).toNat = n := by
  rw [UInt16.toNat_ofNat']
  exact Nat.mod_eq_of_lt h

theorem isHigh_iff {u : UInt16} : isHigh u = true ↔ 0xD800 ≤ u.toNat ∧ u.toNat < 0xDC00 := by
  simp [isHigh, UInt16.le_iff_toNat_le, UInt16.lt_iff_toNat_lt]

theorem isLow_iff {u : UInt16} : isLow u = true ↔ 0xDC00 ≤ u.toNat ∧ u.toNat < 0xE000 := by
  simp [isLow, UInt16.le_iff_toNat_le, UInt16.lt_iff_toNat_lt]

theorem scalars_cons_plain {u : UInt16} (h : isHigh u = false) (rest : List UInt16) :
    scalars (u :: rest) = single u :: scalars rest := by
  cases rest with
  | nil => rfl
  | cons v rest => rw [scalars, h, Bool.false_and, if_neg Bool.false_ne_true]

theorem scalars_charUnits (c : Char) (rest : List UInt16) :
    scalars (charUnits c ++ rest) = c :: scalars rest := by
  have hvalid := toNat_valid c
  by_cases hn : c.toNat < 0x10000
  · have hu := unit_toNat hn
    have hhigh : isHigh (UInt16.ofNat c.toNat) = false := by
      rw [← Bool.not_eq_true, isHigh_iff, hu]
      omega
    have hlow : isLow (UInt16.ofNat c.toNat) = false := by
      rw [← Bool.not_eq_true, isLow_iff, hu]
      omega
    rw [charUnits, if_pos hn, List.singleton_append, scalars_cons_plain hhigh, single, hhigh, hlow,
      if_neg (by decide), ofNat_of_toNat c hu]
  · have hhi := unit_toNat (show 0xD800 + (c.toNat - 0x10000) / 0x400 < 0x10000 by omega)
    have hlo := unit_toNat (show 0xDC00 + (c.toNat - 0x10000) % 0x400 < 0x10000 by omega)
    have hhigh : isHigh (UInt16.ofNat (0xD800 + (c.toNat - 0x10000) / 0x400)) = true := by
      rw [isHigh_iff, hhi]
      omega
    have hlow : isLow (UInt16.ofNat (0xDC00 + (c.toNat - 0x10000) % 0x400)) = true := by
      rw [isLow_iff, hlo]
      omega
    rw [charUnits, if_neg hn, List.cons_append, List.singleton_append, scalars, hhigh, hlow,
      Bool.and_self, if_pos rfl, paired, hhi, hlo, ofNat_of_toNat c (by omega)]

theorem scalars_append (cs : List Char) (rest : List UInt16) :
    scalars (cs.flatMap charUnits ++ rest) = cs ++ scalars rest := by
  induction cs with
  | nil => rfl
  | cons c cs ih => rw [List.flatMap_cons, List.append_assoc, scalars_charUnits, ih, List.cons_append]

theorem scalars_flatMap (cs : List Char) : scalars (cs.flatMap charUnits) = cs := by
  have h := scalars_append cs []
  rwa [List.append_nil, scalars, List.append_nil] at h

@[simp] theorem scalars_ofString (s : String) : scalars (ofString s) = s.toList := scalars_flatMap _

theorem ofString_inj {s t : String} : ofString s = ofString t ↔ s = t := by
  constructor
  · intro h
    have hlist := congrArg scalars h
    rwa [scalars_ofString, scalars_ofString, String.toList_inj] at hlist
  · rintro rfl
    rfl

@[simp] theorem encode_ofString (s : String) : encode (ofString s) = utf8 s := by
  rw [encode, scalars_ofString, String.ofList_toList]

theorem toString?_eq_some {units : List UInt16} {s : String} :
    toString? units = some s ↔ units = ofString s := by
  rw [toString?]
  split_ifs with h
  · rw [Option.some.injEq]
    constructor
    · rintro rfl
      exact h.symm
    · intro hs
      rw [hs, scalars_ofString, String.ofList_toList]
  · simp only [false_iff]
    rintro rfl
    rw [scalars_ofString, String.ofList_toList] at h
    exact h rfl

@[simp] theorem toString?_ofString (s : String) : toString? (ofString s) = some s :=
  toString?_eq_some.mpr rfl

theorem ofString_append (s t : String) : ofString (s ++ t) = ofString s ++ ofString t := by
  rw [ofString, String.toList_append, List.flatMap_append, ofString, ofString]

/-! ## Characters of one unit -/

/-- A code unit as a character. Surrogates, which are none, read as U+0000. -/
def unitChar (u : UInt16) : Char := Char.ofNat u.toNat

def asChars (units : List UInt16) : List Char := units.map unitChar

theorem unitChar_toNat {u : UInt16} (h : unitChar u ≠ Char.ofNat 0) : (unitChar u).toNat = u.toNat := by
  rw [unitChar] at h ⊢
  by_cases hv : u.toNat.isValidChar
  · rw [Char.toNat_ofNat, if_pos hv]
  · rw [Char.ofNat, dif_neg hv] at h
    exact absurd (by decide) h

theorem unitChar_surrogate {u : UInt16} (h : 0xD800 ≤ u.toNat) (h' : u.toNat < 0xE000) :
    unitChar u = Char.ofNat 0 := by
  by_contra hne
  have hto := unitChar_toNat hne
  have hvalid := toNat_valid (unitChar u)
  omega

theorem charUnits_of_lt {c : Char} (h : c.toNat < 0x10000) : charUnits c = [UInt16.ofNat c.toNat] :=
  if_pos h

theorem asChars_charUnits {c : Char} (h : c.toNat < 0x10000) : asChars (charUnits c) = [c] := by
  rw [charUnits_of_lt h, asChars, List.map_singleton, unitChar, unit_toNat h, Char.ofNat_toNat]

/-- The units of a character beyond the first plane. -/
theorem mem_charUnits_of_le {c : Char} (h : 0x10000 ≤ c.toNat) {u : UInt16} (hu : u ∈ charUnits c) :
    0xD800 ≤ u.toNat ∧ u.toNat < 0xE000 := by
  have hvalid := toNat_valid c
  rw [charUnits, if_neg (not_lt.mpr h)] at hu
  rcases List.mem_pair.mp hu with rfl | rfl
  · rw [unit_toNat (by omega)]
    omega
  · rw [unit_toNat (by omega)]
    omega

theorem charUnits_ne_nil (c : Char) : charUnits c ≠ [] := by
  rw [charUnits]
  split_ifs <;> exact List.cons_ne_nil _ _

theorem asChars_ofString {s : String} (h : ∀ c ∈ s.toList, c.toNat < 0x10000) :
    asChars (ofString s) = s.toList := by
  rw [ofString]
  generalize s.toList = cs at h
  induction cs with
  | nil => rfl
  | cons c cs ih =>
    rw [List.flatMap_cons, asChars, List.map_append, ← asChars, ← asChars,
      asChars_charUnits (h c List.mem_cons_self), ih fun d hd => h d (List.mem_cons_of_mem _ hd)]
    rfl

theorem ofString_asChars {units : List UInt16} (h : ∀ c ∈ asChars units, c ≠ Char.ofNat 0) :
    ofString (String.ofList (asChars units)) = units := by
  rw [ofString, String.toList_ofList]
  induction units with
  | nil => rfl
  | cons u units ih =>
    have hu := unitChar_toNat (h (unitChar u) List.mem_cons_self)
    rw [asChars, List.map_cons, List.flatMap_cons, ← asChars,
      ih fun c hc => h c (List.mem_cons_of_mem _ hc), charUnits_of_lt (hu ▸ u.toNat_lt), hu,
      UInt16.ofNat_toNat, List.singleton_append]

/-! ## The order of the bytes -/

/-- Strings are compared by the numbers of their bytes. -/
def byteValues (units : List UInt16) : List ℕ := (encode units).map UInt8.toNat

/-- Or by the numbers of their code units. -/
def unitValues (units : List UInt16) : List ℕ := units.map UInt16.toNat

def charBytes (c : Char) : List ℕ := (String.utf8EncodeChar c).map UInt8.toNat

theorem byteValues_ofString (s : String) : byteValues (ofString s) = s.toList.flatMap charBytes := by
  rw [byteValues, encode_ofString, utf8, ← String.utf8Encode_toList, List.utf8Encode,
    List.data_toByteArray, List.map_flatMap]
  rfl

/-- The bytes of a smaller character are smaller, whatever stands behind them. -/
theorem charBytes_lt {c d : Char} (h : c < d) (s t : List ℕ) : charBytes c ++ s < charBytes d ++ t := by
  have hc : c.val.toNat < 0xD800 ∨ 0xDFFF < c.val.toNat ∧ c.val.toNat < 0x110000 := c.valid
  have hd : d.val.toNat < 0xD800 ∨ 0xDFFF < d.val.toNat ∧ d.val.toNat < 0x110000 := d.valid
  have hlt : c.val.toNat < d.val.toNat := h
  have h12 : ∀ n : ℕ, n / 4096 = n / 64 / 64 := fun n => by omega
  have h18 : ∀ n : ℕ, n / 262144 = n / 64 / 64 / 64 := fun n => by omega
  simp only [charBytes, String.utf8EncodeChar, h12, h18]
  split_ifs <;>
    simp only [List.map_cons, List.map_nil, List.cons_append, List.nil_append, List.cons_lt_cons_iff,
      UInt8.toNat_ofNat'] <;>
    omega

theorem charBytes_ne_nil (c : Char) : charBytes c ≠ [] :=
  List.map_eq_nil_iff.not.mpr String.utf8EncodeChar_ne_nil

theorem flatMap_charBytes_strictMono : StrictMono fun cs : List Char => cs.flatMap charBytes := by
  intro a
  induction a with
  | nil =>
    intro b h
    cases b with
    | nil => exact absurd h (lt_irrefl _)
    | cons d b =>
      obtain ⟨x, xs, hx⟩ := List.exists_cons_of_ne_nil (charBytes_ne_nil d)
      simp only [List.flatMap_nil, List.flatMap_cons, hx]
      exact List.nil_lt_cons _ _
  | cons c a ih =>
    intro b h
    cases b with
    | nil => exact absurd h (List.not_lt_nil _)
    | cons d b =>
      simp only [List.flatMap_cons]
      rcases List.cons_lt_cons_iff.mp h with hcd | ⟨rfl, hab⟩
      · exact charBytes_lt hcd _ _
      · exact List.append_left_lt (ih hab)

theorem byteValues_lt {s t : String} : byteValues (ofString s) < byteValues (ofString t) ↔ s < t := by
  rw [byteValues_ofString, byteValues_ofString, flatMap_charBytes_strictMono.lt_iff_lt,
    String.lt_iff_toList_lt]

theorem byteValues_le {s t : String} : byteValues (ofString s) ≤ byteValues (ofString t) ↔ s ≤ t := by
  rw [← not_lt, byteValues_lt, not_lt]

end AssuranceLayer.Utf16
