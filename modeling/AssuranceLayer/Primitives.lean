import AssuranceLayer.Framing

set_option autoImplicit false

/-!
Fixed-width integers, byte strings and the text operations the code takes from its language:
UTF-8 bytes, hexadecimal, `trim`, prefixes and decimal digits.
-/
namespace AssuranceLayer
open Framing

abbrev U64 := Fin (2 ^ 64)
abbrev U128 := Fin (2 ^ 128)

instance U64.neZero : NeZero (2 ^ 64) := ⟨by decide⟩
instance U128.neZero : NeZero (2 ^ 128) := ⟨by decide⟩

def U128.checkedAdd (a b : U128) : Option U128 :=
  if h : a.val + b.val < 2 ^ 128 then some ⟨a.val + b.val, h⟩ else none

def U128.checkedMul (a b : U128) : Option U128 :=
  if h : a.val * b.val < 2 ^ 128 then some ⟨a.val * b.val, h⟩ else none

def U128.saturatingMul (a b : U128) : U128 :=
  ⟨min (a.val * b.val) (2 ^ 128 - 1), (min_le_right _ _).trans_lt (by decide)⟩

/-- `n as u128`. -/
def U128.ofU64 (n : U64) : U128 := n.castLE (by decide)

/-- `n as u64` for a length. -/
def asU64 (n : ℕ) : U64 := ⟨n % 2 ^ 64, Nat.mod_lt _ (by decide)⟩

theorem U128.checkedAdd_eq_some {a b c : U128} :
    U128.checkedAdd a b = some c ↔ a.val + b.val = c.val := by
  unfold U128.checkedAdd
  split_ifs with h
  · simp [Fin.ext_iff]
  · have hc := c.isLt
    simp only [false_iff]
    omega

abbrev Bytes (n : ℕ) := List.Vector UInt8 n
abbrev Digest := Bytes 32

def utf8 (s : String) : List UInt8 := s.toByteArray.data.toList

theorem utf8_inj {s t : String} (h : utf8 s = utf8 t) : s = t := by
  apply String.toByteArray_inj.mp
  apply ByteArray.ext
  exact Array.toList_inj.mp h

/-- A string whose byte length an eight-byte prefix can carry. -/
def Short (s : String) : Prop := (utf8 s).length < 256 ^ 8

instance (s : String) : Decidable (Short s) := inferInstanceAs (Decidable (_ < _))

/-- `u64` little-endian. -/
def u64le (n : ℕ) : List UInt8 := littleEndian 8 n

theorem framed_u64le : Framed (· < 256 ^ 8) u64le := framed_littleEndian 8

/-- `u64le(len) ‖ utf8(s)`. -/
def lp (s : String) : List UInt8 := u64le (utf8 s).length ++ utf8 s

theorem framed_lp : Framed Short lp := by
  have h := (framed_u64le.counted (framed_single (fun _ : UInt8 => True))).comp
    Short utf8 (fun s hs => ⟨hs, fun _ _ => trivial⟩) (fun _ _ _ _ => utf8_inj)
  simp only [Framing.counted, List.flatMap_singleton'] at h
  exact h.mono fun s hs => hs

/-! ## Hexadecimal -/

def hexPair (b : UInt8) : List Char := [(b.toNat / 16).digitChar, (b.toNat % 16).digitChar]

def hexEncode (bytes : List UInt8) : String := String.ofList (bytes.flatMap hexPair)

def hexValue (c : Char) : Option ℕ :=
  if '0' ≤ c ∧ c ≤ '9' then some (c.toNat - 48)
  else if 'a' ≤ c ∧ c ≤ 'f' then some (c.toNat - 87)
  else if 'A' ≤ c ∧ c ≤ 'F' then some (c.toNat - 55)
  else none

def hexDecodeChars : List Char → Option (List UInt8)
  | [] => some []
  | [_] => none
  | hi :: lo :: rest => do
    let h ← hexValue hi
    let l ← hexValue lo
    let tail ← hexDecodeChars rest
    return UInt8.ofNat (16 * h + l) :: tail

def hexDecode (s : String) : Option (List UInt8) := hexDecodeChars s.toList

def hexDecodeN (n : ℕ) (s : String) : Option (Bytes n) :=
  (hexDecode s).bind fun bytes => if h : bytes.length = n then some ⟨bytes, h⟩ else none

theorem length_hexEncode (bytes : List UInt8) : (hexEncode bytes).toList.length = 2 * bytes.length := by
  rw [hexEncode, String.toList_ofList]
  induction bytes with
  | nil => rfl
  | cons b bytes ih =>
    rw [List.flatMap_cons, List.length_append, ih, List.length_cons]
    change 2 + 2 * bytes.length = 2 * (bytes.length + 1)
    omega

theorem hexValue_digitChar {n : ℕ} (h : n < 16) : hexValue n.digitChar = some n := by
  interval_cases n <;> decide

theorem hexDecodeChars_encode (bytes : List UInt8) :
    hexDecodeChars (bytes.flatMap hexPair) = some bytes := by
  induction bytes with
  | nil => rfl
  | cons b bytes ih =>
    have hb := b.toNat_lt
    have hbyte : UInt8.ofNat (16 * (b.toNat / 16) + b.toNat % 16) = b := by
      rw [Nat.div_add_mod, UInt8.ofNat_toNat]
    simp only [List.flatMap_cons, hexPair, List.cons_append, List.nil_append, hexDecodeChars]
    rw [hexValue_digitChar (by omega), hexValue_digitChar (by omega), ih]
    change some (UInt8.ofNat (16 * (b.toNat / 16) + b.toNat % 16) :: bytes) = _
    rw [hbyte]

theorem hexDecode_encode (bytes : List UInt8) : hexDecode (hexEncode bytes) = some bytes := by
  rw [hexDecode, hexEncode, String.toList_ofList, hexDecodeChars_encode]

theorem hexDecodeN_encode {n : ℕ} (bytes : Bytes n) :
    hexDecodeN n (hexEncode bytes.toList) = some bytes := by
  rw [hexDecodeN, hexDecode_encode, Option.bind_some, dif_pos bytes.toList_length]
  rfl

theorem hexEncode_inj {a b : List UInt8} (h : hexEncode a = hexEncode b) : a = b := by
  have hd := congrArg hexDecode h
  rwa [hexDecode_encode, hexDecode_encode, Option.some.injEq] at hd

theorem hexEncode_digest_inj {a b : Digest} (h : hexEncode a.toList = hexEncode b.toList) :
    a = b :=
  List.Vector.toList_injective (hexEncode_inj h)

/-! ## Hashing -/

/-- No two different byte strings of the list share a digest. -/
def CollisionFreeOn (sha256 : List UInt8 → Digest) (preimages : List (List UInt8)) : Prop :=
  ∀ p ∈ preimages, ∀ q ∈ preimages, sha256 p = sha256 q → p = q

theorem collisionFreeOn_of_nodup {sha256 : List UInt8 → Digest} {preimages : List (List UInt8)}
    (h : (preimages.dedup.map sha256).Nodup) : CollisionFreeOn sha256 preimages :=
  fun _ hp _ hq heq =>
    List.inj_on_of_nodup_map h (List.mem_dedup.mpr hp) (List.mem_dedup.mpr hq) heq

def preimage (domain : String) (a b : Digest) (tail : List UInt8) : List UInt8 :=
  utf8 domain ++ (a.toList ++ (b.toList ++ tail))

theorem framed_digest : Framed (fun _ : Digest => True) fun d => d.toList :=
  framed_of_length 32 (fun d => d.toList_length) fun _ _ _ _ h => List.Vector.toList_injective h

theorem preimage_inj {d e : String} {a b a' b' : Digest} {s t : List UInt8}
    (hlen : (utf8 d).length = (utf8 e).length) (h : preimage d a b s = preimage e a' b' t) :
    d = e ∧ a = a' ∧ b = b' ∧ s = t := by
  obtain ⟨hd, hrest⟩ := List.append_inj h hlen
  obtain ⟨ha, hrest⟩ := framed_digest a a' trivial trivial _ _ hrest
  obtain ⟨hb, hst⟩ := framed_digest b b' trivial trivial _ _ hrest
  exact ⟨utf8_inj hd, ha, hb, hst⟩

/-! ## Text -/

/-- The characters with the Unicode property White_Space. -/
def isWhitespace (c : Char) : Bool :=
  let n := c.toNat
  (9 ≤ n ∧ n ≤ 13) ∨ n = 0x20 ∨ n = 0x85 ∨ n = 0xA0 ∨ n = 0x1680 ∨ (0x2000 ≤ n ∧ n ≤ 0x200A) ∨
    n = 0x2028 ∨ n = 0x2029 ∨ n = 0x202F ∨ n = 0x205F ∨ n = 0x3000

/-- `str::trim`. -/
def trim (s : String) : String :=
  String.ofList (((s.toList.dropWhile isWhitespace).reverse.dropWhile isWhitespace).reverse)

theorem dropWhile_of_none {p : Char → Bool} {cs : List Char} (h : ∀ c ∈ cs, p c = false) :
    cs.dropWhile p = cs := by
  rw [List.dropWhile_eq_self_iff]
  exact fun hlen => by simp [h _ (List.getElem_mem hlen)]

theorem trim_eq_self {s : String} (h : ∀ c ∈ s.toList, isWhitespace c = false) : trim s = s := by
  rw [trim, dropWhile_of_none h, dropWhile_of_none fun c hc => h c (List.mem_reverse.mp hc), List.reverse_reverse,
    String.ofList_toList]

theorem trim_trim (s : String) : trim (trim s) = trim s := by
  rw [trim, trim, String.toList_ofList]
  generalize hstart : s.toList.dropWhile isWhitespace = cs
  have hcs : cs.dropWhile isWhitespace = cs := by rw [← hstart, List.dropWhile_idempotent]
  -- what is left of a text without blanks in front has none in front
  have hprefix : (cs.reverse.dropWhile isWhitespace).reverse <+: cs := by
    rw [← List.reverse_suffix, List.reverse_reverse]
    exact List.dropWhile_suffix _
  have hfront : ((cs.reverse.dropWhile isWhitespace).reverse).dropWhile isWhitespace =
      (cs.reverse.dropWhile isWhitespace).reverse := by
    obtain ⟨rest, hrest⟩ := hprefix
    generalize (cs.reverse.dropWhile isWhitespace).reverse = front at hrest ⊢
    cases front with
    | nil => rfl
    | cons c front =>
      rw [← hrest, List.cons_append] at hcs
      cases h : isWhitespace c with
      | true =>
        rw [List.dropWhile_cons_of_pos h] at hcs
        have hlen := (List.dropWhile_sublist isWhitespace (l := front ++ rest)).length_le
        rw [hcs, List.length_cons] at hlen
        omega
      | false => rw [List.dropWhile_cons_of_neg (by simp [h])]
  rw [hfront, List.reverse_reverse, List.dropWhile_idempotent]

theorem isWhitespace_digitChar {n : ℕ} (h : n < 16) : isWhitespace n.digitChar = false := by
  interval_cases n <;> decide

theorem trim_hexEncode (bytes : List UInt8) : trim (hexEncode bytes) = hexEncode bytes := by
  apply trim_eq_self
  intro c hc
  rw [hexEncode, String.toList_ofList, List.mem_flatMap] at hc
  obtain ⟨b, _, hc⟩ := hc
  have hb := b.toNat_lt
  rcases List.mem_pair.mp hc with rfl | rfl
  · exact isWhitespace_digitChar (by omega)
  · exact isWhitespace_digitChar (by omega)

/-- `str::strip_prefix`. -/
def stripPrefix (p s : String) : Option String :=
  (List.isPrefixOf? p.toList s.toList).map String.ofList

/-- `str::starts_with`. -/
def startsWith (p s : String) : Bool := List.isPrefixOf p.toList s.toList

/-- `str::eq_ignore_ascii_case`. -/
def eqIgnoreAsciiCase (s t : String) : Bool :=
  s.toList.map Char.toLower = t.toList.map Char.toLower

def isAsciiDigit (c : Char) : Bool := '0' ≤ c ∧ c ≤ '9'

def digitsValue (cs : List Char) : ℕ := Nat.ofDigitChars 10 cs 0

/-- `str::split_once` on one character. -/
def splitOnce (sep : Char) (cs : List Char) : Option (List Char × List Char) :=
  match cs with
  | [] => none
  | c :: rest =>
    if c = sep then some ([], rest) else (splitOnce sep rest).map fun p => (c :: p.1, p.2)

theorem splitOnce_append {sep : Char} {l r : List Char} (h : sep ∉ l) :
    splitOnce sep (l ++ sep :: r) = some (l, r) := by
  induction l with
  | nil => simp [splitOnce]
  | cons c l ih =>
    rw [List.mem_cons, not_or] at h
    rw [List.cons_append, splitOnce, if_neg (Ne.symm h.1), ih h.2]
    rfl

end AssuranceLayer
