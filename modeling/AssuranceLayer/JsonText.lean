import AssuranceLayer.Json
import AssuranceLayer.Primitives

set_option autoImplicit false

/-!
JSON text read back. The reader takes any spacing and any escapes, and refuses what has no value
here: numbers that are not natural, and halves of surrogate pairs. Whatever is written is read as
what it was written from.
-/
namespace AssuranceLayer.Json
variable {α : Type}

/-! ## Reading -/

def quote : Char := Char.ofNat 0x22
def backslash : Char := Char.ofNat 0x5c
def openBrace : Char := Char.ofNat 0x7b
def closeBrace : Char := Char.ofNat 0x7d

def isJsonSpace (c : Char) : Bool := c.toNat = 0x20 ∨ c.toNat = 0x09 ∨ c.toNat = 0x0a ∨ c.toNat = 0x0d

def skip (cs : List Char) : List Char := cs.dropWhile isJsonSpace

/-- A number goes on with these. -/
def isNumberChar (c : Char) : Bool := isAsciiDigit c || c = '.' || c = 'e' || c = 'E'

def readNumber (cs : List Char) : Option (ℕ × List Char) := do
  let digits := cs.takeWhile isAsciiDigit
  let rest := cs.dropWhile isAsciiDigit
  guard (digits ≠ [] ∧ (digits.head? = some '0' → digits.length = 1))
  guard (rest.head?.all fun c => !isNumberChar c)
  return (digitsValue digits, rest)

def hexQuad : List Char → Option (ℕ × List Char)
  | a :: b :: c :: d :: rest => do
    let w ← hexValue a
    let x ← hexValue b
    let y ← hexValue c
    let z ← hexValue d
    return (((w * 16 + x) * 16 + y) * 16 + z, rest)
  | _ => none

/-- What follows the first half of a surrogate pair. -/
def readLowSurrogate (high : ℕ) : List Char → Option (Char × List Char)
  | c :: d :: rest => do
    guard (c = backslash ∧ d = 'u')
    let low ← hexQuad rest
    guard (0xdc00 ≤ low.1 ∧ low.1 ≤ 0xdfff)
    return (Char.ofNat (0x10000 + (high - 0xd800) * 0x400 + (low.1 - 0xdc00)), low.2)
  | _ => none

def readUnicode (cs : List Char) : Option (Char × List Char) := do
  let unit ← hexQuad cs
  if unit.1 < 0xd800 ∨ 0xdfff < unit.1 then return (Char.ofNat unit.1, unit.2)
  else if unit.1 < 0xdc00 then readLowSurrogate unit.1 unit.2
  else none

def readEscape : List Char → Option (Char × List Char)
  | [] => none
  | c :: rest =>
    if c = quote ∨ c = backslash ∨ c = '/' then some (c, rest)
    else if c = 'b' then some (Char.ofNat 0x08, rest)
    else if c = 't' then some (Char.ofNat 0x09, rest)
    else if c = 'n' then some (Char.ofNat 0x0a, rest)
    else if c = 'f' then some (Char.ofNat 0x0c, rest)
    else if c = 'r' then some (Char.ofNat 0x0d, rest)
    else if c = 'u' then readUnicode rest
    else none

def readChar : List Char → Option (Char × List Char)
  | [] => none
  | c :: rest =>
    if c = backslash then readEscape rest
    else if c.toNat < 0x20 then none
    else some (c, rest)

/-- The characters up to the closing quote. -/
def readChars : ℕ → List Char → Option (List Char × List Char)
  | 0, _ => none
  | fuel + 1, cs =>
    if cs.head? = some quote then some ([], cs.tail)
    else do
      let c ← readChar cs
      let more ← readChars fuel c.2
      return (c.1 :: more.1, more.2)

def expect (c : Char) : List Char → Option (List Char)
  | [] => none
  | d :: rest => if d = c then some rest else none

def readString (fuel : ℕ) (cs : List Char) : Option (String × List Char) := do
  let rest ← expect quote cs
  let chars ← readChars fuel rest
  return (String.ofList chars.1, chars.2)

/-- One or more, with commas between them, up to the closing bracket. -/
def readMany (close : Char) (element : List Char → Option (α × List Char)) :
    ℕ → List Char → Option (List α × List Char)
  | 0, _ => none
  | fuel + 1, cs => do
    let a ← element cs
    match skip a.2 with
    | [] => none
    | c :: rest =>
      if c = close then some ([a.1], rest)
      else if c = ',' then (readMany close element fuel rest).map fun more => (a.1 :: more.1, more.2)
      else none

def readList (close : Char) (element : List Char → Option (α × List Char)) (fuel : ℕ) (cs : List Char) :
    Option (List α × List Char) :=
  match skip cs with
  | [] => none
  | c :: rest => if c = close then some ([], rest) else readMany close element fuel cs

def readEntry (element : List Char → Option (α × List Char)) (fuel : ℕ) (cs : List Char) :
    Option ((String × α) × List Char) := do
  let name ← readString fuel (skip cs)
  let rest ← expect ':' (skip name.2)
  let a ← element rest
  return ((name.1, a.1), a.2)

def readWord (cs : List Char) : Option (Json × List Char) :=
  if "null".toList <+: cs then some (null, cs.drop 4)
  else if "true".toList <+: cs then some (bool true, cs.drop 4)
  else if "false".toList <+: cs then some (bool false, cs.drop 5)
  else none

def readValue : ℕ → List Char → Option (Json × List Char)
  | 0, _ => none
  | fuel + 1, cs =>
    match skip cs with
    | [] => none
    | c :: rest =>
      if c = quote then (readString fuel (c :: rest)).map fun s => (str s.1, s.2)
      else if c = '[' then (readList ']' (readValue fuel) fuel rest).map fun l => (arr l.1, l.2)
      else if c = openBrace then
        (readList closeBrace (readEntry (readValue fuel) fuel) fuel rest).map fun l => (obj l.1, l.2)
      else if isAsciiDigit c then (readNumber (c :: rest)).map fun n => (num n.1, n.2)
      else readWord (c :: rest)

def ofText (text : String) : Option Json := do
  let value ← readValue (text.toList.length + 1) text.toList
  guard (skip value.2 = [])
  return value.1

/-! ## Strings -/

theorem readUnicode_control {c : Char} (h : c.toNat < 0x20) (rest : List Char) :
    readUnicode ('0' :: '0' :: (c.toNat / 16).digitChar :: (c.toNat % 16).digitChar :: rest) =
      some (c, rest) := by
  have hzero : hexValue '0' = some 0 := by decide
  have hvalue : ((0 * 16 + 0) * 16 + c.toNat / 16) * 16 + c.toNat % 16 = c.toNat := by omega
  have hsmall : c.toNat < 0xd800 ∨ 0xdfff < c.toNat := by omega
  simp only [readUnicode, hexQuad, hzero, hexValue_digitChar (by omega : c.toNat / 16 < 16),
    hexValue_digitChar (by omega : c.toNat % 16 < 16), Option.bind_eq_bind, Option.bind_some, Option.pure_def,
    hvalue, if_pos hsmall, Char.ofNat_toNat]

theorem readChar_escapeChar (c : Char) (rest : List Char) : readChar (escapeChar c ++ rest) = some (c, rest) := by
  have hc : ∀ n, c.toNat = n → c = Char.ofNat n := fun n hn => by rw [← hn, Char.ofNat_toNat]
  simp only [escapeChar]
  split_ifs with hquoted hb ht hn hf hr hcontrol
  · have hescaped : c = quote ∨ c = backslash ∨ c = '/' := hquoted.imp (hc _) fun h => .inl (hc _ h)
    exact if_pos hescaped
  · rw [hc _ hb]
    rfl
  · rw [hc _ ht]
    rfl
  · rw [hc _ hn]
    rfl
  · rw [hc _ hf]
    rfl
  · rw [hc _ hr]
    rfl
  · exact readUnicode_control hcontrol rest
  · have hplain : c ≠ backslash := by
      rintro rfl
      exact hquoted (.inr rfl)
    rw [List.singleton_append, readChar, if_neg hplain, if_neg hcontrol]

theorem escapeChar_head (c : Char) (rest : List Char) : (escapeChar c ++ rest).head? ≠ some quote := by
  have hne : Char.ofNat 0x5c ≠ quote := by decide
  simp only [escapeChar]
  split_ifs with hquoted
  case neg =>
    rintro ⟨⟩
    exact hquoted (.inl rfl)
  all_goals exact fun h => hne (Option.some.inj h)

theorem readChars_escaped {fuel : ℕ} (cs rest : List Char) (h : cs.length < fuel) :
    readChars fuel (cs.flatMap escapeChar ++ quote :: rest) = some (cs, rest) := by
  induction cs generalizing fuel with
  | nil =>
    obtain ⟨fuel, rfl⟩ := Nat.exists_eq_succ_of_ne_zero (Nat.ne_of_gt h)
    rfl
  | cons c cs ih =>
    obtain ⟨fuel, rfl⟩ := Nat.exists_eq_succ_of_ne_zero (Nat.ne_of_gt (Nat.zero_lt_of_lt h))
    rw [List.length_cons, Nat.succ_lt_succ_iff] at h
    rw [List.flatMap_cons, List.append_assoc, readChars, if_neg (escapeChar_head c _), readChar_escapeChar]
    simp only [Option.bind_eq_bind, Option.bind_some, ih h, Option.pure_def]

theorem escaped_length (cs : List Char) : cs.length ≤ (cs.flatMap escapeChar).length := by
  have hpos : ∀ c, 1 ≤ (escapeChar c).length := fun c => by
    simp only [escapeChar]
    split_ifs <;> simp
  induction cs with
  | nil => exact le_refl 0
  | cons c cs ih =>
    rw [List.flatMap_cons, List.length_append, List.length_cons]
    have := hpos c
    omega

theorem readString_quoted {fuel : ℕ} (s : String) (rest : List Char) (h : (quoted s).length ≤ fuel + 1) :
    readString fuel (quoted s ++ rest) = some (s, rest) := by
  have hlength := escaped_length s.toList
  simp only [quoted, List.length_cons, List.length_append, List.length_nil] at h
  have hchars : readChars fuel (s.toList.flatMap escapeChar ++ quote :: rest) = some (s.toList, rest) :=
    readChars_escaped _ _ (by omega)
  have hexpect : expect quote (quoted s ++ rest) = some (s.toList.flatMap escapeChar ++ quote :: rest) := by
    rw [quoted, List.cons_append, List.append_assoc, List.singleton_append]
    rfl
  simp only [readString, hexpect, Option.bind_eq_bind, Option.bind_some, hchars, Option.pure_def,
    String.ofList_toList]

/-! ## Numbers -/

/-- Nothing that a number goes on with comes next. -/
def Stops (rest : List Char) : Prop := ∀ c ∈ rest.head?, isNumberChar c = false

theorem toDigits_head (n : ℕ) (h : (Nat.toDigits 10 n).head? = some '0') : (Nat.toDigits 10 n).length = 1 := by
  induction n using Nat.strong_induction_on with
  | _ n ih =>
    rcases Nat.lt_or_ge n 10 with hn | hn
    · rw [Nat.toDigits_of_lt_base hn]
      rfl
    · rw [Nat.toDigits_of_base_le (by decide) hn] at h
      have hne : Nat.toDigits 10 (n / 10) ≠ [] := Nat.toDigits_ne_nil
      rw [List.head?_append_of_ne_nil _ hne] at h
      have hone := ih (n / 10) (by omega) h
      -- A single digit zero would be the number zero.
      obtain ⟨c, hc⟩ := List.length_eq_one_iff.mp hone
      rw [hc] at h
      have hvalue : digitsValue (Nat.toDigits 10 (n / 10)) = n / 10 := Nat.ofDigitChars_ten_toDigits
      rw [hc, Option.some.inj h] at hvalue
      have hzero : digitsValue ['0'] = 0 := by decide
      omega

theorem toDigits_all (n : ℕ) : ∀ c ∈ Nat.toDigits 10 n, isAsciiDigit c = true := fun c hc => by
  have hdigit := Nat.isDigit_of_mem_toDigits (by decide) (by decide) hc
  simpa [isAsciiDigit, Char.isDigit, Char.le_def] using hdigit

theorem readNumber_toDigits (n : ℕ) {rest : List Char} (h : Stops rest) :
    readNumber (Nat.toDigits 10 n ++ rest) = some (n, rest) := by
  have hstop : ∀ c ∈ rest.head?, isAsciiDigit c = false := fun c hc =>
    (Bool.or_eq_false_iff.mp (Bool.or_eq_false_iff.mp (Bool.or_eq_false_iff.mp (h c hc)).1).1).1
  have htake : rest.takeWhile isAsciiDigit = [] := by
    cases rest with
    | nil => rfl
    | cons c rest => simp [hstop c rfl]
  have hdrop : rest.dropWhile isAsciiDigit = rest := by
    cases rest with
    | nil => rfl
    | cons c rest => simp [hstop c rfl]
  have hguard : (rest.head?.all fun c => !isNumberChar c) = true := by
    cases rest with
    | nil => rfl
    | cons c rest => simp [h c rfl]
  have hdigits : Nat.toDigits 10 n ≠ [] ∧ ((Nat.toDigits 10 n).head? = some '0' →
      (Nat.toDigits 10 n).length = 1) := ⟨Nat.toDigits_ne_nil, toDigits_head n⟩
  have hvalue : digitsValue (Nat.toDigits 10 n) = n := Nat.ofDigitChars_ten_toDigits
  simp only [readNumber, List.takeWhile_append_of_pos (toDigits_all n), htake, List.append_nil,
    List.dropWhile_append_of_pos (toDigits_all n), hdrop, guard, if_pos hdigits, if_pos hguard,
    Option.pure_def, Option.bind_eq_bind, Option.bind_some, hvalue]

/-! ## Lists -/

theorem skip_newline (depth : ℕ) (cs : List Char) : skip (newline depth ++ cs) = skip cs := by
  refine List.dropWhile_append_of_pos fun c hc => ?_
  rcases List.mem_cons.mp hc with rfl | hc
  · decide
  · rw [List.eq_of_mem_replicate hc]
    decide

theorem skip_cons {c : Char} (h : isJsonSpace c = false) (cs : List Char) : skip (c :: cs) = c :: cs :=
  List.dropWhile_cons_of_neg (by simp [h])

theorem stops_newline (depth : ℕ) (cs : List Char) : Stops (newline depth ++ cs) := by
  rintro c ⟨⟩
  decide

theorem stops_comma (cs : List Char) : Stops (',' :: cs) := by
  rintro c ⟨⟩
  decide

/-- Items that are each read from their text are read from their texts with commas between them. -/
theorem readMany_intercalate {close : Char} (hspace : isJsonSpace close = false) (hcomma : close ≠ ',')
    {element : List Char → Option (α × List Char)} {text : α → List Char} {depth fuel : ℕ} {l : List α}
    {rest : List Char} (hl : l ≠ []) (hfuel : l.length ≤ fuel)
    (h : ∀ a ∈ l, ∀ rest, Stops rest → element (text a ++ rest) = some (a, rest)) :
    readMany close element fuel ([','].intercalate (l.map text) ++ (newline depth ++ close :: rest)) =
      some (l, rest) := by
  induction l generalizing fuel with
  | nil => exact absurd rfl hl
  | cons a l ih =>
    obtain ⟨fuel, rfl⟩ := Nat.exists_eq_succ_of_ne_zero (Nat.ne_of_gt (Nat.zero_lt_of_lt hfuel))
    obtain ⟨ha, hmore⟩ := List.forall_mem_cons.mp h
    cases l with
    | nil =>
      rw [List.map_singleton, List.intercalate_singleton, readMany, ha _ (stops_newline _ _)]
      simp only [Option.bind_eq_bind, Option.bind_some, skip_newline, skip_cons hspace, if_true]
    | cons b l =>
      have hrest := ih (List.cons_ne_nil b l) (Nat.le_of_succ_le_succ hfuel) hmore
      have hskip : isJsonSpace ',' = false := by decide
      rw [List.map_cons] at hrest
      rw [List.map_cons, List.map_cons, List.intercalate_cons_cons, List.append_assoc, List.append_assoc,
        List.singleton_append, readMany, ha _ (stops_comma _)]
      simp only [Option.bind_eq_bind, Option.bind_some, skip_cons hskip, if_neg hcomma.symm, if_true,
        hrest, Option.map_some]

theorem length_le_intercalate {texts : List (List Char)} {t : List Char} (h : t ∈ texts) :
    t.length ≤ ([','].intercalate texts).length := by
  induction texts with
  | nil => exact absurd h List.not_mem_nil
  | cons s texts ih =>
    cases texts with
    | nil =>
      rw [List.mem_singleton.mp h, List.intercalate_singleton]
    | cons r texts =>
      rw [List.intercalate_cons_cons, List.length_append, List.length_append]
      rcases List.mem_cons.mp h with rfl | h
      · omega
      · have := ih h
        omega

theorem count_le_intercalate {texts : List (List Char)} (h : ∀ t ∈ texts, t ≠ []) :
    texts.length ≤ ([','].intercalate texts).length := by
  induction texts with
  | nil => exact le_refl 0
  | cons s texts ih =>
    obtain ⟨hs, htexts⟩ := List.forall_mem_cons.mp h
    have hpos := List.length_pos_of_ne_nil hs
    cases texts with
    | nil => rwa [List.intercalate_singleton, List.length_singleton]
    | cons r texts =>
      have := ih htexts
      rw [List.intercalate_cons_cons, List.length_append, List.length_append, List.length_cons]
      omega

theorem readList_intercalate {close : Char} (hspace : isJsonSpace close = false) (hcomma : close ≠ ',')
    {element : List Char → Option (α × List Char)} {text : α → List Char} {depth fuel : ℕ} {l : List α}
    {rest : List Char} (hl : l ≠ []) (hfuel : ([','].intercalate (l.map text)).length ≤ fuel)
    (hhead : ∀ a ∈ l, ∃ c cs, text a = newline (depth + 1) ++ c :: cs ∧ isJsonSpace c = false ∧ c ≠ close)
    (h : ∀ a ∈ l, (text a).length ≤ fuel → ∀ rest, Stops rest → element (text a ++ rest) = some (a, rest)) :
    readList close element fuel ([','].intercalate (l.map text) ++ (newline depth ++ close :: rest)) =
      some (l, rest) := by
  have hcount : l.length ≤ fuel := by
    rw [← List.length_map text]
    refine (count_le_intercalate fun t ht => ?_).trans hfuel
    obtain ⟨a, ha, rfl⟩ := List.mem_map.mp ht
    obtain ⟨c, cs, htext, _⟩ := hhead a ha
    rw [htext]
    exact List.append_ne_nil_of_right_ne_nil _ (List.cons_ne_nil c cs)
  have hmany : readMany close element fuel ([','].intercalate (l.map text) ++ (newline depth ++ close :: rest)) =
      some (l, rest) := readMany_intercalate hspace hcomma hl hcount fun a ha =>
    h a ha ((length_le_intercalate (List.mem_map_of_mem ha)).trans hfuel)
  obtain ⟨a, l, rfl⟩ := List.exists_cons_of_ne_nil hl
  obtain ⟨c, cs, htext, hc, hclose⟩ := hhead a List.mem_cons_self
  obtain ⟨more, hmore⟩ : ∃ more, [','].intercalate ((a :: l).map text) = text a ++ more := by
    cases l with
    | nil => exact ⟨[], by rw [List.map_singleton, List.intercalate_singleton, List.append_nil]⟩
    | cons b l => exact ⟨_, by rw [List.map_cons, List.map_cons, List.intercalate_cons_cons, List.append_assoc]⟩
  have hskip : skip ([','].intercalate ((a :: l).map text) ++ (newline depth ++ close :: rest)) =
      c :: (cs ++ (more ++ (newline depth ++ close :: rest))) := by
    rw [hmore, htext, List.append_assoc, List.append_assoc, skip_newline, List.cons_append, skip_cons hc]
  rw [readList, hskip]
  simp only [if_neg hclose, hmany]

/-! ## Values -/

/-- An item or an entry is written on a line of its own. -/
def itemText (depth : ℕ) (j : Json) : List Char := newline depth ++ render j depth

def entryText (depth : ℕ) (e : String × Json) : List Char :=
  newline depth ++ quoted e.1 ++ ':' :: ' ' :: render e.2 depth

theorem renderItems_eq (items : List Json) (depth : ℕ) :
    renderItems items depth = [','].intercalate (items.map (itemText depth)) := by
  induction items with
  | nil => rfl
  | cons j items ih =>
    rw [renderItems, ih]
    cases items with
    | nil => simp [itemText]
    | cons i items => simp [itemText]

theorem renderEntries_eq (entries : List (String × Json)) (depth : ℕ) :
    renderEntries entries depth = [','].intercalate (entries.map (entryText depth)) := by
  induction entries with
  | nil => rfl
  | cons e entries ih =>
    rw [renderEntries, ih]
    cases entries with
    | nil => simp [entryText]
    | cons f entries => simp [entryText]

/-- The first character of a value is no space, and closes no list. -/
theorem render_head (j : Json) (depth : ℕ) : ∃ c cs, render j depth = c :: cs ∧
    isJsonSpace c = false ∧ c ≠ ']' := by
  cases j with
  | null => exact ⟨_, _, rfl, by decide, by decide⟩
  | bool b => cases b <;> exact ⟨_, _, rfl, by decide, by decide⟩
  | num n =>
    have hne : Nat.toDigits 10 n ≠ [] := Nat.toDigits_ne_nil
    obtain ⟨c, cs, hcs⟩ := List.exists_cons_of_ne_nil hne
    have hdigit := toDigits_all n c (hcs ▸ List.mem_cons_self)
    refine ⟨c, cs, hcs, ?_, ?_⟩
    · simp only [isAsciiDigit, decide_eq_true_eq, Char.le_def, UInt32.le_iff_toNat_le] at hdigit
      simp only [isJsonSpace, decide_eq_false_iff_not, Char.toNat]
      have hlow := hdigit.1
      change 48 ≤ c.val.toNat at hlow
      omega
    · rintro rfl
      exact absurd hdigit (by decide)
  | str s => exact ⟨_, _, rfl, by decide, by decide⟩
  | arr items =>
    rw [render]
    split
    · exact ⟨_, _, rfl, by decide, by decide⟩
    · exact ⟨_, _, rfl, by decide, by decide⟩
  | obj entries =>
    rw [render]
    split
    · exact ⟨_, _, rfl, by decide, by decide⟩
    · exact ⟨_, _, rfl, by decide, by decide⟩

theorem readValue_newline (fuel depth : ℕ) (cs : List Char) :
    readValue fuel (newline depth ++ cs) = readValue fuel cs := by
  cases fuel with
  | zero => rfl
  | succ fuel => rw [readValue, readValue, skip_newline]

theorem readEntry_entryText {fuel depth : ℕ} {e : String × Json} {rest : List Char}
    (hfuel : (entryText depth e).length ≤ fuel + 1)
    (hvalue : readValue fuel (render e.2 depth ++ rest) = some (e.2, rest)) :
    readEntry (readValue fuel) fuel (entryText depth e ++ rest) = some (e, rest) := by
  have hname : (quoted e.1).length ≤ fuel + 1 := by
    simp only [entryText, List.length_append] at hfuel
    omega
  have hquote : skip (quoted e.1 ++ (':' :: ' ' :: render e.2 depth ++ rest)) =
      quoted e.1 ++ (':' :: ' ' :: render e.2 depth ++ rest) := skip_cons (by decide) _
  have hcolon : skip (':' :: ' ' :: render e.2 depth ++ rest) = ':' :: ' ' :: render e.2 depth ++ rest :=
    skip_cons (by decide) _
  have hexpect : expect ':' (':' :: ' ' :: render e.2 depth ++ rest) = some (' ' :: render e.2 depth ++ rest) := rfl
  have hspace : readValue fuel (' ' :: render e.2 depth ++ rest) = readValue fuel (render e.2 depth ++ rest) := by
    cases fuel with
    | zero => rfl
    | succ fuel => rfl
  rw [entryText, List.append_assoc, List.append_assoc, readEntry, skip_newline, hquote]
  simp only [readString_quoted _ _ hname, Option.bind_eq_bind, Option.bind_some, hcolon, hexpect, hspace,
    hvalue, Option.pure_def]

theorem readValue_render {fuel : ℕ} (j : Json) (depth : ℕ) {rest : List Char} (hrest : Stops rest)
    (hfuel : (render j depth).length ≤ fuel) : readValue fuel (render j depth ++ rest) = some (j, rest) := by
  induction fuel generalizing j depth rest with
  | zero =>
    obtain ⟨c, cs, hcs, _⟩ := render_head j depth
    rw [hcs] at hfuel
    exact absurd hfuel (Nat.not_succ_le_zero _)
  | succ fuel ih =>
    cases j with
    | null => rfl
    | bool b => cases b <;> rfl
    | num n =>
      have hread := readNumber_toDigits n hrest
      obtain ⟨c, cs, hcs, hspace, _⟩ := render_head (num n) depth
      have hdigits : Nat.toDigits 10 n = c :: cs := hcs
      have hdigit := toDigits_all n c (hdigits ▸ List.mem_cons_self)
      have hquote : c ≠ quote := fun h => absurd hdigit (by rw [h]; decide)
      have hbracket : c ≠ '[' := fun h => absurd hdigit (by rw [h]; decide)
      have hbrace : c ≠ openBrace := fun h => absurd hdigit (by rw [h]; decide)
      rw [hdigits, List.cons_append] at hread
      rw [hcs, List.cons_append, readValue, skip_cons hspace]
      simp only [if_neg hquote, if_neg hbracket, if_neg hbrace, if_pos hdigit, hread, Option.map_some]
    | str s =>
      have hread := readString_quoted s rest hfuel
      have hskip : skip (quoted s ++ rest) = quoted s ++ rest := skip_cons (by decide) _
      rw [render, readValue, hskip, quoted, List.cons_append]
      rw [quoted, List.cons_append] at hread
      exact congrArg (Option.map fun s => (str s.1, s.2)) hread
    | arr items =>
      cases items with
      | nil => rfl
      | cons i items =>
        have hrender : render (arr (i :: items)) depth =
            '[' :: ([','].intercalate ((i :: items).map (itemText (depth + 1))) ++ newline depth ++ [']']) := by
          rw [render, ← renderItems_eq]
          rfl
        rw [hrender, List.length_cons, List.length_append, List.length_append] at hfuel
        rw [hrender, List.cons_append, List.append_assoc, List.append_assoc, List.singleton_append]
        have hlist : readList ']' (readValue fuel) fuel ([','].intercalate ((i :: items).map
            (itemText (depth + 1))) ++ (newline depth ++ ']' :: rest)) = some (i :: items, rest) := by
          refine readList_intercalate (by decide) (by decide) (List.cons_ne_nil i items) (by omega)
            (fun j _ => ?_) fun j _ hj rest hrest => ?_
          · obtain ⟨c, cs, hcs, hhead⟩ := render_head j (depth + 1)
            exact ⟨c, cs, by rw [itemText, hcs], hhead⟩
          · rw [itemText, List.length_append] at hj
            rw [itemText, List.append_assoc, readValue_newline]
            exact ih j _ hrest (by omega)
        exact congrArg (Option.map fun l => (arr l.1, l.2)) hlist
    | obj entries =>
      cases entries with
      | nil => rfl
      | cons e entries =>
        have hrender : render (obj (e :: entries)) depth = openBrace ::
            ([','].intercalate ((e :: entries).map (entryText (depth + 1))) ++ newline depth ++ [closeBrace]) := by
          rw [render, ← renderEntries_eq]
          rfl
        rw [hrender, List.length_cons, List.length_append, List.length_append] at hfuel
        rw [hrender, List.cons_append, List.append_assoc, List.append_assoc, List.singleton_append]
        have hlist : readList closeBrace (readEntry (readValue fuel) fuel) fuel ([','].intercalate
            ((e :: entries).map (entryText (depth + 1))) ++ (newline depth ++ closeBrace :: rest)) =
              some (e :: entries, rest) := by
          refine readList_intercalate (by decide) (by decide) (List.cons_ne_nil e entries) (by omega)
            (fun f _ => ?_) fun f _ hf rest hrest => ?_
          · exact ⟨quote, _, by rw [entryText, List.append_assoc]; rfl, by decide, by decide⟩
          · refine readEntry_entryText (by omega) (ih f.2 _ hrest ?_)
            simp only [entryText, List.length_append, List.length_cons] at hf
            omega
        exact congrArg (Option.map fun l => (obj l.1, l.2)) hlist

/-- Every document is read back from its text, whatever space follows it. -/
theorem ofText_toStringPretty (j : Json) {space : String} (h : skip space.toList = []) :
    ofText (toStringPretty j ++ space) = some j := by
  have hstops : Stops space.toList := by
    intro c hc
    have hspace : isJsonSpace c = true := List.dropWhile_eq_nil_iff.mp h c (List.mem_of_head? hc)
    simp only [isJsonSpace, decide_eq_true_eq] at hspace
    have hne : ∀ d, d.toNat ≠ 0x20 ∧ d.toNat ≠ 0x09 ∧ d.toNat ≠ 0x0a ∧ d.toNat ≠ 0x0d → c ≠ d := by
      rintro d hd rfl
      omega
    have hdigit : isAsciiDigit c = false := by
      simp only [isAsciiDigit, decide_eq_false_iff_not, Char.le_def, UInt32.le_iff_toNat_le]
      rintro ⟨hlow, _⟩
      change 48 ≤ c.toNat at hlow
      omega
    simp only [isNumberChar, hdigit, hne '.' (by decide), hne 'e' (by decide), hne 'E' (by decide),
      decide_false, Bool.or_false]
  have htext : (toStringPretty j ++ space).toList = render j 0 ++ space.toList := by
    rw [String.toList_append, toStringPretty, String.toList_ofList]
  have hread : readValue ((render j 0 ++ space.toList).length + 1) (render j 0 ++ space.toList) =
      some (j, space.toList) := by
    refine readValue_render j 0 hstops ?_
    rw [List.length_append]
    omega
  simp only [ofText, htext, hread, Option.bind_eq_bind, Option.bind_some, h, guard, if_true, Option.pure_def]

end AssuranceLayer.Json
