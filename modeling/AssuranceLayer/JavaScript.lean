import AssuranceLayer.Binary64
import AssuranceLayer.Fallible
import AssuranceLayer.Utf16

set_option autoImplicit false

/-!
Values of JavaScript as far as parsed JSON reaches them, and the operations of the language on
them: property reads, enumeration, conversions, comparisons, and what they throw.
-/
namespace AssuranceLayer.JavaScript
open Fallible Utf16 Binary64

abbrev JsString := List UInt16

instance : LawfulBEq JsString := inferInstance

inductive Js where
  | undefined
  | null
  | bool (b : Bool)
  | num (n : Number)
  | str (s : JsString)
  | arr (items : List Js)
  | obj (props : List (JsString × Js))

def Js.string (s : String) : Js := .str (ofString s)

def Js.object (props : List (String × Js)) : Js := .obj (props.map fun p => (ofString p.1, p.2))

/-- What is thrown: an error of the language, or one of the program's own. -/
inductive Thrown (ε : Type) where
  | typeError
  | rangeError
  | syntaxError
  | error (e : ε)
deriving DecidableEq

/-! ## Own properties -/

section Properties
variable {α : Type}

/-- The array index a name spells. -/
def arrayIndex? (name : JsString) : Option ℕ :=
  let cs := asChars name
  if cs.all isAsciiDigit ∧ cs ≠ [] ∧ (cs = ['0'] ∨ cs.head? ≠ some '0') ∧ digitsValue cs < 2 ^ 32 - 1 then
    some (digitsValue cs)
  else none

/-- Array indices are enumerated first, in ascending order. -/
def enumeratedBefore (a b : JsString) : Bool :=
  match arrayIndex? a, arrayIndex? b with
  | some i, some j => i < j
  | some _, none => true
  | none, _ => false

def insertProp (name : JsString) (v : α) : List (JsString × α) → List (JsString × α)
  | [] => [(name, v)]
  | p :: rest =>
    if enumeratedBefore name p.1 then (name, v) :: p :: rest else p :: insertProp name v rest

/-- A property that exists keeps its place. -/
def setProp (props : List (JsString × α)) (name : JsString) (v : α) : List (JsString × α) :=
  if name ∈ props.map Prod.fst then props.map fun p => if p.1 = name then (name, v) else p
  else insertProp name v props

/-- `Object.fromEntries`, and what `JSON.parse` makes of the members of an object. -/
def fromEntries (entries : List (JsString × α)) : List (JsString × α) :=
  entries.foldl (fun props e => setProp props e.1 e.2) []

theorem insertProp_perm (name : JsString) (v : α) (props : List (JsString × α)) :
    (insertProp name v props).Perm ((name, v) :: props) := by
  induction props with
  | nil => exact List.Perm.refl _
  | cons p rest ih =>
    rw [insertProp]
    split_ifs with h
    · exact List.Perm.refl _
    · exact (ih.cons p).trans (List.Perm.swap _ _ _)

theorem mem_setProp {props : List (JsString × α)} {name k : JsString} {v w : α} :
    (k, w) ∈ setProp props name v ↔ (k = name ∧ w = v) ∨ (k ≠ name ∧ (k, w) ∈ props) := by
  rw [setProp]
  split_ifs with hmem
  · rw [List.mem_map]
    constructor
    · rintro ⟨⟨k', w'⟩, hp, heq⟩
      split_ifs at heq with hk
      · obtain ⟨rfl, rfl⟩ := Prod.mk.inj heq
        exact .inl ⟨rfl, rfl⟩
      · obtain ⟨rfl, rfl⟩ := Prod.mk.inj heq
        exact .inr ⟨hk, hp⟩
    · rintro (⟨rfl, rfl⟩ | ⟨hk, hp⟩)
      · obtain ⟨⟨k', w'⟩, hp, rfl⟩ := List.mem_map.mp hmem
        exact ⟨(k', w'), hp, if_pos rfl⟩
      · exact ⟨(k, w), hp, if_neg hk⟩
  · rw [(insertProp_perm name v props).mem_iff, List.mem_cons, Prod.mk.injEq]
    refine or_congr_right ⟨fun hp => ⟨?_, hp⟩, And.right⟩
    rintro rfl
    exact hmem (List.mem_map_of_mem hp)

theorem setProp_nodup {props : List (JsString × α)} (h : (props.map Prod.fst).Nodup) (name : JsString)
    (v : α) : ((setProp props name v).map Prod.fst).Nodup := by
  rw [setProp]
  split_ifs with hmem
  · have hkeys : (props.map fun p => if p.1 = name then (name, v) else p).map Prod.fst =
        props.map Prod.fst := by
      rw [List.map_map]
      refine List.map_congr_left fun p _ => ?_
      rw [Function.comp]
      split_ifs with hp
      · exact hp.symm
      · rfl
    rwa [hkeys]
  · rw [((insertProp_perm name v props).map Prod.fst).nodup_iff]
    exact List.nodup_cons.mpr ⟨hmem, h⟩

theorem lookup_eq_some {props : List (JsString × α)} (h : (props.map Prod.fst).Nodup) {k : JsString}
    {v : α} : props.lookup k = some v ↔ (k, v) ∈ props := by
  induction props with
  | nil => simp
  | cons p rest ih =>
    rw [List.map_cons, List.nodup_cons] at h
    rw [List.lookup_cons, List.mem_cons]
    by_cases hk : k = p.1
    · subst hk
      rw [beq_self_eq_true]
      simp only [Option.some.injEq]
      constructor
      · rintro rfl
        exact .inl rfl
      · rintro (hp | hp)
        · rw [← hp]
        · exact absurd (List.mem_map_of_mem hp) h.1
    · rw [beq_eq_false_iff_ne.mpr hk, ih h.2]
      refine ⟨.inr, fun hp => hp.resolve_left ?_⟩
      rintro rfl
      exact hk rfl

end Properties

/-! ## Reading -/

section Operations
variable {ε : Type}

def Js.isNullish : Js → Bool
  | .undefined | .null => true
  | _ => false

/-- `v ?? default`. -/
def Js.orElse (v default : Js) : Js := if v.isNullish then default else v

def Js.truthy : Js → Bool
  | .undefined | .null => false
  | .bool b => b
  | .num n => n ≠ .nan ∧ n ≠ .finite 0
  | .str s => s ≠ []
  | .arr _ | .obj _ => true

/-- `===`. Two documents share no object. -/
def Js.strictEq : Js → Js → Bool
  | .undefined, .undefined | .null, .null => true
  | .bool a, .bool b => a = b
  | .num m, .num n => m ≠ .nan ∧ m = n
  | .str s, .str t => s = t
  | _, _ => false

/-- `v === "…"`. -/
def Js.is (v : Js) (s : JsString) : Bool := v.strictEq (.str s)

/-- An own property. The names it is used with are no properties of a prototype. -/
def Js.prop (v : Js) (name : String) : Js :=
  match v with
  | .obj props => (props.lookup (ofString name)).getD .undefined
  | _ => .undefined

/-- A property read, `v.name`. -/
def Js.get (v : Js) (name : String) : Except (Thrown ε) Js :=
  if v.isNullish then .error .typeError else .ok (v.prop name)

def IsObject (v : Js) : Prop := ∃ props, v = .obj props

theorem IsObject.get {v : Js} (h : IsObject v) (name : String) :
    (v.get name : Except (Thrown ε) Js) = .ok (v.prop name) := by
  obtain ⟨props, rfl⟩ := h
  rfl

theorem IsObject.truthy {v : Js} (h : IsObject v) : v.truthy = true := by
  obtain ⟨props, rfl⟩ := h
  rfl

theorem IsObject.orElse {v : Js} (h : IsObject v) (d : Js) : v.orElse d = v := by
  obtain ⟨props, rfl⟩ := h
  rfl

def decimalName (n : ℕ) : JsString := ofString (String.ofList (Nat.toDigits 10 n))

def indexed (items : List Js) : List (JsString × Js) :=
  items.zipIdx.map fun e => (decimalName e.2, e.1)

/-- `Object.entries`. -/
def Js.entries : Js → Except (Thrown ε) (List (JsString × Js))
  | .undefined | .null => .error .typeError
  | .bool _ | .num _ => .ok []
  | .str s => .ok (indexed (s.map fun u => .str [u]))
  | .arr items => .ok (indexed items)
  | .obj props => .ok props

/-- A string taken apart into characters and lone surrogates. -/
def points : JsString → List JsString
  | [] => []
  | [u] => [[u]]
  | hi :: lo :: rest =>
    if isHigh hi && isLow lo then [hi, lo] :: points rest else [hi] :: points (lo :: rest)

/-- What `for … of` runs through. -/
def Js.elements : Js → Except (Thrown ε) (List Js)
  | .arr items => .ok items
  | .str s => .ok ((points s).map .str)
  | _ => .error .typeError

/-- The entries in the order of the UTF-8 bytes of their names. -/
def bytewise {α : Type} (entries : List (JsString × α)) : List (JsString × α) :=
  entries.insertionSort fun a b => byteValues a.1 ≤ byteValues b.1

/-! ## Conversions -/

mutual

/-- `ToString`. An own `toString` is never a function here. -/
def Js.text : Js → Except (Thrown ε) JsString
  | .undefined => .ok (ofString "undefined")
  | .null => .ok (ofString "null")
  | .bool b => .ok (ofString (if b then "true" else "false"))
  | .num n => .ok (ofString (String.ofList n.text))
  | .str s => .ok s
  | .arr items => do
    let parts ← itemTexts items
    return (ofString ",").intercalate parts
  | .obj props =>
    if ofString "toString" ∈ props.map Prod.fst then .error .typeError
    else .ok (ofString "[object Object]")

def itemTexts : List Js → Except (Thrown ε) (List JsString)
  | [] => .ok []
  | v :: items => do
    let part ← (if v.isNullish then .ok [] else v.text)
    let parts ← itemTexts items
    return part :: parts

end

/-- `ToPrimitive`. -/
def Js.primitive (v : Js) : Except (Thrown ε) Js :=
  match v with
  | .arr _ | .obj _ => .str <$> v.text
  | _ => .ok v

/-- `Number(v)`. -/
def Js.toNumber (v : Js) : Except (Thrown ε) Number := do
  match ← v.primitive with
  | .null => return .finite 0
  | .bool b => return .finite (if b then 1 else 0)
  | .num n => return n
  | .str s => return ofText (asChars s)
  | _ => return .nan

/-- `BigInt(v)`. -/
def Js.toBigInt (v : Js) : Except (Thrown ε) ℤ := do
  match ← v.primitive with
  | .bool b => return if b then 1 else 0
  | .num n => okOr n.toInt? .rangeError
  | .str s => okOr (bigInt? (asChars s)) .syntaxError
  | _ => .error .typeError

/-- `v < w`, with nothing for an operand that is no number. -/
def Js.lt (v w : Js) : Except (Thrown ε) (Option Bool) := do
  let p ← v.primitive
  let q ← w.primitive
  match p, q with
  | .str s, .str t => return some (unitValues s < unitValues t)
  | _, _ =>
    let m ← p.toNumber
    let n ← q.toNumber
    return m.lt? n

/-- `TextEncoder.encode`, whose argument is optional. -/
def Js.encode (v : Js) : Except (Thrown ε) (List UInt8) :=
  match v with
  | .undefined => .ok []
  | _ => Utf16.encode <$> v.text

/-! ## When a conversion throws -/

mutual

/-- No object with an own `toString` stands where a text is needed. -/
def Js.isPrintable : Js → Bool
  | .obj props => ofString "toString" ∉ props.map Prod.fst
  | .arr items => allPrintable items
  | _ => true

def allPrintable : List Js → Bool
  | [] => true
  | v :: items => v.isPrintable && allPrintable items

end

mutual

theorem text_cases (v : Js) : (v.isPrintable = true ∧ ∃ s, (v.text : Except (Thrown ε) JsString) = .ok s) ∨
    v.isPrintable = false ∧ (v.text : Except (Thrown ε) JsString) = .error .typeError := by
  cases v with
  | undefined | null | bool _ | num _ | str _ => exact .inl ⟨rfl, _, rfl⟩
  | obj props =>
    by_cases h : ofString "toString" ∈ props.map Prod.fst
    · exact .inr ⟨decide_eq_false (not_not.mpr h), if_pos h⟩
    · exact .inl ⟨decide_eq_true h, _, if_neg h⟩
  | arr items =>
    rw [Js.isPrintable, Js.text]
    rcases itemTexts_cases items with ⟨h, parts, hparts⟩ | ⟨h, hparts⟩
    · exact .inl ⟨h, _, by rw [hparts]; rfl⟩
    · exact .inr ⟨h, by rw [hparts]; rfl⟩

theorem itemTexts_cases (items : List Js) :
    (allPrintable items = true ∧ ∃ s, (itemTexts items : Except (Thrown ε) (List JsString)) = .ok s) ∨
    allPrintable items = false ∧
      (itemTexts items : Except (Thrown ε) (List JsString)) = .error .typeError := by
  cases items with
  | nil => exact .inl ⟨rfl, _, rfl⟩
  | cons v items =>
    have hpart : (v.isPrintable = true ∧
        ∃ s, (if v.isNullish then .ok [] else v.text : Except (Thrown ε) JsString) = .ok s) ∨
        v.isPrintable = false ∧
          (if v.isNullish then .ok [] else v.text : Except (Thrown ε) JsString) = .error .typeError := by
      cases v with
      | undefined | null => exact .inl ⟨rfl, _, rfl⟩
      | _ => exact text_cases _
    rw [allPrintable, itemTexts]
    rcases hpart with ⟨h, s, hs⟩ | ⟨h, hs⟩
    · rw [h, hs, Bool.true_and]
      rcases itemTexts_cases items with ⟨h, parts, hparts⟩ | ⟨h, hparts⟩
      · exact .inl ⟨h, _, by rw [hparts]; rfl⟩
      · exact .inr ⟨h, by rw [hparts]; rfl⟩
    · rw [h, hs]
      exact .inr ⟨rfl, rfl⟩

end

theorem text_eq_error {v : Js} {t : Thrown ε} : v.text = .error t ↔ v.isPrintable = false ∧ t = .typeError := by
  rcases text_cases v with ⟨h, s, hs⟩ | ⟨h, hs⟩
  · rw [hs, h]
    simp
  · rw [hs, h]
    simp [eq_comm]

theorem primitive_eq_error {v : Js} {t : Thrown ε} :
    v.primitive = .error t ↔ v.isPrintable = false ∧ t = .typeError := by
  cases v with
  | arr items =>
    rw [← text_eq_error, Js.primitive]
    cases (Js.arr items).text <;> simp [Functor.map, Except.map]
  | obj props =>
    rw [← text_eq_error, Js.primitive]
    cases (Js.obj props).text <;> simp [Functor.map, Except.map]
  | _ => simp [Js.primitive, Js.isPrintable]

theorem toNumber_eq_error {v : Js} {t : Thrown ε} :
    v.toNumber = .error t ↔ v.isPrintable = false ∧ t = .typeError := by
  rw [← primitive_eq_error, Js.toNumber, bind_eq_error, or_iff_left]
  rintro ⟨p, _, h⟩
  split at h <;> simp [pure, Except.pure] at h

theorem toBigInt_ne_error {v : Js} {e : ε} : v.toBigInt ≠ .error (.error e) := by
  rw [Js.toBigInt, ne_eq, bind_eq_error, not_or]
  constructor
  · rw [primitive_eq_error]
    simp
  · rintro ⟨p, _, h⟩
    split at h <;> simp [pure, Except.pure, okOr_eq_error] at h

end Operations

end AssuranceLayer.JavaScript
