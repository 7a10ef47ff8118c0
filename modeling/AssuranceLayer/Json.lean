import AssuranceLayer.SortedMap

set_option autoImplicit false

/-!
JSON values and codecs that carry their own round trip. A record's codec is put together from its
fields: fields it does not know, and fields given twice, are refused, and an optional field may be
left out.
-/
namespace AssuranceLayer

inductive Json where
  | null
  | bool (b : Bool)
  | num (n : ℕ)
  | str (s : String)
  | arr (items : List Json)
  | obj (entries : List (String × Json))

namespace Json
variable {α β : Type}

/-- Reads back whatever it writes. -/
structure Codec (α : Type) where
  encode : α → Json
  decode : Json → Option α
  decode_encode : ∀ a, decode (encode a) = some a

theorem mapM_eq_map {l : List α} {f : α → Option β} {g : α → β} (h : ∀ x ∈ l, f x = some (g x)) :
    l.mapM f = some (l.map g) := by
  induction l with
  | nil => rfl
  | cons x l ih =>
    rw [List.mapM_cons, h x List.mem_cons_self, ih fun y hy => h y (List.mem_cons_of_mem _ hy)]
    rfl

namespace Codec

def string : Codec String where
  encode := str
  decode
    | str s => some s
    | _ => none
  decode_encode _ := rfl

def boolean : Codec Bool where
  encode := bool
  decode
    | bool b => some b
    | _ => none
  decode_encode _ := rfl

def number (bound : ℕ) : Codec (Fin bound) where
  encode n := num n.val
  decode
    | num n => if h : n < bound then some ⟨n, h⟩ else none
    | _ => none
  decode_encode n := dif_pos n.isLt

def list (c : Codec α) : Codec (List α) where
  encode l := arr (l.map c.encode)
  decode
    | arr items => items.mapM c.decode
    | _ => none
  decode_encode l := by
    change (l.map c.encode).mapM c.decode = some l
    have hback : l.mapM (c.decode ∘ c.encode) = some (l.map id) :=
      mapM_eq_map fun a _ => c.decode_encode a
    rw [List.mapM_map, hback, List.map_id]

/-- An object read as a map: of entries with one name the last counts. -/
def map (c : Codec α) : Codec (SortedMap String α) where
  encode m := obj (m.entries.map fun e => (e.1, c.encode e.2))
  decode
    | obj entries => (entries.mapM fun e => (c.decode e.2).map (Prod.mk e.1)).map SortedMap.ofList
    | _ => none
  decode_encode m := by
    have hback : (m.entries.map fun e => (e.1, c.encode e.2)).mapM
        (fun e => (c.decode e.2).map (Prod.mk e.1)) = some (m.entries.map id) := by
      rw [List.mapM_map]
      refine mapM_eq_map fun e _ => ?_
      rw [Function.comp, c.decode_encode]
      rfl
    change ((m.entries.map fun e => (e.1, c.encode e.2)).mapM
      fun e => (c.decode e.2).map (Prod.mk e.1)).map SortedMap.ofList = some m
    rw [hback, List.map_id, Option.map_some, SortedMap.ofList_entries]

def refine (c : Codec α) (read : α → Option β) (write : β → α)
    (h : ∀ b, read (write b) = some b) : Codec β where
  encode b := c.encode (write b)
  decode j := (c.decode j).bind read
  decode_encode b := by rw [c.decode_encode, Option.bind_some, h]

end Codec

/-! ## Records -/

structure Fields (α : Type) where
  names : List String
  write : α → List (String × Json)
  read : (String → Option Json) → Option α
  write_names : ∀ a, ((write a).map Prod.fst).Sublist names
  read_write : names.Nodup → ∀ a get, (∀ e ∈ write a, get e.1 = some e.2) →
    (∀ n ∈ names, n ∉ (write a).map Prod.fst → get n = none) → read get = some a

namespace Fields

def field (name : String) (c : Codec α) : Fields α where
  names := [name]
  write a := [(name, c.encode a)]
  read get := (get name).bind c.decode
  write_names _ := List.Sublist.refl _
  read_write _ a get hget _ := by
    rw [hget (name, c.encode a) List.mem_cons_self, Option.bind_some, c.decode_encode]

/-- A field that stands for an absent value when it is left out or null. -/
def optional (name : String) (c : Codec α) (h : ∀ a, c.encode a ≠ null) : Fields (Option α) where
  names := [name]
  write
    | none => []
    | some a => [(name, c.encode a)]
  read get :=
    match get name with
    | none => some none
    | some null => some none
    | some j => (c.decode j).map some
  write_names
    | none => List.nil_sublist _
    | some _ => List.Sublist.refl _
  read_write _ a get hget habsent := by
    cases a with
    | none => rw [habsent name List.mem_cons_self List.not_mem_nil]
    | some a =>
      rw [hget (name, c.encode a) List.mem_cons_self]
      cases hj : c.encode a with
      | null => exact absurd hj (h a)
      | _ => simp only [← hj, c.decode_encode, Option.map_some]

def both (F : Fields α) (G : Fields β) : Fields (α × β) where
  names := F.names ++ G.names
  write p := F.write p.1 ++ G.write p.2
  read get := (F.read get).bind fun a => (G.read get).map (Prod.mk a)
  write_names p := by
    rw [List.map_append]
    exact (F.write_names p.1).append (G.write_names p.2)
  read_write hnodup p get hget habsent := by
    obtain ⟨hF, hG, hdisjoint⟩ := List.nodup_append.mp hnodup
    have hleft : F.read get = some p.1 := by
      refine F.read_write hF p.1 get (fun e he => hget e (List.mem_append_left _ he)) fun n hn hnot => ?_
      refine habsent n (List.mem_append_left _ hn) ?_
      rw [List.map_append, List.mem_append, not_or]
      exact ⟨hnot, fun hmem => hdisjoint n hn n ((G.write_names p.2).subset hmem) rfl⟩
    have hright : G.read get = some p.2 := by
      refine G.read_write hG p.2 get (fun e he => hget e (List.mem_append_right _ he)) fun n hn hnot => ?_
      refine habsent n (List.mem_append_right _ hn) ?_
      rw [List.map_append, List.mem_append, not_or]
      exact ⟨fun hmem => hdisjoint n ((F.write_names p.1).subset hmem) n hn rfl, hnot⟩
    rw [hleft, hright]
    rfl

def iso (F : Fields α) (build : α → β) (parts : β → α) (h : ∀ b, build (parts b) = b) : Fields β where
  names := F.names
  write b := F.write (parts b)
  read get := (F.read get).map build
  write_names b := F.write_names (parts b)
  read_write hnodup b get hget habsent := by
    rw [F.read_write hnodup (parts b) get hget habsent, Option.map_some, h]

end Fields

theorem lookup_of_mem {l : List (String × Json)} (h : (l.map Prod.fst).Nodup) {e : String × Json}
    (he : e ∈ l) : l.lookup e.1 = some e.2 := by
  induction l with
  | nil => simp at he
  | cons d l ih =>
    rw [List.map_cons, List.nodup_cons] at h
    rcases List.mem_cons.mp he with rfl | he
    · simp [List.lookup]
    · have hne : (e.1 == d.1) = false :=
        beq_eq_false_iff_ne.mpr fun heq => h.1 (heq ▸ List.mem_map_of_mem he)
      rw [List.lookup, hne]
      exact ih h.2 he

theorem lookup_of_not_mem {l : List (String × Json)} {n : String} (h : n ∉ l.map Prod.fst) :
    l.lookup n = none := by
  rw [List.lookup_eq_none_iff]
  rintro p hp
  simp only [bne_iff_ne]
  rintro rfl
  exact h (List.mem_map_of_mem hp)

/-- The object of a record. Unknown and repeated fields are refused. The values alone are read too,
    in the order of the fields. -/
def Codec.record (F : Fields α) (h : F.names.Nodup) : Codec α where
  encode a := obj (F.write a)
  decode
    | obj entries =>
      if (entries.map Prod.fst).Nodup ∧ ∀ n ∈ entries.map Prod.fst, n ∈ F.names then
        F.read fun n => entries.lookup n
      else none
    | arr items =>
      if items.length ≤ F.names.length then F.read fun n => (F.names.zip items).lookup n else none
    | _ => none
  decode_encode a := by
    have hnodup : ((F.write a).map Prod.fst).Nodup := h.sublist (F.write_names a)
    change (if _ then _ else _) = _
    rw [if_pos ⟨hnodup, fun n hn => (F.write_names a).subset hn⟩]
    exact F.read_write h a _ (fun e he => lookup_of_mem hnodup he) fun n _ hn => lookup_of_not_mem hn

/-! ## What was read -/

section Reading

theorem string_decode {j : Json} {s : String} : Codec.string.decode j = some s ↔ j = str s := by
  cases j <;> simp [Codec.string]

theorem boolean_decode {j : Json} {b : Bool} : Codec.boolean.decode j = some b ↔ j = bool b := by
  cases j <;> simp [Codec.boolean]

theorem number_decode {bound : ℕ} {j : Json} {n : Fin bound} :
    (Codec.number bound).decode j = some n ↔ j = num n.val := by
  cases j with
  | num m =>
    simp only [Codec.number, Json.num.injEq]
    split_ifs with h
    · simp [Fin.ext_iff]
    · simp only [false_iff]
      rintro rfl
      exact h n.isLt
  | _ => simp [Codec.number]

theorem list_decode {c : Codec α} {j : Json} {l : List α} : (Codec.list c).decode j = some l ↔
    ∃ items, j = arr items ∧ List.Forall₂ (fun i a => c.decode i = some a) items l := by
  cases j with
  | arr items =>
    simp only [Codec.list, Json.arr.injEq, exists_eq_left']
    induction items generalizing l with
    | nil => simp [eq_comm]
    | cons i items ih =>
      rw [List.mapM_cons, List.forall₂_cons_left_iff]
      simp only [Option.bind_eq_bind, Option.bind_eq_some_iff, Option.pure_def, Option.some.injEq]
      constructor
      · rintro ⟨a, ha, as, has, rfl⟩
        exact ⟨a, as, ha, ih.mp has, rfl⟩
      · rintro ⟨a, as, ha, has, rfl⟩
        exact ⟨a, ha, as, ih.mpr has, rfl⟩
  | _ => simp [Codec.list]

theorem map_decode {c : Codec α} {j : Json} {m : SortedMap String α} : (Codec.map c).decode j = some m ↔
    ∃ entries l, j = obj entries ∧
      List.Forall₂ (fun e x => e.1 = x.1 ∧ c.decode e.2 = some x.2) entries l ∧ SortedMap.ofList l = m := by
  have hentries : ∀ (entries : List (String × Json)) (l : List (String × α)),
      entries.mapM (fun e => (c.decode e.2).map (Prod.mk e.1)) = some l ↔
        List.Forall₂ (fun e x => e.1 = x.1 ∧ c.decode e.2 = some x.2) entries l := by
    intro entries
    induction entries with
    | nil => simp [eq_comm]
    | cons e entries ih =>
      intro l
      rw [List.mapM_cons, List.forall₂_cons_left_iff]
      simp only [Option.bind_eq_bind, Option.bind_eq_some_iff, Option.map_eq_some_iff, Option.pure_def,
        Option.some.injEq, ih]
      constructor
      · rintro ⟨_, ⟨a, ha, rfl⟩, l, hl, rfl⟩
        exact ⟨(e.1, a), l, ⟨rfl, ha⟩, hl, rfl⟩
      · rintro ⟨⟨k, a⟩, l, ⟨rfl, ha⟩, hl, rfl⟩
        exact ⟨(e.1, a), ⟨a, ha, rfl⟩, l, hl, rfl⟩
  cases j with
  | obj entries => simp [Codec.map, Option.map_eq_some_iff, hentries]
  | _ => simp [Codec.map]

theorem refine_decode {c : Codec α} {read : α → Option β} {write : β → α}
    {h : ∀ b, read (write b) = some b} {j : Json} {b : β} :
    (c.refine read write h).decode j = some b ↔ ∃ a, c.decode j = some a ∧ read a = some b :=
  Option.bind_eq_some_iff

theorem record_decode {F : Fields α} {h : F.names.Nodup} {j : Json} {a : α}
    (hread : (Codec.record F h).decode j = some a) :
    (∃ items, j = arr items) ∨ ∃ entries, j = obj entries ∧ (entries.map Prod.fst).Nodup ∧
      (∀ n ∈ entries.map Prod.fst, n ∈ F.names) ∧ F.read (fun n => entries.lookup n) = some a := by
  cases j with
  | arr items => exact .inl ⟨items, rfl⟩
  | obj entries =>
    simp only [Codec.record, Option.ite_none_right_eq_some] at hread
    exact .inr ⟨entries, rfl, hread.1.1, hread.1.2, hread.2⟩
  | _ => simp [Codec.record] at hread

namespace Fields

theorem field_read {name : String} {c : Codec α} {get : String → Option Json} {a : α} :
    (field name c).read get = some a ↔ ∃ j, get name = some j ∧ c.decode j = some a :=
  Option.bind_eq_some_iff

theorem both_read {F : Fields α} {G : Fields β} {get : String → Option Json} {p : α × β} :
    (F.both G).read get = some p ↔ F.read get = some p.1 ∧ G.read get = some p.2 := by
  obtain ⟨a, b⟩ := p
  simp [both, Option.bind_eq_some_iff, Option.map_eq_some_iff]

theorem iso_read {F : Fields α} {build : α → β} {parts : β → α} {h : ∀ b, build (parts b) = b}
    {get : String → Option Json} {b : β} :
    (F.iso build parts h).read get = some b ↔ ∃ a, F.read get = some a ∧ build a = b :=
  Option.map_eq_some_iff

theorem optional_read {name : String} {c : Codec α} {h : ∀ a, c.encode a ≠ null}
    {get : String → Option Json} {o : Option α} : (optional name c h).read get = some o ↔
      (o = none ∧ (get name = none ∨ get name = some null)) ∨
        ∃ j a, o = some a ∧ j ≠ null ∧ get name = some j ∧ c.decode j = some a := by
  simp only [optional]
  split
  · next hget => simp [hget, eq_comm]
  · next hget => simp [hget, eq_comm]
  · next j hnull hget =>
    have hne : j ≠ null := hnull
    constructor
    · intro h
      obtain ⟨a, ha, rfl⟩ := Option.map_eq_some_iff.mp h
      exact .inr ⟨j, a, rfl, hne, hget, ha⟩
    · rintro (⟨rfl, h⟩ | ⟨k, a, rfl, -, hk, ha⟩)
      · simp [hget, hne] at h
      · rw [hget] at hk
        rw [Option.some.inj hk, ha]
        rfl

end Fields
end Reading

/-! ## Text -/

/-- A reader gets back, from what a printer wrote of the given values, and a line break. -/
def ReadsBack (print : Json → String) (parse : String → Option Json) (values : List Json) : Prop :=
  ∀ j ∈ values, parse (print j ++ "\n") = some j

def escapeChar (c : Char) : List Char :=
  let n := c.toNat
  if n = 0x22 ∨ n = 0x5c then [Char.ofNat 0x5c, c]
  else if n = 0x08 then [Char.ofNat 0x5c, 'b']
  else if n = 0x09 then [Char.ofNat 0x5c, 't']
  else if n = 0x0a then [Char.ofNat 0x5c, 'n']
  else if n = 0x0c then [Char.ofNat 0x5c, 'f']
  else if n = 0x0d then [Char.ofNat 0x5c, 'r']
  else if n < 0x20 then Char.ofNat 0x5c :: ['u', '0', '0', (n / 16).digitChar, (n % 16).digitChar]
  else [c]

def quoted (s : String) : List Char :=
  Char.ofNat 0x22 :: (s.toList.flatMap escapeChar ++ [Char.ofNat 0x22])

def newline (depth : ℕ) : List Char := Char.ofNat 0x0a :: List.replicate (2 * depth) ' '

mutual

/-- Pretty text: two spaces a level, every entry on its own line. -/
def render : Json → ℕ → List Char
  | null, _ => "null".toList
  | bool b, _ => (if b then "true" else "false").toList
  | num n, _ => Nat.toDigits 10 n
  | str s, _ => quoted s
  | arr items, depth =>
    if items.isEmpty then "[]".toList
    else '[' :: (renderItems items (depth + 1) ++ newline depth ++ [']'])
  | obj entries, depth =>
    if entries.isEmpty then [Char.ofNat 0x7b, Char.ofNat 0x7d]
    else Char.ofNat 0x7b :: (renderEntries entries (depth + 1) ++ newline depth ++ [Char.ofNat 0x7d])

def renderItems : List Json → ℕ → List Char
  | [], _ => []
  | j :: items, depth =>
    newline depth ++ render j depth ++ (if items.isEmpty then [] else [',']) ++ renderItems items depth

def renderEntries : List (String × Json) → ℕ → List Char
  | [], _ => []
  | (name, j) :: entries, depth =>
    newline depth ++ quoted name ++ ':' :: ' ' :: render j depth ++
      (if entries.isEmpty then [] else [',']) ++ renderEntries entries depth

end

def toStringPretty (j : Json) : String := String.ofList (render j 0)

end Json
end AssuranceLayer
