import Mathlib

set_option autoImplicit false

/-!
Encodings that can be read back off the front of any longer string. `Framed P enc` says this of
the values satisfying `P`; a concatenation of framed fields is then taken apart field by field,
and a framed encoding is injective whatever follows it.
-/
namespace AssuranceLayer.Framing
variable {α γ β : Type}

def Framed (P : α → Prop) (enc : α → List β) : Prop :=
  ∀ a b, P a → P b → ∀ s t, enc a ++ s = enc b ++ t → a = b ∧ s = t

theorem Framed.eq {P : α → Prop} {enc : α → List β} (h : Framed P enc) {a b : α}
    (ha : P a) (hb : P b) (he : enc a = enc b) : a = b :=
  (h a b ha hb [] [] (by rw [he])).1

theorem Framed.mono {P Q : α → Prop} {enc : α → List β} (h : Framed P enc)
    (hPQ : ∀ a, Q a → P a) : Framed Q enc :=
  fun a b ha hb => h a b (hPQ a ha) (hPQ b hb)

theorem framed_of_length {P : α → Prop} {enc : α → List β} (n : ℕ)
    (hlen : ∀ a, (enc a).length = n) (hinj : ∀ a b, P a → P b → enc a = enc b → a = b) :
    Framed P enc := by
  intro a b ha hb s t h
  obtain ⟨hab, hst⟩ := List.append_inj h ((hlen a).trans (hlen b).symm)
  exact ⟨hinj a b ha hb hab, hst⟩

theorem Framed.comp {P : α → Prop} {enc : α → List β} (h : Framed P enc) (Q : γ → Prop)
    (f : γ → α) (hf : ∀ c, Q c → P (f c)) (hinj : ∀ c d, Q c → Q d → f c = f d → c = d) :
    Framed Q (fun c => enc (f c)) := by
  intro c d hc hd s t hst
  obtain ⟨hcd, hst⟩ := h (f c) (f d) (hf c hc) (hf d hd) s t hst
  exact ⟨hinj c d hc hd hcd, hst⟩

theorem Framed.pair {P : α → Prop} {Q : γ → Prop} {enc : α → List β} {enc' : γ → List β}
    (h : Framed P enc) (h' : Framed Q enc') :
    Framed (fun p : α × γ => P p.1 ∧ Q p.2) (fun p => enc p.1 ++ enc' p.2) := by
  rintro ⟨a, c⟩ ⟨b, d⟩ ⟨ha, hc⟩ ⟨hb, hd⟩ s t hst
  simp only [List.append_assoc] at hst
  obtain ⟨rfl, hrest⟩ := h a b ha hb _ _ hst
  obtain ⟨rfl, rfl⟩ := h' c d hc hd _ _ hrest
  exact ⟨rfl, rfl⟩

theorem Framed.flatMap {P : α → Prop} {enc : α → List β} (h : Framed P enc) {l m : List α}
    (hlen : l.length = m.length) (hl : ∀ a ∈ l, P a) (hm : ∀ a ∈ m, P a) {s t : List β}
    (hst : l.flatMap enc ++ s = m.flatMap enc ++ t) : l = m ∧ s = t := by
  induction l generalizing m with
  | nil =>
    obtain rfl : m = [] := List.length_eq_zero_iff.mp hlen.symm
    exact ⟨rfl, by simpa using hst⟩
  | cons a l ih =>
    cases m with
    | nil => simp at hlen
    | cons b m =>
      simp only [List.flatMap_cons, List.append_assoc] at hst
      obtain ⟨rfl, hrest⟩ := h a b (hl a (by simp)) (hm b (by simp)) _ _ hst
      obtain ⟨rfl, rfl⟩ := ih (by simpa using hlen) (fun c hc => hl c (by simp [hc]))
        (fun c hc => hm c (by simp [hc])) hrest
      exact ⟨rfl, rfl⟩

def counted (count : ℕ → List β) (enc : α → List β) (l : List α) : List β :=
  count l.length ++ l.flatMap enc

theorem Framed.counted {N : ℕ} {P : α → Prop} {count : ℕ → List β} {enc : α → List β}
    (hc : Framed (· < N) count) (h : Framed P enc) :
    Framed (fun l : List α => l.length < N ∧ ∀ a ∈ l, P a) (counted count enc) := by
  rintro l m ⟨hl, hlP⟩ ⟨hm, hmP⟩ s t hst
  simp only [Framing.counted, List.append_assoc] at hst
  obtain ⟨hlen, hst⟩ := hc _ _ hl hm _ _ hst
  exact h.flatMap hlen hlP hmP hst

theorem framed_single (P : β → Prop) : Framed P (fun b => [b]) := by
  intro a b _ _ s t h
  simpa using h

def optional (absent present : β) (enc : α → List β) : Option α → List β
  | none => [absent]
  | some a => present :: enc a

theorem Framed.optional {absent present : β} (hne : absent ≠ present) {P : α → Prop}
    {enc : α → List β} (h : Framed P enc) :
    Framed (fun o : Option α => ∀ a, o = some a → P a) (optional absent present enc) := by
  intro o q ho hq s t hst
  cases o with
  | none =>
    cases q with
    | none => exact ⟨rfl, by simpa [Framing.optional] using hst⟩
    | some b => simp [Framing.optional, hne] at hst
  | some a =>
    cases q with
    | none => simp [Framing.optional, hne.symm] at hst
    | some b =>
      simp only [Framing.optional, List.cons_append, List.cons.injEq, true_and] at hst
      obtain ⟨rfl, rfl⟩ := h a b (ho a rfl) (hq b rfl) _ _ hst
      exact ⟨rfl, rfl⟩

/-- The `width` low bytes of a number, least significant first. -/
def littleEndian : ℕ → ℕ → List UInt8
  | 0, _ => []
  | width + 1, n => UInt8.ofNat n :: littleEndian width (n / 256)

@[simp] theorem littleEndian_length (width n : ℕ) : (littleEndian width n).length = width := by
  induction width generalizing n with
  | zero => rfl
  | succ width ih => simp [littleEndian, ih]

theorem ofNat_inj_mod {a b : ℕ} (h : UInt8.ofNat a = UInt8.ofNat b) : a % 256 = b % 256 := by
  have hn := congrArg UInt8.toNat h
  simpa [UInt8.toNat_ofNat'] using hn

theorem littleEndian_inj (width : ℕ) {a b : ℕ} (ha : a < 256 ^ width) (hb : b < 256 ^ width)
    (h : littleEndian width a = littleEndian width b) : a = b := by
  induction width generalizing a b with
  | zero => omega
  | succ width ih =>
    simp only [littleEndian, List.cons.injEq] at h
    have hlow := ofNat_inj_mod h.1
    rw [pow_succ] at ha hb
    have hhigh := ih (by omega) (by omega) h.2
    omega

theorem framed_littleEndian (width : ℕ) : Framed (· < 256 ^ width) (littleEndian width) :=
  framed_of_length width (littleEndian_length width)
    (fun _ _ ha hb h => littleEndian_inj width ha hb h)

end AssuranceLayer.Framing
