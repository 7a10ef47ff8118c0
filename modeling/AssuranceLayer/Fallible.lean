import Mathlib

set_option autoImplicit false

/-!
Inversion of computations that may fail: what must have happened for a sequence, a traversal or
a loop to have returned a value.
-/
namespace AssuranceLayer.Fallible
variable {ε ε' α β γ : Type}

@[simp] theorem bind_eq_ok {x : Except ε α} {f : α → Except ε β} {b : β} :
    (x >>= f) = .ok b ↔ ∃ a, x = .ok a ∧ f a = .ok b := by
  cases x with
  | error e => simp [bind, Except.bind]
  | ok a => simp [bind, Except.bind]

theorem bind_eq_error {x : Except ε α} {f : α → Except ε β} {e : ε} :
    (x >>= f) = .error e ↔ x = .error e ∨ ∃ a, x = .ok a ∧ f a = .error e := by
  cases x with
  | error e' => simp [bind, Except.bind]
  | ok a => simp [bind, Except.bind]

@[simp] theorem ok_bind (a : α) (f : α → Except ε β) : ((Except.ok a : Except ε α) >>= f) = f a :=
  rfl

@[simp] theorem pure_eq_ok {a b : α} : (pure a : Except ε α) = .ok b ↔ a = b := by
  simp [pure, Except.pure]

@[simp] theorem map_eq_ok {x : Except ε α} {f : α → β} {b : β} :
    (f <$> x) = .ok b ↔ ∃ a, x = .ok a ∧ f a = b := by
  cases x with
  | error e => simp [Functor.map, Except.map]
  | ok a => simp [Functor.map, Except.map]

@[simp] theorem mapError_eq_ok {g : ε → ε'} {x : Except ε α} {a : α} :
    x.mapError g = .ok a ↔ x = .ok a := by
  cases x with
  | error e => simp [Except.mapError]
  | ok b => simp [Except.mapError]

theorem toOption_eq_some {x : Except ε α} {a : α} : x.toOption = some a ↔ x = .ok a := by
  cases x <;> simp [Except.toOption]

theorem toOption_mapError {g : ε → ε'} {x : Except ε α} : (x.mapError g).toOption = x.toOption := by
  cases x <;> rfl

theorem exists_of_isOk {x : Except ε α} (h : x.isOk = true) : ∃ a, x = .ok a := by
  cases x with
  | error e => simp [Except.isOk, Except.toBool] at h
  | ok a => exact ⟨a, rfl⟩

theorem eq_ok_get {x : Except ε α} (h : x.toOption.isSome = true) : x = .ok (x.toOption.get h) := by
  cases x with
  | error e => simp [Except.toOption] at h
  | ok a => rfl

theorem eq_ok_getD {x : Except ε α} {a : α} (h : x.toOption.isSome = true) : x = .ok (x.toOption.getD a) := by
  cases x with
  | error e => simp [Except.toOption] at h
  | ok a => rfl

def ensure (p : Prop) [Decidable p] (e : ε) : Except ε Unit := if p then .ok () else .error e

@[simp] theorem ensure_eq_ok {p : Prop} [Decidable p] {e : ε} {u : Unit} :
    ensure p e = .ok u ↔ p := by
  unfold ensure
  split_ifs with h <;> simp [h]

theorem ensure_eq_error {p : Prop} [Decidable p] {e e' : ε} :
    (ensure p e : Except ε Unit) = .error e' ↔ ¬ p ∧ e = e' := by
  unfold ensure
  split_ifs with h <;> simp [h]

def okOr (o : Option α) (e : ε) : Except ε α :=
  match o with
  | some a => .ok a
  | none => .error e

@[simp] theorem okOr_eq_ok {o : Option α} {e : ε} {a : α} : okOr o e = .ok a ↔ o = some a := by
  cases o <;> simp [okOr]

theorem okOr_eq_error {o : Option α} {e e' : ε} : okOr o e = .error e' ↔ o = none ∧ e = e' := by
  cases o <;> simp [okOr]

theorem exists_of_forall₂ {R : α → β → Prop} {l : List α} {l' : List β} (h : List.Forall₂ R l l') {x : α}
    (hx : x ∈ l) : ∃ y ∈ l', R x y := by
  induction h with
  | nil => cases hx
  | cons hxy _ ih =>
    rcases List.mem_cons.mp hx with rfl | hx
    · exact ⟨_, List.mem_cons_self, hxy⟩
    · obtain ⟨y, hy, hR⟩ := ih hx
      exact ⟨y, List.mem_cons_of_mem _ hy, hR⟩

/-- A traversal that returns has run its step on every element, in order. -/
theorem mapM_eq_ok {f : α → Except ε β} {l : List α} {ys : List β} :
    l.mapM f = .ok ys ↔ List.Forall₂ (fun x y => f x = .ok y) l ys := by
  induction l generalizing ys with
  | nil => simp [pure, Except.pure, eq_comm]
  | cons x l ih =>
    rw [List.mapM_cons, List.forall₂_cons_left_iff]
    simp only [bind_eq_ok, pure_eq_ok]
    constructor
    · rintro ⟨y, hy, zs, hzs, rfl⟩
      exact ⟨y, zs, hy, ih.mp hzs, rfl⟩
    · rintro ⟨y, zs, hy, hzs, rfl⟩
      exact ⟨y, hy, zs, ih.mpr hzs, rfl⟩

theorem exists_mapM_eq_ok {f : α → Except ε β} {l : List α} :
    (∃ ys, l.mapM f = .ok ys) ↔ ∀ x ∈ l, ∃ y, f x = .ok y := by
  simp only [mapM_eq_ok]
  induction l with
  | nil => simp
  | cons x l ih =>
    simp only [List.forall₂_cons_left_iff, List.forall_mem_cons, ← ih]
    constructor
    · rintro ⟨_, y, ys, hy, hys, rfl⟩
      exact ⟨⟨y, hy⟩, ys, hys⟩
    · rintro ⟨⟨y, hy⟩, ys, hys⟩
      exact ⟨y :: ys, y, ys, hy, hys, rfl⟩

theorem mapM_eq_map {f : α → Except ε β} {g : α → β} {l : List α} (h : ∀ x ∈ l, f x = .ok (g x)) :
    l.mapM f = .ok (l.map g) := by
  rw [mapM_eq_ok, List.forall₂_map_right_iff, List.forall₂_same]
  exact h

/-- Every element of a loop that returns has been stepped over. -/
theorem foldlM_mem {f : β → α → Except ε β} {l : List α} {s s' : β} (h : l.foldlM f s = .ok s') {x : α}
    (hx : x ∈ l) : ∃ t t', f t x = .ok t' := by
  induction l generalizing s with
  | nil => cases hx
  | cons y l ih =>
    obtain ⟨mid, hmid, hrest⟩ := bind_eq_ok.mp h
    obtain rfl | hx := List.mem_cons.mp hx
    · exact ⟨s, mid, hmid⟩
    · exact ih hrest hx

/-- A loop that only checks its elements returns when each of them passes. -/
theorem forM_eq_ok {f : α → Except ε Unit} {l : List α} {u : Unit} :
    forM l f = .ok u ↔ ∀ x ∈ l, f x = .ok () := by
  induction l with
  | nil => simp
  | cons x l ih =>
    rw [List.forM_cons, bind_eq_ok]
    simp [ih, Unique.exists_iff]

theorem forM_eq_error {f : α → Except ε Unit} {l : List α} {e : ε} (h : forM l f = .error e) :
    ∃ x ∈ l, f x = .error e := by
  induction l with
  | nil => simp [pure, Except.pure] at h
  | cons x l ih =>
    rw [List.forM_cons, bind_eq_error] at h
    rcases h with hx | ⟨_, _, hrest⟩
    · exact ⟨x, List.mem_cons_self, hx⟩
    · obtain ⟨y, hy, he⟩ := ih hrest
      exact ⟨y, List.mem_cons_of_mem _ hy, he⟩

theorem forM_eq_error_iff {f : α → Except ε Unit} {l : List α} {e : ε} : forM l f = .error e ↔
    ∃ pre x post, l = pre ++ x :: post ∧ (∀ y ∈ pre, f y = .ok ()) ∧ f x = .error e := by
  induction l with
  | nil => simp [pure, Except.pure]
  | cons x l ih =>
    rw [List.forM_cons, bind_eq_error]
    constructor
    · rintro (hx | ⟨_, hx, hrest⟩)
      · exact ⟨[], x, l, rfl, by simp, hx⟩
      · obtain ⟨pre, y, post, rfl, hpre, hy⟩ := ih.mp hrest
        exact ⟨x :: pre, y, post, rfl, List.forall_mem_cons.mpr ⟨hx, hpre⟩, hy⟩
    · rintro ⟨pre, y, post, hl, hpre, hy⟩
      cases pre with
      | nil =>
        obtain ⟨rfl, rfl⟩ := List.cons.inj hl
        exact .inl hy
      | cons z pre =>
        obtain ⟨rfl, rfl⟩ := List.cons.inj hl
        obtain ⟨hz, hpre⟩ := List.forall_mem_cons.mp hpre
        exact .inr ⟨(), hz, ih.mpr ⟨pre, y, post, rfl, hpre, hy⟩⟩

/-! ## Agreement

Two computations agree when one returns exactly if the other does, with related values. -/

section Agreement
variable {α' β' : Type} {R : α → α' → Prop} {S : β → β' → Prop}

def Agrees (R : α → α' → Prop) (x : Except ε α) (y : Except ε' α') : Prop :=
  (∀ a, x = .ok a → ∃ b, y = .ok b ∧ R a b) ∧ ∀ b, y = .ok b → ∃ a, x = .ok a ∧ R a b

theorem Agrees.ok {a : α} {b : α'} (h : R a b) :
    Agrees R (.ok a : Except ε α) (.ok b : Except ε' α') := by
  refine ⟨fun a' ha => ⟨b, rfl, ?_⟩, fun b' hb => ⟨a, rfl, ?_⟩⟩
  · cases ha
    exact h
  · cases hb
    exact h

theorem Agrees.bind {x : Except ε α} {y : Except ε' α'} {f : α → Except ε β} {g : α' → Except ε' β'}
    (h : Agrees R x y) (hf : ∀ a b, R a b → Agrees S (f a) (g b)) : Agrees S (x >>= f) (y >>= g) := by
  constructor
  · intro c hc
    obtain ⟨a, ha, hfa⟩ := bind_eq_ok.mp hc
    obtain ⟨b, hb, hab⟩ := h.1 a ha
    obtain ⟨d, hd, hcd⟩ := (hf a b hab).1 c hfa
    exact ⟨d, bind_eq_ok.mpr ⟨b, hb, hd⟩, hcd⟩
  · intro d hd
    obtain ⟨b, hb, hgb⟩ := bind_eq_ok.mp hd
    obtain ⟨a, ha, hab⟩ := h.2 b hb
    obtain ⟨c, hc, hcd⟩ := (hf a b hab).2 d hgb
    exact ⟨c, bind_eq_ok.mpr ⟨a, ha, hc⟩, hcd⟩

theorem Agrees.with {P : α' → Prop} {x : Except ε α} {y : Except ε' α'} (h : Agrees R x y)
    (hP : ∀ b, y = .ok b → P b) : Agrees (fun a b => R a b ∧ P b) x y :=
  ⟨fun a ha => (h.1 a ha).imp fun b hb => ⟨hb.1, hb.2, hP b hb.1⟩,
    fun b hb => (h.2 b hb).imp fun _ ha => ⟨ha.1, ha.2, hP b hb⟩⟩

end Agreement

end AssuranceLayer.Fallible
