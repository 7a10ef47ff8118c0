import Mathlib

set_option autoImplicit false

/-!
Texts laid out in columns of fixed widths: a lexicographic comparison of two of them is one of
the numbers their columns stand for.
-/
namespace AssuranceLayer.LexOrder
variable {α : Type}

def columns (l : List α) : List ℕ → List (List α)
  | [] => []
  | w :: ws => l.take w :: columns (l.drop w) ws

theorem flatten_columns (l : List α) (ws : List ℕ) : (columns l ws).flatten = l.take ws.sum := by
  induction ws generalizing l with
  | nil => simp [columns]
  | cons w ws ih => rw [columns, List.flatten_cons, ih, List.sum_cons, List.take_add]

/-- Columns do not see what stands behind them. -/
theorem columns_take (l : List α) (ws : List ℕ) : columns (l.take ws.sum) ws = columns l ws := by
  induction ws generalizing l with
  | nil => rfl
  | cons w ws ih =>
    rw [columns, columns, List.sum_cons, List.take_take, Nat.min_eq_left (Nat.le_add_right w _),
      List.drop_take, Nat.add_sub_cancel_left, ih]

/-- What two rows of columns both are to one layout, they are to each other. -/
theorem forall₂_of_layout {β : Type} {R : β → List α → Prop} {S : List α → List α → Prop}
    {layout : List β} {ps qs : List (List α)} (hRS : ∀ b p q, R b p → R b q → S p q)
    (hp : List.Forall₂ R layout ps) (hq : List.Forall₂ R layout qs) : List.Forall₂ S ps qs := by
  induction hp generalizing qs with
  | nil =>
    cases hq
    exact .nil
  | cons hbp _ ih =>
    obtain _ | ⟨hbq, hrest⟩ := hq
    exact .cons (hRS _ _ _ hbp hbq) (ih hrest)

variable [LinearOrder α]

theorem append_lt_append {a b s t : List α} (hlen : a.length = b.length) (h : a ++ s < b ++ t) :
    a < b ∨ a = b ∧ s < t := by
  induction a generalizing b with
  | nil =>
    obtain rfl := List.length_eq_zero_iff.mp hlen.symm
    exact .inr ⟨rfl, h⟩
  | cons x a ih =>
    cases b with
    | nil => simp at hlen
    | cons y b =>
      rw [List.cons_append, List.cons_append, List.cons_lt_cons_iff] at h
      rw [List.cons_lt_cons_iff, List.cons.injEq]
      rcases h with hxy | ⟨rfl, h⟩
      · exact .inl (.inl hxy)
      · rcases ih (by simpa using hlen) h with hab | ⟨rfl, hst⟩
        · exact .inl (.inr ⟨rfl, hab⟩)
        · exact .inr ⟨⟨rfl, rfl⟩, hst⟩

theorem take_lt_take {n : ℕ} {s t : List α} (h : s < t) (hne : s.take n ≠ t.take n) :
    s.take n < t.take n := by
  induction n generalizing s t with
  | zero => exact absurd rfl hne
  | succ n ih =>
    cases s with
    | nil =>
      cases t with
      | nil => exact absurd h (lt_irrefl _)
      | cons y t => exact List.nil_lt_cons _ _
    | cons x s =>
      cases t with
      | nil => exact absurd h (List.not_lt_nil _)
      | cons y t =>
        rw [List.take_succ_cons, List.take_succ_cons, ne_eq, List.cons.injEq] at hne
        rw [List.take_succ_cons, List.take_succ_cons, List.cons_lt_cons_iff]
        rcases List.cons_lt_cons_iff.mp h with hxy | ⟨rfl, hst⟩
        · exact .inl hxy
        · exact .inr ⟨rfl, ih hst fun heq => hne ⟨rfl, heq⟩⟩

/-- Columns of equal widths whose values follow their order are compared by their values. -/
theorem map_lt_of_flatten_lt {value : List α → ℕ} {ps qs : List (List α)}
    (h : List.Forall₂ (fun p q => p.length = q.length ∧ (p < q → value p < value q)) ps qs)
    (hlt : ps.flatten < qs.flatten) : ps.map value < qs.map value := by
  induction h with
  | nil => exact absurd hlt (lt_irrefl _)
  | cons hpq _ ih =>
    rw [List.flatten_cons, List.flatten_cons] at hlt
    rw [List.map_cons, List.map_cons, List.cons_lt_cons_iff]
    rcases append_lt_append hpq.1 hlt with hp | ⟨rfl, hrest⟩
    · exact .inl (hpq.2 hp)
    · exact .inr ⟨rfl, ih hrest⟩

end AssuranceLayer.LexOrder
