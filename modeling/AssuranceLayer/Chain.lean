import Mathlib

set_option autoImplicit false

/-!
Histories whose entries name their predecessor: the first names none, every later one names the
one before it. Where equal names mean equal entries, the name of the last one fixes all of them.
-/
namespace AssuranceLayer.Chain
variable {α δ : Type}

/-- Oldest first. -/
structure Linked (previous : α → Option δ) (name : α → δ) (l : List α) : Prop where
  first : ∀ a ∈ l.head?, previous a = none
  links : l.IsChain fun a b => previous b = some (name a)

variable {previous : α → Option δ} {name : α → δ}

theorem Linked.dropLast {l : List α} {a : α} (h : Linked previous name (l ++ [a])) :
    Linked previous name l where
  first := by
    intro b hb
    refine h.first b ?_
    rw [List.head?_append, Option.mem_def.mp hb]
    rfl
  links := (List.isChain_append.mp h.links).1

theorem Linked.previous_last {l : List α} {a : α} (h : Linked previous name (l ++ [a])) :
    previous a = l.getLast?.map name := by
  cases hl : l.getLast? with
  | none =>
    obtain rfl := List.getLast?_eq_none_iff.mp hl
    exact h.first a rfl
  | some b => exact (List.isChain_append.mp h.links).2.2 b hl a rfl

/-- Two histories that end at one name are one history. -/
theorem Linked.eq_of_last {l m : List α} (hl : Linked previous name l)
    (hm : Linked previous name m) (hinj : ∀ a ∈ l, ∀ b ∈ m, name a = name b → a = b)
    (h : l.getLast?.map name = m.getLast?.map name) : l = m := by
  induction l using List.reverseRecOn generalizing m with
  | nil =>
    cases hlast : m.getLast? with
    | none => exact (List.getLast?_eq_none_iff.mp hlast).symm
    | some b => simp [hlast] at h
  | append_singleton l a ih =>
    obtain rfl | ⟨m, b, rfl⟩ := List.eq_nil_or_concat' m
    · simp at h
    · rw [List.getLast?_concat, List.getLast?_concat, Option.map_some, Option.map_some,
        Option.some.injEq] at h
      obtain rfl : a = b := hinj a (by simp) b (by simp) h
      have hlm : l = m := by
        refine ih hl.dropLast hm.dropLast (fun x hx y hy => hinj x (by simp [hx]) y (by simp [hy])) ?_
        rw [← hl.previous_last, ← hm.previous_last]
      rw [hlm]

end AssuranceLayer.Chain
