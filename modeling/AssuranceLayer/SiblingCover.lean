import Mathlib

set_option autoImplicit false

/-!
Paths through a binary tree, read from the bottom: each step has a side, and shows a weight for its
sibling. When no path shows less for a sibling than any other path gathers on its way up to there, the
weights at the bottoms add up to no more than each path gathers on its way to the top.
-/
namespace AssuranceLayer.SiblingCover

section Paths
variable {ι σ : Type} (steps : ι → List σ) (side : σ → Bool) (shown : σ → ℕ) (weight : ι → ℕ)

/-- Where a path starts, read from the top. -/
def position (x : ι) : List Bool := ((steps x).map side).reverse

/-- Where the sibling of a step stands, below the steps above. -/
def siblingPosition (step : σ) (above : List σ) : List Bool := (above.map side).reverse ++ [!side step]

/-- The weight at the bottom, and what is shown on the way up to a depth. -/
def gathered (depth : ℕ) (x : ι) : ℕ :=
  weight x + (((steps x).take ((steps x).length - depth)).map shown).sum

/-- No path shows less for a sibling than another one gathers on its way up to there. -/
def ShowsGathered (l : List ι) : Prop :=
  ∀ x ∈ l, ∀ under step above, steps x = under ++ step :: above →
    ∀ y ∈ l, siblingPosition side step above <+: position steps side y →
      gathered steps shown weight (above.length + 1) y ≤ shown step

/-- The weight of the paths that start at or below a position. -/
def below (l : List ι) (t : List Bool) : ℕ :=
  (l.map fun y => if t <+: position steps side y then weight y else 0).sum

variable {steps side shown weight} {l : List ι} {x : ι} {t : List Bool}

theorem gathered_eq {under above : List σ} (h : steps x = under ++ above) :
    gathered steps shown weight above.length x = weight x + (under.map shown).sum := by
  rw [gathered, h, List.length_append, Nat.add_sub_cancel, List.take_left]

theorem gathered_step {under above : List σ} {step : σ} (h : steps x = under ++ step :: above) :
    gathered steps shown weight above.length x =
      gathered steps shown weight (above.length + 1) x + shown step := by
  have hcons : steps x = (under ++ [step]) ++ above := by rw [h, List.append_assoc]; rfl
  have hupper : gathered steps shown weight (above.length + 1) x = weight x + (under.map shown).sum :=
    gathered_eq h
  rw [gathered_eq hcons, hupper, List.map_append, List.sum_append, List.map_singleton, List.sum_singleton,
    Nat.add_assoc]

theorem gathered_top :
    gathered steps shown weight 0 x = weight x + ((steps x).map shown).sum := by
  rw [gathered, Nat.sub_zero, List.take_length]

theorem exists_step (h : t <+: position steps side x) (hne : position steps side x ≠ t) :
    ∃ under step above, steps x = under ++ step :: above ∧ (above.map side).reverse = t := by
  obtain ⟨rest, hrest⟩ := h
  have hmap : (steps x).map side = rest.reverse ++ t.reverse := by
    rw [← List.reverse_append, hrest, position, List.reverse_reverse]
  obtain ⟨lower, above, hsteps, hlower, habove⟩ := List.map_eq_append_iff.mp hmap
  have htop : (above.map side).reverse = t := by rw [habove, List.reverse_reverse]
  rcases List.eq_nil_or_concat lower with rfl | ⟨under, step, rfl⟩
  · refine absurd ?_ hne
    rw [position, hsteps, List.nil_append, htop]
  · exact ⟨under, step, above, by rw [hsteps, List.concat_eq_append, List.append_assoc]; rfl, htop⟩

theorem prefix_step {under above : List σ} {step : σ} (h : steps x = under ++ step :: above) :
    (above.map side).reverse ++ [side step] <+: position steps side x := by
  rw [position, h, List.map_append, List.map_cons, List.reverse_append, List.reverse_cons]
  exact List.prefix_append _ _

theorem below_eq_zero (h : ∀ y ∈ l, ¬ t <+: position steps side y) : below steps side weight l t = 0 := by
  refine List.sum_eq_zero fun n hn => ?_
  obtain ⟨y, hy, rfl⟩ := List.mem_map.mp hn
  exact if_neg (h y hy)

/-- What starts below a position starts below one of its two ends. -/
theorem below_split (h : ∀ y ∈ l, position steps side y ≠ t) (b : Bool) :
    below steps side weight l t =
      below steps side weight l (t ++ [b]) + below steps side weight l (t ++ [!b]) := by
  rw [below, below, below, ← List.sum_map_add]
  refine congrArg List.sum (List.map_congr_left fun y hy => ?_)
  by_cases ht : t <+: position steps side y
  · obtain ⟨rest, hrest⟩ := ht
    have hne := h y hy
    rw [← hrest] at hne ⊢
    simp only [List.prefix_append_right_inj, List.prefix_append, if_true]
    cases rest with
    | nil => exact absurd (List.append_nil t) hne
    | cons c rest =>
      simp only [List.cons_prefix_cons, List.nil_prefix, and_true]
      cases b <;> cases c <;> simp
  · have hneither : ∀ c, ¬ t ++ [c] <+: position steps side y := fun c hc => ht ((List.prefix_append _ _).trans hc)
    rw [if_neg ht, if_neg (hneither b), if_neg (hneither !b)]

section Disjoint
variable (hdistinct : l.Pairwise fun y z => position steps side y ≠ position steps side z)
  (hincomparable : ∀ y ∈ l, ∀ z ∈ l, position steps side y <+: position steps side z →
    position steps side y = position steps side z)
include hdistinct hincomparable

theorem below_position (hx : x ∈ l) : below steps side weight l (position steps side x) = weight x := by
  obtain ⟨front, back, rfl⟩ := List.append_of_mem hx
  obtain ⟨_, hback, hcross⟩ := List.pairwise_append.mp hdistinct
  have hother : ∀ y ∈ front ++ back, ¬ position steps side x <+: position steps side y := by
    intro y hy hpre
    have hmem : y ∈ front ++ x :: back := by
      rw [List.mem_append] at hy
      rw [List.mem_append, List.mem_cons]
      tauto
    have heq := hincomparable x hx y hmem hpre
    rcases List.mem_append.mp hy with hf | hb
    · exact hcross y hf x List.mem_cons_self heq.symm
    · exact (List.pairwise_cons.mp hback).1 y hb heq
  have hfront : below steps side weight front (position steps side x) = 0 :=
    below_eq_zero fun y hy => hother y (List.mem_append_left _ hy)
  have hback : below steps side weight back (position steps side x) = 0 :=
    below_eq_zero fun y hy => hother y (List.mem_append_right _ hy)
  rw [below] at hfront hback ⊢
  rw [List.map_append, List.map_cons, List.sum_append, List.sum_cons, hfront, hback,
    if_pos (List.prefix_refl _), Nat.zero_add, Nat.add_zero]

/-- At every position that a path passes, what starts below weighs no more than the path gathers there. -/
theorem below_le_gathered (hshows : ShowsGathered steps side shown weight l) (k : ℕ)
    (hdepth : ∀ y ∈ l, (steps y).length < t.length + k) (hx : x ∈ l) (ht : t <+: position steps side x) :
    below steps side weight l t ≤ gathered steps shown weight t.length x := by
  induction k generalizing t x with
  | zero =>
    have hlength := ht.length_le
    rw [position, List.length_reverse, List.length_map] at hlength
    exact absurd (hdepth x hx) (by omega)
  | succ k ih =>
    by_cases hpos : position steps side x = t
    · rw [← hpos, below_position hdistinct hincomparable hx]
      exact Nat.le_add_right _ _
    obtain ⟨under, step, above, hsteps, rfl⟩ := exists_step ht hpos
    have hlength : ∀ b, ((above.map side).reverse ++ [b]).length = above.length + 1 := by simp
    have hdeeper : ∀ b, ∀ y ∈ l, (steps y).length < ((above.map side).reverse ++ [b]).length + k := by
      intro b y hy
      have := hdepth y hy
      rw [List.length_reverse, List.length_map] at this
      rw [hlength]
      omega
    -- The path itself starts on the one side, and whatever starts on the other is shown.
    have hown := ih (hdeeper _) hx (prefix_step hsteps)
    have hsibling : below steps side weight l ((above.map side).reverse ++ [!side step]) ≤ shown step := by
      by_cases hany : ∃ y ∈ l, siblingPosition side step above <+: position steps side y
      · obtain ⟨y, hy, hpre⟩ := hany
        have hgathered := ih (hdeeper _) hy hpre
        rw [hlength] at hgathered
        exact hgathered.trans (hshows x hx under step above hsteps y hy hpre)
      · have hzero : below steps side weight l (siblingPosition side step above) = 0 :=
          below_eq_zero fun y hy hpre => hany ⟨y, hy, hpre⟩
        exact hzero.le.trans (Nat.zero_le _)
    have hnone : ∀ y ∈ l, position steps side y ≠ (above.map side).reverse := by
      intro y hy heq
      exact hpos ((hincomparable y hy x hx (heq ▸ ht)).symm.trans heq)
    rw [hlength] at hown
    rw [below_split hnone (side step), List.length_reverse, List.length_map, gathered_step hsteps]
    exact Nat.add_le_add hown hsibling

theorem sum_le_gathered (hshows : ShowsGathered steps side shown weight l) (hx : x ∈ l) :
    (l.map weight).sum ≤ gathered steps shown weight 0 x := by
  have hbound : ∀ y ∈ l, (steps y).length < (l.map fun y => (steps y).length).sum + 1 :=
    fun y hy => Nat.lt_succ_of_le (List.le_sum_of_mem (List.mem_map_of_mem hy))
  have hbelow := below_le_gathered hdistinct hincomparable hshows ((l.map fun y => (steps y).length).sum + 1)
    (fun y hy => by simpa using hbound y hy) hx (List.nil_prefix (l := position steps side x))
  have hall : below steps side weight l [] = (l.map weight).sum :=
    congrArg List.sum (List.map_congr_left fun y _ => if_pos List.nil_prefix)
  rwa [hall] at hbelow

end Disjoint
end Paths
end AssuranceLayer.SiblingCover
