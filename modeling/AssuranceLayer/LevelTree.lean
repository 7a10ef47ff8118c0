import AssuranceLayer.Fallible

set_option autoImplicit false

/-!
Trees built level by level over any partial pairing `combine`: neighbours are paired left to
right and an odd last element moves up unchanged. The module says what such a build preserves,
that the sibling path of an element folds back to the top, and what a path chosen by someone else
must look like once equal labels are known to come from equal parts.
-/
namespace AssuranceLayer.LevelTree
open Fallible
variable {α ε : Type} (combine : α → α → Except ε α)

def pairLevel : List α → Except ε (List α)
  | [] => .ok []
  | [odd] => .ok [odd]
  | left :: right :: rest => do
    let node ← combine left right
    let next ← pairLevel rest
    return node :: next

/-- All levels from `level` to the top. Pairing shortens a level that has two elements, so fuel
    equal to the length is never used up. -/
def levelsFrom : ℕ → List α → Except ε (List (List α))
  | 0, level => .ok [level]
  | fuel + 1, level =>
    if 1 < level.length then do
      let next ← pairLevel combine level
      let above ← levelsFrom fuel next
      return level :: above
    else .ok [level]

/-- A completed build over `leaves`: every level is paired into the next, up to a single top. -/
inductive Levels : List α → List (List α) → α → Prop where
  | top (x : α) : Levels [x] [[x]] x
  | up {level next : List α} {above : List (List α)} {root : α} (hlen : 1 < level.length)
      (hpair : pairLevel combine level = .ok next) (habove : Levels next above root) :
      Levels level (level :: above) root

structure Step (α : Type) where
  sibling : α
  siblingOnLeft : Bool
deriving DecidableEq

/-- The siblings met on the way up from index `idx`; a level where the element moves up alone
    contributes none. -/
def path : ℕ → List (List α) → List (Step α)
  | _, [] => []
  | _, [_] => []
  | idx, level :: next :: above =>
    match level[idx ^^^ 1]? with
    | some sibling => ⟨sibling, decide (idx ^^^ 1 < idx)⟩ :: path (idx / 2) (next :: above)
    | none => path (idx / 2) (next :: above)

def climb (x : α) (step : Step α) : Except ε α :=
  if step.siblingOnLeft then combine step.sibling x else combine x step.sibling

def refold (start : α) (steps : List (Step α)) : Except ε α := steps.foldlM (climb combine) start

variable {combine}

theorem xor_one (n : ℕ) : n ^^^ 1 = if n % 2 = 0 then n + 1 else n - 1 := by
  split_ifs with h
  · exact Nat.xor_one_of_even (Nat.even_iff.mpr h)
  · exact Nat.xor_one_of_odd (Nat.odd_iff.mpr (by omega))

theorem pairLevel_length {level next : List α} (h : pairLevel combine level = .ok next) :
    next.length = (level.length + 1) / 2 := by
  induction level using pairLevel.induct generalizing next with
  | case1 =>
    cases h
    simp
  | case2 odd =>
    cases h
    simp
  | case3 left right rest ih =>
    simp only [pairLevel, bind_eq_ok, pure_eq_ok] at h
    obtain ⟨node, _, tail, htail, rfl⟩ := h
    have hlen := ih htail
    simp only [List.length_cons] at hlen ⊢
    omega

theorem levelsFrom_levels {fuel : ℕ} {level : List α} {ls : List (List α)}
    (hne : level ≠ []) (hfuel : level.length ≤ fuel + 1)
    (h : levelsFrom combine fuel level = .ok ls) : ∃ root, Levels combine level ls root := by
  induction fuel generalizing level ls with
  | zero =>
    have hpos := List.length_pos_iff.mpr hne
    obtain ⟨x, rfl⟩ := List.length_eq_one_iff.mp (show level.length = 1 by omega)
    simp only [levelsFrom, Except.ok.injEq] at h
    exact ⟨x, h ▸ .top x⟩
  | succ fuel ih =>
    rw [levelsFrom] at h
    split_ifs at h with hlen
    · simp only [bind_eq_ok, pure_eq_ok] at h
      obtain ⟨next, hpair, above, habove, rfl⟩ := h
      have hnext := pairLevel_length hpair
      obtain ⟨root, hroot⟩ := ih (by rintro rfl; simp at hnext; omega) (by omega) habove
      exact ⟨root, .up hlen hpair hroot⟩
    · have hpos := List.length_pos_iff.mpr hne
      obtain ⟨x, rfl⟩ := List.length_eq_one_iff.mp (show level.length = 1 by omega)
      simp only [Except.ok.injEq] at h
      exact ⟨x, h ▸ .top x⟩

theorem Levels.levelsFrom_eq {level : List α} {ls : List (List α)} {root : α}
    (h : Levels combine level ls root) (fuel : ℕ) (hfuel : level.length ≤ fuel + 1) :
    levelsFrom combine fuel level = .ok ls := by
  induction h generalizing fuel with
  | top x =>
    cases fuel with
    | zero => rfl
    | succ fuel => simp [levelsFrom]
  | @up level next above root hlen hpair _ ih =>
    cases fuel with
    | zero => omega
    | succ fuel =>
      have hnext := pairLevel_length hpair
      rw [levelsFrom, if_pos hlen, hpair, ok_bind, ih fuel (by omega)]
      rfl

theorem Levels.ne_nil {level : List α} {ls : List (List α)} {root : α}
    (h : Levels combine level ls root) : level ≠ [] := by
  cases h with
  | top x => simp
  | up hlen _ _ => rintro rfl; simp at hlen

theorem Levels.head {level : List α} {ls : List (List α)} {root : α}
    (h : Levels combine level ls root) : ls.head? = some level := by
  cases h <;> rfl

theorem Levels.last {level : List α} {ls : List (List α)} {root : α}
    (h : Levels combine level ls root) : ls.getLast? = some [root] := by
  induction h with
  | top x => rfl
  | up hlen hpair habove ih =>
    rw [List.getLast?_cons, ih]
    rfl

/-- What one level up says about one element: it was combined with its neighbour, or it moved
    up alone. -/
theorem pairLevel_step {level next : List α} (h : pairLevel combine level = .ok next) {idx : ℕ}
    {x : α} (hx : level[idx]? = some x) : ∃ y, next[idx / 2]? = some y ∧
      ((∃ s, level[idx ^^^ 1]? = some s ∧
          climb combine x ⟨s, decide (idx ^^^ 1 < idx)⟩ = .ok y) ∨
        (level[idx ^^^ 1]? = none ∧ y = x)) := by
  induction level using pairLevel.induct generalizing next idx with
  | case1 => simp at hx
  | case2 odd =>
    cases h
    obtain rfl : idx = 0 := by
      cases idx with
      | zero => rfl
      | succ n => simp at hx
    exact ⟨odd, rfl, .inr ⟨rfl, by simpa using hx⟩⟩
  | case3 left right rest ih =>
    simp only [pairLevel, bind_eq_ok, pure_eq_ok] at h
    obtain ⟨node, hnode, tail, htail, rfl⟩ := h
    cases idx with
    | zero =>
      obtain rfl : left = x := by simpa using hx
      exact ⟨node, rfl, .inl ⟨right, rfl, by simpa [climb] using hnode⟩⟩
    | succ k =>
      cases k with
      | zero =>
        obtain rfl : right = x := by simpa using hx
        exact ⟨node, rfl, .inl ⟨left, rfl, by simpa [climb] using hnode⟩⟩
      | succ n =>
        have hxor : (n + 1 + 1) ^^^ 1 = (n ^^^ 1) + 1 + 1 := by
          rw [xor_one, xor_one]
          split_ifs <;> omega
        have hlt : (n ^^^ 1) + 1 + 1 < n + 1 + 1 ↔ n ^^^ 1 < n := by omega
        have hdiv : (n + 1 + 1) / 2 = n / 2 + 1 := by omega
        simp only [hxor, hlt, hdiv, List.getElem?_cons_succ] at hx ⊢
        exact ih htail hx

theorem Levels.refold_path {level : List α} {ls : List (List α)} {root : α}
    (h : Levels combine level ls root) {idx : ℕ} {x : α} (hx : level[idx]? = some x) :
    refold combine x (path idx ls) = .ok root := by
  induction h generalizing idx x with
  | top y =>
    cases idx with
    | zero =>
      obtain rfl : y = x := by simpa using hx
      rfl
    | succ n => simp at hx
  | @up level next above root hlen hpair habove ih =>
    obtain ⟨y, hy, hstep⟩ := pairLevel_step hpair hx
    obtain ⟨next', above', rfl⟩ : ∃ next' above', above = next' :: above' := by
      cases habove with
      | top z => exact ⟨_, _, rfl⟩
      | up _ _ _ => exact ⟨_, _, rfl⟩
    rcases hstep with ⟨s, hs, hclimb⟩ | ⟨hs, rfl⟩
    · rw [path, hs]
      change (climb combine x _ >>= fun z => refold combine z _) = _
      rw [hclimb]
      exact ih hy
    · rw [path, hs]
      exact ih hy

section Measure
variable {M : Type} [AddCommMonoid M] {μ : α → M}

/-- Pairing preserves any quantity that `combine` adds up. -/
theorem pairLevel_sum (hμ : ∀ x y z, combine x y = .ok z → μ z = μ x + μ y)
    {level next : List α} (h : pairLevel combine level = .ok next) :
    (next.map μ).sum = (level.map μ).sum := by
  induction level using pairLevel.induct generalizing next with
  | case1 =>
    cases h
    rfl
  | case2 odd =>
    cases h
    rfl
  | case3 left right rest ih =>
    simp only [pairLevel, bind_eq_ok, pure_eq_ok] at h
    obtain ⟨node, hnode, tail, htail, rfl⟩ := h
    simp only [List.map_cons, List.sum_cons]
    rw [hμ _ _ _ hnode, ih htail, add_assoc]

theorem Levels.root_sum (μ : α → M) (hμ : ∀ x y z, combine x y = .ok z → μ z = μ x + μ y)
    {level : List α} {ls : List (List α)} {root : α} (h : Levels combine level ls root) :
    μ root = (level.map μ).sum := by
  induction h with
  | top x => simp
  | up hlen hpair habove ih => rw [ih, pairLevel_sum hμ hpair]

/-- Where `combine` fails only on totals that are too large, and a part of an acceptable total is
    acceptable, a level can be paired as soon as its own total is acceptable. -/
theorem pairLevel_total {good : M → Prop} (hpart : ∀ a b, good (a + b) → good a ∧ good b)
    (hok : ∀ x y, good (μ x + μ y) → ∃ z, combine x y = .ok z)
    (level : List α) (h : good (level.map μ).sum) : ∃ next, pairLevel combine level = .ok next := by
  induction level using pairLevel.induct with
  | case1 => exact ⟨[], rfl⟩
  | case2 odd => exact ⟨[odd], rfl⟩
  | case3 left right rest ih =>
    simp only [List.map_cons, List.sum_cons, ← add_assoc] at h
    obtain ⟨hpair, hrest⟩ := hpart _ _ h
    obtain ⟨node, hnode⟩ := hok left right hpair
    obtain ⟨next, hnext⟩ := ih hrest
    exact ⟨node :: next, by rw [pairLevel, hnode, ok_bind, hnext]; rfl⟩

theorem levelsFrom_total (μ : α → M) (good : M → Prop) (hpart : ∀ a b, good (a + b) → good a ∧ good b)
    (hok : ∀ x y, good (μ x + μ y) → ∃ z, combine x y = .ok z)
    (hμ : ∀ x y z, combine x y = .ok z → μ z = μ x + μ y)
    (fuel : ℕ) (level : List α) (h : good (level.map μ).sum) :
    ∃ ls, levelsFrom combine fuel level = .ok ls := by
  induction fuel generalizing level with
  | zero => exact ⟨[level], rfl⟩
  | succ fuel ih =>
    rw [levelsFrom]
    split_ifs with hlen
    · obtain ⟨next, hnext⟩ := pairLevel_total hpart hok level h
      obtain ⟨ls, hls⟩ := ih next (by rwa [pairLevel_sum hμ hnext])
      exact ⟨level :: ls, by rw [hnext, ok_bind, hls]; rfl⟩
    · exact ⟨[level], rfl⟩

end Measure

/-- A mark carried up by `combine` from either side is carried by the top exactly when some
    element of the bottom level carries it. -/
theorem Levels.root_mark (p : α → Prop) (hp : ∀ x y z, combine x y = .ok z → (p z ↔ p x ∨ p y))
    {level : List α} {ls : List (List α)} {root : α} (h : Levels combine level ls root) :
    p root ↔ ∃ x ∈ level, p x := by
  have hpair : ∀ {level next : List α}, pairLevel combine level = .ok next →
      ((∃ x ∈ next, p x) ↔ ∃ x ∈ level, p x) := by
    intro level next hnext
    induction level using pairLevel.induct generalizing next with
    | case1 => cases hnext; rfl
    | case2 odd => cases hnext; rfl
    | case3 left right rest ih =>
      simp only [pairLevel, bind_eq_ok, pure_eq_ok] at hnext
      obtain ⟨node, hnode, tail, htail, rfl⟩ := hnext
      simp only [List.exists_mem_cons_iff, ih htail, hp _ _ _ hnode, or_assoc]
  induction h with
  | top x => simp
  | up hlen hnext habove ih => exact ih.trans (hpair hnext)

/-- Left part, right part and result of one combination. -/
abbrev Combo (α : Type) := α × α × α

def levelCombos : List α → List α → List (Combo α)
  | left :: right :: rest, node :: next => (left, right, node) :: levelCombos rest next
  | _, _ => []

def combos : List (List α) → List (Combo α)
  | level :: next :: above => levelCombos level next ++ combos (next :: above)
  | _ => []

def comboOf (x : α) (step : Step α) (node : α) : Combo α :=
  if step.siblingOnLeft then (step.sibling, x, node) else (x, step.sibling, node)

variable (combine) in
def refoldCombos (start : α) : List (Step α) → List (Combo α)
  | [] => []
  | step :: rest =>
    match climb combine start step with
    | .ok node => comboOf start step node :: refoldCombos node rest
    | .error _ => []

/-- The choices of a path read from the top; `true` where the element stands on the right. -/
def position (steps : List (Step α)) : List Bool := (steps.map Step.siblingOnLeft).reverse

@[simp] theorem comboOf_result (x : α) (step : Step α) (node : α) :
    (comboOf x step node).2.2 = node := by
  unfold comboOf
  split_ifs <;> rfl

theorem position_snoc (steps : List (Step α)) (step : Step α) :
    position (steps ++ [step]) = step.siblingOnLeft :: position steps := by
  simp [position]

theorem refold_append {start f : α} {pre suf : List (Step α)} :
    refold combine start (pre ++ suf) = .ok f ↔
      ∃ mid, refold combine start pre = .ok mid ∧ refold combine mid suf = .ok f := by
  simp only [refold, List.foldlM_append, bind_eq_ok]

theorem refold_snoc {start f : α} {pre : List (Step α)} {step : Step α} :
    refold combine start (pre ++ [step]) = .ok f ↔
      ∃ mid, refold combine start pre = .ok mid ∧ climb combine mid step = .ok f := by
  rw [refold_append]
  simp [refold]

theorem mem_refoldCombos {start mid node : α} {pre : List (Step α)} {step : Step α}
    (suf : List (Step α)) (hmid : refold combine start pre = .ok mid) (hnode : climb combine mid step = .ok node) :
    comboOf mid step node ∈ refoldCombos combine start (pre ++ step :: suf) := by
  induction pre generalizing start with
  | nil =>
    cases hmid
    simp [refoldCombos, hnode]
  | cons first pre ih =>
    simp only [refold, List.foldlM_cons, bind_eq_ok] at hmid
    obtain ⟨up, hup, hmid⟩ := hmid
    rw [List.cons_append, refoldCombos, hup]
    exact List.mem_cons_of_mem _ (ih hmid)

theorem mem_levelCombos {level next : List α} (h : pairLevel combine level = .ok next)
    {c : Combo α} (hc : c ∈ levelCombos level next) : combine c.1 c.2.1 = .ok c.2.2 := by
  induction level using pairLevel.induct generalizing next with
  | case1 => simp [levelCombos] at hc
  | case2 odd => simp [levelCombos] at hc
  | case3 left right rest ih =>
    simp only [pairLevel, bind_eq_ok, pure_eq_ok] at h
    obtain ⟨node, hnode, tail, htail, rfl⟩ := h
    rw [levelCombos, List.mem_cons] at hc
    rcases hc with rfl | hc
    · exact hnode
    · exact ih htail hc

theorem Levels.mem_combos {level : List α} {ls : List (List α)} {root : α}
    (h : Levels combine level ls root) {c : Combo α} (hc : c ∈ combos ls) :
    combine c.1 c.2.1 = .ok c.2.2 := by
  induction h with
  | top x => simp [combos] at hc
  | @up level next above root hlen hpair habove ih =>
    cases habove with
    | top z =>
      rw [combos, List.mem_append] at hc
      exact hc.elim (mem_levelCombos hpair) ih
    | up _ _ _ =>
      rw [combos, List.mem_append] at hc
      exact hc.elim (mem_levelCombos hpair) ih

theorem mem_refoldCombos_combine {start : α} {steps : List (Step α)} {c : Combo α}
    (hc : c ∈ refoldCombos combine start steps) : combine c.1 c.2.1 = .ok c.2.2 := by
  induction steps generalizing start with
  | nil => simp [refoldCombos] at hc
  | cons step rest ih =>
    rw [refoldCombos] at hc
    cases hclimb : climb combine start step with
    | error e => simp [hclimb] at hc
    | ok node =>
      rw [hclimb, List.mem_cons] at hc
      rcases hc with rfl | hc
      · unfold climb at hclimb
        unfold comboOf
        split_ifs at hclimb ⊢ <;> exact hclimb
      · exact ih hc

/-- What one level up says about one element of the upper level. -/
theorem pairLevel_parts {level next : List α} (h : pairLevel combine level = .ok next) {idx : ℕ}
    {y : α} (hy : next[idx]? = some y) :
    (∃ left right, level[2 * idx]? = some left ∧ level[2 * idx + 1]? = some right ∧
        (left, right, y) ∈ levelCombos level next) ∨
      (level[2 * idx]? = some y ∧ level[2 * idx + 1]? = none) := by
  induction level using pairLevel.induct generalizing next idx with
  | case1 =>
    cases h
    simp at hy
  | case2 odd =>
    cases h
    cases idx with
    | zero => exact .inr ⟨hy, rfl⟩
    | succ n => simp at hy
  | case3 left right rest ih =>
    simp only [pairLevel, bind_eq_ok, pure_eq_ok] at h
    obtain ⟨node, hnode, tail, htail, rfl⟩ := h
    cases idx with
    | zero =>
      obtain rfl : node = y := by simpa using hy
      exact .inl ⟨left, right, rfl, rfl, by simp [levelCombos]⟩
    | succ n =>
      rw [List.getElem?_cons_succ] at hy
      simp only [Nat.mul_succ, List.getElem?_cons_succ, levelCombos, List.mem_cons]
      rcases ih htail hy with ⟨l, r, hl, hr, hmem⟩ | ⟨hl, hr⟩
      · exact .inl ⟨l, r, hl, hr, .inr hmem⟩
      · exact .inr ⟨hl, hr⟩

theorem Levels.root_origin {level : List α} {ls : List (List α)} {root : α}
    (h : Levels combine level ls root) : root ∈ level ∨ ∃ c ∈ combos ls, c.2.2 = root := by
  induction h with
  | top x => exact .inl (List.mem_singleton_self x)
  | @up level next above root hlen hpair habove ih =>
    obtain ⟨above', rfl⟩ : ∃ above', above = next :: above' := by
      cases habove with
      | top z => exact ⟨_, rfl⟩
      | up _ _ _ => exact ⟨_, rfl⟩
    rcases ih with hroot | ⟨c, hc, rfl⟩
    · obtain ⟨i, hi⟩ := List.mem_iff_getElem?.mp hroot
      rcases pairLevel_parts hpair hi with ⟨left, right, _, _, hmem⟩ | ⟨hleft, _⟩
      · exact .inr ⟨_, List.mem_append_left _ hmem, rfl⟩
      · exact .inl (List.mem_of_getElem? hleft)
    · exact .inr ⟨c, List.mem_append_right _ hc, rfl⟩

theorem refold_origin {start f : α} {steps : List (Step α)}
    (hf : refold combine start steps = .ok f) :
    f = start ∨ ∃ c ∈ refoldCombos combine start steps, c.2.2 = f := by
  rcases List.eq_nil_or_concat steps with rfl | ⟨pre, step, rfl⟩
  · cases hf
    exact .inl rfl
  · rw [List.concat_eq_append] at hf ⊢
    obtain ⟨mid, hmid, hclimb⟩ := refold_snoc.mp hf
    exact .inr ⟨_, mem_refoldCombos [] hmid hclimb, comboOf_result mid step f⟩

section Binding
variable {δ : Type} {label : α → δ}

def tag (label : α → δ) (step : Step α) : δ × Bool := (label step.sibling, step.siblingOnLeft)

/-- Equal labels of two results come from equal labels of their parts. -/
def Binds (label : α → δ) (cs ds : List (Combo α)) : Prop :=
  ∀ c ∈ cs, ∀ d ∈ ds, label c.2.2 = label d.2.2 → label c.1 = label d.1 ∧ label c.2.1 = label d.2.1

/-- A label that no combination among `cs` produces. -/
def Fresh (label : α → δ) (cs : List (Combo α)) (x : α) : Prop := ∀ c ∈ cs, label x ≠ label c.2.2

/-- A fold that reaches the top's label can be followed down level by level: below every level it
    stands at the label of one of the level's elements, and the rest of it is that element's
    path. -/
theorem Levels.descend {level : List α} {ls : List (List α)} {root start f : α}
    {steps : List (Step α)} (h : Levels combine level ls root)
    (hf : refold combine start steps = .ok f) (hroot : label f = label root)
    (hbind : Binds label (combos ls) (refoldCombos combine start steps))
    (hstart : Fresh label (combos ls) start) :
    ∃ pre suf mid idx x, steps = pre ++ suf ∧ refold combine start pre = .ok mid ∧
      level[idx]? = some x ∧ label mid = label x ∧
      suf.map (tag label) = (path idx ls).map (tag label) := by
  induction h with
  | top x => exact ⟨steps, [], f, 0, x, by simp, hf, rfl, hroot, rfl⟩
  | @up level next above root hlen hpair habove ih =>
    obtain ⟨next', above', rfl, rfl⟩ : ∃ next' above', above = next' :: above' ∧ next' = next := by
      cases habove with
      | top z => exact ⟨_, _, rfl, rfl⟩
      | up _ _ _ => exact ⟨_, _, rfl, rfl⟩
    have hsub : ∀ c ∈ combos (next' :: above'), c ∈ combos (level :: next' :: above') :=
      fun c hc => List.mem_append_right _ hc
    obtain ⟨pre, suf, mid, idx, y, rfl, hmid, hy, hlabel, hpath⟩ := ih hroot
      (fun c hc => hbind c (hsub c hc)) (fun c hc => hstart c (hsub c hc))
    rcases pairLevel_parts hpair hy with ⟨left, right, hleft, hright, hmem⟩ | ⟨hleft, hright⟩
    · have hcombo : (left, right, y) ∈ combos (level :: next' :: above') :=
        List.mem_append_left _ hmem
      rcases List.eq_nil_or_concat pre with rfl | ⟨pre', step, rfl⟩
      · cases hmid
        exact absurd hlabel (hstart _ hcombo)
      · rw [List.concat_eq_append] at hmid hbind ⊢
        obtain ⟨below, hbelow, hclimb⟩ := refold_snoc.mp hmid
        have hd := mem_refoldCombos suf hbelow hclimb
        have hparts := hbind _ hcombo _ (by simpa using hd) (by simpa using hlabel.symm)
        refine ⟨pre', step :: suf, below, ?_⟩
        have heven : (2 * idx) ^^^ 1 = 2 * idx + 1 := by rw [xor_one, if_pos (by omega)]
        have hodd : (2 * idx + 1) ^^^ 1 = 2 * idx := by rw [xor_one, if_neg (by omega)]; rfl
        have hdiv : (2 * idx + 1) / 2 = idx := by omega
        cases hside : step.siblingOnLeft with
        | true =>
          simp only [comboOf, hside, ↓reduceIte] at hparts
          refine ⟨2 * idx + 1, right, by simp, hbelow, hright, hparts.2.symm, ?_⟩
          simp [path, hodd, hleft, hdiv, hpath, tag, hside, hparts.1]
        | false =>
          simp only [comboOf, hside, Bool.false_eq_true, ↓reduceIte] at hparts
          refine ⟨2 * idx, left, by simp, hbelow, hleft, hparts.1.symm, ?_⟩
          simp [path, heven, hright, hpath, tag, hside, hparts.2]
    · refine ⟨pre, suf, mid, 2 * idx, y, rfl, hmid, hleft, hlabel, ?_⟩
      have heven : (2 * idx) ^^^ 1 = 2 * idx + 1 := by rw [xor_one, if_pos (by omega)]
      simpa [path, heven, hright] using hpath

/-- When moreover no bottom element carries a combination's label, the whole fold is the path of
    one bottom element, and it starts at that element's label. -/
theorem Levels.inclusion {level : List α} {ls : List (List α)} {root start f : α}
    {steps : List (Step α)} (h : Levels combine level ls root)
    (hf : refold combine start steps = .ok f) (hroot : label f = label root)
    (hbind : Binds label (combos ls) (refoldCombos combine start steps))
    (hstart : Fresh label (combos ls) start)
    (hleaf : ∀ x ∈ level, Fresh label (refoldCombos combine start steps) x) :
    ∃ (idx : ℕ) (x : α), level[idx]? = some x ∧ label start = label x ∧
      steps.map (tag label) = (path idx ls).map (tag label) := by
  obtain ⟨pre, suf, mid, idx, x, rfl, hmid, hx, hlabel, hpath⟩ :=
    h.descend hf hroot hbind hstart
  rcases List.eq_nil_or_concat pre with rfl | ⟨pre', step, rfl⟩
  · cases hmid
    exact ⟨idx, x, hx, hlabel, hpath⟩
  · rw [List.concat_eq_append] at hmid hleaf
    obtain ⟨below, hbelow, hclimb⟩ := refold_snoc.mp hmid
    have hd := mem_refoldCombos suf hbelow hclimb
    refine absurd ?_ (hleaf x (List.mem_of_getElem? hx) _ (by simpa using hd))
    simpa using hlabel.symm

/-- Two folds to one label whose positions extend one another stand at the same position, if the
    start of the first is not the label of a combination of the second. -/
theorem refold_meet {a b f g : α} {s t : List (Step α)} (hs : refold combine a s = .ok f)
    (ht : refold combine b t = .ok g) (hfg : label f = label g)
    (hbind : Binds label (refoldCombos combine a s) (refoldCombos combine b t))
    (hfresh : Fresh label (refoldCombos combine b t) a) (hpre : position s <+: position t) :
    position s = position t := by
  suffices key : ∀ (s t u v : List (Step α)) (f g : α), refold combine a s = .ok f →
      refold combine b t = .ok g → label f = label g →
      Binds label (refoldCombos combine a (s ++ u)) (refoldCombos combine b (t ++ v)) →
      Fresh label (refoldCombos combine b (t ++ v)) a → position s <+: position t →
      position s = position t by
    exact key s t [] [] f g hs ht hfg (by simpa using hbind) (by simpa using hfresh) hpre
  intro s
  induction s using List.reverseRecOn with
  | nil =>
    intro t u v f g hf hg hfg _ hfresh _
    cases hf
    rcases List.eq_nil_or_concat t with rfl | ⟨t', step, rfl⟩
    · rfl
    · rw [List.concat_eq_append] at hg hfresh
      obtain ⟨below, hbelow, hclimb⟩ := refold_snoc.mp hg
      have hd := mem_refoldCombos v hbelow hclimb
      refine absurd ?_ (hfresh _ (by simpa using hd))
      simpa using hfg
  | append_singleton s x ih =>
    intro t u v f g hf hg hfg hbind hfresh hpre
    rw [position_snoc] at hpre ⊢
    rcases List.eq_nil_or_concat t with rfl | ⟨t', y, rfl⟩
    · simp [position] at hpre
    · rw [List.concat_eq_append] at hg hbind hfresh hpre ⊢
      rw [position_snoc] at hpre ⊢
      obtain ⟨hside, hpre⟩ := List.cons_prefix_cons.mp hpre
      obtain ⟨m, hm, hclimbm⟩ := refold_snoc.mp hf
      obtain ⟨n, hn, hclimbn⟩ := refold_snoc.mp hg
      have hc := mem_refoldCombos u hm hclimbm
      have hd := mem_refoldCombos v hn hclimbn
      have hparts := hbind _ (by simpa using hc) _ (by simpa using hd) (by simpa using hfg)
      have hmn : label m = label n := by
        unfold comboOf at hparts
        rw [hside] at hparts
        split_ifs at hparts
        · exact hparts.2
        · exact hparts.1
      rw [ih t' (x :: u) (y :: v) m n hm hn hmn (by simpa using hbind) (by simpa using hfresh) hpre,
        hside]

end Binding
end AssuranceLayer.LevelTree
