import Mathlib

set_option autoImplicit false

/-!
Programs that share a store. A step of a program reads the store and changes it at once, and the
steps of any number of programs interleave. What a program ensures is stated against what the others
may do between its steps (its rely), and what its own steps do to them (its guarantee), in the runs
whose steps meet a condition.
-/
namespace AssuranceLayer.Interleaving
variable {σ ε φ α β : Type}

/-! ## Programs -/

inductive Task (σ ε α : Type) where
  | done (a : α)
  | fail (e : ε)
  /-- Changes the store and goes on with what the store was before. -/
  | step (write : σ → σ) (next : σ → Task σ ε α)

namespace Task

def bind : Task σ ε α → (α → Task σ ε β) → Task σ ε β
  | done a, f => f a
  | fail e, _ => fail e
  | step write next, f => step write fun s => (next s).bind f

instance : Monad (Task σ ε) where
  pure := done
  bind := bind

/-- Goes on whatever came of it. -/
def attempt : Task σ ε α → Task σ φ (Except ε α)
  | done a => done (.ok a)
  | fail e => done (.error e)
  | step write next => step write fun s => (next s).attempt

def query (read : σ → α) : Task σ ε α := step id fun s => done (read s)

/-- One step that changes nothing when it fails. -/
def transact (f : σ → Except ε (α × σ)) : Task σ ε α :=
  step (fun s => ((f s).toOption.map Prod.snd).getD s) fun s =>
    match f s with
    | .ok r => done r.1
    | .error e => fail e

def modify (write : σ → σ) : Task σ ε Unit := step write fun _ => done ()

def require (p : Prop) [Decidable p] (e : ε) : Task σ ε Unit := if p then done () else fail e

def given (o : Option α) (e : ε) : Task σ ε α :=
  match o with
  | some a => done a
  | none => fail e

/-- One after the other, up to the first failure. -/
def each (f : β → Task σ ε Unit) : List β → Task σ ε Unit
  | [] => done ()
  | b :: bs => (f b).bind fun _ => each f bs

/-- One after the other, whatever came of each. -/
def serve (f : β → Task σ ε Unit) : List β → Task σ ε Unit :=
  each fun b => (f b).attempt >>= fun _ => pure ()

/-- One after the other, with what came of each. -/
def collect (f : β → Task σ ε α) : List β → Task σ φ (List (β × Except ε α))
  | [] => done []
  | b :: bs => (f b).attempt.bind fun r => (collect f bs).bind fun rs => done ((b, r) :: rs)

/-- What it has come to, if it has ended. -/
def outcome : Task σ ε α → Option (Except ε α)
  | done a => some (.ok a)
  | fail e => some (.error e)
  | step _ _ => none

theorem outcome_eq_ok {t : Task σ ε α} {a : α} : t.outcome = some (.ok a) ↔ t = done a := by
  cases t <;> simp [outcome]

/-- A program that is left alone. -/
def run : Task σ ε α → σ → Except ε α × σ
  | done a, s => (.ok a, s)
  | fail e, s => (.error e, s)
  | step write next, s => (next s).run (write s)

section Alone
variable {s : σ}

theorem run_bind (t : Task σ ε α) (f : α → Task σ ε β) (s : σ) : (t >>= f).run s =
    match t.run s with
    | (.ok a, u) => (f a).run u
    | (.error e, u) => (.error e, u) := by
  change (t.bind f).run s = _
  induction t generalizing s with
  | done a => rfl
  | fail e => rfl
  | step write next ih => exact ih s (write s)

@[simp] theorem run_pure (a : α) : (pure a : Task σ ε α).run s = (.ok a, s) := rfl

@[simp] theorem run_query_bind (read : σ → β) (f : β → Task σ ε α) :
    (query read >>= f).run s = (f (read s)).run s := rfl

@[simp] theorem run_given_some_bind (b : β) (e : ε) (f : β → Task σ ε α) :
    (given (some b) e >>= f).run s = (f b).run s := rfl

theorem run_require_bind {p : Prop} [Decidable p] (hp : p) (e : ε) (f : Unit → Task σ ε α) :
    (require p e >>= f).run s = (f ()).run s := by
  rw [require, if_pos hp]
  rfl

theorem run_transact {f : σ → Except ε (α × σ)} {r : α × σ} (h : f s = .ok r) :
    (transact f).run s = (.ok r.1, r.2) := by
  simp only [transact, run, h]
  rfl

theorem run_attempt (t : Task σ ε α) (s : σ) :
    (t.attempt (φ := φ)).run s = (.ok (t.run s).1, (t.run s).2) := by
  induction t generalizing s with
  | done a => rfl
  | fail e => rfl
  | step write next ih => exact ih s (write s)

theorem run_serve_cons (f : β → Task σ ε Unit) (b : β) (bs : List β) (s : σ) :
    (serve f (b :: bs)).run s = (serve f bs).run ((f b).run s).2 := by
  change (((f b).attempt >>= fun _ => pure ()) >>= fun _ => serve f bs).run s = _
  rw [run_bind, run_bind, run_attempt]
  rfl

end Alone

/-- From this store on, with steps of others that stay within the rely before each of its own, and as
    long as its own meet the condition, every step stays within the guarantee and the outcome is as
    stated. -/
def Ensures (M R G : σ → σ → Prop) (Q : Except ε α → σ → Prop) : Task σ ε α → σ → Prop
  | done a, s => Q (.ok a) s
  | fail e, s => Q (.error e) s
  | step write next, s =>
    ∀ t, R s t → M t (write t) → G t (write t) ∧ (next t).Ensures M R G Q (write t)

section Rules
variable {M R G : σ → σ → Prop} {Q : Except ε α → σ → Prop} {s : σ}

theorem Ensures.mono {Q' : Except ε α → σ → Prop} {t : Task σ ε α} (h : t.Ensures M R G Q s)
    (hQ : ∀ r s, Q r s → Q' r s) : t.Ensures M R G Q' s := by
  induction t generalizing s with
  | done a => exact hQ _ _ h
  | fail e => exact hQ _ _ h
  | step write next ih => exact fun u hu hm => ⟨(h u hu hm).1, ih u (h u hu hm).2⟩

/-- Where every step of anyone stays within a preorder, the whole run does. -/
theorem Ensures.along {S : σ → σ → Prop} [IsPreorder σ S] (hR : ∀ s t, R s t → S s t)
    (hG : ∀ s t, G s t → S s t) {t : Task σ ε α} (h : t.Ensures M R G Q s) :
    t.Ensures M R G (fun r u => S s u ∧ Q r u) s := by
  induction t generalizing s with
  | done a => exact ⟨refl_of S s, h⟩
  | fail e => exact ⟨refl_of S s, h⟩
  | step write next ih =>
    intro u hu hm
    obtain ⟨hstep, hnext⟩ := h u hu hm
    refine ⟨hstep, (ih u hnext).mono fun r v hv => ⟨?_, hv.2⟩⟩
    exact trans_of S (trans_of S (hR s u hu) (hG u _ hstep)) hv.1

theorem Ensures.weaken {G' : σ → σ → Prop} {t : Task σ ε α} (h : t.Ensures M R G Q s)
    (hG : ∀ s t, G s t → G' s t) : t.Ensures M R G' Q s := by
  induction t generalizing s with
  | done a => exact h
  | fail e => exact h
  | step write next ih => exact fun u hu hm => ⟨hG _ _ (h u hu hm).1, ih u (h u hu hm).2⟩

/-- What is ensured is still ensured after the others have done what they may. -/
theorem Ensures.later [IsTrans σ R] {t : Task σ ε α} (h : t.Ensures M R G Q s)
    (hQ : ∀ r s t, R s t → Q r s → Q r t) {u : σ} (hu : R s u) : t.Ensures M R G Q u := by
  cases t with
  | done a => exact hQ _ _ _ hu h
  | fail e => exact hQ _ _ _ hu h
  | step write next => exact fun v hv => h v (trans_of R hu hv)

theorem ensures_pure {a : α} : (pure a : Task σ ε α).Ensures M R G Q s ↔ Q (.ok a) s := Iff.rfl

theorem ensures_bind {P : Except ε β → σ → Prop} {t : Task σ ε α} {f : α → Task σ ε β}
    (h : t.Ensures M R G Q s) (hok : ∀ a s, Q (.ok a) s → (f a).Ensures M R G P s)
    (hfail : ∀ e s, Q (.error e) s → P (.error e) s) : (t >>= f).Ensures M R G P s := by
  change (t.bind f).Ensures M R G P s
  induction t generalizing s with
  | done a => exact hok _ _ h
  | fail e => exact hfail _ _ h
  | step write next ih => exact fun u hu hm => ⟨(h u hu hm).1, ih u (h u hu hm).2⟩

/-- The first steps of a program that starts with a query, a choice or a check. -/
theorem ensures_query_bind {read : σ → β} {f : β → Task σ ε α}
    (h : ∀ t, R s t → G t t ∧ (f (read t)).Ensures M R G Q t) : (query read >>= f).Ensures M R G Q s :=
  fun t ht _ => h t ht

theorem ensures_given_bind {o : Option β} {e : ε} {f : β → Task σ ε α}
    (hok : ∀ b, o = some b → (f b).Ensures M R G Q s) (hfail : o = none → Q (.error e) s) :
    (given o e >>= f).Ensures M R G Q s := by
  cases o with
  | none => exact hfail rfl
  | some b => exact hok b rfl

theorem ensures_require_bind {p : Prop} [Decidable p] {e : ε} {f : Unit → Task σ ε α}
    (hok : p → (f ()).Ensures M R G Q s) (hfail : ¬ p → Q (.error e) s) :
    (require p e >>= f).Ensures M R G Q s := by
  by_cases hp : p
  · rw [require, if_pos hp]
    exact hok hp
  · rw [require, if_neg hp]
    exact hfail hp

theorem ensures_attempt {P : Except φ (Except ε α) → σ → Prop} {t : Task σ ε α}
    (h : t.Ensures M R G (fun r s => P (.ok r) s) s) : (t.attempt (φ := φ)).Ensures M R G P s := by
  induction t generalizing s with
  | done a => exact h
  | fail e => exact h
  | step write next ih => exact fun u hu hm => ⟨(h u hu hm).1, ih u (h u hu hm).2⟩

theorem ensures_modify {write : σ → σ} {Q : Except ε Unit → σ → Prop}
    (h : ∀ t, R s t → M t (write t) → G t (write t) ∧ Q (.ok ()) (write t)) :
    (modify write : Task σ ε Unit).Ensures M R G Q s := h

theorem ensures_transact {f : σ → Except ε (α × σ)}
    (hok : ∀ t r, R s t → f t = .ok r → M t r.2 → G t r.2 ∧ Q (.ok r.1) r.2)
    (hfail : ∀ t e, R s t → f t = .error e → G t t ∧ Q (.error e) t) :
    (transact f).Ensures M R G Q s := by
  intro t ht hm
  cases hf : f t with
  | ok r =>
    simp only [hf] at hm ⊢
    exact hok t r ht hf hm
  | error e =>
    simp only [hf]
    exact hfail t e ht hf

theorem ensures_modify_bind {write : σ → σ} {f : Unit → Task σ ε α}
    (h : ∀ t, R s t → G t (write t) ∧ (f ()).Ensures M R G Q (write t)) :
    (modify write >>= f).Ensures M R G Q s :=
  fun t ht _ => h t ht

theorem ensures_transact_bind {g : σ → Except ε (β × σ)} {f : β → Task σ ε α}
    (hok : ∀ t r, R s t → g t = .ok r → G t r.2 ∧ (f r.1).Ensures M R G Q r.2)
    (hfail : ∀ t e, R s t → g t = .error e → G t t ∧ Q (.error e) t) :
    (transact g >>= f).Ensures M R G Q s := by
  intro t ht _
  cases hg : g t with
  | ok r =>
    simp only [hg]
    exact hok t r ht hg
  | error e =>
    simp only [hg]
    exact hfail t e ht hg

/-- What each run of the loop ensures, and every step of anyone leaves, holds of all of them. -/
theorem ensures_collect {S : σ → σ → Prop} [IsPreorder σ S] (hR : ∀ s t, R s t → S s t)
    (hG : ∀ s t, G s t → S s t) {I : σ → Prop} {P : β → Except ε α → σ → Prop}
    (hP : ∀ b r s t, S s t → P b r s → P b r t) {f : β → Task σ ε α} {l : List β}
    (h : ∀ b ∈ l, ∀ s, I s → (f b).Ensures M R G (fun r t => I t ∧ P b r t) s) (hs : I s) :
    (collect (φ := φ) f l).Ensures M R G
      (fun r t => I t ∧ ∃ results, r = .ok results ∧ ∀ e ∈ results, P e.1 e.2 t) s := by
  induction l generalizing s with
  | nil => exact ⟨hs, [], rfl, fun e he => absurd he (List.not_mem_nil)⟩
  | cons b l ih =>
    obtain ⟨hb, hl⟩ := List.forall_mem_cons.mp h
    refine ensures_bind (Q := fun r t => ∃ out, r = .ok out ∧ I t ∧ P b out t)
      (ensures_attempt ((hb s hs).mono fun r t ht => ⟨r, rfl, ht⟩)) ?_ ?_
    · rintro out t ⟨_, ⟨⟩, hI, hout⟩
      refine ensures_bind ((ih hl hI).along hR hG) ?_ ?_
      · rintro results u ⟨hS, hIu, _, ⟨⟩, hresults⟩
        exact ⟨hIu, _, rfl, List.forall_mem_cons.mpr ⟨hP _ _ _ _ hS hout, hresults⟩⟩
      · rintro e u ⟨_, _, _, herror, _⟩
        cases herror
    · rintro e t ⟨_, herror, _⟩
      cases herror

/-- An invariant of the loop that holds of the store before each pass and of the outcome. -/
theorem ensures_each {f : β → Task σ ε Unit} {l : List β} {Q : Except ε Unit → σ → Prop}
    (h : ∀ b ∈ l, ∀ s, Q (.ok ()) s → (f b).Ensures M R G Q s) (hs : Q (.ok ()) s) :
    (each f l).Ensures M R G Q s := by
  induction l generalizing s with
  | nil => exact hs
  | cons b l ih =>
    obtain ⟨hb, hl⟩ := List.forall_mem_cons.mp h
    exact ensures_bind (hb s hs) (fun _ s hs => ih hl hs) fun _ _ hs => hs

theorem ensures_serve {I : σ → Prop} {f : β → Task σ ε Unit} {l : List β}
    (h : ∀ b ∈ l, ∀ s, I s → (f b).Ensures M R G (fun _ t => I t) s) (hs : I s) :
    (serve f l).Ensures M R G (fun _ t => I t) s :=
  ensures_each (fun b hb s hs => ensures_bind (Q := fun _ t => I t) (ensures_attempt (h b hb s hs))
    (fun _ _ ht => ht) fun _ _ ht => ht) hs

end Rules
end Task

/-! ## Pools of programs -/

structure Config (σ ε α : Type) where
  store : σ
  tasks : ℕ → Task σ ε α

/-- One step of one program. A program that has ended does not step. -/
def Config.advance (c : Config σ ε α) (i : ℕ) : Config σ ε α :=
  match c.tasks i with
  | .step write next => ⟨write c.store, Function.update c.tasks i (next c.store)⟩
  | _ => c

def Config.schedule (c : Config σ ε α) (steps : List ℕ) : Config σ ε α := steps.foldl Config.advance c

/-- What some schedule leads to whose every step meets the condition. -/
inductive Reaches (Meets : ℕ → σ → σ → Prop) (c : Config σ ε α) : Config σ ε α → Prop where
  | refl : Reaches Meets c c
  | step {d : Config σ ε α} (i : ℕ) : Reaches Meets c d → Meets i d.store (d.advance i).store →
      Reaches Meets c (d.advance i)

/-- What one program guarantees is what the others rely on. -/
structure Compatible (R G : ℕ → σ → σ → Prop) : Prop where
  preorder (i : ℕ) : IsPreorder σ (R i)
  others {i j : ℕ} : i ≠ j → ∀ s t, G i s t → R j s t

variable {Meets : ℕ → σ → σ → Prop} {R G : ℕ → σ → σ → Prop} {Q : ℕ → Except ε α → σ → Prop}
  {c d : Config σ ε α}

theorem advance_ensures (hcompatible : Compatible R G)
    (hstable : ∀ i r s t, R i s t → Q i r s → Q i r t) {i : ℕ}
    (hmeets : Meets i c.store (c.advance i).store)
    (h : ∀ j, (c.tasks j).Ensures (Meets j) (R j) (G j) (Q j) c.store) (j : ℕ) :
    ((c.advance i).tasks j).Ensures (Meets j) (R j) (G j) (Q j) (c.advance i).store ∧
      (c.advance i = c ∨ G i c.store (c.advance i).store) := by
  have hpre := hcompatible.preorder i
  cases htask : c.tasks i with
  | done a => simpa only [Config.advance, htask, true_or, and_true] using h j
  | fail e => simpa only [Config.advance, htask, true_or, and_true] using h j
  | step write next =>
    have hi := h i
    rw [htask] at hi
    simp only [Config.advance, htask] at hmeets ⊢
    obtain ⟨hG, hnext⟩ := hi c.store (refl_of (R i) _) hmeets
    refine ⟨?_, .inr hG⟩
    rcases eq_or_ne j i with rfl | hne
    · rwa [Function.update_self]
    · rw [Function.update_of_ne hne]
      have := hcompatible.preorder j
      exact (h j).later (hstable j) (hcompatible.others hne.symm _ _ hG)

/-- What each program ensures on its own against its rely, all of them ensure together. -/
theorem Reaches.ensures (h : Reaches Meets c d) (hcompatible : Compatible R G)
    (hstable : ∀ i r s t, R i s t → Q i r s → Q i r t)
    (hstart : ∀ i, (c.tasks i).Ensures (Meets i) (R i) (G i) (Q i) c.store) (i : ℕ) :
    (d.tasks i).Ensures (Meets i) (R i) (G i) (Q i) d.store := by
  induction h generalizing i with
  | refl => exact hstart i
  | step j _ hmeets ih => exact (advance_ensures hcompatible hstable hmeets ih i).1

/-- What every guarantee keeps holds throughout. -/
theorem Reaches.keeps {I : σ → Prop} (h : Reaches Meets c d) (hcompatible : Compatible R G)
    (hstable : ∀ i r s t, R i s t → Q i r s → Q i r t)
    (hstart : ∀ i, (c.tasks i).Ensures (Meets i) (R i) (G i) (Q i) c.store)
    (hI : ∀ i s t, G i s t → I s → I t) (hc : I c.store) : I d.store := by
  induction h with
  | refl => exact hc
  | step j hreach hmeets ih =>
    have hall := hreach.ensures hcompatible hstable hstart
    rcases (advance_ensures hcompatible hstable hmeets hall 0).2 with hsame | hG
    · rwa [hsame]
    · exact hI _ _ _ hG ih

theorem Reaches.imp {Meets' : ℕ → σ → σ → Prop} (h : Reaches Meets c d)
    (hMeets : ∀ i s t, Meets i s t → Meets' i s t) : Reaches Meets' c d := by
  induction h with
  | refl => exact .refl
  | step i _ hmeets ih => exact .step i ih (hMeets _ _ _ hmeets)

theorem reaches_schedule (c : Config σ ε α) (steps : List ℕ) :
    Reaches (fun _ _ _ => True) c (c.schedule steps) := by
  induction steps using List.reverseRecOn with
  | nil => exact .refl
  | append_singleton steps i ih =>
    rw [Config.schedule, List.foldl_concat]
    exact .step i ih trivial

/-- The steps of the schedule meet the condition. -/
def Config.Meeting (Meets : ℕ → σ → σ → Prop) (c : Config σ ε α) : List ℕ → Prop
  | [] => True
  | i :: steps => Meets i c.store (c.advance i).store ∧ (c.advance i).Meeting Meets steps

instance Config.decidableMeeting {Meets : ℕ → σ → σ → Prop} [∀ i s t, Decidable (Meets i s t)] :
    ∀ (c : Config σ ε α) (steps : List ℕ), Decidable (c.Meeting Meets steps)
  | _, [] => isTrue trivial
  | c, i :: steps =>
    have : Decidable ((c.advance i).Meeting Meets steps) := decidableMeeting (c.advance i) steps
    inferInstanceAs (Decidable (_ ∧ _))

theorem reaches_meeting {steps : List ℕ} (h : c.Meeting Meets steps) : Reaches Meets c (c.schedule steps) := by
  suffices hfrom : ∀ (d : Config σ ε α), Reaches Meets c d → d.Meeting Meets steps →
      Reaches Meets c (d.schedule steps) from hfrom c .refl h
  clear h
  induction steps with
  | nil => exact fun _ hd _ => hd
  | cons i steps ih => exact fun d hd hmeeting => ih _ (.step i hd hmeeting.1) hmeeting.2

/-- A program that is not on the schedule stands where it stood. -/
theorem schedule_tasks {i : ℕ} {steps : List ℕ} (h : i ∉ steps) : (c.schedule steps).tasks i = c.tasks i := by
  induction steps generalizing c with
  | nil => rfl
  | cons j steps ih =>
    obtain ⟨hj, hsteps⟩ := not_or.mp (mt List.mem_cons.mpr h)
    rw [Config.schedule, List.foldl_cons]
    refine (ih hsteps).trans ?_
    unfold Config.advance
    split
    · exact Function.update_of_ne hj _ _
    · rfl

/-- Some schedule leaves one program alone to its end. -/
theorem exists_schedule_run (c : Config σ ε α) (i : ℕ) :
    ∃ steps, (c.schedule steps).store = ((c.tasks i).run c.store).2 := by
  suffices h : ∀ (task : Task σ ε α) (c : Config σ ε α), c.tasks i = task →
      ∃ steps, (c.schedule steps).store = (task.run c.store).2 from h _ c rfl
  intro task
  induction task with
  | done a => exact fun c _ => ⟨[], rfl⟩
  | fail e => exact fun c _ => ⟨[], rfl⟩
  | step write next ih =>
    intro c htask
    have hadvance : c.advance i = ⟨write c.store, Function.update c.tasks i (next c.store)⟩ := by
      rw [Config.advance, htask]
    obtain ⟨steps, hsteps⟩ := ih c.store (c.advance i) (by rw [hadvance]; exact Function.update_self _ _ _)
    refine ⟨i :: steps, ?_⟩
    rw [Config.schedule, List.foldl_cons]
    rw [hadvance] at hsteps ⊢
    exact hsteps

/-! ## Invariants -/

/-- The rely and the guarantee of programs that all keep an invariant. -/
def Preserves (I : σ → Prop) (s t : σ) : Prop := I s → I t

instance (I : σ → Prop) : IsPreorder σ (Preserves I) where
  refl _ h := h
  trans _ _ _ hst htu h := htu (hst h)

/-- Programs that each keep an invariant, when all of them do, keep it together. -/
theorem Reaches.invariant {I : σ → Prop} (h : Reaches Meets c d)
    (hstable : ∀ i r s t, Preserves I s t → Q i r s → Q i r t)
    (hstart : ∀ i, (c.tasks i).Ensures (Meets i) (Preserves I) (Preserves I) (Q i) c.store)
    (hc : I c.store) : I d.store := by
  have hcompatible : Compatible (fun _ => Preserves I) fun _ => Preserves I :=
    ⟨fun _ => inferInstance, fun _ _ _ hG => hG⟩
  exact h.keeps hcompatible hstable hstart (fun _ _ _ hG => hG) hc

end AssuranceLayer.Interleaving
