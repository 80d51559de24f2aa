import Mathlib.Tactic.Common
/-!
# Machine — runs of a step function, and runs under a condition

A program among its environment is a partial step function: an action is the next step of one of its threads or of the
environment, and `none` says that the action cannot happen in the state.  A run is a list of actions (`run`).  What
every step keeps, every run keeps (`run_inv`).  `restrict ok` is the machine whose steps all meet `ok`; its runs are
runs of the machine itself.  Where a step that misses a condition is the one way to lose a property for good, a run has
the property at its end exactly when all its steps meet the condition (`restrict_and_iff`).  `Along` is a property of
every step of a run, read at the states around it.  `Exact` says of a condition that the runs that meet it have a
property, and that a step that misses it can cost the property; `Inevitably` that all runs come to a state of a kind.
`Reach` is for runs that are put together from parts.  What a machine reaches or comes to, a machine does that has it as a
part (`Reach.embed`, `Inevitably.embed`).
-/
namespace CLib

variable {σ α : Type}

def run (step : σ → α → Option σ) : List α → σ → Option σ
  | [], s => some s
  | a :: as, s =>
    match step s a with
    | some s' => run step as s'
    | none => none

theorem run_append {step : σ → α → Option σ} {bs : List α} {t : σ} : ∀ (as : List α) (s : σ),
    run step as s = some t → run step (as ++ bs) s = run step bs t
  | [], s, h => by
    cases h
    rfl
  | a :: as, s, h => by
    cases h₁ : step s a with
    | none =>
      simp only [run, h₁] at h
      cases h
    | some s₁ =>
      simp only [run, h₁, List.cons_append] at h ⊢
      exact run_append as s₁ h

/-- One step more. -/
theorem run_snoc {step : σ → α → Option σ} {as : List α} {s t t' : σ} {a : α} (h : run step as s = some t)
    (ha : step t a = some t') : run step (as ++ [a]) s = some t' := by
  rw [run_append as s h]
  unfold run
  rw [ha]
  rfl

/-- The steps of a machine that meet a condition on the state before them and on the action. -/
def restrict (ok : σ → α → Bool) (step : σ → α → Option σ) (s : σ) (a : α) : Option σ :=
  if ok s a then step s a else none

theorem restrict_some {ok : σ → α → Bool} {step : σ → α → Option σ} {s s' : σ} {a : α}
    (h : restrict ok step s a = some s') : ok s a = true ∧ step s a = some s' := by
  unfold restrict at h
  split at h
  · rename_i hok
    exact ⟨hok, h⟩
  · cases h

theorem restrict_and (ok good : σ → α → Bool) (step : σ → α → Option σ) (s : σ) (a : α) :
    restrict (fun s a => ok s a && good s a) step s a = if good s a then restrict ok step s a else none := by
  unfold restrict
  by_cases hg : good s a = true
  · simp [hg]
  · simp [hg]

/-- **The invariant rule.** -/
theorem run_inv {step : σ → α → Option σ} (Inv : σ → Prop) (hstep : ∀ s a s', Inv s → step s a = some s' → Inv s') :
    ∀ (as : List α) (s s' : σ), Inv s → run step as s = some s' → Inv s'
  | [], s, s', hs, h => by
    cases h
    exact hs
  | a :: as, s, s', hs, h => by
    unfold run at h
    split at h
    · rename_i s₁ h₁
      exact run_inv Inv hstep as s₁ s' (hstep s a s₁ hs h₁) h
    · cases h

/-- The invariant rule for what holds of a run and of the state that it leads to. -/
theorem run_hist {step : σ → α → Option σ} {s₀ : σ} (Inv : List α → σ → Prop) (hinit : Inv [] s₀)
    (hstep : ∀ as s a s', run step as s₀ = some s → Inv as s → step s a = some s' → Inv (as ++ [a]) s')
    (as : List α) (s : σ) (h : run step as s₀ = some s) : Inv as s := by
  have hfrom : ∀ (bs as : List α) (s t : σ), run step as s₀ = some s → Inv as s → run step bs s = some t →
      Inv (as ++ bs) t := by
    intro bs
    induction bs with
    | nil =>
      intro as s t _ hi ht
      cases ht
      rwa [List.append_nil]
    | cons b bs ih =>
      intro as s t hs hi ht
      unfold run at ht
      split at ht
      · rename_i s₁ h₁
        rw [List.append_cons]
        exact ih (as ++ [b]) s₁ t (run_snoc hs h₁) (hstep as s b s₁ hs hi h₁) ht
      · cases ht
  exact hfrom as [] s₀ s rfl hinit h

/-- The invariant rule under a condition on the steps. -/
theorem restrict_inv {ok : σ → α → Bool} {step : σ → α → Option σ} (Inv : σ → Prop)
    (hstep : ∀ s a s', Inv s → ok s a = true → step s a = some s' → Inv s') (as : List α) (s s' : σ) (hs : Inv s)
    (h : run (restrict ok step) as s = some s') : Inv s' :=
  run_inv Inv (fun s a s' hi h => hstep s a s' hi (restrict_some h).1 (restrict_some h).2) as s s' hs h

/-- **A run keeps a property exactly when all its steps meet the condition under which a step keeps it**, where the
property is lost for good. -/
theorem restrict_iff {good : σ → α → Bool} {step : σ → α → Option σ} {Inv P : σ → Prop}
    (hinv : ∀ s a s', Inv s → step s a = some s' → Inv s')
    (hstep : ∀ s a s', Inv s → P s → step s a = some s' → (P s' ↔ good s a = true))
    (hlost : ∀ s a s', Inv s → ¬ P s → step s a = some s' → ¬ P s') :
    ∀ (as : List α) (s s' : σ), Inv s → P s → run step as s = some s' →
      (P s' ↔ run (restrict good step) as s = some s')
  | [], s, s', _, hp, h => by
    cases h
    exact ⟨fun _ => rfl, fun _ => hp⟩
  | a :: as, s, s', hi, hp, h => by
    unfold run at h ⊢
    split at h
    · rename_i s₁ hs
      have hiff := hstep s a s₁ hi hp hs
      unfold restrict
      by_cases hg : good s a = true
      · rw [if_pos hg, hs]
        exact restrict_iff hinv hstep hlost as s₁ s' (hinv s a s₁ hi hs) (hiff.2 hg) h
      · rw [if_neg hg]
        have hend : Inv s' ∧ ¬ P s' := run_inv (fun s => Inv s ∧ ¬ P s)
          (fun s a s' hs h => ⟨hinv s a s' hs.1 h, hlost s a s' hs.1 hs.2 h⟩) as s₁ s'
          ⟨hinv s a s₁ hi hs, fun hp' => hg (hiff.1 hp')⟩ h
        exact ⟨fun hp' => absurd hp' hend.2, fun hr => (by cases hr)⟩
    · cases h

/-- The same for the runs whose steps meet another condition already. -/
theorem restrict_and_iff {ok good : σ → α → Bool} {step : σ → α → Option σ} {Inv P : σ → Prop}
    (hinv : ∀ s a s', Inv s → ok s a = true → step s a = some s' → Inv s')
    (hstep : ∀ s a s', Inv s → P s → ok s a = true → step s a = some s' → (P s' ↔ good s a = true))
    (hlost : ∀ s a s', ¬ P s → step s a = some s' → ¬ P s') (as : List α) (s s' : σ) (hi : Inv s) (hp : P s)
    (h : run (restrict ok step) as s = some s') :
    P s' ↔ run (restrict (fun s a => ok s a && good s a) step) as s = some s' := by
  have hboth : restrict (fun s a => ok s a && good s a) step = restrict good (restrict ok step) :=
    funext (fun s => funext (restrict_and ok good step s))
  rw [hboth]
  exact restrict_iff (fun s a s' hi h => hinv s a s' hi (restrict_some h).1 (restrict_some h).2)
    (fun s a s' hi hp h => hstep s a s' hi hp (restrict_some h).1 (restrict_some h).2)
    (fun s a s' _ hp h => hlost s a s' hp (restrict_some h).2) as s s' hi hp h

/-- Every step of a run has the property, as far as the run goes. -/
def Along (step : σ → α → Option σ) (P : σ → α → σ → Prop) : List α → σ → Prop
  | [], _ => True
  | a :: as, s => ∀ s', step s a = some s' → P s a s' ∧ Along step P as s'

/-- Two properties of steps hold along the same runs where they agree on a step from a state of the invariant, and a
step that has them keeps the invariant. -/
theorem along_iff {step : σ → α → Option σ} {P Q : σ → α → σ → Prop} {Inv : σ → Prop}
    (hinv : ∀ s a s', Inv s → step s a = some s' → P s a s' → Inv s')
    (hstep : ∀ s a s', Inv s → step s a = some s' → (P s a s' ↔ Q s a s')) :
    ∀ (as : List α) (s : σ), Inv s → (Along step P as s ↔ Along step Q as s)
  | [], _, _ => Iff.rfl
  | a :: as, s, hs => by
    constructor
    · intro h s' hs'
      obtain ⟨hp, hrest⟩ := h s' hs'
      exact ⟨(hstep s a s' hs hs').1 hp, (along_iff hinv hstep as s' (hinv s a s' hs hs' hp)).1 hrest⟩
    · intro h s' hs'
      obtain ⟨hq, hrest⟩ := h s' hs'
      have hp := (hstep s a s' hs hs').2 hq
      exact ⟨hp, (along_iff hinv hstep as s' (hinv s a s' hs hs' hp)).2 hrest⟩

theorem Along.last {step : σ → α → Option σ} {P : σ → α → σ → Prop} {a : α} {t t' : σ} (ht : step t a = some t') :
    ∀ (as : List α) (s : σ), Along step P (as ++ [a]) s → run step as s = some t → P t a t'
  | [], s, h, hr => by
    cases hr
    exact (h t' ht).1
  | b :: as, s, h, hr => by
    unfold run at hr
    split at hr
    · rename_i s₁ h₁
      exact Along.last ht as s₁ (h s₁ h₁).2 hr
    · cases hr

/-- All the runs from a state come to one with the property, and none of them is stuck before. -/
inductive Inevitably (step : σ → α → Option σ) (Q : σ → Prop) : σ → Prop where
  | now {s : σ} : Q s → Inevitably step Q s
  | later {s : σ} : (∃ a s', step s a = some s') → (∀ a s', step s a = some s' → Inevitably step Q s') →
      Inevitably step Q s

/-- **The rule of a measure** that every step decreases until the property holds. -/
theorem inevitably_of_measure {step : σ → α → Option σ} {Q Inv : σ → Prop} (measure : σ → Nat)
    (hlive : ∀ s, Inv s → ¬ Q s → ∃ a s', step s a = some s')
    (hstep : ∀ s a s', Inv s → ¬ Q s → step s a = some s' → Q s' ∨ (Inv s' ∧ measure s' < measure s)) (s : σ)
    (hs : Inv s) : Inevitably step Q s := by
  induction hn : measure s using Nat.strongRecOn generalizing s with
  | ind n ih =>
    by_cases hq : Q s
    · exact .now hq
    · refine .later (hlive s hs hq) (fun a s' h => ?_)
      rcases hstep s a s' hs hq h with hq' | ⟨hi, hlt⟩
      · exact .now hq'
      · exact ih (measure s') (hn ▸ hlt) s' hi rfl

/-- Two properties that all runs come to, and at which they end, hold of one state. -/
theorem Inevitably.meet {step : σ → α → Option σ} {P Q : σ → Prop} {s : σ} (hp : Inevitably step P s)
    (hq : Inevitably step Q s) (hendP : ∀ s, P s → ∀ a, step s a = none) (hendQ : ∀ s, Q s → ∀ a, step s a = none) :
    ∃ t, P t ∧ Q t := by
  induction hp with
  | now h =>
    rename_i s
    cases hq with
    | now h' => exact ⟨s, h, h'⟩
    | later hlive _ =>
      obtain ⟨a, s', hs⟩ := hlive
      cases hs.symm.trans (hendP s h a)
  | later hlive hnext ih =>
    rename_i s
    obtain ⟨a, s', hs⟩ := hlive
    cases hq with
    | now h' => cases hs.symm.trans (hendQ s h' a)
    | later _ hnext' => exact ih a s' hs (hnext' a s' hs)

/-- Some run goes from one state to the other. -/
def Reach (step : σ → α → Option σ) (s t : σ) : Prop := ∃ as, run step as s = some t

namespace Reach

variable {step : σ → α → Option σ}

theorem refl (s : σ) : Reach step s s := ⟨[], rfl⟩

theorem of_step {s t : σ} {a : α} (h : step s a = some t) : Reach step s t :=
  ⟨[a], by
    unfold run
    rw [h]
    rfl⟩

theorem trans {s t u : σ} : Reach step s t → Reach step t u → Reach step s u := by
  rintro ⟨as, h⟩ ⟨bs, hb⟩
  exact ⟨as ++ bs, (run_append as s h).trans hb⟩

/-- What is reached under a condition. -/
theorem of_restrict {ok : σ → α → Bool} {s t : σ} : Reach (restrict ok step) s t → Reach step s t := by
  rintro ⟨as, h⟩
  exact run_inv (Reach step s) (fun _ _ _ hr hs => hr.trans (of_step (restrict_some hs).2)) as s t (refl s) h

end Reach

/-- What a machine reaches, another machine reaches that has its steps among its own. -/
theorem Reach.embed {τ : Type} {step : σ → α → Option σ} {step' : τ → α → Option τ} (f : σ → τ)
    (hstep : ∀ s a s', step s a = some s' → step' (f s) a = some (f s')) {s t : σ} :
    Reach step s t → Reach step' (f s) (f t) := by
  rintro ⟨as, h⟩
  exact run_inv (fun t => Reach step' (f s) (f t))
    (fun _ a _ hr hs => hr.trans (Reach.of_step (hstep _ a _ hs))) as s t (Reach.refl _) h

/-- What a machine comes to, another machine comes to that has no other steps there. -/
theorem Inevitably.embed {τ : Type} {step : σ → α → Option σ} {step' : τ → α → Option τ} {Q : σ → Prop} {Q' : τ → Prop}
    (f : σ → τ) (hstep : ∀ s a, step' (f s) a = (step s a).map f) (hQ : ∀ s, Q s → Q' (f s)) {s : σ}
    (h : Inevitably step Q s) : Inevitably step' Q' (f s) := by
  induction h with
  | now hq => exact .now (hQ _ hq)
  | later hlive _ ih =>
    obtain ⟨a, s', hs⟩ := hlive
    refine .later ⟨a, f s', by rw [hstep, hs]; rfl⟩ (fun a t ht => ?_)
    rw [hstep] at ht
    obtain ⟨s', hs', rfl⟩ := Option.map_eq_some_iff.1 ht
    exact ih a s' hs'

/-- Where the property ends a run, what is reached can go on to it. -/
theorem Inevitably.of_reach {step : σ → α → Option σ} {Q : σ → Prop} {s t : σ} (h : Inevitably step Q s)
    (hend : ∀ s, Q s → ∀ a, step s a = none) : Reach step s t → Inevitably step Q t := by
  rintro ⟨as, hrun⟩
  refine run_inv (Inevitably step Q) (fun s a s' hi hs => ?_) as s t h hrun
  cases hi with
  | now hq => cases hs.symm.trans (hend s hq a)
  | later _ hnext => exact hnext a s' hs

theorem Inevitably.of_stuck {step : σ → α → Option σ} {Q : σ → Prop} {s : σ} (h : Inevitably step Q s)
    (hstuck : ∀ a, step s a = none) : Q s := by
  cases h with
  | now hq => exact hq
  | later hlive _ =>
    obtain ⟨a, s', hs⟩ := hlive
    cases hs.symm.trans (hstuck a)

/-- The runs whose steps all meet a condition have the property at their ends, and from where a step has missed it some
run comes to a state without. -/
structure Exact (ok : σ → α → Bool) (step : σ → α → Option σ) (P : σ → Prop) (s₀ : σ) : Prop where
  safe : ∀ as s, run (restrict ok step) as s₀ = some s → P s
  doomed : ∀ as s a s', run (restrict ok step) as s₀ = some s → step s a = some s' → ok s a = false →
    ∃ t, Reach step s' t ∧ ¬ P t

/-- The rule of an invariant of the steps that meet the condition. -/
theorem exact_of_inv {ok : σ → α → Bool} {step : σ → α → Option σ} {P : σ → Prop} {s₀ : σ} (Inv : σ → Prop)
    (hinit : Inv s₀) (hstep : ∀ s a s', Inv s → ok s a = true → step s a = some s' → Inv s')
    (hsafe : ∀ s, Inv s → P s)
    (hdoomed : ∀ s a s', Inv s → step s a = some s' → ok s a = false → ∃ t, Reach step s' t ∧ ¬ P t) :
    Exact ok step P s₀ where
  safe := fun as s h => hsafe s (restrict_inv Inv hstep as s₀ s hinit h)
  doomed := fun as s a s' h hs ha => hdoomed s a s' (restrict_inv Inv hstep as s₀ s hinit h) hs ha

end CLib
