/-
# Labelled transition systems

A step relation `R s a s'` says that the label `a` may lead from `s` to `s'`.

* `Run R s t s'`: the labels `t`, in this order, lead from `s` to `s'`;
* `Run.invariant`: what holds at the start and is kept by every step holds after
  every run;
* `forall_split_snoc`: one more label in a statement on labels and their past;
* `run_of_foldlM`: a computed run of a partial step function is a run.

Nothing here names the server.
-/
import Mathlib.Data.List.Basic
import Mathlib.Tactic.Cases

/-- From `s` the labels `t` lead to `s'`. -/
inductive Run {S A : Type} (R : S → A → S → Prop) (s : S) : List A → S → Prop
  | nil : Run R s [] s
  | snoc {t : List A} {s' s'' : S} {a : A} :
      Run R s t s' → R s' a s'' → Run R s (t ++ [a]) s''

/-- What holds of every label and those before it, when there is one more label. -/
theorem forall_split_snoc {α : Type} {l : List α} {b : α} {P : List α → α → Prop} :
    (∀ before a after, l ++ [b] = before ++ a :: after → P before a) ↔
      (∀ before a after, l = before ++ a :: after → P before a) ∧ P l b := by
  constructor
  · intro h
    refine ⟨fun before a after heq => h before a (after ++ [b]) ?_, h l b [] rfl⟩
    rw [heq, List.append_assoc]
    rfl
  · rintro ⟨h, hlast⟩ before a after heq
    rcases List.eq_nil_or_concat after with rfl | ⟨after', c, rfl⟩
    · obtain ⟨rfl, hb⟩ := List.append_inj' heq rfl
      rwa [← List.singleton_inj.mp hb]
    · have hsplit : l ++ [b] = (before ++ a :: after') ++ [c] := by
        rw [heq, List.append_assoc, List.concat_eq_append]
        rfl
      exact h before a after' (List.append_inj' hsplit rfl).1

section Runs

variable {S A : Type} {R R' : S → A → S → Prop} {s s' s'' : S} {t t' : List A}

/-- **The invariant rule.**  The invariant may speak about the labels so far. -/
theorem Run.invariant {I : List A → S → Prop} (h : Run R s t s') (h0 : I [] s)
    (hstep : ∀ t s' a s'', I t s' → R s' a s'' → I (t ++ [a]) s'') : I t s' := by
  induction h with
  | nil => exact h0
  | snoc _ hR ih => exact hstep _ _ _ _ ih hR

/-- A run under a stronger step relation is a run under a weaker one. -/
theorem Run.mono (h : Run R s t s') (hR : ∀ s a s', R s a s' → R' s a s') : Run R' s t s' := by
  induction h with
  | nil => exact Run.nil
  | snoc _ hstep ih => exact ih.snoc (hR _ _ _ hstep)

/-- A run under an invariant is a run of the steps that the invariant lets through. -/
theorem Run.under {I : S → Prop} (h : Run R s t s') (h0 : I s)
    (hstep : ∀ s a s', I s → R s a s' → R' s a s' ∧ I s') : Run R' s t s' := by
  have hboth : Run R' s t s' ∧ I s' := by
    induction h with
    | nil => exact ⟨Run.nil, h0⟩
    | snoc _ hR ih =>
        obtain ⟨hR', hI⟩ := hstep _ _ _ ih.2 hR
        exact ⟨ih.1.snoc hR', hI⟩
  exact hboth.1

/-- Runs compose. -/
theorem Run.append (h : Run R s t s') (h' : Run R s' t' s'') : Run R s (t ++ t') s'' := by
  induction h' with
  | nil =>
      rw [List.append_nil]
      exact h
  | snoc _ hR ih =>
      rw [← List.append_assoc]
      exact ih.snoc hR

/-- One step is a run. -/
theorem Run.single {a : A} (h : R s a s') : Run R s [a] s' := Run.nil.snoc h

/-- The last label of a run. -/
theorem Run.snoc_inv {a : A} (h : Run R s (t ++ [a]) s') : ∃ m, Run R s t m ∧ R m a s' := by
  generalize ht : t ++ [a] = t' at h
  cases h with
  | nil => simp at ht
  | snoc hrun hstep =>
      obtain ⟨rfl, ha⟩ := List.append_inj' ht rfl
      obtain rfl := List.singleton_inj.mp ha
      exact ⟨_, hrun, hstep⟩

/-- A run by the names of its labels. -/
theorem Run.map {B : Type} {R : S → B → S → Prop} {f : A → B}
    (h : Run (fun s a s' => R s (f a) s') s t s') : Run R s (t.map f) s' := by
  induction h with
  | nil => exact Run.nil
  | snoc _ hstep ih =>
      rw [List.map_append]
      exact ih.snoc hstep

/-- What all labels of a run have, its steps have. -/
theorem Run.labels {P : A → Prop} (h : Run R s t s') (hP : ∀ a ∈ t, P a) :
    Run (fun s a s' => R s a s' ∧ P a) s t s' := by
  induction h with
  | nil => exact Run.nil
  | snoc _ hstep ih =>
      apply (ih fun a ha => hP a (List.mem_append_left _ ha)).snoc
      exact ⟨hstep, hP _ (by simp)⟩

/-- What holds wherever the run can stand before one of its labels holds at its own steps. -/
theorem Run.with_steps {P : S → A → Prop} (h : Run R s t s')
    (hP : ∀ t₁ a t₂ s₁ s₂, t = t₁ ++ a :: t₂ → Run R s t₁ s₁ →
        R s₁ a s₂ → Run R s₂ t₂ s' →
      P s₁ a) : Run (fun s a s' => R s a s' ∧ P s a) s t s' := by
  induction h with
  | nil => exact Run.nil
  | @snoc t s₁ s₂ a hrun hR ih =>
      have hlast : P s₁ a := hP t a [] s₁ s₂ rfl hrun hR Run.nil
      refine (ih fun t₁ b t₂ r₁ r₂ heq h₁ hb h₂ => ?_).snoc ⟨hR, hlast⟩
      refine hP t₁ b (t₂ ++ [a]) r₁ r₂ ?_ h₁ hb (h₂.snoc hR)
      rw [heq, List.append_assoc, List.cons_append]

/-- A run of a partial step function, computed label by label. -/
theorem run_of_foldlM {step : S → A → Option S} (h : t.foldlM step s = some s') :
    Run (fun s a s' => step s a = some s') s t s' := by
  induction t generalizing s with
  | nil =>
      obtain rfl : s = s' := by simpa using h
      exact Run.nil
  | cons a t ih =>
      rw [List.foldlM_cons] at h
      obtain ⟨s₁, h₁, hrest⟩ := Option.bind_eq_some_iff.mp h
      exact (Run.single h₁).append (ih hrest)

end Runs
