/-
# Programs that have begun

What a program has performed so far, and what is left of it.

* `Begun R p s t q s'`: `p` has performed `t`, and `q` is left;
* `Begun.exec`: what is left, executed to its end, completes the execution;
* `Begun.invariant`: what every operation keeps holds wherever the program stands;
* `Begun.obeys`: what is left obeys the discipline from the phase that has been reached;
* `exec_unchanged`: a program can be executed without a change where every operation may
  leave the state alone;
* `Prog.runFor`: the first operations of a program, as a function of a stream of choices.

Nothing here names the server.
-/
import MessageServer.Interleaving

/-- `p` has performed `t` between the states `s` and `s'`, and `q` is left of it. -/
inductive Begun {E : Effects} {S α : Type} (R : S → (o : E.Op) → E.Ans o → S → Prop)
    (p : Prog E α) (s : S) :
    List E.Event → Prog E α → S → Prop
  | nil : Begun R p s [] p s
  | snoc {t : List E.Event} {o : E.Op} {k : E.Ans o → Prog E α} {x : E.Ans o} {s' s'' : S} :
      Begun R p s t (.call o k) s' → R s' o x s'' → Begun R p s (t ++ [⟨o, x⟩]) (k x) s''

section Begun

variable {E : Effects} {S α Ph : Type} {R : S → (o : E.Op) → E.Ans o → S → Prop}
  {p q : Prog E α} {s s' s'' : S}
  {t t' : List E.Event} {a : α}

/-- The rest completes what has begun. -/
theorem Begun.exec (h : Begun R p s t q s') (hrest : Exec R q s' t' a s'') :
    Exec R p s (t ++ t') a s'' := by
  induction h generalizing t' with
  | nil => exact hrest
  | snoc _ hR ih =>
      rw [List.append_assoc]
      exact ih (Exec.call hR hrest)

/-- A program of which nothing is left has been executed. -/
theorem Begun.finished (h : Begun R p s t (.ret a) s') : Exec R p s t a s' := by
  have hexec := h.exec (Exec.ret a s')
  rwa [List.append_nil] at hexec

/-- What every operation keeps. -/
theorem Begun.invariant {I : S → Prop} (h : Begun R p s t q s') (hs : I s)
    (hstep : ∀ s o x s', R s o x s' → I s → I s') : I s' := by
  induction h with
  | nil => exact hs
  | snoc _ hR ih => exact hstep _ _ _ _ hR ih

/-- **The invariant rule** for a program that has begun. -/
theorem Begun.obeys {D : Discipline E Ph} {I : S → Ph → Prop}
    (hstep : ∀ s ph o x s', I s ph → D.allowed ph o → R s o x s' → D.possible ph o x ∧
        I s' (D.next ph o x))
    {Q : Ph → α → Prop} {ph : Ph} (h : Begun R p s t q s') (hp : p.Obeys D Q ph)
    (hI : I s ph) :
    ∃ ph', I s' ph' ∧ q.Obeys D Q ph' := by
  induction h with
  | nil => exact ⟨ph, hI, hp⟩
  | snoc _ hR ih =>
      obtain ⟨ph₁, hI₁, hallowed, hrest⟩ := ih
      obtain ⟨hposs, hI'⟩ := hstep _ _ _ _ _ hI₁ hallowed hR
      exact ⟨_, hI', hrest _ hposs⟩

/-- A program is executed without a change where every operation may leave the state alone. -/
theorem exec_unchanged (hstill : ∀ o, ∃ x, R s o x s) (p : Prog E α) :
    ∃ t a, Exec R p s t a s := by
  induction p with
  | ret a => exact ⟨[], a, Exec.ret a s⟩
  | call o k ih =>
      obtain ⟨x, hx⟩ := hstill o
      obtain ⟨t, a, hrest⟩ := ih x
      exact ⟨_, a, Exec.call hx hrest⟩

/-- What holds of every step holds of every event. -/
theorem Exec.forall_events {P : E.Event → Prop} (h : Exec R p s t a s')
    (hP : ∀ s o x s', R s o x s' → P ⟨o, x⟩) :
    ∀ e ∈ t, P e := by
  induction h with
  | ret a s => exact fun e he => absurd he List.not_mem_nil
  | call hR _ ih =>
      intro e he
      rcases List.mem_cons.mp he with rfl | he
      · exact hP _ _ _ _ hR
      · exact ih e he

/-- One operation more at the start. -/
theorem Begun.cons {o : E.Op} {k : E.Ans o → Prog E α} {x : E.Ans o} (hR : R s o x s')
    (h : Begun R (k x) s' t q s'') : Begun R (.call o k) s (⟨o, x⟩ :: t) q s'' := by
  induction h with
  | nil => exact Begun.nil.snoc hR
  | snoc _ hstep ih => exact ih.snoc hstep

end Begun

/-- The first operations of a program on a stream of choices: the trace, what is left of the
program, and the state. -/
def Prog.runFor {E : Effects} {S α Γ : Type} (h : Γ → (o : E.Op) → S → E.Ans o × S) :
    ℕ → (ℕ → Γ) → Prog E α → S → List E.Event × Prog E α × S
  | 0, _, p, s => ([], p, s)
  | _ + 1, _, .ret a, s => ([], .ret a, s)
  | n + 1, env, .call o k, s =>
      let r := h (env 0) o s
      let rest := runFor h n (fun n => env (n + 1)) (k r.1) r.2
      (⟨o, r.1⟩ :: rest.1, rest.2)

theorem begun_runFor {E : Effects} {S α Γ : Type} {h : Γ → (o : E.Op) → S → E.Ans o × S}
    {R : S → (o : E.Op) → E.Ans o → S → Prop}
    (hR : ∀ c o s, R s o (h c o s).1 (h c o s).2) (n : ℕ) (env : ℕ → Γ)
    (p : Prog E α) (s : S) :
    Begun R p s (p.runFor h n env s).1 (p.runFor h n env s).2.1 (p.runFor h n env s).2.2 := by
  induction n generalizing env p s with
  | zero => exact Begun.nil
  | succ n ih =>
      cases p with
      | ret a => exact Begun.nil
      | call o k => exact Begun.cons (hR _ _ _) (ih _ _ _)
