/-
# Interleavings

Any number of programs on one shared state, each operation an atomic step.

* `Interleave R`: the threads take their steps in any order;
* `Interleave.invariant`: what every allowed step keeps holds after every interleaving;
* `Interleave.simulate`: an interleaving on one state is one on another that it refines;
* `Interleave.restrict`: what holds of the history may be asked of the steps;
* `threadEvents`: what one thread did;
* `schedule`: the interleaving that a list of turns gives.

Nothing here names the server.
-/
import MessageServer.EffectProg
import MessageServer.Transition

/-- `Interleave R s ps t s' ps'`: programs `ps`, one for each thread, run on one
shared state.  At every step some thread performs the first operation of what is
left of its program; `t` is the history, `ps'` what is left. -/
inductive Interleave {E : Effects} {S ι α : Type} [DecidableEq ι]
    (R : S → (o : E.Op) → E.Ans o → S → Prop) (s : S) (ps : ι → Prog E α) :
    List (ι × E.Event) → S → (ι → Prog E α) → Prop
  | nil : Interleave R s ps [] s ps
  | snoc {t : List (ι × E.Event)} {s' s'' : S} {ps' : ι → Prog E α} {i : ι} {o : E.Op}
      {k : E.Ans o → Prog E α} {x : E.Ans o} :
      Interleave R s ps t s' ps' → ps' i = .call o k → R s' o x s'' →
      Interleave R s ps (t ++ [(i, ⟨o, x⟩)]) s'' (Function.update ps' i (k x))

/-- The value for one thread after it has changed for thread `i`. -/
theorem update_eq_iff {ι α : Type} [DecidableEq ι] {f : ι → α} {i j : ι} {a b : α} :
    Function.update f i a j = b ↔ (j = i ∧ a = b) ∨ (j ≠ i ∧ f j = b) := by
  by_cases hj : j = i
  · subst hj
    simp
  · simp [hj]

/-- A thread that has taken an allowed step goes on as the discipline says. -/
theorem obeys_update {E : Effects} {ι α Ph : Type} [DecidableEq ι] {D : ι → Discipline E Ph}
    {Q : Ph → α → Prop} {ps : ι → Prog E α} {phs : ι → Ph} {i : ι} {o : E.Op}
    {k : E.Ans o → Prog E α}
    {x : E.Ans o} (hps : ∀ j, (ps j).Obeys (D j) Q (phs j)) (hi : ps i = .call o k) :
    (D i).allowed (phs i) o ∧ ((D i).possible (phs i) o x → ∀ j,
      (Function.update ps i (k x) j).Obeys (D j) Q
        (Function.update phs i ((D i).next (phs i) o x) j)) := by
  have hcall : (Prog.call o k).Obeys (D i) Q (phs i) := hi ▸ hps i
  refine ⟨hcall.1, fun hposs j => ?_⟩
  by_cases hj : j = i
  · subst hj
    rw [Function.update_self, Function.update_self]
    exact hcall.2 x hposs
  · rw [Function.update_of_ne hj, Function.update_of_ne hj]
    exact hps j

/-- **The invariant rule for interleavings.**  Each thread obeys its discipline from its
own phase; an invariant of the history, the shared state and the phases of all threads
that every allowed step keeps holds after every interleaving. -/
theorem Interleave.invariant {E : Effects} {S ι α Ph : Type} [DecidableEq ι]
    {R : S → (o : E.Op) → E.Ans o → S → Prop} {D : ι → Discipline E Ph}
    {Q : Ph → α → Prop}
    {I : List (ι × E.Event) → S → (ι → Ph) → Prop}
    (hstep : ∀ t s phs i o x s', I t s phs → (D i).allowed (phs i) o → R s o x s' →
      (D i).possible (phs i) o x ∧
        I (t ++ [(i, ⟨o, x⟩)]) s' (Function.update phs i ((D i).next (phs i) o x)))
    {s s' : S} {ps ps' : ι → Prog E α} {t : List (ι × E.Event)} {phs : ι → Ph}
    (h : Interleave R s ps t s' ps') (hps : ∀ i, (ps i).Obeys (D i) Q (phs i))
    (h0 : I [] s phs) :
    ∃ phs', I t s' phs' ∧ ∀ i, (ps' i).Obeys (D i) Q (phs' i) := by
  induction h with
  | nil => exact ⟨phs, h0, hps⟩
  | @snoc t s₁ s₂ ps₁ i o k x _ hi hR ih =>
      obtain ⟨phs₁, hI, hobey⟩ := ih
      obtain ⟨hallowed, hrest⟩ := obeys_update (x := x) hobey hi
      obtain ⟨hposs, hI'⟩ := hstep _ _ _ _ _ _ _ hI hallowed hR
      exact ⟨_, hI', hrest hposs⟩

/-- **Forward simulation of interleavings.**  If every allowed operation gets an expected
answer and is matched by one with the same answer on the second state, so is every
interleaving of obedient programs. -/
theorem Interleave.simulate {E : Effects} {S₁ S₂ ι α Ph : Type} [DecidableEq ι]
    {R₁ : S₁ → (o : E.Op) → E.Ans o → S₁ → Prop}
    {R₂ : S₂ → (o : E.Op) → E.Ans o → S₂ → Prop}
    {D : ι → Discipline E Ph} {Q : Ph → α → Prop} {B : S₁ → S₂ → Prop}
    (hstep : ∀ i s₁ s₂ ph o x s₁', B s₁ s₂ → (D i).allowed ph o →
        R₁ s₁ o x s₁' →
      (D i).possible ph o x ∧ ∃ s₂', R₂ s₂ o x s₂' ∧ B s₁' s₂')
    {s₁ s₁' : S₁} {s₂ : S₂} {ps ps' : ι → Prog E α} {t : List (ι × E.Event)}
    {phs : ι → Ph}
    (h : Interleave R₁ s₁ ps t s₁' ps') (hps : ∀ i, (ps i).Obeys (D i) Q (phs i))
    (hs : B s₁ s₂) :
    ∃ s₂', Interleave R₂ s₂ ps t s₂' ps' ∧ B s₁' s₂' := by
  have hall : ∃ phs' : ι → Ph, (∃ s₂', Interleave R₂ s₂ ps t s₂' ps' ∧
      B s₁' s₂') ∧
      ∀ i, (ps' i).Obeys (D i) Q (phs' i) := by
    induction h with
    | nil => exact ⟨phs, ⟨s₂, Interleave.nil, hs⟩, hps⟩
    | @snoc t s s' ps₁ i o k x _ hi hR ih =>
        obtain ⟨phs₁, ⟨m, hrun, hrel⟩, hobey⟩ := ih
        obtain ⟨hallowed, hrest⟩ := obeys_update (x := x) hobey hi
        obtain ⟨hposs, m', hm, hrel'⟩ := hstep _ _ _ _ _ _ _ hrel hallowed hR
        exact ⟨_, ⟨m', hrun.snoc hi hm, hrel'⟩, hrest hposs⟩
  obtain ⟨-, hsim, -⟩ := hall
  exact hsim

/-- What holds of every event of an interleaving may be asked of every step. -/
theorem Interleave.restrict {E : Effects} {S ι α : Type} [DecidableEq ι] {P : E.Event → Prop}
    {R : S → (o : E.Op) → E.Ans o → S → Prop} {s s' : S} {ps ps' : ι → Prog E α}
    {t : List (ι × E.Event)}
    (h : Interleave R s ps t s' ps') (hP : ∀ e ∈ t, P e.2) :
    Interleave (fun s o x s' => R s o x s' ∧ P ⟨o, x⟩) s ps t s' ps' := by
  induction h with
  | nil => exact Interleave.nil
  | snoc _ hi hR ih =>
      apply Interleave.snoc (ih fun e he => hP e (List.mem_append_left _ he)) hi
      exact ⟨hR, hP _ (List.mem_append_right _ (List.mem_singleton_self _))⟩

/-! ## Positions in a history -/

/-- A history is what was before an event, the event, and the rest. -/
theorem cut_at {α : Type} {l : List α} {n : ℕ} (hn : n < l.length) :
    l = l.take n ++ l[n] :: l.drop (n + 1) := by
  rw [List.getElem_cons_drop hn, List.take_append_drop]

/-- The same for a step of thread `i`. -/
theorem cut_at_thread {ι α : Type} {l : List (ι × α)} {n : ℕ} {i : ι} (hn : n < l.length)
    (hi : l[n].1 = i) :
    l = l.take n ++ (i, l[n].2) :: l.drop (n + 1) := by
  rw [← hi]
  exact cut_at hn

/-- Every event with what was before it, by positions. -/
theorem forall_split_iff {α : Type} {l : List α} {P : List α → α → Prop} :
    (∀ before a after, l = before ++ a :: after → P before a) ↔
      ∀ k, ∀ hk : k < l.length, P (l.take k) l[k] := by
  constructor
  · exact fun h k hk => h (l.take k) l[k] (l.drop (k + 1)) (cut_at hk)
  · intro h before a after heq
    subst heq
    have hk : before.length < (before ++ a :: after).length := by simp
    have hat := h before.length hk
    have hnth : (before ++ a :: after)[before.length] = a := by simp
    rwa [List.take_left, hnth] at hat

/-! ## The events of one thread -/

/-- What thread `i` did. -/
def threadEvents {E : Effects} {ι : Type} [DecidableEq ι] (i : ι) (t : List (ι × E.Event)) :
    List E.Event :=
  t.filterMap fun e => if e.1 = i then some e.2 else none

section Events

variable {E : Effects} {ι : Type} [DecidableEq ι] {i j : ι}
  {t : List (ι × E.Event)} {e : E.Event}

theorem threadEvents_append (t t' : List (ι × E.Event)) :
    threadEvents i (t ++ t') = threadEvents i t ++ threadEvents i t' := List.filterMap_append

theorem threadEvents_snoc_self : threadEvents i (t ++ [(i, e)]) = threadEvents i t ++ [e] := by
  rw [threadEvents, List.filterMap_append]
  simp [threadEvents]

theorem threadEvents_snoc_of_ne (h : j ≠ i) :
    threadEvents i (t ++ [(j, e)]) = threadEvents i t := by
  rw [threadEvents, List.filterMap_append]
  simp [threadEvents, h]

end Events

/-! ## Schedules -/

/-- One step of a thread under a choice; a thread that has finished does nothing. -/
def threadStep {E : Effects} {S ι α Γ : Type} [DecidableEq ι]
    (h : Γ → (o : E.Op) → S → E.Ans o × S)
    (c : List (ι × E.Event) × S × (ι → Prog E α)) (turn : ι × Γ) :
    List (ι × E.Event) × S × (ι → Prog E α) :=
  match c.2.2 turn.1 with
  | .ret _ => c
  | .call o k =>
      let r := h turn.2 o c.2.1
      (c.1 ++ [(turn.1, ⟨o, r.1⟩)], r.2, Function.update c.2.2 turn.1 (k r.1))

/-- The threads take turns as a schedule says: the history, the state and what is left. -/
def schedule {E : Effects} {S ι α Γ : Type} [DecidableEq ι]
    (h : Γ → (o : E.Op) → S → E.Ans o × S)
    (turns : List (ι × Γ)) (s : S) (ps : ι → Prog E α) :
    List (ι × E.Event) × S × (ι → Prog E α) :=
  turns.foldl (threadStep h) ([], s, ps)

/-- A schedule gives an interleaving. -/
theorem interleave_schedule {E : Effects} {S ι α Γ : Type} [DecidableEq ι]
    {h : Γ → (o : E.Op) → S → E.Ans o × S} {R : S → (o : E.Op) → E.Ans o → S → Prop}
    (hR : ∀ c o s, R s o (h c o s).1 (h c o s).2) (turns : List (ι × Γ)) (s : S)
    (ps : ι → Prog E α) :
    Interleave R s ps (schedule h turns s ps).1 (schedule h turns s ps).2.1
      (schedule h turns s ps).2.2 := by
  have hfrom : ∀ c : List (ι × E.Event) × S × (ι → Prog E α),
      Interleave R s ps c.1 c.2.1 c.2.2 →
      Interleave R s ps (turns.foldl (threadStep h) c).1 (turns.foldl (threadStep h) c).2.1
        (turns.foldl (threadStep h) c).2.2 := by
    induction turns with
    | nil => exact fun c hc => hc
    | cons turn turns ih =>
        intro c hc
        apply ih
        cases hprog : c.2.2 turn.1 with
        | ret a =>
            rw [threadStep, hprog]
            exact hc
        | call o k =>
            rw [threadStep, hprog]
            exact hc.snoc hprog (hR _ _ _)
  exact hfrom _ Interleave.nil

/-- The program has come to its end. -/
def Prog.finished {E : Effects} {α : Type} : Prog E α → Bool
  | .ret _ => true
  | .call _ _ => false

theorem Prog.eq_ret_of_finished {E : Effects} {α : Type} {p : Prog E α} (h : p.finished = true) :
    ∃ a, p = .ret a := by
  cases p with
  | ret a => exact ⟨a, rfl⟩
  | call o k => exact absurd h (by simp [Prog.finished])

/-- What the program has returned. -/
def Prog.returned {E : Effects} {α : Type} : Prog E α → Option α
  | .ret a => some a
  | .call _ _ => none

theorem Prog.eq_ret_of_returned {E : Effects} {α : Type} {p : Prog E α} {a : α}
    (h : p.returned = some a) :
    p = .ret a := by
  cases p with
  | ret b => rw [Option.some.inj h]
  | call o k => cases h
