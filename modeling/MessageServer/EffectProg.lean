/-
# Effect programs

A small library for programs that act on the world only through named
operations.  A signature lists the operations and the type of the answer to each;
a program is a tree that performs an operation and continues with its answer.

* `Exec R p s t a s'`: one complete execution of `p`, where the relation `R` says
  which answers an operation may get and what it does to the state;
* `Prog.interp`: the program with every operation replaced by a program;
* `Prog.run`: the same execution as a function of a stream of choices;
* `Prog.Obeys`: the weakest precondition of a program under a discipline, an
  automaton that says which operations are allowed in which phase;
* `Prog.May`: some execution satisfies a condition; `Prog.Must`: every one does.

Nothing here names the server; the library is used at its two signatures (the
system calls and the steps of a service thread).
-/
import Mathlib.Logic.Function.Basic
import Mathlib.Data.List.Basic
import Mathlib.Tactic.Cases

/-! ## Signatures and programs -/

/-- A signature: the operations a program may perform and the type of the
answer to each. -/
structure Effects where
  Op : Type
  Ans : Op → Type

/-- A performed operation together with its answer. -/
abbrev Effects.Event (E : Effects) : Type := Σ o : E.Op, E.Ans o

/-- A program over a signature: it is finished, or it performs an operation and
continues with the answer. -/
inductive Prog (E : Effects) (α : Type) : Type
  | ret (a : α)
  | call (o : E.Op) (k : E.Ans o → Prog E α)

namespace Prog

variable {E : Effects} {α β : Type}

/-- Sequential composition. -/
def bind : Prog E α → (α → Prog E β) → Prog E β
  | ret a, f => f a
  | call o k, f => call o (fun x => (k x).bind f)

instance : Monad (Prog E) where
  pure := ret
  bind := bind

theorem bind_ret (p : Prog E α) : p.bind ret = p := by
  induction p with
  | ret a => rfl
  | call o k ih => exact congrArg (call o) (funext ih)

theorem bind_bind {γ : Type} (p : Prog E α) (f : α → Prog E β) (g : β → Prog E γ) :
    (p.bind f).bind g = p.bind fun a => (f a).bind g := by
  induction p with
  | ret a => rfl
  | call o k ih => exact congrArg (call o) (funext ih)

instance : LawfulMonad (Prog E) :=
  LawfulMonad.mk' (Prog E) bind_ret (fun _ _ => rfl) bind_bind

/-- The program that performs one operation and returns its answer. -/
def perform (o : E.Op) : Prog E (E.Ans o) := call o ret

@[simp] theorem pure_eq (a : α) : (Pure.pure a : Prog E α) = ret a := rfl

@[simp] theorem ret_bind (a : α) (f : α → Prog E β) : (ret a >>= f) = f a := rfl

@[simp] theorem call_bind (o : E.Op) (k : E.Ans o → Prog E α) (f : α → Prog E β) :
    (call o k >>= f) = call o (fun x => k x >>= f) := rfl

@[simp] theorem perform_bind (o : E.Op) (f : E.Ans o → Prog E β) :
    (perform o >>= f) = call o f := rfl

/-! ## The operations of a program -/

/-- Every operation that the program can perform satisfies `P`. -/
def Performs (P : E.Op → Prop) : Prog E α → Prop
  | ret _ => True
  | call o k => P o ∧ ∀ x, (k x).Performs P

@[simp] theorem performs_ret (P : E.Op → Prop) (a : α) : (ret a : Prog E α).Performs P :=
  trivial

@[simp] theorem performs_perform (P : E.Op → Prop) (o : E.Op) :
    (perform o : Prog E (E.Ans o)).Performs P ↔ P o :=
  and_iff_left fun _ => trivial

/-- A performed operation in front. -/
theorem performs_perform_bind {P : E.Op → Prop} {o : E.Op} {f : E.Ans o → Prog E β} :
    (perform o >>= f).Performs P ↔ P o ∧ ∀ x, (f x).Performs P := Iff.rfl

/-- A sequence performs what its parts do. -/
theorem Performs.bind {P : E.Op → Prop} {p : Prog E α} {f : α → Prog E β} (hp : p.Performs P)
    (hf : ∀ a, (f a).Performs P) : (p >>= f).Performs P := by
  induction p with
  | ret a => exact hf a
  | call o k ih => exact ⟨hp.1, fun x => ih x (hp.2 x)⟩

/-- Under a weaker condition. -/
theorem Performs.mono {P P' : E.Op → Prop} {p : Prog E α} (hp : p.Performs P)
    (h : ∀ o, P o → P' o) : p.Performs P' := by
  induction p with
  | ret a => trivial
  | call o k ih => exact ⟨h o hp.1, fun x => ih x (hp.2 x)⟩

/-! ## Handlers -/

/-- Replace every operation by a program over another signature. -/
def interp {E' : Effects} (h : (o : E.Op) → Prog E' (E.Ans o)) : Prog E α → Prog E' α
  | ret a => ret a
  | call o k => h o >>= fun x => (k x).interp h

@[simp] theorem interp_ret {E' : Effects} (h : (o : E.Op) → Prog E' (E.Ans o)) (a : α) :
    (ret a : Prog E α).interp h = ret a := rfl

/-- A performed operation in front. -/
theorem interp_perform_bind {E' : Effects} (h : (o : E.Op) → Prog E' (E.Ans o)) (o : E.Op)
    (f : E.Ans o → Prog E β) :
    (perform o >>= f).interp h = h o >>= fun x => (f x).interp h := rfl

/-- A sequence is interpreted part by part. -/
theorem interp_bind {E' : Effects} (h : (o : E.Op) → Prog E' (E.Ans o)) (p : Prog E α)
    (f : α → Prog E β) : (p >>= f).interp h = p.interp h >>= fun a => (f a).interp h := by
  induction p with
  | ret a => rfl
  | call o k ih =>
      have hcall : ∀ g : E.Ans o → Prog E β, (call o g).interp h = h o >>= fun x =>
          (g x).interp h :=
        fun g => rfl
      rw [call_bind, hcall, funext ih, ← bind_assoc]
      rfl

/-! ## Running a program on a stream of choices -/

/-- Run a program: the `n`-th operation is resolved by the `n`-th choice.  The
result is the trace of operations with their answers, the value and the state. -/
def run {Γ S : Type} (h : Γ → (o : E.Op) → S → E.Ans o × S) :
    (ℕ → Γ) → Prog E α → S → List E.Event × α × S
  | _, ret a, s => ([], a, s)
  | env, call o k, s =>
      let r := h (env 0) o s
      let rest := run h (fun n => env (n + 1)) (k r.1) r.2
      (⟨o, r.1⟩ :: rest.1, rest.2)

end Prog

/-! ## Executions -/

/-- `Exec R p s t a s'`: from state `s` the program `p` can perform the operations
`t` and finish with value `a` in state `s'`; `R` says which answers and successor
states an operation may have. -/
inductive Exec {E : Effects} {S : Type} (R : S → (o : E.Op) → E.Ans o → S → Prop)
    {α : Type} : Prog E α → S → List E.Event → α → S → Prop
  | ret (a : α) (s : S) : Exec R (.ret a) s [] a s
  | call {o : E.Op} {k : E.Ans o → Prog E α} {s s' s'' : S} {x : E.Ans o}
      {t : List E.Event} {a : α} :
      R s o x s' → Exec R (k x) s' t a s'' → Exec R (.call o k) s (⟨o, x⟩ :: t) a s''

section Executions

variable {E : Effects} {S S₁ S₂ α β : Type}
variable {R R' : S → (o : E.Op) → E.Ans o → S → Prop}

/-- A finished program performs nothing. -/
@[simp] theorem exec_ret_iff {a b : α} {s s' : S} {t : List E.Event} :
    Exec R (.ret a) s t b s' ↔ t = [] ∧ b = a ∧ s' = s := by
  constructor
  · intro h
    cases h
    exact ⟨rfl, rfl, rfl⟩
  · rintro ⟨rfl, rfl, rfl⟩
    exact Exec.ret _ _

/-- The first operation of a program, its answer, and the rest. -/
theorem exec_call_iff {o : E.Op} {k : E.Ans o → Prog E α} {s s'' : S}
    {t : List E.Event} {a : α} :
    Exec R (.call o k) s t a s'' ↔
      ∃ x s' t', R s o x s' ∧ Exec R (k x) s' t' a s'' ∧ t = ⟨o, x⟩ :: t' := by
  constructor
  · intro h
    cases h with
    | call hR hk => exact ⟨_, _, _, hR, hk, rfl⟩
  · rintro ⟨x, s', t', hR, hk, rfl⟩
    exact Exec.call hR hk

/-- An execution of a composition is an execution of the first part followed by
one of the second. -/
theorem exec_bind_iff {p : Prog E α} {f : α → Prog E β} {s s'' : S}
    {t : List E.Event} {b : β} :
    Exec R (p >>= f) s t b s'' ↔
      ∃ t₁ a s' t₂, Exec R p s t₁ a s' ∧ Exec R (f a) s' t₂ b s'' ∧
        t = t₁ ++ t₂ := by
  induction p generalizing s t with
  | ret a =>
      constructor
      · intro h
        exact ⟨[], a, s, t, Exec.ret a s, h, rfl⟩
      · rintro ⟨t₁, a', s', t₂, h₁, h₂, rfl⟩
        obtain ⟨rfl, rfl, rfl⟩ := exec_ret_iff.mp h₁
        exact h₂
  | call o k ih =>
      rw [Prog.call_bind, exec_call_iff]
      constructor
      · rintro ⟨x, s', t', hR, hk, rfl⟩
        obtain ⟨t₁, a, s₁, t₂, h₁, h₂, rfl⟩ := (ih x).mp hk
        exact ⟨⟨o, x⟩ :: t₁, a, s₁, t₂, Exec.call hR h₁, h₂, rfl⟩
      · rintro ⟨t₁, a, s₁, t₂, h₁, h₂, rfl⟩
        obtain ⟨x, s', t', hR, hk, rfl⟩ := exec_call_iff.mp h₁
        exact ⟨x, s', t' ++ t₂, hR, (ih x).mpr ⟨t', a, s₁, t₂, hk, h₂, rfl⟩, rfl⟩

/-- A performed operation, and the program that goes on with its answer. -/
theorem exec_perform_bind_iff {o : E.Op} {f : E.Ans o → Prog E α} {s s'' : S}
    {t : List E.Event} {a : α} :
    Exec R (Prog.perform o >>= f) s t a s'' ↔
      ∃ x s' t', R s o x s' ∧ Exec R (f x) s' t' a s'' ∧ t = ⟨o, x⟩ :: t' := by
  rw [Prog.perform_bind, exec_call_iff]

/-- A handled operation, and the handled program that goes on with its answer. -/
theorem exec_interp_perform_bind_iff {E' : Effects}
    {R : S → (o : E'.Op) → E'.Ans o → S → Prop}
    {h : (o : E.Op) → Prog E' (E.Ans o)} {o : E.Op}
    {f : E.Ans o → Prog E α} {s s'' : S} {t : List E'.Event} {a : α} :
    Exec R ((Prog.perform o >>= f).interp h) s t a s'' ↔
      ∃ t₁ x s' t₂, Exec R (h o) s t₁ x s' ∧ Exec R ((f x).interp h) s' t₂ a s'' ∧
        t = t₁ ++ t₂ := by
  rw [Prog.interp_perform_bind, exec_bind_iff]

/-- What every operation preserves, every execution preserves. -/
theorem Exec.invariant {I : S → Prop}
    (hstep : ∀ s o x s', R s o x s' → I s → I s')
    {p : Prog E α} {s s' : S} {t : List E.Event} {a : α}
    (h : Exec R p s t a s') (hs : I s) : I s' := by
  induction h with
  | ret a s => exact hs
  | call hR _ ih => exact ih (hstep _ _ _ _ hR hs)

/-- When every operation can be answered, every program can be executed. -/
theorem exec_total (htotal : ∀ s o, ∃ x s', R s o x s') (p : Prog E α) (s : S) :
    ∃ t a s', Exec R p s t a s' := by
  induction p generalizing s with
  | ret a => exact ⟨[], a, s, Exec.ret a s⟩
  | call o k ih =>
      obtain ⟨x, s₁, hR⟩ := htotal s o
      obtain ⟨t, a, s', hk⟩ := ih x s₁
      exact ⟨⟨o, x⟩ :: t, a, s', Exec.call hR hk⟩

/-- The events of an execution are operations of the program. -/
theorem Exec.performs {P : E.Op → Prop} {p : Prog E α} {s s' : S} {t : List E.Event} {a : α}
    (h : Exec R p s t a s') (hp : p.Performs P) : ∀ e ∈ t, P e.1 := by
  induction h with
  | ret a s => simp
  | call _ _ ih =>
      intro e he
      rcases List.mem_cons.mp he with rfl | he
      · exact hp.1
      · exact ih (hp.2 _) e he

/-- An execution under `R` whose operations all satisfy `R'` is one under `R'`. -/
theorem Exec.mono {p : Prog E α} {s s' : S} {t : List E.Event} {a : α}
    (h : Exec R p s t a s')
    (hR : ∀ s o x s', (⟨o, x⟩ : E.Event) ∈ t → R s o x s' → R' s o x s') :
    Exec R' p s t a s' := by
  induction h with
  | ret a s => exact Exec.ret a s
  | call h _ ih =>
      refine Exec.call (hR _ _ _ _ List.mem_cons_self h) (ih ?_)
      intro s o x s' hmem
      exact hR s o x s' (List.mem_cons_of_mem _ hmem)

/-- **Forward simulation.**  If every operation on the first state is matched by
one with the same answer on the second, so is every execution. -/
theorem Exec.simulate {R₁ : S₁ → (o : E.Op) → E.Ans o → S₁ → Prop}
    {R₂ : S₂ → (o : E.Op) → E.Ans o → S₂ → Prop} {Rel : S₁ → S₂ → Prop}
    (hstep : ∀ s₁ s₂ o x s₁', Rel s₁ s₂ → R₁ s₁ o x s₁' →
      ∃ s₂', R₂ s₂ o x s₂' ∧ Rel s₁' s₂')
    {p : Prog E α} {s₁ s₁' : S₁} {t : List E.Event} {a : α}
    (h : Exec R₁ p s₁ t a s₁') {s₂ : S₂} (hs : Rel s₁ s₂) :
    ∃ s₂', Exec R₂ p s₂ t a s₂' ∧ Rel s₁' s₂' := by
  induction h generalizing s₂ with
  | ret a s => exact ⟨s₂, Exec.ret a s₂, hs⟩
  | call hR _ ih =>
      obtain ⟨m, hm, hrel⟩ := hstep _ _ _ _ _ hs hR
      obtain ⟨s₂', hexec, hrel'⟩ := ih hrel
      exact ⟨s₂', Exec.call hm hexec, hrel'⟩

/-- Running on a stream of choices is an execution. -/
theorem exec_run {Γ : Type} (h : Γ → (o : E.Op) → S → E.Ans o × S) (P : Γ → Prop)
    (env : ℕ → Γ) (henv : ∀ n, P (env n)) (p : Prog E α) (s : S) :
    Exec (fun s o x s' => ∃ c, P c ∧ h c o s = (x, s')) p s
      (p.run h env s).1 (p.run h env s).2.1 (p.run h env s).2.2 := by
  induction p generalizing env s with
  | ret a => exact Exec.ret a s
  | call o k ih =>
      exact Exec.call ⟨env 0, henv 0, rfl⟩
        (ih _ (fun n => env (n + 1)) (fun n => henv (n + 1)) _)

end Executions

/-! ## Disciplines -/

/-- A discipline: in each phase it allows some operations, expects some answers,
and moves to the next phase with the answer. -/
structure Discipline (E : Effects) (Ph : Type) where
  allowed : Ph → E.Op → Prop
  possible : Ph → (o : E.Op) → E.Ans o → Prop
  next : Ph → (o : E.Op) → E.Ans o → Ph

section Disciplines

variable {E : Effects} {Ph α β : Type} (D : Discipline E Ph)

/-- `p.Obeys D Q ph`: started in phase `ph`, and given only answers the
discipline expects, `p` performs only allowed operations and finishes with a phase
and a value that satisfy `Q`. -/
def Prog.Obeys (Q : Ph → α → Prop) : Prog E α → Ph → Prop
  | .ret a, ph => Q ph a
  | .call o k, ph =>
      D.allowed ph o ∧ ∀ x, D.possible ph o x → (k x).Obeys Q (D.next ph o x)

variable {D}

@[simp] theorem obeys_ret {Q : Ph → α → Prop} {a : α} {ph : Ph} :
    (Prog.ret a : Prog E α).Obeys D Q ph ↔ Q ph a := Iff.rfl

/-- A call obeys when it is allowed and what follows does. -/
@[simp] theorem obeys_call {Q : Ph → α → Prop} {o : E.Op}
    {k : E.Ans o → Prog E α} {ph : Ph} :
    (Prog.call o k).Obeys D Q ph ↔
      D.allowed ph o ∧ ∀ x, D.possible ph o x → (k x).Obeys D Q (D.next ph o x) := Iff.rfl

/-- The composition rule: the first part has to establish what the second needs. -/
theorem obeys_bind {Q : Ph → β → Prop} {p : Prog E α} {f : α → Prog E β} {ph : Ph} :
    (p >>= f).Obeys D Q ph ↔ p.Obeys D (fun ph' a => (f a).Obeys D Q ph') ph := by
  induction p generalizing ph with
  | ret a => exact Iff.rfl
  | call o k ih =>
      simp only [Prog.call_bind, obeys_call]
      refine and_congr_right fun _ => forall_congr' fun x => imp_congr_right fun _ => ?_
      exact ih x

/-- A performed operation in front. -/
theorem obeys_perform_bind {Q : Ph → β → Prop} {o : E.Op}
    {f : E.Ans o → Prog E β} {ph : Ph} :
    (Prog.perform o >>= f).Obeys D Q ph ↔
      D.allowed ph o ∧ ∀ x, D.possible ph o x → (f x).Obeys D Q (D.next ph o x) := Iff.rfl

/-- In phase `ph` the operations of `P` are allowed, and change no phase. -/
def Discipline.Stays (D : Discipline E Ph) (P : E.Op → Prop) (ph : Ph) : Prop :=
  ∀ o, P o → D.allowed ph o ∧ ∀ x, D.next ph o x = ph

/-- One such operation, and the rest. -/
theorem Discipline.Stays.bind {P : E.Op → Prop} {ph : Ph} (hP : D.Stays P ph)
    {Q : Ph → β → Prop} {o : E.Op}
    (ho : P o) {f : E.Ans o → Prog E β} (hf : ∀ x, D.possible ph o x → (f x).Obeys D Q ph) :
    (Prog.perform o >>= f).Obeys D Q ph := by
  refine obeys_perform_bind.mpr ⟨(hP o ho).1, fun x hx => ?_⟩
  rw [(hP o ho).2]
  exact hf x hx

/-- A program of such operations. -/
theorem obeys_of_performs {P : E.Op → Prop} {Q : Ph → α → Prop} {p : Prog E α} {ph : Ph}
    (hP : D.Stays P ph) (hp : p.Performs P) (hQ : ∀ a, Q ph a) : p.Obeys D Q ph := by
  induction p with
  | ret a => exact hQ a
  | call o k ih =>
      refine ⟨(hP o hp.1).1, fun x _ => ?_⟩
      rw [(hP o hp.1).2 x]
      exact ih x (hp.2 x)

/-- The rule of consequence. -/
theorem Prog.Obeys.mono {Q Q' : Ph → α → Prop} {p : Prog E α} {ph : Ph}
    (h : p.Obeys D Q ph) (hQ : ∀ ph a, Q ph a → Q' ph a) : p.Obeys D Q' ph := by
  induction p generalizing ph with
  | ret a => exact hQ _ _ h
  | call o k ih => exact ⟨h.1, fun x hx => ih x (h.2 x hx)⟩

/-- **Executions under a discipline.**  If every allowed operation gets an
expected answer and keeps `I`, an obedient program keeps `I` and ends in `Q`. -/
theorem Exec.obeys {S : Type} {R : S → (o : E.Op) → E.Ans o → S → Prop}
    {I : S → Ph → Prop}
    (hstep : ∀ s ph o x s', I s ph → D.allowed ph o → R s o x s' →
      D.possible ph o x ∧ I s' (D.next ph o x))
    {Q : Ph → α → Prop} {p : Prog E α} {s s' : S} {t : List E.Event} {a : α} {ph : Ph}
    (h : Exec R p s t a s') (hp : p.Obeys D Q ph) (hI : I s ph) :
    ∃ ph', I s' ph' ∧ Q ph' a := by
  induction h generalizing ph with
  | ret a s => exact ⟨ph, hI, hp⟩
  | call hR _ ih =>
      obtain ⟨hposs, hI'⟩ := hstep _ _ _ _ _ hI hp.1 hR
      exact ih (hp.2 _ hposs) hI'

/-- The same for an invariant that speaks about what has been performed. -/
theorem Exec.obeys_history {S : Type} {R : S → (o : E.Op) → E.Ans o → S → Prop}
    {I : List E.Event → S → Ph → Prop}
    (hstep : ∀ t s ph o x s', I t s ph → D.allowed ph o → R s o x s' →
      D.possible ph o x ∧ I (t ++ [⟨o, x⟩]) s' (D.next ph o x))
    {Q : Ph → α → Prop} {p : Prog E α} {s s' : S} {t t₀ : List E.Event} {a : α} {ph : Ph}
    (h : Exec R p s t a s') (hp : p.Obeys D Q ph) (hI : I t₀ s ph) :
    ∃ ph', I (t₀ ++ t) s' ph' ∧ Q ph' a := by
  induction h generalizing ph t₀ with
  | ret a s =>
      rw [List.append_nil]
      exact ⟨ph, hI, hp⟩
  | call hR _ ih =>
      obtain ⟨hposs, hI'⟩ := hstep _ _ _ _ _ _ hI hp.1 hR
      obtain ⟨ph', hend, hQ⟩ := ih (hp.2 _ hposs) hI'
      rw [List.append_assoc] at hend
      exact ⟨ph', hend, hQ⟩

/-- Under the same conditions, every operation of the execution was allowed. -/
theorem Exec.allowed {S : Type} {R : S → (o : E.Op) → E.Ans o → S → Prop}
    {I : S → Ph → Prop}
    (hstep : ∀ s ph o x s', I s ph → D.allowed ph o → R s o x s' →
      D.possible ph o x ∧ I s' (D.next ph o x))
    {Q : Ph → α → Prop} {p : Prog E α} {s s' : S} {t : List E.Event} {a : α} {ph : Ph}
    (h : Exec R p s t a s') (hp : p.Obeys D Q ph) (hI : I s ph) :
    ∀ e ∈ t, ∃ ph, D.allowed ph e.1 := by
  induction h generalizing ph with
  | ret a s => simp
  | call hR _ ih =>
      obtain ⟨hposs, hI'⟩ := hstep _ _ _ _ _ hI hp.1 hR
      intro e he
      rcases List.mem_cons.mp he with rfl | he
      · exact ⟨ph, hp.1⟩
      · exact ih (hp.2 _ hposs) hI' e he

/-- **Forward simulation under a discipline.**  If every allowed operation gets an
expected answer and is matched by one with the same answer on the second state, so is
every execution of an obedient program. -/
theorem Exec.simulate_obeys {S₁ S₂ : Type} {R₁ : S₁ → (o : E.Op) → E.Ans o →
      S₁ → Prop}
    {R₂ : S₂ → (o : E.Op) → E.Ans o → S₂ → Prop} {B : S₁ → S₂ → Ph → Prop}
    (hstep : ∀ s₁ s₂ ph o x s₁', B s₁ s₂ ph → D.allowed ph o →
        R₁ s₁ o x s₁' →
      D.possible ph o x ∧ ∃ s₂', R₂ s₂ o x s₂' ∧ B s₁' s₂' (D.next ph o x))
    {Q : Ph → α → Prop} {p : Prog E α} {s₁ s₁' : S₁} {t : List E.Event}
    {a : α} {ph : Ph}
    (h : Exec R₁ p s₁ t a s₁') (hp : p.Obeys D Q ph) {s₂ : S₂} (hs : B s₁ s₂ ph) :
    ∃ s₂' ph', Exec R₂ p s₂ t a s₂' ∧ B s₁' s₂' ph' ∧ Q ph' a := by
  induction h generalizing ph s₂ with
  | ret a s => exact ⟨s₂, ph, Exec.ret a s₂, hs, hp⟩
  | call hR _ ih =>
      obtain ⟨hposs, m, hm, hrel⟩ := hstep _ _ _ _ _ _ hs hp.1 hR
      obtain ⟨s₂', ph', hexec, hrel', hQ⟩ := ih (hp.2 _ hposs) hrel
      exact ⟨s₂', ph', Exec.call hm hexec, hrel', hQ⟩

end Disciplines

/-! ## Possible executions -/

/-- Some execution of the program from `s` satisfies `Q`. -/
def Prog.May {E : Effects} {S α : Type} (R : S → (o : E.Op) → E.Ans o → S → Prop)
    (Q : List E.Event → α → S → Prop) (p : Prog E α) (s : S) : Prop :=
  ∃ t a s', Exec R p s t a s' ∧ Q t a s'

section Possibility

variable {E : Effects} {S α β : Type} {R : S → (o : E.Op) → E.Ans o → S → Prop} {s s' : S}

/-- A result may be as required. -/
theorem may_ret {Q : List E.Event → α → S → Prop} {a : α} (h : Q [] a s) :
    (Prog.ret a : Prog E α).May R Q s :=
  ⟨[], a, s, Exec.ret a s, h⟩

/-- Choose an answer. -/
theorem may_perform_bind {Q : List E.Event → α → S → Prop} {o : E.Op}
    {f : E.Ans o → Prog E α}
    (x : E.Ans o) (hR : R s o x s') (h : (f x).May R (fun t => Q (⟨o, x⟩ :: t)) s') :
    (Prog.perform o >>= f).May R Q s := by
  obtain ⟨t, a, s'', hexec, hQ⟩ := h
  exact ⟨⟨o, x⟩ :: t, a, s'', Exec.call hR hexec, hQ⟩

/-- What a sequence may do. -/
theorem may_bind {Q : List E.Event → β → S → Prop} {p : Prog E α} {f : α → Prog E β}
    (h : p.May R (fun t a s' => (f a).May R (fun t' => Q (t ++ t')) s') s) :
    (p >>= f).May R Q s := by
  obtain ⟨t, a, s', hp, t', b, s'', hf, hQ⟩ := h
  exact ⟨t ++ t', b, s'', exec_bind_iff.mpr ⟨t, a, s', t', hp, hf, rfl⟩, hQ⟩

/-- The rule of consequence. -/
theorem Prog.May.mono {Q Q' : List E.Event → α → S → Prop} {p : Prog E α} (h : p.May R Q s)
    (hQ : ∀ t a s', Q t a s' → Q' t a s') : p.May R Q' s := by
  obtain ⟨t, a, s', hexec, hq⟩ := h
  exact ⟨t, a, s', hexec, hQ _ _ _ hq⟩

end Possibility

/-! ## All executions -/

/-- Every execution of the program from `s` satisfies `Q`. -/
def Prog.Must {E : Effects} {S α : Type} (R : S → (o : E.Op) → E.Ans o → S → Prop)
    (Q : List E.Event → α → S → Prop) (p : Prog E α) (s : S) : Prop :=
  ∀ t a s', Exec R p s t a s' → Q t a s'

section Necessity

variable {E : Effects} {S α β : Type} {R : S → (o : E.Op) → E.Ans o → S → Prop} {s : S}

/-- A result must be as required. -/
theorem must_ret {Q : List E.Event → α → S → Prop} {a : α} (h : Q [] a s) :
    (Prog.ret a : Prog E α).Must R Q s := by
  intro t b s' hexec
  obtain ⟨rfl, rfl, rfl⟩ := exec_ret_iff.mp hexec
  exact h

/-- Whatever the answer is. -/
theorem must_perform_bind {Q : List E.Event → α → S → Prop} {o : E.Op}
    {f : E.Ans o → Prog E α}
    (h : ∀ x s', R s o x s' → (f x).Must R (fun t => Q (⟨o, x⟩ :: t)) s') :
    (Prog.perform o >>= f).Must R Q s := by
  intro t a s' hexec
  obtain ⟨x, s₁, t', hR, hrest, rfl⟩ := exec_perform_bind_iff.mp hexec
  exact h x s₁ hR t' a s' hrest

/-- What a sequence must do. -/
theorem must_bind {Q : List E.Event → β → S → Prop} {p : Prog E α} {f : α → Prog E β}
    (h : p.Must R (fun t a s' => (f a).Must R (fun t' => Q (t ++ t')) s') s) :
    (p >>= f).Must R Q s := by
  intro t b s' hexec
  obtain ⟨t₁, a, s₁, t₂, h₁, h₂, rfl⟩ := exec_bind_iff.mp hexec
  exact h t₁ a s₁ h₁ t₂ b s' h₂

/-- The rule of consequence. -/
theorem Prog.Must.mono {Q Q' : List E.Event → α → S → Prop} {p : Prog E α}
    (h : p.Must R Q s)
    (hQ : ∀ t a s', Q t a s' → Q' t a s') : p.Must R Q' s :=
  fun t a s' hexec => hQ t a s' (h t a s' hexec)

end Necessity
