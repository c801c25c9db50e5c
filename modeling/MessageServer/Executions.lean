/-
# Executions without faults

System calls that do not fail always have an answer, so every program has an
execution without faults.

* `exec_noFault`: of a program over system calls;
* `dbStep_exists`, `srvStep_exists`: of a library call, and of any program of a
  service thread;
* `exec_srvRun`: the run on a stream of choices that do not fail is one.
-/
import MessageServer.Schema

/-! ## System calls -/

namespace FS

/-- The file system dictates no `EIO` on a walk. -/
theorem enter_ne_eio {fs : FS} {p : Location} {c : Name} : fs.enter p c ≠ .error .eio := by
  unfold enter
  split
  · simp
  · simp
  · split <;> simp

/-- The file system dictates no `EIO` on a path. -/
theorem locate_ne_eio (fs : FS) (path : Bytes) : fs.locate path ≠ .error .eio := by
  unfold locate
  split
  · simp
  generalize fs.cwd = p
  induction components path generalizing p with
  | nil => simp [pure, Except.pure]
  | cons c cs ih =>
      rw [List.foldlM_cons]
      cases henter : fs.enter p c with
      | error e =>
          intro heq
          obtain rfl := Except.error.inj heq
          exact enter_ne_eio henter
      | ok q => exact ih q

theorem opendir_ne_eio (fs : FS) (path : Bytes) : fs.opendir path ≠ .error .eio := by
  unfold opendir
  split
  · rename_i e he
    rintro heq
    obtain rfl := Except.error.inj heq
    exact locate_ne_eio fs path he
  · split <;> simp

theorem mkdir_ne_eio (fs : FS) (path : Bytes) : fs.mkdir path ≠ .error .eio := by
  unfold mkdir
  split
  · rename_i e he
    rintro heq
    obtain rfl := Except.error.inj heq
    exact locate_ne_eio fs path he
  · split <;> simp

theorem openFile_ne_eio (fs : FS) (path : Bytes) (flags : OpenFlags) :
    fs.openFile path flags ≠ .error .eio := by
  unfold openFile
  split
  · rename_i e he
    rintro heq
    obtain rfl := Except.error.inj heq
    exact locate_ne_eio fs path he
  · split <;> simp

theorem remove_ne_eio (fs : FS) (path : Bytes) : fs.remove path ≠ .error .eio := by
  unfold remove
  split
  · rename_i e he
    rintro heq
    obtain rfl := Except.error.inj heq
    exact locate_ne_eio fs path he
  · split
    · simp
    · simp
    · split
      · simp
      · split
        · simp
        · split <;> simp

theorem readAt_ne_eio (fs : FS) (fd : Location) (offset count : ℕ) :
    fs.readAt fd offset count ≠ .error .eio := by
  unfold readAt
  split <;> simp

end FS

/-- The errors of a result are those of its image. -/
theorem map_ne_error {α β : Type} {r : Except Errno α} {e : Errno} (h : r ≠ .error e)
    (f : α → β) :
    r.map f ≠ .error e := by
  cases r with
  | error e' => simpa [Except.map] using h
  | ok a => simp [Except.map]

/-- The errors of a result are those of its update. -/
theorem update_ne_error {α : Type} {fs : FS} {r : Except Errno (α × FS)} {e : Errno}
    (h : r ≠ .error e) : (fs.update r).1 ≠ .error e := by
  cases r with
  | error e' => simpa [FS.update] using h
  | ok a => simp [FS.update]

/-! ### Computed executions -/

/-- The state of the file system dictates no fault. -/
theorem sysApply_not_faulted (c : SysChoice) (o : SysOp) (fs : FS) :
    ¬ Faulted ⟨o, (sysApply c o fs).1⟩ := by
  intro hfault
  cases o with
  | opendir path => exact map_ne_error (fs.opendir_ne_eio path) _ (Option.some.inj hfault).symm
  | closedir => exact absurd hfault (by simp [Faulted, SysOp.failed])
  | perror text => exact absurd hfault (by simp [Faulted, SysOp.failed])
  | mkdir path =>
      exact update_ne_error (map_ne_error (fs.mkdir_ne_eio path) _) (Option.some.inj hfault).symm
  | openFile path flags =>
      exact update_ne_error (fs.openFile_ne_eio path flags) (Option.some.inj hfault).symm
  | read fd offset count => exact fs.readAt_ne_eio _ _ _ (Option.some.inj hfault).symm
  | write fd offset data =>
      have hanswer := (Option.some.inj hfault).symm
      exact absurd hanswer (by simp [sysApply])
  | close fd => exact absurd hfault (by simp [Faulted, SysOp.failed])
  | remove path =>
      exact update_ne_error (map_ne_error (fs.remove_ne_eio path) _) (Option.some.inj hfault).symm

/-- A step under a choice that does not fail. -/
theorem sysStep_of_not_fail {c : SysChoice} (hc : c.fail = false) (o : SysOp) (fs : FS) :
    sysStep c o fs = sysApply c o fs := by
  unfold sysStep
  split
  · rename_i hfail _
    rw [hc] at hfail
    exact absurd hfail (by simp)
  · rfl

/-- A run on choices is an execution. -/
theorem exec_sysRunAny (env : ℕ → SysChoice) {α : Type} (p : Sys α) (fs : FS) :
    Exec SysStep p fs (p.run sysStep env fs).1 (p.run sysStep env fs).2.1
      (p.run sysStep env fs).2.2 := by
  induction p generalizing env fs with
  | ret a => exact Exec.ret a fs
  | call o k ih => exact Exec.call ⟨env 0, trivial, rfl⟩ (ih _ (fun n => env (n + 1)) _)

/-- A run on choices that do not fail is an execution without faults. -/
theorem exec_sysRun (env : ℕ → SysChoice) (henv : ∀ n, (env n).fail = false)
    {α : Type} (p : Sys α)
    (fs : FS) : Exec SysStep p fs (p.run sysStep env fs).1 (p.run sysStep env fs).2.1
      (p.run sysStep env fs).2.2 ∧ NoFault (p.run sysStep env fs).1 := by
  refine ⟨exec_sysRunAny env p fs, ?_⟩
  induction p generalizing env fs with
  | ret a => simp [NoFault, Prog.run]
  | call o k ih =>
      intro e he
      rcases List.mem_cons.mp he with rfl | he
      · rw [sysStep_of_not_fail (henv 0)]
        exact sysApply_not_faulted _ _ _
      · exact ih _ (fun n => env (n + 1)) (fun n => henv (n + 1)) (sysStep (env 0) o fs).2 e he

/-- **Every program over system calls has an execution without faults.** -/
theorem exec_noFault {α : Type} (p : Sys α) (fs : FS) :
    ∃ t a fs', Exec SysStep p fs t a fs' ∧ NoFault t :=
  ⟨_, _, _, exec_sysRun (fun _ => default) (fun _ => rfl) p fs⟩

/-! ## Steps of a service thread -/

/-- Every library call has an execution without faults. -/
theorem dbStep_exists (fs : FS) (call : DbCall) : ∃ x fs', DbStep noFaults fs call x fs' := by
  obtain ⟨t, x, fs', hexec, ht⟩ := exec_noFault (call.prog fs.depth) fs
  exact ⟨x, fs', t, hexec, ht⟩

/-- A call without faults tears nothing. -/
theorem DbStep.untorn {fs fs' : FS} {call : DbCall} {x : call.Ans}
    (h : DbStep noFaults fs call x fs') : DbStep untorn fs call x fs' := by
  obtain ⟨t, hexec, ht⟩ := h
  exact ⟨t, hexec, NoFault.untorn ht⟩

/-- Steps under a weaker condition on the calls. -/
theorem SrvStep.mono {T T' : DbCall → List sysE.Event → Prop}
    (hT : ∀ call t, T call t → T' call t)
    {w w' : SrvWorld} {o : SrvOp} {x : o.Ans} (h : SrvStep T w o x w') : SrvStep T' w o x w' := by
  cases o with
  | db call =>
      obtain ⟨⟨t, hexec, ht⟩, hinput⟩ := h
      exact ⟨⟨t, hexec, hT call t ht⟩, hinput⟩
  | _ => exact h

/-- Where nothing fails nothing is torn. -/
theorem noFaults_untorn (call : DbCall) (t : List sysE.Event) (h : noFaults call t) :
    untorn call t := NoFault.untorn h

/-- An execution without faults tears nothing. -/
theorem exec_untorn {α : Type} {p : Srv α} {w w' : SrvWorld} {t : List srvE.Event} {a : α}
    (h : Exec (SrvStep noFaults) p w t a w') : Exec (SrvStep untorn) p w t a w' :=
  h.mono fun _ _ _ _ _ hR => hR.mono noFaults_untorn

/-- Any execution is one in which calls may fail. -/
theorem exec_anyFaults {T : DbCall → List sysE.Event → Prop} {α : Type} {p : Srv α}
    {w w' : SrvWorld} {t : List srvE.Event} {a : α}
    (h : Exec (SrvStep T) p w t a w') : Exec (SrvStep anyFaults) p w t a w' :=
  h.mono fun _ _ _ _ _ hR => hR.mono fun _ _ _ => trivial

/-! ### Computed steps -/

/-- Every step of a service thread can be answered without faults. -/
theorem srvStep_exists (w : SrvWorld) (o : SrvOp) : ∃ x w', SrvStep noFaults w o x w' := by
  cases o with
  | db call =>
      obtain ⟨x, fs', h⟩ := dbStep_exists w.fs call
      exact ⟨x, { w with fs := fs' }, h, rfl⟩
  | recv buf =>
      let r := readLine w.input buf maxMsgSize
      exact ⟨(r.1, r.2.1), { w with input := r.2.2 }, rfl, rfl⟩
  | getpeername => exact ⟨(none : Option UInt32), w, rfl⟩
  | socket => exact ⟨true, w, rfl⟩
  | connect ip port => exact ⟨true, w, rfl⟩
  | write sock bytes => exact ⟨true, w, rfl⟩
  | close sock => exact ⟨(), w, rfl⟩
  | uninit => exact ⟨(default : Junk), w, rfl⟩
  | note n => exact ⟨(), w, rfl⟩

/-- **Every program of a service thread has an execution without faults.** -/
theorem exec_srvTotal {α : Type} (p : Srv α) (w : SrvWorld) :
    ∃ t a w', Exec (SrvStep noFaults) p w t a w' :=
  exec_total srvStep_exists p w

/-- A choice of the environment in which no system call fails. -/
def SrvChoice.Calm (c : SrvChoice) : Prop := ∀ n, (c.sys n).fail = false

/-- A step under a choice is a step; `T` has to hold of the system calls. -/
theorem srvApply_step {T : DbCall → List sysE.Event → Prop} {c : SrvChoice} {o : SrvOp}
    (hT : ∀ call, o = .db call →
        ∀ fs : FS, T call ((call.prog fs.depth).run sysStep c.sys fs).1)
    (w : SrvWorld) : SrvStep T w o (srvApply c o w).1 (srvApply c o w).2 := by
  cases o with
  | db call => exact ⟨⟨_, exec_sysRunAny c.sys _ _, hT call rfl w.fs⟩, rfl⟩
  | recv buf => exact ⟨rfl, rfl⟩
  | _ => exact rfl

/-- A calm choice gives a step without faults. -/
theorem srvApply_calm {c : SrvChoice} (hc : c.Calm) (o : SrvOp) (w : SrvWorld) :
    SrvStep noFaults w o (srvApply c o w).1 (srvApply c o w).2 :=
  srvApply_step (fun call _ fs => (exec_sysRun c.sys hc (call.prog fs.depth) fs).2) w

/-- A run on choices is an execution; `T` has to hold of the library calls of the run. -/
theorem exec_srvRunOn {T : DbCall → List sysE.Event → Prop} {α : Type}
    (env : ℕ → SrvChoice) (p : Srv α)
    (w : SrvWorld)
    (hT : ∀ n call, ((p.run srvApply env w).1.map Sigma.fst)[n]? = some (.db call) →
      ∀ fs : FS, T call ((call.prog fs.depth).run sysStep (env n).sys fs).1) :
    Exec (SrvStep T) p w (p.run srvApply env w).1 (p.run srvApply env w).2.1
      (p.run srvApply env w).2.2 := by
  induction p generalizing env w with
  | ret a => exact Exec.ret a w
  | call o k ih =>
      exact Exec.call (srvApply_step (fun call ho => hT 0 call (congrArg some ho)) w)
        (ih _ (fun n => env (n + 1)) _ fun n call hn => hT (n + 1) call hn)

/-- The same when `T` holds of every library call. -/
theorem exec_srvRunWith {T : DbCall → List sysE.Event → Prop} (env : ℕ → SrvChoice)
    (hT : ∀ n (call : DbCall) (fs : FS),
        T call ((call.prog fs.depth).run sysStep (env n).sys fs).1)
    {α : Type} (p : Srv α) (w : SrvWorld) : Exec (SrvStep T) p w (p.run srvApply env w).1
      (p.run srvApply env w).2.1 (p.run srvApply env w).2.2 :=
  exec_srvRunOn env p w fun n call _ fs => hT n call fs

/-- **A run on calm choices is an execution without faults.** -/
theorem exec_srvRun (env : ℕ → SrvChoice) (henv : ∀ n, (env n).Calm) {α : Type} (p : Srv α)
    (w : SrvWorld) : Exec (SrvStep noFaults) p w (p.run srvApply env w).1
      (p.run srvApply env w).2.1 (p.run srvApply env w).2.2 :=
  exec_srvRunWith env
    (fun n call fs => (exec_sysRun (env n).sys (henv n) (call.prog fs.depth) fs).2) p w

/-! ### Computed requests -/

/-- The database after a request that is handled under given choices. -/
def Req.run (env : ℕ → SrvChoice) (fuel : ℕ) (req : Req) (fs : FS) : FS :=
  ((req.body fuel).run srvApply env (SrvWorld.mk fs [])).2.2.fs

/-- The request has been handled to its end, and nothing was left on the connection. -/
def Req.Ends (env : ℕ → SrvChoice) (fuel : ℕ) (req : Req) (fs : FS) : Prop :=
  ((req.body fuel).run srvApply env (SrvWorld.mk fs [])).2.1 = some () ∧
    ((req.body fuel).run srvApply env (SrvWorld.mk fs [])).2.2.input = []

instance (env : ℕ → SrvChoice) (fuel : ℕ) (req : Req) (fs : FS) :
    Decidable (req.Ends env fuel fs) :=
  inferInstanceAs (Decidable (_ ∧ _))

/-- The run of a request is an execution of it. -/
theorem handles_runWith {T : DbCall → List sysE.Event → Prop} {env : ℕ → SrvChoice}
    (hT : ∀ n (call : DbCall) (fs : FS),
        T call ((call.prog fs.depth).run sysStep (env n).sys fs).1)
    {fuel : ℕ} {req : Req} {fs : FS} (h : req.Ends env fuel fs) :
    Handles T fs req ((req.body fuel).run srvApply env (SrvWorld.mk fs [])).1
      (req.run env fuel fs) := by
  have hexec := exec_srvRunWith env hT (req.body fuel) ⟨fs, []⟩
  refine ⟨fuel, ?_⟩
  rw [h.1] at hexec
  have hw : ((req.body fuel).run srvApply env (SrvWorld.mk fs [])).2.2 =
      ⟨req.run env fuel fs, []⟩ :=
    congrArg (SrvWorld.mk (req.run env fuel fs)) h.2
  rw [hw] at hexec
  exact hexec

/-- The run of a request on calm choices is one without faults. -/
theorem handles_run {env : ℕ → SrvChoice} (henv : ∀ n, (env n).Calm) {fuel : ℕ}
    {req : Req} {fs : FS}
    (h : req.Ends env fuel fs) :
    Handles noFaults fs req ((req.body fuel).run srvApply env (SrvWorld.mk fs [])).1
      (req.run env fuel fs) :=
  handles_runWith (fun n call fs => (exec_sysRun (env n).sys (henv n) (call.prog fs.depth) fs).2) h

/-- A request that is handled without faults tears nothing. -/
theorem Handles.untorn {fs fs' : FS} {req : Req} {t : List srvE.Event}
    (h : Handles noFaults fs req t fs') : Handles untorn fs req t fs' := by
  obtain ⟨fuel, h⟩ := h
  exact ⟨fuel, exec_untorn h⟩

/-! ### The empty database -/

/-- An empty database in the root directory. -/
def emptyDb : FS where
  cwd := []
  nodes := ⟨[⟨[], .dir⟩, ⟨[dbDir], .dir⟩], by unfold List.NodupKeys; decide⟩

/-- The empty database has the root and `users`. -/
theorem emptyDb_get (q : Location) :
    emptyDb.get q = if q = [] ∨ q = [dbDir] then some .dir else none := by
  unfold FS.get emptyDb
  simp only [AList.lookup]
  by_cases h₁ : q = []
  · subst h₁
    rfl
  by_cases h₂ : q = [dbDir]
  · subst h₂
    rfl
  · rw [if_neg (by simp [h₁, h₂]), List.dlookup_cons_ne _ _ (Ne.symm (Ne.symm h₁)),
      List.dlookup_cons_ne _ _ h₂, List.dlookup_nil]

/-- It is fresh. -/
theorem emptyDb_fresh : emptyDb.Fresh := by
  have hfile : ∀ q c, emptyDb.get q ≠ some (.file c) := by
    intro q c
    rw [emptyDb_get]
    split <;> simp
  have hchild : ∀ p c n, emptyDb.get (p ++ [c]) = some n → p = [] ∧ c = dbDir := by
    intro p c n hn
    rw [emptyDb_get] at hn
    split at hn
    · rename_i h
      rcases h with h | h
      · exact absurd h (by simp)
      · have happend : p ++ [c] = [] ++ [dbDir] := h
        obtain ⟨hp, hc⟩ := List.append_inj' happend rfl
        exact ⟨hp, List.singleton_inj.mp hc⟩
    · exact absurd hn (by simp)
  refine ⟨⟨fun p c n hn => ?_, fun p c n hn => ?_⟩, rfl, fun c => ?_, fun L c => hfile _ c,
    fun L n => ?_⟩
  · obtain ⟨rfl, -⟩ := hchild p c n hn
    rfl
  · obtain ⟨-, rfl⟩ := hchild p c n hn
    exact ⟨plain_dbDir, by decide⟩
  · rw [emptyDb_get, if_neg]
    simp [emptyDb]
  · rw [emptyDb_get, if_neg]
    rintro (h | h)
    · exact absurd (congrArg List.length h) (by simp [msgFile])
    · exact absurd (congrArg List.length h) (by simp [msgFile])
