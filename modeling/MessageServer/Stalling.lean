/-
# System calls that fail from some moment on

A server that is killed makes no further calls.  The database that it leaves is the one that is
left when all its further calls fail.

* `transferring`: a transfer goes on only behind one that has moved something;
* `orderly_prog`: the library keeps to this;
* `Stalled`, `SrvStalled`: from some moment on every system call fails and nothing is sent;
* `exec_stalled`: a call of the library that is continued in this way leaves the files alone;
* `exec_body_bounded`: a drain that reaches its bound has found as many messages.
-/
import MessageServer.Isolation
import MessageServer.PartialRun

/-! ## Transfers that go on -/

/-- A transfer that goes on where another one has ended. -/
def Continues : SysOp → Prop
  | .read _ offset _ => offset ≠ 0
  | .write _ offset _ => offset ≠ 0
  | _ => False

/-- Something has been transferred. -/
def transferred : (o : SysOp) → o.Ans → Bool
  | .read _ _ _, x => x.isOk
  | .write _ _ _, x => x.isOk
  | _, _ => false

/-- A transfer goes on only behind one that has moved something. -/
def transferring : Discipline sysE Bool where
  allowed moved o := Continues o → moved = true
  possible _ _ _ := True
  next _ o x := transferred o x

/-- A torn transfer is one step of a transfer. -/
theorem TornTransfer.continues {o : SysOp} {x : o.Ans} (h : TornTransfer ⟨o, x⟩) :
    Continues o := by
  cases o with
  | read fd offset count => exact h.2
  | write fd offset data => exact h.2
  | _ => exact h.2.elim

/-- The program begins every transfer that it goes on with. -/
def Orderly {α : Type} (p : Sys α) : Prop :=
  ∀ moved, p.Obeys transferring (fun _ _ => True) moved

/-! ### Orderly programs -/

section Orderly

variable {α β : Type}

/-- A program that does nothing is orderly. -/
theorem orderly_ret (a : α) : Orderly (.ret a : Sys α) := fun _ => trivial

/-- Orderly programs compose. -/
theorem Orderly.bind {p : Sys α} {f : α → Sys β} (hp : Orderly p) (hf : ∀ a, Orderly (f a)) :
    Orderly (p >>= f) := by
  intro moved
  rw [obeys_bind]
  exact (hp moved).mono fun moved' a _ => hf a moved'

/-- One call that transfers nothing. -/
theorem orderly_perform_bind {o : SysOp} (ho : ¬ Continues o) {f : o.Ans → Sys β}
    (hf : ∀ x, Orderly (f x)) :
    Orderly (@Prog.perform sysE o >>= f) :=
  fun _ => obeys_perform_bind.mpr ⟨fun hcont => absurd hcont ho, fun x _ => hf x _⟩

theorem orderly_writeBytes (fd : Location) (buffer : Bytes) : Orderly (writeBytes fd buffer) := by
  have hloop : ∀ (fuel : ℕ) (buffer : Bytes) (total : ℕ) (moved : Bool),
      (total ≠ 0 → moved = true) →
      (writeLoop fd fuel buffer total).Obeys transferring (fun _ _ => True) moved := by
    intro fuel
    induction fuel with
    | zero => exact fun _ _ _ _ => trivial
    | succ fuel ih =>
        intro buffer total moved hmoved
        refine obeys_perform_bind.mpr ⟨hmoved, fun x _ => ?_⟩
        cases x with
        | error e => trivial
        | ok n =>
            simp only
            split
            · exact ih _ _ _ fun _ => rfl
            · trivial
  intro moved
  rw [writeBytes]
  split
  · trivial
  · exact hloop _ _ _ _ fun h => absurd rfl h

theorem orderly_readBytes (fd : Location) (len : ℕ) : Orderly (readBytes fd len) := by
  have hloop : ∀ (fuel left : ℕ) (got : Bytes) (moved : Bool),
      (got.length ≠ 0 → moved = true) →
      (readLoop fd fuel left got).Obeys transferring (fun _ _ => True) moved := by
    intro fuel
    induction fuel with
    | zero => exact fun _ _ _ _ => trivial
    | succ fuel ih =>
        intro left got moved hmoved
        refine obeys_perform_bind.mpr ⟨hmoved, fun x _ => ?_⟩
        cases x with
        | error e => trivial
        | ok bs =>
            simp only
            split
            · exact ih _ _ _ fun _ => rfl
            · trivial
  intro moved
  rw [readBytes]
  split
  · trivial
  · exact hloop _ _ _ _ fun h => absurd rfl h

/-! ### The library is orderly -/

theorem orderly_transferEntry (fd : Location) (entry : Entry) (mode : Mode) :
    Orderly (transferEntry fd entry mode) := by
  unfold transferEntry
  split
  · refine (orderly_readBytes _ _).bind fun r => ?_
    split
    · exact orderly_perform_bind id fun _ => orderly_ret _
    split
    · exact orderly_perform_bind id fun _ => orderly_ret _
    · exact orderly_ret _
  · refine Orderly.bind ?_ fun n => orderly_ret _
    refine (orderly_writeBytes _ _).bind fun n => ?_
    split
    · exact orderly_perform_bind id fun _ => orderly_ret _
    · exact orderly_ret _

theorem orderly_openDirectory (path : Bytes) (mode : Mode) : Orderly (openDirectory path mode) := by
  unfold openDirectory
  split
  · exact orderly_ret _
  refine orderly_perform_bind id fun x => ?_
  cases x with
  | ok directory => exact orderly_ret _
  | error e =>
      simp only
      split
      · split
        · refine orderly_perform_bind id fun y => ?_
          cases y with
          | error e => exact orderly_ret _
          | ok u =>
              refine orderly_perform_bind id fun z => ?_
              cases z with
              | error e => exact orderly_ret _
              | ok directory => exact orderly_ret _
        · exact orderly_ret _
      · exact orderly_ret _

theorem orderly_removeFile (path : Bytes) (errno : Option Errno) :
    Orderly (removeFile path errno) := by
  refine orderly_perform_bind id fun x => ?_
  cases x with
  | ok u => exact orderly_ret _
  | error e => exact orderly_ret _

theorem orderly_reportMissing (path : Bytes) (errno : Option Errno) :
    Orderly (reportMissing path errno) := orderly_perform_bind id fun _ => orderly_ret _

theorem orderly_removeEntries {rmDir : Bytes → Sys (ℤ × Option Errno)}
    (hrm : ∀ path, Orderly (rmDir path))
    (path : Bytes) (ds : List Dirent) (errno : Option Errno) :
    Orderly (removeEntries rmDir path ds errno) := by
  induction ds generalizing errno with
  | nil => exact orderly_ret _
  | cons d ds ih =>
      rw [removeEntries]
      split
      · exact ih _
      refine Orderly.bind ?_ fun r => ?_
      · rw [removeEntry]
        split
        · exact hrm _
        · exact orderly_removeFile _ _
      · split
        · exact orderly_ret _
        · exact ih _

/-- `remove_recursive` is orderly. -/
theorem orderly_removeRecursive (depth : ℕ) (path : Bytes) :
    Orderly (removeRecursive depth path) := by
  induction depth generalizing path with
  | zero => exact orderly_ret _
  | succ depth ih =>
      rw [removeRecursive]
      refine orderly_perform_bind id fun x => ?_
      cases x with
      | ok directory =>
          refine (orderly_removeEntries ih _ _ _).bind fun r => ?_
          refine orderly_perform_bind id fun _ => ?_
          split
          · exact orderly_ret _
          split
          · exact orderly_reportMissing _ _
          · exact orderly_removeFile _ _
      | error e =>
          simp only
          split
          · exact orderly_reportMissing _ _
          · exact orderly_removeFile _ _

/-- `db_io_op_usr_ent` is orderly. -/
theorem orderly_dbIoOpUsrEnt (depth : ℕ) (entry : Entry) (mode : Mode) :
    Orderly (dbIoOpUsrEnt depth entry mode) := by
  unfold dbIoOpUsrEnt
  split
  · exact orderly_ret _
  split
  · exact orderly_ret _
  split
  · exact (orderly_removeRecursive _ _).bind fun _ => orderly_ret _
  refine Orderly.bind ?_ fun x => ?_
  · unfold openFile
    cases mode with
    | read => exact orderly_perform_bind id fun _ => orderly_ret _
    | create => exact orderly_perform_bind id fun _ => orderly_ret _
    | modify => exact orderly_perform_bind id fun _ => orderly_ret _
    | _ => exact orderly_ret _
  · cases x with
    | error e => exact orderly_ret _
    | ok fd =>
        refine (orderly_transferEntry _ _ _).bind fun r => ?_
        exact orderly_perform_bind id fun _ => orderly_ret _

/-- `db_get_pend_msg` is orderly. -/
theorem orderly_dbGetPendMsg (depth : ℕ) (entry : Entry) :
    Orderly (dbGetPendMsg depth entry) := by
  unfold dbGetPendMsg
  split
  · exact orderly_ret _
  refine (orderly_openDirectory _ _).bind fun r => ?_
  split
  · exact orderly_ret _
  split
  · exact orderly_perform_bind id fun _ => orderly_ret _
  split
  · exact orderly_ret _
  · refine (orderly_dbIoOpUsrEnt _ _ _).bind fun e => ?_
    exact orderly_perform_bind id fun _ => orderly_ret _

/-- `db_creat_usr_tbl` is orderly. -/
theorem orderly_dbCreatUsrTbl (depth : ℕ) (entry : Entry) :
    Orderly (dbCreatUsrTbl depth entry) := by
  refine (orderly_openDirectory _ _).bind fun r => ?_
  split
  · exact orderly_perform_bind id fun _ => orderly_ret _
  split
  · exact orderly_ret _
  refine (orderly_dbIoOpUsrEnt _ _ _).bind fun w => ?_
  split
  · exact orderly_ret _
  refine (orderly_openDirectory _ _).bind fun p => ?_
  split
  · exact orderly_ret _
  · exact orderly_perform_bind id fun _ => orderly_ret _

/-- **Every library call begins its transfers.** -/
theorem orderly_prog (depth : ℕ) (call : DbCall) : Orderly (call.prog depth) := by
  cases call with
  | userExists username =>
      refine (orderly_openDirectory _ _).bind fun r => ?_
      split
      · exact orderly_ret _
      split
      · exact orderly_perform_bind id fun _ => orderly_ret _
      · exact orderly_ret _
  | ioOpUsrEnt entry mode => exact orderly_dbIoOpUsrEnt _ _ _
  | getPendMsg entry => exact orderly_dbGetPendMsg _ _
  | creatUsrTbl entry => exact orderly_dbCreatUsrTbl _ _
  | delUsrTbl username => exact (orderly_removeRecursive _ _).bind fun _ => orderly_ret _

end Orderly

/-! ## Nothing succeeds any more -/

/-- A system call that fails, and does nothing. -/
def Stalled (fs : FS) (o : SysOp) (x : o.Ans) (fs' : FS) : Prop :=
  SysStep fs o x fs' ∧ fs' = fs ∧ ∀ y, o.failed = some y → x = y

/-- Every call may fail and change nothing. -/
theorem stalled_exists (fs : FS) (o : SysOp) : ∃ x, Stalled fs o x fs := by
  have hstep : ∀ x, sysStep { (default : SysChoice) with fail := true } o fs = (x, fs) →
      SysStep fs o x fs := fun x h => ⟨_, trivial, h⟩
  cases o with
  | closedir => exact ⟨(), hstep _ rfl, rfl, fun _ _ => rfl⟩
  | perror text => exact ⟨(), hstep _ rfl, rfl, fun _ _ => rfl⟩
  | close fd => exact ⟨(), hstep _ rfl, rfl, fun _ _ => rfl⟩
  | _ => exact ⟨_, hstep _ rfl, rfl, fun y hy => Option.some.inj hy⟩

/-- A call that fails transfers nothing. -/
theorem Stalled.not_transferred {fs fs' : FS} {o : SysOp} {x : o.Ans} (h : Stalled fs o x fs') :
    transferred o x = false := by
  cases o with
  | read fd offset count => exact congrArg Except.isOk (h.2.2 _ rfl)
  | write fd offset data => exact congrArg Except.isOk (h.2.2 _ rfl)
  | _ => rfl

/-- What is left of a library call comes to its end without a change, and without a torn transfer
when none is going on. -/
theorem exec_stalled {α : Type} {p : Sys α} (hp : p.Obeys transferring (fun _ _ => True) false)
    (fs : FS) :
    ∃ t a, Exec SysStep p fs t a fs ∧ Exec Stalled p fs t a fs ∧ Untorn t := by
  obtain ⟨t, a, hexec⟩ := exec_unchanged (R := Stalled) (s := fs) (stalled_exists fs) p
  refine ⟨t, a, hexec.mono fun _ _ _ _ _ h => h.1, hexec, ?_⟩
  have hstep : ∀ t (s : FS) (moved : Bool) (o : SysOp) (x : o.Ans) s', Untorn t ∧
      moved = false →
      transferring.allowed moved o → Stalled s o x s' → transferring.possible moved o x ∧
        Untorn (t ++ [⟨o, x⟩]) ∧ transferring.next moved o x = false := by
    rintro t s _ o x s' ⟨ht, rfl⟩ hallowed hstalled
    refine ⟨trivial, fun e he htorn => ?_, hstalled.not_transferred⟩
    rcases List.mem_append.mp he with he | he
    · exact ht e he htorn
    · obtain rfl := List.mem_singleton.mp he
      exact absurd (hallowed htorn.continues) (by simp)
  have hstart : Untorn [] ∧ false = false := ⟨fun e he => absurd he List.not_mem_nil, rfl⟩
  obtain ⟨-, ⟨ht, -⟩, -⟩ :=
    Exec.obeys_history (I := fun t _ moved => Untorn t ∧ moved = false) hstep hexec hp hstart
  exact ht

/-- A message has been found. -/
def foundMsg : srvE.Event → Bool
  | ⟨.db (.getPendMsg _), x⟩ => decide (x.1 = dbmsSuccess)
  | _ => false

/-- Something has been sent. -/
def wentOut : srvE.Event → Bool
  | ⟨.write _ _, x⟩ => x
  | _ => false

/-- A step of a service thread in which every system call fails, and nothing changes. -/
def SrvStalled (w : SrvWorld) : (o : SrvOp) → o.Ans → SrvWorld → Prop
  | .db call, x, w' =>
      w' = w ∧ ∃ t, Exec Stalled (call.prog w.fs.depth) w.fs t x w.fs ∧ Untorn t
  | .getpeername, x, w' => w' = w ∧ (x : Option UInt32) = none
  | .socket, x, w' => w' = w ∧ (x : Bool) = false
  | .connect _ _, x, w' => w' = w ∧ (x : Bool) = false
  | .write _ _, x, w' => w' = w ∧ (x : Bool) = false
  | .recv buf, x, w' => w' = w ∧ SrvStep untorn w (.recv buf) x w
  | .close _, _, w' => w' = w
  | .uninit, _, w' => w' = w
  | .note _, _, w' => w' = w

/-- No message is found when nothing succeeds. -/
theorem getPendMsg_stalled {fs fs' : FS} {depth : ℕ} {e : Entry} {t : List sysE.Event}
    {r : ℤ × Entry}
    (h : Exec Stalled (dbGetPendMsg depth e) fs t r fs') : r.1 ≠ dbmsSuccess := by
  unfold dbGetPendMsg at h
  split at h
  · obtain ⟨-, rfl, -⟩ := exec_ret_iff.mp h
    show genErrInvArgs ≠ dbmsSuccess
    decide
  obtain ⟨t₁, r₁, fs₁, t₂, h₁, h₂, rfl⟩ := exec_bind_iff.mp h
  rw [openDirectory, if_neg (by decide)] at h₁
  obtain ⟨x, fs₂, t₃, hstep, hrest, rfl⟩ := exec_perform_bind_iff.mp h₁
  obtain rfl := hstep.2.2 _ rfl
  simp only [if_neg (show Errno.eio ≠ Errno.enoent by decide)] at hrest
  obtain ⟨-, rfl, -⟩ := exec_ret_iff.mp hrest
  rw [if_pos (by decide)] at h₂
  obtain ⟨-, rfl, -⟩ := exec_ret_iff.mp h₂
  show dbmsErrAny ≠ dbmsSuccess
  decide

/-- It is a step that a service thread may make. -/
theorem SrvStalled.step {w w' : SrvWorld} {o : SrvOp} {x : o.Ans} (h : SrvStalled w o x w') :
    SrvStep untorn w o x w' := by
  cases o with
  | db call =>
      obtain ⟨rfl, t, hexec, ht⟩ := h
      exact ⟨⟨t, hexec.mono fun _ _ _ _ _ h => h.1, ht⟩, rfl⟩
  | recv buf =>
      obtain ⟨rfl, hstep⟩ := h
      exact hstep
  | getpeername => exact h.1
  | socket => exact h.1
  | connect ip port => exact h.1
  | write sock bytes => exact h.1
  | close sock => exact h
  | uninit => exact h
  | note n => exact h

/-- No message is found, and nothing is sent. -/
theorem SrvStalled.quiet {w w' : SrvWorld} {o : SrvOp} {x : o.Ans} (h : SrvStalled w o x w') :
    foundMsg ⟨o, x⟩ = false ∧ wentOut ⟨o, x⟩ = false := by
  cases o with
  | db call =>
      obtain ⟨-, t, hexec, -⟩ := h
      refine ⟨?_, rfl⟩
      cases call with
      | getPendMsg e => exact decide_eq_false (getPendMsg_stalled hexec)
      | _ => rfl
  | write sock bytes => exact ⟨rfl, h.2⟩
  | _ => exact ⟨rfl, rfl⟩

/-- Every step of a thread may fail and change nothing. -/
theorem srvStalled_exists {w : SrvWorld} (hw : w.input = []) (o : SrvOp) :
    ∃ x, SrvStalled w o x w := by
  cases o with
  | db call =>
      obtain ⟨t, x, -, hstalled, ht⟩ := exec_stalled (orderly_prog w.fs.depth call false) w.fs
      exact ⟨x, rfl, t, hstalled, ht⟩
  | recv buf =>
      refine ⟨(0, buf), rfl, rfl, ?_⟩
      rw [hw]
      rfl
  | getpeername => exact ⟨none, rfl, rfl⟩
  | socket => exact ⟨false, rfl, rfl⟩
  | connect ip port => exact ⟨false, rfl, rfl⟩
  | write sock bytes => exact ⟨false, rfl, rfl⟩
  | close sock => exact ⟨(), rfl⟩
  | uninit => exact ⟨(default : Junk), rfl⟩
  | note n => exact ⟨(), rfl⟩

/-! ## The rounds of a drain -/

/-- Counts the messages that have been found. -/
def rounds : Discipline srvE ℕ where
  allowed _ _ := True
  possible _ _ _ := True
  next n o x := if foundMsg ⟨o, x⟩ then n + 1 else n

/-- A round is counted once. -/
theorem obeys_rounds {α : Type} (p : Srv α) (n : ℕ) :
    p.Obeys rounds (fun n' _ => n ≤ n') n := by
  induction p generalizing n with
  | ret a => exact le_rfl
  | call o k ih =>
      refine ⟨trivial, fun x _ => (ih x _).mono fun n' _ h => le_trans ?_ h⟩
      show n ≤ if foundMsg ⟨o, x⟩ then n + 1 else n
      split <;> omega

/-- The bound on the rounds is reached with as many messages only. -/
theorem obeys_rounds_drainLoop (fuel : ℕ) (pendMsgEntry recipientEntry senderEntry : Entry)
    (n : ℕ) :
    (drainLoop fuel pendMsgEntry recipientEntry senderEntry).Obeys rounds
      (fun n' a => a = none → n + fuel ≤ n') n := by
  induction fuel generalizing pendMsgEntry recipientEntry senderEntry n with
  | zero => exact fun _ => le_rfl
  | succ fuel ih =>
      rw [drainLoop]
      refine obeys_perform_bind.mpr ⟨trivial, fun g _ => ?_⟩
      split
      · rename_i hfound
        have hnext : rounds.next n (.db (.getPendMsg pendMsgEntry)) g = n + 1 :=
          if_pos (decide_eq_true hfound)
        rw [hnext, obeys_bind]
        refine (obeys_rounds _ _).mono fun n₁ r hn₁ => ?_
        split
        · refine obeys_perform_bind.mpr ⟨trivial, fun _ _ => ?_⟩
          rw [obeys_bind]
          refine (obeys_rounds _ _).mono fun n₂ a hn₂ => (ih _ _ _ _).mono fun n₃ b h hb => ?_
          have hend := h hb
          change n₁ ≤ n₂ at hn₂
          omega
        · exact obeys_perform_bind.mpr ⟨trivial, fun _ _ hnone => absurd hnone (by simp)⟩
      · exact fun hnone => absurd hnone (by simp)

/-- A request that runs out of its bound has made that many rounds. -/
theorem obeys_rounds_body (fuel : ℕ) (req : Req) :
    (req.body fuel).Obeys rounds (fun n a => a = none → fuel ≤ n) 0 := by
  have hfinished : ∀ p : Srv Unit, (finished p).Obeys rounds (fun n a => a = none →
      fuel ≤ n) 0 := by
    intro p
    rw [finished, obeys_bind]
    exact (obeys_rounds p 0).mono fun _ _ _ hnone => absurd hnone (by simp)
  cases req with
  | register u => exact hfinished _
  | unregister u => exact hfinished _
  | disconnect u => exact hfinished _
  | send s r c => exact hfinished _
  | unknown => exact fun hnone => absurd hnone (by simp)
  | connect u port =>
      refine obeys_perform_bind.mpr ⟨trivial, fun junk _ => ?_⟩
      refine obeys_perform_bind.mpr ⟨trivial, fun r _ => ?_⟩
      rw [obeys_bind]
      refine (obeys_rounds _ _).mono fun n₁ code _ => ?_
      rw [obeys_bind]
      refine (obeys_rounds _ _).mono fun n₂ _ _ => ?_
      rw [obeys_bind, auxConnectSendPendMsgs]
      refine obeys_perform_bind.mpr ⟨trivial, fun junk _ => ?_⟩
      refine obeys_perform_bind.mpr ⟨trivial, fun r _ => ?_⟩
      split
      · exact fun hnone => absurd hnone (by simp)
      · refine (obeys_rounds_drainLoop _ _ _ _ _).mono fun n a h hnone => ?_
        have hend := h (Option.map_eq_none_iff.mp hnone)
        omega

/-- A thread that reaches the bound has found as many messages. -/
theorem exec_body_bounded {T : DbCall → List sysE.Event → Prop} {fuel : ℕ} {req : Req}
    {w w' : SrvWorld}
    {t : List srvE.Event} (h : Exec (SrvStep T) (req.body fuel) w t none w') :
    fuel ≤ t.countP foundMsg := by
  have hstep : ∀ t (s : SrvWorld) (n : ℕ) (o : SrvOp) (x : o.Ans) s', n = t.countP foundMsg →
      rounds.allowed n o → SrvStep T s o x s' → rounds.possible n o x ∧
        rounds.next n o x = (t ++ [⟨o, x⟩]).countP foundMsg := by
    rintro t s _ o x s' rfl - -
    refine ⟨trivial, ?_⟩
    rw [List.countP_append, List.countP_singleton]
    show (if foundMsg ⟨o, x⟩ then _ else _) = _
    split <;> rfl
  have hstart : 0 = ([] : List srvE.Event).countP foundMsg := rfl
  obtain ⟨n, hn, hend⟩ := Exec.obeys_history (I := fun t _ n => n = t.countP foundMsg) hstep h
    (obeys_rounds_body fuel req) hstart
  rw [List.nil_append] at hn
  exact hn ▸ hend rfl
