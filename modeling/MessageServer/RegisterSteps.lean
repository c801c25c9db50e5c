/-
# A registration down to its system calls

* `registering`: a thread that handles a `REGISTER`, each system call a step of its own;
* `RegPhase`, `registration`: where it is, as a discipline;
* `RegMove`: what one step does to the table of the user.
-/
import MessageServer.Interleaving
import MessageServer.Registration

/-! ## Threads down to their system calls -/

/-- The answer to a system call, or to another step of a service thread. -/
abbrev callAns : SysOp ⊕ SrvOp → Type
  | .inl o => o.Ans
  | .inr o => o.Ans

/-- The signature of a service thread whose library calls are taken apart. -/
abbrev callE : Effects := ⟨SysOp ⊕ SrvOp, callAns⟩

/-- A library function, as part of a thread. -/
def lift {α : Type} (p : Sys α) : Prog callE α :=
  p.interp fun o => @Prog.perform callE (Sum.inl o)

/-- The calls of a sequence. -/
theorem lift_bind {α β : Type} (p : Sys α) (f : α → Sys β) :
    lift (p >>= f) = lift p >>= fun a => lift (f a) :=
  Prog.interp_bind _ p f

/-- A step of a thread: the calls of the library are its system calls. -/
def expand (depth : ℕ) : (o : SrvOp) → Prog callE o.Ans
  | .db call => lift (call.prog depth)
  | o => @Prog.perform callE (Sum.inr o)

/-- A thread that handles `REGISTER u`. -/
def registering (depth : ℕ) (u : Bytes) : Prog callE Unit :=
  (srvRegisterBody u).interp (expand depth)

/-- One step of a thread on the file system they share: a system call fails only where
the file system's state makes it fail, the network answers as it likes. -/
def CallStep (fs : FS) : (o : SysOp ⊕ SrvOp) → callE.Ans o → FS → Prop
  | .inl o, x, fs' => SysStepOk fs o x fs'
  | .inr _, _, fs' => fs' = fs

/-- What thread `i` did other than system calls. -/
def eventsOf {ι : Type} [DecidableEq ι] (i : ι) : List (ι × callE.Event) → List srvE.Event
  | [] => []
  | (j, ⟨.inr o, x⟩) :: t => if j = i then ⟨o, x⟩ :: eventsOf i t else eventsOf i t
  | (_, ⟨.inl _, _⟩) :: t => eventsOf i t

/-- The reply byte of a step, if it is one. -/
def replyOfCall : SysOp ⊕ SrvOp → Option UInt8
  | .inl _ => none
  | .inr o => replyOf o

/-- One thread is answered that it has registered the user, all others that he is
registered already. -/
def OneWinner {ι : Type} [DecidableEq ι] (t : List (ι × callE.Event)) : Prop :=
  ∃ i, reply (eventsOf i t) = some srvSuccess ∧
    ∀ j, j ≠ i → reply (eventsOf j t) = some srvErrRegUsrAlreadyReg

/-- A table can be made for `u`: its path leads to a free place. -/
def FS.FreePlace (fs : FS) (u : Bytes) : Prop :=
  ∃ L, fs.locate (userTablePath u) = .ok L ∧ fs.get L = none

/-- Every `mkdir` of the table of `u` succeeds: it finds the place still free. -/
def MkdirsSucceed {ι : Type} (u : Bytes) (t : List (ι × callE.Event)) : Prop :=
  ∀ i (x : Except Errno Unit),
    (i, (⟨.inl (.mkdir (userTablePath u)), x⟩ : callE.Event)) ∈ t → x = .ok ()

section Events

variable {ι : Type} [DecidableEq ι] {i j : ι} {t : List (ι × callE.Event)}

/-- The events of a thread in two pieces. -/
theorem eventsOf_append (i : ι) (t t' : List (ι × callE.Event)) :
    eventsOf i (t ++ t') = eventsOf i t ++ eventsOf i t' := by
  induction t with
  | nil => rfl
  | cons e t ih =>
      obtain ⟨j, o | o, x⟩ := e
      · exact ih
      · rw [List.cons_append, eventsOf, eventsOf]
        split
        · rw [ih]
          rfl
        · exact ih

/-- The reply of a thread after one more step. -/
theorem reply_eventsOf_snoc {o : SysOp ⊕ SrvOp} {x : callE.Ans o} :
    reply (eventsOf i (t ++ [(j, ⟨o, x⟩)])) =
      if j = i then (reply (eventsOf i t)).or (replyOfCall o) else reply (eventsOf i t) := by
  rw [eventsOf_append]
  cases o with
  | inl o =>
      rw [eventsOf, eventsOf, List.append_nil, replyOfCall, Option.or_none, ite_self]
  | inr o =>
      rw [eventsOf]
      split
      · exact reply_snoc
      · rw [eventsOf, List.append_nil]

end Events

/-! ## The phases of a registration -/

/-- How a registration ends: the thread made the table, it found it, or its `mkdir` or
its `opendir` failed. -/
inductive RegEnd
  | made
  | found
  | lost
  deriving DecidableEq

/-- What the thread replies. -/
def RegEnd.code : RegEnd → UInt8
  | .found => srvErrRegUsrAlreadyReg
  | _ => srvSuccess

/-- Where a thread is: before its `opendir`, behind one that found nothing, or at its
end, where it may have replied. -/
inductive RegPhase
  | start
  | missing
  | ended (how : RegEnd) (replied : Bool)

/-- What the thread has replied. -/
def RegPhase.reply : RegPhase → Option UInt8
  | .ended how true => some how.code
  | _ => none

/-- How the thread ended, if it did. -/
def RegPhase.how : RegPhase → Option RegEnd
  | .ended how _ => some how
  | _ => none

/-- The calls that fill a table, and no `mkdir` of the table. -/
def Filling (u : Bytes) : SysOp → Prop
  | .remove _ => False
  | .mkdir path => path ≠ userTablePath u
  | _ => True

/-- The discipline of a registration of `u`. -/
def registration (u : Bytes) : Discipline callE RegPhase where
  allowed
    | .start, .inl o => o = .opendir (userTablePath u)
    | .start, .inr o => o = .uninit
    | .missing, o => o = .inl (.mkdir (userTablePath u))
    | .ended .made false, .inl o => Filling u o
    | .ended .found false, .inl o => o = .closedir
    | .ended how false, .inr o => o = .write .client [how.code]
    | .ended _ true, .inr o => o = .close .client
    | _, _ => False
  possible _ _ _ := True
  next
    | .start, .inl (.opendir _), .ok _ => .ended .found false
    | .start, .inl (.opendir _), .error e => if e = .enoent then .missing else .ended .lost false
    | .missing, .inl (.mkdir _), .ok _ => .ended .made false
    | .missing, .inl (.mkdir _), .error _ => .ended .lost false
    | .ended how false, .inr (.write _ _), _ => .ended how true
    | ph, _, _ => ph

/-! ## A registration obeys its discipline -/

section Discipline

variable {u : Bytes}

/-- Lifted calls perform what they did. -/
theorem performs_lift {α : Type} {P : SysOp → Prop} {p : Sys α} (h : p.Performs P) :
    (lift p).Performs fun o => ∃ o', o = Sum.inl o' ∧ P o' := by
  induction p with
  | ret a => trivial
  | call o k ih => exact ⟨⟨o, rfl, h.1⟩, fun x => ih x (h.2 x)⟩

/-- A thread that fills the table it made. -/
theorem obeys_filling {α : Type} {p : Sys α} (hp : p.Performs (Filling u))
    {Q : RegPhase → α → Prop}
    (hQ : ∀ a, Q (.ended .made false) a) :
    (lift p).Obeys (registration u) Q (.ended .made false) := by
  refine obeys_of_performs ?_ (performs_lift hp) hQ
  rintro _ ⟨o, rfl, ho⟩
  refine ⟨ho, fun x => ?_⟩
  cases o <;> rfl

/-- What stores an entry fills a table. -/
theorem Storing.filling {o : SysOp} (h : Storing o) : Filling u o := by
  cases o with
  | mkdir path => exact h.elim
  | remove path => exact h.elim
  | _ => trivial

/-- Making the directory of the pending messages. -/
theorem filling_openDirectory {path : Bytes} (hpath : path ≠ userTablePath u) :
    (openDirectory path .create).Performs (Filling u) := by
  rw [openDirectory, if_neg (by decide)]
  refine Prog.Performs.bind ((Prog.performs_perform _ _).mpr trivial) fun x => ?_
  cases x with
  | ok l => trivial
  | error e =>
      dsimp only
      split
      · refine Prog.Performs.bind ((Prog.performs_perform _ _).mpr hpath) fun y => ?_
        cases y with
        | error e' => trivial
        | ok a =>
            refine Prog.Performs.bind ((Prog.performs_perform _ _).mpr trivial) fun z => ?_
            cases z <;> trivial
      · trivial

/-- Filling a table that was made never ends with `DBMS_ERR_EXISTS`. -/
theorem obeys_fill (depth : ℕ) (ud : Userdata) : (lift (do
      let w ← dbIoOpUsrEnt depth ⟨u, .user ud⟩ .create
      if w.1 < 0 then return dbmsErrAny
      else do
        let p ← openDirectory (pendTablePath u) .create
        if p.1 < 0 then return dbmsErrAny
        else do
          let _ ← sysClosedir
          return dbmsSuccess)).Obeys (registration u)
    (fun ph (r : ℤ) => ph = .ended .made false ∧ r ≠ dbmsErrExists) (.ended .made false) := by
  have hwrite := (storing_ioOp_create ⟨u, .user ud⟩ depth (Or.inl rfl)).mono
    fun _ => Storing.filling (u := u)
  rw [lift_bind]
  refine obeys_bind.mpr (obeys_filling hwrite fun w => ?_)
  split
  · exact ⟨rfl, by decide⟩
  · rw [lift_bind]
    refine obeys_bind.mpr (obeys_filling (filling_openDirectory (pendTablePath_ne_userTablePath u))
      fun p => ?_)
    split
    · exact ⟨rfl, by decide⟩
    · exact ⟨trivial, fun _ _ => ⟨rfl, by decide⟩⟩

/-- `db_creat_usr_tbl` obeys the discipline; it ends with `DBMS_ERR_EXISTS` when the
table was found. -/
theorem obeys_creatUsrTbl {depth : ℕ} {ud : Userdata} :
    (lift (dbCreatUsrTbl depth ⟨u, .user ud⟩)).Obeys (registration u)
      (fun ph (r : ℤ) => ∃ how, ph = .ended how false ∧
          (r = dbmsErrExists ↔ how = .found)) .start := by
  rw [lift, dbCreatUsrTbl, openDirectory, if_neg (by decide), bind_assoc]
  refine ⟨rfl, fun x _ => ?_⟩
  cases x with
  | ok l => exact ⟨rfl, fun _ _ => ⟨.found, rfl, by decide⟩⟩
  | error e =>
      cases e with
      | enoent =>
          refine ⟨rfl, fun y _ => ?_⟩
          cases y with
          | error e' => exact ⟨.lost, rfl, by decide⟩
          | ok a =>
              refine ⟨trivial, fun z _ => ?_⟩
              cases z with
              | error e' => exact ⟨.made, rfl, by decide⟩
              | ok l =>
                  exact (obeys_fill depth ud).mono fun ph r h => ⟨.made, h.1, by simp [h.2]⟩
      | _ => exact ⟨.lost, rfl, by decide⟩

/-- **A thread that handles `REGISTER` obeys the discipline**, and has replied at its
end. -/
theorem obeys_registering (depth : ℕ) (u : Bytes) : (registering depth u).Obeys (registration u)
    (fun ph _ => ∃ how, ph = .ended how true) .start := by
  refine ⟨rfl, fun junk _ => ?_⟩
  change (lift (dbCreatUsrTbl depth ⟨u, .user { junk.user with lastMsgId := 0 }⟩) >>= fun r =>
    Prog.interp (expand depth) (sendServerReply
      (if r = dbmsErrExists then srvErrRegUsrAlreadyReg else srvSuccess) >>= fun _ =>
        return ())).Obeys
      _ _ _
  refine obeys_bind.mpr (obeys_creatUsrTbl.mono ?_)
  rintro _ r ⟨how, rfl, hr⟩
  have hcode : (if r = dbmsErrExists then srvErrRegUsrAlreadyReg else srvSuccess) = how.code := by
    cases how with
    | found => exact if_pos (hr.mpr rfl)
    | _ => exact if_neg fun h => absurd (hr.mp h) (by simp)
  rw [hcode]
  refine ⟨?_, fun ok _ => ?_⟩
  · cases how <;> rfl
  · cases ok with
    | true => cases how <;> exact ⟨_, rfl⟩
    | false => cases how <;> exact ⟨rfl, fun _ _ => ⟨_, rfl⟩⟩

end Discipline

/-! ## What one step does -/

section Steps

variable {fs fs' : FS} {u : Bytes}

/-- A node that is put where no directory is leaves the user's table. -/
theorem hasTable_put {p : Location} {n : Node} (hp : fs.get p ≠ some .dir) (h : fs.HasTable u) :
    (fs.put p n).HasTable u := by
  obtain ⟨L, hL⟩ := h
  exact ⟨L, dirAt_put hp hL⟩

/-- No call but `remove` takes a table away. -/
theorem hasTable_of_filling {o : SysOp} {x : o.Ans} (ho : Filling u o) (hstep : SysStep fs o x fs')
    (htable : fs.HasTable u) : fs'.HasTable u := by
  cases o with
  | opendir path => exact hstep.opendir.1 ▸ htable
  | closedir => exact hstep.closedir ▸ htable
  | perror text => exact hstep.perror ▸ htable
  | close fd => exact hstep.close ▸ htable
  | read fd offset count => exact hstep.read.1 ▸ htable
  | remove path => exact ho.elim
  | mkdir path =>
      rcases hstep.mkdir with ⟨-, rfl⟩ | ⟨e, -, -, rfl⟩ | ⟨hmk, -⟩
      · exact htable
      · exact htable
      · obtain ⟨p, -, hnew, rfl⟩ := FS.mkdir_ok hmk
        exact hasTable_put (by rw [hnew]; simp) htable
  | openFile path flags =>
      rcases hstep.openFile with ⟨-, rfl⟩ | ⟨e, -, -, rfl⟩ | ⟨fd, hopen, -⟩
      · exact htable
      · exact htable
      · cases flags with
        | rdonly => exact (openFile_rdonly_ok hopen).2.2 ▸ htable
        | wronlyCreatExcl =>
            obtain ⟨-, hfree, rfl⟩ := openFile_write_ok (Or.inl rfl)
              (show fs.openFile path Mode.create.flags = .ok (fd, fs') from hopen)
            exact hasTable_put (writable_ne_dir hfree) htable
        | wronlyTrunc =>
            obtain ⟨-, hfree, rfl⟩ := openFile_write_ok (Or.inr rfl)
              (show fs.openFile path Mode.modify.flags = .ok (fd, fs') from hopen)
            exact hasTable_put (writable_ne_dir hfree) htable
  | write fd offset data =>
      rcases hstep.write with ⟨-, rfl⟩ | ⟨n, -, -, -, rfl⟩
      · exact htable
      · unfold FS.writeAt
        split
        · rename_i c hget
          exact hasTable_put (by rw [hget]; simp) htable
        · exact htable

/-- What a thread in phase `ph` can do to the shared file system with one step. -/
inductive RegMove (u : Bytes) (fs fs' : FS) (ph : RegPhase) :
    (o : SysOp ⊕ SrvOp) → callE.Ans o →
    RegPhase → Prop
  | stay {o : SysOp ⊕ SrvOp} {x : callE.Ans o} {ph' : RegPhase} (hhow : ph'.how = ph.how)
      (hfs : fs' = fs ∨ (ph.how = some .made ∧ (fs.HasTable u → fs'.HasTable u)))
      (hop : o ≠ .inl (.mkdir (userTablePath u))) : RegMove u fs fs' ph o x ph'
  | find (l : List Dirent) (hnew : ph.how = none) (hfs : fs' = fs) (htable : fs.HasTable u) :
      RegMove u fs fs' ph (.inl (.opendir (userTablePath u))) (.ok l) (.ended .found false)
  | refuse (e : Errno) (hnew : ph.how = none) (hfs : fs' = fs) (htable : ¬ fs.HasTable u)
      (hplace : ¬ fs.FreePlace u) :
      RegMove u fs fs' ph (.inl (.opendir (userTablePath u))) (.error e) (.ended .lost false)
  | make (hnew : ph.how = none) (hplace : fs.FreePlace u) (htable : fs'.HasTable u) :
      RegMove u fs fs' ph (.inl (.mkdir (userTablePath u))) (.ok ()) (.ended .made false)
  | lose (e : Errno) (hnew : ph.how = none) (hfs : fs' = fs) (hplace : ¬ fs.FreePlace u) :
      RegMove u fs fs' ph (.inl (.mkdir (userTablePath u))) (.error e) (.ended .lost false)

/-! ### The cases of a step -/

/-- An `opendir` that the state refuses finds no table, and with another error than
`ENOENT` no place for one. -/
theorem opendir_refused {e : Errno} (h : fs.opendir (userTablePath u) = .error e) :
    ¬ fs.HasTable u ∧ (e ≠ .enoent → ¬ fs.FreePlace u) := by
  refine ⟨?_, ?_⟩
  · rintro ⟨L, hL⟩
    rw [hL.opendir] at h
    exact absurd h (by simp)
  · rintro hne ⟨L, hL, hnew⟩
    rw [FS.opendir, hL] at h
    simp only [hnew, Except.error.injEq] at h
    exact hne h.symm

/-- A step that the state dictates is no fault. -/
theorem SysStepOk.not_faulted {o : SysOp} {x : o.Ans} (h : SysStepOk fs o x fs') :
    ¬ Faulted ⟨o, x⟩ := by
  obtain ⟨c, hc, h⟩ := h
  rw [sysStep_of_not_fail hc] at h
  have hnot := sysApply_not_faulted c o fs
  rw [h] at hnot
  exact hnot

/-- The first call of a registration. -/
theorem regMove_opendir {x : Except Errno (List Dirent)} {ph : RegPhase} (hph : ph.how = none)
    (h : SysStepOk fs (.opendir (userTablePath u)) x fs') :
    RegMove u fs fs' ph (.inl (.opendir (userTablePath u))) x
      ((registration u).next .start (.inl (.opendir (userTablePath u))) x) := by
  obtain ⟨rfl, heio | ⟨e, he, rfl⟩ | ⟨l, l', hl, -, rfl⟩⟩ := h.toSysStep.opendir
  · exact absurd (congrArg some heio.symm) h.not_faulted
  · obtain ⟨hno, hplace⟩ := opendir_refused he
    change RegMove u fs' fs' ph (.inl (.opendir (userTablePath u))) (.error e)
      (if e = .enoent then .missing else .ended .lost false)
    split
    · exact RegMove.stay hph.symm (Or.inl rfl) (by simp)
    · rename_i hne
      exact RegMove.refuse e hph rfl hno (hplace hne)
  · refine RegMove.find l' hph rfl ?_
    unfold FS.opendir at hl
    split at hl
    · exact absurd hl (by simp)
    · rename_i L hL
      split at hl
      · exact absurd hl (by simp)
      · exact absurd hl (by simp)
      · rename_i hget
        exact ⟨L, hL, hget⟩

/-- The `mkdir` of the table. -/
theorem regMove_mkdir {x : Except Errno Unit} {ph : RegPhase} (hph : ph.how = none)
    (h : SysStepOk fs (.mkdir (userTablePath u)) x fs') :
    RegMove u fs fs' ph (.inl (.mkdir (userTablePath u))) x
      ((registration u).next .missing (.inl (.mkdir (userTablePath u))) x) := by
  rcases h.toSysStep.mkdir with ⟨heio, -⟩ | ⟨e, he, rfl, rfl⟩ | ⟨hmk, rfl⟩
  · exact absurd (congrArg some heio.symm) h.not_faulted
  · refine RegMove.lose e hph rfl ?_
    rintro ⟨L, hL, hnew⟩
    exact FS.mkdir_error he hL hnew
  · obtain ⟨L, hL, hnew, rfl⟩ := FS.mkdir_ok hmk
    exact RegMove.make hph ⟨L, hL, hnew⟩ ⟨L, locate_put_dir hnew hL, FS.get_put_self _ _ _⟩

/-- **Every step that the discipline allows is one of these moves.** -/
theorem regMove {ph : RegPhase} {o : SysOp ⊕ SrvOp} {x : callE.Ans o}
    (ho : (registration u).allowed ph o) (hstep : CallStep fs o x fs') :
    RegMove u fs fs' ph o x ((registration u).next ph o x) ∧
      ((registration u).next ph o x).reply = ph.reply.or (replyOfCall o) := by
  match ph, o with
  | .start, .inl o =>
      obtain rfl : o = .opendir (userTablePath u) := ho
      refine ⟨regMove_opendir rfl hstep, ?_⟩
      cases x with
      | ok l => rfl
      | error e =>
          change (if e = .enoent then RegPhase.missing else .ended .lost false).reply = none
          split <;> rfl
  | .start, .inr o =>
      obtain rfl : o = .uninit := ho
      exact ⟨RegMove.stay rfl (Or.inl hstep) (by simp), rfl⟩
  | .missing, o =>
      obtain rfl : o = .inl (.mkdir (userTablePath u)) := ho
      refine ⟨regMove_mkdir rfl hstep, ?_⟩
      cases x <;> rfl
  | .ended .made false, .inl o =>
      -- the thread that has made the directory fills it
      have hnext : (registration u).next (.ended .made false) (.inl o) x = .ended .made false := by
        cases o <;> rfl
      rw [hnext]
      refine ⟨RegMove.stay rfl (Or.inr ⟨rfl, hasTable_of_filling ho hstep.toSysStep⟩) ?_,
        rfl⟩
      rintro heq
      obtain rfl := Sum.inl.inj heq
      exact absurd rfl ho
  | .ended .found false, .inl o =>
      obtain rfl : o = .closedir := ho
      exact ⟨RegMove.stay rfl (Or.inl hstep.toSysStep.closedir) (by simp), rfl⟩
  | .ended how false, .inr o =>
      obtain rfl : o = .write .client [how.code] := by cases how <;> exact ho
      cases how <;> exact ⟨RegMove.stay rfl (Or.inl hstep) (by simp), rfl⟩
  | .ended how true, .inr o =>
      obtain rfl : o = .close .client := by cases how <;> exact ho
      cases how <;> exact ⟨RegMove.stay rfl (Or.inl hstep) (by simp), rfl⟩
  | .ended .lost false, .inl o => exact ho.elim
  | .ended how true, .inl o => cases how <;> exact ho.elim

end Steps
