/-
# The reply to `REGISTER`

`srv_register` tells apart one of the codes of `db_creat_usr_tbl` and answers every
other one, errors included, with success.

* `RegisterReplied`: what the replies promise;
* `register_reply_iff`: the runs of `db_creat_usr_tbl` after which the promise is kept.
-/
import MessageServer.Handlers
import MessageServer.FailedConnect

/-! ## Tables -/

/-- The user's table is a directory. -/
def FS.HasTable (fs : FS) (u : Bytes) : Prop := ∃ L, fs.DirAt (userTablePath u) L

/-- A complete table of a new user: a record with `last_msg_id` 0, and no pending
messages. -/
def FS.CompleteTable (fs : FS) (u : Bytes) : Prop :=
  ∃ L ud, fs.DirAt (userTablePath u) L ∧ ud.lastMsgId = 0 ∧
    fs.get (L ++ [userdataEntry]) = some (.file (Entry.image ⟨u, .user ud⟩)) ∧
    fs.get (L ++ [pendMsgsTable]) = some .dir ∧ fs.children (L ++ [pendMsgsTable]) = []

/-- What the replies to `REGISTER` promise: success, that the user had no table and has
a complete one now; that he is registered already, that he had a table. -/
def FS.RegisterReplied (fs fs' : FS) (u : Bytes) (code : Option UInt8) : Prop :=
  (code = some srvSuccess → ¬ fs.HasTable u ∧ fs'.CompleteTable u) ∧
    (code = some srvErrRegUsrAlreadyReg → fs.HasTable u)

/-- The system calls of `db_creat_usr_tbl` are `calls`. -/
def creatCalls (calls : List sysE.Event) : DbCall → List sysE.Event → Prop
  | .creatUsrTbl _, t => t = calls
  | _, _ => True

/-- The first `opendir` finds the table. -/
def Opened (u : Bytes) (t : List sysE.Event) : Prop :=
  ∃ l t', t = ⟨SysOp.opendir (userTablePath u), Except.ok l⟩ :: t'

/-! ### Tables that are whole -/

section Table

variable {fs fs' : FS} {u : Bytes}

/-- The directories of a file system stay when nodes are put where no directory is. -/
theorem dirAt_put {p L : Location} {n : Node} {path : Bytes} (hp : fs.get p ≠ some .dir)
    (h : fs.DirAt path L) : (fs.put p n).DirAt path L := by
  have hstay : ∀ q, fs.get q = some .dir → (fs.put p n).get q = some .dir := by
    intro q hq
    rw [FS.get_put_of_ne]
    · exact hq
    · rintro rfl
      exact hp hq
  exact ⟨FS.locate_mono (FS.cwd_put _ _ _) hstay h.1, hstay L h.2⟩

/-- A new table is complete. -/
theorem completeTable_withTable (htree : fs.Tree) {L : Location}
    (hL : fs.locate (userTablePath u) = .ok L) (hnew : fs.get L = none) {ud : Userdata}
    (hud : ud.lastMsgId = 0) :
    (fs.withTable L (Entry.image ⟨u, .user ud⟩)).CompleteTable u := by
  have hbelow : ∀ names, fs.get (L ++ names) = none := by
    intro names
    exact htree.none_of_prefix hnew (List.prefix_append _ _)
  have hput : ∀ {names : List Name} {p : Location} {n : Node} {fs₁ : FS},
      L ++ names ≠ p → (fs₁.put p n).get (L ++ names) = fs₁.get (L ++ names) :=
    fun hne => FS.get_put_of_ne _ _ hne
  refine ⟨L, ud, ?_, hud, ?_, FS.get_put_self _ _ _, ?_⟩
  · refine dirAt_put ?_ (dirAt_put ?_ ⟨locate_put_dir hnew hL, FS.get_put_self _ _ _⟩)
    · rw [hput (userdataEntry_ne_pendMsgsTable L), hput (ne_append_singleton L _).symm,
        hbelow _]
      simp
    · rw [hput (ne_append_singleton L _).symm, hbelow _]
      simp
  · rw [FS.withTable, hput (userdataEntry_ne_pendMsgsTable L).symm]
    exact FS.get_put_self _ _ _
  · refine List.eq_nil_iff_forall_not_mem.mpr fun d hd => ?_
    obtain ⟨n, hn, -⟩ := FS.mem_children.mp hd
    rw [FS.withTable, List.append_assoc, hput (by simp), hput (by simp), hput (by simp),
      hbelow _] at hn
    exact absurd hn (by simp)

/-- `db_creat_usr_tbl` says that the table exists when the first `opendir` finds it. -/
theorem exec_creatUsrTbl_opened {ud : Userdata} {depth : ℕ} {t : List sysE.Event} {r : ℤ}
    (h : Exec SysStep (dbCreatUsrTbl depth ⟨u, .user ud⟩) fs t r fs') :
    r = dbmsErrExists ↔ Opened u t := by
  rw [dbCreatUsrTbl] at h
  obtain ⟨tA, rA, fsA, tB, hA, hrest, rfl⟩ := exec_bind_iff.mp h
  rcases exec_openDirectory_found hA with ⟨hcode, l, rfl⟩ | ⟨hcode, e, t', rfl⟩
  · rw [if_pos hcode] at hrest
    obtain ⟨rfl, rfl⟩ := exec_closedir_ret hrest
    exact iff_of_true rfl ⟨l, tB, rfl⟩
  · refine iff_of_false ?_ ?_
    · rw [if_neg hcode] at hrest
      split at hrest
      · obtain ⟨-, rfl, -⟩ := exec_ret_iff.mp hrest
        decide
      · obtain ⟨t₁, x, fs₁, t₂, -, hrest₁, -⟩ := exec_bind_iff.mp hrest
        split at hrest₁
        · obtain ⟨-, rfl, -⟩ := exec_ret_iff.mp hrest₁
          decide
        · obtain ⟨t₃, y, fs₂, t₄, -, hrest₂, -⟩ := exec_bind_iff.mp hrest₁
          split at hrest₂
          · obtain ⟨-, rfl, -⟩ := exec_ret_iff.mp hrest₂
            decide
          · obtain ⟨rfl, -⟩ := exec_closedir_ret hrest₂
            decide
    · rintro ⟨l, t'', heq⟩
      rw [List.cons_append, List.cons.injEq] at heq
      cases heq.1

/-! ### The reply -/

/-- A table that `db_creat_usr_tbl` says exists is there. -/
theorem hasTable_of_exists {ud : Userdata} {t : List sysE.Event}
    (h : CreatOutcome fs u ud t dbmsErrExists fs') : fs.HasTable u := by
  generalize hr : dbmsErrExists = r at h
  cases h with
  | found L hL => exact ⟨L, hL⟩
  | refused _ => cases hr
  | table _ _ _ _ => cases hr
  | record _ _ _ _ _ _ => cases hr
  | complete _ _ _ _ hcode =>
      rw [← hr] at hcode
      exact absurd hcode (by simp [dbmsErrExists, dbmsSuccess, dbmsErrAny])

/-- Without faults, the first `opendir` finds a table that is there. -/
theorem opened_of_dirAt {ud : Userdata} {depth : ℕ} {t : List sysE.Event} {r : ℤ} {L : Location}
    (hL : fs.DirAt (userTablePath u) L) (hno : NoFault t)
    (h : Exec SysStep (dbCreatUsrTbl depth ⟨u, .user ud⟩) fs t r fs') : Opened u t := by
  rw [dbCreatUsrTbl, openDirectory, if_neg (by decide)] at h
  obtain ⟨tA, rA, fsA, tB, hA, -, rfl⟩ := exec_bind_iff.mp h
  obtain ⟨x, fs₁, t', hstep, -, rfl⟩ := exec_perform_bind_iff.mp hA
  cases x with
  | ok l => exact ⟨l, t' ++ tB, rfl⟩
  | error e =>
      rcases hstep.opendir.2 with heio | ⟨e', he', -⟩ | ⟨l, l', -, -, heq⟩
      · exact (hno _ (List.mem_append_left _ List.mem_cons_self) (congrArg some heio.symm)).elim
      · rw [hL.opendir] at he'
        exact absurd he' (by simp)
      · exact absurd heq (by simp)

/-- The reply to `REGISTER` and the database after it. -/
theorem must_srvRegisterBody {calls : List sysE.Event} (fs : FS) (input : List ReadEv) (u : Bytes) :
    (srvRegisterBody u).Must (SrvStep (creatCalls calls)) (fun t _ w => ∃ ud r,
        ud.lastMsgId = 0 ∧
      Exec SysStep (dbCreatUsrTbl fs.depth ⟨u, .user ud⟩) fs calls r w.fs ∧
      reply t = some (if r = dbmsErrExists then srvErrRegUsrAlreadyReg else srvSuccess))
      ⟨fs, input⟩ := by
  rw [srvRegisterBody]
  refine must_uninit fun junk => must_db fun (r : ℤ) fs' hstep => ?_
  obtain ⟨t, hexec, rfl⟩ := hstep
  refine must_sendServerReply fun ok t' _ _ _ => must_ret ?_
  exact ⟨_, r, rfl, hexec,
    (reply_cons rfl).trans ((reply_cons rfl).trans (reply_cons_some rfl))⟩

/-- **The reply to `REGISTER`** keeps its promise, whatever calls fail, if and only if the
table is found by the first `opendir`, or the calls get as far as making the directory
of the pending messages. -/
theorem register_reply_iff (htree : fs.Tree) (u : Bytes) (calls : List sysE.Event)
    (input : List ReadEv) (t : List srvE.Event) (a : Unit) (w' : SrvWorld)
    (h : Exec (SrvStep (creatCalls calls)) (srvRegisterBody u) ⟨fs, input⟩ t a w') :
    fs.RegisterReplied w'.fs u (reply t) ↔
      (Opened u calls ∨ madeEvent (pendTablePath u) ∈ calls) := by
  obtain ⟨ud, r, hud, hexec, hreply⟩ := must_srvRegisterBody fs input u t a w' h
  have hopened := exec_creatUsrTbl_opened hexec
  obtain ⟨hout, hmade⟩ := exec_creatUsrTbl_made htree hexec
  rw [hreply]
  generalize w'.fs = fs' at hout hmade
  by_cases hfound : r = dbmsErrExists
  · -- the reply says that the user is registered, and his table was found
    have hhas : fs.HasTable u := hasTable_of_exists (hfound ▸ hout)
    rw [if_pos hfound]
    exact iff_of_true ⟨fun h => absurd h (by decide), fun _ => hhas⟩
      (Or.inl (hopened.mp hfound))
  · rw [if_neg hfound, or_iff_right (mt hopened.mpr hfound), hmade]
    constructor
    · rintro ⟨hpromise, -⟩
      obtain ⟨hno, L, ud', hL, -, -, hpend, -⟩ := hpromise rfl
      -- the other outcomes leave no table, or one without pending messages
      cases hout with
      | found L' hL' => exact absurd ⟨L', hL'⟩ hno
      | refused _ => exact absurd ⟨L, hL⟩ hno
      | table L' hL' hnew _ =>
          obtain rfl : L' = L := Except.ok.inj ((locate_put_dir hnew hL').symm.trans hL.1)
          rw [FS.get_put_of_ne _ _ (ne_append_singleton L' _).symm, htree.none_below hnew] at hpend
          exact absurd hpend (by simp)
      | record L' hL' hnew _ c _ =>
          have hfree : (fs.put L' .dir).get (L' ++ [userdataEntry]) ≠ some .dir := by
            rw [FS.get_put_of_ne _ _ (ne_append_singleton L' _).symm, htree.none_below hnew]
            simp
          have hstay := dirAt_put (n := .file c) hfree
            ⟨locate_put_dir hnew hL', FS.get_put_self fs L' .dir⟩
          obtain rfl : L' = L := Except.ok.inj (hstay.1.symm.trans hL.1)
          rw [FS.get_put_of_ne _ _ (userdataEntry_ne_pendMsgsTable L'),
            FS.get_put_of_ne _ _ (ne_append_singleton L' _).symm, htree.none_below hnew] at hpend
          exact absurd hpend (by simp)
      | complete L' hL' hnew _ _ => exact ⟨L', hL', hnew, rfl⟩
    · rintro ⟨L, hL, hnew, hfs⟩
      refine ⟨fun _ => ⟨?_, ?_⟩, fun h => absurd h (by decide)⟩
      · rintro ⟨L', hL'⟩
        obtain rfl : L = L' := Except.ok.inj (hL.symm.trans hL'.1)
        exact absurd (hnew.symm.trans hL'.2) (by simp)
      · rw [hfs]
        exact completeTable_withTable htree hL hnew hud

end Table

/-! ## Registrations without faults -/

section Calm

/-- `db_creat_usr_tbl` decides what `srv_register` replies. -/
theorem exec_srvRegisterBody {fs fs' : FS} {u : Bytes} {calls : List sysE.Event}
    {r : ℤ} (junk : Junk)
    (input : List ReadEv)
    (h : Exec SysStep (dbCreatUsrTbl fs.depth ⟨u, .user { junk.user with lastMsgId := 0 }⟩) fs
        calls
      r fs') :
    ∃ t a, Exec (SrvStep (creatCalls calls)) (srvRegisterBody u) ⟨fs, input⟩ t a
    ⟨fs', input⟩ ∧
      reply t = some (if r = dbmsErrExists then srvErrRegUsrAlreadyReg else srvSuccess) := by
  let entry : Entry := ⟨u, .user { junk.user with lastMsgId := 0 }⟩
  let code := if r = dbmsErrExists then srvErrRegUsrAlreadyReg else srvSuccess
  refine ⟨[⟨SrvOp.uninit, junk⟩, ⟨SrvOp.db (.creatUsrTbl entry), r⟩,
    ⟨SrvOp.write .client [code], true⟩], (), ?_, rfl⟩
  have huninit : SrvStep (creatCalls calls) ⟨fs, input⟩ SrvOp.uninit junk ⟨fs, input⟩ := rfl
  have hdb : SrvStep (creatCalls calls) ⟨fs, input⟩ (SrvOp.db (.creatUsrTbl entry)) r
      ⟨fs', input⟩ :=
    ⟨⟨calls, h, rfl⟩, rfl⟩
  have hwrite : SrvStep (creatCalls calls) ⟨fs', input⟩ (SrvOp.write .client [code]) true
      ⟨fs', input⟩ := rfl
  exact Exec.call huninit (Exec.call hdb (Exec.call hwrite (Exec.ret _ _)))

theorem BrokenOff.not_noFault {u : Bytes} {t : List sysE.Event} (h : BrokenOff u t) :
    ¬ NoFault t := by
  obtain ⟨t₁, t₂, e, t₃, rfl, he, -⟩ := h
  intro hno
  exact hno e (by simp) he

/-- When no call fails, the reply keeps its promise if and only if the path of the
table leads to a directory or to a free place: not to a file, and not to a name that is
too long or below a directory that does not exist. -/
theorem opened_or_made_iff {fs fs' : FS} (htree : fs.Tree) {u : Bytes} {ud : Userdata} {depth : ℕ}
    {calls : List sysE.Event} {r : ℤ} (hno : NoFault calls)
    (h : Exec SysStep (dbCreatUsrTbl depth ⟨u, .user ud⟩) fs calls r fs') :
    (Opened u calls ∨ madeEvent (pendTablePath u) ∈ calls) ↔
      ∃ L, fs.locate (userTablePath u) = .ok L ∧ ∀ c, fs.get L ≠ some (.file c) := by
  have hopened := exec_creatUsrTbl_opened h
  obtain ⟨hout, hmade⟩ := exec_creatUsrTbl_made htree h
  rw [hmade]
  constructor
  · rintro (hopen | ⟨L, hL, hnew, -⟩)
    · rw [hopened.mpr hopen] at hout
      obtain ⟨L, hL, hget⟩ := hasTable_of_exists hout
      exact ⟨L, hL, fun c => by rw [hget]; simp⟩
    · exact ⟨L, hL, fun c => by rw [hnew]; simp⟩
  · rintro ⟨L, hL, hnofile⟩
    by_cases hdir : fs.get L = some .dir
    · exact Or.inl (opened_of_dirAt ⟨hL, hdir⟩ hno h)
    · -- neither a directory nor a file: the place is free
      have hnew : fs.get L = none := by
        match hget : fs.get L with
        | none => rfl
        | some .dir => exact absurd hget hdir
        | some (.file c) => exact absurd hget (hnofile c)
      refine Or.inr ?_
      cases hout with
      | found L' hL' =>
          obtain rfl : L = L' := Except.ok.inj (hL.symm.trans hL'.1)
          exact absurd hL'.2 hdir
      | refused hplace => exact absurd hnew (hplace hno L hL)
      | table _ _ _ hbroken => exact absurd hno hbroken.not_noFault
      | record _ _ _ hbroken _ _ => exact absurd hno hbroken.not_noFault
      | complete L' hL' hnew' _ _ => exact ⟨L', hL', hnew', rfl⟩

/-- A name of 250 bytes: with `-table` it is longer than a file name may be. -/
def longName : Bytes := List.replicate 250 120

/-- The calls of the registration of `u` on an empty database. -/
def creatRun (u : Bytes) : List sysE.Event × ℤ × FS :=
  (dbCreatUsrTbl emptyDb.depth ⟨u, .user { (default : Junk).user with lastMsgId := 0 }⟩).run
    sysStep
    (fun _ => default) emptyDb

theorem register_reply_iff_longName : ∃ t a w',
    Exec (SrvStep (creatCalls (creatRun longName).1)) (srvRegisterBody longName)
      ⟨emptyDb, []⟩ t a w' ∧
      (emptyDb.RegisterReplied w'.fs longName (reply t) ↔
        (Opened longName (creatRun longName).1 ∨
          madeEvent (pendTablePath longName) ∈ (creatRun longName).1)) := by
  obtain ⟨t, a, h, -⟩ :=
    exec_srvRegisterBody (default : Junk) [] (exec_sysRunAny (fun _ => default) _ _)
  exact ⟨t, a, _, h, register_reply_iff emptyDb_fresh.tree longName _ [] t a _ h⟩

/-- **A `REGISTER` that fails is answered with success.**  The name is too long for a
file name; no table is made. -/
theorem not_register_replied :
    ¬ ∀ (fs : FS) (u : Bytes) (t : List srvE.Event) (a : Unit) (w' : SrvWorld), Reachable fs →
      u.length ≤ 255 → Exec (SrvStep noFaults) (srvRegisterBody u) ⟨fs, []⟩ t a w' →
      fs.RegisterReplied w'.fs u (reply t) := by
  intro h
  have hexec := exec_srvRun calm calm_calm (srvRegisterBody longName) ⟨emptyDb, []⟩
  have hreach : Reachable emptyDb := ⟨emptyDb, [], emptyDb_fresh, Run.nil⟩
  have hpromise := (h emptyDb longName _ _ _ hreach (by decide +kernel) hexec).1 (by decide +kernel)
  obtain ⟨L, -, hL, -⟩ := hpromise.2
  have hlong : ((srvRegisterBody longName).run srvApply calm (SrvWorld.mk emptyDb [])).2.2.fs.locate
      (userTablePath longName) = .error .enametoolong := by decide +kernel
  exact absurd (hlong.symm.trans hL.1) (by simp)

end Calm
