/-
# Building a directory of the database

* the names that the database uses, as names of files;
* `exec_openDirectory_create`: `open_directory` makes a directory where there is none;
* `performs_ioOp_create`: an entry is written without `mkdir`.
-/
import MessageServer.Calls

/-! ## The names of the schema -/

theorem plain_userdataEntry : FS.Plain userdataEntry :=
  ⟨by decide, by decide, by decide, by decide⟩

theorem plain_pendMsgsTable : FS.Plain pendMsgsTable :=
  ⟨by decide, by decide, by decide, by decide⟩

theorem plain_dbDir : FS.Plain dbDir := ⟨by decide, by decide, by decide, by decide⟩

/-- The file name of a message. -/
theorem plain_decimal (n : ℕ) : FS.Plain (decimal n) := by
  refine ⟨fun hmem => ?_, decimal_ne_nil n, fun heq => ?_, fun heq => ?_⟩
  · exact absurd (isDigit_of_mem_decimal hmem) (by decide)
  · have hmem : (46 : UInt8) ∈ decimal n := by
      rw [heq]
      decide
    exact absurd (isDigit_of_mem_decimal hmem) (by decide)
  · have hmem : (46 : UInt8) ∈ decimal n := by
      rw [heq]
      decide
    exact absurd (isDigit_of_mem_decimal hmem) (by decide)

/-- A name that ends in `-table`. -/
theorem plain_append_tableSuffix {b : Bytes} (hb : slash ∉ b) : FS.Plain (b ++ tableSuffix) := by
  have hlen : (b ++ tableSuffix).length = b.length + 6 := by
    rw [List.length_append]
    rfl
  refine ⟨?_, ?_, ?_, ?_⟩
  · rw [List.mem_append]
    exact fun hmem => hmem.elim hb (by decide)
  · intro heq
    rw [heq] at hlen
    simp at hlen
  · intro heq
    rw [heq] at hlen
    simp [dot] at hlen
  · intro heq
    rw [heq] at hlen
    simp [dotdot] at hlen

/-- The path of a user's table ends in one name that ends in `-table`. -/
theorem userTablePath_split (u : Bytes) :
    ∃ path b, userTablePath u = path ++ slash :: (b ++ tableSuffix) ∧ slash ∉ b ∧
      path ≠ [] := by
  by_cases hu : slash ∈ u
  · obtain ⟨as, bs, hrev, hnot⟩ := List.eq_append_cons_of_mem (List.mem_reverse.mpr hu)
    have hsplit : u = bs.reverse ++ slash :: as.reverse := by
      have hrev' := congrArg List.reverse hrev
      simpa using hrev'
    refine ⟨dbDir ++ slash :: bs.reverse, as.reverse, ?_, by simpa using hnot, by simp⟩
    rw [userTablePath, hsplit]
    simp
  · exact ⟨dbDir, u, rfl, hu, plain_dbDir.notEmpty⟩

/-- The path of a table is not empty. -/
theorem userTablePath_ne_nil (u : Bytes) : userTablePath u ≠ [] := by
  obtain ⟨path, b, hpath, -, hne⟩ := userTablePath_split u
  rw [hpath]
  exact List.append_ne_nil_of_left_ne_nil hne _

/-- Nor is that of the messages that wait. -/
theorem pendTablePath_ne_nil (u : Bytes) : pendTablePath u ≠ [] :=
  List.append_ne_nil_of_left_ne_nil (userTablePath_ne_nil u) _

/-- A user's table can be removed where it is. -/
theorem removable_userTablePath {fs : FS} {u : Bytes} {L : Location}
    (h : fs.locate (userTablePath u) = .ok L) : FS.Removable (userTablePath u) L := by
  obtain ⟨path, b, hpath, hb, hne⟩ := userTablePath_split u
  rw [hpath] at h ⊢
  obtain ⟨p, -, -, -, rfl⟩ := (FS.locate_append_eq_ok hne (plain_append_tableSuffix hb)).mp h
  exact FS.Removable.append _ _ (plain_append_tableSuffix hb)

/-- Where the path of a user's table leads, when it resolves. -/
theorem locate_userTablePath {fs : FS} {u : Bytes} {L : Location}
    (h : fs.locate (userTablePath u) = .ok L) :
    ∃ p b, L = p ++ [b ++ tableSuffix] ∧ slash ∉ b ∧ fs.get p = some .dir ∧
      (b ++ tableSuffix).length ≤ nameMax := by
  obtain ⟨path, b, hpath, hb, hne⟩ := userTablePath_split u
  rw [hpath] at h
  obtain ⟨p, -, hdir, hlen, rfl⟩ :=
    (FS.locate_append_eq_ok hne (plain_append_tableSuffix hb)).mp h
  exact ⟨p, b, rfl, hb, hdir, hlen⟩

theorem length_userdataEntry : userdataEntry.length ≤ nameMax := by decide

theorem length_pendMsgsTable : pendMsgsTable.length ≤ nameMax := by decide

/-- The userdata entry of a table. -/
theorem locate_userdataPath {fs : FS} {u : Bytes} {q : Location} :
    fs.locate (userdataPath u) = .ok q ↔
      ∃ L, fs.DirAt (userTablePath u) L ∧ q = L ++ [userdataEntry] := by
  rw [userdataPath, FS.locate_append_eq_ok (userTablePath_ne_nil u) plain_userdataEntry]
  constructor
  · rintro ⟨L, hL, hdir, -, rfl⟩
    exact ⟨L, ⟨hL, hdir⟩, rfl⟩
  · rintro ⟨L, ⟨hL, hdir⟩, rfl⟩
    exact ⟨L, hL, hdir, length_userdataEntry, rfl⟩

/-- The pending messages of a table. -/
theorem locate_pendTablePath {fs : FS} {u : Bytes} {q : Location} :
    fs.locate (pendTablePath u) = .ok q ↔
      ∃ L, fs.DirAt (userTablePath u) L ∧ q = L ++ [pendMsgsTable] := by
  rw [pendTablePath, FS.locate_append_eq_ok (userTablePath_ne_nil u) plain_pendMsgsTable]
  constructor
  · rintro ⟨L, hL, hdir, -, rfl⟩
    exact ⟨L, ⟨hL, hdir⟩, rfl⟩
  · rintro ⟨L, ⟨hL, hdir⟩, rfl⟩
    exact ⟨L, hL, hdir, length_pendMsgsTable, rfl⟩

/-! ## Building a table -/

/-- The event of a `mkdir` that succeeded. -/
def madeEvent (path : Bytes) : sysE.Event :=
  ⟨SysOp.mkdir path, (Except.ok () : Except Errno Unit)⟩

/-- What `open_directory` can do in the mode `CREATE`. -/
inductive OpenCreateOutcome (fs : FS) (path : Bytes) (t : List sysE.Event) : ℤ → FS → Prop
  | found (p : Location) (hp : fs.DirAt path p) : OpenCreateOutcome fs path t dbmsErrExists fs
  | refused (hno : NoFault t → ∀ p, fs.locate path = .ok p → fs.get p ≠ none)
      (hevent : ∀ path', madeEvent path' ∉ t) : OpenCreateOutcome fs path t dbmsErrAny fs
  | made (p : Location) (hp : fs.locate path = .ok p) (hnew : fs.get p = none)
      (x y : Except Errno (List Dirent))
      (ht : t = [⟨.opendir path, x⟩, madeEvent path, ⟨.opendir path, y⟩]) :
      OpenCreateOutcome fs path t dbmsSuccess (fs.put p .dir)
  | unopened (p : Location) (hp : fs.locate path = .ok p) (hnew : fs.get p = none)
      (x y : Except Errno (List Dirent))
      (ht : t = [⟨.opendir path, x⟩, madeEvent path, ⟨.opendir path, y⟩])
      (hfault : Faulted ⟨.opendir path, y⟩) :
      OpenCreateOutcome fs path t dbmsErrAny (fs.put p .dir)

/-- A directory is made at a free place. -/
theorem FS.mkdir_ok {fs fs' : FS} {path : Bytes} (h : fs.mkdir path = .ok fs') :
    ∃ p, fs.locate path = .ok p ∧ fs.get p = none ∧ fs' = fs.put p .dir := by
  unfold FS.mkdir at h
  split at h
  · exact absurd h (by simp)
  · rename_i p hp
    cases hget : fs.get p with
    | some n => simp [hget] at h
    | none =>
        simp only [hget, Except.ok.injEq] at h
        exact ⟨p, hp, hget, h.symm⟩

/-- It is refused where something is. -/
theorem FS.mkdir_error {fs : FS} {path : Bytes} {e : Errno} (h : fs.mkdir path = .error e)
    {p : Location} (hp : fs.locate path = .ok p) : fs.get p ≠ none := by
  intro hget
  rw [FS.mkdir, hp] at h
  simp [hget] at h

/-- A new directory changes no path that resolves. -/
theorem locate_put_dir {fs : FS} {p : Location} (hnew : fs.get p = none) {path : Bytes}
    {q : Location} (h : fs.locate path = .ok q) : (fs.put p .dir).locate path = .ok q := by
  refine FS.locate_mono (FS.cwd_put fs p .dir) (fun r hr => ?_) h
  rw [FS.get_put_of_ne]
  · exact hr
  · rintro rfl
    rw [hnew] at hr
    exact absurd hr (by simp)

/-- A `mkdir` that fails makes nothing. -/
theorem not_made_of_error (path : Bytes) (x : Except Errno (List Dirent)) (e : Errno)
    (path' : Bytes) :
    madeEvent path' ∉
      ([⟨SysOp.opendir path, x⟩, ⟨SysOp.mkdir path, Except.error e⟩] :
          List sysE.Event) := by
  intro hmem
  rcases List.mem_cons.mp hmem with heq | hmem
  · exact absurd (congrArg Sigma.fst heq) (by simp [madeEvent])
  · cases List.mem_singleton.mp hmem

/-- What `open_directory` does with a directory that is to be made. -/
theorem exec_openDirectory_create {fs fs' : FS} {path : Bytes} {t : List sysE.Event}
    {r : ℤ × List Dirent} (h : Exec SysStep (openDirectory path .create) fs t r fs') :
    OpenCreateOutcome fs path t r.1 fs' := by
  rw [openDirectory, if_neg (by decide)] at h
  obtain ⟨x, fs₁, t', hstep, hrest, rfl⟩ := exec_perform_bind_iff.mp h
  obtain ⟨rfl, rfl | ⟨e, he, rfl⟩ | ⟨l, l', hl, hperm, rfl⟩⟩ := hstep.opendir
  · obtain ⟨rfl, rfl, rfl⟩ := exec_ret_iff.mp hrest
    refine OpenCreateOutcome.refused (fun ht => absurd rfl (ht _ List.mem_cons_self))
      fun p' hmem => ?_
    exact absurd (congrArg Sigma.fst (List.mem_singleton.mp hmem)) (by simp [madeEvent])
  · simp only at hrest
    split at hrest
    · rw [if_pos (by decide)] at hrest
      obtain ⟨y, fs₂, t₂, hmk, hrest₂, rfl⟩ := exec_perform_bind_iff.mp hrest
      rcases hmk.mkdir with ⟨rfl, rfl⟩ | ⟨e', he', rfl, rfl⟩ | ⟨hok, rfl⟩
      · obtain ⟨rfl, rfl, rfl⟩ := exec_ret_iff.mp hrest₂
        exact OpenCreateOutcome.refused
          (fun ht => absurd rfl (ht _ (List.mem_cons_of_mem _ List.mem_cons_self)))
          (not_made_of_error path _ _)
      · obtain ⟨rfl, rfl, rfl⟩ := exec_ret_iff.mp hrest₂
        exact OpenCreateOutcome.refused (fun _ p hp => FS.mkdir_error he' hp)
          (not_made_of_error path _ _)
      · obtain ⟨p, hp, hnew, rfl⟩ := FS.mkdir_ok hok
        obtain ⟨z, fs₃, t₃, hopen, hrest₃, rfl⟩ := exec_perform_bind_iff.mp hrest₂
        have hdir : (fs₁.put p .dir).DirAt path p :=
          ⟨locate_put_dir hnew hp, FS.get_put_self _ _ _⟩
        obtain ⟨rfl, rfl | ⟨e', he', rfl⟩ | ⟨l, l', hl, hperm, rfl⟩⟩ := hopen.opendir
        · obtain ⟨rfl, rfl, rfl⟩ := exec_ret_iff.mp hrest₃
          exact OpenCreateOutcome.unopened p hp hnew _ _ rfl rfl
        · rw [hdir.opendir] at he'
          exact absurd he' (by simp)
        · obtain ⟨rfl, rfl, rfl⟩ := exec_ret_iff.mp hrest₃
          exact OpenCreateOutcome.made p hp hnew _ _ rfl
    · rename_i hne
      obtain ⟨rfl, rfl, rfl⟩ := exec_ret_iff.mp hrest
      refine OpenCreateOutcome.refused (fun _ p hp hget => hne ?_) fun p' hmem => ?_
      · rw [FS.opendir, hp] at he
        simp only [hget, Except.error.injEq] at he
        exact he.symm
      · exact absurd (congrArg Sigma.fst (List.mem_singleton.mp hmem)) (by simp [madeEvent])
  · obtain ⟨p, hp, hdir, rfl⟩ := FS.opendir_ok hl
    rw [if_pos rfl] at hrest
    obtain ⟨rfl, rfl, rfl⟩ := exec_ret_iff.mp hrest
    exact OpenCreateOutcome.found p ⟨hp, hdir⟩

/-- The directory exists exactly when the first `opendir` gives it. -/
theorem exec_openDirectory_found {fs fs' : FS} {path : Bytes} {t : List sysE.Event}
    {r : ℤ × List Dirent} (h : Exec SysStep (openDirectory path .create) fs t r fs') :
    (r.1 = dbmsErrExists ∧ ∃ l, t = [⟨SysOp.opendir path, Except.ok l⟩]) ∨
      (r.1 ≠ dbmsErrExists ∧ ∃ e t', t = ⟨SysOp.opendir path, Except.error e⟩ :: t') := by
  rw [openDirectory, if_neg (by decide)] at h
  obtain ⟨x, fs₁, t', hstep, hrest, rfl⟩ := exec_perform_bind_iff.mp h
  cases x with
  | ok l =>
      obtain ⟨rfl, rfl, rfl⟩ := exec_ret_iff.mp hrest
      exact Or.inl ⟨rfl, l, rfl⟩
  | error e =>
      refine Or.inr ⟨?_, e, t', rfl⟩
      dsimp only at hrest
      split at hrest
      · rw [if_pos (by decide)] at hrest
        obtain ⟨y, fs₂, t₂, hmk, hrest₂, -⟩ := exec_perform_bind_iff.mp hrest
        cases y with
        | error e' =>
            obtain ⟨-, rfl, -⟩ := exec_ret_iff.mp hrest₂
            decide
        | ok made =>
            obtain ⟨z, fs₃, t₃, hopen, hrest₃, -⟩ := exec_perform_bind_iff.mp hrest₂
            cases z with
            | error e' =>
                obtain ⟨-, rfl, -⟩ := exec_ret_iff.mp hrest₃
                decide
            | ok l =>
                obtain ⟨-, rfl, -⟩ := exec_ret_iff.mp hrest₃
                exact (show dbmsSuccess ≠ dbmsErrExists by decide)
      · obtain ⟨-, rfl, -⟩ := exec_ret_iff.mp hrest
        decide

/-! ## Entries are written without `mkdir` -/

/-- Every call but `mkdir`. -/
def NotMkdir : SysOp → Prop
  | .mkdir _ => False
  | _ => True

/-- The calls that write an entry. -/
def Storing : SysOp → Prop
  | .openFile _ _ => True
  | .write _ _ _ => True
  | .close _ => True
  | _ => False

/-- A step that stores an entry makes no directory. -/
theorem Storing.notMkdir {o : SysOp} (h : Storing o) : NotMkdir o := by
  cases o with
  | mkdir path => exact h
  | _ => trivial

/-- The write loop only stores. -/
theorem storing_writeLoop (fd : Location) (fuel : ℕ) (buffer : Bytes) (total : ℕ) :
    (writeLoop fd fuel buffer total).Performs Storing := by
  induction fuel generalizing buffer total with
  | zero => trivial
  | succ fuel ih =>
      rw [writeLoop]
      refine Prog.Performs.bind ((Prog.performs_perform _ _).mpr trivial) fun x => ?_
      cases x with
      | error e => trivial
      | ok n =>
          simp only
          split
          · exact ih _ _
          · trivial

/-- A program that calls `close` and returns. -/
theorem storing_close {α : Type} (fd : Location) (a : α) :
    (sysClose fd >>= fun _ => (return a : Sys α)).Performs Storing :=
  Prog.Performs.bind ((Prog.performs_perform _ _).mpr trivial) fun _ => trivial

/-- So does the creation of an entry. -/
theorem storing_ioOp_create (e : Entry) (depth : ℕ) (he : e.Typed) :
    (dbIoOpUsrEnt depth e .create).Performs Storing := by
  rw [dbIoOpUsrEnt_eq he (by decide)]
  refine Prog.Performs.bind ((Prog.performs_perform _ _).mpr trivial) fun x => ?_
  cases x with
  | error err => trivial
  | ok fd =>
      refine Prog.Performs.bind ?_ fun r => storing_close fd r
      rw [transferEntry, if_neg (by decide), writeEntry, bind_assoc, writeBytes]
      refine Prog.Performs.bind ?_ fun n => ?_
      · split
        · trivial
        · exact storing_writeLoop _ _ _ _
      · split
        · exact Prog.Performs.bind (storing_close fd _) fun _ => trivial
        · trivial

/-- It makes no directory. -/
theorem performs_ioOp_create (e : Entry) (depth : ℕ) (he : e.Typed) :
    (dbIoOpUsrEnt depth e .create).Performs NotMkdir :=
  (storing_ioOp_create e depth he).mono fun _ => Storing.notMkdir
