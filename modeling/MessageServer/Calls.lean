/-
# The calls of the DBMS library

What a call of `dbms.c` returns and does to the file system, whether or not
system calls fail.  The calls that only look at directories come first.

* `exec_userExists`, `exec_getPendMsg`: leave the file system alone;
* `exec_ioOp_delete`: the removal of an entry.
-/
import MessageServer.EntryIo
import MessageServer.RemovalProgress

/-! ## Directories at paths -/

/-- A path leads to a directory. -/
def FS.DirAt (fs : FS) (path : Bytes) (p : Location) : Prop :=
  fs.locate path = .ok p ∧ fs.get p = some .dir

/-- A path leads to one directory at most. -/
theorem FS.DirAt.unique {fs : FS} {path : Bytes} {p q : Location} (h : fs.DirAt path p)
    (h' : fs.DirAt path q) :
    p = q := Except.ok.inj (h.1.symm.trans h'.1)

/-- The listing of a directory: its two dots, and its children. -/
theorem FS.DirAt.opendir {fs : FS} {path : Bytes} {p : Location} (h : fs.DirAt path p) :
    fs.opendir path = .ok (⟨dot, true⟩ :: ⟨dotdot, true⟩ :: fs.children p) := by
  rw [FS.opendir, h.1]
  simp only [h.2]

/-- A directory that is added leaves every resolution as it is. -/
theorem FS.locate_mono {fs fs' : FS} (hcwd : fs'.cwd = fs.cwd)
    (hdir : ∀ p, fs.get p = some .dir → fs'.get p = some .dir) {path : Bytes} {p : Location}
    (h : fs.locate path = .ok p) : fs'.locate path = .ok p := by
  have hfold : ∀ (cs : List Name) (q : Location), cs.foldlM fs.enter q = .ok p →
      cs.foldlM fs'.enter q = .ok p := by
    intro cs
    induction cs with
    | nil => exact fun _ h => h
    | cons c cs ih =>
        intro q h
        rw [List.foldlM_cons] at h ⊢
        cases henter : fs.enter q c with
        | error e =>
            rw [henter] at h
            exact absurd h (by simp [bind, Except.bind])
        | ok r =>
            rw [henter] at h
            obtain ⟨hq, hlen, hr⟩ := FS.enter_eq_ok.mp henter
            rw [FS.enter_eq_ok.mpr ⟨hdir q hq, hlen, hr⟩]
            exact ih r h
  rw [FS.locate_of_ne _ (FS.ne_nil_of_locate h), hcwd]
  exact hfold _ _ (FS.foldlM_of_locate h)

/-- `opendir` and `readdir`, for the mode `READ`. -/
theorem exec_openDirectory_read {fs fs' : FS} {path : Bytes} {t : List sysE.Event}
    {r : ℤ × List Dirent} (h : Exec SysStep (openDirectory path .read) fs t r fs') :
    fs' = fs ∧
      ((∃ p l, fs.DirAt path p ∧ r = (dbmsSuccess, l) ∧
          l.Perm (⟨dot, true⟩ :: ⟨dotdot, true⟩ :: fs.children p)) ∨
        ((r.1 = dbmsErrNotExists ∨ r.1 = dbmsErrAny) ∧
            (NoFault t → ∀ p, ¬ fs.DirAt path p))) := by
  rw [openDirectory, if_neg (by decide)] at h
  obtain ⟨x, fs₁, t', hstep, hrest, rfl⟩ := exec_perform_bind_iff.mp h
  obtain ⟨rfl, rfl | ⟨e, he, rfl⟩ | ⟨l, l', hl, hperm, rfl⟩⟩ := hstep.opendir
  · obtain ⟨rfl, rfl, rfl⟩ := exec_ret_iff.mp hrest
    exact ⟨rfl, Or.inr ⟨Or.inr rfl, fun ht => absurd rfl (ht _ List.mem_cons_self)⟩⟩
  · have hnot : ∀ p, ¬ fs₁.DirAt path p := by
      intro p hp
      rw [hp.opendir] at he
      exact absurd he (by simp)
    simp only at hrest
    split at hrest
    · rw [if_neg (by decide)] at hrest
      obtain ⟨rfl, rfl, rfl⟩ := exec_ret_iff.mp hrest
      exact ⟨rfl, Or.inr ⟨Or.inl rfl, fun _ => hnot⟩⟩
    · obtain ⟨rfl, rfl, rfl⟩ := exec_ret_iff.mp hrest
      exact ⟨rfl, Or.inr ⟨Or.inr rfl, fun _ => hnot⟩⟩
  · obtain ⟨p, hp, hdir, rfl⟩ := FS.opendir_ok hl
    obtain ⟨rfl, rfl, rfl⟩ := exec_ret_iff.mp hrest
    exact ⟨rfl, Or.inl ⟨p, l', ⟨hp, hdir⟩, rfl, hperm⟩⟩

/-- A program that closes the directory and returns. -/
theorem exec_closedir_ret {α : Type} {fs fs' : FS} {a b : α} {t : List sysE.Event}
    (h : Exec SysStep (sysClosedir >>= fun _ => (return a : Sys α)) fs t b fs') :
    b = a ∧ fs' = fs := by
  obtain ⟨x, fs₁, t', hstep, hrest, rfl⟩ := exec_perform_bind_iff.mp h
  obtain rfl := hstep.closedir
  obtain ⟨rfl, rfl, rfl⟩ := exec_ret_iff.mp hrest
  exact ⟨rfl, rfl⟩

/-- **`db_user_exists`** -/
theorem exec_userExists {fs fs' : FS} {username : Bytes} {t : List sysE.Event} {r : ℤ}
    (h : Exec SysStep (dbUserExists username) fs t r fs') :
    fs' = fs ∧
      ((r = 1 ∧ ∃ p, fs.DirAt (userTablePath username) p) ∨
        (r ≤ 0 ∧ (NoFault t → ∀ p, ¬ fs.DirAt (userTablePath username) p))) := by
  rw [dbUserExists] at h
  obtain ⟨t₁, r₁, fs₁, t₂, h₁, h₂, rfl⟩ := exec_bind_iff.mp h
  obtain ⟨rfl, ⟨p, l, hp, rfl, -⟩ | ⟨hcode, hnot⟩⟩ := exec_openDirectory_read h₁
  · rw [if_neg (by simp [dbmsSuccess, dbmsErrNotExists]), if_pos rfl] at h₂
    obtain ⟨rfl, rfl⟩ := exec_closedir_ret h₂
    exact ⟨rfl, Or.inl ⟨rfl, p, hp⟩⟩
  · rcases hcode with hcode | hcode
    · rw [if_pos hcode] at h₂
      obtain ⟨rfl, rfl, rfl⟩ := exec_ret_iff.mp h₂
      exact ⟨rfl, Or.inr ⟨le_rfl, fun ht => hnot ht.of_append_left⟩⟩
    · rw [hcode, if_neg (by decide), if_neg (by decide)] at h₂
      obtain ⟨rfl, rfl, rfl⟩ := exec_ret_iff.mp h₂
      exact ⟨rfl, Or.inr ⟨by decide, fun ht => hnot ht.of_append_left⟩⟩

/-! ## Pending messages -/

/-- What `db_get_pend_msg` can give for user `u`, whose variable held `m`. -/
inductive PendOutcome (fs : FS) (u : Bytes) (m : Message) (t : List sysE.Event) :
    ℤ × Entry → Prop
  | nothing (code : ℤ) (hcode : code < 0)
      (hempty : NoFault t → ∀ p, fs.DirAt (pendTablePath u) p → ∀ d ∈ fs.children p,
        ∀ id, strToNum d.name .uint ≠ .ok id ∨ ∃ d' ∈ fs.children p, ∃ err,
          strToNum d'.name .uint = .error err) :
      PendOutcome fs u m t (code, ⟨u, .msg m⟩)
  | found (p : Location) (hp : fs.DirAt (pendTablePath u) p) (d : Dirent)
      (hd : d ∈ fs.children p) (id : ℤ) (hid : strToNum d.name .uint = .ok id)
      (r : ℤ × Entry)
      (hr : ReadOutcome fs ⟨u, .msg { m with id := id.toNat.toUInt32 }⟩ t r) :
      PendOutcome fs u m t (dbmsSuccess, r.2)

/-- The outcome of a read, in a longer trace. -/
theorem ReadOutcome.mono {fs : FS} {e : Entry} {t t' : List sysE.Event} {r : ℤ × Entry}
    (h : ReadOutcome fs e t r) (ht : ∀ x ∈ t, x ∈ t') : ReadOutcome fs e t' r where
  code := h.code
  success := h.success
  overlay := h.overlay
  ofNoFault := fun hno => h.ofNoFault fun x hx => hno x (ht x hx)
  ofUntorn := fun hun => h.ofUntorn fun x hx => hun x (ht x hx)

/-- **`db_get_pend_msg`** -/
theorem exec_getPendMsg {fs fs' : FS} (htree : fs.Tree) {u : Bytes} {m : Message} {depth : ℕ}
    {t : List sysE.Event} {r : ℤ × Entry}
    (h : Exec SysStep (dbGetPendMsg depth ⟨u, .msg m⟩) fs t r fs') :
    fs' = fs ∧ PendOutcome fs u m t r := by
  rw [dbGetPendMsg, if_neg (by simp [EntryData.type])] at h
  obtain ⟨t₁, r₁, fs₁, t₂, h₁, h₂, rfl⟩ := exec_bind_iff.mp h
  obtain ⟨rfl, ⟨p, l, hp, rfl, hperm⟩ | ⟨hcode, hnot⟩⟩ := exec_openDirectory_read h₁
  · rw [if_neg (by simp [dbmsSuccess])] at h₂
    have hreal : ∀ d ∈ fs₁.children p, d ∈ l ∧ d.name ≠ dot ∧ d.name ≠ dotdot := by
      intro d hd
      obtain ⟨n, hn, -⟩ := FS.mem_children.mp hd
      have hplain := (htree.plain p d.name n hn).1
      refine ⟨?_, hplain.notDot, hplain.notDotdot⟩
      rw [hperm.mem_iff]
      exact List.mem_cons_of_mem _ (List.mem_cons_of_mem _ hd)
    cases hfirst : firstEntry l with
    | none =>
        simp only [hfirst] at h₂
        obtain ⟨rfl, rfl⟩ := exec_closedir_ret h₂
        refine ⟨rfl, PendOutcome.nothing _ (by decide) fun _ q hq d hd => ?_⟩
        obtain rfl := hp.unique hq
        have hskip := List.find?_eq_none.mp hfirst d (hreal d hd).1
        simp only [decide_eq_true_eq] at hskip
        exact absurd (hreal d hd).2 hskip
    | some d =>
        have hmem : d ∈ l := List.mem_of_find?_eq_some hfirst
        have hdots : d.name ≠ dot ∧ d.name ≠ dotdot := by
          have := List.find?_some hfirst
          simpa using this
        have hchild : d ∈ fs₁.children p := by
          rcases List.mem_cons.mp (hperm.mem_iff.mp hmem) with rfl | hmem
          · exact absurd rfl hdots.1
          rcases List.mem_cons.mp hmem with rfl | hmem
          · exact absurd rfl hdots.2
          · exact hmem
        simp only [hfirst] at h₂
        cases hid : strToNum d.name .uint with
        | error err =>
            simp only [hid] at h₂
            obtain ⟨rfl, rfl, rfl⟩ := exec_ret_iff.mp h₂
            refine ⟨rfl, PendOutcome.nothing _ (by decide) fun _ q hq d' _ id => Or.inr ?_⟩
            obtain rfl := hp.unique hq
            exact ⟨d, hchild, err, hid⟩
        | ok id =>
            simp only [hid, mapMsg_mk] at h₂
            obtain ⟨t₃, r₃, fs₃, t₄, h₃, h₄, rfl⟩ := exec_bind_iff.mp h₂
            obtain ⟨rfl, hread⟩ := exec_ioOp_read (typed_msg _ _) h₃
            obtain ⟨rfl, rfl⟩ := exec_closedir_ret h₄
            refine ⟨rfl, PendOutcome.found p hp d hchild id hid r₃ (hread.mono
              fun x hx => ?_)⟩
            exact List.mem_append_right _ (List.mem_append_left _ hx)
  · have hneg : r₁.1 < 0 := by
      rcases hcode with hcode | hcode <;> rw [hcode] <;> decide
    rw [if_pos hneg] at h₂
    obtain ⟨rfl, rfl, rfl⟩ := exec_ret_iff.mp h₂
    exact ⟨rfl, PendOutcome.nothing _ (by decide) fun ht p hp =>
      absurd hp (hnot ht.of_append_left p)⟩

/-! ## Removing an entry -/

/-- A deletion is a removal of the entry's path. -/
theorem dbIoOpUsrEnt_delete {e : Entry} (he : e.Typed) (depth : ℕ) :
    dbIoOpUsrEnt depth e .delete = removeRecursive depth (entryPath e) >>= fun r =>
      return (if r.1 < 0 then r.1 else dbmsSuccess, e) := by
  have htype : ¬ (e.data.type ≠ entTypeUd ∧ e.data.type ≠ entTypePMsg) := by
    rintro ⟨h₁, h₂⟩
    exact he.elim h₁ h₂
  rw [dbIoOpUsrEnt, if_neg htype, if_neg (by decide), if_pos rfl]

/-- **`DELETE`** erases at and below the entry's path. -/
theorem exec_ioOp_delete {fs fs' : FS} (htree : fs.Tree) {e : Entry} (he : e.Typed) {depth : ℕ}
    {t : List sysE.Event} {r : ℤ × Entry}
    (h : Exec SysStep (dbIoOpUsrEnt depth e .delete) fs t r fs') :
    fs'.Tree ∧ ErasedAt (entryPath e) (lexical fs.cwd (entryPath e)) t fs fs' ∧ r.2 = e := by
  rw [dbIoOpUsrEnt_delete he] at h
  obtain ⟨t₁, r₁, fs₁, t₂, h₁, h₂, rfl⟩ := exec_bind_iff.mp h
  obtain ⟨rfl, rfl, rfl⟩ := exec_ret_iff.mp h₂
  obtain ⟨htree', herased, -⟩ := exec_removeRecursive depth _ _ _ _ _ htree h₁
  rw [List.append_nil]
  exact ⟨htree', herased, rfl⟩

/-- A walk on a path to a file removes the file. -/
theorem exec_removeRecursive_file {fs fs' : FS} {path : Bytes} {p : Location} {c : Bytes}
    (hloc : fs.locate path = .ok p) (hget : fs.get p = some (.file c)) {depth : ℕ}
    {t : List sysE.Event} {r : ℤ × Option Errno}
    (h : Exec SysStep (removeRecursive (depth + 1) path) fs t r fs') :
    (r.1 = 0 ∧ fs' = fs.del p) ∨ (r.1 < 0 ∧ fs' = fs ∧ ¬ NoFault t) := by
  rw [removeRecursive] at h
  obtain ⟨x, fs₁, t', hstep, hrest, rfl⟩ := exec_perform_bind_iff.mp h
  have hopen : fs.opendir path = .error .enotdir := by
    rw [FS.opendir, hloc]
    simp only [hget]
  have herror : ∃ e, x = .error e ∧ e ≠ .enoent ∧ fs₁ = fs := by
    obtain ⟨rfl, rfl | ⟨e, he, rfl⟩ | ⟨l, l', hl, -, -⟩⟩ := hstep.opendir
    · exact ⟨_, rfl, by decide, rfl⟩
    · rw [hopen] at he
      obtain rfl := Except.error.inj he
      exact ⟨_, rfl, by decide, rfl⟩
    · rw [hopen] at hl
      exact absurd hl (by simp)
  obtain ⟨e, rfl, he, rfl⟩ := herror
  simp only [if_neg he, removeFile] at hrest
  obtain ⟨y, fs₂, t₂, hremove, hend, rfl⟩ := exec_perform_bind_iff.mp hrest
  rcases hremove.remove with ⟨rfl, rfl⟩ | ⟨e', he', rfl, rfl⟩ | ⟨hok, rfl⟩
  · obtain ⟨rfl, rfl, rfl⟩ := exec_ret_iff.mp hend
    refine Or.inr ⟨by simp [genErrAny], rfl, fun ht => ?_⟩
    exact ht _ (List.mem_cons_of_mem _ List.mem_cons_self) rfl
  · rw [FS.remove_file hloc hget] at he'
    exact absurd he' (by simp)
  · obtain ⟨rfl, rfl, rfl⟩ := exec_ret_iff.mp hend
    rw [FS.remove_file hloc hget] at hok
    exact Or.inl ⟨rfl, (Except.ok.inj hok).symm⟩
