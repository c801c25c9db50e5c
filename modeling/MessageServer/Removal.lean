/-
# Recursive removal (`remove_recursive`)

* `exec_removeEntries`: the loop over the entries of a directory;
* `exec_reportMissing`: the report of a path that leads nowhere;
* `exec_removeRecursive`: a removal erases nodes at and below the lexical location
  of its path, each by a `remove` that succeeded, and nothing else; if it succeeds
  the location is empty.
-/
import MessageServer.ErasedNodes

/-! ## The walk -/

/-- What `opendir` lists when it succeeds. -/
theorem FS.opendir_ok {fs : FS} {path : Bytes} {l : List Dirent} (h : fs.opendir path = .ok l) :
    ∃ p, fs.locate path = .ok p ∧ fs.get p = some .dir ∧
      l = ⟨dot, true⟩ :: ⟨dotdot, true⟩ :: fs.children p := by
  unfold FS.opendir at h
  split at h
  · exact absurd h (by simp)
  · rename_i p hp
    cases hget : fs.get p with
    | none => simp [hget] at h
    | some n =>
        cases n with
        | file c => simp [hget] at h
        | dir =>
            simp only [hget, Except.ok.injEq] at h
            exact ⟨p, hp, hget, h.symm⟩

/-- The entries that the walk skips. -/
def Dirent.IsDots (d : Dirent) : Prop := d.name = dot ∨ d.name = dotdot

instance (d : Dirent) : Decidable d.IsDots := inferInstanceAs (Decidable (_ ∨ _))

/-- An entry of a listing of `p`: one of the dots, or a child. -/
theorem FS.Tree.listed {fs : FS} (h : fs.Tree) {p : Location} {d : Dirent} {l : List Dirent}
    (hl : l.Perm (⟨dot, true⟩ :: ⟨dotdot, true⟩ :: fs.children p)) (hd : d ∈ l) :
    d.IsDots ∨ (FS.Plain d.name ∧ d.name.length ≤ nameMax ∧
      ∃ n, fs.get (p ++ [d.name]) = some n ∧ n.isDir = d.isDir) := by
  rw [hl.mem_iff, List.mem_cons, List.mem_cons] at hd
  rcases hd with rfl | rfl | hd
  · exact Or.inl (Or.inl rfl)
  · exact Or.inl (Or.inr rfl)
  · obtain ⟨n, hn, hdir⟩ := FS.mem_children.mp hd
    have hplain := h.plain p d.name n hn
    exact Or.inr ⟨hplain.1, hplain.2, n, hn, hdir⟩

/-! ### The loop of the walk -/

/-- What a removing function may do: erase at and below its path; if it succeeds its
path is empty and `errno` does not say `ENOENT`. -/
def Removes (rm : Bytes → Sys (ℤ × Option Errno)) : Prop :=
  ∀ path fs fs' t r, fs.Tree → Exec SysStep (rm path) fs t r fs' →
    fs'.Tree ∧ ErasedAt path (lexical fs.cwd path) t fs fs' ∧
      (0 ≤ r.1 → r.1 = 0 ∧ fs'.get (lexical fs.cwd path) = none ∧ r.2 ≠ some .enoent)

/-- The walk over the entries of a directory erases below it. -/
theorem exec_removeEntries {rmDir : Bytes → Sys (ℤ × Option Errno)} (hrm : Removes rmDir)
    {path : Bytes} (ds : List Dirent) (hds : ∀ d ∈ ds, d.IsDots ∨ FS.Plain d.name)
    {fs fs' : FS}
    (htree : fs.Tree) {errno : Option Errno} (herrno : errno ≠ some .enoent)
    {t : List sysE.Event} {r : ℤ × Option Errno}
    (h : Exec SysStep (removeEntries rmDir path ds errno) fs t r fs') :
    fs'.Tree ∧ ErasedBelow path (lexical fs.cwd path) t fs fs' ∧
      (0 ≤ r.1 → r.1 = 0 ∧ r.2 ≠ some .enoent) := by
  induction ds generalizing fs errno t with
  | nil =>
      obtain ⟨rfl, rfl, rfl⟩ := exec_ret_iff.mp h
      exact ⟨htree, ErasedBelow.refl, fun _ => ⟨rfl, herrno⟩⟩
  | cons d ds ih =>
      have hds' : ∀ d ∈ ds, d.IsDots ∨ FS.Plain d.name := fun d hd =>
        hds d (List.mem_cons_of_mem _ hd)
      rw [removeEntries] at h
      split at h
      · exact ih hds' htree herrno h
      · rename_i hdots
        have hplain : FS.Plain d.name := (hds d List.mem_cons_self).resolve_left hdots
        obtain ⟨t₁, r₁, fs₁, t₂, h₁, h₂, rfl⟩ := exec_bind_iff.mp h
        -- a directory is removed with all that is in it, a file by itself
        have hchild : fs₁.Tree ∧ ErasedAt (path ++ slash :: d.name)
            (lexical fs.cwd (path ++ slash :: d.name)) t₁ fs fs₁ ∧
            (0 ≤ r₁.1 → r₁.1 = 0 ∧ r₁.2 ≠ some .enoent) := by
          rw [removeEntry] at h₁
          split at h₁
          · obtain ⟨htree₁, herased, hok⟩ := hrm _ _ _ _ _ htree h₁
            exact ⟨htree₁, herased, fun hpos => ⟨(hok hpos).1, (hok hpos).2.2⟩⟩
          · obtain ⟨htree₁, herased, ⟨rfl, _⟩ | ⟨hneg, -⟩⟩ :=
              exec_removeFile htree h₁
            · exact ⟨htree₁, herased, fun _ => ⟨rfl, herrno⟩⟩
            · refine ⟨htree₁, herased, fun hpos => absurd hpos ?_⟩
              rw [hneg]
              decide
        obtain ⟨htree₁, herased, hok⟩ := hchild
        rw [lexical_append fs.cwd path hplain] at herased
        have hcwd : fs₁.cwd = fs.cwd := herased.cwd
        split at h₂
        · rename_i hneg
          obtain ⟨rfl, rfl, rfl⟩ := exec_ret_iff.mp h₂
          rw [List.append_nil]
          exact ⟨htree₁, herased.below, fun hpos => absurd hneg (not_lt.mpr hpos)⟩
        · rename_i hpos
          obtain ⟨htree', hbelow, hres⟩ := ih hds' htree₁ (hok (not_lt.mp hpos)).2 h₂
          rw [hcwd] at hbelow
          exact ⟨htree', herased.below.trans hbelow, hres⟩

/-! ### The report of a missing path -/

/-- A text is printed. -/
def perrored (text : Bytes) : sysE.Event := ⟨.perror text, ()⟩

/-- What is printed after a directory was not opened. -/
theorem perrored_report {path text : Bytes} {x : Except Errno (List Dirent)} (text' : Bytes) :
    perrored text' ∈ ([⟨.opendir path, x⟩, perrored text] : List sysE.Event) ↔
      text' = text := by
  constructor
  · intro hmem
    rcases List.mem_cons.mp hmem with heq | hmem
    · exact absurd (congrArg Sigma.fst heq) (by simp [perrored])
    · exact SysOp.perror.inj (congrArg Sigma.fst (List.mem_singleton.mp hmem))
  · rintro rfl
    exact List.mem_cons_of_mem _ List.mem_cons_self

/-- The message that a path is missing changes nothing. -/
theorem exec_reportMissing {fs fs' : FS} {path : Bytes} {errno : Option Errno}
    {t : List sysE.Event} {r : ℤ × Option Errno}
    (h : Exec SysStep (reportMissing path errno) fs t r fs') :
    fs' = fs ∧ r = (dbmsErrNotExists, errno) ∧ t = [perrored (notExistText path)] := by
  rw [reportMissing] at h
  obtain ⟨x, fs₁, t', hstep, hrest, rfl⟩ := exec_perform_bind_iff.mp h
  obtain rfl := hstep.perror
  obtain ⟨rfl, rfl, rfl⟩ := exec_ret_iff.mp hrest
  exact ⟨rfl, rfl, rfl⟩

/-- **`remove_recursive`** erases at and below its path. -/
theorem exec_removeRecursive (depth : ℕ) : Removes (removeRecursive depth) := by
  induction depth with
  | zero =>
      intro path fs fs' t r htree h
      obtain ⟨rfl, rfl, rfl⟩ := exec_ret_iff.mp h
      exact ⟨htree, ErasedAt.refl, fun hpos => absurd hpos (by decide)⟩
  | succ depth ih =>
      intro path fs fs' t r htree h
      rw [removeRecursive] at h
      obtain ⟨x, fs₁, t', hstep, hrest, rfl⟩ := exec_perform_bind_iff.mp h
      obtain ⟨rfl, hx⟩ := hstep.opendir
      -- a path that cannot be listed, and is there, is removed as a file
      have hother : ∀ e, x = .error e → fs'.Tree ∧
          ErasedAt path (lexical fs₁.cwd path) (⟨SysOp.opendir path, x⟩ :: t') fs₁ fs' ∧
          (0 ≤ r.1 → r.1 = 0 ∧ fs'.get (lexical fs₁.cwd path) = none ∧
            r.2 ≠ some .enoent) := by
        rintro e rfl
        simp only at hrest
        split at hrest
        · obtain ⟨rfl, rfl, -⟩ := exec_reportMissing hrest
          exact ⟨htree, ErasedAt.refl, fun hpos => absurd hpos (by simp [dbmsErrNotExists])⟩
        · rename_i hne
          obtain ⟨htree', herased, hres⟩ := exec_removeFile htree hrest
          refine ⟨htree', herased.mono fun e he => List.mem_cons_of_mem _ he, fun hpos => ?_⟩
          rcases hres with ⟨rfl, hnone⟩ | ⟨hneg, -⟩
          · refine ⟨rfl, hnone, ?_⟩
            simpa using hne
          · rw [hneg] at hpos
            exact absurd hpos (by decide)
      rcases hx with rfl | ⟨e, _, rfl⟩ | ⟨l, l', hl, hperm, rfl⟩
      · exact hother _ rfl
      · exact hother _ rfl
      · obtain ⟨p, hp, hdir, rfl⟩ := FS.opendir_ok hl
        obtain rfl := locate_eq_lexical hp
        obtain ⟨t₁, r₁, fs₂, t₂, h₁, h₂, rfl⟩ := exec_bind_iff.mp hrest
        obtain ⟨u, fs₃, t₃, hclose, h₃, rfl⟩ := exec_perform_bind_iff.mp h₂
        obtain rfl := hclose.closedir
        have hds : ∀ d ∈ l', d.IsDots ∨ FS.Plain d.name := by
          intro d hd
          rcases htree.listed hperm hd with hdots | ⟨hplain, -⟩
          · exact Or.inl hdots
          · exact Or.inr hplain
        obtain ⟨htree₂, hbelow, hres⟩ := exec_removeEntries ih l' hds htree (by simp) h₁
        have hcwd : fs₃.cwd = fs₁.cwd := hbelow.cwd
        have herased : ErasedAt path (lexical fs₁.cwd path)
            (⟨SysOp.opendir path, Except.ok l'⟩ :: (t₁ ++ ⟨SysOp.closedir, u⟩ :: t₃))
              fs₁ fs₃ := by
          refine hbelow.erased.mono fun e he => ?_
          exact List.mem_cons_of_mem _ (List.mem_append_left _ he)
        split at h₃
        · obtain ⟨rfl, rfl, rfl⟩ := exec_ret_iff.mp h₃
          exact ⟨htree₂, herased, fun hpos => absurd hpos (by simp [dbmsErrAny])⟩
        · rename_i hneg
          split at h₃
          · obtain ⟨rfl, rfl, rfl⟩ := exec_reportMissing h₃
            exact ⟨htree₂, herased, fun hpos => absurd hpos (by simp [dbmsErrNotExists])⟩
          · rename_i hne
            obtain ⟨htree', hlast, hfin⟩ := exec_removeFile htree₂ h₃
            rw [hcwd] at hlast hfin
            refine ⟨htree', ?_, fun hpos => ?_⟩
            · refine (hbelow.erased.trans hlast).mono fun e he => ?_
              rcases List.mem_append.mp he with he | he
              · exact List.mem_cons_of_mem _ (List.mem_append_left _ he)
              · exact List.mem_cons_of_mem _
                  (List.mem_append_right _ (List.mem_cons_of_mem _ he))
            · rcases hfin with ⟨rfl, hnone⟩ | ⟨hneg', -⟩
              · exact ⟨rfl, hnone, hne⟩
              · rw [hneg'] at hpos
                exact absurd hpos (by decide)
