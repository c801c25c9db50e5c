/-
# What a recursive removal leaves (`remove_recursive`)

A removal is exact when it leaves nothing of the file or the directory that its path
names and everything else as it was, answers that there is nothing when the path
names nothing, and writes no text behind the end of its array.  Three things are in the way:

* the code takes every path that `opendir` refuses without `ENOENT` for the path of a
  file, also one that names nothing because it goes through a file or has a name that
  is too long;
* a directory is removed last, through the same path.  `rmdir` does not take the root nor a
  path that ends in `.`, and a path that goes through the directory's own tree
  (`d/e/../../d`) has stopped to lead anywhere;
* the message that the path is missing is formatted into an array of 512 bytes, which a
  path of more than 496 bytes overflows.

* `exactRemoval_iff`: without faults, a removal is exact on all other paths, and on no
  path of these kinds.
-/
import MessageServer.EntryStore
import MessageServer.FailedConnect
import MessageServer.Formats

/-! ## Exact removals -/

/-- The path names a file or a directory, at this location. -/
structure FS.Names (fs : FS) (path : Bytes) (p : Location) : Prop where
  locate : fs.locate path = .ok p
  here : fs.get p ≠ none

/-- What a removal has to answer and to leave; what it prints fits the array that it is formatted
into. -/
structure ExactRemoval (fs : FS) (path : Bytes) (t : List sysE.Event) (code : ℤ) (fs' : FS) :
    Prop where
  fits : ∀ text, perrored text ∈ t → text.length < maxStrSize
  removed : ∀ p, fs.Names path p → code = 0 ∧ ∀ q, fs'.get q = if p <+: q
    then none else fs.get q
  absent : (∀ p, ¬ fs.Names path p) → code = dbmsErrNotExists ∧ fs' = fs

/-- A path that the code can remove, or finds missing: when it leads nowhere, a missing name is
the only reason, and the path is short; and the way to a directory is no way through it. -/
def FS.Tractable (fs : FS) (path : Bytes) : Prop :=
  match fs.locate path with
  | .error e => e = .enoent ∧ path.length ≤ 496
  | .ok p => (fs.get p = none → path.length ≤ 496) ∧
      (fs.get p = some .dir →
        FS.Removable path p ∧ ∀ q ∈ trail fs.cwd path, p <+: q → q = p)

section Paths

variable {fs fs' : FS} {path : Bytes} {p q : Location}

theorem FS.Names.unique (h : fs.Names path p) (h' : fs.Names path q) : p = q :=
  Except.ok.inj (h.locate.symm.trans h'.locate)

/-- Every location on the way of a path that resolves is a directory. -/
theorem FS.dir_of_foldlM_enter (cs : List Name) (h : cs.foldlM fs.enter p = .ok q)
    {x : Location} (hx : x ∈ cs.scanl Location.step p) : x = q ∨ fs.get x = some .dir := by
  induction cs generalizing p with
  | nil =>
      left
      obtain rfl : x = p := by simpa using hx
      exact Except.ok.inj h
  | cons c cs ih =>
      rw [List.foldlM_cons] at h
      cases henter : fs.enter p c with
      | error e =>
          rw [henter] at h
          cases h
      | ok r =>
          rw [henter] at h
          obtain ⟨hdir, -, rfl⟩ := FS.enter_eq_ok.mp henter
          rw [List.scanl_cons, List.mem_cons] at hx
          rcases hx with rfl | hx
          · exact Or.inr hdir
          · exact ih h hx

/-- A path whose way does not lead through the place keeps leading there. -/
theorem FS.steady_of_trail (hloc : fs.locate path = .ok p)
    (htrail : ∀ q ∈ trail fs.cwd path, p <+: q → q = p) : fs.Steady path p := by
  intro fs₁ hcwd hframe
  rw [locate_eq_of_trail hcwd, hloc]
  intro q hq
  apply (hframe q).resolve_right
  rintro ⟨c, names, rfl⟩
  have hself := htrail _ hq (List.prefix_append _ _)
  simp at hself

end Paths

/-! ## One removal without faults -/

section Removing

variable {fs fs' : FS} {path : Bytes} {p : Location} {depth : ℕ} {t : List sysE.Event}
  {r : ℤ × Option Errno}

/-- A path that does not resolve is removed in vain, and reported if a name is missing. -/
theorem exec_removeRecursive_error {e : Errno} (hloc : fs.locate path = .error e)
    (h : Exec SysStep (removeRecursive (depth + 1) path) fs t r fs') (ht : NoFault t) :
    fs' = fs ∧ ((e = .enoent ∧ r.1 = dbmsErrNotExists ∧
      ∀ text, perrored text ∈ t ↔ text = notExistText path) ∨
        (e ≠ .enoent ∧ r.1 = genErrAny)) := by
  have hopen : fs.opendir path = .error e := by rw [FS.opendir, hloc]
  have hremove : fs.remove path = .error e := by rw [FS.remove, hloc]
  rw [removeRecursive] at h
  obtain ⟨x, fs₁, t', hstep, hrest, rfl⟩ := exec_perform_bind_iff.mp h
  obtain ⟨rfl, rfl | ⟨err, herr, rfl⟩ | ⟨l, l', hl, -, -⟩⟩ := hstep.opendir
  · exact absurd rfl (ht _ List.mem_cons_self)
  · obtain rfl := Except.error.inj (hopen.symm.trans herr)
    by_cases he : e = .enoent
    · simp only [if_pos he] at hrest
      obtain ⟨rfl, rfl, rfl⟩ := exec_reportMissing hrest
      exact ⟨rfl, Or.inl ⟨he, rfl, perrored_report⟩⟩
    · simp only [if_neg he, removeFile] at hrest
      obtain ⟨y, fs₂, t₂, hrm, hend, rfl⟩ := exec_perform_bind_iff.mp hrest
      rcases hrm.remove with ⟨rfl, rfl⟩ | ⟨e', -, rfl, rfl⟩ | ⟨hok, -⟩
      · obtain ⟨-, rfl, rfl⟩ := exec_ret_iff.mp hend
        exact ⟨rfl, Or.inr ⟨he, rfl⟩⟩
      · obtain ⟨-, rfl, rfl⟩ := exec_ret_iff.mp hend
        exact ⟨rfl, Or.inr ⟨he, rfl⟩⟩
      · rw [hremove] at hok
        cases hok
  · rw [hopen] at hl
    cases hl

/-! ### What prints nothing -/

/-- `remove` prints nothing. -/
theorem exec_removeFile_silent {errno : Option Errno}
    (h : Exec SysStep (removeFile path errno) fs t r fs') (text : Bytes) : perrored text ∉ t := by
  rw [removeFile] at h
  obtain ⟨x, fs₁, t', -, hrest, rfl⟩ := exec_perform_bind_iff.mp h
  have hnil : t' = [] := by
    cases x with
    | ok u => exact (exec_ret_iff.mp hrest).1
    | error e => exact (exec_ret_iff.mp hrest).1
  rw [hnil, List.mem_singleton]
  exact fun heq => absurd (congrArg Sigma.fst heq) (by simp [perrored])

/-- A walk over a directory that gets to its end has printed nothing, if no removal below that
succeeds has. -/
theorem exec_removeEntries_silent {rmDir : Bytes → Sys (ℤ × Option Errno)}
    (hrm : ∀ {path fs t r fs'}, Exec SysStep (rmDir path) fs t r fs' → 0 ≤ r.1 →
      ∀ text, perrored text ∉ t) (ds : List Dirent) {errno : Option Errno}
    (h : Exec SysStep (removeEntries rmDir path ds errno) fs t r fs') (hr : 0 ≤ r.1)
    (text : Bytes) : perrored text ∉ t := by
  induction ds generalizing fs errno t with
  | nil =>
      obtain ⟨rfl, -, -⟩ := exec_ret_iff.mp h
      simp
  | cons d ds ih =>
      rw [removeEntries] at h
      split at h
      · exact ih h
      · obtain ⟨t₁, r₁, fs₁, t₂, h₁, h₂, rfl⟩ := exec_bind_iff.mp h
        split at h₂
        · rename_i hneg
          obtain ⟨-, rfl, -⟩ := exec_ret_iff.mp h₂
          exact absurd hr (not_le.mpr hneg)
        · rename_i hpos
          have hchild : perrored text ∉ t₁ := by
            rw [removeEntry] at h₁
            split at h₁
            · exact hrm h₁ (not_lt.mp hpos) text
            · exact exec_removeFile_silent h₁ text
          exact fun hmem => (List.mem_append.mp hmem).elim hchild (ih h₂)

/-- **A removal that succeeds has printed nothing.** -/
theorem exec_removeRecursive_silent
    (h : Exec SysStep (removeRecursive depth path) fs t r fs') (hr : 0 ≤ r.1) (text : Bytes) :
    perrored text ∉ t := by
  induction depth generalizing path fs t r fs' text with
  | zero =>
      obtain ⟨rfl, -, -⟩ := exec_ret_iff.mp h
      simp
  | succ depth ih =>
      have hmissing : ∀ {errno fs t r fs'}, Exec SysStep (reportMissing path errno) fs t r fs' →
          ¬ 0 ≤ r.1 := by
        intro errno fs t r fs' hreport
        rw [(exec_reportMissing hreport).2.1]
        exact show ¬ 0 ≤ dbmsErrNotExists by decide
      rw [removeRecursive] at h
      obtain ⟨x, fs₁, t', -, hrest, rfl⟩ := exec_perform_bind_iff.mp h
      have hfirst : perrored text ≠ ⟨SysOp.opendir path, x⟩ :=
        fun heq => absurd (congrArg Sigma.fst heq) (by simp [perrored])
      have hlater : perrored text ∉ t' := by
        cases x with
        | error e =>
            simp only at hrest
            split at hrest
            · exact absurd hr (hmissing hrest)
            · exact exec_removeFile_silent hrest text
        | ok directory =>
            obtain ⟨t₁, r₁, fs₂, t₂, h₁, h₂, rfl⟩ := exec_bind_iff.mp hrest
            obtain ⟨u, fs₃, t₃, -, h₃, rfl⟩ := exec_perform_bind_iff.mp h₂
            split at h₃
            · obtain ⟨-, rfl, -⟩ := exec_ret_iff.mp h₃
              exact absurd hr (show ¬ 0 ≤ dbmsErrAny by decide)
            · rename_i hpos
              split at h₃
              · exact absurd hr (hmissing h₃)
              · have hwalk := exec_removeEntries_silent (fun hexec hok text => ih hexec hok text)
                  directory h₁ (not_lt.mp hpos) text
                have hlast := exec_removeFile_silent h₃ text
                simp only [List.mem_append, List.mem_cons, not_or]
                exact ⟨hwalk, fun heq => absurd (congrArg Sigma.fst heq) (by simp [perrored]),
                  hlast⟩
      exact fun hmem => (List.mem_cons.mp hmem).elim hfirst hlater

/-! ### A directory that is removed -/

/-- What is left once the place is empty. -/
theorem get_of_erased (htree' : fs'.Tree) (herased : ErasedAt path p t fs fs')
    (hnone : fs'.get p = none) (q : Location) :
    fs'.get q = if p <+: q then none else fs.get q := by
  split
  · rename_i hpre
    exact htree'.none_of_prefix hnone hpre
  · rename_i hpre
    exact herased.get_eq hpre

/-- A directory is removed whole, when its path allows that. -/
theorem exec_removeRecursive_dir (htree : fs.Tree) (hdepth : fs.depth ≤ depth)
    (hloc : fs.locate path = .ok p) (hdir : fs.get p = some .dir) (hrm : FS.Removable path p)
    (htrail : ∀ q ∈ trail fs.cwd path, p <+: q → q = p)
    (h : Exec SysStep (removeRecursive depth path) fs t r fs') (ht : NoFault t) :
    r.1 = 0 ∧ ∀ q, fs'.get q = if p <+: q then none else fs.get q := by
  have hheight : fs.Height p depth :=
    fun names hn => lt_of_lt_of_le (htree.height p names hn) hdepth
  have hpos : 0 ≤ r.1 := by
    apply (removeRecursive_progress depth _ _ _ _ _ _ htree (FS.steady_of_trail hloc htrail) hrm
      hdir hheight h).resolve_right
    intro hlate
    exact hlate.not_noFault ht
  obtain ⟨htree', herased, hok⟩ := exec_removeRecursive depth _ _ _ _ _ htree h
  rw [← locate_eq_lexical hloc] at herased hok
  exact ⟨(hok hpos).1, get_of_erased htree' herased (hok hpos).2.1⟩

/-- A removal of a directory that answers 0 ends with a `remove` of its path, in a state where
the directory is still there. -/
theorem exec_removeRecursive_last (htree : fs.Tree) (hloc : fs.locate path = .ok p)
    (hdir : fs.get p = some .dir) (h : Exec SysStep (removeRecursive depth path) fs t r fs')
    (ht : NoFault t) (hcode : r.1 = 0) :
    ∃ fs₁ : FS, fs₁.cwd = fs.cwd ∧ fs₁.Tree ∧ fs₁.get p = some .dir ∧
      fs₁.remove path = .ok fs' := by
  cases depth with
  | zero =>
      obtain ⟨-, rfl, -⟩ := exec_ret_iff.mp h
      exact absurd hcode (show ¬ dbmsErrAny = 0 by decide)
  | succ depth =>
      have hopen : fs.opendir path = .ok (⟨dot, true⟩ :: ⟨dotdot, true⟩ ::
          fs.children p) := by
        rw [FS.opendir, hloc]
        simp only [hdir]
      rw [removeRecursive] at h
      obtain ⟨x, fs₁, t', hstep, hrest, rfl⟩ := exec_perform_bind_iff.mp h
      obtain ⟨rfl, rfl | ⟨e, he, -⟩ | ⟨l, l', hl, hperm, rfl⟩⟩ := hstep.opendir
      · exact absurd rfl (ht _ List.mem_cons_self)
      · rw [hopen] at he
        cases he
      · obtain rfl := Except.ok.inj (hopen.symm.trans hl)
        obtain ⟨t₁, r₁, fs₂, t₂, h₁, h₂, rfl⟩ := exec_bind_iff.mp hrest
        obtain ⟨_, fs₃, t₃, hclose, h₃, rfl⟩ := exec_perform_bind_iff.mp h₂
        obtain rfl := hclose.closedir
        have hds : ∀ d ∈ l', d.IsDots ∨ FS.Plain d.name := fun d hd =>
          (htree.listed hperm hd).imp_right fun hd' => hd'.1
        obtain ⟨htree₂, hbelow, -⟩ :=
          exec_removeEntries (exec_removeRecursive depth) l' hds htree (by simp) h₁
        rw [← locate_eq_lexical hloc] at hbelow
        -- the walk erases below the directory only
        have hdir₂ : fs₃.get p = some .dir := by
          rcases hbelow.frame p with heq | ⟨c, names, heq, -, -⟩
          · rw [heq, hdir]
          · exact absurd (congrArg List.length heq) (by simp)
        refine ⟨fs₃, hbelow.cwd, htree₂, hdir₂, ?_⟩
        split at h₃
        · obtain ⟨-, rfl, -⟩ := exec_ret_iff.mp h₃
          exact absurd hcode (show ¬ dbmsErrAny = 0 by decide)
        · split at h₃
          · obtain ⟨-, rfl, -⟩ := exec_reportMissing h₃
            exact absurd hcode (show ¬ dbmsErrNotExists = 0 by decide)
          · rw [removeFile] at h₃
            obtain ⟨y, fs₄, t₄, hrm, hend, rfl⟩ := exec_perform_bind_iff.mp h₃
            rcases hrm.remove with ⟨rfl, rfl⟩ | ⟨e, -, rfl, rfl⟩ | ⟨hok, rfl⟩
            · obtain ⟨-, rfl, -⟩ := exec_ret_iff.mp hend
              exact absurd hcode (show ¬ genErrAny = 0 by decide)
            · obtain ⟨-, rfl, -⟩ := exec_ret_iff.mp hend
              exact absurd hcode (show ¬ genErrAny = 0 by decide)
            · obtain ⟨-, -, rfl⟩ := exec_ret_iff.mp hend
              exact hok

/-- What a directory has to be for the last `remove`. -/
theorem FS.of_remove_dir (hok : fs.remove path = .ok fs') (hloc : fs.locate path = .ok p)
    (hdir : fs.get p = some .dir) : FS.Removable path p ∧ fs.children p = [] := by
  rw [FS.remove, hloc] at hok
  simp only [hdir] at hok
  split at hok
  · cases hok
  · rename_i hroot
    split at hok
    · cases hok
    · rename_i hdot
      split at hok
      · rename_i hempty
        exact ⟨⟨hroot, hdot⟩, hempty⟩
      · cases hok

/-- If a directory is gone, its path was no way through it. -/
theorem tractable_of_removed (htree : fs.Tree) (hloc : fs.locate path = .ok p)
    (hdir : fs.get p = some .dir) (h : Exec SysStep (removeRecursive depth path) fs t r fs')
    (ht : NoFault t) (hcode : r.1 = 0) :
    FS.Removable path p ∧ ∀ q ∈ trail fs.cwd path, p <+: q → q = p := by
  obtain ⟨fs₁, hcwd, htree₁, hdir₁, hok⟩ :=
    exec_removeRecursive_last htree hloc hdir h ht hcode
  obtain ⟨p₁, hloc₁, -, -⟩ := FS.remove_ok hok
  obtain rfl : p₁ = p := by
    rw [locate_eq_lexical hloc₁, locate_eq_lexical hloc, hcwd]
  obtain ⟨hrm, hempty⟩ := FS.of_remove_dir hok hloc₁ hdir₁
  refine ⟨hrm, fun q hq hpre => ?_⟩
  have hway : q = p₁ ∨ fs₁.get q = some .dir := by
    apply FS.dir_of_foldlM_enter _ (FS.foldlM_of_locate hloc₁)
    rw [hcwd]
    exact hq
  obtain ⟨names, rfl⟩ := hpre
  cases names with
  | nil => rw [List.append_nil]
  | cons c names =>
      -- the way goes through a directory, and nothing is below an empty one
      apply hway.resolve_right
      have hnone : fs₁.get (p₁ ++ [c]) = none :=
        htree₁.nothing_below (Or.inr ⟨hdir₁, hempty⟩) c
      rw [htree₁.none_of_prefix hnone ⟨names, by simp⟩]
      simp

end Removing

/-! ## Every path -/

section Exact

variable {fs fs' : FS} {path : Bytes} {depth : ℕ} {t : List sysE.Event} {r : ℤ × Option Errno}

/-- A path that does not resolve names nothing. -/
theorem FS.not_names_of_error {e : Errno} (hloc : fs.locate path = .error e) (p : Location) :
    ¬ fs.Names path p := by
  intro h
  have hloc' := h.locate
  rw [hloc] at hloc'
  cases hloc'

/-- **A removal is exact on the paths that the code can deal with, and on no others.** -/
theorem exactRemoval_iff (htree : fs.Tree) (hdepth : fs.depth ≤ depth)
    (h : Exec SysStep (removeRecursive depth path) fs t r fs') (ht : NoFault t) :
    ExactRemoval fs path t r.1 fs' ↔ fs.Tractable path := by
  obtain ⟨depth, rfl⟩ : ∃ d, depth = d + 1 :=
    Nat.exists_eq_add_one.mpr (lt_of_lt_of_le (Nat.succ_pos _) hdepth)
  unfold FS.Tractable
  -- whether the path resolves, then what is there
  cases hloc : fs.locate path with
  | error e =>
      obtain ⟨rfl, ⟨he, hcode, htext⟩ | ⟨he, hcode⟩⟩ :=
        exec_removeRecursive_error hloc h ht
      · simp only
        constructor
        · intro hexact
          exact ⟨he, (notExistText_fits_iff path).mp (hexact.fits _ ((htext _).mpr rfl))⟩
        · rintro ⟨-, hlen⟩
          refine ⟨fun text hmem => ?_, fun p hp => absurd hp (FS.not_names_of_error hloc p),
            fun _ => ⟨hcode, rfl⟩⟩
          rw [(htext text).mp hmem]
          exact (notExistText_fits_iff path).mpr hlen
      · refine iff_of_false (fun hexact => ?_) (fun htract => he htract.1)
        rw [(hexact.absent (FS.not_names_of_error hloc)).1] at hcode
        exact absurd hcode (by decide)
  | ok p =>
      simp only
      have hat : fs.get p ≠ none → fs.Names path p := fun hne => ⟨hloc, hne⟩
      cases hget : fs.get p with
      | none =>
          -- the place is free: the message about it has to fit
          obtain ⟨rfl, hcode, htext⟩ := exec_removeRecursive_none hloc hget h ht
          have hno : ∀ q, ¬ fs'.Names path q := by
            intro q hq
            obtain rfl := Except.ok.inj (hloc.symm.trans hq.locate)
            exact hq.here hget
          constructor
          · intro hexact
            refine ⟨fun _ => ?_, fun hdir => by cases hdir⟩
            exact (notExistText_fits_iff path).mp (hexact.fits _ ((htext _).mpr rfl))
          · rintro ⟨hlen, -⟩
            refine ⟨fun text hmem => ?_, fun q hq => absurd hq (hno q),
              fun _ => ⟨hcode, rfl⟩⟩
            rw [(htext text).mp hmem]
            exact (notExistText_fits_iff path).mpr (hlen rfl)
      | some n =>
          have hnames : fs.Names path p := hat (by rw [hget]; simp)
          have hexact : ExactRemoval fs path t r.1 fs' ↔
              r.1 = 0 ∧ ∀ q, fs'.get q = if p <+: q then none else fs.get q := by
            constructor
            · intro hexact
              exact hexact.removed p hnames
            · intro hremoved
              refine ⟨fun text hmem => ?_, fun p' hp' => ?_, fun hnot => absurd hnames (hnot p)⟩
              · exact absurd hmem (exec_removeRecursive_silent h hremoved.1.ge text)
              · obtain rfl := hp'.unique hnames
                exact hremoved
          rw [hexact]
          cases n with
          | file c =>
              refine iff_of_true ?_ (by simp)
              obtain ⟨hcode, rfl⟩ | ⟨-, -, hfault⟩ := exec_removeRecursive_file hloc hget h
              · refine ⟨hcode, ?_⟩
                obtain ⟨htree', herased, hok⟩ := exec_removeRecursive _ _ _ _ _ _ htree h
                rw [← locate_eq_lexical hloc] at herased
                exact get_of_erased htree' herased (by rw [FS.get_del, if_pos rfl])
              · exact absurd ht hfault
          | dir =>
              have hshape : ((some Node.dir = none → path.length ≤ 496) ∧
                  (some Node.dir = some .dir →
                  FS.Removable path p ∧ ∀ q ∈ trail fs.cwd path, p <+: q → q = p)) ↔
                  FS.Removable path p ∧ ∀ q ∈ trail fs.cwd path, p <+: q → q = p := by simp
              rw [hshape]
              constructor
              · rintro ⟨hcode, -⟩
                exact tractable_of_removed htree hloc hget h ht hcode
              · rintro ⟨hrm, htrail⟩
                exact exec_removeRecursive_dir htree hdepth hloc hget hrm htrail h ht

/-- **`remove_recursive` ends, and without faults it is exact when, and only when, a missing name
is all that can keep the path from leading somewhere, a path that leads nowhere is short enough for
the message, and to a directory the path leads directly.** -/
theorem removeRecursive_exact_iff (htree : fs.Tree) (path : Bytes) (hdepth : fs.depth ≤ depth) :
    (∃ t r fs', Exec SysStep (removeRecursive depth path) fs t r fs' ∧ NoFault t) ∧
      ∀ t r fs', Exec SysStep (removeRecursive depth path) fs t r fs' → NoFault t →
        (ExactRemoval fs path t r.1 fs' ↔ fs.Tractable path) := by
  constructor
  · exact exec_noFault _ _
  · intro t r fs' h ht
    exact exactRemoval_iff htree hdepth h ht

end Exact

/-! ## A path through a file -/

theorem removeRecursive_exact_iff_registeredA :
    (∃ t r fs', Exec SysStep (removeRecursive registeredA.depth (userTablePath (ascii "a")))
      registeredA t r fs' ∧ NoFault t) ∧
      ∀ t r fs', Exec SysStep (removeRecursive registeredA.depth (userTablePath (ascii "a")))
        registeredA t r fs' → NoFault t →
        (ExactRemoval registeredA (userTablePath (ascii "a")) t r.1 fs' ↔
          registeredA.Tractable (userTablePath (ascii "a"))) :=
  removeRecursive_exact_iff registeredA_reachable.schema.tree _ le_rfl

/-- **A path that goes through a file names nothing, and is not reported missing.** -/
theorem not_removeRecursive_exact :
    ¬ ∀ (fs : FS) (path : Bytes) (depth : ℕ), fs.Tree → fs.depth ≤ depth →
      ∀ t r fs', Exec SysStep (removeRecursive depth path) fs t r fs' → NoFault t →
        ExactRemoval fs path t r.1 fs' := by
  intro hall
  have htree : registeredA.Tree := registeredA_reachable.schema.tree
  obtain ⟨path, hway⟩ : ∃ path, registeredA.locate path = .error .enotdir :=
    ⟨userdataPath (ascii "a") ++ slash :: ascii "x", by decide +kernel⟩
  obtain ⟨t, r, fs', h, ht⟩ := exec_noFault (removeRecursive registeredA.depth path) registeredA
  have hexact := hall registeredA path registeredA.depth htree le_rfl t r fs' h ht
  rw [exactRemoval_iff htree le_rfl h ht, FS.Tractable, hway] at hexact
  exact absurd hexact.1 (by decide)
