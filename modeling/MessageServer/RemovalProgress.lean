/-
# Recursive removal makes progress

* `FS.Steady`, `FS.Height`: a path that keeps leading to a directory, and how deep it goes below;
* `LateFault`: a fault behind which nothing is removed;
* `removeRecursive_progress`: on a path that keeps leading to a directory, a removal
  that fails has met a fault, and removes nothing afterwards;
* `removeRecursive_erases`: without faults, a removal of a directory erases something.
-/
import MessageServer.Removal

/-! ## Progress -/

/-- A fault after which nothing more is removed. -/
def LateFault (t : List sysE.Event) : Prop :=
  ∃ t₁ e t₂, t = t₁ ++ e :: t₂ ∧ Faulted e ∧ ∀ path, removedEvent path ∉ t₂

/-- A late fault stays one behind other steps. -/
theorem LateFault.prepend {t : List sysE.Event} (h : LateFault t) (t₀ : List sysE.Event) :
    LateFault (t₀ ++ t) := by
  obtain ⟨t₁, e, t₂, rfl, he, hlast⟩ := h
  exact ⟨t₀ ++ t₁, e, t₂, by rw [List.append_assoc], he, hlast⟩

/-- A late fault stays one before steps that remove nothing. -/
theorem LateFault.append {t : List sysE.Event} (h : LateFault t) {t₀ : List sysE.Event}
    (ht₀ : ∀ path, removedEvent path ∉ t₀) : LateFault (t ++ t₀) := by
  obtain ⟨t₁, e, t₂, rfl, he, hlast⟩ := h
  refine ⟨t₁, e, t₂ ++ t₀, by simp, he, fun path hmem => ?_⟩
  rcases List.mem_append.mp hmem with hmem | hmem
  · exact hlast path hmem
  · exact ht₀ path hmem

/-- It is a fault. -/
theorem LateFault.not_noFault {t : List sysE.Event} (h : LateFault t) : ¬ NoFault t := by
  obtain ⟨t₁, e, t₂, rfl, he, -⟩ := h
  intro ht
  exact ht e (by simp) he

/-! ### Steady paths and heights -/

/-- A path that leads to `L` whatever happens below `L`. -/
def FS.Steady (fs : FS) (path : Bytes) (L : Location) : Prop :=
  ∀ fs₁ : FS, fs₁.cwd = fs.cwd →
    (∀ q, fs₁.get q = fs.get q ∨ ∃ c names, q = L ++ c :: names) →
      fs₁.locate path = .ok L

section Steady

variable {fs fs' : FS} {path : Bytes} {L : Location}

/-- A steady path resolves. -/
theorem FS.Steady.locate (h : fs.Steady path L) : fs.locate path = .ok L :=
  h fs rfl fun _ => Or.inl rfl

/-- The path of a child is steady. -/
theorem FS.Steady.child (h : fs.Steady path L) (hdir : fs.get L = some .dir) {c : Name}
    (hc : FS.Plain c) (hlen : c.length ≤ nameMax) :
    fs.Steady (path ++ slash :: c) (L ++ [c]) := by
  intro fs₁ hcwd hframe
  have hpath : fs₁.locate path = .ok L := by
    refine h fs₁ hcwd fun q => ?_
    rcases hframe q with hq | ⟨d, names, rfl⟩
    · exact Or.inl hq
    · refine Or.inr ⟨c, d :: names, ?_⟩
      rw [List.append_assoc]
      rfl
  have hdir₁ : fs₁.get L = some .dir := by
    rcases hframe L with hq | ⟨d, names, hq⟩
    · rw [hq, hdir]
    · have hlen := congrArg List.length hq
      simp at hlen
  exact (FS.locate_append_eq_ok (FS.ne_nil_of_locate hpath) hc).mpr
    ⟨L, hpath, hdir₁, hlen, rfl⟩

/-- Erasures elsewhere keep a path steady. -/
theorem FS.Steady.of_erased {path' : Bytes} {t : List sysE.Event} (h : fs.Steady path L)
    (he : ErasedBelow path' L t fs fs') : fs'.Steady path L := by
  intro fs₁ hcwd hframe
  refine h fs₁ (hcwd.trans he.cwd) fun q => ?_
  rcases hframe q with hq | hq
  · rcases he.frame q with hq' | ⟨c, names, hq', -, -⟩
    · exact Or.inl (hq.trans hq')
    · exact Or.inr ⟨c, names, hq'⟩
  · exact Or.inr hq

/-- Directories below `L` are less than `d` levels deep. -/
def FS.Height (fs : FS) (L : Location) (d : ℕ) : Prop :=
  ∀ names, fs.get (L ++ names) = some .dir → names.length < d

/-- A child is one level less high. -/
theorem FS.Height.child {c : Name} {d : ℕ} (h : fs.Height L (d + 1)) :
    fs.Height (L ++ [c]) d := by
  intro names hn
  rw [List.append_assoc] at hn
  have hlt := h (c :: names) hn
  rw [List.length_cons] at hlt
  omega

/-- Erasures make nothing higher. -/
theorem FS.Height.of_erased {path' : Bytes} {L' : Location} {t : List sysE.Event} {d : ℕ}
    (h : fs.Height L d) (he : ErasedAt path' L' t fs fs') : fs'.Height L d := by
  intro names hn
  refine h names ?_
  rcases he.frame (L ++ names) with hq | ⟨_, _, hnone, _⟩
  · rw [← hq, hn]
  · rw [hnone] at hn
    exact absurd hn (by simp)

end Steady

/-- Erasing a child leaves `L` and its other children. -/
theorem ErasedAt.get_sibling {path : Bytes} {L : Location} {c c' : Name} {t : List sysE.Event}
    {fs fs' : FS} (h : ErasedAt path (L ++ [c]) t fs fs') (hne : c ≠ c') :
    fs'.get (L ++ [c']) = fs.get (L ++ [c']) := by
  refine h.get_eq fun hpre => hne ?_
  have hcons := (List.prefix_append_right_inj L).mp hpre
  simpa using hcons

/-- The erasure of a child keeps its parent. -/
theorem ErasedAt.get_parent {path : Bytes} {L : Location} {c : Name} {t : List sysE.Event}
    {fs fs' : FS} (h : ErasedAt path (L ++ [c]) t fs fs') : fs'.get L = fs.get L := by
  refine h.get_eq fun hpre => ?_
  have hle := hpre.length_le
  simp at hle

/-! ### The walk finishes -/

/-- What a removing function has to achieve on a directory of height `d`. -/
def Finishes (rm : Bytes → Sys (ℤ × Option Errno)) (d : ℕ) : Prop :=
  ∀ path L fs fs' t r, fs.Tree → fs.Steady path L → FS.Removable path L →
    fs.get L = some .dir →
    fs.Height L d → Exec SysStep (rm path) fs t r fs' → 0 ≤ r.1 ∨ LateFault t

/-- A child in front of the walk is removed, or a fault stops the walk. -/
theorem exec_removeEntry {rmDir : Bytes → Sys (ℤ × Option Errno)} {d : ℕ}
    (hrm : Removes rmDir)
    (hfin : Finishes rmDir d) {path : Bytes} {L : Location} {fs fs' : FS} (htree : fs.Tree)
    (hsteady : fs.Steady path L) (hdir : fs.get L = some .dir) (hheight : fs.Height L (d + 1))
    {e : Dirent} (hplain : FS.Plain e.name) (hlen : e.name.length ≤ nameMax) {n : Node}
    (hn : fs.get (L ++ [e.name]) = some n) (hisDir : n.isDir = e.isDir) {errno : Option Errno}
    (herrno : errno ≠ some .enoent) {t : List sysE.Event} {r : ℤ × Option Errno}
    (h : Exec SysStep (removeEntry rmDir path e errno) fs t r fs') :
    fs'.Tree ∧ ErasedAt (path ++ slash :: e.name) (L ++ [e.name]) t fs fs' ∧
      ((0 ≤ r.1 ∧ fs'.get (L ++ [e.name]) = none ∧ r.2 ≠ some .enoent) ∨
        (r.1 < 0 ∧ LateFault t)) := by
  have hchild := hsteady.child hdir hplain hlen
  have hlex : lexical fs.cwd (path ++ slash :: e.name) = L ++ [e.name] :=
    (locate_eq_lexical hchild.locate).symm
  rw [removeEntry] at h
  split at h
  · rename_i hd
    have hn' : fs.get (L ++ [e.name]) = some .dir := by
      cases n with
      | dir => exact hn
      | file c =>
          rw [hd] at hisDir
          exact absurd hisDir (by simp [Node.isDir])
    -- a directory goes through the recursion
    obtain ⟨htree', herased, hok⟩ := hrm _ _ _ _ _ htree h
    rw [hlex] at herased hok
    refine ⟨htree', herased, ?_⟩
    rcases lt_or_ge r.1 0 with hneg | hpos
    · exact Or.inr ⟨hneg, (hfin _ _ _ _ _ _ htree hchild
        (FS.Removable.append _ _ hplain) hn' hheight.child h).resolve_left
        (not_le.mpr hneg)⟩
    · exact Or.inl ⟨hpos, (hok hpos).2⟩
  · rename_i hd
    -- a file is removed at once
    obtain ⟨c, rfl⟩ : ∃ c, n = .file c := by
      cases n with
      | dir => exact absurd hisDir.symm hd
      | file c => exact ⟨c, rfl⟩
    obtain ⟨htree', herased, hres⟩ := exec_removeFile htree h
    rw [hlex] at herased hres
    refine ⟨htree', herased, ?_⟩
    rcases hres with ⟨rfl, hnone⟩ | ⟨hneg, rfl, -, ⟨e', rfl, hfault⟩ | ⟨e', he'⟩⟩
    · exact Or.inl ⟨le_rfl, hnone, herrno⟩
    · refine Or.inr ⟨by rw [hneg]; decide, [], e', [], rfl, hfault, fun _ => by simp⟩
    · rw [FS.remove_file hchild.locate hn] at he'
      exact absurd he' (by simp)

/-- A walk over the children of a directory comes to its end. -/
theorem removeEntries_progress {rmDir : Bytes → Sys (ℤ × Option Errno)} {d : ℕ}
    (hrm : Removes rmDir) (hfin : Finishes rmDir d) {path : Bytes} {L : Location}
    (ds : List Dirent) (hnodup : (ds.map Dirent.name).Nodup) {fs fs' : FS} (htree : fs.Tree)
    (hsteady : fs.Steady path L) (hdir : fs.get L = some .dir) (hheight : fs.Height L (d + 1))
    (hds : ∀ e ∈ ds, e.IsDots ∨ (FS.Plain e.name ∧ e.name.length ≤ nameMax ∧
      ∃ n, fs.get (L ++ [e.name]) = some n ∧ n.isDir = e.isDir))
    {errno : Option Errno} (herrno : errno ≠ some .enoent) {t : List sysE.Event}
    {r : ℤ × Option Errno} (h : Exec SysStep (removeEntries rmDir path ds errno) fs t r fs') :
    (0 ≤ r.1 ∧ ∀ e ∈ ds, ¬ e.IsDots → fs'.get (L ++ [e.name]) = none) ∨
      (r.1 < 0 ∧ LateFault t) := by
  induction ds generalizing fs errno t with
  | nil =>
      obtain ⟨rfl, rfl, rfl⟩ := exec_ret_iff.mp h
      exact Or.inl ⟨le_rfl, by simp⟩
  | cons e ds ih =>
      rw [List.map_cons, List.nodup_cons] at hnodup
      have hds' : ∀ e ∈ ds, e.IsDots ∨ (FS.Plain e.name ∧ e.name.length ≤ nameMax ∧
          ∃ n, fs.get (L ++ [e.name]) = some n ∧ n.isDir = e.isDir) := fun e he =>
        hds e (List.mem_cons_of_mem _ he)
      rw [removeEntries] at h
      split at h
      · rename_i hdots
        rcases ih hnodup.2 htree hsteady hdir hheight hds' herrno h with ⟨hpos, hgone⟩ | hfault
        · refine Or.inl ⟨hpos, fun e' he' hne => ?_⟩
          rcases List.mem_cons.mp he' with rfl | he'
          · exact absurd hdots hne
          · exact hgone e' he' hne
        · exact Or.inr hfault
      · rename_i hdots
        obtain ⟨hplain, hlen, n, hn, hisDir⟩ := (hds e List.mem_cons_self).resolve_left hdots
        obtain ⟨t₁, r₁, fs₁, t₂, h₁, h₂, rfl⟩ := exec_bind_iff.mp h
        obtain ⟨htree₁, herased, hres⟩ := exec_removeEntry hrm hfin htree hsteady hdir hheight
          hplain hlen hn hisDir herrno h₁
        rcases hres with ⟨hpos, hnone, herrno₁⟩ | ⟨hneg, hfault⟩
        · rw [if_neg (not_lt.mpr hpos)] at h₂
          -- the other entries are there still, as their names are different
          have hds₁ : ∀ e' ∈ ds, e'.IsDots ∨
              (FS.Plain e'.name ∧ e'.name.length ≤ nameMax ∧
              ∃ n, fs₁.get (L ++ [e'.name]) = some n ∧ n.isDir = e'.isDir) := by
            intro e' he'
            have hne : e.name ≠ e'.name := fun heq =>
              hnodup.1 (List.mem_map.mpr ⟨e', he', heq.symm⟩)
            rw [herased.get_sibling hne]
            exact hds' e' he'
          have herased' : ErasedAt path (lexical fs₁.cwd path) t₂ fs₁ fs' := by
            have hplains : ∀ d ∈ ds, d.IsDots ∨ FS.Plain d.name := fun d hd =>
              (hds' d hd).imp_right fun hd' => hd'.1
            exact (exec_removeEntries hrm ds hplains htree₁ herrno₁ h₂).2.1.erased
          rcases ih hnodup.2 htree₁ (hsteady.of_erased herased.below)
            (herased.get_parent.trans hdir) (hheight.of_erased herased) hds₁ herrno₁ h₂ with
            ⟨hpos', hgone⟩ | ⟨hneg', hfault⟩
          · refine Or.inl ⟨hpos', fun e' he' hne => ?_⟩
            rcases List.mem_cons.mp he' with rfl | he'
            · exact herased'.none_of_none hnone
            · exact hgone e' he' hne
          · exact Or.inr ⟨hneg', hfault.prepend t₁⟩
        · rw [if_pos hneg] at h₂
          obtain ⟨rfl, rfl, rfl⟩ := exec_ret_iff.mp h₂
          exact Or.inr ⟨hneg, hfault.append (by simp)⟩

/-- The names of a listing are different. -/
theorem FS.Tree.listing_nodup {fs : FS} (htree : fs.Tree) (p : Location) {l : List Dirent}
    (hl : l.Perm (⟨dot, true⟩ :: ⟨dotdot, true⟩ :: fs.children p)) :
    (l.map Dirent.name).Nodup := by
  rw [(hl.map Dirent.name).nodup_iff, List.map_cons, List.map_cons]
  have hchild : ∀ c ∈ (fs.children p).map Dirent.name, FS.Plain c := by
    intro c hc
    obtain ⟨d, hd, rfl⟩ := List.mem_map.mp hc
    obtain ⟨n, hn, -⟩ := FS.mem_children.mp hd
    exact (htree.plain p d.name n hn).1
  refine List.nodup_cons.mpr ⟨?_, List.nodup_cons.mpr ⟨?_, FS.children_nodup fs p⟩⟩
  · intro hmem
    rcases List.mem_cons.mp hmem with heq | hmem
    · exact absurd heq (by decide)
    · exact (hchild _ hmem).notDot rfl
  · intro hmem
    exact (hchild _ hmem).notDotdot rfl

/-- **Progress.**  On a steady path to a directory, `remove_recursive` succeeds
unless a call faults, and after that fault it removes nothing. -/
theorem removeRecursive_progress (depth : ℕ) : Finishes (removeRecursive depth) depth := by
  induction depth with
  | zero =>
      intro path L fs fs' t r _ _ _ hdir hheight _
      have hlt := hheight [] (by rw [List.append_nil]; exact hdir)
      simp at hlt
  | succ depth ih =>
      intro path L fs fs' t r htree hsteady hrm hdir hheight h
      rw [removeRecursive] at h
      obtain ⟨x, fs₁, t', hstep, hrest, rfl⟩ := exec_perform_bind_iff.mp h
      obtain ⟨rfl, hx⟩ := hstep.opendir
      have hopen : fs₁.opendir path = .ok (⟨dot, true⟩ :: ⟨dotdot, true⟩ ::
          fs₁.children L) := by
        rw [FS.opendir, hsteady.locate]
        simp only [hdir]
      rcases hx with rfl | ⟨e, he, rfl⟩ | ⟨l, l', hl, hperm, rfl⟩
      · -- the directory could not be opened: the last `remove` fails on it, or it is empty
        simp only [reduceCtorEq, if_false] at hrest
        obtain ⟨htree', herased, ⟨rfl, -⟩ | ⟨hneg, rfl, hlast, -⟩⟩ :=
          exec_removeFile htree hrest
        · exact Or.inl le_rfl
        · exact Or.inr ⟨[], _, t', rfl, rfl, hlast⟩
      · rw [hopen] at he
        exact absurd he (by simp)
      · obtain rfl : _ = l := Except.ok.inj (hopen.symm.trans hl)
        obtain ⟨t₁, r₁, fs₂, t₂, h₁, h₂, rfl⟩ := exec_bind_iff.mp hrest
        obtain ⟨u, fs₃, t₃, hclose, h₃, rfl⟩ := exec_perform_bind_iff.mp h₂
        obtain rfl := hclose.closedir
        have hlisted := fun e he => htree.listed hperm (d := e) he
        have hplains : ∀ d ∈ l', d.IsDots ∨ FS.Plain d.name := fun d hd =>
          (hlisted d hd).imp_right fun hd' => hd'.1
        obtain ⟨htree₂, hbelow, hok⟩ :=
          exec_removeEntries (exec_removeRecursive depth) l' hplains htree (by simp) h₁
        rw [← locate_eq_lexical hsteady.locate] at hbelow
        rcases removeEntries_progress (exec_removeRecursive depth) ih l'
          (htree.listing_nodup L hperm) htree hsteady hdir hheight hlisted (by simp) h₁ with
          ⟨hpos, hgone⟩ | ⟨hneg, hfault⟩
        · rw [if_neg (not_lt.mpr hpos), if_neg (hok hpos).2] at h₃
          have hdir₃ : fs₃.get L = some .dir := by
            rcases hbelow.frame L with hq | ⟨c, names, hq, -, -⟩
            · rw [hq, hdir]
            · have hlen := congrArg List.length hq
              simp at hlen
          have hempty : fs₃.children L = [] := by
            -- a child that is left was listed, and so is gone
            rw [List.eq_nil_iff_forall_not_mem]
            intro d hd
            obtain ⟨n, hn, hisDir⟩ := FS.mem_children.mp hd
            have hn' : fs₁.get (L ++ [d.name]) = some n := by
              rcases hbelow.frame (L ++ [d.name]) with hq | ⟨_, _, -, hnone, -⟩
              · rw [← hq, hn]
              · rw [hnone] at hn
                exact absurd hn (by simp)
            have hmem : d ∈ l' := by
              rw [hperm.mem_iff]
              exact List.mem_cons_of_mem _ (List.mem_cons_of_mem _
                (FS.mem_children.mpr ⟨n, hn', hisDir⟩))
            have hplain := (htree.plain L d.name n hn').1
            have hnone := hgone d hmem fun hdots => hdots.elim hplain.notDot hplain.notDotdot
            rw [hnone] at hn
            exact absurd hn (by simp)
          have hloc₃ := (hsteady.of_erased hbelow).locate
          obtain ⟨-, -,
              ⟨rfl, -⟩ | ⟨hneg, rfl, hlast, ⟨e, rfl, he⟩ | ⟨e, he⟩⟩⟩ :=
            exec_removeFile htree₂ h₃
          · exact Or.inl le_rfl
          · right
            exact ((LateFault.prepend ⟨[], e, [], rfl, he, by simp⟩ [_]).prepend t₁).prepend
              [_]
          · rw [FS.remove_dir hloc₃ hrm hdir₃ hempty] at he
            exact absurd he (by simp)
        · rw [if_pos hneg] at h₃
          obtain ⟨rfl, rfl, rfl⟩ := exec_ret_iff.mp h₃
          right
          refine LateFault.prepend (hfault.append fun path' hmem => ?_) [_]
          exact absurd (congrArg Sigma.fst (List.mem_singleton.mp hmem)) (by simp [removedEvent])

/-! ## Removal without faults -/

/-- The walk skips the dots. -/
theorem removeEntries_dots (rmDir : Bytes → Sys (ℤ × Option Errno)) (path : Bytes)
    (ds : List Dirent) (hds : ∀ e ∈ ds, e.IsDots) :
    removeEntries rmDir path ds none = return (0, none) := by
  induction ds with
  | nil => rfl
  | cons e ds ih =>
      have hdots : e.name = dot ∨ e.name = dotdot := hds e List.mem_cons_self
      rw [removeEntries, if_pos hdots]
      exact ih fun e he => hds e (List.mem_cons_of_mem _ he)

/-- The walk erases something once one child is erased. -/
theorem removeEntries_erases {rmDir : Bytes → Sys (ℤ × Option Errno)} (hrm : Removes rmDir)
    {path : Bytes} {L : Location} {fs fs' : FS} (htree : fs.Tree)
    (hloc : fs.locate path = .ok L) (hdir : fs.get L = some .dir)
    (hsub : ∀ c t r fs₁, FS.Plain c → fs.locate (path ++ slash :: c) = .ok (L ++ [c]) →
      fs.get (L ++ [c]) = some .dir → Exec SysStep (rmDir (path ++ slash :: c)) fs t r fs₁ →
      NoFault t → ∃ q, fs.get q ≠ none ∧ fs₁.get q = none)
    (ds : List Dirent)
    (hds : ∀ e ∈ ds, e.IsDots ∨ (FS.Plain e.name ∧ e.name.length ≤ nameMax ∧
      ∃ n, fs.get (L ++ [e.name]) = some n ∧ n.isDir = e.isDir))
      (hreal : ∃ e ∈ ds, ¬ e.IsDots)
    {errno : Option Errno} (herrno : errno ≠ some .enoent) {t : List sysE.Event}
    {r : ℤ × Option Errno} (h : Exec SysStep (removeEntries rmDir path ds errno) fs t r fs')
    (ht : NoFault t) : ∃ q, fs.get q ≠ none ∧ fs'.get q = none := by
  induction ds with
  | nil =>
      obtain ⟨e, he, -⟩ := hreal
      exact absurd he (by simp)
  | cons e ds ih =>
      have hds' := fun e he => hds e (List.mem_cons_of_mem _ he)
      rw [removeEntries] at h
      split at h
      · rename_i hdots
        refine ih hds' ?_ h
        obtain ⟨e', he', hne⟩ := hreal
        rcases List.mem_cons.mp he' with rfl | he'
        · exact absurd hdots hne
        · exact ⟨e', he', hne⟩
      · rename_i hdots
        obtain ⟨hplain, hlen, n, hn, hisDir⟩ := (hds e List.mem_cons_self).resolve_left hdots
        have hchild : fs.locate (path ++ slash :: e.name) = .ok (L ++ [e.name]) :=
          (FS.locate_append_eq_ok (FS.ne_nil_of_locate hloc) hplain).mpr
            ⟨L, hloc, hdir, hlen, rfl⟩
        obtain ⟨t₁, r₁, fs₁, t₂, h₁, h₂, rfl⟩ := exec_bind_iff.mp h
        -- the first real entry is gone when its removal succeeds
        have hfirst : fs₁.Tree ∧ (0 ≤ r₁.1 → r₁.2 ≠ some .enoent) ∧
            ∃ q, fs.get q ≠ none ∧ fs₁.get q = none := by
          rw [removeEntry] at h₁
          split at h₁
          · rename_i hd
            have hn' : fs.get (L ++ [e.name]) = some .dir := by
              cases n with
              | dir => exact hn
              | file c =>
                  rw [hd] at hisDir
                  exact absurd hisDir (by simp [Node.isDir])
            obtain ⟨htree₁, -, hok⟩ := hrm _ _ _ _ _ htree h₁
            exact ⟨htree₁, fun hpos => (hok hpos).2.2,
              hsub _ _ _ _ hplain hchild hn' h₁ ht.of_append_left⟩
          · rename_i hd
            obtain ⟨c, rfl⟩ : ∃ c, n = .file c := by
              cases n with
              | dir => exact absurd hisDir.symm hd
              | file c => exact ⟨c, rfl⟩
            obtain ⟨htree₁, -,
                ⟨rfl, hnone⟩ | ⟨-, -, -, ⟨e', rfl, hfault⟩ | ⟨e', he'⟩⟩⟩ :=
              exec_removeFile htree h₁
            · rw [← locate_eq_lexical hchild] at hnone
              exact ⟨htree₁, fun _ => herrno, _, by rw [hn]; simp, hnone⟩
            · exact absurd hfault (ht e' (by simp))
            · rw [FS.remove_file hchild hn] at he'
              exact absurd he' (by simp)
        obtain ⟨htree₁, herrno₁, q, hq, hnone⟩ := hfirst
        refine ⟨q, hq, ?_⟩
        split at h₂
        · obtain ⟨-, -, rfl⟩ := exec_ret_iff.mp h₂
          exact hnone
        · rename_i hpos
          have hplains : ∀ d ∈ ds, d.IsDots ∨ FS.Plain d.name := fun d hd =>
            (hds' d hd).imp_right fun hd' => hd'.1
          exact (exec_removeEntries hrm ds hplains htree₁ (herrno₁ (not_lt.mp hpos))
            h₂).2.1.erased.none_of_none hnone

/-- **Without faults, removing a directory erases something.** -/
theorem removeRecursive_erases (depth : ℕ) {path : Bytes} {L : Location} {fs fs' : FS}
    {t : List sysE.Event} {r : ℤ × Option Errno} (htree : fs.Tree)
    (hloc : fs.locate path = .ok L) (hrm : FS.Removable path L) (hdir : fs.get L = some .dir)
    (hheight : fs.Height L depth) (h : Exec SysStep (removeRecursive depth path) fs t r fs')
    (ht : NoFault t) :
    ∃ q, fs.get q ≠ none ∧ fs'.get q = none := by
  induction depth generalizing path L fs fs' t r with
  | zero =>
      have hlt := hheight [] (by rw [List.append_nil]; exact hdir)
      simp at hlt
  | succ depth ih =>
      rw [removeRecursive] at h
      obtain ⟨x, fs₁, t', hstep, hrest, rfl⟩ := exec_perform_bind_iff.mp h
      obtain ⟨rfl, hx⟩ := hstep.opendir
      have hopen : fs₁.opendir path = .ok (⟨dot, true⟩ :: ⟨dotdot, true⟩ ::
          fs₁.children L) := by
        rw [FS.opendir, hloc]
        simp only [hdir]
      rcases hx with rfl | ⟨e, he, rfl⟩ | ⟨l, l', hl, hperm, rfl⟩
      · exact absurd rfl (ht _ List.mem_cons_self)
      · rw [hopen] at he
        exact absurd he (by simp)
      · obtain rfl : _ = l := Except.ok.inj (hopen.symm.trans hl)
        obtain ⟨t₁, r₁, fs₂, t₂, h₁, h₂, rfl⟩ := exec_bind_iff.mp hrest
        obtain ⟨u, fs₃, t₃, hclose, h₃, rfl⟩ := exec_perform_bind_iff.mp h₂
        obtain rfl := hclose.closedir
        have hlisted := fun e he => htree.listed hperm (d := e) he
        have hplains : ∀ d ∈ l', d.IsDots ∨ FS.Plain d.name := fun d hd =>
          (hlisted d hd).imp_right fun hd' => hd'.1
        obtain ⟨htree₂, hbelow, hok⟩ :=
          exec_removeEntries (exec_removeRecursive depth) l' hplains htree (by simp) h₁
        -- nothing comes back when the directory itself is removed
        have hlast : ∀ q, fs₃.get q = none → fs'.get q = none := by
          intro q hq
          split at h₃
          · obtain ⟨-, -, rfl⟩ := exec_ret_iff.mp h₃
            exact hq
          · split at h₃
            · rw [(exec_reportMissing h₃).1]
              exact hq
            · exact (exec_removeFile htree₂ h₃).2.1.none_of_none hq
        by_cases hreal : ∃ e ∈ l', ¬ e.IsDots
        · obtain ⟨q, hq, hnone⟩ :=
            removeEntries_erases (exec_removeRecursive depth) htree hloc hdir
            (fun c t r fs₁ hplain hlocc hdirc hexec htc =>
              ih htree hlocc (FS.Removable.append _ _ hplain) hdirc hheight.child hexec htc)
            l' hlisted hreal (by simp) h₁ ht.of_cons.of_append_left
          exact ⟨q, hq, hlast q hnone⟩
        · -- an empty directory is removed itself
          have hdots : ∀ e ∈ l', e.IsDots :=
            fun e he => by_contra fun hne => hreal ⟨e, he, hne⟩
          rw [removeEntries_dots _ path l' hdots] at h₁
          obtain ⟨rfl, rfl, rfl⟩ := exec_ret_iff.mp h₁
          have hempty : fs₃.children L = [] := by
            rw [List.eq_nil_iff_forall_not_mem]
            intro d hd
            have hmem : d ∈ l' := by
              rw [hperm.mem_iff]
              exact List.mem_cons_of_mem _ (List.mem_cons_of_mem _ hd)
            obtain ⟨n, hn, -⟩ := FS.mem_children.mp hd
            have hplain := (htree.plain L d.name n hn).1
            exact (hdots d hmem).elim hplain.notDot hplain.notDotdot
          refine ⟨L, by rw [hdir]; simp, ?_⟩
          rw [if_neg (by decide), if_neg (by simp)] at h₃
          obtain ⟨-, -, ⟨-, hnone⟩ | ⟨-, -, -, ⟨e, rfl, hfault⟩ | ⟨e, he⟩⟩⟩ :=
            exec_removeFile htree h₃
          · rw [← locate_eq_lexical hloc] at hnone
            exact hnone
          · exact absurd hfault (ht e (by simp))
          · rw [FS.remove_dir hloc hrm hdir hempty] at he
            exact absurd he (by simp)
