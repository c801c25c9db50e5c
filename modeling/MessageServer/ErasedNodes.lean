/-
# Nodes that are removed

A path string leads, if anywhere, to its **lexical** location: the one that its
components spell out from the working directory.

* `FS.Tree`: every node stands in a directory;
* `FS.remove_ok`: what one `remove` does;
* `ErasedAt`, `ErasedBelow`: the nodes at and below a location, of which some are gone,
  each by a `remove` that succeeded.
-/
import MessageServer.Transfer

/-! ## Lexical locations -/

/-- The location that the components of a path spell out. -/
def lexical (cwd : Location) (path : Bytes) : Location :=
  (FS.components path).foldl Location.step cwd

/-- A walk over names that succeeds is the walk on the location. -/
theorem foldlM_enter_eq {fs : FS} (cs : List Name) {p q : Location}
    (h : cs.foldlM fs.enter p = .ok q) : q = cs.foldl Location.step p := by
  induction cs generalizing p with
  | nil =>
      rw [List.foldlM_nil] at h
      exact (Except.ok.inj h).symm
  | cons c cs ih =>
      rw [List.foldlM_cons] at h
      cases henter : fs.enter p c with
      | error e =>
          rw [henter] at h
          exact absurd h (by simp [bind, Except.bind])
      | ok r =>
          rw [henter] at h
          obtain ⟨-, -, rfl⟩ := FS.enter_eq_ok.mp henter
          exact ih h

/-- A path that resolves leads to its lexical location. -/
theorem locate_eq_lexical {fs : FS} {path : Bytes} {p : Location}
    (h : fs.locate path = .ok p) : p = lexical fs.cwd path :=
  foldlM_enter_eq _ (FS.foldlM_of_locate h)

/-- One more name on a path is one more name on the location. -/
theorem lexical_append (cwd : Location) (path : Bytes) {c : Name} (hc : FS.Plain c) :
    lexical cwd (path ++ slash :: c) = lexical cwd path ++ [c] := by
  rw [lexical, FS.components_append, List.foldl_append, FS.components_plain hc.noSlash]
  exact hc.step _

/-- A path continued by names. -/
def descend (path : Bytes) (names : List Name) : Bytes :=
  names.foldl (fun p n => p ++ slash :: n) path

/-! ## Trees -/

/-- A file system that is a tree of directories with proper names. -/
structure FS.Tree (fs : FS) : Prop where
  parent : ∀ p c n, fs.get (p ++ [c]) = some n → fs.get p = some .dir
  plain : ∀ p c n, fs.get (p ++ [c]) = some n → FS.Plain c ∧ c.length ≤ nameMax

/-- Only directories have nodes below them. -/
theorem FS.Tree.dir_of_below {fs : FS} (h : fs.Tree) (p : Location) (c : Name)
    (names : List Name) {n : Node} (hn : fs.get (p ++ c :: names) = some n) :
    fs.get p = some .dir := by
  induction names using List.reverseRecOn generalizing n with
  | nil => exact h.parent p c n hn
  | append_singleton names d ih =>
      refine ih (n := .dir) ?_
      refine h.parent (p ++ c :: names) d n ?_
      rw [List.append_assoc]
      exact hn

/-- Nothing is below a place that is no directory. -/
theorem FS.Tree.none_of_not_dir {fs : FS} (h : fs.Tree) {p : Location} (hp : fs.get p ≠ some .dir)
    (c : Name) (names : List Name) : fs.get (p ++ c :: names) = none := by
  by_contra hne
  obtain ⟨n, hn⟩ := Option.ne_none_iff_exists'.mp hne
  exact hp (h.dir_of_below p c names hn)

/-- Nothing is below a place where nothing is. -/
theorem FS.Tree.none_of_prefix {fs : FS} (h : fs.Tree) {p q : Location} (hnone : fs.get p = none)
    (hpre : p <+: q) : fs.get q = none := by
  obtain ⟨names, rfl⟩ := hpre
  cases names with
  | nil => rwa [List.append_nil]
  | cons c names =>
      apply h.none_of_not_dir
      rw [hnone]
      simp

/-- Below a free place there is nothing. -/
theorem FS.Tree.none_below {fs : FS} (h : fs.Tree) {L : Location}
    (hnew : fs.get L = none) (c : Name) :
    fs.get (L ++ [c]) = none := h.none_of_prefix hnew (List.prefix_append _ _)

/-- A file with another content leaves a tree. -/
theorem FS.Tree.put_file {fs : FS} (h : fs.Tree) {p : Location} {c c' : Bytes}
    (hp : fs.get p = some (.file c)) : (fs.put p (.file c')).Tree := by
  constructor
  · intro q d n hn
    rw [FS.get_put] at hn ⊢
    have hold : fs.get q = some .dir := by
      split at hn
      · rename_i heq
        exact h.parent q d (.file c) (heq ▸ hp)
      · exact h.parent q d n hn
    rw [if_neg ?_]
    · exact hold
    · rintro rfl
      rw [hp] at hold
      simp at hold
  · intro q d n hn
    rw [FS.get_put] at hn
    split at hn
    · rename_i heq
      exact h.plain q d (.file c) (heq ▸ hp)
    · exact h.plain q d n hn

/-- A new node at a fresh place in a directory. -/
theorem FS.Tree.put_new {fs : FS} (h : fs.Tree) {p : Location} {c : Name} (n : Node)
    (hp : fs.get p = some .dir) (hnew : fs.get (p ++ [c]) = none) (hc : FS.Plain c)
    (hlen : c.length ≤ nameMax) : (fs.put (p ++ [c]) n).Tree := by
  constructor
  · intro q d m hm
    rw [FS.get_put] at hm ⊢
    have hold : fs.get q = some .dir := by
      split at hm
      · rename_i heq
        obtain ⟨rfl, -⟩ := List.append_inj' heq rfl
        exact hp
      · exact h.parent q d m hm
    rw [if_neg ?_]
    · exact hold
    · rintro rfl
      rw [hnew] at hold
      simp at hold
  · intro q d m hm
    rw [FS.get_put] at hm
    split at hm
    · rename_i heq
      obtain ⟨-, hd⟩ := List.append_inj' heq rfl
      obtain rfl := List.singleton_inj.mp hd
      exact ⟨hc, hlen⟩
    · exact h.plain q d m hm

/-- So does the removal of a node without children. -/
theorem FS.Tree.del {fs : FS} (h : fs.Tree) {p : Location}
    (hp : ∀ c, fs.get (p ++ [c]) = none) : (fs.del p).Tree := by
  constructor
  · intro q d n hn
    rw [FS.get_del] at hn ⊢
    split at hn
    · exact absurd hn (by simp)
    · rw [if_neg ?_]
      · exact h.parent q d n hn
      · rintro rfl
        rw [hp] at hn
        exact absurd hn (by simp)
  · intro q d n hn
    rw [FS.get_del] at hn
    split at hn
    · exact absurd hn (by simp)
    · exact h.plain q d n hn

/-! ## One `remove` -/

/-- What `remove` has done when it succeeds. -/
theorem FS.remove_ok {fs fs' : FS} {path : Bytes} (h : fs.remove path = .ok fs') :
    ∃ p, fs.locate path = .ok p ∧ fs' = fs.del p ∧
      ((∃ c, fs.get p = some (.file c)) ∨ (fs.get p = some .dir ∧ fs.children p = [])) := by
  unfold FS.remove at h
  split at h
  · exact absurd h (by simp)
  · rename_i p hp
    cases hget : fs.get p with
    | none => simp [hget] at h
    | some n =>
        cases n with
        | file c =>
            simp only [hget, Except.ok.injEq] at h
            exact ⟨p, hp, h.symm, Or.inl ⟨c, hget⟩⟩
        | dir =>
            simp only [hget] at h
            split at h
            · cases h
            · split at h
              · cases h
              · split at h
                · rename_i hempty
                  exact ⟨p, hp, (Except.ok.inj h).symm, Or.inr ⟨hget, hempty⟩⟩
                · cases h

/-- A file is removed. -/
theorem FS.remove_file {fs : FS} {path : Bytes} {p : Location} {c : Bytes}
    (hp : fs.locate path = .ok p) (hget : fs.get p = some (.file c)) :
    fs.remove path = .ok (fs.del p) := by
  rw [FS.remove, hp]
  simp only [hget]

/-- A path that `rmdir` takes. -/
structure FS.Removable (path : Bytes) (p : Location) : Prop where
  notRoot : p ≠ []
  notDot : ¬ FS.FinalDot path

/-- An empty directory is removed. -/
theorem FS.remove_dir {fs : FS} {path : Bytes} {p : Location} (hp : fs.locate path = .ok p)
    (hrm : FS.Removable path p) (hget : fs.get p = some .dir) (hempty : fs.children p = []) :
    fs.remove path = .ok (fs.del p) := by
  rw [FS.remove, hp]
  simp only [hget, hempty, if_neg hrm.notRoot, if_neg hrm.notDot, if_true]

/-- A path that ends in a name. -/
theorem FS.Removable.append (path : Bytes) (p : Location) {c : Name} (hc : FS.Plain c) :
    FS.Removable (path ++ slash :: c) (p ++ [c]) := by
  refine ⟨by simp, ?_⟩
  have hname : decide (c ≠ []) = true := decide_eq_true hc.notEmpty
  rw [FS.FinalDot, FS.components_append, FS.components_plain hc.noSlash, List.filter_append,
    List.filter_cons_of_pos (p := fun n : Name => decide (n ≠ [])) hname, List.filter_nil,
    List.getLast?_concat, Option.some.injEq]
  exact hc.notDot

/-- What is removed has nothing below it. -/
theorem FS.Tree.nothing_below {fs : FS} (h : fs.Tree) {p : Location}
    (hp : (∃ c, fs.get p = some (.file c)) ∨ (fs.get p = some .dir ∧ fs.children p = []))
    (c : Name) :
    fs.get (p ++ [c]) = none := by
  rcases hp with ⟨b, hb⟩ | ⟨-, hempty⟩
  · apply h.none_of_not_dir
    rw [hb]
    simp
  · by_contra hne
    obtain ⟨n, hn⟩ := Option.ne_none_iff_exists'.mp hne
    have hmem : (⟨c, n.isDir⟩ : Dirent) ∈ fs.children p :=
      FS.mem_children.mpr ⟨n, hn, rfl⟩
    rw [hempty] at hmem
    exact absurd hmem (by simp)

/-! ## ErasedAt nodes -/

/-- The event of a `remove` that succeeded. -/
def removedEvent (path : Bytes) : sysE.Event :=
  ⟨SysOp.remove path, (Except.ok () : Except Errno Unit)⟩

/-- From `fs` to `fs'` nodes at and below `L` were erased, each by a `remove` of the
trace whose path continues `path`. -/
structure ErasedAt (path : Bytes) (L : Location) (t : List sysE.Event) (fs fs' : FS) : Prop where
  cwd : fs'.cwd = fs.cwd
  frame : ∀ q, fs'.get q = fs.get q ∨
    ∃ names, q = L ++ names ∧ fs'.get q = none ∧ removedEvent (descend path names) ∈ t

/-- The same strictly below `L`. -/
structure ErasedBelow (path : Bytes) (L : Location) (t : List sysE.Event) (fs fs' : FS) :
    Prop where
  cwd : fs'.cwd = fs.cwd
  frame : ∀ q, fs'.get q = fs.get q ∨
    ∃ c names, q = L ++ c :: names ∧ fs'.get q = none ∧
      removedEvent (descend path (c :: names)) ∈ t

section Erasing

variable {path : Bytes} {L : Location} {t t' : List sysE.Event} {fs fs' fs'' : FS}

theorem ErasedBelow.refl : ErasedBelow path L t fs fs := ⟨rfl, fun _ => Or.inl rfl⟩

theorem ErasedAt.refl : ErasedAt path L t fs fs := ⟨rfl, fun _ => Or.inl rfl⟩

/-- What is erased below is erased at the place or below. -/
theorem ErasedBelow.erased (h : ErasedBelow path L t fs fs') : ErasedAt path L t fs fs' := by
  refine ⟨h.cwd, fun q => ?_⟩
  rcases h.frame q with hq | ⟨c, names, hq, hnone, hev⟩
  · exact Or.inl hq
  · exact Or.inr ⟨c :: names, hq, hnone, hev⟩

/-- Erasing a child is erasing below. -/
theorem ErasedAt.below {c : Name} (h : ErasedAt (path ++ slash :: c) (L ++ [c]) t fs fs') :
    ErasedBelow path L t fs fs' := by
  refine ⟨h.cwd, fun q => ?_⟩
  rcases h.frame q with hq | ⟨names, hq, hnone, hev⟩
  · exact Or.inl hq
  · refine Or.inr ⟨c, names, ?_, hnone, hev⟩
    rw [hq, List.append_assoc]
    rfl

/-- Erasures below a place follow each other. -/
theorem ErasedBelow.trans (h : ErasedBelow path L t fs fs')
    (h' : ErasedBelow path L t' fs' fs'') : ErasedBelow path L (t ++ t') fs fs'' := by
  refine ⟨h'.cwd.trans h.cwd, fun q => ?_⟩
  rcases h'.frame q with hq' | ⟨c, names, hq, hnone, hev⟩
  · rcases h.frame q with hq | ⟨c, names, hq, hnone, hev⟩
    · exact Or.inl (hq'.trans hq)
    · exact Or.inr ⟨c, names, hq, hq'.trans hnone, List.mem_append_left _ hev⟩
  · exact Or.inr ⟨c, names, hq, hnone, List.mem_append_right _ hev⟩

/-- Erasures at a place follow each other. -/
theorem ErasedAt.trans (h : ErasedAt path L t fs fs') (h' : ErasedAt path L t' fs' fs'') :
    ErasedAt path L (t ++ t') fs fs'' := by
  refine ⟨h'.cwd.trans h.cwd, fun q => ?_⟩
  rcases h'.frame q with hq' | ⟨names, hq, hnone, hev⟩
  · rcases h.frame q with hq | ⟨names, hq, hnone, hev⟩
    · exact Or.inl (hq'.trans hq)
    · exact Or.inr ⟨names, hq, hq'.trans hnone, List.mem_append_left _ hev⟩
  · exact Or.inr ⟨names, hq, hnone, List.mem_append_right _ hev⟩

/-- More events do no harm. -/
theorem ErasedAt.mono (h : ErasedAt path L t fs fs') (ht : ∀ e ∈ t, e ∈ t') :
    ErasedAt path L t' fs fs' := by
  refine ⟨h.cwd, fun q => ?_⟩
  rcases h.frame q with hq | ⟨names, hq, hnone, hev⟩
  · exact Or.inl hq
  · exact Or.inr ⟨names, hq, hnone, ht _ hev⟩

/-- Nothing comes back. -/
theorem ErasedAt.none_of_none (h : ErasedAt path L t fs fs') {q : Location} (hq : fs.get q = none) :
    fs'.get q = none := by
  rcases h.frame q with heq | ⟨_, _, hnone, _⟩
  · rw [heq, hq]
  · exact hnone

/-- What is not at or below the location stays. -/
theorem ErasedAt.get_eq (h : ErasedAt path L t fs fs') {q : Location} (hq : ¬ L <+: q) :
    fs'.get q = fs.get q := by
  rcases h.frame q with heq | ⟨names, rfl, _, _⟩
  · exact heq
  · exact absurd (List.prefix_append L names) hq

end Erasing

/-- A `remove` that fails removes nothing. -/
theorem not_removed_of_error (path : Bytes) (e : Errno) (path' : Bytes) :
    removedEvent path' ∉ ([⟨SysOp.remove path, Except.error e⟩] : List sysE.Event) := by
  intro hmem
  cases List.mem_singleton.mp hmem

/-- `remove` as `remove_recursive` calls it. -/
theorem exec_removeFile {fs fs' : FS} (htree : fs.Tree) {path : Bytes} {errno : Option Errno}
    {t : List sysE.Event} {r : ℤ × Option Errno}
    (h : Exec SysStep (removeFile path errno) fs t r fs') :
    fs'.Tree ∧ ErasedAt path (lexical fs.cwd path) t fs fs' ∧
      ((r = (0, errno) ∧ fs'.get (lexical fs.cwd path) = none) ∨
        (r.1 = genErrAny ∧ fs' = fs ∧ (∀ path', removedEvent path' ∉ t) ∧
          ((∃ e, t = [e] ∧ Faulted e) ∨ ∃ e, fs.remove path = .error e))) := by
  rw [removeFile] at h
  obtain ⟨x, fs₁, t', hstep, hrest, rfl⟩ := exec_perform_bind_iff.mp h
  rcases hstep.remove with ⟨rfl, rfl⟩ | ⟨e, he, rfl, rfl⟩ | ⟨hok, rfl⟩
  · obtain ⟨rfl, rfl, rfl⟩ := exec_ret_iff.mp hrest
    exact ⟨htree, ErasedAt.refl, Or.inr ⟨rfl, rfl, not_removed_of_error _ _,
      Or.inl ⟨_, rfl, rfl⟩⟩⟩
  · obtain ⟨rfl, rfl, rfl⟩ := exec_ret_iff.mp hrest
    exact ⟨htree, ErasedAt.refl, Or.inr ⟨rfl, rfl, not_removed_of_error _ _,
      Or.inr ⟨e, he⟩⟩⟩
  · obtain ⟨rfl, rfl, rfl⟩ := exec_ret_iff.mp hrest
    obtain ⟨p, hp, rfl, hgone⟩ := FS.remove_ok hok
    obtain rfl := locate_eq_lexical hp
    have hself : (fs.del (lexical fs.cwd path)).get (lexical fs.cwd path) = none := by
      rw [FS.get_del, if_pos rfl]
    refine ⟨htree.del (htree.nothing_below hgone), ⟨rfl, fun q => ?_⟩,
      Or.inl ⟨rfl, hself⟩⟩
    by_cases hq : q = lexical fs.cwd path
    · refine Or.inr ⟨[], ?_, ?_, List.mem_cons_self⟩
      · rw [hq, List.append_nil]
      · rw [hq, hself]
    · left
      rw [FS.get_del, if_neg hq]
