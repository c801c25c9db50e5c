/-
# Reading and writing entries (`db_io_op_usr_ent`)

What `db_io_op_usr_ent` does to the file system and to the caller's entry, whether
or not system calls fail:

* `exec_ioOp_read`: the entry is overlaid with bytes of the file; all of them when
  the call succeeds;
* `exec_ioOp_write`: the file holds the entry's image, or after an error the start
  of it, or nothing happened.
-/
import MessageServer.Transfer

/-! ## Files at paths -/

namespace FS

/-- A path names the file at a location. -/
def FileAt (fs : FS) (path : Bytes) (p : Location) (c : Bytes) : Prop :=
  fs.locate path = .ok p ∧ fs.get p = some (.file c)

/-- The bytes of the file that a path names; none if there is no such file. -/
def content (fs : FS) (path : Bytes) : Bytes :=
  match fs.locate path with
  | .error _ => []
  | .ok p =>
      match fs.get p with
      | some (.file c) => c
      | _ => []

theorem FileAt.content {fs : FS} {path : Bytes} {p : Location} {c : Bytes}
    (h : fs.FileAt path p c) : fs.content path = c := by
  rw [FS.content, h.1]
  simp only [h.2]

theorem exists_fileAt {fs : FS} {path : Bytes} (h : fs.content path ≠ []) :
    ∃ p, fs.FileAt path p (fs.content path) := by
  unfold FileAt
  unfold content at h ⊢
  split at h
  · exact absurd rfl h
  · rename_i p hp
    rw [hp]
    split at h
    · rename_i c hc
      exact ⟨p, rfl, hc⟩
    · exact absurd rfl h

/-- Rewriting a file leaves every resolution as it is. -/
theorem locate_put_file {fs : FS} {p : Location} {c c' : Bytes} (hp : fs.get p = some (.file c))
    {path : Bytes} {q : Location} :
    (fs.put p (.file c')).locate path = .ok q ↔ fs.locate path = .ok q := by
  refine locate_congr (cwd_put _ _ _) (fun r => ?_) path q
  rw [get_put]
  split
  · rename_i h
    rw [h, hp]
    simp
  · exact Iff.rfl

theorem FileAt.put {fs : FS} {path : Bytes} {p : Location} {c : Bytes} (h : fs.FileAt path p c)
    (c' : Bytes) : (fs.put p (.file c')).FileAt path p c' :=
  ⟨(locate_put_file h.2).mpr h.1, get_put_self _ _ _⟩

/-- Where `open_file` may write: over a file, or for `CREATE` where nothing is. -/
def Writable (fs : FS) (mode : Mode) (p : Location) : Prop :=
  match mode with
  | .create => fs.get p = none
  | _ => ∃ c, fs.get p = some (.file c)

end FS

theorem writable_ne_dir {fs : FS} {mode : Mode} {p : Location} (h : fs.Writable mode p) :
    fs.get p ≠ some .dir := by
  unfold FS.Writable at h
  split at h
  · rw [h]
    simp
  · obtain ⟨c, hc⟩ := h
    rw [hc]
    simp

/-! ## Overlaid entries -/

/-- A whole image replaces the caller's entry. -/
theorem overlay_image {e e' : Entry} (h : e'.Fits) :
    e.overlay (e'.image.take sizeofEntry) = e' := by
  have hlen : e'.image.length = sizeofEntry := length_image e'
  have hne : e'.image ≠ [] := by
    intro hnil
    rw [hnil] at hlen
    exact absurd hlen (by decide)
  rw [← hlen, List.take_length, Entry.overlay, if_neg hne,
    List.drop_eq_nil_of_le (by rw [length_image, hlen]), List.append_nil]
  exact ofImage_image h

/-! ## Reading -/

/-- The entry is a userdata entry or a message entry. -/
def Entry.Typed (e : Entry) : Prop := e.data.type = entTypeUd ∨ e.data.type = entTypePMsg

theorem typed_user (u : Bytes) (ud : Userdata) : (Entry.mk u (.user ud)).Typed := Or.inl rfl

theorem typed_msg (u : Bytes) (m : Message) : (Entry.mk u (.msg m)).Typed := Or.inr rfl

/-- What a `READ` of entry `e` can give. -/
structure ReadOutcome (fs : FS) (e : Entry) (t : List sysE.Event) (r : ℤ × Entry) : Prop where
  code : r.1 = dbmsSuccess ∨ r.1 < 0
  success : r.1 = dbmsSuccess → fs.content (entryPath e) ≠ [] ∧
    r.2 = e.overlay ((fs.content (entryPath e)).take sizeofEntry)
  overlay : ∃ k, r.2 = e.overlay ((fs.content (entryPath e)).take k)
  ofNoFault : NoFault t → fs.content (entryPath e) ≠ [] → r.1 = dbmsSuccess
  ofUntorn : Untorn t → r.1 < 0 → r.2 = e

/-- A failed `READ` that touched nothing. -/
theorem ReadOutcome.failed {fs : FS} {e : Entry} {t : List sysE.Event} {code : ℤ}
    (hcode : code < 0) (h : NoFault t → fs.content (entryPath e) = []) :
    ReadOutcome fs e t (code, e) where
  code := Or.inr hcode
  success := by
    rintro rfl
    exact absurd hcode (by decide)
  overlay := ⟨0, rfl⟩
  ofNoFault := fun ht hne => absurd (h ht) hne
  ofUntorn := fun _ _ => rfl

/-! ### `read_entry` -/

theorem exec_close_ret {α : Type} {fs fs' : FS} {fd : Location} {a b : α}
    {t : List sysE.Event}
    (h : Exec SysStep (sysClose fd >>= fun _ => (return a : Sys α)) fs t b fs') :
    b = a ∧ fs' = fs := by
  obtain ⟨x, fs₁, t', hstep, hrest, rfl⟩ := exec_perform_bind_iff.mp h
  obtain rfl := hstep.close
  obtain ⟨rfl, rfl, rfl⟩ := exec_ret_iff.mp hrest
  exact ⟨rfl, rfl⟩

/-- `read_entry` on a file. -/
theorem exec_readEntry {fs fs' : FS} {fd : Location} {c : Bytes} (e : Entry)
    (hfd : fs.get fd = some (.file c)) {t : List sysE.Event} {r : ℤ × Entry}
    (h : Exec SysStep (readEntry fd e) fs t r fs') :
    fs' = fs ∧
      ((c ≠ [] ∧ r = (dbmsSuccess, e.overlay (c.take sizeofEntry))) ∨
        (c = [] ∧ r = (dbmsErrAny, e)) ∨
        (∃ k, r = (dbmsErrAny, e.overlay (c.take k)) ∧
            FaultIn t (ReadAtOffset (c.take k).length))) := by
  rw [readEntry] at h
  obtain ⟨t₁, b, fs₁, t₂, h₁, h₂, rfl⟩ := exec_bind_iff.mp h
  obtain ⟨rfl, hb | ⟨hcode, hgot, hfault⟩⟩ := exec_readBytes hfd (by decide) h₁
  · have hneg : b.1 ≠ -1 := by
      rw [hb.1]
      omega
    rw [if_neg hneg] at h₂
    by_cases hc : c = []
    · subst hc
      rw [if_pos (by rw [hb.1]; rfl)] at h₂
      obtain ⟨rfl, rfl⟩ := exec_close_ret h₂
      refine ⟨rfl, Or.inr (Or.inl ⟨rfl, ?_⟩)⟩
      rw [hb.2]
      rfl
    · have hpos : b.1 ≠ 0 := by
        rw [hb.1, List.length_take]
        have := List.length_pos_iff.mpr hc
        simp only [sizeofEntry]
        omega
      rw [if_neg hpos] at h₂
      obtain ⟨rfl, rfl, rfl⟩ := exec_ret_iff.mp h₂
      refine ⟨rfl, Or.inl ⟨hc, ?_⟩⟩
      rw [hb.2]
  · rw [if_pos (show b.1 = -1 from hcode)] at h₂
    obtain ⟨rfl, rfl⟩ := exec_close_ret h₂
    refine ⟨rfl, Or.inr (Or.inr ⟨b.2.length, ?_, ?_⟩)⟩
    · rw [← hgot]
    · rw [← hgot]
      exact hfault.append_left

/-! ### Files that cannot be read -/

theorem open_error_neg (err : Errno) :
    (if err = .enoent then dbmsErrNotExists else dbmsErrAny) < 0 := by
  split <;> decide

theorem dbmsErrAny_neg : dbmsErrAny < 0 := by decide

/-- The two checks of `db_io_op_usr_ent` pass for typed entries in the modes the
server uses to open a file. -/
theorem dbIoOpUsrEnt_eq {e : Entry} (he : e.Typed) {mode : Mode}
    (hmode : mode ≠ .overwrite ∧ mode ≠ .delete) (depth : ℕ) :
    dbIoOpUsrEnt depth e mode = openFile (entryPath e) mode >>= fun x =>
      match x with
      | .error err => return (if err = .enoent then dbmsErrNotExists else dbmsErrAny, e)
      | .ok fd => transferEntry fd e mode >>= fun r => sysClose fd >>= fun _ => return r := by
  have htype : ¬ (e.data.type ≠ entTypeUd ∧ e.data.type ≠ entTypePMsg) := by
    rintro ⟨h₁, h₂⟩
    exact he.elim h₁ h₂
  unfold dbIoOpUsrEnt
  exact (if_neg htype).trans ((if_neg hmode.1).trans (if_neg hmode.2))

/-- An opened entry is at the located place; reading opens what is there. -/
theorem openFile_rdonly_ok {fs fs' : FS} {path : Bytes} {fd : Location}
    (h : fs.openFile path .rdonly = .ok (fd, fs')) :
    fs.locate path = .ok fd ∧ fs.get fd ≠ none ∧ fs' = fs := by
  unfold FS.openFile at h
  split at h
  · exact absurd h (by simp)
  · rename_i p hp
    cases hget : fs.get p with
    | none => simp [hget] at h
    | some n =>
        simp only [hget, Except.ok.injEq, Prod.mk.injEq] at h
        obtain ⟨rfl, rfl⟩ := h
        exact ⟨hp, by rw [hget]; simp, rfl⟩

/-- A path that cannot be opened for reading names no file. -/
theorem content_of_openFile_error {fs : FS} {path : Bytes} {err : Errno}
    (h : fs.openFile path .rdonly = .error err) : fs.content path = [] := by
  by_contra hne
  obtain ⟨p, hp⟩ := FS.exists_fileAt hne
  rw [FS.openFile, hp.1] at h
  simp only [hp.2, reduceCtorEq] at h

/-- `open` succeeds on a directory, but the first `read` fails. -/
theorem exec_readEntry_dir {fs fs' : FS} {fd : Location} {e : Entry}
    (hfd : fs.get fd = some .dir) {t : List sysE.Event} {r : ℤ × Entry}
    (h : Exec SysStep (readEntry fd e) fs t r fs') : fs' = fs ∧ r = (dbmsErrAny, e) := by
  rw [readEntry] at h
  obtain ⟨t₁, b, fs₁, t₂, h₁, h₂, rfl⟩ := exec_bind_iff.mp h
  rw [readBytes, if_neg (by decide), sizeofEntry, readLoop] at h₁
  obtain ⟨y, fs₃, t₃, hread, hrest, rfl⟩ := exec_perform_bind_iff.mp h₁
  obtain ⟨rfl, hy⟩ := hread.read
  have hb : b = (genErrAny, []) ∧ fs₁ = fs₃ := by
    rcases hy with rfl | ⟨k, _, _, rfl⟩
    · obtain ⟨-, rfl, rfl⟩ := exec_ret_iff.mp hrest
      exact ⟨rfl, rfl⟩
    · simp only [FS.readAt, hfd] at hrest
      obtain ⟨-, rfl, rfl⟩ := exec_ret_iff.mp hrest
      exact ⟨rfl, rfl⟩
  obtain ⟨rfl, rfl⟩ := hb
  rw [if_pos (show genErrAny = -1 from rfl)] at h₂
  obtain ⟨rfl, rfl⟩ := exec_close_ret h₂
  exact ⟨rfl, rfl⟩

/-! ### The read of an entry -/

/-- **`READ`** leaves the file system alone and overlays the entry. -/
theorem exec_ioOp_read {fs fs' : FS} {e : Entry} (he : e.Typed) {depth : ℕ}
    {t : List sysE.Event} {r : ℤ × Entry}
    (h : Exec SysStep (dbIoOpUsrEnt depth e .read) fs t r fs') :
    fs' = fs ∧ ReadOutcome fs e t r := by
  rw [dbIoOpUsrEnt_eq he (by decide)] at h
  obtain ⟨x, fs₁, t', hstep, hrest, rfl⟩ := exec_perform_bind_iff.mp h
  rcases hstep.openFile with ⟨rfl, rfl⟩ | ⟨err, hopen, rfl, rfl⟩ | ⟨fd, hopen, rfl⟩
  · obtain ⟨rfl, rfl, rfl⟩ := exec_ret_iff.mp hrest
    exact ⟨rfl, ReadOutcome.failed (open_error_neg _)
      fun ht => absurd rfl (ht _ List.mem_cons_self)⟩
  · obtain ⟨rfl, rfl, rfl⟩ := exec_ret_iff.mp hrest
    exact ⟨rfl, ReadOutcome.failed (open_error_neg _) fun _ => content_of_openFile_error hopen⟩
  · obtain ⟨hloc, hsome, rfl⟩ := openFile_rdonly_ok hopen
    obtain ⟨t₁, r₁, fs₂, t₂, h₁, h₂, rfl⟩ := exec_bind_iff.mp hrest
    obtain ⟨rfl, rfl⟩ := exec_close_ret h₂
    rw [transferEntry, if_pos rfl] at h₁
    cases hget : fs₁.get fd with
    | none => exact absurd hget hsome
    | some n =>
        cases n with
        | dir =>
            obtain ⟨rfl, rfl⟩ := exec_readEntry_dir hget h₁
            refine ⟨rfl, ReadOutcome.failed dbmsErrAny_neg fun _ => ?_⟩
            simp only [FS.content, hloc, hget]
        | file c =>
            have hcontent : fs₁.content (entryPath e) = c := FS.FileAt.content ⟨hloc, hget⟩
            obtain ⟨rfl, ⟨hc, rfl⟩ | ⟨hc, rfl⟩ | ⟨k, rfl, hfault⟩⟩ :=
              exec_readEntry e hget h₁
            · refine ⟨rfl, ⟨Or.inl rfl, fun _ => ?_, ⟨sizeofEntry, ?_⟩, fun _ _ => rfl,
                fun _ hr => absurd hr (by simp [dbmsSuccess])⟩⟩
              · rw [hcontent]
                exact ⟨hc, rfl⟩
              · rw [hcontent]
            · exact ⟨rfl, ReadOutcome.failed dbmsErrAny_neg fun _ => hcontent.trans hc⟩
            · refine ⟨rfl, ⟨Or.inr dbmsErrAny_neg,
                fun hr => absurd hr (by simp [dbmsErrAny, dbmsSuccess]), ⟨k, ?_⟩, ?_, ?_⟩⟩
              · rw [hcontent]
              · intro ht
                exact absurd ht.of_cons.of_append_left hfault.not_noFault
              · intro ht _
                have hzero := hfault.read_eq_zero
                  fun e' he' => ht e' (List.mem_cons_of_mem _ (List.mem_append_left _ he'))
                rw [List.length_eq_zero_iff] at hzero
                rw [hzero]
                rfl

/-! ## Writing -/

/-- What a `CREATE` or `MODIFY` of entry `e` can do. -/
inductive WriteOutcome (fs : FS) (e : Entry) (mode : Mode) (t : List sysE.Event) :
    ℤ × Entry → FS → Prop
  | refused (code : ℤ) (hcode : code < 0)
      (hfree : NoFault t → ∀ p, fs.locate (entryPath e) = .ok p → ¬ fs.Writable mode p) :
      WriteOutcome fs e mode t (code, e) fs
  | written (p : Location) (hloc : fs.locate (entryPath e) = .ok p) (hfree : fs.Writable mode p) :
      WriteOutcome fs e mode t (dbmsSuccess, e) (fs.put p (.file e.image))
  | torn (p : Location) (k : ℕ) (hloc : fs.locate (entryPath e) = .ok p)
      (hfree : fs.Writable mode p) (hfault : FaultIn t (WriteAtOffset k)) :
      WriteOutcome fs e mode t (dbmsErrAny, e) (fs.put p (.file (e.image.take k)))

/-- The flags of the two writing modes. -/
def Mode.flags (mode : Mode) : FS.OpenFlags :=
  match mode with
  | .create => .wronlyCreatExcl
  | _ => .wronlyTrunc

/-- Opening for writing leaves an empty file where writing is allowed. -/
theorem openFile_write_ok {fs fs' : FS} {path : Bytes} {mode : Mode}
    (hmode : mode = .create ∨ mode = .modify) {fd : Location}
    (h : fs.openFile path mode.flags = .ok (fd, fs')) :
    fs.locate path = .ok fd ∧ fs.Writable mode fd ∧ fs' = fs.put fd (.file []) := by
  unfold FS.openFile at h
  split at h
  · exact absurd h (by simp)
  · rename_i p hp
    rcases hmode with rfl | rfl
    · cases hget : fs.get p with
      | none =>
          simp only [Mode.flags, hget, Except.ok.injEq, Prod.mk.injEq] at h
          obtain ⟨rfl, rfl⟩ := h
          exact ⟨hp, hget, rfl⟩
      | some n => simp [Mode.flags, hget] at h
    · cases hget : fs.get p with
      | none => simp [Mode.flags, hget] at h
      | some n =>
          cases n with
          | dir => simp [Mode.flags, hget] at h
          | file c =>
              simp only [Mode.flags, hget, Except.ok.injEq, Prod.mk.injEq] at h
              obtain ⟨rfl, rfl⟩ := h
              exact ⟨hp, ⟨c, hget⟩, rfl⟩

/-- Where writing is allowed, opening for writing succeeds. -/
theorem openFile_write_error {fs : FS} {path : Bytes} {mode : Mode}
    (hmode : mode = .create ∨ mode = .modify) {err : Errno}
    (h : fs.openFile path mode.flags = .error err) {p : Location}
    (hp : fs.locate path = .ok p) : ¬ fs.Writable mode p := by
  intro hfree
  rw [FS.openFile, hp] at h
  rcases hmode with rfl | rfl
  · have hget : fs.get p = none := hfree
    simp [Mode.flags, hget] at h
  · obtain ⟨c, hget⟩ : ∃ c, fs.get p = some (.file c) := hfree
    simp [Mode.flags, hget] at h

theorem image_ne_nil (e : Entry) : e.image ≠ [] := by
  intro hnil
  have hlen := length_image e
  rw [hnil] at hlen
  exact absurd hlen (by decide)

/-- Writing an entry ends with its `open`, or goes on to write its image and to close the file. -/
theorem exec_ioOp_write_steps {fs fs' : FS} {e : Entry} (he : e.Typed) {mode : Mode}
    (hmode : mode = .create ∨ mode = .modify) {depth : ℕ} {t : List sysE.Event}
    {r : ℤ × Entry}
    (h : Exec SysStep (dbIoOpUsrEnt depth e mode) fs t r fs') :
    (∃ err : Errno, t = [⟨SysOp.openFile (entryPath e) mode.flags, .error err⟩] ∧
        fs' = fs ∧
        r.1 < 0 ∧ r.2 = e ∧ (NoFault t → ∀ p, fs.locate (entryPath e) = .ok p →
            ¬ fs.Writable mode p)) ∨
      ∃ p t₁ n t₂, fs.locate (entryPath e) = .ok p ∧ fs.Writable mode p ∧
        t = ⟨SysOp.openFile (entryPath e) mode.flags, (Except.ok p : Except Errno Location)⟩ ::
          (t₁ ++ t₂) ∧
        Exec SysStep (writeBytes p e.image) (fs.put p (.file [])) t₁ n fs' ∧
        (∀ ev ∈ t₂, ev.1 = SysOp.close p) ∧
          r = (if n = -1 then dbmsErrAny else dbmsSuccess, e) := by
  have hread : mode ≠ .read := by
    rcases hmode with rfl | rfl <;> decide
  have hflags : openFile (entryPath e) mode = sysOpen (entryPath e) mode.flags := by
    rcases hmode with rfl | rfl <;> rfl
  rw [dbIoOpUsrEnt_eq he (by rcases hmode with rfl | rfl <;> decide), hflags] at h
  obtain ⟨x, fs₁, t', hstep, hrest, rfl⟩ := exec_perform_bind_iff.mp h
  rcases hstep.openFile with ⟨rfl, rfl⟩ | ⟨err, hopen, rfl, rfl⟩ | ⟨fd, hopen, rfl⟩
  · obtain ⟨rfl, rfl, rfl⟩ := exec_ret_iff.mp hrest
    exact Or.inl ⟨.eio, rfl, rfl, open_error_neg .eio, rfl,
      fun ht => absurd rfl (ht _ List.mem_cons_self)⟩
  · obtain ⟨rfl, rfl, rfl⟩ := exec_ret_iff.mp hrest
    exact Or.inl ⟨err, rfl, rfl, open_error_neg err, rfl,
      fun _ p hp => openFile_write_error hmode hopen hp⟩
  · -- the file is open, and empty now
    obtain ⟨hloc, hfree, rfl⟩ := openFile_write_ok hmode hopen
    dsimp only at hrest
    rw [transferEntry, if_neg hread, writeEntry] at hrest
    simp only [bind_assoc] at hrest
    obtain ⟨t₁, n, fs₂, t₂, hwrite, hend, rfl⟩ := exec_bind_iff.mp hrest
    refine Or.inr ⟨fd, t₁, n, t₂, hloc, hfree, rfl, ?_⟩
    have hclosed : ∀ (c : ℤ) {t : List sysE.Event} {fs₀ : FS},
        Exec SysStep (sysClose fd >>= fun _ => (return (c, e) : Sys (ℤ × Entry)))
          fs₀ t r fs' →
        r = (c, e) ∧ fs' = fs₀ ∧ ∀ ev ∈ t, ev.1 = SysOp.close fd := by
      intro c t fs₀ hclose
      obtain ⟨hr, hfs⟩ := exec_close_ret hclose
      exact ⟨hr, hfs, hclose.performs (P := fun o => o = SysOp.close fd)
        (Prog.performs_perform_bind.mpr ⟨rfl, fun _ => trivial⟩)⟩
    split at hend
    · -- the file is closed on this way too
      rename_i hfailed
      rw [bind_assoc] at hend
      obtain ⟨x, fs₃, t₃, hclose, hend', rfl⟩ := exec_perform_bind_iff.mp hend
      obtain rfl := hclose.close
      obtain ⟨hr, rfl, hall⟩ := hclosed dbmsErrAny hend'
      rw [if_pos hfailed]
      refine ⟨hwrite, fun ev hev => ?_, hr⟩
      rcases List.mem_cons.mp hev with rfl | hev
      · rfl
      · exact hall ev hev
    · rename_i hok
      obtain ⟨hr, rfl, hall⟩ := hclosed dbmsSuccess hend
      rw [if_neg hok]
      exact ⟨hwrite, hall, hr⟩

/-- Writing an entry ends with its `open`, or leaves a file where writing is allowed. -/
theorem exec_ioOp_write_opened {fs fs' : FS} {e : Entry} (he : e.Typed) {mode : Mode}
    (hmode : mode = .create ∨ mode = .modify) {depth : ℕ} {t : List sysE.Event}
    {r : ℤ × Entry}
    (h : Exec SysStep (dbIoOpUsrEnt depth e mode) fs t r fs') :
    (∃ err : Errno, t = [⟨SysOp.openFile (entryPath e) mode.flags, .error err⟩] ∧
        fs' = fs ∧
        r.1 < 0 ∧ r.2 = e ∧ (NoFault t → ∀ p, fs.locate (entryPath e) = .ok p →
            ¬ fs.Writable mode p)) ∨
      ∃ p, fs.locate (entryPath e) = .ok p ∧ fs.Writable mode p ∧
        ((r = (dbmsSuccess, e) ∧ fs' = fs.put p (.file e.image)) ∨
          (r = (dbmsErrAny, e) ∧ ∃ k, fs' = fs.put p (.file (e.image.take k)) ∧
            FaultIn t (WriteAtOffset k))) := by
  rcases exec_ioOp_write_steps he hmode h with hopen |
    ⟨p, t₁, n, t₂, hloc, hfree, rfl, hwrite, -, rfl⟩
  · exact Or.inl hopen
  · refine Or.inr ⟨p, hloc, hfree, ?_⟩
    rcases exec_writeBytes (image_ne_nil e) hwrite with ⟨rfl, rfl⟩ |
      ⟨rfl, k, hk, rfl, hfault⟩
    · rw [if_neg (by omega)]
      exact Or.inl ⟨rfl, rfl⟩
    · rw [if_pos (show genErrAny = -1 from rfl)]
      exact Or.inr ⟨rfl, k, rfl, hfault.append_left.cons⟩

/-- **`CREATE` and `MODIFY`** write the image of the entry, or the start of it. -/
theorem exec_ioOp_write {fs fs' : FS} {e : Entry} (he : e.Typed) {mode : Mode}
    (hmode : mode = .create ∨ mode = .modify) {depth : ℕ} {t : List sysE.Event}
    {r : ℤ × Entry}
    (h : Exec SysStep (dbIoOpUsrEnt depth e mode) fs t r fs') :
    WriteOutcome fs e mode t r fs' := by
  obtain ⟨code, e'⟩ := r
  rcases exec_ioOp_write_opened he hmode h with
    ⟨err, -, rfl, hcode, rfl, hno⟩ | ⟨p, hloc, hfree,
      ⟨hr, rfl⟩ | ⟨hr, k, rfl, hfault⟩⟩
  · exact WriteOutcome.refused code hcode hno
  · rw [hr]
    exact WriteOutcome.written p hloc hfree
  · rw [hr]
    exact WriteOutcome.torn p k hloc hfree hfault
