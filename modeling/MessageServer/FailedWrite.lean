/-
# What a failed write leaves

`open` truncates or creates the file before the first byte is written.

* `FS.GivesSame`: what a `READ` of a key gives is the same;
* `ReadsAlike`: two contents that no `READ` of the key tells apart;
* `failedWrite_givesSame_iff`: a write that failed leaves what was there when its `open` was what
  failed, or when what it has written reads like the old contents;
* `not_failedWrite_givesSame`: a record that is cut off after a byte.
-/
import MessageServer.ReadBack

/-! ## What a write has written -/

section Writing

variable {fs fs' : FS} {fd : Location} {t : List sysE.Event}

/-- The loop of `write_bytes` appends what is written. -/
theorem exec_writeLoop_written (fuel : ℕ) (buffer old : Bytes) {r : ℤ} (hbuffer : buffer ≠ [])
    (hfuel : buffer.length ≤ fuel)
    (h : Exec SysStep (writeLoop fd fuel buffer old.length) (fs.put fd (.file old)) t r fs') :
    fs' = fs.put fd (.file (old ++ written t)) ∧ written t <+: buffer := by
  induction fuel generalizing buffer old t with
  | zero => exact absurd (List.length_eq_zero_iff.mp (Nat.le_zero.mp hfuel)) hbuffer
  | succ fuel ih =>
      rw [writeLoop] at h
      obtain ⟨x, fs₁, t', hstep, hrest, rfl⟩ := exec_perform_bind_iff.mp h
      -- a write fails, or appends a part of the buffer
      rcases hstep.write with ⟨rfl, rfl⟩ | ⟨n, hn, hpos, rfl, rfl⟩
      · obtain ⟨rfl, rfl, rfl⟩ := exec_ret_iff.mp hrest
        refine ⟨?_, List.nil_prefix⟩
        rw [written_cons, written_nil, List.append_nil]
        exact congrArg (fun c => fs.put fd (.file c)) (List.append_nil old).symm
      · have hnew : (fs.put fd (.file old)).writeAt fd old.length (buffer.take n) =
            fs.put fd (.file (old ++ buffer.take n)) := writeAt_end fs fd old _
        rw [hnew] at hrest
        dsimp only at hrest
        split at hrest
        · rename_i hmore
          have hdrop : buffer.drop n ≠ [] := by
            intro hnil
            rw [List.drop_eq_nil_iff] at hnil
            omega
          have hn0 := hpos hbuffer
          have hlen : old.length + n = (old ++ buffer.take n).length := by
            rw [List.length_append, List.length_take, Nat.min_eq_left hn]
          rw [hlen] at hrest
          obtain ⟨hfs', hpre⟩ := ih (buffer.drop n) (old ++ buffer.take n) hdrop
            (by rw [List.length_drop]; omega) hrest
          have hwritten :
              written (⟨SysOp.write fd old.length buffer, (Except.ok n : Except Errno ℕ)⟩ ::
              t') =
              buffer.take n ++ written t' := rfl
          rw [hwritten]
          refine ⟨by rw [hfs', List.append_assoc], ?_⟩
          have hall := (List.prefix_append_right_inj (buffer.take n)).mpr hpre
          rwa [List.take_append_drop] at hall
        · rename_i hdone
          obtain ⟨rfl, rfl, rfl⟩ := exec_ret_iff.mp hrest
          have hwritten :
              written [⟨SysOp.write fd old.length buffer, (Except.ok n : Except Errno ℕ)⟩] =
              buffer.take n := List.append_nil _
          rw [hwritten]
          exact ⟨rfl, List.take_prefix n buffer⟩

end Writing

/-! ## What a `READ` gives -/

/-- What a `READ` without faults gives. -/
def FS.readOf (fs : FS) (v : Entry) : ℤ × Entry :=
  match fs.openFile (entryPath v) .rdonly with
  | .error err => (if err = .enoent then dbmsErrNotExists else dbmsErrAny, v)
  | .ok (fd, _) =>
      match fs.get fd with
      | some (.file (b :: bs)) => (dbmsSuccess, v.overlay ((b :: bs).take sizeofEntry))
      | _ => (dbmsErrAny, v)

/-- Whatever a `READ` of the key of `e` gives, it gives afterwards. -/
def FS.GivesSame (fs fs' : FS) (e : Entry) : Prop :=
  ∀ v : Entry, v.key = e.key → ∀ depth t r fs₁ depth' t' r' fs₁',
    Exec SysStep (dbIoOpUsrEnt depth v .read) fs t r fs₁ → NoFault t →
    Exec SysStep (dbIoOpUsrEnt depth' v .read) fs' t' r' fs₁' → NoFault t' → r' = r

section Reading

variable {fs fs' : FS} {e v : Entry} {k : StoreKey} {depth : ℕ} {t : List sysE.Event}
  {r : ℤ × Entry}
  {p : Location} {c : Bytes}

/-- The file of a path, opened. -/
theorem FS.FileAt.openFile {path : Bytes} (h : fs.FileAt path p c) :
    fs.openFile path .rdonly = .ok (p, fs) := by
  rw [FS.openFile, h.1]
  simp only [h.2]

theorem FS.FileAt.readOf (h : fs.FileAt (entryPath v) p c) :
    fs.readOf v = if c = [] then (dbmsErrAny, v)
      else (dbmsSuccess, v.overlay (c.take sizeofEntry)) := by
  unfold FS.readOf
  simp only [h.openFile, h.2]
  cases c with
  | nil => rfl
  | cons b bs => rw [if_neg (List.cons_ne_nil b bs)]

/-- Every `READ` without faults gives it. -/
theorem exec_ioOp_readOf (hv : v.Typed) (h : Exec SysStep (dbIoOpUsrEnt depth v .read) fs t r fs')
    (ht : NoFault t) : r = fs.readOf v := by
  obtain ⟨-, houtcome⟩ := exec_ioOp_read hv h
  cases hopen : fs.openFile (entryPath v) .rdonly with
  | error err =>
      obtain ⟨-, hr⟩ := exec_ioOp_open_error hv (by decide) rfl hopen h ht
      rw [hr, FS.readOf, hopen]
  | ok x =>
      obtain ⟨fd, fs₀⟩ := x
      obtain ⟨hloc, hsome, rfl⟩ := openFile_rdonly_ok hopen
      by_cases hcontent : fs₀.content (entryPath v) = []
      · -- the code of a directory and of an empty file comes from `read_entry`
        rw [dbIoOpUsrEnt_eq hv (by decide)] at h
        obtain ⟨x, fs₁, t', hstep, hrest, rfl⟩ := exec_perform_bind_iff.mp h
        rcases hstep.openFile with ⟨rfl, rfl⟩ | ⟨err, hopen', rfl, rfl⟩ |
          ⟨fd', hopen', rfl⟩
        · exact absurd rfl (ht _ List.mem_cons_self)
        · rw [hopen] at hopen'
          cases hopen'
        · rw [hopen] at hopen'
          cases hopen'
          obtain ⟨t₁, r₁, fs₂, t₂, h₁, h₂, rfl⟩ := exec_bind_iff.mp hrest
          obtain ⟨rfl, rfl⟩ := exec_close_ret h₂
          rw [transferEntry, if_pos rfl] at h₁
          unfold FS.readOf
          simp only [hopen]
          cases hget : fs₀.get fd with
          | none => exact absurd hget hsome
          | some n =>
              cases n with
              | dir => exact (exec_readEntry_dir hget h₁).2
              | file c =>
                  have hc : c = [] := (FS.FileAt.content ⟨hloc, hget⟩).symm.trans hcontent
                  subst hc
                  obtain ⟨-, ⟨hne, -⟩ | ⟨-, hr⟩ | ⟨k, -, hfault⟩⟩ :=
                    exec_readEntry v hget h₁
                  · exact absurd rfl hne
                  · exact hr
                  · exact absurd ht.of_cons.of_append_left hfault.not_noFault
      · obtain ⟨q, hfile⟩ := FS.exists_fileAt hcontent
        have hok := houtcome.ofNoFault ht hcontent
        rw [hfile.readOf, if_neg hcontent]
        exact Prod.ext hok (houtcome.success hok).2

/-- Entries with one key have one path. -/
theorem entryPath_of_key (h : v.key = e.key) (he : e.key = some k) : entryPath v = entryPath e := by
  obtain ⟨u, data⟩ := e
  obtain ⟨u', data'⟩ := v
  cases data with
  | user ud =>
      cases data' with
      | user ud' => cases h; rfl
      | msg m' => cases h
      | other type mem => cases h
  | msg m =>
      cases data' with
      | user ud' => cases h
      | msg m' =>
          obtain ⟨rfl, hid⟩ := StoreKey.pending.inj (Option.some.inj h)
          show pendMsgPath u' m'.id = pendMsgPath u' m.id
          rw [hid]
      | other type mem => cases h
  | other type mem => cases he

/-- What is given is the same when what is read is. -/
theorem givesSame_iff (he : e.key = some k) :
    fs.GivesSame fs' e ↔ ∀ v : Entry, v.key = e.key → fs'.readOf v = fs.readOf v := by
  constructor
  · intro h v hv
    have htyped := typed_of_key (hv.trans he)
    obtain ⟨t, r, fs₁, hexec, ht⟩ := exec_noFault (dbIoOpUsrEnt 0 v .read) fs
    obtain ⟨t', r', fs₁', hexec', ht'⟩ := exec_noFault (dbIoOpUsrEnt 0 v .read) fs'
    rw [← exec_ioOp_readOf htyped hexec ht, ← exec_ioOp_readOf htyped hexec' ht']
    exact h v hv _ _ _ _ _ _ _ _ hexec ht hexec' ht'
  · intro h v hv depth t r fs₁ depth' t' r' fs₁' hexec ht hexec' ht'
    have htyped := typed_of_key (hv.trans he)
    rw [exec_ioOp_readOf htyped hexec ht, exec_ioOp_readOf htyped hexec' ht']
    exact h v hv

end Reading

/-! ## A write that failed -/

/-- The `open` of a write is what failed. -/
def OpenFails (e : Entry) (mode : Mode) (t : List sysE.Event) : Prop :=
  ∃ err : Errno, t = [⟨SysOp.openFile (entryPath e) mode.flags, .error err⟩]

/-- No `READ` of the key of `e` tells the contents `c` and `d` of its file apart. -/
def ReadsAlike (e : Entry) (c d : Bytes) : Prop :=
  (c = [] ↔ d = []) ∧ ∀ v : Entry, v.key = e.key →
    v.overlay (c.take sizeofEntry) = v.overlay (d.take sizeofEntry)

section Failing

variable {fs fs' : FS} {e v : Entry} {k : StoreKey} {mode : Mode} {depth : ℕ}
  {t : List sysE.Event}
  {r : ℤ × Entry} {p : Location} {c d : Bytes}

/-- A write that fails: its `open` does, or a file with the start of the entry is left. -/
theorem exec_ioOp_write_failed (he : e.Typed) (hmode : mode = .create ∨ mode = .modify)
    (h : Exec SysStep (dbIoOpUsrEnt depth e mode) fs t r fs') (hr : r.1 < 0) :
    (OpenFails e mode t ∧ fs' = fs) ∨ ∃ p, fs.locate (entryPath e) = .ok p ∧
      fs.Writable mode p ∧
      fs' = fs.put p (.file (written t)) ∧ written t <+: e.image ∧ ¬ OpenFails e mode t ∧
        r = (dbmsErrAny, e) := by
  rcases exec_ioOp_write_steps he hmode h with
    ⟨err, rfl, rfl, -⟩ | ⟨p, t₁, n, t₂, hloc, hfree, rfl, hwrite, hclosed, rfl⟩
  · exact Or.inl ⟨⟨err, rfl⟩, rfl⟩
  · rw [writeBytes, if_neg (image_ne_nil e)] at hwrite
    obtain ⟨rfl, hprefix⟩ := exec_writeLoop_written _ _ [] (image_ne_nil e) le_rfl hwrite
    have hnone : written t₂ = [] := by
      rw [written, List.flatMap_eq_nil_iff]
      rintro ⟨o, x⟩ hev
      obtain rfl : o = SysOp.close p := hclosed _ hev
      rfl
    have hall :
        written
        (⟨SysOp.openFile (entryPath e) mode.flags, (Except.ok p : Except Errno Location)⟩ ::
        (t₁ ++ t₂)) = written t₁ := by
      rw [written_cons, written_append, hnone, List.append_nil]
      rfl
    refine Or.inr ⟨p, hloc, hfree, ?_⟩
    rw [hall]
    refine ⟨rfl, hprefix, ?_, ?_⟩
    · rintro ⟨err, hopens⟩
      exact absurd (List.cons.inj hopens).1 (by rintro ⟨⟩)
    · by_cases hfailed : n = -1
      · rw [if_pos hfailed]
      · rw [if_neg hfailed] at hr
        exact absurd hr (show ¬ dbmsSuccess < 0 by decide)

/-- `ReadsAlike` compares what is given. -/
theorem readOf_eq_iff {q : Location} (hc : fs.FileAt (entryPath v) p c)
    (hd : fs'.FileAt (entryPath v) q d) :
    fs'.readOf v = fs.readOf v ↔ (c = [] ↔ d = []) ∧
      (c = [] ∨ v.overlay (c.take sizeofEntry) = v.overlay (d.take sizeofEntry)) := by
  have hcodes : dbmsErrAny ≠ dbmsSuccess := by decide
  rw [hc.readOf, hd.readOf]
  by_cases hcnil : c = [] <;> by_cases hdnil : d = []
  · simp [hcnil, hdnil]
  · simp [hcnil, hdnil, hcodes.symm]
  · simp [hcnil, hdnil, hcodes]
  · simp [hcnil, hdnil, eq_comm]

/-- `CREATE` writes only where no `READ` finds anything. -/
theorem readOf_absent (hloc : fs.locate (entryPath v) = .ok p) (hnone : fs.get p = none) :
    fs.readOf v = (dbmsErrNotExists, v) := by
  rw [FS.readOf, FS.openFile, hloc]
  simp only [hnone]
  rfl

/-- What is written to where `open` may write is what the path names. -/
theorem fileAt_put_writable {path : Bytes} (hloc : fs.locate path = .ok p)
    (hfree : fs.Writable mode p) :
    (fs.put p (.file d)).FileAt path p d := by
  refine ⟨(FS.locate_congr (FS.cwd_put _ _ _) (fun q => ?_) path p).mpr hloc,
    FS.get_put_self _ _ _⟩
  rw [FS.get_put]
  split
  · rename_i heq
    subst heq
    exact iff_of_false (by simp) (writable_ne_dir hfree)
  · exact Iff.rfl

/-- **A failed write leaves what a `READ` gives** exactly when its `open` was what failed, or the
old contents and the bytes written so far read alike. -/
theorem failedWrite_givesSame_iff (hkey : e.key = some k)
    (hmode : mode = .create ∨ mode = .modify)
    (h : Exec SysStep (dbIoOpUsrEnt depth e mode) fs t r fs') (hr : r.1 < 0) :
    fs.GivesSame fs' e ↔ OpenFails e mode t ∨
      ∃ p c, fs.FileAt (entryPath e) p c ∧ ReadsAlike e c (written t) := by
  have he := typed_of_key hkey
  rw [givesSame_iff hkey]
  rcases exec_ioOp_write_failed he hmode h hr with ⟨hopen, rfl⟩ |
    ⟨p, hloc, hfree, rfl, -, hopened, -⟩
  · exact iff_of_true (fun _ _ => rfl) (Or.inl hopen)
  · have hleft : ∀ v : Entry, v.key = e.key →
        (fs.put p (.file (written t))).FileAt (entryPath v) p (written t) := by
      intro v hv
      rw [entryPath_of_key hv hkey]
      exact fileAt_put_writable hloc hfree
    constructor
    · intro hsame
      refine Or.inr ?_
      rcases hmode with rfl | rfl
      · -- a `READ` now finds a file where there was none
        have habsent := readOf_absent (v := e) hloc hfree
        have hfound := hsame e rfl
        rw [habsent, (hleft e rfl).readOf] at hfound
        split at hfound
        · exact absurd (congrArg Prod.fst hfound) (show dbmsErrAny ≠ dbmsErrNotExists by decide)
        · exact absurd (congrArg Prod.fst hfound) (show dbmsSuccess ≠ dbmsErrNotExists by decide)
      · obtain ⟨c, hc⟩ := hfree
        refine ⟨p, c, ⟨hloc, hc⟩, ?_, fun v hv => ?_⟩
        · exact ((readOf_eq_iff ⟨hloc, hc⟩ (hleft e rfl)).mp (hsame e rfl)).1
        · have hfile : fs.FileAt (entryPath v) p c := by
            rw [entryPath_of_key hv hkey]
            exact ⟨hloc, hc⟩
          obtain ⟨hnil, hover⟩ := (readOf_eq_iff hfile (hleft v hv)).mp (hsame v hv)
          rcases hover with rfl | hover
          · rw [hnil.mp rfl]
          · exact hover
    · rintro (hopen | ⟨q, c, hfile, hnil, hover⟩) v hv
      · exact absurd hopen hopened
      · have hfile' : fs.FileAt (entryPath v) q c := by
          rw [entryPath_of_key hv hkey]
          exact hfile
        exact (readOf_eq_iff hfile' (hleft v hv)).mpr ⟨hnil, Or.inr (hover v hv)⟩

/-- The start of an entry over the entry itself. -/
theorem overlay_prefix (he : e.Fits) (hd : d <+: e.image) : e.overlay d = e := by
  rw [Entry.overlay]
  split
  · rfl
  · obtain ⟨rest, hrest⟩ := hd
    rw [← hrest, List.drop_left, hrest, ofImage_image he]

/-- A complete entry that was to be replaced by another one is gone once the file is open. -/
theorem failedWrite_givesSame_iff_of_image {e₀ : Entry} (hkey : e.key = some k) (he : e.Fits)
    (he₀ : e₀.Fits) (hne : e₀ ≠ e) (hfile : fs.FileAt (entryPath e) p e₀.image)
    (h : Exec SysStep (dbIoOpUsrEnt depth e .modify) fs t r fs') (hr : r.1 < 0) :
    fs.GivesSame fs' e ↔ OpenFails e .modify t := by
  rw [failedWrite_givesSame_iff hkey (Or.inr rfl) h hr]
  constructor
  · rintro (hopen | ⟨q, c, hfile', -, hover⟩)
    · exact hopen
    · -- the entry itself is a variable over which the two contents differ
      rcases exec_ioOp_write_failed (typed_of_key hkey) (Or.inr rfl) h hr with
        ⟨hopen, -⟩ | ⟨-, -, -, -, hprefix, -⟩
      · exact hopen
      · have hc : c = e₀.image := hfile'.content.symm.trans hfile.content
        have hsame := hover e rfl
        rw [hc, overlay_image he₀,
          overlay_prefix he ((List.take_prefix _ _).trans hprefix)] at hsame
        exact absurd hsame hne
  · exact Or.inl

end Failing

/-! ## A record that is cut off -/

theorem exec_cutRun : Exec SysStep (dbIoOpUsrEnt registeredA.depth recordA .modify) registeredA
    cutRun.1 cutRun.2.1 cutRun.2.2 := exec_sysRunAny _ _ _

theorem cutRun_failed : cutRun.2.1.1 < 0 := by decide +kernel

theorem failedWrite_givesSame_iff_cutRun : registeredA.GivesSame cutRun.2.2 recordA ↔
    OpenFails recordA .modify cutRun.1 ∨
      ∃ p c, registeredA.FileAt (entryPath recordA) p c ∧
        ReadsAlike recordA c (written cutRun.1) :=
  failedWrite_givesSame_iff (k := .userdata (ascii "a")) rfl (Or.inr rfl) exec_cutRun cutRun_failed

/-- **A failed `MODIFY` loses the record**: a `READ` gave it before, and gives success and the
variable with one byte laid over it afterwards. -/
theorem not_failedWrite_givesSame :
    ¬ ∀ (fs fs' : FS) (e : Entry) (k : StoreKey) (mode : Mode) (depth : ℕ)
      (t : List sysE.Event)
      (r : ℤ × Entry), e.key = some k → mode = .create ∨ mode = .modify →
      Exec SysStep (dbIoOpUsrEnt depth e mode) fs t r fs' → r.1 < 0 → fs.GivesSame fs' e := by
  intro h
  have hsame :=
    h _ _ _ (.userdata (ascii "a")) .modify _ _ _ rfl (Or.inr rfl) exec_cutRun cutRun_failed
  have hread := (givesSame_iff (k := .userdata (ascii "a")) rfl).mp hsame
    ⟨ascii "a", .user ⟨9, 9, 9, 9⟩⟩ rfl
  have hdiffer : cutRun.2.2.readOf ⟨ascii "a", .user ⟨9, 9, 9, 9⟩⟩ ≠
      registeredA.readOf ⟨ascii "a", .user ⟨9, 9, 9, 9⟩⟩ := by decide +kernel
  exact hdiffer hread
