/-
# The mailbox of a user

The pending table of a user with complete messages, each in the file that its id names, and
what the library calls of a drain make of it.  A message is stored under a name that leads
to the user's table; the name need not be the one that the drain started with.

* `FS.Mailbox`: the table and its messages;
* `FS.Recorded`: the userdata record beside it;
* `FS.Mailbox.del`: what is left of it after a deletion;
* `FS.Mailbox.getPendMsg`, `FS.Recorded.read`, `FS.Recorded.modify`: the calls without faults;
* `FS.Mailbox.getPendMsg_listed`, `FS.Mailbox.delete_or`: the calls when only the listing of
  the table is sure to work.
-/
import MessageServer.FoundMessage

/-- The messages `P` that wait in the table at `L`, each with the name that it is stored under;
the names in `N` lead to the table. -/
structure FS.Mailbox (fs : FS) (N : Set Bytes) (L : Location) (P : Finset (Bytes × Message)) :
    Prop where
  tree : fs.Tree
  names : ∀ w ∈ N, fs.locate (userTablePath w) = .ok L
  pendTable : fs.get (L ++ [pendMsgsTable]) = some .dir
  fits : ∀ x ∈ P, x.1 ∈ N ∧ (Entry.mk x.1 (.msg x.2)).Fits
  files : ∀ c n, fs.get (L ++ [pendMsgsTable] ++ [c]) = some n ↔
    ∃ x ∈ P, c = decimal x.2.id.toNat ∧ n = .file (Entry.image ⟨x.1, .msg x.2⟩)

/-- The userdata record of the table at `L`. -/
structure FS.Recorded (fs : FS) (N : Set Bytes) (L : Location) (u : Bytes) (ud : Userdata) :
    Prop where
  name : u ∈ N
  fits : FitsBuf maxStrSize u
  file : fs.get (L ++ [userdataEntry]) = some (.file (Entry.image ⟨u, .user ud⟩))

section Mailbox

variable {fs fs' : FS} {N : Set Bytes} {L : Location} {P : Finset (Bytes × Message)} {w u : Bytes}
  {x y : Bytes × Message} {m : Message} {ud : Userdata}

namespace FS.Mailbox

theorem table (h : fs.Mailbox N L P) : fs.get L = some .dir := h.tree.parent _ _ _ h.pendTable

theorem dirAt (h : fs.Mailbox N L P) (hw : w ∈ N) : fs.DirAt (userTablePath w) L :=
  ⟨h.names w hw, h.table⟩

theorem pendAt (h : fs.Mailbox N L P) (hw : w ∈ N) :
    fs.DirAt (pendTablePath w) (L ++ [pendMsgsTable]) :=
  ⟨locate_pendTablePath.mpr ⟨L, h.dirAt hw, rfl⟩, h.pendTable⟩

theorem file (h : fs.Mailbox N L P) (hx : x ∈ P) :
    fs.get (msgFile L x.2.id.toNat) = some (.file (Entry.image ⟨x.1, .msg x.2⟩)) := by
  rw [msgFile_eq]
  exact (h.files _ _).mpr ⟨x, hx, rfl, rfl⟩

/-- The message of an id is found under every name of the table. -/
theorem fileAt (h : fs.Mailbox N L P) (hx : x ∈ P) (hw : w ∈ N) (hid : m.id = x.2.id) :
    fs.FileAt (entryPath ⟨w, .msg m⟩) (msgFile L x.2.id.toNat)
      (Entry.image ⟨x.1, .msg x.2⟩) := by
  refine ⟨?_, h.file hx⟩
  show fs.locate (pendMsgPath w m.id) = _
  rw [hid]
  exact locate_pendMsgPath.mpr ⟨L, h.dirAt hw, h.pendTable, length_decimal_id _, rfl⟩

/-- An id names one message. -/
theorem eq_of_id (h : fs.Mailbox N L P) (hx : x ∈ P) (hy : y ∈ P) (hid : x.2.id = y.2.id) :
    x = y := by
  have hfile := h.file hx
  rw [hid, h.file hy] at hfile
  have himage := image_inj (h.fits y hy).2 (h.fits x hx).2 (Node.file.inj (Option.some.inj hfile))
  rw [Entry.mk.injEq, EntryData.msg.injEq] at himage
  exact (Prod.ext himage.1 himage.2).symm

/-- What is listed in the table. -/
theorem mem_children (h : fs.Mailbox N L P) {d : Dirent}
    (hd : d ∈ fs.children (L ++ [pendMsgsTable])) :
    ∃ x ∈ P, d.name = decimal x.2.id.toNat := by
  obtain ⟨n, hn, -⟩ := FS.mem_children.mp hd
  obtain ⟨x, hx, hname, -⟩ := (h.files _ _).mp hn
  exact ⟨x, hx, hname⟩

theorem exists_child (h : fs.Mailbox N L P) (hx : x ∈ P) :
    ∃ d ∈ fs.children (L ++ [pendMsgsTable]), d.name = decimal x.2.id.toNat := by
  have hfile := (h.files _ _).mpr ⟨x, hx, rfl, rfl⟩
  exact ⟨⟨decimal x.2.id.toNat, false⟩, FS.mem_children.mpr ⟨_, hfile, rfl⟩, rfl⟩

/-- A message is taken out. -/
theorem del (h : fs.Mailbox N L P) (hx : x ∈ P) :
    (fs.del (msgFile L x.2.id.toNat)).Mailbox N L (P.erase x) := by
  have hfile := h.file hx
  have hdir : ∀ p, fs.get p = some .dir →
      (fs.del (msgFile L x.2.id.toNat)).get p = some .dir := by
    intro p hp
    rw [FS.get_del, if_neg ?_]
    · exact hp
    · rintro rfl
      rw [hfile] at hp
      cases hp
  refine ⟨h.tree.del (h.tree.nothing_below (Or.inl ⟨_, hfile⟩)), fun w hw => ?_,
    hdir _ h.pendTable,
    fun y hy => h.fits y (Finset.mem_of_mem_erase hy), fun c n => ?_⟩
  · exact FS.locate_mono (FS.cwd_del _ _) hdir (h.names w hw)
  · rw [FS.get_del, msgFile_eq]
    constructor
    · intro hn
      split at hn
      · cases hn
      · rename_i hne
        obtain ⟨y, hy, rfl, rfl⟩ := (h.files _ _).mp hn
        refine ⟨y, Finset.mem_erase.mpr ⟨?_, hy⟩, rfl, rfl⟩
        rintro rfl
        exact hne rfl
    · rintro ⟨y, hy, rfl, rfl⟩
      obtain ⟨hne, hy⟩ := Finset.mem_erase.mp hy
      rw [if_neg ?_]
      · exact (h.files _ _).mpr ⟨y, hy, rfl, rfl⟩
      · intro heq
        have hname := List.append_cancel_left heq
        have hid : y.2.id.toNat = x.2.id.toNat := decimal_injective (List.singleton_inj.mp hname)
        exact hne (h.eq_of_id hy hx (UInt32.toNat_inj.mp hid))

end FS.Mailbox

namespace FS.Recorded

theorem fileAt (hrec : fs.Recorded N L u ud) (h : fs.Mailbox N L P) (hw : w ∈ N) (j : Userdata) :
    fs.FileAt (entryPath ⟨w, .user j⟩) (L ++ [userdataEntry]) (Entry.image ⟨u, .user ud⟩) :=
  ⟨locate_userdataPath.mpr ⟨L, h.dirAt hw, rfl⟩, hrec.file⟩

theorem del (hrec : fs.Recorded N L u ud) (n : ℕ) : (fs.del (msgFile L n)).Recorded N L u ud := by
  refine ⟨hrec.name, hrec.fits, ?_⟩
  rw [FS.get_del, if_neg (msgFile_ne_userdata L L n).symm]
  exact hrec.file

theorem put (hrec : fs.Recorded N L u ud) (ud' : Userdata) :
    (fs.put (L ++ [userdataEntry]) (.file (Entry.image ⟨u, .user ud'⟩))).Recorded N L u ud' :=
  ⟨hrec.name, hrec.fits, FS.get_put_self _ _ _⟩

end FS.Recorded

/-! ## A message that is read in part -/

/-- The name and the type at the start of an image. -/
theorem image_header (u : Bytes) (m : Message) :
    (Entry.mk u (.msg m)).image.take unionOffset = padTo maxStrSize u ++ [entTypePMsg, 0, 0, 0] :=
  List.take_left' (by simp [maxStrSize, unionOffset])

/-- The name and the type at the start of some memory. -/
theorem ofImage_of_take {name : Bytes} (hname : FitsBuf maxStrSize name)
    {type : UInt8} {mem : Bytes}
    (h : mem.take unionOffset = padTo maxStrSize name ++ [type, 0, 0, 0]) :
    Entry.ofImage mem = ⟨name, EntryData.ofImage type (mem.drop unionOffset)⟩ := by
  conv_lhs => rw [← List.take_append_drop unionOffset mem, h]
  exact ofImage_of_header name hname type _

/-- A message of which a part is read over another one of its id and name keeps both. -/
theorem overlay_take {u : Bytes} (hu : FitsBuf maxStrSize u) (m m' : Message) (hid : m.id = m'.id)
    (k : ℕ) : ∃ s, (Entry.mk u (.msg m)).overlay ((Entry.image ⟨u, .msg m'⟩).take k) =
      ⟨u, .msg s⟩ ∧ s.id = m'.id := by
  have hwhole := List.prefix_iff_eq_append.mp (List.take_prefix k (Entry.image ⟨u, .msg m'⟩))
  generalize (Entry.image ⟨u, .msg m'⟩).take k = got at hwhole
  unfold Entry.overlay
  split
  · exact ⟨m, rfl, hid⟩
  · -- the name, the type and the id are the same in both images
    generalize hmem : got ++ (Entry.image ⟨u, .msg m⟩).drop got.length = mem
    have hheader : mem.take unionOffset = (Entry.image ⟨u, .msg m'⟩).take unionOffset := by
      have hsame := (image_header u m).trans (image_header u m').symm
      rw [← List.drop_zero (l := mem), ← hwhole, ← hmem]
      exact window_overlay (a := 0) hsame
    have hwindow : (mem.drop 1028).take 4 = le 4 m'.id.toNat := by
      rw [← image_id u m', ← hwhole, ← hmem]
      exact window_overlay (by rw [image_id, image_id, hid])
    have hentry := ofImage_of_take hu (hheader.trans (image_header u m'))
    refine ⟨Message.ofImage (mem.drop unionOffset), hentry, ?_⟩
    have hdata : (Entry.ofImage mem).data = .msg (Message.ofImage (mem.drop unionOffset)) := by
      rw [hentry]
      rfl
    rw [id_of_data hdata, hwindow, unle_le 4 _ m'.id.toNat_lt]
    simp

/-! ## The calls -/

/-- Directories are listed. -/
def Listed (t : List sysE.Event) : Prop :=
  ∀ ev ∈ t, (∃ path, ev.1 = SysOp.opendir path) → ¬ Faulted ev

section Calls

variable {depth : ℕ} {t : List sysE.Event} {r : ℤ × Entry}

namespace FS.Mailbox

/-- A listed file has the id of a message. -/
theorem exists_found (h : fs.Mailbox N L P) (hw : w ∈ N) {p : Location} {d : Dirent} {id : ℤ}
    (hp : fs.DirAt (pendTablePath w) p) (hd : d ∈ fs.children p)
    (hid : strToNum d.name .uint = .ok id) :
    ∃ x ∈ P, id.toNat.toUInt32 = x.2.id := by
  obtain rfl : p = L ++ [pendMsgsTable] := Except.ok.inj (hp.1.symm.trans (h.pendAt hw).1)
  obtain ⟨x, hx, hname⟩ := h.mem_children hd
  rw [hname, strToNum_decimal] at hid
  obtain rfl := Except.ok.inj hid
  exact ⟨x, hx, by simp⟩

/-- **`db_get_pend_msg`** finds a message when there is one. -/
theorem getPendMsg (h : fs.Mailbox N L P) (hw : w ∈ N)
    (hexec : Exec SysStep (dbGetPendMsg depth ⟨w, .msg m⟩) fs t r fs') (ht : NoFault t) :
    fs' = fs ∧ ((P = ∅ ∧ r.1 ≠ dbmsSuccess) ∨ ∃ x ∈ P,
        r = (dbmsSuccess, ⟨x.1, .msg x.2⟩)) := by
  obtain ⟨rfl, houtcome⟩ := exec_getPendMsg h.tree hexec
  refine ⟨rfl, ?_⟩
  cases houtcome with
  | nothing code hcode hempty =>
      left
      constructor
      · apply Finset.eq_empty_of_forall_notMem
        intro x hx
        obtain ⟨d, hd, hname⟩ := h.exists_child hx
        rcases hempty ht _ (h.pendAt hw) d hd x.2.id.toNat with hnot | ⟨d', hd', err, herr⟩
        · rw [hname, strToNum_decimal] at hnot
          exact hnot rfl
        · obtain ⟨y, -, hname'⟩ := h.mem_children hd'
          rw [hname', strToNum_decimal] at herr
          cases herr
      · intro hok
        rw [show code = dbmsSuccess from hok] at hcode
        exact absurd hcode (by decide)
  | found p hp d hd id hid r₀ hr =>
      right
      obtain ⟨x, hx, hsame⟩ := h.exists_found hw hp hd hid
      rw [hsame] at hr
      have hcontent := (h.fileAt (m := { m with id := x.2.id }) hx hw rfl).content
      have hok := hr.ofNoFault ht (by rw [hcontent]; exact image_ne_nil _)
      have hover := (hr.success hok).2
      rw [hcontent, overlay_image (h.fits x hx).2] at hover
      exact ⟨x, hx, by rw [hover]⟩

/-! ### Calls when only the listing is sure -/

/-- A message that waits makes the call pick a file. -/
theorem exists_picked (h : fs.Mailbox N L P) (hw : w ∈ N) (hx : x ∈ P)
    (hexec : Exec SysStep (dbGetPendMsg depth ⟨w, .msg m⟩) fs t r fs') (ht : Listed t) :
    ∃ id, Picked t id := by
  rw [dbGetPendMsg, if_neg (show ¬ (Entry.mk w (.msg m)).data.type ≠
    entTypePMsg from not_not_intro rfl)]
    at hexec
  obtain ⟨t₁, r₁, fs₁, t₂, h₁, -, rfl⟩ := exec_bind_iff.mp hexec
  obtain ⟨-, ⟨p, l, hp, hl, hperm⟩ | ⟨-, hno⟩⟩ := exec_openDirectory_read h₁
  · obtain ⟨y, rfl, ⟨hneg, -⟩ | ⟨-, rfl⟩⟩ := exec_openDirectory_listing h₁
    · rw [hl] at hneg
      exact absurd hneg (show ¬ dbmsSuccess < 0 by decide)
    obtain rfl : p = L ++ [pendMsgsTable] := Except.ok.inj (hp.1.symm.trans (h.pendAt hw).1)
    cases hfirst : firstEntry l with
    | none =>
        obtain ⟨d, hd, -⟩ := h.exists_child hx
        rw [children_eq_nil h.tree hperm hfirst] at hd
        cases hd
    | some d =>
        have hd : d ∈ fs.children (L ++ [pendMsgsTable]) := by
          have hmem := hperm.mem_iff.mp (List.mem_of_find?_eq_some hfirst)
          have hskip := List.find?_some hfirst
          rw [decide_eq_true_eq] at hskip
          rw [List.mem_cons, List.mem_cons] at hmem
          rcases hmem with rfl | rfl | hmem
          · exact absurd rfl hskip.1
          · exact absurd rfl hskip.2
          · exact hmem
        obtain ⟨z, -, hname⟩ := h.mem_children hd
        refine ⟨_, _, _, d, (z.2.id.toNat : ℤ), rfl, ?_, ?_, rfl⟩
        · rw [hl]
          exact hfirst
        · rw [hname, strToNum_decimal]
  · -- the directory is there, and was listed
    obtain ⟨y, rfl, -⟩ := exec_openDirectory_listing h₁
    refine absurd (h.pendAt hw) (hno ?_ _)
    intro ev hev
    apply ht ev (List.mem_append_left _ hev)
    rw [List.mem_singleton.mp hev]
    exact ⟨_, rfl⟩

/-- The same when reading the file may fail: the variable holds some message of the id. -/
theorem getPendMsg_listed (h : fs.Mailbox {u} L P) (hu : FitsBuf maxStrSize u)
    (hexec : Exec SysStep (dbGetPendMsg depth ⟨u, .msg m⟩) fs t r fs') (ht : Listed t) :
    fs' = fs ∧ ((P = ∅ ∧ r.1 ≠ dbmsSuccess) ∨
      ∃ x ∈ P, ∃ s, r = (dbmsSuccess, ⟨u, .msg s⟩) ∧ s.id = x.2.id) := by
  obtain ⟨rfl, houtcome⟩ := exec_getPendMsg h.tree hexec
  refine ⟨rfl, ?_⟩
  cases houtcome with
  | nothing code hcode hempty =>
      refine Or.inl ⟨Finset.eq_empty_of_forall_notMem fun x hx => ?_, ?_⟩
      · obtain ⟨id, hid⟩ := h.exists_picked rfl hx hexec ht
        rcases exec_getPendMsg_picked h.tree hexec with ⟨-, hno, -⟩ | ⟨id', -, hok, -⟩
        · exact hno id hid
        · obtain rfl : code = dbmsSuccess := congrArg Prod.fst hok
          exact absurd hcode (by decide)
      · rintro rfl
        exact absurd hcode (by decide)
  | found p hp d hd id hid r₀ hr =>
      right
      obtain ⟨x, hx, hsame⟩ := h.exists_found rfl hp hd hid
      rw [hsame] at hr
      have hcontent := (h.fileAt (m := { m with id := x.2.id }) hx rfl rfl).content
      obtain ⟨k, hover⟩ := hr.overlay
      rw [hcontent] at hover
      obtain rfl : x.1 = u := (h.fits x hx).1
      obtain ⟨s, hs, hid⟩ := overlay_take hu { m with id := x.2.id } x.2 rfl k
      exact ⟨x, hx, s, by rw [hover, hs], hid⟩

/-- **`DELETE`** takes the message of the id, or fails at a fault and leaves everything. -/
theorem delete_or (h : fs.Mailbox N L P) (hx : x ∈ P) (hw : w ∈ N) (hid : m.id = x.2.id)
    (hexec : Exec SysStep (dbIoOpUsrEnt (depth + 1) ⟨w, .msg m⟩ .delete) fs t r fs') :
    (0 ≤ r.1 ∧ fs' = fs.del (msgFile L x.2.id.toNat)) ∨
      (r.1 < 0 ∧ fs' = fs ∧ ¬ NoFault t) := by
  rw [dbIoOpUsrEnt_delete (typed_msg w m)] at hexec
  obtain ⟨t₁, r₁, fs₁, t₂, h₁, h₂, rfl⟩ := exec_bind_iff.mp hexec
  obtain ⟨rfl, rfl, rfl⟩ := exec_ret_iff.mp h₂
  rw [List.append_nil]
  have hat := h.fileAt hx hw hid
  rcases exec_removeRecursive_file hat.1 hat.2 h₁ with ⟨hcode, rfl⟩ | ⟨hneg, rfl, hfault⟩
  · left
    refine ⟨?_, rfl⟩
    rw [if_neg (by rw [hcode]; decide)]
    show 0 ≤ dbmsSuccess
    decide
  · right
    refine ⟨?_, rfl, hfault⟩
    rw [if_pos hneg]
    exact hneg

end FS.Mailbox

/-- **`READ`** of the record. -/
theorem FS.Recorded.read (hrec : fs.Recorded N L u ud) (h : fs.Mailbox N L P) (hw : w ∈ N)
    {j : Userdata} (hexec : Exec SysStep (dbIoOpUsrEnt depth ⟨w, .user j⟩ .read) fs t r fs')
    (ht : NoFault t) : r = (dbmsSuccess, ⟨u, .user ud⟩) := by
  obtain ⟨rfl, hr⟩ := exec_ioOp_read (typed_user w j) hexec
  have hcontent := (hrec.fileAt h hw j).content
  have hok := hr.ofNoFault ht (by rw [hcontent]; exact image_ne_nil _)
  have hover := (hr.success hok).2
  rw [hcontent, overlay_image (fits_user hrec.fits ud)] at hover
  exact Prod.ext hok hover

/-- **`MODIFY`** of the record. -/
theorem FS.Recorded.modify (hrec : fs.Recorded N L u ud) (h : fs.Mailbox N L P) {ud' : Userdata}
    (hexec : Exec SysStep (dbIoOpUsrEnt depth ⟨u, .user ud'⟩ .modify) fs t r fs')
    (ht : NoFault t) :
    fs' = fs.put (L ++ [userdataEntry]) (.file (Entry.image ⟨u, .user ud'⟩)) := by
  have hat := hrec.fileAt h hrec.name ud'
  have houtcome := exec_ioOp_write (typed_user u ud') (Or.inr rfl) hexec
  cases houtcome with
  | refused code hcode hfree => exact absurd ⟨_, hat.2⟩ (hfree ht _ hat.1)
  | written p hloc hfree =>
      obtain rfl := Except.ok.inj (hloc.symm.trans hat.1)
      rfl
  | torn p k hloc hfree hfault => exact absurd ht hfault.not_noFault

end Calls

end Mailbox
