/-
# What `db_get_pend_msg` gives

`db_get_pend_msg` reports success for the first file of the listing, and does not look at the
result of the read.

* `FS.Stored`: a message is stored under its id;
* `FS.Returned`: what is reported is what is there;
* `Picked`: the id of the file that is read;
* `getPendMsg_returned_iff`: the report is right whatever the variable held before exactly when
  the bytes that were read are a message that is stored.
-/
import MessageServer.ReadBack

/-! ## Stored messages -/

/-- The pending table of `u` holds the message, whole and under its id. -/
def FS.Stored (fs : FS) (u : Bytes) (m : Message) : Prop :=
  ∃ P c, fs.DirAt (pendTablePath u) P ∧ fs.get (P ++ [decimal m.id.toNat]) = some (.file c) ∧
    sizeofEntry ≤ c.length ∧ (Entry.ofImage (c.take sizeofEntry)).data = .msg m

/-- A message that is reported is stored; a table that is reported to have none is empty. -/
def FS.Returned (fs : FS) (u : Bytes) (r : ℤ × Entry) : Prop :=
  (r.1 = dbmsSuccess → ∃ m, r.2.data = .msg m ∧ fs.Stored u m) ∧
    (r.1 = dbmsErrNotExists → ∀ P, fs.DirAt (pendTablePath u) P → fs.children P = [])

/-- One message is stored under an id. -/
theorem FS.Stored.unique {fs : FS} {u : Bytes} {m m' : Message} (h : fs.Stored u m)
    (h' : fs.Stored u m') (hid : m.id = m'.id) : m = m' := by
  obtain ⟨P, c, hP, hget, -, hdata⟩ := h
  obtain ⟨P', c', hP', hget', -, hdata'⟩ := h'
  rw [hP.unique hP', hid, hget'] at hget
  cases hget
  rw [hdata'] at hdata
  exact (EntryData.msg.inj hdata).symm

/-! ## The id of an overlaid message -/

section Overlay

variable {got : Bytes} {u : Bytes} {id : UInt32} {m m' s s' : Message}

/-- The bytes of the id in an image. -/
theorem image_id (u : Bytes) (m : Message) :
    ((Entry.mk u (.msg m)).image.drop 1028).take 4 = le 4 m.id.toNat := by
  have hfront : (padTo maxStrSize u ++ [entTypePMsg, 0, 0, 0] ++ padTo maxStrSize m.sender).length =
      1028 := by
    simp [maxStrSize]
  have himage : (Entry.mk u (.msg m)).image = padTo maxStrSize u ++ [entTypePMsg, 0, 0, 0] ++
      padTo maxStrSize m.sender ++ (le 4 m.id.toNat ++ padTo maxMsgSize m.content) := by
    show _ ++ (padTo maxStrSize m.sender ++ _ ++ _) = _
    rw [List.append_assoc, List.append_assoc, List.append_assoc, List.append_assoc]
    rfl
  rw [himage, List.drop_left' hfront, List.take_left' (length_le 4 _)]

/-- Bytes laid over two images that agree on a window give what agrees on the window. -/
theorem window_overlay {I J : Bytes} {a n : ℕ} (h : (I.drop a).take n = (J.drop a).take n) :
    ((got ++ I.drop got.length).drop a).take n = ((got ++ J.drop got.length).drop a).take n := by
  apply List.ext_getElem?
  intro i
  have hi := congrArg (fun l => l[i]?) h
  simp only [List.getElem?_take, List.getElem?_drop] at hi ⊢
  split
  · rename_i hlt
    rw [if_pos hlt, if_pos hlt] at hi
    rw [List.getElem?_append, List.getElem?_append]
    split
    · rfl
    · rename_i hge
      rw [List.getElem?_drop, List.getElem?_drop, Nat.add_sub_cancel' (Nat.le_of_not_lt hge)]
      exact hi
  · rfl

/-- The id of a message that is read off an image. -/
theorem id_of_data {mem : Bytes} (h : (Entry.ofImage mem).data = .msg m) :
    m.id = (unle ((mem.drop 1028).take 4)).toUInt32 := by
  have hdata : EntryData.ofImage (mem.getD 512 0) (mem.drop unionOffset) = .msg m := h
  unfold EntryData.ofImage at hdata
  split at hdata
  · cases hdata
  · split at hdata
    · obtain rfl := EntryData.msg.inj hdata
      show (unle (((mem.drop unionOffset).drop 512).take 4)).toUInt32 = _
      rw [List.drop_drop]
      rfl
    · cases hdata

/-- The id that comes out does not depend on the rest of the variable. -/
theorem id_overlay (h : (Entry.overlay got ⟨u, .msg { m with id := id }⟩).data = .msg s)
    (h' : (Entry.overlay got ⟨u, .msg { m' with id := id }⟩).data = .msg s') :
    s.id = s'.id := by
  unfold Entry.overlay at h h'
  split at h
  · rename_i hnil
    rw [if_pos hnil] at h'
    obtain rfl := EntryData.msg.inj h
    obtain rfl := EntryData.msg.inj h'
    rfl
  · rename_i hne
    rw [if_neg hne] at h'
    rw [id_of_data h, id_of_data h']
    have hwindow := (image_id u { m with id := id }).trans (image_id u { m' with id := id }).symm
    rw [window_overlay hwindow]

end Overlay

/-! ## The same run over another variable -/

/-- The part of a `READ` that does not look at the variable: the code, and the bytes read. -/
def readContents (path : Bytes) : Sys (ℤ × Bytes) := do
  match ← sysOpen path .rdonly with
  | .error err => return (if err = .enoent then dbmsErrNotExists else dbmsErrAny, [])
  | .ok fd => do
      let r ← readBytes fd sizeofEntry
      if r.1 = -1 ∨ r.1 = 0 then do
        let _ ← sysClose fd
        let _ ← sysClose fd
        return (dbmsErrAny, r.2)
      else do
        let _ ← sysClose fd
        return (dbmsSuccess, r.2)

section Variable

variable {fs fs' : FS} {e e' : Entry} {t : List sysE.Event} {r : ℤ × Entry} {depth : ℕ}

/-- The variable is only written to. -/
theorem ioOp_read_eq (he : e.Typed) (depth : ℕ) : dbIoOpUsrEnt depth e .read =
    readContents (entryPath e) >>= fun r => return (r.1, e.overlay r.2) := by
  rw [dbIoOpUsrEnt_eq he (by decide), readContents, bind_assoc]
  apply congrArg
  funext x
  cases x with
  | error err => rfl
  | ok fd =>
      dsimp only
      rw [transferEntry, if_pos rfl, readEntry, bind_assoc, bind_assoc]
      apply congrArg
      funext r
      by_cases hfail : r.1 = -1
      · rw [if_pos hfail, if_pos (Or.inl hfail), bind_assoc, bind_assoc]
        rfl
      · rw [if_neg hfail]
        by_cases hzero : r.1 = 0
        · rw [if_pos hzero, if_pos (Or.inr hzero), bind_assoc, bind_assoc]
          rfl
        · rw [if_neg hzero, if_neg (not_or.mpr ⟨hfail, hzero⟩)]
          rfl

/-- What a `READ` does is done over any other variable with its path. -/
theorem exec_ioOp_read_any (he : e.Typed) (he' : e'.Typed) (hpath : entryPath e' = entryPath e)
    (h : Exec SysStep (dbIoOpUsrEnt depth e .read) fs t r fs') :
    Exec SysStep (dbIoOpUsrEnt depth e' .read) fs t (r.1, e'.overlay (delivered t)) fs' := by
  rw [ioOp_read_eq he] at h
  obtain ⟨t₁, x, fs₁, t₂, hread, hrest, rfl⟩ := exec_bind_iff.mp h
  obtain ⟨rfl, rfl, rfl⟩ := exec_ret_iff.mp hrest
  have hother : Exec SysStep (dbIoOpUsrEnt depth e' .read) fs (t₁ ++ [])
      (x.1, e'.overlay x.2) fs' := by
    rw [ioOp_read_eq he', hpath]
    exact exec_bind_iff.mpr ⟨_, _, _, _, hread, exec_ret_iff.mpr ⟨rfl, rfl, rfl⟩, rfl⟩
  have hgot := (exec_ioOp_read_delivered he' hother).1
  dsimp only at hgot
  rwa [hgot] at hother

end Variable

/-! ## The file that is picked -/

/-- The listing of `t` starts with a file whose name is read as `id`. -/
def Picked (t : List sysE.Event) (id : UInt32) : Prop :=
  ∃ path l d n,
    t.head? = some ⟨SysOp.opendir path, (Except.ok l : Except Errno (List Dirent))⟩ ∧
    firstEntry l = some d ∧ strToNum d.name .uint = .ok n ∧ n.toNat.toUInt32 = id

theorem Picked.unique {t : List sysE.Event} {id id' : UInt32} (h : Picked t id)
    (h' : Picked t id') :
    id = id' := by
  obtain ⟨path, l, d, n, hhead, hfirst, hnum, rfl⟩ := h
  obtain ⟨path', l', d', n', hhead', hfirst', hnum', rfl⟩ := h'
  rw [hhead] at hhead'
  cases hhead'
  rw [hfirst] at hfirst'
  cases hfirst'
  rw [hnum] at hnum'
  cases hnum'
  rfl

section Getting

variable {fs fs' : FS} {u : Bytes} {m : Message} {depth : ℕ} {t : List sysE.Event}
  {r : ℤ × Entry}

/-- What `open_directory` asks, and what it makes of the answer. -/
theorem exec_openDirectory_listing {path : Bytes} {r : ℤ × List Dirent}
    (h : Exec SysStep (openDirectory path .read) fs t r fs') :
    ∃ x : Except Errno (List Dirent), t = [⟨SysOp.opendir path, x⟩] ∧
      ((r.1 < 0 ∧ ∃ err, x = .error err) ∨ (r.1 = dbmsSuccess ∧ x = .ok r.2)) := by
  rw [openDirectory, if_neg (by decide)] at h
  obtain ⟨x, fs₁, t', hstep, hrest, rfl⟩ := exec_perform_bind_iff.mp h
  refine ⟨x, ?_⟩
  cases x with
  | error err =>
      dsimp only at hrest
      split at hrest
      · obtain ⟨rfl, rfl, rfl⟩ := exec_ret_iff.mp hrest
        exact ⟨rfl, Or.inl ⟨by decide, err, rfl⟩⟩
      · obtain ⟨rfl, rfl, rfl⟩ := exec_ret_iff.mp hrest
        exact ⟨rfl, Or.inl ⟨by decide, err, rfl⟩⟩
  | ok l =>
      obtain ⟨rfl, rfl, rfl⟩ := exec_ret_iff.mp hrest
      exact ⟨rfl, Or.inr ⟨rfl, rfl⟩⟩

theorem any_ne_notExists : dbmsErrAny ≠ dbmsErrNotExists := by decide

/-- A directory whose listing has no file is empty. -/
theorem children_eq_nil (htree : fs.Tree) {P : Location} {l : List Dirent}
    (hperm : l.Perm (⟨dot, true⟩ :: ⟨dotdot, true⟩ :: fs.children P))
    (h : firstEntry l = none) :
    fs.children P = [] := by
  rw [List.eq_nil_iff_forall_not_mem]
  intro d hd
  obtain ⟨n, hn, -⟩ := FS.mem_children.mp hd
  have hplain := (htree.plain P d.name n hn).1
  have hmem : d ∈ l := hperm.mem_iff.mpr (List.mem_cons_of_mem _ (List.mem_cons_of_mem _ hd))
  have hskip := List.find?_eq_none.mp h d hmem
  rw [decide_eq_true_eq] at hskip
  exact hskip ⟨hplain.notDot, hplain.notDotdot⟩

/-- **`db_get_pend_msg`** gives up and leaves the variable, or picks a file and puts what it reads
of it over the variable, whatever that held. -/
theorem exec_getPendMsg_picked (htree : fs.Tree)
    (h : Exec SysStep (dbGetPendMsg depth ⟨u, .msg m⟩) fs t r fs') :
    (r.1 < 0 ∧ (∀ id, ¬ Picked t id) ∧
      (r.1 = dbmsErrNotExists → ∃ P, fs.DirAt (pendTablePath u) P ∧ fs.children P = [])) ∨
    ∃ id, Picked t id ∧
      r = (dbmsSuccess, Entry.overlay (delivered t) ⟨u, .msg { m with id := id }⟩) ∧
      ∀ m', Exec SysStep (dbGetPendMsg depth ⟨u, .msg m'⟩) fs t
        (dbmsSuccess, Entry.overlay (delivered t) ⟨u, .msg { m' with id := id }⟩) fs' := by
  have htype : ∀ m' : Message, ¬ (Entry.mk u (.msg m')).data.type ≠ entTypePMsg :=
    fun m' => not_not_intro rfl
  rw [dbGetPendMsg, if_neg (htype m)] at h
  obtain ⟨t₁, r₁, fs₁, t₂, h₁, h₂, rfl⟩ := exec_bind_iff.mp h
  obtain ⟨x, rfl, ⟨hneg, err, rfl⟩ | ⟨hok, rfl⟩⟩ := exec_openDirectory_listing h₁
  · rw [if_pos hneg] at h₂
    obtain ⟨rfl, rfl, rfl⟩ := exec_ret_iff.mp h₂
    refine Or.inl ⟨dbmsErrAny_neg, ?_, fun hcode => absurd hcode any_ne_notExists⟩
    rintro id ⟨path, l, d, n, hhead, -⟩
    cases hhead
  · rw [if_neg (by rw [hok]; decide)] at h₂
    cases hfirst : firstEntry r₁.2 with
    | none =>
        simp only [hfirst] at h₂
        obtain ⟨rfl, rfl⟩ := exec_closedir_ret h₂
        refine Or.inl ⟨show dbmsErrNotExists < 0 by decide, ?_, fun _ => ?_⟩
        · rintro id ⟨path, l, d, n, hhead, hsome, -⟩
          cases hhead
          rw [hfirst] at hsome
          cases hsome
        · obtain ⟨-, ⟨P, l, hP, hl, hperm⟩ | ⟨hneg, -⟩⟩ := exec_openDirectory_read h₁
          · rw [hl] at hfirst
            exact ⟨P, hP, children_eq_nil htree hperm hfirst⟩
          · rw [hok] at hneg
            exact absurd hneg (by decide)
    | some d =>
        cases hnum : strToNum d.name .uint with
        | error err =>
            simp only [hfirst, hnum] at h₂
            obtain ⟨rfl, rfl, rfl⟩ := exec_ret_iff.mp h₂
            refine Or.inl ⟨dbmsErrAny_neg, ?_, fun hcode => absurd hcode any_ne_notExists⟩
            rintro id ⟨path, l, d', n, hhead, hsome, hn, -⟩
            cases hhead
            rw [hfirst] at hsome
            cases hsome
            rw [hnum] at hn
            cases hn
        | ok n =>
            simp only [hfirst, hnum] at h₂
            obtain ⟨t₃, r₃, fs₃, t₄, h₃, h₄, rfl⟩ := exec_bind_iff.mp h₂
            obtain ⟨x, fs₄, t₅, hstep, hrest, rfl⟩ := exec_perform_bind_iff.mp h₄
            obtain ⟨rfl, rfl, rfl⟩ := exec_ret_iff.mp hrest
            have hgot :
                delivered
                (⟨SysOp.opendir (pendTablePath u),
                (Except.ok r₁.2 : Except Errno (List Dirent))⟩ ::
                (t₃ ++ [⟨SysOp.closedir, x⟩])) = delivered t₃ := by
              rw [delivered_cons, delivered_append]
              exact List.append_nil _
            have hany : ∀ m' : Message,
                Exec SysStep
                (dbIoOpUsrEnt depth ⟨u, .msg { m' with id := n.toNat.toUInt32 }⟩ .read)
                fs₁ t₃
                  (r₃.1,
                  Entry.overlay (delivered t₃) ⟨u, .msg { m' with id := n.toNat.toUInt32 }⟩)
                  fs₃ :=
              fun m' => exec_ioOp_read_any (typed_msg u { m with id := n.toNat.toUInt32 })
                (typed_msg _ _) rfl h₃
            refine Or.inr ⟨n.toNat.toUInt32, ⟨_, _, d, n, rfl, hfirst, hnum, rfl⟩, ?_,
              fun m' => ?_⟩
            · rw [List.singleton_append, hgot, (exec_ioOp_read_delivered (typed_msg _ _) h₃).1]
            · rw [List.singleton_append, hgot, dbGetPendMsg, if_neg (htype m')]
              refine exec_bind_iff.mpr ⟨_, _, _, _, h₁, ?_, rfl⟩
              rw [if_neg (by rw [hok]; decide)]
              simp only [hfirst, hnum]
              refine exec_bind_iff.mpr ⟨_, _, _, _, hany m', ?_, rfl⟩
              apply exec_perform_bind_iff.mpr
              exact ⟨_, _, _, hstep, exec_ret_iff.mpr ⟨rfl, rfl, rfl⟩, rfl⟩

/-- **`db_get_pend_msg` gives a message that is there**, whatever the variable held, exactly when no
file is picked, or what is read of it makes a stored message by itself. -/
theorem getPendMsg_returned_iff (htree : fs.Tree)
    (h : ∃ m r fs', Exec SysStep (dbGetPendMsg depth ⟨u, .msg m⟩) fs t r fs') :
    (∀ m r fs', Exec SysStep (dbGetPendMsg depth ⟨u, .msg m⟩) fs t r fs' →
        fs.Returned u r) ↔
      ∀ id, Picked t id → ∃ m', fs.Stored u m' ∧
        ∀ m : Message, (Entry.overlay (delivered t) ⟨u, .msg { m with id := id }⟩).data =
          .msg m' := by
  obtain ⟨m₀, r₀, fs₀, hexec₀⟩ := h
  constructor
  · intro hall id hid
    rcases exec_getPendMsg_picked htree hexec₀ with ⟨-, hno, -⟩ | ⟨id', hid', -, hany⟩
    · exact absurd hid (hno id)
    · obtain rfl := hid.unique hid'
      obtain ⟨s, hs, hstored⟩ := (hall _ _ _ (hany m₀)).1 rfl
      refine ⟨s, hstored, fun m => ?_⟩
      -- the id is the same over every variable, and names one stored message
      obtain ⟨s', hs', hstored'⟩ := (hall _ _ _ (hany m)).1 rfl
      rw [hs', hstored'.unique hstored (id_overlay hs' hs)]
  · intro hcond m r fs' hexec
    rcases exec_getPendMsg_picked htree hexec with ⟨hneg, -, hempty⟩ | ⟨id, hid, rfl, -⟩
    · refine ⟨fun hok => ?_, fun hcode P hP => ?_⟩
      · rw [hok] at hneg
        exact absurd hneg (by decide)
      · obtain ⟨P', hP', hnil⟩ := hempty hcode
        rw [hP.unique hP', hnil]
    · obtain ⟨m', hstored, hdata⟩ := hcond id hid
      exact ⟨fun _ => ⟨m', hdata m, hstored⟩,
        fun hcode => absurd hcode (show dbmsSuccess ≠ dbmsErrNotExists by decide)⟩

/-- A file under a decimal name in the pending table. -/
theorem fileAt_pendMsgPath {P : Location} {c : Bytes} (hP : fs.DirAt (pendTablePath u) P)
    (hget : fs.get (P ++ [decimal m.id.toNat]) = some (.file c)) :
    fs.FileAt (pendMsgPath u m.id) (P ++ [decimal m.id.toNat]) c :=
  ⟨(FS.locate_append_eq_ok (pendTablePath_ne_nil u) (plain_decimal _)).mpr ⟨P, hP.1, hP.2,
    length_decimal_id _, rfl⟩, hget⟩

/-- A pending table of whole messages, each under its id, and no fault. -/
theorem getPendMsg_returned_of_whole (htree : fs.Tree) (ht : NoFault t)
    (hwhole : ∀ P, fs.DirAt (pendTablePath u) P → ∀ d ∈ fs.children P, ∃ w m,
        (Entry.mk w (.msg m)).Fits ∧
      d.name = decimal m.id.toNat ∧ fs.get
      (P ++ [d.name]) = some (.file (Entry.image ⟨w, .msg m⟩)))
    (h : Exec SysStep (dbGetPendMsg depth ⟨u, .msg m⟩) fs t r fs') : fs.Returned u r := by
  refine ⟨fun hok => ?_, fun hcode => ?_⟩
  · obtain ⟨-, houtcome⟩ := exec_getPendMsg htree h
    cases houtcome with
    | nothing code hcode hempty =>
        rw [show code = dbmsSuccess from hok] at hcode
        exact absurd hcode (by decide)
    | found P hP d hd id hid r₀ hr =>
        obtain ⟨w, m', hfits, hname, hget⟩ := hwhole P hP d hd
        rw [hname, strToNum_decimal] at hid
        obtain rfl := Except.ok.inj hid
        have hsame : ((m'.id.toNat : ℤ).toNat.toUInt32) = m'.id := by simp
        rw [hsame] at hr
        rw [hname] at hget
        have hcontent : fs.content (entryPath ⟨u, .msg { m with id := m'.id }⟩) =
            Entry.image ⟨w, .msg m'⟩ :=
          (fileAt_pendMsgPath hP hget).content
        have hover := (hr.success (hr.ofNoFault ht (by rw [hcontent]; exact image_ne_nil _))).2
        rw [hcontent, overlay_image hfits] at hover
        refine ⟨m', by rw [hover], P, _, hP, hget, (length_image _).ge, ?_⟩
        rw [List.take_of_length_le (length_image _).le, ofImage_image hfits]
  · rcases exec_getPendMsg_picked htree h with ⟨-, -, hempty⟩ | ⟨id, -, rfl, -⟩
    · obtain ⟨P', hP', hnil⟩ := hempty hcode
      intro P hP
      rw [hP.unique hP', hnil]
    · exact absurd hcode (show dbmsSuccess ≠ dbmsErrNotExists by decide)

end Getting

/-! ## A file that is still empty -/

/-- A message to `a` that is just being stored: its file is open, and nothing is written yet. -/
def openedA : FS := registeredA.put [dbDir, ascii "a-table", pendMsgsTable, decimal 1] (.file [])

/-- The next message for `a`, into a variable that holds another one. -/
def gotOpenedA : List sysE.Event × (ℤ × Entry) × FS :=
  (dbGetPendMsg openedA.depth ⟨ascii "a", .msg ⟨ascii "z", 9, ascii "old"⟩⟩).run sysStep
    (fun _ => default) openedA

theorem exec_gotOpenedA : Exec SysStep
    (dbGetPendMsg openedA.depth ⟨ascii "a", .msg ⟨ascii "z", 9, ascii "old"⟩⟩) openedA
    gotOpenedA.1 gotOpenedA.2.1 gotOpenedA.2.2 := exec_sysRunAny _ _ _

theorem tree_openedA : openedA.Tree := by
  refine registeredA_reachable.schema.tree.put_new (p := [dbDir, ascii "a-table", pendMsgsTable])
    (.file []) ?_ ?_ (plain_decimal 1) (length_decimal_id 1)
  · decide +kernel
  · decide +kernel

theorem getPendMsg_returned_iff_openedA :
    (∀ m r fs', Exec SysStep (dbGetPendMsg openedA.depth ⟨ascii "a", .msg m⟩) openedA
        gotOpenedA.1 r fs' →
      openedA.Returned (ascii "a") r) ↔
    ∀ id, Picked gotOpenedA.1 id → ∃ m', openedA.Stored (ascii "a") m' ∧
      ∀ m : Message,
        (Entry.overlay (delivered gotOpenedA.1) ⟨ascii "a", .msg { m with id := id }⟩).data =
        .msg m' :=
  getPendMsg_returned_iff tree_openedA ⟨_, _, _, exec_gotOpenedA⟩

/-- **A file that is still empty is reported as a message**: the one that the variable held. -/
theorem not_getPendMsg_returned :
    ¬ ∀ (fs fs' : FS) (u : Bytes) (m : Message) (depth : ℕ) (t : List sysE.Event)
      (r : ℤ × Entry),
      fs.Tree → Exec SysStep (dbGetPendMsg depth ⟨u, .msg m⟩) fs t r fs' →
        fs.Returned u r := by
  intro h
  obtain ⟨hfound, -⟩ := h _ _ _ _ _ _ _ tree_openedA exec_gotOpenedA
  have hgot : gotOpenedA.2.1 =
      (dbmsSuccess, ⟨ascii "a", .msg ⟨ascii "z", 1, ascii "old"⟩⟩) := by
    decide +kernel
  obtain ⟨m, hm, P, c, hP, hget, hlong, -⟩ := hfound (by rw [hgot])
  rw [hgot] at hm
  obtain rfl := EntryData.msg.inj hm
  have hplace : openedA.locate (pendTablePath (ascii "a")) =
      .ok [dbDir, ascii "a-table", pendMsgsTable] := by
    decide +kernel
  obtain rfl := Except.ok.inj (hplace.symm.trans hP.1)
  have hempty : openedA.get ([dbDir, ascii "a-table", pendMsgsTable] ++ [decimal 1]) =
      some (.file []) :=
    FS.get_put_self _ _ _
  obtain rfl := Node.file.inj (Option.some.inj (hempty.symm.trans hget))
  exact absurd hlong (by decide)
