/-
# The schema, and runs of requests

What the files of the database hold, and that every request keeps it so.

* `Schema`: a userdata file is empty or holds a record of a name that leads to its
  table; what has the place of a message is a file, and holds a message of such a name;
* `dbStep_confined`: a call for a name of table `L` keeps the schema and changes
  nothing outside `L`;
* `handles_touches`: so does a request of a user of table `L`;
* `Reachable`: the file systems that requests lead to from an empty database.
-/
import MessageServer.Confine
import MessageServer.TableCreation
import MessageServer.Transition

/-! ## What files hold -/

/-- A name whose table is `L`, as it fits into an entry. -/
def NameOf (cwd L : Location) (u : Bytes) : Prop :=
  FitsBuf maxStrSize u ∧ lexical cwd (userTablePath u) = L

/-- The contents of a userdata file in table `L`. -/
def RecordOf (cwd L : Location) (c : Bytes) : Prop :=
  c = [] ∨ ∃ u ud, c = Entry.image ⟨u, .user ud⟩ ∧ NameOf cwd L u ∧
    ud.lastMsgId < msgIdMaxValue

/-- The contents of a message file in table `L`. -/
def PendingOf (cwd L : Location) (c : Bytes) : Prop :=
  c = [] ∨ ∃ u m, c = Entry.image ⟨u, .msg m⟩ ∧ NameOf cwd L u ∧
    FitsBuf maxStrSize m.sender ∧ FitsBuf maxMsgSize m.content

/-- The file of a message. -/
def msgFile (L : Location) (id : ℕ) : Location := L ++ [pendMsgsTable, decimal id]

/-- It is one level below the directory of messages. -/
theorem msgFile_eq (L : Location) (id : ℕ) :
    msgFile L id = L ++ [pendMsgsTable] ++ [decimal id] := by
  rw [msgFile, List.append_assoc]
  rfl

/-- The database is as the server writes it. -/
structure Schema (fs : FS) : Prop where
  tree : fs.Tree
  userdata : ∀ L c, fs.get (L ++ [userdataEntry]) = some (.file c) → RecordOf fs.cwd L c
  message : ∀ L (id : UInt32) n, fs.get (msgFile L id.toNat) = some n →
    ∃ c, n = .file c ∧ PendingOf fs.cwd L c

/-- An id is not the name of the record. -/
theorem decimal_ne_userdataEntry (n : ℕ) : decimal n ≠ userdataEntry := by
  intro heq
  have hmem : (117 : UInt8) ∈ decimal n := by
    rw [heq]
    decide
  exact absurd (isDigit_of_mem_decimal hmem) (by decide)

/-- The file of a message is not a record. -/
theorem msgFile_ne_userdata (L L' : Location) (n : ℕ) :
    msgFile L n ≠ L' ++ [userdataEntry] := by
  intro heq
  have hsplit : (L ++ [pendMsgsTable]) ++ [decimal n] = L' ++ [userdataEntry] := by
    rw [← heq, msgFile, List.append_assoc]
    rfl
  exact decimal_ne_userdataEntry n (List.singleton_inj.mp (List.append_inj' hsplit rfl).2)

/-- Files of messages are told apart by table and id. -/
theorem msgFile_inj {L L' : Location} {n n' : ℕ} (h : msgFile L n = msgFile L' n') :
    L = L' ∧ n = n' := by
  obtain ⟨hL, hrest⟩ := List.append_inj' h rfl
  refine ⟨hL, decimal_injective ?_⟩
  simpa using hrest

/-- What may be put at a location. -/
def Proper (cwd q : Location) : Node → Prop
  | .dir => ∀ L n, q ≠ msgFile L n
  | .file c => (∃ L, q = L ++ [userdataEntry] ∧ RecordOf cwd L c) ∨
      ∃ L n, q = msgFile L n ∧ PendingOf cwd L c

/-- A change of nodes that keeps what they hold. -/
theorem Schema.of_nodes {fs fs' : FS} (h : Schema fs) (htree : fs'.Tree) (hcwd : fs'.cwd = fs.cwd)
    (hnodes : ∀ q n, fs'.get q = some n → fs.get q = some n ∨ Proper fs.cwd q n) :
    Schema fs' := by
  refine ⟨htree, fun L c hc => ?_, fun L id n hn => ?_⟩
  · rw [hcwd]
    rcases hnodes _ _ hc with hold | ⟨L', hL, hrec⟩ | ⟨L', n, hL, -⟩
    · exact h.userdata L c hold
    · obtain rfl := (List.append_inj' hL rfl).1
      exact hrec
    · exact absurd hL.symm (msgFile_ne_userdata _ _ _)
  · rw [hcwd]
    rcases hnodes _ _ hn with hold | hproper
    · exact h.message L id n hold
    · cases n with
      | dir => exact absurd rfl (hproper L id.toNat)
      | file c =>
          rcases hproper with ⟨L', hL, -⟩ | ⟨L', n, hL, hpend⟩
          · exact absurd hL (msgFile_ne_userdata _ _ _)
          · obtain ⟨rfl, -⟩ := msgFile_inj hL
            exact ⟨c, rfl, hpend⟩

/-! ## Changes inside a table -/

/-- From `fs` to `fs'` only table `L` changed, and the schema is kept. -/
structure Touches (L : Location) (fs fs' : FS) : Prop where
  schema : Schema fs'
  cwd : fs'.cwd = fs.cwd
  frame : ∀ q, ¬ L <+: q → fs'.get q = fs.get q

theorem Touches.refl {L : Location} {fs : FS} (h : Schema fs) : Touches L fs fs :=
  ⟨h, rfl, fun _ _ => rfl⟩

/-- What touches a table only, twice. -/
theorem Touches.trans {L : Location} {fs fs' fs'' : FS} (h : Touches L fs fs')
    (h' : Touches L fs' fs'') : Touches L fs fs'' :=
  ⟨h'.schema, h'.cwd.trans h.cwd, fun q hq => (h'.frame q hq).trans (h.frame q hq)⟩

/-- Erasing. -/
theorem ErasedAt.touches {path : Bytes} {L L' : Location} {t : List sysE.Event} {fs fs' : FS}
    (h : ErasedAt path L' t fs fs') (hpre : L <+: L') (hs : Schema fs) (htree : fs'.Tree) :
    Touches L fs fs' := by
  refine ⟨hs.of_nodes htree h.cwd fun q n hn => Or.inl ?_, h.cwd, fun q hq => ?_⟩
  · rcases h.frame q with heq | ⟨_, _, hnone, _⟩
    · rw [← heq, hn]
    · rw [hnone] at hn
      exact absurd hn (by simp)
  · exact h.get_eq fun hpre' => hq (hpre.trans hpre')

/-- A new node, or a new content of a file. -/
theorem Touches.put {fs : FS} (hs : Schema fs) {L q : Location} {n : Node}
    (htree : (fs.put q n).Tree) (hpre : L <+: q) (hn : Proper fs.cwd q n) :
    Touches L fs (fs.put q n) := by
  refine ⟨hs.of_nodes htree rfl fun q' n' hn' => ?_, rfl, fun q' hq' => ?_⟩
  · rw [FS.get_put] at hn'
    split at hn'
    · rename_i heq
      obtain rfl := Option.some.inj hn'
      rw [heq]
      exact Or.inr hn
    · exact Or.inl hn'
  · rw [FS.get_put_of_ne]
    rintro rfl
    exact hq' hpre

/-- The names of directories end differently from those of messages. -/
theorem ne_msgFile {p : Location} {c : Name} (hc : c.getLast? = tableSuffix.getLast?) (L : Location)
    (n : ℕ) : p ++ [c] ≠ msgFile L n := by
  intro heq
  have hsplit : p ++ [c] = (L ++ [pendMsgsTable]) ++ [decimal n] := by
    rw [heq, msgFile, List.append_assoc]
    rfl
  have hlast := List.singleton_inj.mp (List.append_inj' hsplit rfl).2
  rw [hlast] at hc
  have hmem : (101 : UInt8) ∈ decimal n := List.mem_of_getLast? (hc.trans (by decide))
  exact absurd (isDigit_of_mem_decimal hmem) (by decide)

/-- The end of a table's name is that of the suffix. -/
theorem getLast?_append_tableSuffix (b : Bytes) :
    (b ++ tableSuffix).getLast? = tableSuffix.getLast? :=
  List.getLast?_append_of_ne_nil _ (by decide)

/-! ## Reading -/

/-- A record fits when its name does. -/
theorem fits_user {u : Bytes} (hu : FitsBuf maxStrSize u) (ud : Userdata) :
    Entry.Fits ⟨u, .user ud⟩ := ⟨hu, trivial⟩

/-- A message fits when its parts do. -/
theorem fits_msg {u : Bytes} (hu : FitsBuf maxStrSize u) {m : Message}
    (hs : FitsBuf maxStrSize m.sender) (hc : FitsBuf maxMsgSize m.content) :
    Entry.Fits ⟨u, .msg m⟩ := ⟨hu, hs, hc⟩

/-- The file of a message, when its path resolves. -/
theorem locate_pendMsgPath {fs : FS} {u : Bytes} {id : UInt32} {q : Location} :
    fs.locate (pendMsgPath u id) = .ok q ↔
      ∃ L, fs.DirAt (userTablePath u) L ∧ fs.get (L ++ [pendMsgsTable]) = some .dir ∧
        (decimal id.toNat).length ≤ nameMax ∧ q = msgFile L id.toNat := by
  rw [pendMsgPath, FS.locate_append_eq_ok (pendTablePath_ne_nil u) (plain_decimal _)]
  constructor
  · rintro ⟨p, hp, hdir, hlen, rfl⟩
    obtain ⟨L, hL, rfl⟩ := locate_pendTablePath.mp hp
    exact ⟨L, hL, hdir, hlen, by rw [msgFile, List.append_assoc]; rfl⟩
  · rintro ⟨L, hL, hdir, hlen, rfl⟩
    exact ⟨L ++ [pendMsgsTable], locate_pendTablePath.mpr ⟨L, hL, rfl⟩, hdir, hlen,
      by rw [msgFile, List.append_assoc]; rfl⟩

/-- The place of a message. -/
theorem lexical_pendMsgPath (cwd : Location) (u : Bytes) (id : UInt32) :
    lexical cwd (pendMsgPath u id) = msgFile (lexical cwd (userTablePath u)) id.toNat := by
  rw [pendMsgPath, lexical_append _ _ (plain_decimal _), pendTablePath,
    lexical_append _ _ plain_pendMsgsTable, msgFile, List.append_assoc]
  rfl

/-- A table's directory is where its names lead. -/
theorem FS.DirAt.nameOf {fs : FS} {cwd L L' : Location} {u : Bytes} (hcwd : fs.cwd = cwd)
    (h : fs.DirAt (userTablePath u) L') (hu : NameOf cwd L u) : L' = L := by
  rw [← hu.2, ← hcwd]
  exact locate_eq_lexical h.1

/-- The record that a userdata path leads to. -/
theorem Schema.read_userdata {fs : FS} (hs : Schema fs) {u : Bytes}
    (hne : fs.content (userdataPath u) ≠ []) :
    ∃ u' ud, fs.content (userdataPath u) = Entry.image ⟨u', .user ud⟩ ∧
      NameOf fs.cwd (lexical fs.cwd (userTablePath u)) u' ∧ ud.lastMsgId < msgIdMaxValue := by
  obtain ⟨q, hq, hget⟩ := FS.exists_fileAt hne
  obtain ⟨L, hL, rfl⟩ := locate_userdataPath.mp hq
  rw [← locate_eq_lexical hL.1]
  exact (hs.userdata _ _ hget).resolve_left hne

/-- The message that a message path leads to. -/
theorem Schema.read_message {fs : FS} (hs : Schema fs) {u : Bytes} {id : UInt32}
    (hne : fs.content (pendMsgPath u id) ≠ []) :
    ∃ u' m, fs.content (pendMsgPath u id) = Entry.image ⟨u', .msg m⟩ ∧
      NameOf fs.cwd (lexical fs.cwd (userTablePath u)) u' ∧
      FitsBuf maxStrSize m.sender ∧ FitsBuf maxMsgSize m.content := by
  obtain ⟨q, hq, hget⟩ := FS.exists_fileAt hne
  obtain ⟨L, hL, -, -, rfl⟩ := locate_pendMsgPath.mp hq
  rw [← locate_eq_lexical hL.1]
  obtain ⟨c, hc, hpend⟩ := hs.message _ _ _ hget
  obtain rfl := Node.file.inj hc
  exact hpend.resolve_left hne

/-- `READ` of any entry leaves the file system alone. -/
theorem exec_ioOp_read_frame {fs fs' : FS} {e : Entry} {depth : ℕ} {t : List sysE.Event}
    {r : ℤ × Entry} (h : Exec SysStep (dbIoOpUsrEnt depth e .read) fs t r fs') : fs' = fs := by
  by_cases he : e.Typed
  · exact (exec_ioOp_read he h).1
  · have htype : e.data.type ≠ entTypeUd ∧ e.data.type ≠ entTypePMsg :=
      ⟨fun h₁ => he (Or.inl h₁), fun h₂ => he (Or.inr h₂)⟩
    rw [dbIoOpUsrEnt, if_pos htype] at h
    exact (exec_ret_iff.mp h).2.2

/-- `OVERWRITE` is refused. -/
theorem exec_ioOp_overwrite {fs fs' : FS} {e : Entry} {depth : ℕ} {t : List sysE.Event}
    {r : ℤ × Entry} (h : Exec SysStep (dbIoOpUsrEnt depth e .overwrite) fs t r fs') :
    fs' = fs := by
  rw [dbIoOpUsrEnt] at h
  split at h
  · exact (exec_ret_iff.mp h).2.2
  · exact (exec_ret_iff.mp h).2.2

/-! ## The calls keep to their table -/

/-- The names of table `L`, as a class for the services. -/
def tableNames (cwd L : Location) : Confinement where
  Same := NameOf cwd L
  Good := fun id => id < msgIdMaxValue
  zero := by decide
  next := fun id => UInt32.mod_lt _ (by decide)

/-- The calls considered: no transfer is torn. -/
def untorn (_ : DbCall) (t : List sysE.Event) : Prop := Untorn t

/-! ### Calls that write -/

section Calls

variable {fs fs' : FS} {L : Location}

/-- A userdata entry of the class is what a userdata file may hold. -/
theorem recordOf_user {cwd : Location} {e : Entry} (h : (tableNames cwd L).User e) :
    RecordOf cwd L e.image := by
  obtain ⟨u, ud, rfl, hu, hid⟩ := h
  exact Or.inr ⟨u, ud, rfl, hu, hid⟩

/-- A record that has not been begun is empty. -/
theorem recordOf_take {cwd : Location} {e : Entry} {k : ℕ} (hk : k = 0) :
    RecordOf cwd L (e.image.take k) := by
  rw [hk]
  exact Or.inl rfl

/-- A record that is rewritten touches its own table only. -/
theorem touches_modify (hs : Schema fs) {e : Entry} (he : (tableNames fs.cwd L).User e)
    {depth : ℕ} {t : List sysE.Event} {r : ℤ × Entry}
    (h : Exec SysStep (dbIoOpUsrEnt depth e .modify) fs t r fs') (ht : Untorn t) :
    Touches L fs fs' := by
  have hrec := recordOf_user he
  obtain ⟨u, ud, rfl, hu, -⟩ := he
  -- the file that is written is the userdata file of the table
  have hput : ∀ p c, fs.locate (userdataPath u) = .ok p → fs.Writable .modify p →
      RecordOf fs.cwd L c → Touches L fs (fs.put p (.file c)) := by
    intro p c hp hfree hc
    obtain ⟨old, hold⟩ : ∃ c, fs.get p = some (.file c) := hfree
    obtain ⟨L', hL', rfl⟩ := locate_userdataPath.mp hp
    obtain rfl := hL'.nameOf rfl hu
    exact Touches.put hs (hs.tree.put_file hold) (List.prefix_append _ _) (Or.inl ⟨_, rfl, hc⟩)
  cases exec_ioOp_write (typed_user _ _) (Or.inr rfl) h with
  | refused code hcode hfree => exact Touches.refl hs
  | written p hloc hfree => exact hput p _ hloc hfree hrec
  | torn p k hloc hfree hfault =>
      exact hput p _ hloc hfree (recordOf_take (hfault.write_eq_zero ht))

/-- A message that is stored touches the table of its recipient only. -/
theorem touches_create (hs : Schema fs) {e : Entry} (he : (tableNames fs.cwd L).Stored e)
    {depth : ℕ} {t : List sysE.Event} {r : ℤ × Entry}
    (h : Exec SysStep (dbIoOpUsrEnt depth e .create) fs t r fs') (ht : Untorn t) :
    Touches L fs fs' := by
  obtain ⟨u, m, rfl, hu, hsender, hcontent⟩ := he
  have hput : ∀ p c, fs.locate (pendMsgPath u m.id) = .ok p → fs.get p = none →
      PendingOf fs.cwd L c → Touches L fs (fs.put p (.file c)) := by
    intro p c hp hnew hc
    obtain ⟨L', hL', hdir, hlen, rfl⟩ := locate_pendMsgPath.mp hp
    obtain rfl := hL'.nameOf rfl hu
    refine Touches.put hs ?_ (List.prefix_append _ _) (Or.inr ⟨_, _, rfl, hc⟩)
    have hsplit : msgFile L' m.id.toNat = (L' ++ [pendMsgsTable]) ++ [decimal m.id.toNat] := by
      rw [msgFile, List.append_assoc]
      rfl
    rw [hsplit] at hnew ⊢
    exact hs.tree.put_new _ hdir hnew (plain_decimal _) hlen
  cases exec_ioOp_write (typed_msg _ _) (Or.inl rfl) h with
  | refused code hcode hfree => exact Touches.refl hs
  | written p hloc hfree =>
      exact hput p _ hloc hfree (Or.inr ⟨u, m, rfl, hu, hsender, hcontent⟩)
  | torn p k hloc hfree hfault =>
      refine hput p _ hloc hfree (Or.inl ?_)
      rw [hfault.write_eq_zero ht]
      rfl

/-- A message that is deleted touches the table of its recipient only. -/
theorem touches_delete (hs : Schema fs) {e : Entry} (he : (tableNames fs.cwd L).Msg e)
    {depth : ℕ} {t : List sysE.Event} {r : ℤ × Entry}
    (h : Exec SysStep (dbIoOpUsrEnt depth e .delete) fs t r fs') : Touches L fs fs' := by
  obtain ⟨u, m, rfl, hu⟩ := he
  obtain ⟨htree, herased, -⟩ := exec_ioOp_delete hs.tree (typed_msg _ _) h
  refine herased.touches ?_ hs htree
  show L <+: lexical fs.cwd (pendMsgPath u m.id)
  rw [lexical_pendMsgPath, hu.2]
  exact List.prefix_append _ _

/-- The removal of a table touches this one only. -/
theorem touches_delUsrTbl (hs : Schema fs) {u : Bytes} (hu : NameOf fs.cwd L u) {depth : ℕ}
    {t : List sysE.Event} {r : ℤ} (h : Exec SysStep (dbDelUsrTbl depth u) fs t r fs') :
    Touches L fs fs' := by
  rw [dbDelUsrTbl] at h
  obtain ⟨t₁, r₁, fs₁, t₂, h₁, h₂, rfl⟩ := exec_bind_iff.mp h
  obtain ⟨rfl, rfl, rfl⟩ := exec_ret_iff.mp h₂
  obtain ⟨htree, herased, -⟩ := exec_removeRecursive depth _ _ _ _ _ hs.tree h₁
  rw [hu.2] at herased
  exact herased.touches List.prefix_rfl hs htree

/-- A new table touches its own place only. -/
theorem touches_creatUsrTbl (hs : Schema fs) {e : Entry} (he : (tableNames fs.cwd L).User e)
    {depth : ℕ} {t : List sysE.Event} {r : ℤ}
    (h : Exec SysStep (dbCreatUsrTbl depth e) fs t r fs') (ht : Untorn t) : Touches L fs fs' := by
  have hrec := recordOf_user he
  obtain ⟨u, ud, rfl, hu, hid⟩ := he
  -- the three stages of the building
  have hdir : ∀ L', fs.locate (userTablePath u) = .ok L' → fs.get L' = none →
      L' = L ∧ Touches L fs (fs.put L .dir) := by
    intro L' hL' hnew
    obtain rfl : L' = L := by
      rw [← hu.2]
      exact locate_eq_lexical hL'
    obtain ⟨p, b, rfl, hb, hp, hlen⟩ := locate_userTablePath hL'
    exact ⟨rfl, Touches.put hs (hs.tree.put_new _ hp hnew (plain_append_tableSuffix hb) hlen)
      List.prefix_rfl (ne_msgFile (getLast?_append_tableSuffix b))⟩
  have hbelow : fs.get L = none → ∀ c, (fs.put L .dir).get (L ++ [c]) = none := by
    intro hnew c
    rw [FS.get_put_of_ne _ _ (fun heq => absurd (congrArg List.length heq) (by simp))]
    by_contra hne
    obtain ⟨n, hn⟩ := Option.ne_none_iff_exists'.mp hne
    have hparent := hs.tree.parent _ _ _ hn
    rw [hnew] at hparent
    exact absurd hparent (by simp)
  have hfile : ∀ c, fs.get L = none → Touches L fs (fs.put L .dir) → RecordOf fs.cwd L c →
      Touches L fs ((fs.put L .dir).put (L ++ [userdataEntry]) (.file c)) := by
    intro c hnew htouch hc
    exact htouch.trans (Touches.put htouch.schema
      (htouch.schema.tree.put_new _ (FS.get_put_self _ _ _) (hbelow hnew _) plain_userdataEntry
        length_userdataEntry) (List.prefix_append _ _) (Or.inl ⟨L, rfl, hc⟩))
  cases exec_creatUsrTbl hs.tree h with
  | found L' hL' => exact Touches.refl hs
  | refused hno => exact Touches.refl hs
  | table L' hL' hnew hbroken =>
      obtain ⟨rfl, htouch⟩ := hdir L' hL' hnew
      exact htouch
  | record L' hL' hnew hbroken c hc =>
      obtain ⟨rfl, htouch⟩ := hdir L' hL' hnew
      refine hfile c hnew htouch ?_
      rcases hc with rfl | ⟨k, rfl, hfault⟩
      · exact hrec
      · exact recordOf_take (hfault.write_eq_zero ht)
  | complete L' hL' hnew r hr =>
      obtain ⟨rfl, htouch⟩ := hdir L' hL' hnew
      have htouch₂ := hfile _ hnew htouch hrec
      refine htouch₂.trans (Touches.put htouch₂.schema
        (htouch₂.schema.tree.put_new _ ?_ ?_ plain_pendMsgsTable length_pendMsgsTable)
        (List.prefix_append _ _) (ne_msgFile (by decide)))
      · rw [FS.get_put_of_ne _ _ (fun heq => absurd (congrArg List.length heq) (by simp)),
          FS.get_put_self]
      · rw [FS.get_put_of_ne _ _ (userdataEntry_ne_pendMsgsTable _)]
        exact hbelow hnew _

/-! ### Calls that read -/

/-- What reading a userdata entry of the class gives. -/
theorem possible_read (hs : Schema fs) {u : Bytes} {ud : Userdata} (hu : NameOf fs.cwd L u)
    {depth : ℕ} {t : List sysE.Event} {r : ℤ × Entry}
    (h : Exec SysStep (dbIoOpUsrEnt depth ⟨u, .user ud⟩ .read) fs t r fs') (ht : Untorn t)
    (hgood : 0 ≤ r.1 ∨ ud.lastMsgId < msgIdMaxValue) : (tableNames fs.cwd L).User r.2 := by
  obtain ⟨-, hread⟩ := exec_ioOp_read (typed_user _ _) h
  rcases hread.code with hok | hneg
  · obtain ⟨hne, hr⟩ := hread.success hok
    obtain ⟨u', ud', hc, hu', hid⟩ := hs.read_userdata hne
    rw [hu.2] at hu'
    have hcontent : fs.content (entryPath ⟨u, .user ud⟩) = Entry.image ⟨u', .user ud'⟩ := hc
    rw [hcontent, overlay_image (fits_user hu'.1 ud')] at hr
    exact ⟨u', ud', hr, hu', hid⟩
  · rw [hread.ofUntorn ht hneg]
    exact ⟨u, ud, rfl, hu, hgood.resolve_left (not_le.mpr hneg)⟩

/-- Reading a userdata entry gives one. -/
theorem exists_user_of_read (hs : Schema fs) {u : Bytes} {ud : Userdata} {r : ℤ × Entry}
    (h : DbStep untorn fs (.ioOpUsrEnt ⟨u, .user ud⟩ .read) r fs') :
    ∃ u' ud', r.2 = ⟨u', .user ud'⟩ := by
  obtain ⟨t, hexec, ht⟩ := h
  obtain ⟨-, hread⟩ := exec_ioOp_read (typed_user u ud) hexec
  rcases hread.code with hok | hneg
  · obtain ⟨hne, hr⟩ := hread.success hok
    obtain ⟨u', ud', hc, hu', -⟩ := hs.read_userdata hne
    have hcontent : fs.content (entryPath ⟨u, .user ud⟩) = Entry.image ⟨u', .user ud'⟩ := hc
    rw [hcontent, overlay_image (fits_user hu'.1 ud')] at hr
    exact ⟨u', ud', hr⟩
  · rw [hread.ofUntorn ht hneg]
    exact ⟨u, ud, rfl⟩

/-- What the search for a pending message gives. -/
theorem possible_getPendMsg (hs : Schema fs) {e : Entry} (he : (tableNames fs.cwd L).Msg e)
    {depth : ℕ} {t : List sysE.Event} {r : ℤ × Entry}
    (h : Exec SysStep (dbGetPendMsg depth e) fs t r fs') (ht : Untorn t) :
    fs' = fs ∧ (tableNames fs.cwd L).Msg r.2 := by
  obtain ⟨u, m, rfl, hu⟩ := he
  obtain ⟨rfl, hpend⟩ := exec_getPendMsg hs.tree h
  refine ⟨rfl, ?_⟩
  cases hpend with
  | nothing code hcode hempty => exact ⟨u, m, rfl, hu⟩
  | found p hp d hd id hid r hread =>
      rcases hread.code with hok | hneg
      · obtain ⟨hne, hr⟩ := hread.success hok
        obtain ⟨u', m', hc, hu', hs', hc'⟩ := hs.read_message hne
        have hcontent : fs'.content (entryPath ⟨u, .msg { m with id := id.toNat.toUInt32 }⟩) =
            Entry.image ⟨u', .msg m'⟩ := hc
        change NameOf fs'.cwd (lexical fs'.cwd (userTablePath u)) u' at hu'
        rw [hu.2] at hu'
        rw [hcontent, overlay_image (fits_msg hu'.1 hs' hc')] at hr
        exact ⟨u', m', hr, hu'⟩
      · rw [hread.ofUntorn ht hneg]
        exact ⟨u, _, rfl, hu⟩

/-- **A call for a name of table `L`** keeps the schema, changes nothing outside `L`,
and answers with entries of the table. -/
theorem dbStep_confined (hs : Schema fs) {call : DbCall}
    (hallowed : (tableNames fs.cwd L).Allowed (.db call)) {x : call.Ans}
    (h : DbStep untorn fs call x fs') :
    Touches L fs fs' ∧ (tableNames fs.cwd L).Possible (.db call) x := by
  obtain ⟨t, hexec, ht⟩ := h
  cases call with
  | userExists u =>
      obtain ⟨rfl, -⟩ := exec_userExists hexec
      exact ⟨Touches.refl hs, trivial⟩
  | getPendMsg e =>
      obtain ⟨rfl, hmsg⟩ := possible_getPendMsg hs hallowed hexec ht
      exact ⟨Touches.refl hs, hmsg⟩
  | creatUsrTbl e => exact ⟨touches_creatUsrTbl hs hallowed hexec ht, trivial⟩
  | delUsrTbl u => exact ⟨touches_delUsrTbl hs hallowed hexec, trivial⟩
  | ioOpUsrEnt e mode =>
      cases mode with
      | read =>
          obtain rfl := exec_ioOp_read_frame hexec
          refine ⟨Touches.refl hs, ?_⟩
          rintro u ud rfl hu hgood
          exact possible_read hs hu hexec ht hgood
      | create => exact ⟨touches_create hs hallowed hexec ht, trivial⟩
      | modify => exact ⟨touches_modify hs hallowed hexec ht, trivial⟩
      | delete => exact ⟨touches_delete hs hallowed hexec, trivial⟩
      | overwrite =>
          obtain rfl := exec_ioOp_overwrite hexec
          exact ⟨Touches.refl hs, trivial⟩

end Calls

/-! ## Requests one at a time -/

/-- A request is handled alone: `t` is what its thread does. -/
def Handles (T : DbCall → List sysE.Event → Prop) (fs : FS) (req : Req) (t : List srvE.Event)
    (fs' : FS) : Prop :=
  ∃ fuel, Exec (SrvStep T) (req.body fuel) ⟨fs, []⟩ t (some ()) ⟨fs', []⟩

/-- What every call of a confined program keeps, the program keeps; `N` holds of its calls. -/
theorem exec_confined {α : Type} {I : FS → Prop} {fs : FS} {p : Srv α} {L : Location}
    {N : DbCall → Prop} (hs : Schema fs) (h0 : I fs)
    (hI : ∀ fs call (x : call.Ans) fs', Schema fs → I fs → N call →
        (tableNames fs.cwd L).Allowed (.db call) →
      DbStep untorn fs call x fs' → I fs')
    (hp : p.Obeys (confined (tableNames fs.cwd L)) (fun _ _ => True) ()) {w w' : SrvWorld}
    (hw : w.fs = fs)
    {t : List srvE.Event} {a : α} (h : Exec (SrvStep untorn) p w t a w')
    (hN : ∀ ev ∈ t, ∀ call, ev.1 = .db call → N call) : I w'.fs := by
  have h' : Exec (fun w (o : SrvOp) x w' => (∀ call, o = .db call → N call) ∧
      SrvStep untorn w o x w') p
      w t a w' := h.mono fun _ _ _ _ hmem hR => ⟨hN _ hmem, hR⟩
  have hstep : ∀ (w : SrvWorld) (ph : Unit) (o : SrvOp) (x : o.Ans) (w' : SrvWorld),
      Touches L fs w.fs ∧ I w.fs → (confined (tableNames fs.cwd L)).allowed ph o →
      ((∀ call, o = .db call → N call) ∧ SrvStep untorn w o x w') →
      (confined (tableNames fs.cwd L)).possible ph o x ∧ Touches L fs w'.fs ∧ I w'.fs := by
    rintro w ph o x w' ⟨htouch, hw⟩ hallowed ⟨hcall, hR⟩
    have hfree : w'.fs = w.fs → Touches L fs w'.fs ∧ I w'.fs := by
      intro heq
      rw [heq]
      exact ⟨htouch, hw⟩
    cases o with
    | db call =>
        have hallowed' : (tableNames w.fs.cwd L).Allowed (.db call) := by
          rw [htouch.cwd]
          exact hallowed
        obtain ⟨htouch', hposs⟩ := dbStep_confined htouch.schema hallowed' hR.1
        rw [htouch.cwd] at hposs
        exact ⟨hposs, htouch.trans htouch', hI _ _ _ _ htouch.schema hw (hcall call rfl)
          hallowed' hR.1⟩
    | recv buf => exact ⟨trivial, hfree hR.1⟩
    | _ => exact ⟨trivial, hfree (congrArg SrvWorld.fs hR)⟩
  have hstart : Touches L fs w.fs ∧ I w.fs := by
    rw [hw]
    exact ⟨Touches.refl hs, h0⟩
  obtain ⟨-, hend, -⟩ :=
    Exec.obeys (I := fun w _ => Touches L fs w.fs ∧ I w.fs) hstep h' hp hstart
  exact hend.2

/-- A program that keeps to table `L`. -/
theorem exec_touches {α : Type} {p : Srv α} {fs : FS} {L : Location} (hs : Schema fs)
    (hp : p.Obeys (confined (tableNames fs.cwd L)) (fun _ _ => True) ()) {w w' : SrvWorld}
    (hw : w.fs = fs) {t : List srvE.Event} {a : α} (h : Exec (SrvStep untorn) p w t a w') :
    Touches L fs w'.fs := by
  have hkeep : ∀ fs₁ call (x : call.Ans) fs₂, Schema fs₁ → Touches L fs fs₁ → True →
      (tableNames fs₁.cwd L).Allowed (.db call) → DbStep untorn fs₁ call x fs₂ →
        Touches L fs fs₂ :=
    fun fs₁ call x fs₂ hs₁ htouch _ hallowed hstep =>
      htouch.trans (dbStep_confined hs₁ hallowed hstep).1
  exact exec_confined hs (Touches.refl hs) hkeep hp hw h fun _ _ _ _ => trivial

/-- The name that a request works for, in an entry. -/
theorem Req.Fits.user {req : Req} (h : req.Fits) {u : Bytes} (hu : req.user = some u) :
    FitsBuf maxMsgSize u := by
  cases req with
  | register v => exact Option.some.inj hu ▸ h
  | unregister v => exact Option.some.inj hu ▸ h
  | connect v port => exact Option.some.inj hu ▸ h.1
  | disconnect v => exact Option.some.inj hu ▸ h
  | send s r c => exact Option.some.inj hu ▸ h.2.1
  | unknown => exact absurd hu (by simp [Req.user])

/-- What fits an array fits a larger one. -/
theorem FitsBuf.mono {n m : ℕ} {s : Bytes} (h : FitsBuf n s) (hnm : n ≤ m) : FitsBuf m s :=
  ⟨h.noNul, h.short.trans_le hnm⟩

/-- **A request of a user of table `L`** keeps the schema and changes nothing outside
`L`. -/
theorem handles_touches {fs fs' : FS} (hs : Schema fs) {req : Req} (hfits : req.Fits) {u : Bytes}
    (hu : req.user = some u) {t : List srvE.Event} (h : Handles untorn fs req t fs') :
    Touches (lexical fs.cwd (userTablePath u)) fs fs' := by
  obtain ⟨fuel, h⟩ := h
  refine exec_touches hs (body_confined fuel hfits fun v hv => ?_) rfl h
  obtain rfl : u = v := Option.some.inj (hu.symm.trans hv)
  exact ⟨(hfits.user hu).mono (by decide), rfl⟩

/-! ## Reachable databases -/

/-- An empty database: the directory `users` is there and empty, and nothing else has
the place of a file of the database. -/
structure FS.Fresh (fs : FS) : Prop where
  tree : fs.Tree
  users : fs.get (fs.cwd ++ [dbDir]) = some .dir
  empty : ∀ c, fs.get (fs.cwd ++ [dbDir] ++ [c]) = none
  noUserdata : ∀ L c, fs.get (L ++ [userdataEntry]) ≠ some (.file c)
  noMessage : ∀ L n, fs.get (msgFile L n) = none

/-- A fresh database is well formed. -/
theorem FS.Fresh.schema {fs : FS} (h : fs.Fresh) : Schema fs :=
  ⟨h.tree, fun L c hc => absurd hc (h.noUserdata L c), fun L id n hn => by
    rw [h.noMessage] at hn
    exact absurd hn (by simp)⟩

/-- One request after another. -/
def RequestStep (T : DbCall → List sysE.Event → Prop) (fs : FS) (req : Req) (fs' : FS) : Prop :=
  req.Fits ∧ ∃ t, Handles T fs req t fs'

/-- The file systems that requests lead to from an empty database, when no transfer is
torn. -/
def Reachable (fs : FS) : Prop :=
  ∃ fs₀ reqs, fs₀.Fresh ∧ Run (RequestStep untorn) fs₀ reqs fs

/-- Every request keeps the schema. -/
theorem RequestStep.schema {fs fs' : FS} (hs : Schema fs) {req : Req}
    (h : RequestStep untorn fs req fs') : Schema fs' := by
  obtain ⟨hfits, t, hexec⟩ := h
  cases hu : req.user with
  | some u => exact (handles_touches hs hfits hu hexec).schema
  | none =>
      obtain ⟨fuel, hexec⟩ := hexec
      have hobeys := body_confined (C := tableNames fs.cwd []) fuel hfits fun u hu' => by
        rw [hu] at hu'
        exact absurd hu' (by simp)
      exact (exec_touches hs hobeys rfl hexec).schema

/-- **Reachable databases keep the schema.** -/
theorem Reachable.schema {fs : FS} (h : Reachable fs) : Schema fs := by
  obtain ⟨fs₀, reqs, hfresh, hrun⟩ := h
  refine Run.invariant (I := fun _ fs => Schema fs) hrun hfresh.schema ?_
  intro _ s req s' hs hstep
  exact hstep.schema hs
