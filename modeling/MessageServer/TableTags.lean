/-
# Whole tables and tagged files

* `FS.Whole`: the table of `u` is not there, or has its record and its directory of messages;
* `Tagged`: the files of the database bear the tags of their entries, as far as they were written;
* `careful`: no call fails while the table is half made or half removed.
-/
import MessageServer.AccountCalls
import MessageServer.Registration
import MessageServer.Stranded
import MessageServer.Counter

/-! ## Whole tables and careful calls -/

/-- The table of `u` is no directory, or it has a record and a directory of messages. -/
def FS.Whole (fs : FS) (u : Bytes) : Prop :=
  fs.get (fs.table u) = some .dir →
    (∃ c, fs.get (fs.table u ++ [userdataEntry]) = some (.file c)) ∧
      fs.get (fs.table u ++ [pendMsgsTable]) = some .dir

/-- A call failed, and nothing more was removed, after the record of `u` or the directory of the
messages had been removed. -/
def TornDown (u : Bytes) (t : List sysE.Event) : Prop :=
  ∃ path t₁ t₂ e t₃, (path = userdataPath u ∨ path = pendTablePath u) ∧
    t = t₁ ++ removedEvent path :: (t₂ ++ e :: t₃) ∧ Faulted e ∧ ∀ path',
      removedEvent path' ∉ t₃

/-- The system calls of a library call: any may fail, unless the table of `u` is half made or half
removed then. -/
def careful (u : Bytes) : DbCall → List sysE.Event → Prop
  | .creatUsrTbl e, t => e.username = u → ¬ BrokenOff u t
  | .delUsrTbl v, t => v = u → ¬ TornDown u t
  | _, _ => True

/-! ## Tags -/

/-- Bytes with the tag of an entry at its place, if they reach so far. -/
def TagAt (type : UInt8) (bytes : Bytes) : Prop := ∀ b, bytes[512]? = some b → b = type

/-- Userdata files bear the tag of a record; what has the place of a message is a file, and bears
the tag of a message. -/
structure Tagged (fs : FS) : Prop where
  tree : fs.Tree
  userdata : ∀ L c, fs.get (L ++ [userdataEntry]) = some (.file c) → TagAt entTypeUd c
  message : ∀ L n node, fs.get (msgFile L n) = some node → ∃ c, node = .file c ∧
    TagAt entTypePMsg c

section Tags

variable {fs fs' : FS} {type : UInt8} {c : Bytes}

/-- An empty file has no type. -/
theorem tagAt_nil (type : UInt8) : TagAt type [] := by
  intro b hb
  cases hb

/-- A part of an entry that was written. -/
theorem TagAt.take (h : TagAt type c) (k : ℕ) : TagAt type (c.take k) := by
  intro b hb
  rw [List.getElem?_take] at hb
  obtain ⟨-, hb⟩ := Option.ite_none_right_eq_some.mp hb
  exact h b hb

/-- The byte behind the name is the type of the entry. -/
theorem getElem?_image (e : Entry) : e.image[512]? = some e.data.type := by
  have hlen : (padTo maxStrSize e.username).length = 512 := length_padTo _ _
  rw [Entry.image, List.append_assoc, List.getElem?_append_right (by rw [hlen]), hlen]
  rfl

/-- The image of an entry has the type of its data. -/
theorem tagAt_image (e : Entry) : TagAt e.data.type e.image := by
  intro b hb
  rw [getElem?_image] at hb
  exact (Option.some.inj hb).symm

/-- What is read over an entry keeps its tag. -/
theorem getD_overlay {e : Entry} {got : Bytes} (h : TagAt e.data.type got) :
    (got ++ e.image.drop got.length).getD 512 0 = e.data.type := by
  rw [List.getD_eq_getElem?_getD]
  rcases Nat.lt_or_ge 512 got.length with hlt | hge
  · obtain ⟨b, hb⟩ : ∃ b, got[512]? = some b := ⟨_, List.getElem?_eq_getElem hlt⟩
    rw [List.getElem?_append_left hlt, hb]
    exact h b hb
  · rw [List.getElem?_append_right hge, List.getElem?_drop, Nat.add_sub_cancel' hge,
      getElem?_image]
    rfl

/-- A record that is read over a record is a record. -/
theorem overlay_user {w : Bytes} {j : Userdata} {got : Bytes} (h : TagAt entTypeUd got) :
    ∃ w' ud, (Entry.mk w (.user j)).overlay got = ⟨w', .user ud⟩ := by
  unfold Entry.overlay
  split
  · exact ⟨w, j, rfl⟩
  · have htag := getD_overlay (e := ⟨w, .user j⟩) h
    rw [Entry.ofImage, htag]
    exact ⟨_, _, rfl⟩

/-- A message that is read over a message is a message. -/
theorem overlay_msg {w : Bytes} {m : Message} {got : Bytes} (h : TagAt entTypePMsg got) :
    ∃ w' m', (Entry.mk w (.msg m)).overlay got = ⟨w', .msg m'⟩ := by
  unfold Entry.overlay
  split
  · exact ⟨w, m, rfl⟩
  · have htag := getD_overlay (e := ⟨w, .msg m⟩) h
    rw [Entry.ofImage, htag]
    exact ⟨_, _, rfl⟩

/-- What a file of the database may hold. -/
theorem Tagged.content_userdata (h : Tagged fs) (w : Bytes) :
    TagAt entTypeUd (fs.content (userdataPath w)) := by
  by_cases hne : fs.content (userdataPath w) = []
  · rw [hne]
    exact tagAt_nil _
  · obtain ⟨q, hq, hget⟩ := FS.exists_fileAt hne
    obtain ⟨L, hL, rfl⟩ := locate_userdataPath.mp hq
    exact h.userdata L _ hget

/-- A file of messages holds messages. -/
theorem Tagged.content_message (h : Tagged fs) (w : Bytes) (id : UInt32) :
    TagAt entTypePMsg (fs.content (pendMsgPath w id)) := by
  by_cases hne : fs.content (pendMsgPath w id) = []
  · rw [hne]
    exact tagAt_nil _
  · obtain ⟨q, hq, hget⟩ := FS.exists_fileAt hne
    obtain ⟨L, -, -, -, rfl⟩ := locate_pendMsgPath.mp hq
    obtain ⟨c, hc, htag⟩ := h.message L _ _ hget
    rwa [Node.file.inj hc]

/-- What may be put at a location. -/
def TagProper (q : Location) : Node → Prop
  | .dir => ∀ L n, q ≠ msgFile L n
  | .file c => (∃ L, q = L ++ [userdataEntry] ∧ TagAt entTypeUd c) ∨
      ∃ L n, q = msgFile L n ∧ TagAt entTypePMsg c

/-- A change of nodes that keeps the tags. -/
theorem Tagged.of_nodes (h : Tagged fs) (htree : fs'.Tree)
    (hnodes : ∀ q n, fs'.get q = some n → fs.get q = some n ∨ TagProper q n) :
    Tagged fs' := by
  refine ⟨htree, fun L c hc => ?_, fun L n node hn => ?_⟩
  · rcases hnodes _ _ hc with hold | ⟨L', -, htag⟩ | ⟨L', n, hL, -⟩
    · exact h.userdata L c hold
    · exact htag
    · exact absurd hL.symm (msgFile_ne_userdata _ _ _)
  · rcases hnodes _ _ hn with hold | hproper
    · exact h.message L n node hold
    · cases node with
      | dir => exact absurd rfl (hproper L n)
      | file c =>
          rcases hproper with ⟨L', hL, -⟩ | ⟨L', n', -, htag⟩
          · exact absurd hL (msgFile_ne_userdata _ _ _)
          · exact ⟨c, rfl, htag⟩

/-- A node of its own type keeps the tags. -/
theorem Tagged.put (h : Tagged fs) {q : Location} {n : Node} (htree : (fs.put q n).Tree)
    (hn : TagProper q n) :
    Tagged (fs.put q n) := by
  refine h.of_nodes htree fun q' n' hn' => ?_
  rw [FS.get_put] at hn'
  split at hn'
  · rename_i heq
    obtain rfl := Option.some.inj hn'
    rw [heq]
    exact Or.inr hn
  · exact Or.inl hn'

/-- Erasing keeps the tags. -/
theorem Tagged.erased (h : Tagged fs) {path : Bytes} {L : Location} {t : List sysE.Event}
    (htree : fs'.Tree)
    (herased : ErasedAt path L t fs fs') : Tagged fs' := by
  refine h.of_nodes htree fun q n hn => Or.inl ?_
  rcases herased.frame q with heq | ⟨_, _, hnone, _⟩
  · rw [← heq, hn]
  · rw [hnone] at hn
    cases hn

/-- A fresh database has no entries. -/
theorem FS.Fresh.tagged (h : fs.Fresh) : Tagged fs :=
  ⟨h.tree, fun L c hc => absurd hc (h.noUserdata L c), fun L n node hn => by
    rw [h.noMessage] at hn
    cases hn⟩

end Tags

/-! ## What keeps a table whole -/

section Whole

variable {fs fs' : FS} {u : Bytes} {p : Location}

/-- What a library call keeps: the tags, and the table of `u`. -/
structure KeepsWhole (u : Bytes) (fs fs' : FS) : Prop where
  cwd : fs'.cwd = fs.cwd
  tagged : Tagged fs'
  whole : fs.Whole u → fs'.Whole u

theorem KeepsWhole.refl (h : Tagged fs) : KeepsWhole u fs fs := ⟨rfl, h, id⟩

/-- What keeps a table whole twice keeps it whole. -/
theorem KeepsWhole.trans {fs'' : FS} (h : KeepsWhole u fs fs') (h' : KeepsWhole u fs' fs'') :
    KeepsWhole u fs fs'' := ⟨h'.cwd.trans h.cwd, h'.tagged, fun hw => h'.whole (h.whole hw)⟩

/-- The table is whole as long as its places hold the same. -/
theorem FS.Whole.of_same (h : fs.Whole u) (hcwd : fs'.cwd = fs.cwd)
    (htable : fs'.get (fs.table u) = fs.get (fs.table u))
    (hrecord : fs'.get (fs.table u ++ [userdataEntry]) = fs.get (fs.table u ++ [userdataEntry]))
    (hpend : fs'.get (fs.table u ++ [pendMsgsTable]) = fs.get (fs.table u ++ [pendMsgsTable])) :
    fs'.Whole u := by
  have hplace : fs'.table u = fs.table u := by rw [FS.table, FS.table, hcwd]
  unfold FS.Whole
  rw [hplace, htable, hrecord, hpend]
  exact h

/-- A file that is written, where no directory is. -/
theorem FS.Whole.put_file (h : fs.Whole u) (hp : fs.get p ≠ some .dir) (c : Bytes) :
    (fs.put p (.file c)).Whole u := by
  have hstay : ∀ q, fs.get q = some .dir → (fs.put p (.file c)).get q = some .dir := by
    intro q hq
    rw [FS.get_put_of_ne]
    · exact hq
    · rintro rfl
      exact hp hq
  intro hdir
  change (fs.put p (.file c)).get (fs.table u) = some .dir at hdir
  rw [FS.get_put] at hdir
  split at hdir
  · cases hdir
  · obtain ⟨⟨c', hc'⟩, hpend⟩ := h hdir
    refine ⟨?_, hstay _ hpend⟩
    by_cases heq : fs.table u ++ [userdataEntry] = p
    · exact ⟨c, (FS.get_put _ _ _ _).trans (if_pos heq)⟩
    · exact ⟨c', (FS.get_put_of_ne _ _ heq).trans hc'⟩

/-- Erasing that leaves the three parts of the table. -/
theorem FS.Whole.erased (h : fs.Whole u) {path : Bytes} {L : Location} {t : List sysE.Event}
    (herased : ErasedAt path L t fs fs')
    (hrecord : fs'.get (fs.table u ++ [userdataEntry]) ≠ none ∨
      fs.get (fs.table u ++ [userdataEntry]) = none)
    (hpend : fs'.get (fs.table u ++ [pendMsgsTable]) ≠ none ∨
        fs.get (fs.table u ++ [pendMsgsTable]) = none) :
    fs'.Whole u := by
  have hplace : fs'.table u = fs.table u := by rw [FS.table, FS.table, herased.cwd]
  have hsame : ∀ q n, fs.get q = some n → fs'.get q ≠ none ∨ fs.get q = none →
      fs'.get q = some n := by
    intro q n hq hkept
    rcases herased.frame q with heq | ⟨_, _, hnone, _⟩
    · rw [heq, hq]
    · rcases hkept with hne | hnone'
      · exact absurd hnone hne
      · rw [hnone'] at hq
        cases hq
  intro hdir
  rw [hplace] at hdir ⊢
  have hdir' : fs.get (fs.table u) = some .dir := by
    rcases herased.frame (fs.table u) with heq | ⟨_, _, hnone, _⟩
    · rw [← heq, hdir]
    · rw [hnone] at hdir
      cases hdir
  obtain ⟨⟨c, hc⟩, hp⟩ := h hdir'
  exact ⟨⟨c, hsame _ _ hc hrecord⟩, hsame _ _ hp hpend⟩

end Whole
