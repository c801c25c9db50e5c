/-
# Accounts

What the database is for, from the point of view of one user: an account, with the
user's record and the messages that wait for the user.

* `Account`, `AccountCall`: the account, and what each library call does to it;
* `FS.Keeps`: the file system keeps the account of a user;
* `FS.Keeps.content_record`, `FS.Keeps.content_pending`: what is read at its places.

Where `calm` is asked for, no system call fails for a reason outside the state of the
file system.
-/
import MessageServer.Isolation
import MessageServer.Registration
import MessageServer.Incomplete

/-! ## The account of a user -/

/-- What the server keeps for a user: the record, and by their ids the messages that wait
for the user.  `stray`: there may be something else in the place of such messages. -/
structure Account where
  record : Option Userdata
  pending : UInt32 → Option Message
  stray : Bool

namespace Account

/-- Nothing is kept for the user. -/
def empty : Account := ⟨none, fun _ => none, false⟩

/-- The account of a new user. -/
def new (ud : Userdata) : Account := ⟨some ud, fun _ => none, false⟩

/-- A message that waits. -/
def store (a : Account) (m : Message) : Account :=
  { a with pending := Function.update a.pending m.id (some m) }

/-- A message that waits no more. -/
def drop (a : Account) (id : UInt32) : Account :=
  { a with pending := Function.update a.pending id none }

/-- `b` keeps a part of what `a` keeps. -/
structure Part (b a : Account) : Prop where
  record : b.record = a.record ∨ b.record = none
  pending : ∀ id, b.pending id = a.pending id ∨ b.pending id = none
  stray : b.stray = a.stray

variable (calm : Prop) (u : Bytes)

/-- Reading the record over a variable that holds `j`. -/
def Reads (a : Account) (j : Userdata) (x : ℤ × Entry) : Prop :=
  (∃ ud, a.record = some ud ∧ x = (dbmsSuccess, ⟨u, .user ud⟩)) ∨
    (x.1 < 0 ∧ x.2 = ⟨u, .user j⟩ ∧ (calm → a.record = none))

/-- Rewriting the record. -/
def Rewrites (a : Account) (ud : Userdata) (x : ℤ × Entry) (a' : Account) : Prop :=
  (x.1 = dbmsSuccess ∧ a' = { a with record := some ud } ∧ (calm → a.record ≠ none)) ∨
    (x.1 < 0 ∧ (a' = a ∨ a' = { a with record := none }) ∧
      (calm → a' = a ∧ a.record = none))

/-- Storing a message. -/
def Stores (a : Account) (m : Message) (x : ℤ × Entry) (a' : Account) : Prop :=
  (x.1 = dbmsSuccess ∧ a.pending m.id = none ∧ a' = a.store m) ∨
    (x.1 < 0 ∧ a' = a ∧ (calm → a.record ≠ none → a.pending m.id ≠ none))

/-- Deleting a message. -/
def Drops (a : Account) (m : Message) (x : ℤ × Entry) (a' : Account) : Prop :=
  (0 ≤ x.1 ∧ a' = a.drop m.id) ∨ (x.1 < 0 ∧ a' = a ∧ (calm → a.pending m.id = none))

/-- Looking for a message that waits, with a variable that holds `m`. -/
def Finds (a : Account) (m : Message) (x : ℤ × Entry) : Prop :=
  (x.1 < 0 ∧ x.2 = ⟨u, .msg m⟩ ∧
      (calm → a.record ≠ none → a.stray = false → ∀ id, a.pending id = none)) ∨
    (x.1 = dbmsSuccess ∧ ((∃ m', a.pending m'.id = some m' ∧ x.2 = ⟨u, .msg m'⟩) ∨
      ((calm → a.stray = true) ∧ ∃ id, x.2 = ⟨u, .msg { m with id := id }⟩)))

/-- Opening an account. -/
def Opens (a : Account) (ud : Userdata) (x : ℤ) (a' : Account) : Prop :=
  (x = dbmsErrExists ∧ a' = a ∧ (calm → a.record ≠ none)) ∨
    (x = dbmsSuccess ∧ a.record = none ∧ a' = new ud) ∨
    (x = dbmsErrAny ∧ (a' = a ∨ (a.record = none ∧ a' = new ud) ∨
      (a.record = none ∧ a' = empty)) ∧
      (calm → a' = a ∧ a.record = none))

/-- Closing an account. -/
def Closes (a : Account) (x : ℤ) (a' : Account) : Prop :=
  (0 ≤ x ∧ a' = empty) ∨ (x < 0 ∧ a'.Part a ∧ (calm → a' = a ∧ a.record = none))

end Account

/-- What a library call on entries of `u` answers, and what it makes of the account.  A
call that only looks may be for any user. -/
def AccountCall (calm : Prop) (u : Bytes) (a : Account) :
    (c : DbCall) → c.Ans → Account → Prop
  | .userExists v, x, a' =>
      a' = a ∧ (calm → v = u → ((show ℤ from x) = 1 ↔ a.record ≠ none))
  | .ioOpUsrEnt e .read, x, a' => a' = a ∧ ∀ j, e = ⟨u, .user j⟩ → a.Reads calm u j x
  | .ioOpUsrEnt e .modify, x, a' => ∃ ud, e = ⟨u, .user ud⟩ ∧ a.Rewrites calm ud x a'
  | .ioOpUsrEnt e .create, x, a' => ∃ m, e = ⟨u, .msg m⟩ ∧ a.Stores calm m x a'
  | .ioOpUsrEnt e .delete, x, a' => ∃ m, e = ⟨u, .msg m⟩ ∧ a.Drops calm m x a'
  | .ioOpUsrEnt _ .overwrite, _, a' => a' = a
  | .getPendMsg e, x, a' => a' = a ∧ ∃ m, e = ⟨u, .msg m⟩ ∧ a.Finds calm u m x
  | .creatUsrTbl e, x, a' => ∃ ud, e = ⟨u, .user ud⟩ ∧ a.Opens calm ud x a'
  | .delUsrTbl v, x, a' => v = u ∧ a.Closes calm x a'

/-! ## Kept accounts -/

/-- What stands in the place of a file with contents `c`; where there is none, an empty
file may have been left behind. -/
def Filed (calm : Prop) (n : Option Node) : Option Bytes → Prop
  | some c => n = some (.file c)
  | none => n = none ∨ (¬ calm ∧ n = some (.file []))

/-- The location of the table of `u`. -/
def FS.table (fs : FS) (u : Bytes) : Location := lexical fs.cwd (userTablePath u)

/-- The file system keeps the account of `u`. -/
structure FS.Keeps (calm : Prop) (fs : FS) (u : Bytes) (a : Account) : Prop where
  schema : Schema fs
  record : Filed calm (fs.get (fs.table u ++ [userdataEntry]))
    (a.record.map fun ud => Entry.image ⟨u, .user ud⟩)
  pending : ∀ id : UInt32, Filed calm (fs.get (msgFile (fs.table u) id.toNat))
    ((a.pending id).map fun m => Entry.image ⟨u, .msg m⟩)
  own : ∀ id m, a.pending id = some m →
    m.id = id ∧ FitsBuf maxStrSize m.sender ∧ FitsBuf maxMsgSize m.content
  complete : calm → a.record ≠ none → fs.get (fs.table u ++ [pendMsgsTable]) = some .dir
  absent : calm → a.record = none → fs.get (fs.table u) = none
  neat : a.stray = false → ∀ c n, fs.get (fs.table u ++ [pendMsgsTable] ++ [c]) = some n →
    ∃ id : UInt32, c = decimal id.toNat

section Kept

variable {calm : Prop} {fs fs' : FS} {u : Bytes} {a : Account}

theorem table_eq (fs : FS) (hu : slash ∉ u) :
    fs.table u = fs.cwd ++ [dbDir] ++ [u ++ tableSuffix] := by
  rw [FS.table, lexical_noSlash _ hu, List.append_assoc]
  rfl

/-! ### The account in a fresh database -/

/-- In an empty database nothing is kept for anybody. -/
theorem FS.Fresh.keeps (h : fs.Fresh) (hu : slash ∉ u) : fs.Keeps calm u .empty := by
  have htable : fs.get (fs.table u) = none := by
    rw [table_eq fs hu]
    exact h.empty _
  have hpend := h.tree.none_below htable pendMsgsTable
  refine ⟨h.schema, Or.inl (h.tree.none_below htable _),
    fun id => Or.inl (h.noMessage _ _), ?_, ?_,
    fun _ _ => htable, ?_⟩
  · intro id m hm
    exact absurd hm (by simp [Account.empty])
  · intro _ hrec
    exact absurd rfl hrec
  · intro _ c n hn
    rw [h.tree.none_below hpend] at hn
    exact absurd hn (by simp)

/-- Ids are short. -/
theorem length_decimal_id (id : UInt32) : (decimal id.toNat).length ≤ nameMax := by
  have hlen := length_decimal_le id
  unfold msgIdMaxStrSize at hlen
  unfold nameMax
  omega

/-- The path of a table leads to its place when the directories above are there. -/
theorem locate_table (hu : slash ∉ u) (hroot : fs.get fs.cwd = some .dir)
    (hdb : fs.get (fs.cwd ++ [dbDir]) = some .dir) (hlen : (u ++ tableSuffix).length ≤ nameMax) :
    fs.locate (userTablePath u) = .ok (fs.table u) := by
  have henter : fs.enter fs.cwd dbDir = .ok (fs.cwd ++ [dbDir]) :=
    FS.enter_eq_ok.mpr ⟨hroot, by decide, (plain_dbDir.step _).symm⟩
  rw [userTablePath, FS.locate_append_eq_ok plain_dbDir.notEmpty (plain_append_tableSuffix hu),
    table_eq fs hu]
  refine ⟨fs.cwd ++ [dbDir], ?_, hdb, hlen, rfl⟩
  rw [FS.locate_of_ne _ plain_dbDir.notEmpty, FS.components_plain plain_dbDir.noSlash,
    List.foldlM_cons,
    henter]
  rfl

/-! ### The place of the table -/

/-- The path of a table that is there leads to it, whatever happens below it. -/
theorem FS.Tree.steady_table (h : fs.Tree) (hu : slash ∉ u)
    (hdir : fs.get (fs.table u) = some .dir) :
    fs.Steady (userTablePath u) (fs.table u) := by
  rw [table_eq fs hu] at hdir ⊢
  have hdb := h.parent _ _ _ hdir
  have hroot := h.parent _ _ _ hdb
  intro fs₁ hcwd hframe
  have hstay : ∀ q, q.length < (fs.cwd ++ [dbDir] ++ [u ++ tableSuffix]).length →
      fs₁.get q = fs.get q := by
    intro q hlt
    apply (hframe q).resolve_right
    rintro ⟨c, names, rfl⟩
    simp at hlt
  rw [← hcwd, ← table_eq fs₁ hu]
  apply locate_table hu
  · rw [hcwd, hstay _ (by simp), hroot]
  · rw [hcwd, hstay _ (by simp), hdb]
  · exact (h.plain _ _ _ hdir).2

theorem FS.Tree.dirAt_table (h : fs.Tree) (hu : slash ∉ u)
    (hdir : fs.get (fs.table u) = some .dir) :
    fs.DirAt (userTablePath u) (fs.table u) :=
  ⟨(h.steady_table hu hdir).locate, hdir⟩

/-- Below a table that is not there is nothing. -/
theorem FS.Tree.dir_of_file (h : fs.Tree) {L : Location} {c : Name}
    (hne : fs.get (L ++ [c]) ≠ none) :
    fs.get L = some .dir := by
  obtain ⟨n, hn⟩ := Option.ne_none_iff_exists'.mp hne
  exact h.parent _ _ _ hn

/-! ### Contents of files -/

theorem Filed.content {n : Option Node} {c : Option Bytes} (h : Filed calm n c) :
    ∀ bs, n = some (.file bs) → bs = c.getD [] := by
  intro bs hbs
  cases c with
  | none =>
      rcases h with hnone | ⟨-, hempty⟩
      · rw [hnone] at hbs
        exact absurd hbs (by simp)
      · rw [hempty] at hbs
        exact (Node.file.inj (Option.some.inj hbs)).symm
  | some c' =>
      rw [show n = some (.file c') from h] at hbs
      exact (Node.file.inj (Option.some.inj hbs)).symm

/-- What is read at the place of a file. -/
theorem Filed.content_eq {path : Bytes} {q : Location} {c : Option Bytes}
    (h : Filed calm (fs.get q) c) (hloc : ∀ p, fs.locate path = .ok p → p = q)
    (hfound : ∀ bs, fs.get q = some (.file bs) → fs.locate path = .ok q) :
    fs.content path = c.getD [] := by
  by_cases hne : fs.content path = []
  · rw [hne]
    cases c with
    | none => rfl
    | some c' =>
        have hfile : fs.FileAt path q c' := ⟨hfound c' h, h⟩
        rw [← hne, hfile.content]
        rfl
  · obtain ⟨p, hp, hget⟩ := FS.exists_fileAt hne
    obtain rfl := hloc p hp
    exact h.content _ hget

/-! ### The places of the entries -/

/-- The path of the record leads to its place. -/
theorem locate_record (htree : fs.Tree) (hu : slash ∉ u) :
    (∀ p, fs.locate (userdataPath u) = .ok p → p = fs.table u ++ [userdataEntry]) ∧
      (fs.get (fs.table u ++ [userdataEntry]) ≠ none →
        fs.locate (userdataPath u) = .ok (fs.table u ++ [userdataEntry])) := by
  constructor
  · intro p hp
    obtain ⟨L, hL, rfl⟩ := locate_userdataPath.mp hp
    rw [FS.table, ← locate_eq_lexical hL.1]
  · intro hne
    exact locate_userdataPath.mpr ⟨_, htree.dirAt_table hu (htree.dir_of_file hne), rfl⟩

/-- The path of a message leads to its place. -/
theorem locate_message (htree : fs.Tree) (hu : slash ∉ u) (id : UInt32) :
    (∀ p, fs.locate (pendMsgPath u id) = .ok p → p = msgFile (fs.table u) id.toNat) ∧
      (fs.get (fs.table u ++ [pendMsgsTable]) = some .dir →
        fs.locate (pendMsgPath u id) = .ok (msgFile (fs.table u) id.toNat)) := by
  constructor
  · intro p hp
    obtain ⟨L, hL, -, -, rfl⟩ := locate_pendMsgPath.mp hp
    rw [FS.table, ← locate_eq_lexical hL.1]
  · intro hdir
    have htable := htree.dirAt_table hu (htree.parent _ _ _ hdir)
    exact locate_pendMsgPath.mpr ⟨_, htable, hdir, length_decimal_id id, rfl⟩

namespace FS.Keeps

/-- The bytes of the record. -/
theorem content_record (h : fs.Keeps calm u a) (hu : slash ∉ u) :
    fs.content (userdataPath u) =
      (a.record.map fun ud => Entry.image ⟨u, .user ud⟩).getD [] := by
  obtain ⟨hloc, hfound⟩ := locate_record h.schema.tree hu
  exact h.record.content_eq hloc fun bs hbs => hfound (by rw [hbs]; simp)

/-- The bytes of a message. -/
theorem content_pending (h : fs.Keeps calm u a) (hu : slash ∉ u) (id : UInt32) :
    fs.content (pendMsgPath u id) =
      ((a.pending id).map fun m => Entry.image ⟨u, .msg m⟩).getD [] := by
  obtain ⟨hloc, hfound⟩ := locate_message h.schema.tree hu id
  refine (h.pending id).content_eq hloc fun bs hbs => hfound ?_
  refine h.schema.tree.parent _ (decimal id.toNat) (.file bs) ?_
  rw [← hbs, msgFile, List.append_assoc]
  rfl

end FS.Keeps

end Kept
