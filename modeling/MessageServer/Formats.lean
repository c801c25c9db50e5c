/-
# Formatted strings and their arrays

Every path, every error text and every number string is formatted with `sprintf` into an
array whose size the code computes or fixes.

* `FormatSite` lists these places, each with the values that are formatted there,
  `FormatSite.formatting` gives the declared size and the format as the source has them;
* `sprintf_entryPathFormat` and its siblings: what is formatted is the path that the calls get;
* `formatting_fits_iff`: the array of `db_user_exists` is one byte too short for every
  name, the one for the message that a path does not exist is too short for long paths, and all
  others are large enough.
-/
import MessageServer.Dbms

/-! ## Formats -/

/-- A piece of a format, with its argument. -/
inductive Piece
  | lit (s : Bytes)
  /-- `%s` -/
  | str (s : Bytes)
  /-- `%u` -/
  | uint (n : UInt32)

/-- What a piece prints. -/
def Piece.out : Piece → Bytes
  | .lit s => s
  | .str s => s
  | .uint n => decimal n.toNat

/-- What `sprintf` writes, without the NUL. -/
def sprintf (format : List Piece) : Bytes := format.flatMap Piece.out

/-- An array and what is formatted into it. -/
structure Formatting where
  size : ℕ
  format : List Piece

/-- The bytes that `sprintf` writes, with the NUL. -/
def Formatting.written (f : Formatting) : ℕ := (sprintf f.format).length + 1

/-- What is formatted, with its NUL, fits the array. -/
def Formatting.Fits (f : Formatting) : Prop := f.written ≤ f.size

instance Formatting.decidableFits (f : Formatting) : Decidable f.Fits :=
  inferInstanceAs (Decidable (_ ≤ _))

/-! ## The formats of the code -/

/-- `"%s/%s-table"` -/
def userTableFormat (username : Bytes) : List Piece :=
  [.str dbDir, .lit [slash], .str username, .lit tableSuffix]

/-- `"%s/%s-table/%s"` -/
def tableEntryFormat (username name : Bytes) : List Piece :=
  [.str dbDir, .lit [slash], .str username, .lit tableSuffix, .lit [slash], .str name]

/-- `"%s/%s-table/%s/%u"` -/
def pendMsgFormat (username : Bytes) (id : UInt32) : List Piece :=
  [.str dbDir, .lit [slash], .str username, .lit tableSuffix, .lit [slash], .str pendMsgsTable,
    .lit [slash], .uint id]

/-- `"%s/%s"` -/
def joinFormat (path name : Bytes) : List Piece := [.str path, .lit [slash], .str name]

/-- The format of `entry_path` in `db_io_op_usr_ent`. -/
def entryPathFormat (type : UInt8) (username : Bytes) (id : UInt32) : List Piece :=
  if type = entTypeUd then tableEntryFormat username userdataEntry else pendMsgFormat username id

/-- The size of `entry_path` in `db_io_op_usr_ent`. -/
def entryLen (type : UInt8) (username : Bytes) : ℕ :=
  dbDir.length + username.length + 9 +
    if type = entTypeUd then userdataEntry.length else pendMsgsTable.length + 1 + msgIdMaxStrSize

/-- The calls of `sprintf` (and, in `str_to_num`, of `strcpy`), by function and array. -/
inductive FormatSite
  /-- `table_path` of `db_get_pend_msg` -/
  | getPendMsg (username : Bytes)
  /-- `user_path` of `db_user_exists` -/
  | userExists (username : Bytes)
  /-- `entry_path` of `db_io_op_usr_ent` -/
  | entryPath (type : UInt8) (username : Bytes) (id : UInt32)
  /-- `error` of `db_io_op_usr_ent`, on `ENOENT` -/
  | entryNotExists (type : UInt8) (username : Bytes) (id : UInt32)
  /-- `error` of `db_io_op_usr_ent`, on other errors -/
  | entryOpening (type : UInt8) (username : Bytes) (id : UInt32)
  /-- `user_table_path` of `db_creat_usr_tbl` -/
  | creatUserTable (username : Bytes)
  /-- `ud_entry_path` of `db_creat_usr_tbl` -/
  | creatUdEntry (username : Bytes)
  /-- `p_msg_table_path` of `db_creat_usr_tbl` -/
  | creatPMsgTable (username : Bytes)
  /-- `table_path` of `db_del_usr_tbl` -/
  | delTable (username : Bytes)
  /-- `error` of `open_directory` -/
  | openDirectory (path : Bytes)
  /-- `entry_path` of `remove_recursive` -/
  | rmEntry (path name : Bytes)
  /-- `error` of `remove_recursive` -/
  | rmError (path : Bytes)
  /-- `msg_id_str` of `aux_send_first_ack` -/
  | firstAckId (id : UInt32)
  /-- `msg_id_str` of `clt_send_message` -/
  | sendMessageId (id : UInt32)
  /-- `msg_id_str` of `clt_send_mess_ack` -/
  | sendMessAckId (id : UInt32)
  /-- `error` of `str_to_num` -/
  | strToNum (float : Bool)

/-- The size of the array and the format. -/
def FormatSite.formatting : FormatSite → Formatting
  | .getPendMsg u =>
      ⟨dbDir.length + u.length + pendMsgsTable.length + 9, tableEntryFormat u pendMsgsTable⟩
  | .userExists u => ⟨dbDir.length + u.length + 7, userTableFormat u⟩
  | .entryPath type u id => ⟨entryLen type u, entryPathFormat type u id⟩
  | .entryNotExists type u id =>
      ⟨maxStrSize, [.str (sprintf (entryPathFormat type u id)), .lit (ascii " doesn't exist")]⟩
  | .entryOpening type u id =>
      ⟨maxStrSize, [.lit (ascii "Error opening "), .str (sprintf (entryPathFormat type u id))]⟩
  | .creatUserTable u => ⟨dbDir.length + u.length + 8, userTableFormat u⟩
  | .creatUdEntry u =>
      ⟨(sprintf (userTableFormat u)).length + userdataEntry.length + 2,
        joinFormat (sprintf (userTableFormat u)) userdataEntry⟩
  | .creatPMsgTable u =>
      ⟨(sprintf (userTableFormat u)).length + pendMsgsTable.length + 2,
        joinFormat (sprintf (userTableFormat u)) pendMsgsTable⟩
  | .delTable u => ⟨dbDir.length + u.length + 8, userTableFormat u⟩
  | .openDirectory path =>
      ⟨maxStrSize, [.lit (ascii "Could not open "), .str path, .lit (ascii " directory")]⟩
  | .rmEntry path name => ⟨path.length + name.length + 2, joinFormat path name⟩
  | .rmError path => ⟨maxStrSize, [.str path, .lit (ascii " does not exist")]⟩
  | .firstAckId id => ⟨16, [.uint id]⟩
  | .sendMessageId id => ⟨16, [.uint id]⟩
  | .sendMessAckId id => ⟨16, [.uint id]⟩
  | .strToNum float => ⟨maxStrSize, [.lit (if float then ascii "strtof" else ascii "strtol")]⟩

/-! ## What is formatted -/

@[simp] theorem length_sprintf_nil : (sprintf []).length = 0 := rfl

@[simp] theorem length_sprintf_cons (p : Piece) (ps : List Piece) :
    (sprintf (p :: ps)).length = p.out.length + (sprintf ps).length := by
  unfold sprintf
  rw [List.flatMap_cons, List.length_append]

/-- The path of a table is formatted so. -/
theorem sprintf_userTableFormat (u : Bytes) : sprintf (userTableFormat u) = userTablePath u := by
  simp [sprintf, userTableFormat, Piece.out, userTablePath]

/-- The path of an entry is formatted so. -/
theorem sprintf_tableEntryFormat (u name : Bytes) :
    sprintf (tableEntryFormat u name) = userTablePath u ++ slash :: name := by
  simp [sprintf, tableEntryFormat, Piece.out, userTablePath]

/-- The path of a child is formatted so. -/
theorem sprintf_joinFormat (path name : Bytes) :
    sprintf (joinFormat path name) = path ++ slash :: name := by
  simp [sprintf, joinFormat, Piece.out]

/-- The path of a message is formatted so. -/
theorem sprintf_pendMsgFormat (u : Bytes) (id : UInt32) :
    sprintf (pendMsgFormat u id) = pendMsgPath u id := by
  simp [sprintf, pendMsgFormat, Piece.out, userTablePath, pendTablePath, pendMsgPath]

/-- The message of `remove_recursive` is the text that it prints. -/
theorem sprintf_rmError (path : Bytes) :
    sprintf (FormatSite.rmError path).formatting.format = notExistText path := by
  simp [FormatSite.formatting, sprintf, Piece.out, notExistText]

/-- `entry_path` is the path that `db_io_op_usr_ent` removes or opens. -/
theorem sprintf_entryPathFormat (entry : Entry)
    (htype : ∀ type mem, entry.data ≠ .other type mem) :
    sprintf (entryPathFormat entry.data.type entry.username entry.msg.id) = entryPath entry := by
  unfold entryPathFormat entryPath
  cases hdata : entry.data with
  | user ud =>
      rw [if_pos (show (EntryData.user ud).type = entTypeUd from rfl), sprintf_tableEntryFormat]
      rfl
  | msg m =>
      rw [if_neg (show ¬ (EntryData.msg m).type =
        entTypeUd from (by decide : ¬ entTypePMsg = entTypeUd)),
        sprintf_pendMsgFormat]
  | other type mem => exact absurd hdata (htype type mem)

/-! ## What fits -/

/-- The length of the path of a table. -/
theorem length_userTablePath (u : Bytes) : (userTablePath u).length = u.length + 12 := by
  have hdir : dbDir.length = 5 := rfl
  have hsuffix : tableSuffix.length = 6 := rfl
  unfold userTablePath
  rw [List.length_append, List.length_cons, List.length_append]
  omega

/-- What the callers pass: a name has at most 255 bytes, and `open_directory` gets the paths that
its callers format. -/
def FormatSite.InRange : FormatSite → Prop
  | .getPendMsg u => u.length ≤ 255
  | .userExists u => u.length ≤ 255
  | .entryPath _ u _ => u.length ≤ 255
  | .entryNotExists _ u _ => u.length ≤ 255
  | .entryOpening _ u _ => u.length ≤ 255
  | .creatUserTable u => u.length ≤ 255
  | .creatUdEntry u => u.length ≤ 255
  | .creatPMsgTable u => u.length ≤ 255
  | .delTable u => u.length ≤ 255
  | .openDirectory path =>
      path = dbDir ∨ ∃ u, u.length ≤ 255 ∧
        (path = userTablePath u ∨ path = pendTablePath u)
  | _ => True

/-- The places where the array is large enough. -/
def FormatSite.Roomy : FormatSite → Prop
  | .userExists _ => False
  | .rmError path => path.length ≤ 496
  | _ => True

section Fitting

variable {u : Bytes} {id : UInt32}

/-- The array of `db_user_exists` has no room for the NUL. -/
theorem not_fits_userExists : ¬ (FormatSite.userExists u).formatting.Fits := by
  have hsuffix : tableSuffix.length = 6 := rfl
  simp only [FormatSite.formatting, Formatting.Fits, Formatting.written, userTableFormat,
    length_sprintf_cons, length_sprintf_nil, Piece.out, List.length_singleton]
  omega

/-- The array of a table's path is large enough. -/
theorem fits_userTable : (sprintf (userTableFormat u)).length + 1 ≤ dbDir.length +
    u.length + 8 := by
  have hdir : dbDir.length = 5 := rfl
  rw [sprintf_userTableFormat, length_userTablePath]
  omega

/-- The array of a child's path is large enough. -/
theorem fits_join (path name : Bytes) :
    (sprintf (joinFormat path name)).length + 1 ≤ path.length + name.length + 2 := by
  rw [sprintf_joinFormat, List.length_append, List.length_cons]
  omega

/-- The size that `db_io_op_usr_ent` computes is enough for both types of entries. -/
theorem fits_entryPath (type : UInt8) (u : Bytes) (id : UInt32) :
    (sprintf (entryPathFormat type u id)).length + 1 ≤ entryLen type u := by
  have hdir : dbDir.length = 5 := rfl
  unfold entryPathFormat entryLen
  split
  · rw [sprintf_tableEntryFormat, List.length_append, List.length_cons, length_userTablePath]
    omega
  · have hid := length_decimal_le id
    rw [sprintf_pendMsgFormat, pendMsgPath, pendTablePath]
    simp only [List.length_append, List.length_cons, length_userTablePath]
    omega

/-- A path of an entry leaves room for an error text. -/
theorem length_entryPath_le (type : UInt8) (id : UInt32) (hu : u.length ≤ 255) :
    (sprintf (entryPathFormat type u id)).length ≤ 300 := by
  have hfits := fits_entryPath type u id
  have hdir : dbDir.length = 5 := rfl
  have hdata : userdataEntry.length = 14 := rfl
  have htable : pendMsgsTable.length = 15 := rfl
  have hlen : entryLen type u ≤ u.length + 45 := by
    unfold entryLen
    split
    · rw [hdir, hdata]
      omega
    · rw [hdir, htable, msgIdMaxStrSize]
      omega
  omega

/-- The array of an id is large enough. -/
theorem fits_id : (sprintf [.uint id]).length + 1 ≤ 16 := by
  have hid := length_decimal_le id
  unfold msgIdMaxStrSize at hid
  simp only [length_sprintf_cons, length_sprintf_nil, Piece.out]
  omega

/-- The message that a path does not exist fits its array for paths of at most 496 bytes. -/
theorem rmError_fits_iff (path : Bytes) :
    (FormatSite.rmError path).formatting.Fits ↔ path.length ≤ 496 := by
  have htext : (ascii " does not exist").length = 15 := rfl
  simp only [FormatSite.formatting, Formatting.Fits, Formatting.written, length_sprintf_cons,
    length_sprintf_nil, Piece.out, htext, maxStrSize]
  omega

/-- So the text fits its array. -/
theorem notExistText_fits_iff (path : Bytes) :
    (notExistText path).length < maxStrSize ↔ path.length ≤ 496 := by
  rw [← rmError_fits_iff, ← sprintf_rmError]
  rfl

/-- A path of `open_directory` leaves room for its error text. -/
theorem length_openDirectory_le {path : Bytes} (h : (FormatSite.openDirectory path).InRange) :
    path.length ≤ 300 := by
  have hdir : dbDir.length = 5 := rfl
  have htable : pendMsgsTable.length = 15 := rfl
  rcases h with rfl | ⟨u, hu, rfl | rfl⟩
  · omega
  · rw [length_userTablePath]
    omega
  · rw [pendTablePath, List.length_append, List.length_cons, length_userTablePath]
    omega

/-- **An array is large enough for what is formatted into it, except the one of
`db_user_exists` and, for long paths, the one for the message that a path does not exist.** -/
theorem formatting_fits_iff (s : FormatSite) (h : s.InRange) : s.formatting.Fits ↔ s.Roomy := by
  cases s with
  | getPendMsg u =>
      refine iff_of_true ?_ trivial
      -- the lengths of the fixed parts decide
      have hdir : dbDir.length = 5 := rfl
      show (sprintf (tableEntryFormat u pendMsgsTable)).length + 1 ≤
        dbDir.length + u.length + pendMsgsTable.length + 9
      rw [sprintf_tableEntryFormat, List.length_append, List.length_cons, length_userTablePath]
      omega
  | userExists u => exact iff_of_false not_fits_userExists id
  | entryPath type u id => exact iff_of_true (fits_entryPath type u id) trivial
  | entryNotExists type u id =>
      refine iff_of_true ?_ trivial
      have hlen := length_entryPath_le type id h
      have htext : (ascii " doesn't exist").length = 14 := rfl
      simp only [FormatSite.formatting, Formatting.Fits, Formatting.written, length_sprintf_cons,
        length_sprintf_nil, Piece.out, htext, maxStrSize]
      omega
  | entryOpening type u id =>
      refine iff_of_true ?_ trivial
      have hlen := length_entryPath_le type id h
      have htext : (ascii "Error opening ").length = 14 := rfl
      simp only [FormatSite.formatting, Formatting.Fits, Formatting.written, length_sprintf_cons,
        length_sprintf_nil, Piece.out, htext, maxStrSize]
      omega
  | creatUserTable u => exact iff_of_true fits_userTable trivial
  | creatUdEntry u => exact iff_of_true (fits_join _ _) trivial
  | creatPMsgTable u => exact iff_of_true (fits_join _ _) trivial
  | delTable u => exact iff_of_true fits_userTable trivial
  | openDirectory path =>
      refine iff_of_true ?_ trivial
      have hlen := length_openDirectory_le h
      have hbefore : (ascii "Could not open ").length = 15 := rfl
      have hafter : (ascii " directory").length = 10 := rfl
      simp only [FormatSite.formatting, Formatting.Fits, Formatting.written, length_sprintf_cons,
        length_sprintf_nil, Piece.out, hbefore, hafter, maxStrSize]
      omega
  | rmEntry path name => exact iff_of_true (fits_join path name) trivial
  | rmError path => exact rmError_fits_iff path
  | firstAckId id => exact iff_of_true fits_id trivial
  | sendMessageId id => exact iff_of_true fits_id trivial
  | sendMessAckId id => exact iff_of_true fits_id trivial
  | strToNum float =>
      refine iff_of_true ?_ trivial
      cases float <;> decide

end Fitting

/-- The condition at the check of the user `a`. -/
theorem formatting_fits_iff_a : (FormatSite.userExists (ascii "a")).formatting.Fits ↔
    (FormatSite.userExists (ascii "a")).Roomy :=
  formatting_fits_iff (.userExists (ascii "a")) (show (ascii "a").length ≤ 255 by decide)

/-- **The array of `db_user_exists` is one byte too short.** -/
theorem not_formatting_fits : ¬ ∀ s : FormatSite, s.InRange → s.formatting.Fits := by
  intro h
  have hshort : (ascii "a").length ≤ 255 := by decide
  exact not_fits_userExists (h (.userExists (ascii "a")) hshort)
