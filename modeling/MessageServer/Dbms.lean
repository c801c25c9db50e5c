/-
# The DBMS library (`dbms.c`, `dbmsUtil.c` and the transfer loops of `util.c`)

Every function of the library as a program over system calls.  A user `u` owns
the directory `users/u-table` with the file `userdata.entry` and the directory
`pend_msgs-table`, which holds one file for each pending message, named by its id.

A function that writes through its `entry` argument returns the entry; `errno` is
carried by the answers, and by `removeRecursive`, which looks at it after a whole
walk.  Of the texts on stderr only the one that is formatted into an array is a step
(`notExistText` of `removeRecursive`), as it need not fit; the others are constants.
Where the source recurses on directories, `depth` bounds the recursion; the callers
pass a bound that no directory chain of the file system reaches.
-/
import MessageServer.FileSystem
import MessageServer.Entry

/-- Programs over system calls. -/
abbrev Sys := Prog sysE

/-! ## The calls as programs -/

abbrev sysOpendir (path : Bytes) : Sys (Except Errno (List Dirent)) :=
  @Prog.perform sysE (SysOp.opendir path)

abbrev sysClosedir : Sys Unit := @Prog.perform sysE SysOp.closedir

abbrev sysPerror (text : Bytes) : Sys Unit := @Prog.perform sysE (SysOp.perror text)

abbrev sysMkdir (path : Bytes) : Sys (Except Errno Unit) :=
  @Prog.perform sysE (SysOp.mkdir path)

abbrev sysOpen (path : Bytes) (flags : FS.OpenFlags) : Sys (Except Errno Location) :=
  @Prog.perform sysE (SysOp.openFile path flags)

abbrev sysRead (fd : Location) (offset count : ℕ) : Sys (Except Errno Bytes) :=
  @Prog.perform sysE (SysOp.read fd offset count)

abbrev sysWrite (fd : Location) (offset : ℕ) (data : Bytes) : Sys (Except Errno ℕ) :=
  @Prog.perform sysE (SysOp.write fd offset data)

abbrev sysClose (fd : Location) : Sys Unit := @Prog.perform sysE (SysOp.close fd)

abbrev sysRemove (path : Bytes) : Sys (Except Errno Unit) :=
  @Prog.perform sysE (SysOp.remove path)

/-- The modes of `util.h`. -/
inductive Mode
  | read
  | create
  | overwrite
  | modify
  | delete
  deriving DecidableEq, Repr

/-! ## Transfer loops -/

/-- The loop of `write_bytes`: `buffer` is left to write, `total` is written.  Every
`write` moves at least one byte, so the length of the buffer bounds the rounds. -/
def writeLoop (fd : Location) : ℕ → Bytes → ℕ → Sys ℤ
  | 0, _, total => return total
  | fuel + 1, buffer, total => do
      match ← sysWrite fd total buffer with
      | .error _ => return genErrAny
      | .ok n =>
          if n < buffer.length then writeLoop fd fuel (buffer.drop n) (total + n)
          else return (total + n : ℕ)

/-- `write_bytes` -/
def writeBytes (fd : Location) (buffer : Bytes) : Sys ℤ :=
  if buffer = [] then return genErrInvArgs else writeLoop fd buffer.length buffer 0

/-- The loop of `read_bytes`: `left` bytes are missing, `got` is read.  It returns
the result together with the bytes that reached the buffer. -/
def readLoop (fd : Location) : ℕ → ℕ → Bytes → Sys (ℤ × Bytes)
  | 0, _, got => return (got.length, got)
  | fuel + 1, left, got => do
      match ← sysRead fd got.length left with
      | .error _ => return (genErrAny, got)
      | .ok bs =>
          if bs.length < left ∧ bs ≠ [] then
            readLoop fd fuel (left - bs.length) (got ++ bs)
          else return ((got ++ bs).length, got ++ bs)

/-- `read_bytes` -/
def readBytes (fd : Location) (len : ℕ) : Sys (ℤ × Bytes) :=
  if len = 0 then return (genErrInvArgs, []) else readLoop fd len len []

/-! ## `dbmsUtil.c` -/

/-- `open_file`; the callers have excluded the modes of its `default` branch. -/
def openFile (path : Bytes) (mode : Mode) : Sys (Except Errno Location) :=
  match mode with
  | .read => sysOpen path .rdonly
  | .create => sysOpen path .wronlyCreatExcl
  | .modify => sysOpen path .wronlyTrunc
  | _ => return .error .eio

/-- `open_directory`: the result and the directory. -/
def openDirectory (path : Bytes) (mode : Mode) : Sys (ℤ × List Dirent) :=
  if mode ≠ .create ∧ mode ≠ .read ∧ mode ≠ .overwrite then return (genErrInvArgs, [])
  else do
    match ← sysOpendir path with
    | .ok directory =>
        return (if mode = .create then dbmsErrExists else dbmsSuccess, directory)
    | .error e =>
        if e = .enoent then
          if mode = .create ∨ mode = .overwrite then do
            match ← sysMkdir path with
            | .error _ => return (dbmsErrAny, [])
            | .ok _ => do
                match ← sysOpendir path with
                | .error _ => return (dbmsErrAny, [])
                | .ok directory => return (dbmsSuccess, directory)
          else return (dbmsErrNotExists, [])
        else return (dbmsErrAny, [])

/-- `remove`, with `errno` afterwards. -/
def removeFile (path : Bytes) (errno : Option Errno) : Sys (ℤ × Option Errno) := do
  match ← sysRemove path with
  | .ok _ => return (0, errno)
  | .error e => return (genErrAny, some e)

/-- `"%s does not exist"`, the message for a path that is missing. -/
def notExistText (path : Bytes) : Bytes := path ++ ascii " does not exist"

/-- The message is printed, for every path; it is here because it need not fit its array. -/
def reportMissing (path : Bytes) (errno : Option Errno) : Sys (ℤ × Option Errno) := do
  sysPerror (notExistText path)
  return (dbmsErrNotExists, errno)

/-- `rm(entry_path)`: a directory is removed recursively, a file with `remove`. -/
def removeEntry (rmDir : Bytes → Sys (ℤ × Option Errno)) (path : Bytes) (d : Dirent)
    (errno : Option Errno) : Sys (ℤ × Option Errno) :=
  if d.isDir then rmDir (path ++ slash :: d.name)
  else removeFile (path ++ slash :: d.name) errno

/-- The loop of `remove_recursive` over a directory's entries. -/
def removeEntries (rmDir : Bytes → Sys (ℤ × Option Errno)) (path : Bytes) :
    List Dirent → Option Errno → Sys (ℤ × Option Errno)
  | [], errno => return (0, errno)
  | d :: ds, errno =>
      if d.name = dot ∨ d.name = dotdot then removeEntries rmDir path ds errno
      else do
        let r ← removeEntry rmDir path d errno
        if r.1 < 0 then return r else removeEntries rmDir path ds r.2

/-- `remove_recursive`, with `errno` afterwards. -/
def removeRecursive : ℕ → Bytes → Sys (ℤ × Option Errno)
  | 0, _ => return (dbmsErrAny, none)
  | depth + 1, path => do
      match ← sysOpendir path with
      | .ok directory => do
          let r ← removeEntries (removeRecursive depth) path directory none
          let _ ← sysClosedir
          if r.1 < 0 then return (dbmsErrAny, r.2)
          else if r.2 = some .enoent then reportMissing path r.2
          else removeFile path r.2
      | .error e =>
          if e = .enoent then reportMissing path (some e)
          -- not a directory, but it exists
          else removeFile path (some e)

/-- Bytes read over the start of the caller's variable. -/
def Entry.overlay (got : Bytes) (entry : Entry) : Entry :=
  if got = [] then entry else Entry.ofImage (got ++ entry.image.drop got.length)

/-- `read_entry` -/
def readEntry (fd : Location) (entry : Entry) : Sys (ℤ × Entry) := do
  let r ← readBytes fd sizeofEntry
  if r.1 = -1 then do
    let _ ← sysClose fd
    return (dbmsErrAny, entry.overlay r.2)
  else if r.1 = 0 then do
    let _ ← sysClose fd
    return (dbmsErrAny, entry.overlay r.2)
  else return (dbmsSuccess, entry.overlay r.2)

/-- `write_entry` -/
def writeEntry (fd : Location) (entry : Entry) : Sys ℤ := do
  let n ← writeBytes fd entry.image
  if n = -1 then do
    let _ ← sysClose fd
    return dbmsErrAny
  else return dbmsSuccess

/-! ## The paths of `dbms.c` -/

/-- `"%s/%s-table"` -/
def userTablePath (username : Bytes) : Bytes := dbDir ++ slash :: (username ++ tableSuffix)

/-- `"%s/%s-table/%s"` with `USERDATA_ENTRY` -/
def userdataPath (username : Bytes) : Bytes := userTablePath username ++ slash :: userdataEntry

/-- `"%s/%s-table/%s"` with `PEND_MSGS_TABLE` -/
def pendTablePath (username : Bytes) : Bytes := userTablePath username ++ slash :: pendMsgsTable

/-- `"%s/%s-table/%s/%u"` -/
def pendMsgPath (username : Bytes) (id : UInt32) : Bytes :=
  pendTablePath username ++ slash :: decimal id.toNat

/-- The path that `db_io_op_usr_ent` sets up for an entry. -/
def entryPath (entry : Entry) : Bytes :=
  match entry.data with
  | .user _ => userdataPath entry.username
  | _ => pendMsgPath entry.username entry.msg.id

/-! ## `dbms.c` -/

/-- `db_init_db` -/
def dbInitDb : Sys ℤ := do
  let r ← openDirectory dbDir .overwrite
  if r.1 < 0 then return dbmsErrAny
  else do
    let _ ← sysClosedir
    return dbmsSuccess

/-- `db_user_exists` -/
def dbUserExists (username : Bytes) : Sys ℤ := do
  let r ← openDirectory (userTablePath username) .read
  if r.1 = dbmsErrNotExists then return 0
  else if r.1 = dbmsSuccess then do
    let _ ← sysClosedir
    return 1
  else return r.1

/-- `((mode == READ) ? read_entry : write_entry)(entry_fd, entry)` -/
def transferEntry (fd : Location) (entry : Entry) (mode : Mode) : Sys (ℤ × Entry) :=
  if mode = .read then readEntry fd entry
  else do
    let n ← writeEntry fd entry
    return (n, entry)

/-- `db_io_op_usr_ent` -/
def dbIoOpUsrEnt (depth : ℕ) (entry : Entry) (mode : Mode) : Sys (ℤ × Entry) :=
  if entry.data.type ≠ entTypeUd ∧ entry.data.type ≠ entTypePMsg then
    return (genErrInvArgs, entry)
  else if mode = .overwrite then return (genErrInvArgs, entry)
  else if mode = .delete then do
    let r ← removeRecursive depth (entryPath entry)
    return (if r.1 < 0 then r.1 else dbmsSuccess, entry)
  else do
    match ← openFile (entryPath entry) mode with
    | .error e => return (if e = .enoent then dbmsErrNotExists else dbmsErrAny, entry)
    | .ok fd => do
        let r ← transferEntry fd entry mode
        let _ ← sysClose fd
        return r

/-- The first entry of a directory listing that is not `.` or `..`. -/
def firstEntry (directory : List Dirent) : Option Dirent :=
  directory.find? (fun d => d.name ≠ dot ∧ d.name ≠ dotdot)

/-- `db_get_pend_msg` -/
def dbGetPendMsg (depth : ℕ) (entry : Entry) : Sys (ℤ × Entry) :=
  if entry.data.type ≠ entTypePMsg then return (genErrInvArgs, entry)
  else do
    let r ← openDirectory (pendTablePath entry.username) .read
    if r.1 < 0 then return (dbmsErrAny, entry)
    else
      match firstEntry r.2 with
      | none => do
          let _ ← sysClosedir
          return (dbmsErrNotExists, entry)
      | some d =>
          match strToNum d.name .uint with
          | .error _ => return (dbmsErrAny, entry)
          | .ok id => do
              -- the result of the read is not looked at
              let e ← dbIoOpUsrEnt depth
                  (entry.mapMsg fun m => { m with id := id.toNat.toUInt32 })
                .read
              let _ ← sysClosedir
              return (dbmsSuccess, e.2)

/-- `db_creat_usr_tbl` -/
def dbCreatUsrTbl (depth : ℕ) (entry : Entry) : Sys ℤ := do
  let r ← openDirectory (userTablePath entry.username) .create
  if r.1 = dbmsErrExists then do
    let _ ← sysClosedir
    return dbmsErrExists
  else if r.1 < 0 then return dbmsErrAny
  else do
    let w ← dbIoOpUsrEnt depth entry .create
    if w.1 < 0 then return dbmsErrAny
    else do
      let p ← openDirectory (pendTablePath entry.username) .create
      if p.1 < 0 then return dbmsErrAny
      else do
        let _ ← sysClosedir
        return dbmsSuccess

/-- `db_del_usr_tbl` -/
def dbDelUsrTbl (depth : ℕ) (username : Bytes) : Sys ℤ := do
  let r ← removeRecursive depth (userTablePath username)
  return r.1
