/-
# The file system under the server

The part of a POSIX file system that the DBMS library uses, without links:

* a location is the list of names from the root; `FS` maps locations to
  directories and files, and remembers the working directory of the server;
* `FS.locate` resolves a path string component by component (empty and `.`
  components stay, `..` goes up, every other component needs a directory to stand
  in and at most `NAME_MAX` bytes);
* `FS.opendir`, `FS.mkdir`, `FS.openFile`, `FS.readAt`, `FS.writeAt` and
  `FS.remove` are the calls, each with the errors that the state dictates;
* `SysOp` is the signature of these calls, and `sysStep` answers one call under a
  choice: any call may fail, a transfer may be short, and a directory may be listed
  in any order.
-/
import MessageServer.EffectProg
import MessageServer.Util
import Mathlib.Data.List.AList

/-! ## Names, locations and errors -/

/-- A name in a directory. -/
abbrev Name := Bytes

/-- A location: the names on the way from the root. -/
abbrev Location := List Name

/-- `.` -/
def dot : Name := [46]
/-- `..` -/
def dotdot : Name := [46, 46]

/-- `NAME_MAX` -/
def nameMax : ℕ := 255

/-- The values of `errno` that tell calls apart.  `eio` stands for every failure
that the state of the file system does not dictate. -/
inductive Errno
  | enoent
  | enotdir
  | eexist
  | eisdir
  | enotempty
  | enametoolong
  | einval
  | ebusy
  | eio
  deriving DecidableEq, Repr

/-- What a location holds. -/
inductive Node
  | dir
  | file (content : Bytes)
  deriving DecidableEq, Repr

/-- `d_type == DT_DIR` -/
def Node.isDir : Node → Bool
  | .dir => true
  | .file _ => false

/-- `struct dirent` -/
structure Dirent where
  name : Name
  isDir : Bool
  deriving DecidableEq, Repr

/-- A file system and the server's working directory in it. -/
structure FS where
  cwd : Location
  nodes : AList (fun _ : Location => Node)

namespace FS

/-- What a location holds, if anything. -/
def get (fs : FS) (p : Location) : Option Node := fs.nodes.lookup p

/-- Put a node at a location. -/
def put (fs : FS) (p : Location) (n : Node) : FS := { fs with nodes := fs.nodes.insert p n }

/-- Take the node at a location away. -/
def del (fs : FS) (p : Location) : FS := { fs with nodes := fs.nodes.erase p }

@[simp] theorem cwd_put (fs : FS) (p : Location) (n : Node) : (fs.put p n).cwd = fs.cwd := rfl

@[simp] theorem cwd_del (fs : FS) (p : Location) : (fs.del p).cwd = fs.cwd := rfl

@[simp] theorem get_put_self (fs : FS) (p : Location) (n : Node) : (fs.put p n).get p = some n :=
  AList.lookup_insert _

theorem get_put_of_ne (fs : FS) {p q : Location} (n : Node) (h : q ≠ p) :
    (fs.put p n).get q = fs.get q :=
  AList.lookup_insert_ne h

/-- The two cases in one. -/
theorem get_put (fs : FS) (p q : Location) (n : Node) :
    (fs.put p n).get q = if q = p then some n else fs.get q := by
  by_cases h : q = p
  · rw [if_pos h, h, get_put_self]
  · rw [if_neg h, get_put_of_ne fs n h]

/-- What is left after a removal. -/
theorem get_del (fs : FS) (p q : Location) :
    (fs.del p).get q = if q = p then none else fs.get q := by
  by_cases h : q = p
  · rw [if_pos h, h]
    exact AList.lookup_erase _ _
  · rw [if_neg h]
    exact AList.lookup_erase_ne h

/-! ## Resolving paths -/

/-- The components of a path string. -/
def components (path : Bytes) : List Name := path.splitOn slash

end FS

/-- The location a component leads to. -/
def Location.step (p : Location) (c : Name) : Location :=
  if c = [] ∨ c = dot then p else if c = dotdot then p.dropLast else p ++ [c]

namespace FS

/-- Look one component up in a location, which has to be a directory. -/
def enter (fs : FS) (p : Location) (c : Name) : Except Errno Location :=
  match fs.get p with
  | none => .error .enoent
  | some (.file _) => .error .enotdir
  | some .dir => if nameMax < c.length then .error .enametoolong else .ok (p.step c)

/-- The location that a path string names, seen from the working directory (for an absolute
path, from the root).  The location itself need not hold anything. -/
def locate (fs : FS) (path : Bytes) : Except Errno Location :=
  if path = [] then .error .enoent else (components path).foldlM fs.enter fs.cwd

/-- The last name of a path is `.`, whatever slashes follow. -/
def FinalDot (path : Bytes) : Prop := ((components path).filter (· ≠ [])).getLast? = some dot

instance (path : Bytes) : Decidable (FinalDot path) :=
  inferInstanceAs (Decidable (((components path).filter (· ≠ [])).getLast? = some dot))

/-! ## The calls -/

/-- The entries of a directory, without `.` and `..`. -/
def children (fs : FS) (p : Location) : List Dirent :=
  fs.nodes.entries.filterMap fun e =>
    if e.1 ≠ [] ∧ e.1.dropLast = p then some ⟨e.1.getLast?.getD [], e.2.isDir⟩ else none

/-- `opendir` and the `readdir` calls on its result. -/
def opendir (fs : FS) (path : Bytes) : Except Errno (List Dirent) :=
  match fs.locate path with
  | .error e => .error e
  | .ok p =>
      match fs.get p with
      | none => .error .enoent
      | some (.file _) => .error .enotdir
      | some .dir => .ok (⟨dot, true⟩ :: ⟨dotdot, true⟩ :: fs.children p)

/-- `mkdir` -/
def mkdir (fs : FS) (path : Bytes) : Except Errno FS :=
  match fs.locate path with
  | .error e => .error e
  | .ok p =>
      match fs.get p with
      | some _ => .error .eexist
      | none => .ok (fs.put p .dir)

/-- The flags `open_file` passes to `open`. -/
inductive OpenFlags
  | rdonly
  | wronlyCreatExcl
  | wronlyTrunc
  deriving DecidableEq, Repr

/-- `open`: the descriptor is the location of the opened file. -/
def openFile (fs : FS) (path : Bytes) (flags : OpenFlags) : Except Errno (Location × FS) :=
  match fs.locate path with
  | .error e => .error e
  | .ok p =>
      match flags, fs.get p with
      | .rdonly, none => .error .enoent
      | .rdonly, some _ => .ok (p, fs)
      | .wronlyCreatExcl, some _ => .error .eexist
      | .wronlyCreatExcl, none => .ok (p, fs.put p (.file []))
      | .wronlyTrunc, none => .error .enoent
      | .wronlyTrunc, some .dir => .error .eisdir
      | .wronlyTrunc, some (.file _) => .ok (p, fs.put p (.file []))

/-- `read` at the current offset of a descriptor. -/
def readAt (fs : FS) (fd : Location) (offset count : ℕ) : Except Errno Bytes :=
  match fs.get fd with
  | some .dir => .error .eisdir
  | some (.file content) => .ok ((content.drop offset).take count)
  | none => .ok []

/-- `write` at the current offset of a descriptor. -/
def writeAt (fs : FS) (fd : Location) (offset : ℕ) (data : Bytes) : FS :=
  match fs.get fd with
  | some (.file content) =>
      fs.put fd (.file (content.take offset ++ data ++ content.drop (offset + data.length)))
  | _ => fs

/-- `remove`: a file, or an empty directory. -/
def remove (fs : FS) (path : Bytes) : Except Errno FS :=
  match fs.locate path with
  | .error e => .error e
  | .ok p =>
      match fs.get p with
      | none => .error .enoent
      | some (.file _) => .ok (fs.del p)
      | some .dir =>
          -- `rmdir` takes neither the root nor a name for the directory itself
          if p = [] then .error .ebusy
          else if FinalDot path then .error .einval
          else if fs.children p = [] then .ok (fs.del p) else .error .enotempty

/-! ## Facts about resolution -/

/-- A name that a path format can append: one component that is looked up. -/
structure Plain (c : Name) : Prop where
  noSlash : slash ∉ c
  notEmpty : c ≠ []
  notDot : c ≠ dot
  notDotdot : c ≠ dotdot

/-- A plain name leads one level down. -/
theorem Plain.step {c : Name} (h : Plain c) (p : Location) : p.step c = p ++ [c] := by
  rw [Location.step, if_neg (by simp [h.notEmpty, h.notDot]), if_neg h.notDotdot]

/-- A name without `/` is its own only component. -/
theorem components_plain {c : Name} (h : slash ∉ c) : components c = [c] :=
  List.splitOn_eq_singleton h

/-- The components of a path, then those behind a `/`. -/
theorem components_append (path rest : Bytes) :
    components (path ++ slash :: rest) = components path ++ components rest :=
  List.splitOn_append_cons_self path rest

/-- A path that is not empty is walked from the working directory. -/
theorem locate_of_ne (fs : FS) {path : Bytes} (hpath : path ≠ []) :
    fs.locate path = (components path).foldlM fs.enter fs.cwd := if_neg hpath

/-- The empty path names nothing. -/
theorem ne_nil_of_locate {fs : FS} {path : Bytes} {p : Location} (h : fs.locate path = .ok p) :
    path ≠ [] := by
  rintro rfl
  cases h

/-- A path that resolves leads where its components do. -/
theorem foldlM_of_locate {fs : FS} {path : Bytes} {p : Location} (h : fs.locate path = .ok p) :
    (components path).foldlM fs.enter fs.cwd = .ok p := by
  rwa [locate_of_ne fs (ne_nil_of_locate h)] at h

/-- Resolving a longer path goes on from where the shorter one leads. -/
theorem locate_append (fs : FS) {path : Bytes} (hpath : path ≠ []) {c : Name} (hc : slash ∉ c) :
    fs.locate (path ++ slash :: c) = (fs.locate path) >>= fun p => fs.enter p c := by
  have hlong : path ++ slash :: c ≠ [] := List.append_ne_nil_of_left_ne_nil hpath _
  rw [locate_of_ne fs hlong, locate_of_ne fs hpath, components_append, List.foldlM_append,
    components_plain hc]
  simp

/-- A name leads on in a directory, when it is not too long. -/
theorem enter_eq_ok {fs : FS} {p q : Location} {c : Name} :
    fs.enter p c = .ok q ↔ fs.get p = some .dir ∧ c.length ≤ nameMax ∧ q = p.step c := by
  unfold enter
  split
  · rename_i h
    simp [h]
  · rename_i h
    simp [h]
  · rename_i h
    rw [h]
    split
    · rename_i hlen
      simp only [reduceCtorEq, true_and, false_iff, not_and]
      intro hle
      exact absurd hlen (by omega)
    · rename_i hlen
      simp only [Except.ok.injEq, true_and]
      constructor
      · rintro rfl
        exact ⟨by omega, rfl⟩
      · rintro ⟨-, rfl⟩
        rfl

/-- A path extended by a name resolves when the shorter path leads to a directory. -/
theorem locate_append_eq_ok {fs : FS} {path : Bytes} (hpath : path ≠ []) {c : Name} (hc : Plain c)
    {q : Location} : fs.locate (path ++ slash :: c) = .ok q ↔
      ∃ p, fs.locate path = .ok p ∧ fs.get p = some .dir ∧ c.length ≤ nameMax ∧
        q = p ++ [c] := by
  rw [locate_append fs hpath hc.noSlash]
  cases fs.locate path with
  | error e => simp [bind, Except.bind]
  | ok p => simp [bind, Except.bind, enter_eq_ok, hc.step]

/-- Only directories matter for resolution: it is the same in two file systems
with the same directories. -/
theorem foldlM_enter_congr {fs fs' : FS}
    (hdir : ∀ p, fs.get p = some .dir ↔ fs'.get p = some .dir) (cs : List Name)
    (p q : Location) :
    cs.foldlM fs.enter p = .ok q ↔ cs.foldlM fs'.enter p = .ok q := by
  induction cs generalizing p with
  | nil => exact Iff.rfl
  | cons c cs ih =>
      have hunfold : ∀ g : FS, (c :: cs).foldlM g.enter p = .ok q ↔
          ∃ r, g.enter p c = .ok r ∧ cs.foldlM g.enter r = .ok q := by
        intro g
        rw [List.foldlM_cons]
        cases g.enter p c with
        | error e => simp [bind, Except.bind]
        | ok r => simp [bind, Except.bind]
      rw [hunfold fs, hunfold fs']
      refine exists_congr fun r => and_congr ?_ (ih r)
      rw [enter_eq_ok, enter_eq_ok, hdir p]

/-- Paths depend on the directories only. -/
theorem locate_congr {fs fs' : FS} (hcwd : fs.cwd = fs'.cwd)
    (hdir : ∀ p, fs.get p = some .dir ↔ fs'.get p = some .dir) (path : Bytes) (q : Location) :
    fs.locate path = .ok q ↔ fs'.locate path = .ok q := by
  rw [locate, locate, hcwd]
  split
  · exact Iff.rfl
  · exact foldlM_enter_congr hdir _ _ _

/-- A directory entry is a node one level below. -/
theorem mem_children {fs : FS} {p : Location} {d : Dirent} :
    d ∈ fs.children p ↔ ∃ n, fs.get (p ++ [d.name]) = some n ∧ n.isDir = d.isDir := by
  have hlookup : ∀ q n, fs.get q = some n ↔
      (⟨q, n⟩ : Σ _ : Location, Node) ∈ fs.nodes.entries := by
    intro q n
    exact AList.mem_lookup_iff
  simp only [children, List.mem_filterMap, Option.ite_none_right_eq_some, Option.some.injEq]
  constructor
  · rintro ⟨⟨q, n⟩, hmem, ⟨hne, rfl⟩, rfl⟩
    refine ⟨n, ?_, rfl⟩
    rw [hlookup]
    have hq : q.dropLast ++ [q.getLast?.getD []] = q := by
      rw [List.getLast?_eq_some_getLast hne]
      exact List.dropLast_append_getLast hne
    rw [hq]
    exact hmem
  · rintro ⟨n, hget, hdir⟩
    refine ⟨⟨p ++ [d.name], n⟩, (hlookup _ _).mp hget, ⟨by simp, by simp⟩, ?_⟩
    simp [hdir]

/-- A directory lists every name once. -/
theorem children_nodup (fs : FS) (p : Location) : ((fs.children p).map Dirent.name).Nodup := by
  have hnames : (fs.children p).map Dirent.name = fs.nodes.keys.filterMap fun q =>
      if q ≠ [] ∧ q.dropLast = p then some (q.getLast?.getD []) else none := by
    unfold children AList.keys List.keys
    rw [List.map_filterMap, List.filterMap_map]
    congr 1
    funext e
    simp only [Function.comp]
    split <;> rfl
  rw [hnames]
  refine fs.nodes.keys_nodup.filterMap ?_
  intro q q' n hq hq'
  simp only [Option.mem_def, Option.ite_none_right_eq_some, Option.some.injEq] at hq hq'
  obtain ⟨⟨hne, hp⟩, hn⟩ := hq
  obtain ⟨⟨hne', hp'⟩, hn'⟩ := hq'
  rw [List.getLast?_eq_some_getLast hne, Option.getD_some] at hn
  rw [List.getLast?_eq_some_getLast hne', Option.getD_some] at hn'
  rw [← List.dropLast_append_getLast hne, ← List.dropLast_append_getLast hne', hp, hp', hn, hn']

end FS

/-! ## System calls as effects -/

/-- The system calls of the DBMS library.  A descriptor is the location it was
opened at, and the offset is the one the kernel keeps for it. -/
inductive SysOp
  | opendir (path : Bytes)
  | closedir
  | mkdir (path : Bytes)
  | openFile (path : Bytes) (flags : FS.OpenFlags)
  | read (fd : Location) (offset count : ℕ)
  | write (fd : Location) (offset : ℕ) (data : Bytes)
  | close (fd : Location)
  | remove (path : Bytes)
  /-- a text that was formatted into `error[MAX_STR_SIZE]` is printed -/
  | perror (text : Bytes)
  deriving DecidableEq

/-- What a call returns: a result, or -1 with `errno`. -/
def SysOp.Ans : SysOp → Type
  | .opendir _ => Except Errno (List Dirent)
  | .closedir => Unit
  | .mkdir _ => Except Errno Unit
  | .openFile _ _ => Except Errno Location
  | .read _ _ _ => Except Errno Bytes
  | .write _ _ _ => Except Errno ℕ
  | .close _ => Unit
  | .remove _ => Except Errno Unit
  | .perror _ => Unit

/-- The signature of system calls. -/
abbrev sysE : Effects := ⟨SysOp, SysOp.Ans⟩

/-- How the kernel resolves one call: whether it fails, how many bytes a transfer
moves at most, and in which order a directory is listed. -/
structure SysChoice where
  fail : Bool
  count : ℕ
  order : List Dirent → List Dirent
  order_perm : ∀ l, (order l).Perm l

/-- Nothing fails, transfers are whole, directories are listed as they are. -/
instance : Inhabited SysChoice := ⟨⟨false, 4096, id, fun _ => List.Perm.refl _⟩⟩

/-- How many of `n` bytes a transfer moves: at least one, at most all. -/
def SysChoice.chunk (c : SysChoice) (n : ℕ) : ℕ := min (c.count + 1) n

/-- The result of a call that may change the file system. -/
def FS.update {α : Type} (fs : FS) (r : Except Errno (α × FS)) : Except Errno α × FS :=
  match r with
  | .error e => (.error e, fs)
  | .ok (a, fs') => (.ok a, fs')

/-- The answer of a call that fails although the state of the file system allows
it; closing a descriptor always has its effect. -/
def SysOp.failed : (o : SysOp) → Option o.Ans
  | .opendir _ => some (Except.error Errno.eio)
  | .closedir => none
  | .mkdir _ => some (Except.error Errno.eio)
  | .openFile _ _ => some (Except.error Errno.eio)
  | .read _ _ _ => some (Except.error Errno.eio)
  | .write _ _ _ => some (Except.error Errno.eio)
  | .close _ => none
  | .remove _ => some (Except.error Errno.eio)
  | .perror _ => none

/-- A call as the state of the file system dictates it. -/
def sysApply (c : SysChoice) : (o : SysOp) → FS → o.Ans × FS
  | .opendir path, fs => ((fs.opendir path).map c.order, fs)
  | .closedir, fs => ((), fs)
  | .mkdir path, fs => fs.update ((fs.mkdir path).map fun fs' => ((), fs'))
  | .openFile path flags, fs => fs.update (fs.openFile path flags)
  | .read fd offset count, fs => (fs.readAt fd offset (c.chunk count), fs)
  | .write fd offset data, fs =>
      (.ok (c.chunk data.length), fs.writeAt fd offset (data.take (c.chunk data.length)))
  | .close _, fs => ((), fs)
  | .remove path, fs => fs.update ((fs.remove path).map fun fs' => ((), fs'))
  | .perror _, fs => ((), fs)

/-- One system call under a choice. -/
def sysStep (c : SysChoice) (o : SysOp) (fs : FS) : o.Ans × FS :=
  match c.fail, o.failed with
  | true, some x => (x, fs)
  | _, _ => sysApply c o fs

/-- A system call as a step: some choice of the kernel gives it. -/
def SysStep (fs : FS) (o : SysOp) (x : o.Ans) (fs' : FS) : Prop :=
  ∃ c, True ∧ sysStep c o fs = (x, fs')

/-- A system call that fails only where the state of the file system dictates it. -/
def SysStepOk (fs : FS) (o : SysOp) (x : o.Ans) (fs' : FS) : Prop :=
  ∃ c : SysChoice, c.fail = false ∧ sysStep c o fs = (x, fs')

/-- A call failed for a reason outside the state of the file system. -/
def Faulted (e : sysE.Event) : Prop := SysOp.failed e.1 = some e.2

/-- A trace in which no call failed for a reason outside the file system's state. -/
def NoFault (t : List sysE.Event) : Prop := ∀ e ∈ t, ¬ Faulted e

/-- A step that the state dictates is a step. -/
theorem SysStepOk.toSysStep {fs fs' : FS} {o : SysOp} {x : o.Ans}
    (h : SysStepOk fs o x fs') : SysStep fs o x fs' := by
  obtain ⟨c, -, h⟩ := h
  exact ⟨c, trivial, h⟩

/-! ## What a call can do -/

section Calls

variable {fs fs' : FS}

/-- A step either faulted, and changed nothing, or is one the state dictates. -/
theorem sysStep_cases {o : SysOp} {x : o.Ans} (h : SysStep fs o x fs') :
    (Faulted ⟨o, x⟩ ∧ fs' = fs) ∨ ∃ c, sysApply c o fs = (x, fs') := by
  obtain ⟨c, -, h⟩ := h
  unfold sysStep at h
  split at h
  · rename_i y _ hfailed
    rw [Prod.mk.injEq] at h
    obtain ⟨rfl, rfl⟩ := h
    exact Or.inl ⟨hfailed, rfl⟩
  · exact Or.inr ⟨c, h⟩

/-- The cases of `opendir`. -/
theorem SysStep.opendir {path : Bytes} {x : Except Errno (List Dirent)}
    (h : SysStep fs (.opendir path) x fs') :
    fs' = fs ∧ (x = .error .eio ∨ (∃ e, fs.opendir path = .error e ∧ x = .error e) ∨
      ∃ l l', fs.opendir path = .ok l ∧ l'.Perm l ∧ x = .ok l') := by
  rcases sysStep_cases h with ⟨hfault, rfl⟩ | ⟨c, hc⟩
  · exact ⟨rfl, Or.inl (Option.some.inj hfault).symm⟩
  · obtain ⟨rfl, rfl⟩ := Prod.mk.inj hc
    refine ⟨rfl, Or.inr ?_⟩
    cases hdir : fs.opendir path with
    | error e => exact Or.inl ⟨e, rfl, rfl⟩
    | ok l => exact Or.inr ⟨l, c.order l, rfl, c.order_perm l, rfl⟩

theorem SysStep.closedir {x : Unit} (h : SysStep fs .closedir x fs') : fs' = fs := by
  rcases sysStep_cases h with ⟨_, rfl⟩ | ⟨c, hc⟩
  · rfl
  · exact (Prod.mk.inj hc).2.symm

theorem SysStep.close {fd : Location} {x : Unit} (h : SysStep fs (.close fd) x fs') :
    fs' = fs := by
  rcases sysStep_cases h with ⟨_, rfl⟩ | ⟨c, hc⟩
  · rfl
  · exact (Prod.mk.inj hc).2.symm

/-- A printed text changes nothing. -/
theorem SysStep.perror {text : Bytes} {x : Unit} (h : SysStep fs (.perror text) x fs') :
    fs' = fs := by
  rcases sysStep_cases h with ⟨_, rfl⟩ | ⟨c, hc⟩
  · rfl
  · exact (Prod.mk.inj hc).2.symm

/-- The cases of `mkdir`. -/
theorem SysStep.mkdir {path : Bytes} {x : Except Errno Unit}
    (h : SysStep fs (.mkdir path) x fs') :
    (x = .error .eio ∧ fs' = fs) ∨
      (∃ e, fs.mkdir path = .error e ∧ x = .error e ∧ fs' = fs) ∨
      (fs.mkdir path = .ok fs' ∧ x = .ok ()) := by
  rcases sysStep_cases h with ⟨hfault, rfl⟩ | ⟨c, hc⟩
  · exact Or.inl ⟨(Option.some.inj hfault).symm, rfl⟩
  · change fs.update ((fs.mkdir path).map fun fs' => ((), fs')) = _ at hc
    cases hmk : fs.mkdir path with
    | error e =>
        rw [hmk] at hc
        obtain ⟨rfl, rfl⟩ := Prod.mk.inj hc
        exact Or.inr (Or.inl ⟨e, rfl, rfl, rfl⟩)
    | ok fs₁ =>
        rw [hmk] at hc
        obtain ⟨rfl, rfl⟩ := Prod.mk.inj hc
        exact Or.inr (Or.inr ⟨rfl, rfl⟩)

/-- The cases of `open`. -/
theorem SysStep.openFile {path : Bytes} {flags : FS.OpenFlags} {x : Except Errno Location}
    (h : SysStep fs (.openFile path flags) x fs') :
    (x = .error .eio ∧ fs' = fs) ∨
      (∃ e, fs.openFile path flags = .error e ∧ x = .error e ∧ fs' = fs) ∨
      ∃ fd, fs.openFile path flags = .ok (fd, fs') ∧ x = .ok fd := by
  rcases sysStep_cases h with ⟨hfault, rfl⟩ | ⟨c, hc⟩
  · exact Or.inl ⟨(Option.some.inj hfault).symm, rfl⟩
  · change fs.update (fs.openFile path flags) = _ at hc
    cases hopen : fs.openFile path flags with
    | error e =>
        rw [hopen] at hc
        obtain ⟨rfl, rfl⟩ := Prod.mk.inj hc
        exact Or.inr (Or.inl ⟨e, rfl, rfl, rfl⟩)
    | ok r =>
        rw [hopen] at hc
        obtain ⟨rfl, rfl⟩ := Prod.mk.inj hc
        exact Or.inr (Or.inr ⟨r.1, rfl, rfl⟩)

/-- The cases of `remove`. -/
theorem SysStep.remove {path : Bytes} {x : Except Errno Unit}
    (h : SysStep fs (.remove path) x fs') :
    (x = .error .eio ∧ fs' = fs) ∨
      (∃ e, fs.remove path = .error e ∧ x = .error e ∧ fs' = fs) ∨
      (fs.remove path = .ok fs' ∧ x = .ok ()) := by
  rcases sysStep_cases h with ⟨hfault, rfl⟩ | ⟨c, hc⟩
  · exact Or.inl ⟨(Option.some.inj hfault).symm, rfl⟩
  · change fs.update ((fs.remove path).map fun fs' => ((), fs')) = _ at hc
    cases hrm : fs.remove path with
    | error e =>
        rw [hrm] at hc
        obtain ⟨rfl, rfl⟩ := Prod.mk.inj hc
        exact Or.inr (Or.inl ⟨e, rfl, rfl, rfl⟩)
    | ok fs₁ =>
        rw [hrm] at hc
        obtain ⟨rfl, rfl⟩ := Prod.mk.inj hc
        exact Or.inr (Or.inr ⟨rfl, rfl⟩)

/-- A read moves some of the bytes asked for, at least one if there is one. -/
theorem SysStep.read {fd : Location} {offset count : ℕ} {x : Except Errno Bytes}
    (h : SysStep fs (.read fd offset count) x fs') :
    fs' = fs ∧ (x = .error .eio ∨
      ∃ n, n ≤ count ∧ (0 < count → 0 < n) ∧ x = fs.readAt fd offset n) := by
  rcases sysStep_cases h with ⟨hfault, rfl⟩ | ⟨c, hc⟩
  · exact ⟨rfl, Or.inl (Option.some.inj hfault).symm⟩
  · obtain ⟨rfl, rfl⟩ := Prod.mk.inj hc
    refine ⟨rfl, Or.inr ⟨c.chunk count, ?_, ?_, rfl⟩⟩
    · exact min_le_right _ _
    · intro hpos
      exact lt_min (Nat.succ_pos _) hpos

/-- A write moves some of the bytes given, at least one if there is one. -/
theorem SysStep.write {fd : Location} {offset : ℕ} {data : Bytes} {x : Except Errno ℕ}
    (h : SysStep fs (.write fd offset data) x fs') :
    (x = .error .eio ∧ fs' = fs) ∨
      ∃ n, n ≤ data.length ∧ (data ≠ [] → 0 < n) ∧ x = .ok n ∧
        fs' = fs.writeAt fd offset (data.take n) := by
  rcases sysStep_cases h with ⟨hfault, rfl⟩ | ⟨c, hc⟩
  · exact Or.inl ⟨(Option.some.inj hfault).symm, rfl⟩
  · obtain ⟨rfl, rfl⟩ := Prod.mk.inj hc
    refine Or.inr ⟨c.chunk data.length, min_le_right _ _, ?_, rfl, rfl⟩
    intro hne
    exact lt_min (Nat.succ_pos _) (List.length_pos_iff.mpr hne)

end Calls
