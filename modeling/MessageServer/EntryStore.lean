/-
# The entries as a map

`db_io_op_usr_ent` keeps entries under two kinds of keys: the record of a user, and a message
that waits for a user, by its id.  On tables that are there, and when system calls fail only
where the state of the file system dictates it, it is a map from keys to entries.

* `StoreKey`, `FS.place`: the keys and their places in the file system;
* `FS.Holds`: the file system holds a map;
* `dbStep_refines`: one operation;
* `ioOps_refine`: any operations in a row.
-/
import MessageServer.AccountCalls
import MessageServer.PartialMap

/-! ## Keys -/

/-- What an entry is kept under. -/
inductive StoreKey
  | userdata (username : Bytes)
  | pending (username : Bytes) (id : UInt32)
  deriving DecidableEq

/-- The user of a key. -/
def StoreKey.username : StoreKey → Bytes
  | .userdata u => u
  | .pending u _ => u

/-- The key of an entry; other types of entries are refused. -/
def Entry.key (e : Entry) : Option StoreKey :=
  match e.data with
  | .user _ => some (.userdata e.username)
  | .msg m => some (.pending e.username m.id)
  | .other _ _ => none

namespace FS

/-- Where an entry is kept. -/
def place (fs : FS) : StoreKey → Location
  | .userdata u => fs.table u ++ [userdataEntry]
  | .pending u id => msgFile (fs.table u) id.toNat

/-- The tables of the users `T` hold the map `M`. -/
structure Holds (T : Set Bytes) (fs : FS) (M : StoreKey → Option Entry) : Prop where
  root : fs.get fs.cwd = some .dir
  db : fs.get (fs.cwd ++ [dbDir]) = some .dir
  name : ∀ u ∈ T, slash ∉ u ∧ (u ++ tableSuffix).length ≤ nameMax
  table : ∀ u ∈ T, fs.get (fs.table u) = some .dir
  pendTable : ∀ u ∈ T, fs.get (fs.table u ++ [pendMsgsTable]) = some .dir
  entry : ∀ k, k.username ∈ T → fs.get (fs.place k) = (M k).map fun e => .file e.image
  own : ∀ k e, M k = some e → e.key = some k ∧ e.Fits

end FS

/-- The operation of a mode. -/
def Mode.mapOp (e : Entry) : Mode → Option (MapOp Entry)
  | .create => some (.create e)
  | .modify => some (.modify e)
  | .read => some .read
  | .delete => some .delete
  -- refused
  | .overwrite => none

/-- What `db_io_op_usr_ent` on `e` returns for an answer of the map. -/
def MapAnswer.result (e : Entry) : MapAnswer Entry → ℤ × Entry
  | .done => (dbmsSuccess, e)
  | .value held => (dbmsSuccess, held)
  | .present => (dbmsErrAny, e)
  | .absent => (dbmsErrNotExists, e)

section Store

variable {T : Set Bytes} {fs fs' : FS} {M : StoreKey → Option Entry} {k : StoreKey} {e : Entry}

theorem length_table (fs : FS) {u : Bytes} (hu : slash ∉ u) :
    (fs.table u).length = fs.cwd.length + 2 := by
  rw [table_eq fs hu]
  simp

/-- Places below tables. -/
theorem table_append_inj {u v : Bytes} {p q : Location} (hu : slash ∉ u) (hv : slash ∉ v)
    (h : fs.table u ++ p = fs.table v ++ q) : u = v ∧ p = q := by
  obtain ⟨htable, hrest⟩ := List.append_inj h (by rw [length_table fs hu, length_table fs hv])
  rw [table_eq fs hu, table_eq fs hv] at htable
  have hname := List.singleton_inj.mp (List.append_inj' htable rfl).2
  exact ⟨List.append_cancel_right hname, hrest⟩

/-- Different keys have different places. -/
theorem place_injective {k' : StoreKey} (hk : slash ∉ k.username) (hk' : slash ∉ k'.username)
    (h : fs.place k = fs.place k') : k = k' := by
  cases k with
  | userdata u =>
      cases k' with
      | userdata v => exact congrArg StoreKey.userdata (table_append_inj hk hk' h).1
      | pending v id => exact absurd (table_append_inj hk hk' h).2 (by simp)
  | pending u id =>
      cases k' with
      | userdata v => exact absurd (table_append_inj hk hk' h).2 (by simp)
      | pending v id' =>
          obtain ⟨huser, hid⟩ := table_append_inj hk hk' h
          have hdecimal : decimal id.toNat = decimal id'.toNat := by simpa using hid
          rw [show u = v from huser, UInt32.toNat_inj.mp (decimal_injective hdecimal)]

namespace FS.Holds

/-- The path of an entry leads to its place. -/
theorem locate (h : fs.Holds T M) (hkey : e.key = some k) (hk : k.username ∈ T) :
    fs.locate (entryPath e) = .ok (fs.place k) := by
  obtain ⟨hslash, hlen⟩ := h.name _ hk
  have hloc : fs.DirAt (userTablePath k.username) (fs.table k.username) :=
    ⟨locate_table hslash h.root h.db hlen, h.table _ hk⟩
  obtain ⟨u, data⟩ := e
  cases data with
  | user ud =>
      obtain rfl := Option.some.inj hkey
      exact locate_userdataPath.mpr ⟨_, hloc, rfl⟩
  | msg m =>
      obtain rfl := Option.some.inj hkey
      exact locate_pendMsgPath.mpr ⟨_, hloc, h.pendTable _ hk, length_decimal_id _, rfl⟩
  | other t mem => cases hkey

/-- What is at the place of a key is no directory. -/
theorem place_ne_dir (h : fs.Holds T M) (hk : k.username ∈ T) :
    fs.get (fs.place k) ≠ some .dir := by
  rw [h.entry k hk]
  cases M k <;> simp

/-- A change at the place of one key. -/
theorem change (h : fs.Holds T M) (hk : k.username ∈ T) (held : Option Entry)
    (hown : ∀ e, held = some e → e.key = some k ∧ e.Fits) (hcwd : fs'.cwd = fs.cwd)
    (hplace : fs'.get (fs.place k) = held.map fun e => .file e.image)
    (hframe : ∀ q, q ≠ fs.place k → fs'.get q = fs.get q) :
    fs'.Holds T (Function.update M k held) := by
  have hdir : ∀ q, fs.get q = some .dir → fs'.get q = some .dir := by
    intro q hq
    rw [hframe q fun heq => h.place_ne_dir hk (by rw [← heq, hq]), hq]
  have htable : ∀ u, fs'.table u = fs.table u := fun u => by rw [FS.table, FS.table, hcwd]
  have hplaces : ∀ k', fs'.place k' = fs.place k' := by
    intro k'
    cases k' <;> simp only [FS.place, htable]
  refine ⟨?_, ?_, h.name, fun u hu => ?_, fun u hu => ?_, fun k' hk' => ?_,
    fun k' e hheld => ?_⟩
  · rw [hcwd]
    exact hdir _ h.root
  · rw [hcwd]
    exact hdir _ h.db
  · rw [htable]
    exact hdir _ (h.table u hu)
  · rw [htable]
    exact hdir _ (h.pendTable u hu)
  · rw [hplaces]
    by_cases heq : k' = k
    · rw [heq, Function.update_self, hplace]
    · rw [Function.update_of_ne heq, ← h.entry k' hk']
      apply hframe
      intro hsame
      exact heq (place_injective (h.name _ hk').1 (h.name _ hk).1 hsame)
  · by_cases heq : k' = k
    · subst heq
      rw [Function.update_self] at hheld
      exact hown e hheld
    · rw [Function.update_of_ne heq] at hheld
      exact h.own k' e hheld

end FS.Holds

/-! ## One operation -/

theorem typed_of_key (h : e.key = some k) : e.Typed := by
  obtain ⟨u, data⟩ := e
  cases data with
  | user ud => exact typed_user u ud
  | msg m => exact typed_msg u m
  | other t mem => cases h

/-! ### Entries that are not there -/

/-- An `open` that the state refuses. -/
theorem exec_ioOp_open_error (he : e.Typed) {mode : Mode} {flags : FS.OpenFlags} {err : Errno}
    (hmode : mode ≠ .overwrite ∧ mode ≠ .delete)
    (hflags : openFile (entryPath e) mode = sysOpen (entryPath e) flags)
    (herr : fs.openFile (entryPath e) flags = .error err) {depth : ℕ} {t : List sysE.Event}
    {r : ℤ × Entry} (h : Exec SysStep (dbIoOpUsrEnt depth e mode) fs t r fs') (ht : NoFault t) :
    fs' = fs ∧ r = (if err = .enoent then dbmsErrNotExists else dbmsErrAny, e) := by
  rw [dbIoOpUsrEnt_eq he hmode, hflags] at h
  obtain ⟨x, fs₁, t', hstep, hrest, rfl⟩ := exec_perform_bind_iff.mp h
  rcases hstep.openFile with ⟨rfl, rfl⟩ | ⟨err', hopen, rfl, rfl⟩ | ⟨fd, hopen, rfl⟩
  · exact absurd rfl (ht _ List.mem_cons_self)
  · rw [herr] at hopen
    cases hopen
    obtain ⟨-, rfl, rfl⟩ := exec_ret_iff.mp hrest
    exact ⟨rfl, rfl⟩
  · rw [herr] at hopen
    cases hopen

/-- A walk on a path that names nothing. -/
theorem exec_removeRecursive_none {path : Bytes} {p : Location} (hloc : fs.locate path = .ok p)
    (hget : fs.get p = none) {depth : ℕ} {t : List sysE.Event} {r : ℤ × Option Errno}
    (h : Exec SysStep (removeRecursive (depth + 1) path) fs t r fs') (ht : NoFault t) :
    fs' = fs ∧ r.1 = dbmsErrNotExists ∧
      ∀ text, perrored text ∈ t ↔ text = notExistText path := by
  have hopen : fs.opendir path = .error .enoent := by
    rw [FS.opendir, hloc]
    simp only [hget]
  rw [removeRecursive] at h
  obtain ⟨x, fs₁, t', hstep, hrest, rfl⟩ := exec_perform_bind_iff.mp h
  obtain ⟨rfl, rfl | ⟨err, herr, rfl⟩ | ⟨l, l', hl, -, -⟩⟩ := hstep.opendir
  · exact absurd rfl (ht _ List.mem_cons_self)
  · rw [hopen] at herr
    cases herr
    simp only [if_true] at hrest
    obtain ⟨rfl, rfl, rfl⟩ := exec_reportMissing hrest
    exact ⟨rfl, rfl, perrored_report⟩
  · rw [hopen] at hl
    cases hl

/-! ### A store that is held -/

namespace FS.Holds

/-- Nothing changes. -/
theorem same (h : fs.Holds T M) {held : Option Entry} (hheld : M k = held) :
    fs.Holds T (Function.update M k held) := by
  rwa [← hheld, Function.update_eq_self]

/-- What `open` finds at the place of a key. -/
theorem openFile_eq (h : fs.Holds T M) (hkey : e.key = some k) (hk : k.username ∈ T)
    (flags : FS.OpenFlags) : fs.openFile (entryPath e) flags =
      match flags, M k with
      | .rdonly, none => .error .enoent
      | .rdonly, some _ => .ok (fs.place k, fs)
      | .wronlyCreatExcl, some _ => .error .eexist
      | .wronlyCreatExcl, none => .ok (fs.place k, fs.put (fs.place k) (.file []))
      | .wronlyTrunc, none => .error .enoent
      | .wronlyTrunc, some _ => .ok (fs.place k, fs.put (fs.place k) (.file [])) := by
  rw [FS.openFile, h.locate hkey hk]
  dsimp only
  rw [h.entry k hk]
  cases flags <;> cases M k <;> rfl

/-- Writing an entry where it may be written. -/
theorem written (h : fs.Holds T M) (hkey : e.key = some k) (hk : k.username ∈ T) (hfits : e.Fits)
    {mode : Mode} (hmode : mode = .create ∨ mode = .modify)
    (hopen : ∃ fd fs₁, fs.openFile (entryPath e) mode.flags = .ok (fd, fs₁)) {depth : ℕ}
    {t : List sysE.Event} {x : ℤ × Entry}
    (hexec : Exec SysStep (dbIoOpUsrEnt depth e mode) fs t x fs') (ht : NoFault t) :
    x = (dbmsSuccess, e) ∧ fs'.Holds T (Function.update M k (some e)) := by
  obtain ⟨fd, fs₁, hopen⟩ := hopen
  have hloc := h.locate hkey hk
  have hchange : ∀ {q : Location}, fs.locate (entryPath e) = .ok q →
      (fs.put q (.file e.image)).Holds T (Function.update M k (some e)) := by
    intro q hq
    obtain rfl := Except.ok.inj (hq.symm.trans hloc)
    apply h.change hk (some e)
    · intro e' he'
      obtain rfl := Option.some.inj he'
      exact ⟨hkey, hfits⟩
    · rfl
    · exact FS.get_put_self _ _ _
    · exact fun q hq => FS.get_put_of_ne _ _ hq
  cases exec_ioOp_write (typed_of_key hkey) hmode hexec with
  | refused code hcode hfree =>
      obtain ⟨hfd, hwritable, -⟩ := openFile_write_ok hmode hopen
      exact absurd hwritable (hfree ht _ hfd)
  | written q hq hfree => exact ⟨rfl, hchange hq⟩
  | torn q n hq hfree hfault => exact absurd ht hfault.not_noFault

end FS.Holds

/-- **One operation** answers like the map, and the file system holds what the map becomes. -/
theorem dbStep_refines (h : fs.Holds T M) (hkey : e.key = some k)
    (hk : k.username ∈ T) {mode : Mode}
    {op : MapOp Entry} (hop : mode.mapOp e = some op)
    (hfits : mode = .create ∨ mode = .modify → e.Fits) {x : ℤ × Entry}
    (hstep : DbStep noFaults fs (.ioOpUsrEnt e mode) x fs') :
    x = (op.run k M).1.result e ∧ fs'.Holds T (op.run k M).2 := by
  obtain ⟨t, hexec, ht⟩ := hstep
  change Exec SysStep (dbIoOpUsrEnt fs.depth e mode) fs t x fs' at hexec
  have htyped := typed_of_key hkey
  have hloc := h.locate hkey hk
  have hentry := h.entry k hk
  unfold MapOp.run
  cases mode with
  | create =>
      obtain rfl := Option.some.inj hop
      -- an entry that is there is not created again
      have hopen := h.openFile_eq hkey hk .wronlyCreatExcl
      cases hheld : M k with
      | none =>
          rw [hheld] at hopen
          exact h.written hkey hk (hfits (Or.inl rfl)) (Or.inl rfl) ⟨_, _, hopen⟩ hexec ht
      | some held =>
          rw [hheld] at hopen
          obtain ⟨rfl, rfl⟩ := exec_ioOp_open_error htyped (by decide) rfl hopen hexec ht
          exact ⟨rfl, h.same hheld⟩
  | modify =>
      obtain rfl := Option.some.inj hop
      -- an entry that is not there cannot be changed
      have hopen := h.openFile_eq hkey hk .wronlyTrunc
      cases hheld : M k with
      | none =>
          rw [hheld] at hopen
          obtain ⟨rfl, rfl⟩ := exec_ioOp_open_error htyped (by decide) rfl hopen hexec ht
          exact ⟨rfl, h.same hheld⟩
      | some held =>
          rw [hheld] at hopen
          exact h.written hkey hk (hfits (Or.inr rfl)) (Or.inr rfl) ⟨_, _, hopen⟩ hexec ht
  | read =>
      obtain rfl := Option.some.inj hop
      cases hheld : M k with
      | none =>
          have hopen := h.openFile_eq hkey hk .rdonly
          rw [hheld] at hopen
          obtain ⟨rfl, rfl⟩ := exec_ioOp_open_error htyped (by decide) rfl hopen hexec ht
          exact ⟨rfl, h.same hheld⟩
      | some held =>
          rw [hheld] at hentry
          have hcontent := FS.FileAt.content ⟨hloc, hentry⟩
          obtain ⟨rfl, hread⟩ := exec_ioOp_read htyped hexec
          have hne : held.image ≠ [] := by
            intro hnil
            have hlen := length_image held
            rw [hnil] at hlen
            exact absurd hlen (by decide)
          have hcode := hread.ofNoFault ht (by rw [hcontent]; exact hne)
          obtain ⟨-, hvalue⟩ := hread.success hcode
          rw [hcontent, overlay_image (h.own k held hheld).2] at hvalue
          exact ⟨Prod.ext hcode hvalue, h.same hheld⟩
  | delete =>
      obtain rfl := Option.some.inj hop
      rw [dbIoOpUsrEnt_delete htyped] at hexec
      -- a deletion is a removal of the file
      obtain ⟨t₁, r, fs₁, t₂, h₁, h₂, rfl⟩ := exec_bind_iff.mp hexec
      obtain ⟨-, rfl, rfl⟩ := exec_ret_iff.mp h₂
      cases hheld : M k with
      | none =>
          rw [hheld] at hentry
          obtain ⟨rfl, hcode, -⟩ := exec_removeRecursive_none hloc hentry h₁ ht.of_append_left
          rw [hcode]
          exact ⟨rfl, h.same hheld⟩
      | some held =>
          rw [hheld] at hentry
          rcases exec_removeRecursive_file hloc hentry h₁ with ⟨hcode, rfl⟩ |
            ⟨-, -, hfault⟩
          · rw [hcode]
            refine ⟨rfl, h.change hk none (fun _ hnone => by cases hnone) rfl ?_ fun q hq => ?_⟩
            · rw [FS.get_del, if_pos rfl]
              rfl
            · rw [FS.get_del, if_neg hq]
          · exact absurd ht.of_append_left hfault
  | overwrite => cases hop

/-! ## Any operations in a row -/

/-- A call on an entry of a user in `T`, in a mode that the function takes; what is written is an
entry whose strings fit their arrays. -/
structure IoCall (T : Set Bytes) where
  entry : Entry
  mode : Mode
  key : StoreKey
  op : MapOp Entry
  key_eq : entry.key = some key
  op_eq : mode.mapOp entry = some op
  user : key.username ∈ T
  fits : mode = .create ∨ mode = .modify → entry.Fits

/-- A call returns, when system calls fail only where the state of the file system dictates it. -/
def IoReturns (fs : FS) (step : IoCall T × (ℤ × Entry)) (fs' : FS) : Prop :=
  DbStep noFaults fs (.ioOpUsrEnt step.1.entry step.1.mode) step.2 fs'

/-- **The entry store is a map.**  Any calls in a row answer like the operations of a map from
keys to entries, and what is at the place of a key in the end is what the operations at this
key, in their order, make of it. -/
theorem ioCalls_refine (h : fs.Holds T M) {H : List (IoCall T × (ℤ × Entry))}
    (hrun : Run IoReturns fs H fs') :
    List.Forall₂ (fun step answer => step.2 = answer.result step.1.entry) H
        (runMap (H.map fun step => (step.1.key, step.1.op)) M).1 ∧
      fs'.Holds T (runMap (H.map fun step => (step.1.key, step.1.op)) M).2 ∧
      ∀ k, k.username ∈ T → fs'.get (fs'.place k) =
        ((H.filter fun step => step.1.key = k).foldl (fun held step => (step.1.op.act held).2)
          (M k)).map fun e => .file e.image := by
  have hmap : List.Forall₂ (fun step answer => step.2 = answer.result step.1.entry) H
        (runMap (H.map fun step => (step.1.key, step.1.op)) M).1 ∧
      fs'.Holds T (runMap (H.map fun step => (step.1.key, step.1.op)) M).2 := by
    induction hrun with
    | nil => exact ⟨List.Forall₂.nil, h⟩
    | snoc hrun hstep ih =>
        rename_i step
        obtain ⟨hanswers, hholds⟩ := ih
        obtain ⟨hresult, hholds'⟩ :=
          dbStep_refines hholds step.1.key_eq step.1.user step.1.op_eq
          step.1.fits hstep
        rw [List.map_append, List.map_singleton, runMap_snoc]
        exact ⟨List.rel_append hanswers (List.Forall₂.cons hresult List.Forall₂.nil),
          hholds'⟩
  refine ⟨hmap.1, hmap.2, fun k hk => ?_⟩
  rw [hmap.2.entry k hk, runMap_at, List.filter_map, List.foldl_map]
  rfl

/-- What a call returns when no choice of the kernel matters, and the file system after it. -/
def IoCall.run (call : IoCall T) (fs : FS) : (ℤ × Entry) × FS :=
  ((dbIoOpUsrEnt fs.depth call.entry call.mode).run sysStep (fun _ => default) fs).2

/-- A call always returns. -/
theorem ioReturns_run (call : IoCall T) (fs : FS) :
    IoReturns fs (call, (call.run fs).1) (call.run fs).2 :=
  ⟨_, exec_sysRun (fun _ => default) (fun _ => rfl) _ fs⟩

end Store

/-- A database with the empty table of the user `a`. -/
def tableDb : FS := (emptyDb.put [dbDir, ascii "a-table"] .dir).put
  [dbDir, ascii "a-table", pendMsgsTable] .dir

theorem tableDb_holds : tableDb.Holds {ascii "a"} fun _ => none := by
  have hget : ∀ q : Location, tableDb.get q =
      if q = [dbDir, ascii "a-table", pendMsgsTable] then some .dir
      else if q = [dbDir, ascii "a-table"] then some .dir else emptyDb.get q := by
    intro q
    rw [tableDb, FS.get_put, FS.get_put]
  refine ⟨by decide, by decide, ?_, ?_, ?_, fun k hk => ?_, fun k e he => by cases he⟩
  · rintro u rfl
    decide
  · rintro u rfl
    decide
  · rintro u rfl
    decide
  · have htable : tableDb.table (ascii "a") = [dbDir, ascii "a-table"] := by decide
    cases k with
    | userdata u =>
        obtain rfl : u = ascii "a" := hk
        rw [FS.place, htable]
        decide
    | pending u id =>
        obtain rfl : u = ascii "a" := hk
        rw [FS.place, htable, hget, emptyDb_get]
        simp [msgFile]

/-- The record of `a`, stored and read. -/
def createA : IoCall {ascii "a"} where
  entry := ⟨ascii "a", .user ⟨0, 1, 2, 3⟩⟩
  mode := .create
  key := .userdata (ascii "a")
  op := .create ⟨ascii "a", .user ⟨0, 1, 2, 3⟩⟩
  key_eq := rfl
  op_eq := rfl
  user := rfl
  fits := fun _ => ⟨by decide, trivial⟩

/-- Reading the record of `a`. -/
def readA : IoCall {ascii "a"} where
  entry := ⟨ascii "a", .user ⟨9, 9, 9, 9⟩⟩
  mode := .read
  key := .userdata (ascii "a")
  op := .read
  key_eq := rfl
  op_eq := rfl
  user := rfl
  fits := by rintro (h | h) <;> cases h

/-- What is read is what was stored. -/
theorem ioCalls_refine_a :
    (readA.run (createA.run tableDb).2).1 =
      (dbmsSuccess, ⟨ascii "a", .user ⟨0, 1, 2, 3⟩⟩) := by
  have hrun := (Run.single (ioReturns_run createA tableDb)).append
    (Run.single (ioReturns_run readA (createA.run tableDb).2))
  obtain ⟨hanswers, -, -⟩ := ioCalls_refine tableDb_holds hrun
  cases hanswers with
  | cons _ hrest =>
      cases hrest with
      | cons hx _ =>
          dsimp only at hx
          rw [hx, show readA.key = createA.key from rfl, MapOp.run, MapOp.run_self]
          rfl
