/-
# The life of a server (`main` and `shutdown_server` of `server.c`)

`SIGINT` ends the server wherever it is, also in the middle of a request.  The next server
finds the database as it has been left, and `db_init_db` makes the directory `users` only
where there is none.

* `StalledEnd`: a request that is handled to its end while every system call fails;
* `killed_handles`: a request that is cut off leaves the database as this does;
* `run_lifecycle`: over any number of starts, shutdowns and requests, a server that runs
  has a reachable database.
-/
import MessageServer.Stalling

/-! ## Requests that are cut off -/

/-- The next thing that the program does is to go on with a transfer. -/
def MidTransfer {α : Type} : Sys α → Prop
  | .ret _ => False
  | .call o _ => Continues o

/-- The server has been shut down while `req` was handled, and no transfer was half done.  `t` is
what the thread had done by then, the library call that was cut off not counted; the bound on the
rounds of a drain is out of reach. -/
inductive Killed (fs : FS) (req : Req) (t : List srvE.Event) : FS → Prop
  | between {fuel : ℕ} {q : Srv (Option Unit)} {w : SrvWorld} (hfuel : t.length + 1 < fuel)
      (hbegun : Begun (SrvStep untorn) (req.body fuel) ⟨fs, []⟩ t q w) : Killed fs req t w.fs
  | within {fuel : ℕ} {call : DbCall} {k : call.Ans → Srv (Option Unit)} {w : SrvWorld}
      {t' : List sysE.Event} {q : Sys call.Ans} {fs' : FS} (hfuel : t.length + 1 < fuel)
      (hbegun : Begun (SrvStep untorn) (req.body fuel) ⟨fs, []⟩ t (.call (.db call) k) w)
      (hcall : Begun SysStep (call.prog w.fs.depth) w.fs t' q fs') (hun : Untorn t')
      (hmid : ¬ MidTransfer q) :
      Killed fs req t fs'

/-- The request `req` has got to `t` and to the file system `fs'`, and is then handled to its end
with every system call failing: `t'` is what the thread does from there on. -/
inductive StalledEnd (fs : FS) (req : Req) (t : List srvE.Event) : FS → List srvE.Event → Prop
  | between {fuel : ℕ} {q : Srv (Option Unit)} {w : SrvWorld} {t' : List srvE.Event}
      (hbegun : Begun (SrvStep untorn) (req.body fuel) ⟨fs, []⟩ t q w)
      (hrest : Exec SrvStalled q w t' (some ()) w) : StalledEnd fs req t w.fs t'
  | within {fuel : ℕ} {call : DbCall} {k : call.Ans → Srv (Option Unit)} {w : SrvWorld}
      {t₁ t₂ : List sysE.Event} {q : Sys call.Ans} {fs' : FS} {x : call.Ans}
      {t' : List srvE.Event}
      (hbegun : Begun (SrvStep untorn) (req.body fuel) ⟨fs, []⟩ t (.call (.db call) k) w)
      (hcall : Begun SysStep (call.prog w.fs.depth) w.fs t₁ q fs')
      (hlast : Exec Stalled q fs' t₂ x fs')
      (hrest : Exec SrvStalled (k x) ⟨fs', w.input⟩ t' (some ()) ⟨fs', w.input⟩) :
      StalledEnd fs req t fs' (⟨.db call, x⟩ :: t')

/-- The connection has been read to its end. -/
theorem begun_input {T : DbCall → List sysE.Event → Prop} {α : Type} {p q : Srv α} {fs : FS}
    {w : SrvWorld}
    {t : List srvE.Event} (h : Begun (SrvStep T) p ⟨fs, []⟩ t q w) : w.input = [] := by
  refine h.invariant (I := fun w => w.input = []) rfl fun w o x w' hstep hw => ?_
  cases o with
  | db call => exact hstep.2.trans hw
  | recv buf =>
      have hread := hstep.2
      rw [hw] at hread
      exact (congrArg (fun r => r.2.2) hread).symm
  | _ => exact (congrArg SrvWorld.input hstep).trans hw

/-- What is left of a library call that is not in the middle of a transfer. -/
theorem begun_obeys {call : DbCall} {depth : ℕ} {fs fs' : FS} {t : List sysE.Event}
    {q : Sys call.Ans}
    (h : Begun SysStep (call.prog depth) fs t q fs') (hmid : ¬ MidTransfer q) :
    q.Obeys transferring (fun _ _ => True) false := by
  obtain ⟨moved, -, hq⟩ :=
    h.obeys (I := fun _ _ => True) (fun _ _ _ _ _ _ _ _ => ⟨trivial, trivial⟩)
    (orderly_prog depth call false) trivial
  cases q with
  | ret a => trivial
  | call o k => exact ⟨fun hcont => absurd hcont hmid, hq.2⟩

/-- From here on nothing succeeds. -/
theorem exec_srvStalled {α : Type} (p : Srv α) {w : SrvWorld} (hw : w.input = []) :
    ∃ t a, Exec SrvStalled p w t a w ∧ t.countP foundMsg = 0 ∧ ∀ e ∈ t,
      wentOut e = false := by
  obtain ⟨t, a, hexec⟩ := exec_unchanged (R := SrvStalled) (s := w) (srvStalled_exists hw) p
  have hquiet : ∀ e ∈ t, foundMsg e = false ∧ wentOut e = false :=
    hexec.forall_events fun _ _ _ _ h => h.quiet
  refine ⟨t, a, hexec, ?_, fun e he => (hquiet e he).2⟩
  rw [List.countP_eq_zero]
  intro e he
  rw [(hquiet e he).1]
  exact Bool.false_ne_true

/-- Such an ending is an execution. -/
theorem Exec.of_srvStalled {α : Type} {p : Srv α} {w w' : SrvWorld} {t : List srvE.Event} {a : α}
    (h : Exec SrvStalled p w t a w') : Exec (SrvStep untorn) p w t a w' :=
  h.mono fun _ _ _ _ _ h => h.step

/-- **A shutdown in the middle of a request.**  The database is left as if the request had been
handled to its end, with every system call failing from there on and nothing sent any more. -/
theorem killed_handles {fs fs' : FS} {req : Req} {t : List srvE.Event} (h : Killed fs req t fs') :
    ∃ t', Handles untorn fs req (t ++ t') fs' ∧ StalledEnd fs req t fs' t' ∧
      ∀ e ∈ t', wentOut e = false := by
  -- a drain finds at most one message behind what has been done
  have hcomplete : ∀ {fuel : ℕ} {t' : List srvE.Event} {a : Option Unit} {w : SrvWorld},
      t.length + 1 < fuel →
      Exec (SrvStep untorn) (req.body fuel) ⟨fs, []⟩ (t ++ t') a w →
        t'.countP foundMsg ≤ 1 →
      w.input = [] → a = some () ∧ Handles untorn fs req (t ++ t') w.fs := by
    intro fuel t' a w hfuel hexec hcount hw
    cases a with
    | some u =>
        refine ⟨rfl, fuel, ?_⟩
        rw [show (⟨w.fs, []⟩ : SrvWorld) = w from congrArg (SrvWorld.mk w.fs) hw.symm]
        exact hexec
    | none =>
        have hbound := exec_body_bounded hexec
        have hlen : t.countP foundMsg ≤ t.length := List.countP_le_length
        rw [List.countP_append] at hbound
        omega
  cases h with
  | between hfuel hbegun =>
      have hw := begun_input hbegun
      obtain ⟨t', a, hrest, hcount, hsilent⟩ := exec_srvStalled _ hw
      obtain ⟨rfl, hhandles⟩ := hcomplete hfuel (hbegun.exec hrest.of_srvStalled) (by omega) hw
      exact ⟨t', hhandles, .between hbegun hrest, hsilent⟩
  | @within fuel call k w t₁ q _ hfuel hbegun hcall hun hmid =>
      have hw := begun_input hbegun
      obtain ⟨t₂, x, hexec, hlast, ht₂⟩ := exec_stalled (begun_obeys hcall hmid) fs'
      have hstep : SrvStep untorn w (.db call) x ⟨fs', w.input⟩ := by
        refine ⟨⟨t₁ ++ t₂, hcall.exec hexec, fun e he => ?_⟩, rfl⟩
        rcases List.mem_append.mp he with he | he
        · exact hun e he
        · exact ht₂ e he
      obtain ⟨t', a, hrest, hcount, hsilent⟩ :=
        exec_srvStalled (k x) (w := ⟨fs', w.input⟩) hw
      have hfound : (⟨.db call, x⟩ :: t' : List srvE.Event).countP foundMsg ≤ 1 := by
        rw [List.countP_cons, hcount]
        split <;> omega
      obtain ⟨rfl, hhandles⟩ :=
        hcomplete hfuel (hbegun.exec (Exec.call hstep hrest.of_srvStalled)) hfound hw
      refine ⟨⟨.db call, x⟩ :: t', hhandles, .within hbegun hcall hlast hrest, ?_⟩
      exact List.forall_mem_cons.mpr ⟨rfl, hsilent⟩

/-! ## Starts -/

/-- `users` is in the working directory. -/
theorem lexical_dbDir (cwd : Location) : lexical cwd dbDir = cwd ++ [dbDir] := by
  rw [lexical, FS.components_plain plain_dbDir.noSlash, List.foldl_cons, List.foldl_nil,
    plain_dbDir.step]

/-- The file system with the directory `users`. -/
def FS.withUsers (fs : FS) : FS := fs.put (fs.cwd ++ [dbDir]) .dir

/-- `db_init_db` makes the directory `users` at most, only where nothing is, and succeeds only
where it is then. -/
theorem exec_dbInitDb {fs fs' : FS} {t : List sysE.Event} {r : ℤ}
    (h : Exec SysStep dbInitDb fs t r fs') :
    (fs' = fs ∨ fs.get (fs.cwd ++ [dbDir]) = none ∧ fs' = fs.withUsers) ∧
      (0 ≤ r → fs'.get (fs'.cwd ++ [dbDir]) = some .dir) := by
  have hdirAt : ∀ {g : FS} {p : Location}, g.DirAt dbDir p →
      g.get (g.cwd ++ [dbDir]) = some .dir := by
    intro g p hp
    rw [← lexical_dbDir, ← locate_eq_lexical hp.1]
    exact hp.2
  -- the end of the function: it fails, or the directory has been opened
  have hend : ∀ {g : FS} {d : ℤ × List Dirent} {t : List sysE.Event},
      (0 ≤ d.1 → ∃ p, g.DirAt dbDir p) →
      Exec SysStep
        ((if d.1 < 0 then return dbmsErrAny else do let _ ← sysClosedir; return dbmsSuccess) :
        Sys ℤ)
        g t r fs' → fs' = g ∧ (0 ≤ r → fs'.get (fs'.cwd ++ [dbDir]) = some .dir) := by
    intro g d t hd hrest
    split at hrest
    · obtain ⟨-, rfl, rfl⟩ := exec_ret_iff.mp hrest
      exact ⟨rfl, fun hr => absurd hr (by decide)⟩
    · rename_i hneg
      obtain ⟨p, hp⟩ := hd (not_lt.mp hneg)
      obtain ⟨-, rfl⟩ := exec_closedir_ret hrest
      exact ⟨rfl, fun _ => hdirAt hp⟩
  rw [dbInitDb, openDirectory, if_neg (by decide)] at h
  obtain ⟨t₁, d, fs₁, t₂, h₁, h₂, rfl⟩ := exec_bind_iff.mp h
  obtain ⟨x, fs₂, t₃, hopen, hrest, rfl⟩ := exec_perform_bind_iff.mp h₁
  obtain ⟨rfl, hx⟩ := hopen.opendir
  cases x with
  | ok l =>
      obtain ⟨-, rfl, rfl⟩ := exec_ret_iff.mp hrest
      obtain ⟨l', hl⟩ : ∃ l', fs₁.opendir dbDir = .ok l' := by
        rcases hx with hx | ⟨e, -, hx⟩ | ⟨l', _, hl, -, -⟩
        · exact absurd hx (by simp)
        · exact absurd hx (by simp)
        · exact ⟨l', hl⟩
      obtain ⟨p, hp, hdir, -⟩ := FS.opendir_ok hl
      obtain ⟨rfl, hr⟩ := hend (fun _ => ⟨p, hp, hdir⟩) h₂
      exact ⟨Or.inl rfl, hr⟩
  | error e =>
      simp only at hrest
      split at hrest
      · rw [if_pos (by decide)] at hrest
        obtain ⟨y, fs₃, t₄, hmk, hrest₂, rfl⟩ := exec_perform_bind_iff.mp hrest
        rcases hmk.mkdir with ⟨rfl, rfl⟩ | ⟨e', -, rfl, rfl⟩ | ⟨hok, rfl⟩
        · obtain ⟨-, rfl, rfl⟩ := exec_ret_iff.mp hrest₂
          obtain ⟨rfl, hr⟩ := hend (fun hneg => absurd hneg (by decide)) h₂
          exact ⟨Or.inl rfl, hr⟩
        · obtain ⟨-, rfl, rfl⟩ := exec_ret_iff.mp hrest₂
          obtain ⟨rfl, hr⟩ := hend (fun hneg => absurd hneg (by decide)) h₂
          exact ⟨Or.inl rfl, hr⟩
        · obtain ⟨p, hp, hnew, rfl⟩ := FS.mkdir_ok hok
          have hlex : p = fs₂.cwd ++ [dbDir] := by rw [locate_eq_lexical hp, lexical_dbDir]
          have hmade : (fs₂.put p .dir).DirAt dbDir p :=
            ⟨locate_put_dir hnew hp, FS.get_put_self _ _ _⟩
          obtain ⟨z, fs₄, t₅, hopen₂, hrest₃, rfl⟩ := exec_perform_bind_iff.mp hrest₂
          obtain ⟨rfl, -⟩ := hopen₂.opendir
          have hd : fs₁ = fs₂.put p .dir ∧ (0 ≤ d.1 → ∃ q, fs₁.DirAt dbDir q) := by
            cases z with
            | error e =>
                obtain ⟨-, rfl, rfl⟩ := exec_ret_iff.mp hrest₃
                exact ⟨rfl, fun _ => ⟨p, hmade⟩⟩
            | ok l =>
                obtain ⟨-, rfl, rfl⟩ := exec_ret_iff.mp hrest₃
                exact ⟨rfl, fun _ => ⟨p, hmade⟩⟩
          obtain ⟨rfl, hr⟩ := hend hd.2 h₂
          refine ⟨Or.inr ⟨hlex ▸ hnew, ?_⟩, hr⟩
          rw [hd.1, hlex]
          rfl
      · obtain ⟨-, rfl, rfl⟩ := exec_ret_iff.mp hrest
        obtain ⟨rfl, hr⟩ := hend (fun hneg => absurd hneg (by decide)) h₂
        exact ⟨Or.inl rfl, hr⟩

/-- Nothing has been installed yet: the working directory is there without `users`, and nothing
has the place of a file of the database. -/
structure FS.Blank (fs : FS) : Prop where
  tree : fs.Tree
  here : fs.get fs.cwd = some .dir
  free : fs.get (fs.cwd ++ [dbDir]) = none
  noUserdata : ∀ L c, fs.get (L ++ [userdataEntry]) ≠ some (.file c)
  noMessage : ∀ L n, fs.get (msgFile L n) = none

/-- The first start of the server makes a fresh database. -/
theorem FS.Blank.withUsers {fs : FS} (h : fs.Blank) : fs.withUsers.Fresh := by
  have hput : ∀ q, q ≠ fs.cwd ++ [dbDir] → fs.withUsers.get q = fs.get q := fun q hq =>
    FS.get_put_of_ne _ _ hq
  refine ⟨h.tree.put_new _ h.here h.free plain_dbDir (by decide), FS.get_put_self _ _ _,
    fun c => ?_, fun L c hc => ?_,
    fun L n => ?_⟩
  · rw [show fs.withUsers.cwd = fs.cwd from rfl, hput _ (by simp)]
    exact h.tree.none_below h.free c
  · rw [FS.withUsers, FS.get_put] at hc
    split at hc
    · exact absurd hc (by simp)
    · exact h.noUserdata L c hc
  · rw [hput, h.noMessage]
    intro heq
    have hsplit : (L ++ [pendMsgsTable]) ++ [decimal n] = fs.cwd ++ [dbDir] := by
      rw [← heq, msgFile, List.append_assoc]
      rfl
    have hname : decimal n = dbDir := List.singleton_inj.mp (List.append_inj' hsplit rfl).2
    have hmem : (117 : UInt8) ∈ decimal n := by
      rw [hname]
      decide
    exact absurd (isDigit_of_mem_decimal hmem) (by decide)

/-! ## Lives -/

/-- Whether a server runs, and what it finds. -/
structure Server where
  running : Bool
  fs : FS

/-- What happens to a server. -/
inductive Deed
  | started
  | notStarted
  | handled (req : Req)
  | killed (req : Req)
  | stopped

/-- The request that is handled, or cut off. -/
def Deed.request : Deed → Option Req
  | .handled req => some req
  | .killed req => some req
  | _ => none

/-- One step in the life of a server.  A start that comes to nothing has gone wrong or has been
cut off, in `db_init_db` or behind it. -/
inductive LifeStep : Server → Deed → Server → Prop
  | started {fs fs' : FS} {t : List sysE.Event} {r : ℤ} (h : Exec SysStep dbInitDb fs t r fs')
      (hr : 0 ≤ r) :
      LifeStep ⟨false, fs⟩ .started ⟨true, fs'⟩
  | notStarted {fs fs' : FS} {t : List sysE.Event} {q : Sys ℤ}
      (h : Begun SysStep dbInitDb fs t q fs') :
      LifeStep ⟨false, fs⟩ .notStarted ⟨false, fs'⟩
  | handled {fs fs' : FS} {req : Req} {t : List srvE.Event} (hfits : req.Fits)
      (h : Handles untorn fs req t fs') : LifeStep ⟨true, fs⟩ (.handled req) ⟨true, fs'⟩
  | killed {fs fs' : FS} {req : Req} {t : List srvE.Event} (hfits : req.Fits)
      (h : Killed fs req t fs') :
      LifeStep ⟨true, fs⟩ (.killed req) ⟨false, fs'⟩
  | stopped {fs : FS} : LifeStep ⟨true, fs⟩ .stopped ⟨false, fs⟩

/-- A start that is cut off changes what a whole one may change. -/
theorem begun_dbInitDb {fs fs' : FS} {t : List sysE.Event} {q : Sys ℤ}
    (h : Begun SysStep dbInitDb fs t q fs') :
    fs' = fs ∨ fs.get (fs.cwd ++ [dbDir]) = none ∧ fs' = fs.withUsers := by
  have hstill : ∀ o, ∃ x, SysStep fs' o x fs' := fun o =>
    let ⟨x, hx⟩ := stalled_exists fs' o
    ⟨x, hx.1⟩
  obtain ⟨t', a, hrest⟩ := exec_unchanged hstill q
  exact (exec_dbInitDb (h.exec hrest)).1

/-- No request removes the directory `users`. -/
theorem RequestStep.users {fs fs' : FS} {req : Req} (hs : Schema fs)
    (h : RequestStep untorn fs req fs')
    (hplace : ∀ c ∈ fs.cwd, ¬ tableSuffix <:+ c)
    (hdir : fs.get (fs.cwd ++ [dbDir]) = some .dir) :
    fs'.cwd = fs.cwd ∧ fs'.get (fs.cwd ++ [dbDir]) = some .dir := by
  obtain ⟨hfits, t, hexec⟩ := h
  cases huser : req.user with
  | some u =>
      have htouch := handles_touches hs hfits huser hexec
      refine ⟨htouch.cwd, ?_⟩
      rw [htouch.frame _ fun hpre => ?_, hdir]
      obtain ⟨p, b, hL⟩ := lexical_userTablePath fs.cwd u
      rw [hL] at hpre
      have hmem : b ++ tableSuffix ∈ fs.cwd ++ [dbDir] := hpre.subset (by simp)
      rcases List.mem_append.mp hmem with hmem | hmem
      · exact hplace _ hmem (List.suffix_append _ _)
      · have hlast := getLast?_append_tableSuffix b
        rw [List.mem_singleton.mp hmem] at hlast
        exact absurd hlast (by decide)
  | none =>
      cases req with
      | unknown =>
          obtain ⟨fuel, hexec⟩ := hexec
          obtain ⟨-, -, hw⟩ := exec_ret_iff.mp hexec
          obtain rfl : fs' = fs := congrArg SrvWorld.fs hw
          exact ⟨rfl, hdir⟩
      | _ => exact absurd huser (by simp [Req.user])

/-- An installed database, as the requests have left it. -/
structure Living (fs₀ : FS) (reqs : List Req) (fs : FS) : Prop where
  cwd : fs.cwd = fs₀.cwd
  users : fs.get (fs₀.cwd ++ [dbDir]) = some .dir
  run : Run (RequestStep untorn) fs₀.withUsers reqs fs

/-- A blank directory, or an installed database. -/
def BlankOrLiving (fs₀ : FS) (reqs : List Req) (s : Server) : Prop :=
  (s = ⟨false, fs₀⟩ ∧ reqs = []) ∨ Living fs₀ reqs s.fs

section Lives

variable {fs₀ fs fs' : FS} {reqs : List Req} {req : Req} {b : Bool}

/-- A request, handled to its end or cut off. -/
theorem BlankOrLiving.request (hblank : fs₀.Blank)
    (hplace : ∀ c ∈ fs₀.cwd, ¬ tableSuffix <:+ c)
    (h : BlankOrLiving fs₀ reqs ⟨true, fs⟩) (hreq : RequestStep untorn fs req fs') :
    BlankOrLiving fs₀ (reqs ++ [req]) ⟨b, fs'⟩ := by
  rcases h with ⟨heq, -⟩ | ⟨hcwd, hdir, hrun⟩
  · exact absurd (congrArg Server.running heq) (by simp)
  · have hs : Schema fs := Reachable.schema ⟨_, _, hblank.withUsers, hrun⟩
    change fs.cwd = fs₀.cwd at hcwd
    obtain ⟨hcwd', hdir'⟩ := hreq.users hs (hcwd.symm ▸ hplace) (hcwd.symm ▸ hdir)
    exact Or.inr ⟨hcwd'.trans hcwd, hcwd ▸ hdir', hrun.snoc hreq⟩

/-- A start leaves an installed database alone, and installs a blank one. -/
theorem BlankOrLiving.start (hblank : fs₀.Blank) (h : BlankOrLiving fs₀ reqs ⟨false, fs⟩)
    (hfs : fs' = fs ∨ fs.get (fs.cwd ++ [dbDir]) = none ∧ fs' = fs.withUsers)
    (hb : b = true → fs'.get (fs'.cwd ++ [dbDir]) = some .dir) :
    BlankOrLiving fs₀ reqs ⟨b, fs'⟩ := by
  rcases h with ⟨heq, rfl⟩ | ⟨hcwd, hdir, hrun⟩
  · obtain rfl : fs = fs₀ := congrArg Server.fs heq
    rcases hfs with rfl | ⟨-, rfl⟩
    · cases b with
      | false => exact Or.inl ⟨rfl, rfl⟩
      | true =>
          have hdir := hb rfl
          rw [hblank.free] at hdir
          exact absurd hdir (by simp)
    · exact Or.inr ⟨rfl, FS.get_put_self _ _ _, Run.nil⟩
  · rcases hfs with rfl | ⟨hfree, -⟩
    · exact Or.inr ⟨hcwd, hdir, hrun⟩
    · rw [show fs.cwd = fs₀.cwd from hcwd, show fs.get (fs₀.cwd ++ [dbDir]) =
        some .dir from hdir] at hfree
      exact absurd hfree (by simp)

/-- **Restarts are invisible.**  From a blank directory, under no directory that is named like a
table, a server is started, stopped, killed in the middle of requests and started again any number
of times.  What it has is still blank, or what the same requests lead to from an empty database
without any restart; and while it runs, it is the latter. -/
theorem run_lifecycle (hblank : fs₀.Blank) (hplace : ∀ c ∈ fs₀.cwd, ¬ tableSuffix <:+ c)
    {l : List Deed}
    {s : Server} (h : Run LifeStep ⟨false, fs₀⟩ l s) :
    (s = ⟨false, fs₀⟩ ∧ l.filterMap Deed.request = []) ∨
      ∃ fs₁ : FS, fs₁.Fresh ∧
        Run (RequestStep untorn) fs₁ (l.filterMap Deed.request) s.fs := by
  suffices hall : BlankOrLiving fs₀ (l.filterMap Deed.request) s by
    exact hall.imp_right fun hliving => ⟨_, hblank.withUsers, hliving.run⟩
  refine h.invariant (I := fun l s => BlankOrLiving fs₀ (l.filterMap Deed.request) s)
    (Or.inl ⟨rfl, rfl⟩) ?_
  intro l s deed s' hI hstep
  rw [List.filterMap_append]
  cases hstep with
  | started h hr =>
      rw [List.filterMap_cons_none rfl, List.filterMap_nil, List.append_nil]
      exact hI.start hblank (exec_dbInitDb h).1 fun _ => (exec_dbInitDb h).2 hr
  | notStarted h =>
      rw [List.filterMap_cons_none rfl, List.filterMap_nil, List.append_nil]
      exact hI.start hblank (begun_dbInitDb h) (by simp)
  | handled hfits h => exact hI.request hblank hplace ⟨hfits, _, h⟩
  | killed hfits h =>
      obtain ⟨t', hhandles, -⟩ := killed_handles h
      exact hI.request hblank hplace ⟨hfits, _, hhandles⟩
  | stopped =>
      rw [List.filterMap_cons_none rfl, List.filterMap_nil, List.append_nil]
      rcases hI with ⟨heq, -⟩ | hliving
      · exact absurd (congrArg Server.running heq) (by simp)
      · exact Or.inr hliving

end Lives

/-! ## A server that is killed while it registers a user -/

instance : DecidablePred Continues
  | .read _ offset _ => inferInstanceAs (Decidable (offset ≠ 0))
  | .write _ offset _ => inferInstanceAs (Decidable (offset ≠ 0))
  | .opendir _ => isFalse id
  | .closedir => isFalse id
  | .mkdir _ => isFalse id
  | .openFile _ _ => isFalse id
  | .close _ => isFalse id
  | .remove _ => isFalse id
  | .perror _ => isFalse id

instance {α : Type} : (p : Sys α) → Decidable (MidTransfer p)
  | .ret _ => isFalse id
  | .call o _ => inferInstanceAs (Decidable (Continues o))

/-- The root directory and nothing else. -/
def blankDb : FS where
  cwd := []
  nodes := ⟨[⟨[], .dir⟩], by unfold List.NodupKeys; decide⟩

/-- The blank directory has nothing but the root. -/
theorem blankDb_get (q : Location) : blankDb.get q = if q = [] then some .dir else none := by
  unfold FS.get blankDb
  simp only [AList.lookup]
  by_cases hq : q = []
  · subst hq
    rfl
  · rw [if_neg hq, List.dlookup_cons_ne _ _ hq, List.dlookup_nil]

/-- It is blank. -/
theorem blankDb_blank : blankDb.Blank := by
  have hnone : ∀ p c, blankDb.get (p ++ [c]) = none := by
    intro p c
    rw [blankDb_get, if_neg (by simp)]
  refine ⟨⟨fun p c n hn => ?_, fun p c n hn => ?_⟩, rfl, hnone _ _, fun L c => ?_,
    fun L n => ?_⟩
  · rw [hnone] at hn
    exact absurd hn (by simp)
  · rw [hnone] at hn
    exact absurd hn (by simp)
  · rw [hnone]
    simp
  · rw [blankDb_get, if_neg (by simp [msgFile])]

/-- The call that makes the table of `a`. -/
def creatA : DbCall :=
  .creatUsrTbl ⟨ascii "a", .user { (default : Userdata) with lastMsgId := 0 }⟩

/-- The table of `a` has been made, and nothing in it. -/
def halfRegistered (fs : FS) : FS :=
  ((creatA.prog fs.depth).runFor sysStep 2 (fun _ => default) fs).2.2

/-- A `REGISTER` that is killed behind the directory of the user. -/
theorem killed_register {fs : FS}
    (hbegins : ∀ e ∈ ((creatA.prog fs.depth).runFor sysStep 2 (fun _ => default) fs).1,
        ¬ Continues e.1)
    (hmid : ¬ MidTransfer ((creatA.prog fs.depth).runFor sysStep 2 (fun _ => default) fs).2.1) :
    Killed fs (.register (ascii "a")) [⟨.uninit, (default : Junk)⟩] (halfRegistered fs) := by
  have hfuel : ([⟨.uninit, (default : Junk)⟩] : List srvE.Event).length + 1 < 3 := by decide
  have hbegun : Begun (SrvStep untorn) ((Req.register (ascii "a")).body 3) ⟨fs, []⟩
      [⟨.uninit, (default : Junk)⟩]
      (.call (.db creatA) _) ⟨fs, []⟩ := Begun.nil.snoc rfl
  have hcall : Begun SysStep (creatA.prog fs.depth) fs _ _ (halfRegistered fs) :=
    begun_runFor (fun c o s => ⟨c, trivial, rfl⟩) 2 (fun _ => default) _ fs
  exact Killed.within hfuel hbegun hcall (fun ⟨o, x⟩ he htorn => hbegins _ he htorn.continues)
    hmid

/-- A `REGISTER` that is cut off behind the `mkdir` of the table. -/
theorem killed_handles_register :
    ∃ t', Handles untorn emptyDb (.register (ascii "a")) ([⟨.uninit, (default : Junk)⟩] ++ t')
        (halfRegistered emptyDb) ∧
      StalledEnd emptyDb (.register (ascii "a")) [⟨.uninit, (default : Junk)⟩]
        (halfRegistered emptyDb) t' ∧ ∀ e ∈ t', wentOut e = false :=
  killed_handles (killed_register (by decide +kernel) (by decide +kernel))

/-- What a start makes of a file system when nothing fails. -/
def startedOn (fs : FS) : FS := (dbInitDb.run sysStep (fun _ => default) fs).2.2

/-- A start of the server that succeeds. -/
theorem lifeStep_started {fs : FS} (h : 0 ≤ (dbInitDb.run sysStep (fun _ => default) fs).2.1) :
    LifeStep ⟨false, fs⟩ .started ⟨true, startedOn fs⟩ :=
  LifeStep.started (exec_sysRunAny (fun _ => default) dbInitDb fs) h

/-- A server is started in the root directory, is killed while it registers `a`, and is started
again: `a` has a table without a userdata file. -/
theorem run_lifecycle_register :
    ∃ fs : FS, fs.get [dbDir, ascii "a-table"] = some .dir ∧
      fs.get [dbDir, ascii "a-table", userdataEntry] = none ∧
      ((⟨true, fs⟩ : Server) = ⟨false, blankDb⟩ ∧ [Req.register (ascii "a")] = [] ∨
        ∃ fs₁ : FS, fs₁.Fresh ∧
          Run (RequestStep untorn) fs₁ [.register (ascii "a")] fs) := by
  have hfirst : LifeStep ⟨false, blankDb⟩ .started ⟨true, startedOn blankDb⟩ :=
    lifeStep_started (by decide +kernel)
  have hkilled : LifeStep ⟨true, startedOn blankDb⟩ (.killed (.register (ascii "a")))
      ⟨false, halfRegistered (startedOn blankDb)⟩ :=
    LifeStep.killed (by decide) (killed_register (by decide +kernel) (by decide +kernel))
  have hagain := ((Run.single hfirst).snoc hkilled).snoc (lifeStep_started (by decide +kernel))
  refine ⟨_, ?_, ?_,
    run_lifecycle blankDb_blank (fun c hc => absurd hc List.not_mem_nil) hagain⟩
  · decide +kernel
  · decide +kernel
