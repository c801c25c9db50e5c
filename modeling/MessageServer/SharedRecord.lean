/-
# One record, many threads

Any number of service threads work on one database, each library call an atomic step.
Threads that work for the names of one table see each other through two things: the
record in that table, and its messages.  Here is the record.

* `SharedStep`: one step of a thread on the database;
* `FS.Records`: what stands in the place of the record;
* `RecordStep`: what a step does to the record;
* `interleave_record`: an interleaving on the database is one on the record;
* `Unraced`: no thread rewrites a record that has been rewritten since it was read.
-/
import MessageServer.Interleaving
import MessageServer.AccountCalls
import MessageServer.FailedConnect

/-! ## Threads on one database -/

/-- One step of a thread on the database that the threads share: a library call is one
step, in which system calls may fail but no transfer is torn. -/
def SharedStep (fs : FS) : (o : SrvOp) → o.Ans → FS → Prop
  | .db call, x, fs' => DbStep untorn fs call x fs'
  | _, _, fs' => fs' = fs

/-- The entry stands in the place of the record of `u`. -/
def FS.Stores (fs : FS) (u : Bytes) (e : Entry) : Prop :=
  fs.get (fs.table u ++ [userdataEntry]) = some (.file e.image)

/-- What stands in the place of the record of `u`: an entry of a name of the table, or
nothing that can be read. -/
structure FS.Records (fs : FS) (u : Bytes) (r : Option Entry) : Prop where
  schema : Schema fs
  record : Filed False (fs.get (fs.table u ++ [userdataEntry])) (r.map Entry.image)
  own : ∀ e, r = some e → (tableNames fs.cwd (fs.table u)).User e

/-- What a step does to the record that the names `C.Same` share. -/
def RecordStep (C : Confinement) (r : Option Entry) :
    (o : SrvOp) → o.Ans → Option Entry → Prop
  | .db (.ioOpUsrEnt e .read), x, r' => r' = r ∧ ∀ v j, e = ⟨v, .user j⟩ → C.Same v →
      (x.1 = dbmsSuccess ∧ r = some x.2 ∧ C.User x.2) ∨ (x.1 < 0 ∧ x.2 = e)
  | .db (.ioOpUsrEnt e .modify), x, r' =>
      (x.1 = dbmsSuccess ∧ r' = some e) ∨ (x.1 < 0 ∧ (r' = r ∨ r' = none))
  | .db (.creatUsrTbl e), _, r' => r' = r ∨ (r = none ∧ r' = some e)
  | .db (.delUsrTbl _), _, r' => r' = r ∨ r' = none
  | _, _, r' => r' = r

section Record

variable {fs fs' : FS} {u : Bytes} {r : Option Entry}

/-- A user who is registered has a record. -/
theorem FS.Stores.records (hs : Schema fs) {v : Bytes} {ud : Userdata}
    (h : fs.Stores u ⟨v, .user ud⟩) (hv : FitsBuf maxStrSize v) :
    fs.Records u (some ⟨v, .user ud⟩) := by
  refine ⟨hs, h, fun e he => ?_⟩
  obtain rfl := Option.some.inj he
  obtain ⟨v', ud', himage, hv', hid⟩ := (hs.userdata _ _ h).resolve_left (image_ne_nil _)
  obtain heq := image_inj (fits_user hv ud) (fits_user hv'.1 ud') himage
  exact ⟨v', ud', heq, hv', hid⟩

theorem FS.Records.stores {e : Entry} (h : fs.Records u (some e)) : fs.Stores u e := h.record

/-- The place holds no record when nothing is there. -/
theorem FS.Records.eq_none (h : fs.Records u r)
    (hget : fs.get (fs.table u ++ [userdataEntry]) = none) :
    r = none := by
  cases r with
  | none => rfl
  | some e =>
      have hrecord := h.stores
      rw [FS.Stores, hget] at hrecord
      exact absurd hrecord (by simp)

/-! ### Calls on the record -/

namespace FS.Records

/-- The place as it was. -/
theorem same (h : fs.Records u r) (hs : Schema fs') (hcwd : fs'.cwd = fs.cwd)
    (hget : fs'.get (fs.table u ++ [userdataEntry]) = fs.get (fs.table u ++ [userdataEntry])) :
    fs'.Records u r := by
  have htable : fs'.table u = fs.table u := by rw [FS.table, FS.table, hcwd]
  refine ⟨hs, ?_, ?_⟩
  · rw [htable, hget]
    exact h.record
  · rw [htable, hcwd]
    exact h.own

/-- Another record in its place. -/
theorem put {e : Entry} (he : (tableNames fs.cwd (fs.table u)).User e) (hs : Schema fs')
    (hcwd : fs'.cwd = fs.cwd)
    (hget : fs'.get (fs.table u ++ [userdataEntry]) = some (.file e.image)) :
    fs'.Records u (some e) := by
  have htable : fs'.table u = fs.table u := by rw [FS.table, FS.table, hcwd]
  refine ⟨hs, ?_, fun e' he' => ?_⟩
  · rw [htable, hget]
    exact rfl
  · obtain rfl := Option.some.inj he'
    rw [htable, hcwd]
    exact he

/-- No record in its place. -/
theorem lose (hs : Schema fs') (hcwd : fs'.cwd = fs.cwd)
    (hget : fs'.get (fs.table u ++ [userdataEntry]) = none ∨
      fs'.get (fs.table u ++ [userdataEntry]) = some (.file [])) : fs'.Records u none := by
  have htable : fs'.table u = fs.table u := by rw [FS.table, FS.table, hcwd]
  refine ⟨hs, ?_, fun e he => absurd he (by simp)⟩
  rw [htable]
  exact hget.imp_right fun hnil => ⟨id, hnil⟩

/-- **`READ`** under a name of the table. -/
theorem read (h : fs.Records u r) {v : Bytes} {j : Userdata} (hv : NameOf fs.cwd (fs.table u) v)
    {x : ℤ × Entry} {t : List sysE.Event}
    (hexec : Exec SysStep (dbIoOpUsrEnt fs.depth ⟨v, .user j⟩ .read) fs t x fs')
    (hun : Untorn t) :
    (x.1 = dbmsSuccess ∧ r = some x.2 ∧ (tableNames fs.cwd (fs.table u)).User x.2) ∨
      (x.1 < 0 ∧ x.2 = ⟨v, .user j⟩) := by
  obtain ⟨-, hread⟩ := exec_ioOp_read (typed_user v j) hexec
  rcases hread.code with hok | hneg
  · left
    obtain ⟨hne, hx⟩ := hread.success hok
    obtain ⟨p, hp⟩ := FS.exists_fileAt hne
    obtain ⟨L, hL, rfl⟩ := locate_userdataPath.mp hp.1
    obtain rfl := hL.nameOf rfl hv
    have hcontent := h.record.content _ hp.2
    cases r with
    | none => exact absurd hcontent hne
    | some e =>
        obtain ⟨w, ud, rfl, hw, hid⟩ := h.own e rfl
        have himage : fs.content (entryPath ⟨v, .user j⟩) = Entry.image ⟨w, .user ud⟩ :=
          hcontent
        rw [himage, overlay_image (fits_user hw.1 ud)] at hx
        exact ⟨hok, by rw [hx], w, ud, hx, hw, hid⟩
  · exact Or.inr ⟨hneg, hread.ofUntorn hun hneg⟩

/-- **`MODIFY`** of an entry of the table. -/
theorem modify (h : fs.Records u r) {e : Entry} (he : (tableNames fs.cwd (fs.table u)).User e)
    {x : ℤ × Entry} {t : List sysE.Event} (hs : Schema fs')
    (hexec : Exec SysStep (dbIoOpUsrEnt fs.depth e .modify) fs t x fs') (hun : Untorn t) :
    ∃ r', ((x.1 = dbmsSuccess ∧ r' = some e) ∨ (x.1 < 0 ∧ (r' = r ∨ r' = none))) ∧
      fs'.Records u r' := by
  obtain ⟨v, ud, rfl, hv, hid⟩ := id he
  have hplace : ∀ p, fs.locate (userdataPath v) = .ok p →
      p = fs.table u ++ [userdataEntry] := by
    intro p hp
    obtain ⟨L, hL, rfl⟩ := locate_userdataPath.mp hp
    rw [hL.nameOf rfl hv]
  cases exec_ioOp_write (typed_user v ud) (Or.inr rfl) hexec with
  | refused code hcode hfree => exact ⟨r, Or.inr ⟨hcode, Or.inl rfl⟩, h⟩
  | written p hp hfree =>
      obtain rfl := hplace p hp
      exact ⟨_, Or.inl ⟨rfl, rfl⟩, put he hs rfl (FS.get_put_self _ _ _)⟩
  | torn p k hp hfree hfault =>
      obtain rfl := hplace p hp
      obtain rfl := hfault.write_eq_zero hun
      exact ⟨none, Or.inr ⟨dbmsErrAny_neg, Or.inr rfl⟩,
        lose hs rfl (Or.inr (FS.get_put_self _ _ _))⟩

/-- **`db_creat_usr_tbl`** for a name of the table. -/
theorem create (h : fs.Records u r) {e : Entry} (he : (tableNames fs.cwd (fs.table u)).User e)
    {x : ℤ} {t : List sysE.Event} (hs : Schema fs')
    (hexec : Exec SysStep (dbCreatUsrTbl fs.depth e) fs t x fs') (hun : Untorn t) :
    ∃ r', (r' = r ∨ (r = none ∧ r' = some e)) ∧ fs'.Records u r' := by
  obtain ⟨v, ud, rfl, hv, hid⟩ := id he
  have hplace : ∀ L, fs.locate (userTablePath v) = .ok L → L = fs.table u := by
    intro L hL
    rw [← hv.2]
    exact locate_eq_lexical hL
  have hnone : fs.get (fs.table u) = none → r = none :=
    fun hnew => h.eq_none (h.schema.tree.none_below hnew _)
  cases exec_creatUsrTbl h.schema.tree hexec with
  | found L hL => exact ⟨r, Or.inl rfl, h⟩
  | refused hno => exact ⟨r, Or.inl rfl, h⟩
  | table L hL hnew hbroken =>
      obtain rfl := hplace L hL
      refine ⟨r, Or.inl rfl, h.same hs rfl ?_⟩
      exact FS.get_put_of_ne _ _ (ne_append_singleton _ _).symm
  | record L hL hnew hbroken c hc =>
      obtain rfl := hplace L hL
      rcases hc with rfl | ⟨k, rfl, hfault⟩
      · exact ⟨_, Or.inr ⟨hnone hnew, rfl⟩, put he hs rfl (FS.get_put_self _ _ _)⟩
      · obtain rfl := hfault.write_eq_zero hun
        refine ⟨none, Or.inl (hnone hnew).symm, lose hs rfl (Or.inr (FS.get_put_self _ _ _))⟩
  | complete L hL hnew code hr =>
      obtain rfl := hplace L hL
      refine ⟨_, Or.inr ⟨hnone hnew, rfl⟩, put he hs rfl ?_⟩
      rw [FS.withTable, FS.get_put_of_ne _ _ (userdataEntry_ne_pendMsgsTable _).symm,
        FS.get_put_self]

end FS.Records

/-! ### Any call -/

/-- Erasing at another place, or at the table itself. -/
theorem ErasedAt.records {path : Bytes} {L : Location} {t : List sysE.Event}
    (herased : ErasedAt path L t fs fs') (h : fs.Records u r) (hs : Schema fs') :
    (fs'.Records u r ∨ fs'.Records u none) ∧
      (¬ L <+: fs.table u ++ [userdataEntry] → fs'.Records u r) := by
  refine ⟨?_, fun hno => h.same hs herased.cwd (herased.get_eq hno)⟩
  rcases herased.frame (fs.table u ++ [userdataEntry]) with hsame | ⟨_, _, hnone, _⟩
  · exact Or.inl (h.same hs herased.cwd hsame)
  · exact Or.inr (FS.Records.lose hs herased.cwd (Or.inl hnone))

/-- **A call for a name of the table** does to the database what it does to the record. -/
theorem records_call (h : fs.Records u r) {call : DbCall}
    (hallowed : (tableNames fs.cwd (fs.table u)).Allowed (.db call)) {x : call.Ans}
    (hstep : DbStep untorn fs call x fs') :
    ∃ r', RecordStep (tableNames fs.cwd (fs.table u)) r (.db call) x r' ∧ fs'.Records u r' := by
  have hs : Schema fs' := (dbStep_confined h.schema hallowed hstep).1.schema
  obtain ⟨t, hexec, hun⟩ := id hstep
  cases call with
  | userExists v =>
      obtain ⟨rfl, -⟩ := exec_userExists hexec
      exact ⟨r, rfl, h⟩
  | getPendMsg e =>
      obtain ⟨v, m, rfl, -⟩ := hallowed
      obtain ⟨rfl, -⟩ := exec_getPendMsg h.schema.tree hexec
      exact ⟨r, rfl, h⟩
  | creatUsrTbl e => exact h.create hallowed hs hexec hun
  | delUsrTbl v =>
      have hexec' : Exec SysStep (dbDelUsrTbl fs.depth v) fs t x fs' := hexec
      rw [dbDelUsrTbl] at hexec'
      obtain ⟨t₁, x₁, fs₁, t₂, h₁, h₂, rfl⟩ := exec_bind_iff.mp hexec'
      obtain ⟨rfl, rfl, rfl⟩ := exec_ret_iff.mp h₂
      obtain ⟨-, herased, -⟩ := exec_removeRecursive _ _ _ _ _ _ h.schema.tree h₁
      rcases (herased.records h hs).1 with hsame | hnone
      · exact ⟨r, Or.inl rfl, hsame⟩
      · exact ⟨none, Or.inr rfl, hnone⟩
  | ioOpUsrEnt e mode =>
      cases mode with
      | read =>
          obtain rfl := exec_ioOp_read_frame hexec
          refine ⟨r, ⟨rfl, ?_⟩, h⟩
          rintro v j rfl hv
          exact h.read hv hexec hun
      | create =>
          have hcwd := (dbStep_confined h.schema hallowed hstep).1.cwd
          obtain ⟨v, m, rfl, -, -⟩ := hallowed
          exact ⟨r, rfl, h.same hs hcwd (create_get_userdata hstep _)⟩
      | modify => exact h.modify hallowed hs hexec hun
      | delete =>
          obtain ⟨v, m, rfl, hv⟩ := hallowed
          obtain ⟨-, herased, -⟩ := exec_ioOp_delete h.schema.tree (typed_msg v m) hexec
          refine ⟨r, rfl, (herased.records h hs).2 fun hpre => ?_⟩
          -- the place of a message is longer than that of the record
          have hlex : lexical fs.cwd (entryPath ⟨v, .msg m⟩) =
              msgFile (fs.table u) m.id.toNat := by
            show lexical fs.cwd (pendMsgPath v m.id) = _
            rw [lexical_pendMsgPath, hv.2]
          rw [hlex, msgFile] at hpre
          have hlen := hpre.length_le
          simp at hlen
      | overwrite =>
          obtain rfl := exec_ioOp_overwrite hexec
          exact ⟨r, rfl, h⟩

end Record

/-! ## Interleavings -/

section Threads

variable {ι α : Type} [DecidableEq ι] {fs fs' : FS} {u : Bytes} {r : Option Entry}

/-- **An interleaving on the database is one on the record**, when all threads work for
names of the table of `u`. -/
theorem interleave_record (h : fs.Records u r) {ps ps' : ι → Srv α}
    {t : List (ι × srvE.Event)}
    (hps : ∀ i, (ps i).Obeys (confined (tableNames fs.cwd (fs.table u))) (fun _ _ => True) ())
    (hrun : Interleave SharedStep fs ps t fs' ps') :
    ∃ r', Interleave (RecordStep (tableNames fs.cwd (fs.table u))) r ps t r' ps' ∧
      fs'.cwd = fs.cwd ∧ fs'.Records u r' := by
  refine hrun.simulate (B := fun s r' => s.cwd = fs.cwd ∧ s.Records u r') ?_ hps ⟨rfl, h⟩
  rintro - s r₁ ⟨⟩ o x s' ⟨hcwd, hrecords⟩ hallowed hstep
  have htable : s.table u = fs.table u := by rw [FS.table, FS.table, hcwd]
  cases o with
  | db call =>
      have hallowed' : (tableNames s.cwd (s.table u)).Allowed (.db call) := by
        rw [hcwd, htable]
        exact hallowed
      obtain ⟨htouch, hposs⟩ := dbStep_confined hrecords.schema hallowed' hstep
      obtain ⟨r', hrecord, hrecords'⟩ := records_call hrecords hallowed' hstep
      rw [hcwd, htable] at hposs hrecord
      exact ⟨hposs, r', hrecord, htouch.cwd.trans hcwd, hrecords'⟩
  | _ =>
      obtain rfl : s' = s := hstep
      exact ⟨trivial, r₁, rfl, hcwd, hrecords⟩

end Threads

/-! ## Races -/

/-- What a step does with a record: it reads it, or it rewrites it, which may fail. -/
inductive RecordAct
  | read
  | write (ok : Bool)
  deriving DecidableEq

/-- The act of a step, if it is one. -/
def recordAct : srvE.Event → Option RecordAct
  | ⟨.db (.ioOpUsrEnt _ .read), _⟩ => some .read
  | ⟨.db (.ioOpUsrEnt _ .modify), x⟩ => some (.write (decide (0 ≤ x.1)))
  | _ => none

/-- The acts of all threads on the record, in their order. -/
def recordActs {ι : Type} (t : List (ι × srvE.Event)) : List (ι × RecordAct) :=
  t.filterMap fun e => (recordAct e.2).map (e.1, ·)

/-- How an act changes whether thread `i` is overtaken. -/
def overtakes {ι : Type} [DecidableEq ι] (i : ι) (b : Bool) : ι × RecordAct → Bool
  | (j, .read) => if j = i then false else b
  | (j, .write true) => if j = i then b else true
  | (_, .write false) => b

/-- After these acts, another thread has rewritten the record since thread `i` last read
it. -/
def overtaken {ι : Type} [DecidableEq ι] (i : ι) (acts : List (ι × RecordAct)) : Bool :=
  acts.foldl (overtakes i) false

/-- No thread rewrites the record when it is overtaken. -/
def Unraced {ι : Type} [DecidableEq ι] (t : List (ι × srvE.Event)) : Prop :=
  ∀ before i ok after, recordActs t = before ++ (i, .write ok) :: after →
    overtaken i before = false

section Races

variable {ι : Type} {t : List (ι × srvE.Event)} {i : ι}

theorem recordActs_append (t t' : List (ι × srvE.Event)) :
    recordActs (t ++ t') = recordActs t ++ recordActs t' := List.filterMap_append

/-- A step that is no act on the record. -/
theorem recordActs_snoc_none {ev : srvE.Event} (h : recordAct ev = none) :
    recordActs (t ++ [(i, ev)]) = recordActs t := by
  rw [recordActs_append, recordActs, recordActs, List.filterMap_cons, h]
  simp

theorem recordActs_snoc {ev : srvE.Event} {act : RecordAct} (h : recordAct ev = some act) :
    recordActs (t ++ [(i, ev)]) = recordActs t ++ [(i, act)] := by
  rw [recordActs_append]
  apply congrArg (recordActs t ++ ·)
  rw [recordActs, List.filterMap_cons, h]
  rfl

variable [DecidableEq ι]

theorem overtaken_snoc (i : ι) (acts : List (ι × RecordAct)) (act : ι × RecordAct) :
    overtaken i (acts ++ [act]) = overtakes i (overtaken i acts) act := List.foldl_concat _ _ _ _

/-- What has not been raced, was not raced earlier. -/
theorem Unraced.of_append {t' : List (ι × srvE.Event)} (h : Unraced (t ++ t')) : Unraced t := by
  intro before i ok after heq
  apply h before i ok (after ++ recordActs t')
  rw [recordActs_append, heq, List.append_assoc]
  rfl

/-- A rewriting by a thread that is overtaken, after these acts. -/
def isLate {ι : Type} [DecidableEq ι] (acts : List (ι × RecordAct)) : ι × RecordAct → Bool
  | (i, .write _) => overtaken i acts
  | _ => false

theorem unraced_iff :
    Unraced t ↔ ∀ n, ∀ hn : n < (recordActs t).length,
      isLate ((recordActs t).take n) (recordActs t)[n] = false := by
  rw [← forall_split_iff (P := fun before act => isLate before act = false)]
  constructor
  · rintro h before ⟨i, act⟩ after heq
    cases act with
    | read => rfl
    | write ok => exact h before i ok after heq
  · exact fun h before i ok after heq => h before (i, .write ok) after heq

instance (t : List (ι × srvE.Event)) : Decidable (Unraced t) :=
  decidable_of_iff _ unraced_iff.symm

/-- The latest thread to rewrite the record was not overtaken. -/
theorem Unraced.not_overtaken {ev : srvE.Event} {ok : Bool} (h : Unraced (t ++ [(i, ev)]))
    (hact : recordAct ev = some (.write ok)) : overtaken i (recordActs t) = false :=
  h _ i ok [] (recordActs_snoc hact)

end Races
