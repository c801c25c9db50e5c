/-
# What a call changes

A library call for a name of table `L` changes few places: the table itself while it is
built, its record, its messages; only `db_del_usr_tbl` erases more.  Each change says what was
there before.

* `Change`: what may stand in a place behind such a call;
* `dbStep_change`: a call makes no other changes;
* `Labelled`: a message file holds a message of its own id;
* `Reachable.labelled`: so it is in every database that requests lead to.
-/
import MessageServer.Schema

/-! ## Changes -/

/-- The call deletes a table. -/
def DbCall.Wipes (call : DbCall) : Prop := ∃ u, call = .delUsrTbl u

/-- What may be in a place behind a call for a name of table `L`. -/
inductive Change (fs : FS) (L : Location) (call : DbCall) : Location → Option Node → Prop
  | same (q : Location) : Change fs L call q (fs.get q)
  | erased (q : Location) (hcall : call.Wipes) (hq : L <+: q) : Change fs L call q none
  | dropped (id : UInt32) : Change fs L call (msgFile L id.toNat) none
  | table (hnew : fs.get L = none) : Change fs L call L (some .dir)
  | pending (hnew : fs.get L = none) : Change fs L call (L ++ [pendMsgsTable]) (some .dir)
  | record (c : Bytes) (hc : RecordOf fs.cwd L c)
      (hold : (∃ c', fs.get (L ++ [userdataEntry]) = some (.file c')) ∨ fs.get L = none) :
      Change fs L call (L ++ [userdataEntry]) (some (.file c))
  | message (u : Bytes) (m : Message) (hfits : Entry.Fits ⟨u, .msg m⟩) (c : Bytes)
      (hc : c = [] ∨ c = Entry.image ⟨u, .msg m⟩) :
      Change fs L call (msgFile L m.id.toNat) (some (.file c))

section Calls

variable {fs fs' : FS} {L : Location} {call : DbCall}

/-- A place that is put, and the others. -/
theorem change_put {q : Location} {n : Node} (h : Change fs L call q (some n)) (p : Location) :
    Change fs L call p ((fs.put q n).get p) := by
  rw [FS.get_put]
  split
  · rename_i heq
    rw [heq]
    exact h
  · exact Change.same p

theorem change_delUsrTbl (hs : Schema fs) {u : Bytes} (hu : NameOf fs.cwd L u) {depth : ℕ}
    {t : List sysE.Event} {r : ℤ} (h : Exec SysStep (dbDelUsrTbl depth u) fs t r fs')
    (q : Location) :
    Change fs L (.delUsrTbl u) q (fs'.get q) := by
  rw [dbDelUsrTbl] at h
  obtain ⟨t₁, r₁, fs₁, t₂, h₁, h₂, rfl⟩ := exec_bind_iff.mp h
  obtain ⟨rfl, rfl, rfl⟩ := exec_ret_iff.mp h₂
  obtain ⟨-, herased, -⟩ := exec_removeRecursive _ _ _ _ _ _ hs.tree h₁
  rw [hu.2] at herased
  rcases herased.frame q with heq | ⟨names, rfl, hnone, -⟩
  · rw [heq]
    exact Change.same q
  · rw [hnone]
    exact Change.erased _ ⟨u, rfl⟩ (List.prefix_append _ _)

/-- Below a message there is nothing. -/
theorem Schema.below_message (hs : Schema fs) (id : UInt32) (c : Name) (names : Location) :
    fs.get (msgFile L id.toNat ++ c :: names) = none := by
  apply hs.tree.none_of_not_dir
  intro hdir
  obtain ⟨c', hc', -⟩ := hs.message _ _ _ hdir
  exact absurd hc' (by simp)

theorem change_delete (hs : Schema fs) {e : Entry} (he : (tableNames fs.cwd L).Msg e) {depth : ℕ}
    {t : List sysE.Event} {r : ℤ × Entry}
    (h : Exec SysStep (dbIoOpUsrEnt depth e .delete) fs t r fs')
    (q : Location) : Change fs L call q (fs'.get q) := by
  obtain ⟨u, m, rfl, hu⟩ := he
  obtain ⟨-, herased, -⟩ := exec_ioOp_delete hs.tree (typed_msg _ _) h
  have hlex : lexical fs.cwd (entryPath ⟨u, .msg m⟩) = msgFile L m.id.toNat := by
    show lexical fs.cwd (pendMsgPath u m.id) = _
    rw [lexical_pendMsgPath, hu.2]
  rw [hlex] at herased
  rcases herased.frame q with heq | ⟨names, rfl, hnone, -⟩
  · rw [heq]
    exact Change.same q
  · rw [hnone]
    cases names with
    | nil =>
        rw [List.append_nil]
        exact Change.dropped m.id
    | cons c names =>
        rw [← hs.below_message (L := L) m.id c names]
        exact Change.same _

theorem change_modify {e : Entry} (he : (tableNames fs.cwd L).User e) {depth : ℕ}
    {t : List sysE.Event} {r : ℤ × Entry}
    (h : Exec SysStep (dbIoOpUsrEnt depth e .modify) fs t r fs')
    (ht : Untorn t) (q : Location) : Change fs L call q (fs'.get q) := by
  have hrec := recordOf_user he
  obtain ⟨u, ud, rfl, hu, -⟩ := he
  have hput : ∀ p c, fs.locate (userdataPath u) = .ok p → fs.Writable .modify p →
      RecordOf fs.cwd L c → Change fs L call q ((fs.put p (.file c)).get q) := by
    intro p c hp hfree hc
    obtain ⟨L', hL', rfl⟩ := locate_userdataPath.mp hp
    obtain rfl := hL'.nameOf rfl hu
    exact change_put (Change.record c hc (Or.inl hfree)) q
  cases exec_ioOp_write (typed_user _ _) (Or.inr rfl) h with
  | refused code hcode hfree => exact Change.same q
  | written p hloc hfree => exact hput p _ hloc hfree hrec
  | torn p k hloc hfree hfault =>
      exact hput p _ hloc hfree (recordOf_take (hfault.write_eq_zero ht))

theorem change_create {e : Entry} (he : (tableNames fs.cwd L).Stored e) {depth : ℕ}
    {t : List sysE.Event} {r : ℤ × Entry}
    (h : Exec SysStep (dbIoOpUsrEnt depth e .create) fs t r fs')
    (ht : Untorn t) (q : Location) : Change fs L call q (fs'.get q) := by
  obtain ⟨u, m, rfl, hu, hsender, hcontent⟩ := he
  have hput : ∀ p c, fs.locate (pendMsgPath u m.id) = .ok p → c = [] ∨
      c = Entry.image ⟨u, .msg m⟩ →
      Change fs L call q ((fs.put p (.file c)).get q) := by
    intro p c hp hc
    obtain ⟨L', hL', -, -, rfl⟩ := locate_pendMsgPath.mp hp
    obtain rfl := hL'.nameOf rfl hu
    exact change_put (Change.message u m (fits_msg hu.1 hsender hcontent) c hc) q
  cases exec_ioOp_write (typed_msg _ _) (Or.inl rfl) h with
  | refused code hcode hfree => exact Change.same q
  | written p hloc hfree => exact hput p _ hloc (Or.inr rfl)
  | torn p k hloc hfree hfault =>
      apply hput p _ hloc
      rw [hfault.write_eq_zero ht]
      exact Or.inl rfl

theorem change_creatUsrTbl (hs : Schema fs) {e : Entry}
    (he : (tableNames fs.cwd L).User e) {depth : ℕ}
    {t : List sysE.Event} {r : ℤ} (h : Exec SysStep (dbCreatUsrTbl depth e) fs t r fs')
    (ht : Untorn t)
    (q : Location) : Change fs L call q (fs'.get q) := by
  have hrec := recordOf_user he
  obtain ⟨u, ud, rfl, hu, -⟩ := he
  have hplace : ∀ L', fs.locate (userTablePath u) = .ok L' → L' = L := by
    intro L' hL'
    rw [← hu.2]
    exact locate_eq_lexical hL'
  -- the record is put into a new table
  have hrecord : ∀ c, fs.get L = none → RecordOf fs.cwd L c →
      Change fs L call q (((fs.put L .dir).put (L ++ [userdataEntry]) (.file c)).get q) := by
    intro c hnew hc
    rw [FS.get_put]
    split
    · rename_i heq
      rw [heq]
      exact Change.record c hc (Or.inr hnew)
    · exact change_put (Change.table hnew) q
  cases exec_creatUsrTbl hs.tree h with
  | found L' hL' => exact Change.same q
  | refused hno => exact Change.same q
  | table L' hL' hnew hbroken =>
      obtain rfl := hplace L' hL'
      exact change_put (Change.table hnew) q
  | record L' hL' hnew hbroken c hc =>
      obtain rfl := hplace L' hL'
      refine hrecord c hnew ?_
      rcases hc with rfl | ⟨k, rfl, hfault⟩
      · exact hrec
      · exact recordOf_take (hfault.write_eq_zero ht)
  | complete L' hL' hnew r hr =>
      obtain rfl := hplace L' hL'
      show Change fs L' call q ((((fs.put L' .dir).put (L' ++ [userdataEntry]) (.file _)).put
        (L' ++ [pendMsgsTable]) .dir).get q)
      rw [FS.get_put]
      split
      · rename_i heq
        rw [heq]
        exact Change.pending hnew
      · exact hrecord _ hnew hrec

/-- **What a call for a name of table `L` changes.** -/
theorem dbStep_change (hs : Schema fs) (hallowed : (tableNames fs.cwd L).Allowed (.db call))
    {x : call.Ans} (h : DbStep untorn fs call x fs') (q : Location) :
    Change fs L call q (fs'.get q) := by
  obtain ⟨t, hexec, ht⟩ := h
  cases call with
  | userExists u =>
      obtain ⟨rfl, -⟩ := exec_userExists hexec
      exact Change.same q
  | getPendMsg e =>
      obtain ⟨rfl, -⟩ := possible_getPendMsg hs hallowed hexec ht
      exact Change.same q
  | creatUsrTbl e => exact change_creatUsrTbl hs hallowed hexec ht q
  | delUsrTbl u => exact change_delUsrTbl hs hallowed hexec q
  | ioOpUsrEnt e mode =>
      cases mode with
      | read =>
          obtain rfl := exec_ioOp_read_frame hexec
          exact Change.same q
      | create => exact change_create hallowed hexec ht q
      | modify => exact change_modify hallowed hexec ht q
      | delete => exact change_delete hs hallowed hexec q
      | overwrite =>
          obtain rfl := exec_ioOp_overwrite hexec
          exact Change.same q

end Calls

/-! ## The files of messages -/

/-- A message file holds a message of its own id, or nothing. -/
def Labelled (fs : FS) : Prop :=
  ∀ L (id : UInt32) c, fs.get (msgFile L id.toNat) = some (.file c) →
    c = [] ∨ ∃ u m, c = Entry.image ⟨u, .msg m⟩ ∧ Entry.Fits ⟨u, .msg m⟩ ∧ m.id = id

theorem FS.Fresh.labelled {fs : FS} (h : fs.Fresh) : Labelled fs := by
  intro L id c hc
  rw [h.noMessage] at hc
  exact absurd hc (by simp)

section Labels

variable {fs fs' : FS} {L : Location}

/-- What is new in the place of a message is the message. -/
theorem Change.label (h : Labelled fs) {c₀ : DbCall} {L' : Location} {id : UInt32} {c : Bytes}
    {n : Option Node} {q : Location} (hchange : Change fs L c₀ q n) (hq : q = msgFile L' id.toNat)
    (hn : n = some (.file c)) :
    c = [] ∨ ∃ u m, c = Entry.image ⟨u, .msg m⟩ ∧ Entry.Fits ⟨u, .msg m⟩ ∧
      m.id = id := by
  cases hchange with
  | same =>
      subst hq
      exact h L' id c hn
  | erased => exact absurd hn (by simp)
  | dropped => exact absurd hn (by simp)
  | table => exact absurd hn (by simp)
  | pending => exact absurd hn (by simp)
  | record => exact absurd hq.symm (msgFile_ne_userdata _ _ _)
  | message u m hfits c' hc' =>
      obtain rfl : c' = c := Node.file.inj (Option.some.inj hn)
      have hid : m.id = id := UInt32.toNat_inj.mp (msgFile_inj hq).2
      exact hc'.imp_right fun himage => ⟨u, m, himage, hfits, hid⟩

/-- **A call for a name of table `L`** keeps the labels. -/
theorem Labelled.call (h : Labelled fs) (hs : Schema fs) {c₀ : DbCall}
    (hallowed : (tableNames fs.cwd L).Allowed (.db c₀)) {x : c₀.Ans}
    (hstep : DbStep untorn fs c₀ x fs') :
    Labelled fs' :=
  fun _ _ _ hc => (dbStep_change hs hallowed hstep _).label h rfl hc

end Labels

/-! ## Invariants of the database -/

/-- The table that a request works for. -/
def Req.table (cwd : Location) (req : Req) : Location :=
  match req.user with
  | some u => lexical cwd (userTablePath u)
  | none => []

theorem Req.Fits.confined {cwd : Location} {req : Req} (h : req.Fits) (fuel : ℕ) :
    (req.body fuel).Obeys (confined (tableNames cwd (req.table cwd))) (fun _ _ => True) () := by
  refine body_confined fuel h fun u hu => ⟨(h.user hu).mono (by decide), ?_⟩
  rw [Req.table, hu]

section Runs

variable {I : FS → Prop} {fs fs' : FS}

/-- What every call of a confined program keeps, every request keeps. -/
theorem RequestStep.keeps (hs : Schema fs) (h0 : I fs)
    (hI : ∀ L fs call (x : call.Ans) fs', Schema fs → I fs →
        (tableNames fs.cwd L).Allowed (.db call) →
      DbStep untorn fs call x fs' → I fs')
    {req : Req} (h : RequestStep untorn fs req fs') : I fs' := by
  obtain ⟨hfits, t, fuel, hexec⟩ := h
  exact exec_confined (N := fun _ => True) hs h0
    (fun fs call x fs' hs h0 _ => hI _ fs call x fs' hs h0)
    (hfits.confined fuel) rfl hexec fun _ _ _ _ => trivial

/-- So it holds in every database that requests lead to. -/
theorem Reachable.keeps (hfresh : ∀ fs, fs.Fresh → I fs)
    (hI : ∀ L fs call (x : call.Ans) fs', Schema fs → I fs →
        (tableNames fs.cwd L).Allowed (.db call) →
      DbStep untorn fs call x fs' → I fs')
    (h : Reachable fs) : I fs := by
  obtain ⟨fs₀, reqs, hfresh₀, hrun⟩ := h
  have hboth : Schema fs ∧ I fs := by
    refine Run.invariant (I := fun _ fs => Schema fs ∧ I fs) hrun ⟨hfresh₀.schema,
      hfresh _ hfresh₀⟩ ?_
    rintro _ s req s' ⟨hs, h0⟩ hstep
    exact ⟨hstep.schema hs, RequestStep.keeps hs h0 hI hstep⟩
  exact hboth.2

/-- **In a reachable database** the messages are where their ids say. -/
theorem Reachable.labelled (h : Reachable fs) : Labelled fs :=
  h.keeps (fun _ hfresh => hfresh.labelled) fun _ _ _ _ _ hs hlabelled hallowed hstep =>
    hlabelled.call hs hallowed hstep

end Runs
