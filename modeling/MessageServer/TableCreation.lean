/-
# The creation of a table (`db_creat_usr_tbl`)

* `CutShort`: a call has failed before the directory of the pending messages was made;
* `FillOutcome`, `exec_fillTable`: the record and the table of messages;
* `exec_creatUsrTbl`: the stages in which a table is built.
-/
import MessageServer.TableBuilding

/-! ## `db_creat_usr_tbl` -/

/-- A call failed after the table's directory was made and before the directory of
its pending messages was. -/
def BrokenOff (u : Bytes) (t : List sysE.Event) : Prop :=
  ∃ t₁ t₂ e t₃, t = t₁ ++ madeEvent (userTablePath u) :: (t₂ ++ e :: t₃) ∧
    Faulted e ∧
    madeEvent (pendTablePath u) ∉ t₂

/-- The file system with a new table at `L`. -/
def FS.withTable (fs : FS) (L : Location) (record : Bytes) : FS :=
  ((fs.put L .dir).put (L ++ [userdataEntry]) (.file record)).put (L ++ [pendMsgsTable]) .dir

/-- What `db_creat_usr_tbl` can do for user `u` with record `ud`. -/
inductive CreatOutcome (fs : FS) (u : Bytes) (ud : Userdata) (t : List sysE.Event) :
    ℤ → FS → Prop
  | found (L : Location) (hL : fs.DirAt (userTablePath u) L) :
      CreatOutcome fs u ud t dbmsErrExists fs
  | refused (hno : NoFault t → ∀ L, fs.locate (userTablePath u) = .ok L → fs.get L ≠ none) :
      CreatOutcome fs u ud t dbmsErrAny fs
  | table (L : Location) (hL : fs.locate (userTablePath u) = .ok L) (hnew : fs.get L = none)
      (hbroken : BrokenOff u t) : CreatOutcome fs u ud t dbmsErrAny (fs.put L .dir)
  | record (L : Location) (hL : fs.locate (userTablePath u) = .ok L) (hnew : fs.get L = none)
      (hbroken : BrokenOff u t) (c : Bytes)
      (hc : c = Entry.image ⟨u, .user ud⟩ ∨
        ∃ k, c = (Entry.image ⟨u, .user ud⟩).take k ∧ FaultIn t (WriteAtOffset k)) :
      CreatOutcome fs u ud t dbmsErrAny ((fs.put L .dir).put (L ++ [userdataEntry]) (.file c))
  | complete (L : Location) (hL : fs.locate (userTablePath u) = .ok L) (hnew : fs.get L = none)
      (r : ℤ) (hr : r = dbmsSuccess ∨ (r = dbmsErrAny ∧ ¬ NoFault t)) :
      CreatOutcome fs u ud t r (fs.withTable L (Entry.image ⟨u, .user ud⟩))

/-! ### Directories that are made -/

/-- The two directories of a user have different paths. -/
theorem pendTablePath_ne_userTablePath (u : Bytes) : pendTablePath u ≠ userTablePath u := by
  intro heq
  have hlen := congrArg List.length heq
  simp [pendTablePath, pendMsgsTable, ascii] at hlen

/-- Directories at different paths are made by different events. -/
theorem madeEvent_ne {p p' : Bytes} (h : p ≠ p') : madeEvent p ≠ madeEvent p' := by
  intro heq
  have hop := congrArg Sigma.fst heq
  exact h (SysOp.mkdir.inj hop)

/-- A call failed before the directory of the pending messages was made. -/
def CutShort (u : Bytes) (t : List sysE.Event) : Prop :=
  ∃ t₁ e t₂, t = t₁ ++ e :: t₂ ∧ Faulted e ∧ madeEvent (pendTablePath u) ∉ t₁

/-! ### A creation that is cut short -/

/-- A fault before anything is made cuts the creation short. -/
theorem cutShort_of_fault {u : Bytes} {t : List sysE.Event}
    (hnot : ∀ p, madeEvent p ∉ t) (hfault : ¬ NoFault t) : CutShort u t := by
  unfold NoFault at hfault
  push Not at hfault
  obtain ⟨e, he, hfault⟩ := hfault
  obtain ⟨t₁, t₂, rfl⟩ := List.append_of_mem he
  exact ⟨t₁, e, t₂, rfl, hfault, fun hmem => hnot _ (List.mem_append_left _ hmem)⟩

/-- It stays cut short, whatever follows. -/
theorem CutShort.append {u : Bytes} {t : List sysE.Event} (h : CutShort u t)
    (t' : List sysE.Event) : CutShort u (t ++ t') := by
  obtain ⟨t₁, e, t₂, rfl, he, hnot⟩ := h
  exact ⟨t₁, e, t₂ ++ t', by simp, he, hnot⟩

/-- And whatever has been done before, if nothing was made. -/
theorem CutShort.prepend {u : Bytes} {t : List sysE.Event} (h : CutShort u t)
    {t' : List sysE.Event} (ht' : ∀ p, madeEvent p ∉ t') : CutShort u (t' ++ t) := by
  obtain ⟨t₁, e, t₂, rfl, he, hnot⟩ := h
  refine ⟨t' ++ t₁, e, t₂, by simp, he, fun hmem => ?_⟩
  rcases List.mem_append.mp hmem with hmem | hmem
  · exact ht' _ hmem
  · exact hnot hmem

/-- Behind the new directory of the user, the table is broken off. -/
theorem CutShort.brokenOff {u : Bytes} {t : List sysE.Event} (h : CutShort u t)
    (x y : Except Errno (List Dirent)) :
    BrokenOff u ([⟨SysOp.opendir (userTablePath u), x⟩, madeEvent (userTablePath u),
      ⟨SysOp.opendir (userTablePath u), y⟩] ++ t) := by
  obtain ⟨t₁, e, t₂, rfl, he, hnot⟩ := h
  refine ⟨[⟨.opendir _, x⟩], ⟨.opendir _, y⟩ :: t₁, e, t₂, rfl, he, fun hmem => ?_⟩
  rcases List.mem_cons.mp hmem with heq | hmem
  · exact absurd (congrArg Sigma.fst heq) (by simp [madeEvent])
  · exact hnot hmem

/-- What `db_creat_usr_tbl` does once the table's directory at `L` is made. -/
inductive FillOutcome (fs : FS) (u : Bytes) (ud : Userdata) (L : Location) (t : List sysE.Event) :
    ℤ → FS → Prop
  | table (hcut : CutShort u t) : FillOutcome fs u ud L t dbmsErrAny fs
  | record (hcut : CutShort u t) (c : Bytes)
      (hc : c = Entry.image ⟨u, .user ud⟩ ∨
        ∃ k, c = (Entry.image ⟨u, .user ud⟩).take k ∧ FaultIn t (WriteAtOffset k)) :
      FillOutcome fs u ud L t dbmsErrAny (fs.put (L ++ [userdataEntry]) (.file c))
  | complete (r : ℤ) (hr : r = dbmsSuccess ∨ (r = dbmsErrAny ∧ ¬ NoFault t)) :
      FillOutcome fs u ud L t r
        ((fs.put (L ++ [userdataEntry]) (.file (Entry.image ⟨u, .user ud⟩))).put
          (L ++ [pendMsgsTable]) .dir)

/-! ### The table is filled -/

/-- The record is not the directory of messages. -/
theorem userdataEntry_ne_pendMsgsTable (L : Location) :
    L ++ [pendMsgsTable] ≠ L ++ [userdataEntry] := by
  intro heq
  exact absurd (List.append_cancel_left heq) (by decide)

/-- Filling the table: the outcome, and whether the directory of the pending messages was
made. -/
theorem exec_fillTable {fs fs' : FS} {u : Bytes} {ud : Userdata} {L : Location}
    (hL : fs.DirAt (userTablePath u) L) (hud : fs.get (L ++ [userdataEntry]) = none)
    (hpend : fs.get (L ++ [pendMsgsTable]) = none) {depth : ℕ} {t : List sysE.Event} {r : ℤ}
    (h : Exec SysStep (dbIoOpUsrEnt depth ⟨u, .user ud⟩ .create >>= fun w =>
      if w.1 < 0 then (return dbmsErrAny : Sys ℤ)
      else openDirectory (pendTablePath u) .create >>= fun p =>
        if p.1 < 0 then return dbmsErrAny
        else sysClosedir >>= fun _ => return dbmsSuccess) fs t r fs') :
    FillOutcome fs u ud L t r fs' ∧
      (madeEvent (pendTablePath u) ∈ t ↔ fs'.get (L ++ [pendMsgsTable]) ≠ none) := by
  obtain ⟨tB, rB, fsB, tC, hB, hrest, rfl⟩ := exec_bind_iff.mp h
  have hnotB : ∀ p, madeEvent p ∉ tB := fun p hmem =>
    hB.performs (performs_ioOp_create _ depth (typed_user _ _)) _ hmem
  have hlocud : fs.locate (userdataPath u) = .ok (L ++ [userdataEntry]) :=
    locate_userdataPath.mpr ⟨L, hL, rfl⟩
  -- how far the record has come
  cases exec_ioOp_write (typed_user u ud) (Or.inl rfl) hB with
  | refused code hcode hno =>
      rw [if_pos hcode] at hrest
      obtain ⟨rfl, rfl, rfl⟩ := exec_ret_iff.mp hrest
      refine ⟨FillOutcome.table
        ((cutShort_of_fault hnotB fun hnofault => hno hnofault _ hlocud hud).append []), ?_⟩
      rw [List.append_nil]
      exact iff_of_false (hnotB _) (not_not.mpr hpend)
  | torn p k hloc hfree hfault =>
      rw [if_pos dbmsErrAny_neg] at hrest
      obtain ⟨rfl, rfl, rfl⟩ := exec_ret_iff.mp hrest
      obtain rfl : p = L ++ [userdataEntry] := Except.ok.inj (hloc.symm.trans hlocud)
      refine ⟨FillOutcome.record ((cutShort_of_fault hnotB hfault.not_noFault).append []) _
        (Or.inr ⟨k, rfl, hfault.append_left⟩), ?_⟩
      rw [List.append_nil, FS.get_put_of_ne _ _ (userdataEntry_ne_pendMsgsTable L)]
      exact iff_of_false (hnotB _) (not_not.mpr hpend)
  | written p hloc hfree =>
      obtain rfl : p = L ++ [userdataEntry] := Except.ok.inj (hloc.symm.trans hlocud)
      rw [if_neg (by simp [dbmsSuccess])] at hrest
      obtain ⟨tP, rP, fsP, tD, hP, hrest', rfl⟩ := exec_bind_iff.mp hrest
      have hlocpend : (fs.put (L ++ [userdataEntry]) (.file (Entry.image ⟨u, .user ud⟩))).locate
          (pendTablePath u) = .ok (L ++ [pendMsgsTable]) := by
        refine FS.locate_mono (FS.cwd_put _ _ _) (fun q hq => ?_)
          (locate_pendTablePath.mpr ⟨L, hL, rfl⟩)
        rw [FS.get_put_of_ne]
        · exact hq
        · rintro rfl
          rw [hud] at hq
          exact absurd hq (by simp)
      have hpend' : (fs.put (L ++ [userdataEntry]) (.file (Entry.image ⟨u, .user ud⟩))).get
          (L ++ [pendMsgsTable]) = none := by
        rw [FS.get_put_of_ne _ _ (userdataEntry_ne_pendMsgsTable L), hpend]
      generalize hcodeP : rP.1 = codeP at hrest'
      have houtP := exec_openDirectory_create hP
      rw [hcodeP] at houtP
      cases houtP with
      | found q hq =>
          obtain rfl : q = L ++ [pendMsgsTable] := Except.ok.inj (hq.1.symm.trans hlocpend)
          rw [hq.2] at hpend'
          exact absurd hpend' (by simp)
      | refused hno hevent =>
          rw [if_pos dbmsErrAny_neg] at hrest'
          obtain ⟨rfl, rfl, rfl⟩ := exec_ret_iff.mp hrest'
          have hcut := cutShort_of_fault (u := u) hevent fun hnofault =>
            hno hnofault _ hlocpend hpend'
          refine ⟨FillOutcome.record ((hcut.append []).prepend hnotB) _ (Or.inl rfl), ?_⟩
          rw [List.append_nil, List.mem_append]
          exact iff_of_false (fun hmem => hmem.elim (hnotB _) (hevent _)) (not_not.mpr hpend')
      | unopened q hq hnew x y ht hfault =>
          obtain rfl : q = L ++ [pendMsgsTable] := Except.ok.inj (hq.symm.trans hlocpend)
          rw [if_pos dbmsErrAny_neg] at hrest'
          obtain ⟨rfl, rfl, rfl⟩ := exec_ret_iff.mp hrest'
          refine ⟨FillOutcome.complete _ (Or.inr ⟨rfl, fun hno => ?_⟩), ?_⟩
          · rw [ht] at hno
            exact hno ⟨.opendir _, y⟩ (by simp) hfault
          · rw [ht, FS.get_put_self]
            exact iff_of_true (by simp) (by simp)
      | made q hq hnew x y ht =>
          obtain rfl : q = L ++ [pendMsgsTable] := Except.ok.inj (hq.symm.trans hlocpend)
          rw [if_neg (by decide)] at hrest'
          obtain ⟨rfl, rfl⟩ := exec_closedir_ret hrest'
          refine ⟨FillOutcome.complete _ (Or.inl rfl), ?_⟩
          rw [ht, FS.get_put_self]
          exact iff_of_true (by simp) (by simp)

/-- A place is not below itself. -/
theorem ne_append_singleton (L : Location) (c : Name) : L ≠ L ++ [c] := fun heq =>
  absurd (congrArg List.length heq) (by simp)

/-! ### The whole call -/

/-- To make the directory of the user makes no directory of messages. -/
theorem not_mem_opened (u : Bytes) (x y : Except Errno (List Dirent)) :
    madeEvent (pendTablePath u) ∉ ([⟨SysOp.opendir (userTablePath u), x⟩,
      madeEvent (userTablePath u), ⟨SysOp.opendir (userTablePath u), y⟩] :
      List sysE.Event) := by
  intro hmem
  rcases List.mem_cons.mp hmem with heq | hmem
  · exact absurd (congrArg Sigma.fst heq) (by simp [madeEvent])
  rcases List.mem_cons.mp hmem with heq | hmem
  · exact madeEvent_ne (pendTablePath_ne_userTablePath u) heq
  · exact absurd (congrArg Sigma.fst (List.mem_singleton.mp hmem)) (by simp [madeEvent])

/-- **`db_creat_usr_tbl`**: the outcome, and whether the directory of the pending messages
was made. -/
theorem exec_creatUsrTbl_made {fs fs' : FS} (htree : fs.Tree) {u : Bytes} {ud : Userdata}
    {depth : ℕ} {t : List sysE.Event} {r : ℤ}
    (h : Exec SysStep (dbCreatUsrTbl depth ⟨u, .user ud⟩) fs t r fs') :
    CreatOutcome fs u ud t r fs' ∧ (madeEvent (pendTablePath u) ∈ t ↔
      ∃ L, fs.locate (userTablePath u) = .ok L ∧ fs.get L = none ∧
        fs' = fs.withTable L (Entry.image ⟨u, .user ud⟩)) := by
  rw [dbCreatUsrTbl] at h
  obtain ⟨tA, rA, fsA, tB, hA, hrest, rfl⟩ := exec_bind_iff.mp h
  have hfoundA := exec_openDirectory_found hA
  generalize hcodeA : rA.1 = codeA at hrest
  have houtA := exec_openDirectory_create hA
  rw [hcodeA] at houtA hfoundA
  -- a new table has a directory of pending messages
  have hwith : ∀ L, (fs.withTable L (Entry.image ⟨u, .user ud⟩)).get (L ++ [pendMsgsTable]) =
      some .dir := fun L => FS.get_put_self _ _ _
  cases houtA with
  | found L hL =>
      obtain ⟨-, l, rfl⟩ := hfoundA.resolve_right fun hne => hne.1 rfl
      rw [if_pos rfl] at hrest
      obtain ⟨_, fs₁, t₁, hclose, hret, rfl⟩ := exec_perform_bind_iff.mp hrest
      obtain ⟨rfl, rfl, rfl⟩ := exec_ret_iff.mp hret
      obtain rfl := hclose.closedir
      refine ⟨CreatOutcome.found L hL, iff_of_false (fun hmem => ?_) ?_⟩
      · simp only [List.singleton_append, List.mem_cons, List.not_mem_nil, or_false] at hmem
        rcases hmem with heq | heq
        · exact absurd (congrArg Sigma.fst heq) (by simp [madeEvent])
        · exact absurd (congrArg Sigma.fst heq) (by simp [madeEvent])
      · rintro ⟨L', hL', hnew, -⟩
        obtain rfl : L' = L := Except.ok.inj (hL'.symm.trans hL.1)
        rw [hL.2] at hnew
        exact absurd hnew (by simp)
  | refused hno hevent =>
      rw [if_neg (by decide), if_pos (by decide)] at hrest
      obtain ⟨rfl, rfl, rfl⟩ := exec_ret_iff.mp hrest
      refine ⟨CreatOutcome.refused fun ht => hno ht.of_append_left, iff_of_false ?_ ?_⟩
      · rw [List.append_nil]
        exact hevent _
      · rintro ⟨L, -, hnew, heq⟩
        have hpend := hwith L
        rw [← heq, htree.none_below hnew] at hpend
        exact absurd hpend (by simp)
  | unopened L hL hnew x y ht hfault =>
      rw [if_neg (by decide), if_pos (by decide)] at hrest
      obtain ⟨rfl, rfl, rfl⟩ := exec_ret_iff.mp hrest
      refine ⟨CreatOutcome.table L hL hnew ?_, iff_of_false ?_ ?_⟩
      · refine ⟨[⟨.opendir (userTablePath u), x⟩], [],
          ⟨.opendir (userTablePath u), y⟩, [], ?_,
          hfault, by simp⟩
        rw [ht]
        rfl
      · rw [List.append_nil, ht]
        exact not_mem_opened u x y
      · rintro ⟨L', hL', -, heq⟩
        obtain rfl : L' = L := Except.ok.inj (hL'.symm.trans hL)
        have hpend := hwith L'
        rw [← heq, FS.get_put_of_ne _ _ (ne_append_singleton L' _).symm,
          htree.none_below hnew] at hpend
        exact absurd hpend (by simp)
  | made L hL hnew x y ht =>
      rw [if_neg (by decide), if_neg (by decide)] at hrest
      have hbelow : ∀ c, (fs.put L .dir).get (L ++ [c]) = none := by
        intro c
        rw [FS.get_put_of_ne _ _ (ne_append_singleton L c).symm]
        exact htree.none_below hnew c
      obtain ⟨hfill, hmade⟩ :=
        exec_fillTable ⟨locate_put_dir hnew hL, FS.get_put_self _ _ _⟩
        (hbelow _) (hbelow _) hrest
      -- only a complete table has a directory of pending messages
      have hmem : madeEvent (pendTablePath u) ∈ tA ++ tB ↔
          fs'.get (L ++ [pendMsgsTable]) ≠ none := by
        rw [List.mem_append, ht, ← hmade]
        exact or_iff_right (not_mem_opened u x y)
      have hincomplete : fs'.get (L ++ [pendMsgsTable]) = none →
          (madeEvent (pendTablePath u) ∈ tA ++ tB ↔
            ∃ L, fs.locate (userTablePath u) = .ok L ∧
            fs.get L = none ∧ fs' = fs.withTable L (Entry.image ⟨u, .user ud⟩)) := by
        intro hnone
        rw [hmem]
        refine iff_of_false (not_not.mpr hnone) ?_
        rintro ⟨L', hL', -, heq⟩
        obtain rfl : L' = L := Except.ok.inj (hL'.symm.trans hL)
        have hpend := hwith L'
        rw [← heq, hnone] at hpend
        exact absurd hpend (by simp)
      cases hfill with
      | table hcut =>
          refine ⟨CreatOutcome.table L hL hnew ?_, hincomplete (hbelow _)⟩
          rw [ht]
          exact hcut.brokenOff x y
      | record hcut c hc =>
          refine ⟨CreatOutcome.record L hL hnew ?_ c ?_, hincomplete ?_⟩
          · rw [ht]
            exact hcut.brokenOff x y
          · refine hc.imp_right fun hpart => ?_
            obtain ⟨k, hk, hfault⟩ := hpart
            exact ⟨k, hk, hfault.append_right⟩
          · rw [FS.get_put_of_ne _ _ (userdataEntry_ne_pendMsgsTable L)]
            exact hbelow _
      | complete _ hr =>
          refine ⟨CreatOutcome.complete L hL hnew _ (hr.imp_right
            fun hr => ⟨hr.1, fun hno => ?_⟩), ?_⟩
          · exact hr.2 hno.of_append_right
          · rw [hmem, FS.get_put_self]
            exact iff_of_true (by simp) ⟨L, hL, hnew, rfl⟩

/-- **`db_creat_usr_tbl`** -/
theorem exec_creatUsrTbl {fs fs' : FS} (htree : fs.Tree) {u : Bytes} {ud : Userdata} {depth : ℕ}
    {t : List sysE.Event} {r : ℤ}
    (h : Exec SysStep (dbCreatUsrTbl depth ⟨u, .user ud⟩) fs t r fs') :
    CreatOutcome fs u ud t r fs' :=
  (exec_creatUsrTbl_made htree h).1
