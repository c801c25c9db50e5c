/-
# Library calls on accounts

* `FS.Keeps.opens`, `FS.Keeps.closes`: an account is opened and closed;
* `keeps_call`: a call on the user's own entries acts on the file system as it acts on
  the account;
* `Touches.keeps`: requests of other users leave the account alone.
-/
import MessageServer.EntryCalls

/-! ## Accounts that are opened and closed -/

section Tables

variable {calm : Prop} {fs fs' : FS} {u : Bytes} {a : Account}

namespace FS.Keeps

/-! ### An account is opened -/

/-- Where nothing is in the place of the table, nothing is kept. -/
theorem record_none (h : fs.Keeps calm u a) (hnew : fs.get (fs.table u) = none) :
    a.record = none ∧ ∀ id, a.pending id = none := by
  have hbelow := h.schema.tree.none_below hnew
  constructor
  · have hfiled := h.record
    rw [hbelow] at hfiled
    cases hrec : a.record with
    | none => rfl
    | some ud =>
        rw [hrec] at hfiled
        exact absurd (show none = some _ from hfiled) (by simp)
  · intro id
    have hfiled := h.pending id
    rw [msgFile_eq, h.schema.tree.none_below (hbelow _)] at hfiled
    cases hm : a.pending id with
    | none => rfl
    | some m =>
        rw [hm] at hfiled
        exact absurd (show none = some _ from hfiled) (by simp)

/-- A file system in whose table there is at most a record. -/
theorem of_bare {r : Option Userdata} (hs : Schema fs)
    (hrecord : Filed calm (fs.get (fs.table u ++ [userdataEntry]))
      (r.map fun ud => Entry.image ⟨u, .user ud⟩))
    (hempty : ∀ c, fs.get (fs.table u ++ [pendMsgsTable] ++ [c]) = none)
    (hcomplete : calm → r ≠ none → fs.get (fs.table u ++ [pendMsgsTable]) = some .dir)
    (habsent : calm → r = none → fs.get (fs.table u) = none) :
    fs.Keeps calm u ⟨r, fun _ => none, false⟩ := by
  refine ⟨hs, hrecord, fun id => ?_, fun id m hm => ?_, hcomplete, habsent, fun _ c n hn => ?_⟩
  · rw [msgFile_eq, hempty]
    exact Or.inl rfl
  · exact absurd hm (by simp)
  · rw [hempty] at hn
    exact absurd hn (by simp)

theorem opens (h : fs.Keeps calm u a) (hu : slash ∉ u) {ud : Userdata} {x : ℤ} {depth : ℕ}
    {t : List sysE.Event} (hs : Schema fs')
    (hexec : Exec SysStep (dbCreatUsrTbl depth ⟨u, .user ud⟩) fs t x fs') (hun : Untorn t)
    (hno : calm → NoFault t) : ∃ a', a.Opens calm ud x a' ∧ fs'.Keeps calm u a' := by
  have hplace : ∀ L, fs.locate (userTablePath u) = .ok L → L = fs.table u :=
    fun L hL => locate_eq_lexical hL
  have hbelow : fs.get (fs.table u) = none →
      ∀ c c', fs.get (fs.table u ++ [c] ++ [c']) = none := by
    intro hnew c c'
    exact h.schema.tree.none_below (h.schema.tree.none_below hnew c) c'
  have hput : ∀ (fs₁ : FS) (names names' : List Name) (n : Node), names ≠ names' →
      (fs₁.put (fs.table u ++ names) n).get (fs.table u ++ names') =
        fs₁.get (fs.table u ++ names') := by
    intro fs₁ names names' n hne
    apply FS.get_put_of_ne
    intro heq
    exact hne (List.append_cancel_left heq).symm
  have hput' : ∀ (fs₁ : FS) (names' : List Name) (n : Node), names' ≠ [] →
      (fs₁.put (fs.table u) n).get (fs.table u ++ names') = fs₁.get (fs.table u ++ names') := by
    intro fs₁ names' n hne
    have hnil := hput fs₁ [] names' n hne.symm
    rwa [List.append_nil] at hnil
  cases exec_creatUsrTbl h.schema.tree hexec with
  | found L hL =>
      refine ⟨a, Or.inl ⟨rfl, rfl, fun hcalm hnone => ?_⟩, h⟩
      have hget := hL.2
      rw [hplace L hL.1, h.absent hcalm hnone] at hget
      exact absurd hget (by simp)
  | refused hfree =>
      refine ⟨a, Or.inr (Or.inr ⟨rfl, Or.inl rfl, fun hcalm => ⟨rfl, ?_⟩⟩), h⟩
      by_contra hrec
      have hdir := h.schema.tree.parent _ _ _ (h.complete hcalm hrec)
      have hopen := opened_of_dirAt (h.schema.tree.dirAt_table hu hdir) (hno hcalm) hexec
      have hcode := (exec_creatUsrTbl_opened hexec).mpr hopen
      exact absurd hcode (by decide)
  | table L hL hnew hbroken =>
      -- the call broke off with the directory of the user, so the account is a rough one
      obtain rfl := hplace L hL
      have hrough : ¬ calm := fun hcalm => hbroken.not_noFault (hno hcalm)
      refine ⟨.empty, Or.inr (Or.inr ⟨rfl, Or.inr (Or.inr ⟨(h.record_none hnew).1, rfl⟩),
        fun hcalm => absurd hcalm hrough⟩), ?_⟩
      apply of_bare hs
      · show Filed calm ((fs.put _ _).get (fs.table u ++ [userdataEntry])) none
        rw [hput' _ _ _ (by simp), h.schema.tree.none_below hnew]
        exact Or.inl rfl
      · intro c
        show (fs.put _ _).get (fs.table u ++ [pendMsgsTable] ++ [c]) = none
        rw [List.append_assoc, hput' _ _ _ (by simp), ← List.append_assoc]
        exact hbelow hnew _ _
      · exact fun hcalm => absurd hcalm hrough
      · exact fun hcalm => absurd hcalm hrough
  | record L hL hnew hbroken c hc =>
      obtain rfl := hplace L hL
      have hrough : ¬ calm := fun hcalm => hbroken.not_noFault (hno hcalm)
      have hkept : ∀ r : Option Userdata,
          Filed calm (some (.file c)) (r.map fun ud => Entry.image ⟨u, .user ud⟩) →
          ((fs.put (fs.table u) .dir).put (fs.table u ++ [userdataEntry]) (.file c)).Keeps calm u
            ⟨r, fun _ => none, false⟩ := by
        intro r hr
        apply of_bare hs
        · show Filed calm ((FS.put _ _ _).get (fs.table u ++ [userdataEntry])) _
          rw [FS.get_put_self]
          exact hr
        · intro c'
          show (FS.put _ _ _).get (fs.table u ++ [pendMsgsTable] ++ [c']) = none
          rw [List.append_assoc, hput _ _ _ _ (by simp), hput' _ _ _ (by simp),
            ← List.append_assoc]
          exact hbelow hnew _ _
        · exact fun hcalm => absurd hcalm hrough
        · exact fun hcalm => absurd hcalm hrough
      -- the record is whole or has not been begun, as no transfer is torn
      rcases hc with rfl | ⟨k, rfl, hfault⟩
      · exact ⟨.new ud, Or.inr (Or.inr ⟨rfl, Or.inr (Or.inl ⟨(h.record_none hnew).1, rfl⟩),
          fun hcalm => absurd hcalm hrough⟩), hkept (some ud) rfl⟩
      · obtain rfl := hfault.write_eq_zero hun
        exact ⟨.empty, Or.inr (Or.inr ⟨rfl, Or.inr (Or.inr ⟨(h.record_none hnew).1, rfl⟩),
          fun hcalm => absurd hcalm hrough⟩), hkept none (Or.inr ⟨hrough, rfl⟩)⟩
  | complete L hL hnew r hr =>
      obtain rfl := hplace L hL
      have hkept : (fs.withTable (fs.table u) (Entry.image ⟨u, .user ud⟩)).Keeps calm u
          (.new ud) := by
        apply of_bare hs
        · show (FS.put _ _ _).get (fs.table u ++ [userdataEntry]) = some (.file _)
          rw [hput _ _ _ _ (by decide), FS.get_put_self]
        · intro c'
          show (FS.put _ _ _).get (fs.table u ++ [pendMsgsTable] ++ [c']) = none
          rw [List.append_assoc, hput _ _ _ _ (by simp), hput _ _ _ _ (by simp),
            hput' _ _ _ (by simp),
            ← List.append_assoc]
          exact hbelow hnew _ _
        · intro _ _
          exact FS.get_put_self _ _ _
        · intro _ hnone
          exact absurd hnone (by simp)
      rcases hr with rfl | ⟨rfl, hfault⟩
      · exact ⟨.new ud, Or.inr (Or.inl ⟨rfl, (h.record_none hnew).1, rfl⟩), hkept⟩
      · exact ⟨.new ud, Or.inr (Or.inr ⟨rfl, Or.inr (Or.inl ⟨(h.record_none hnew).1, rfl⟩),
          fun hcalm => absurd (hno hcalm) hfault⟩), hkept⟩

/-! ### An account is closed -/

/-- What is left of an account when nodes of its table are erased. -/
theorem of_erased (h : fs.Keeps False u a) {path : Bytes} {t : List sysE.Event} (hs : Schema fs')
    (herased : ErasedAt path (fs.table u) t fs fs') :
    ∃ a', a'.Part a ∧ fs'.Keeps False u a' := by
  have htable : fs'.table u = fs.table u := by rw [FS.table, FS.table, herased.cwd]
  have hsame : ∀ q, fs'.get q ≠ none → fs'.get q = fs.get q := by
    intro q hne
    rcases herased.frame q with heq | ⟨_, _, hnone, _⟩
    · exact heq
    · exact absurd hnone hne
  let rest {α : Type} (q : Location) (o : Option α) : Option α :=
    if fs'.get q = none then none else o
  have hrest : ∀ {α : Type} (q : Location) (o : Option α), rest q o = o ∨
      rest q o = none := by
    intro α q o
    by_cases hq : fs'.get q = none
    · exact Or.inr (if_pos hq)
    · exact Or.inl (if_neg hq)
  have hfiled : ∀ {α : Type} (q : Location) (o : Option α) (f : α → Bytes),
      Filed False (fs.get q) (o.map f) → Filed False (fs'.get q) ((rest q o).map f) := by
    intro α q o f hq
    by_cases hnone : fs'.get q = none
    · rw [show rest q o = none from if_pos hnone, hnone]
      exact Or.inl rfl
    · rw [show rest q o = o from if_neg hnone, hsame q hnone]
      exact hq
  refine ⟨⟨rest (fs.table u ++ [userdataEntry]) a.record,
    fun id => rest (msgFile (fs.table u) id.toNat) (a.pending id), a.stray⟩,
    ⟨hrest _ _, fun id => hrest _ _, rfl⟩, hs, ?_, fun id => ?_, fun id m hm => ?_,
      fun hc => hc.elim,
    fun hc => hc.elim, fun hstray c n hn => ?_⟩
  · rw [htable]
    exact hfiled _ _ _ h.record
  · rw [htable]
    exact hfiled _ _ _ (h.pending id)
  · rcases hrest (msgFile (fs.table u) id.toNat) (a.pending id) with heq | heq
    · exact h.own id m (heq.symm.trans hm)
    · exact absurd (heq.symm.trans hm) (by simp)
  · rw [htable] at hn
    apply h.neat hstray c n
    rw [← hsame _ (by rw [hn]; simp), hn]

/-- The account is kept while its places hold the same. -/
theorem frame (h : fs.Keeps calm u a) (hs : Schema fs') (hcwd : fs'.cwd = fs.cwd)
    (htable : fs'.get (fs.table u) = fs.get (fs.table u))
    (hrecord : fs'.get (fs.table u ++ [userdataEntry]) = fs.get (fs.table u ++ [userdataEntry]))
    (hpend : fs'.get (fs.table u ++ [pendMsgsTable]) = fs.get (fs.table u ++ [pendMsgsTable]))
    (hmsg : ∀ id : UInt32, fs'.get (msgFile (fs.table u) id.toNat) =
        fs.get (msgFile (fs.table u) id.toNat))
    {stray : Bool} (hneat : stray = false → a.stray = false ∧
      ∀ c, fs'.get (fs.table u ++ [pendMsgsTable] ++ [c]) = fs.get
      (fs.table u ++ [pendMsgsTable] ++ [c])) :
    fs'.Keeps calm u { a with stray := stray } := by
  have hplace : fs'.table u = fs.table u := by rw [FS.table, FS.table, hcwd]
  refine ⟨hs, ?_, fun id => ?_, h.own, fun hcalm hrec => ?_, fun hcalm hrec => ?_,
    fun hstray c n hn => ?_⟩
  · rw [hplace, hrecord]
    exact h.record
  · rw [hplace, hmsg]
    exact h.pending id
  · rw [hplace, hpend]
    exact h.complete hcalm hrec
  · rw [hplace, htable]
    exact h.absent hcalm hrec
  · obtain ⟨hold, hsame⟩ := hneat hstray
    rw [hplace, hsame] at hn
    exact h.neat hold c n hn

theorem closes (h : fs.Keeps calm u a) (hu : slash ∉ u) {x : ℤ} {t : List sysE.Event}
    (hs : Schema fs')
    (hexec : Exec SysStep (dbDelUsrTbl fs.depth u) fs t x fs') (hno : calm → NoFault t) :
    ∃ a', a.Closes calm x a' ∧ fs'.Keeps calm u a' := by
  rw [dbDelUsrTbl] at hexec
  obtain ⟨t₁, r, fs₁, t₂, h₁, h₂, rfl⟩ := exec_bind_iff.mp hexec
  obtain ⟨rfl, rfl, rfl⟩ := exec_ret_iff.mp h₂
  rw [List.append_nil] at hno
  obtain ⟨-, herased, hok⟩ := exec_removeRecursive _ _ _ _ _ _ h.schema.tree h₁
  have hplace : fs'.table u = fs.table u := by rw [FS.table, FS.table, herased.cwd]
  by_cases hpos : 0 ≤ r.1
  · have hgone : fs'.get (fs'.table u) = none := by
      rw [hplace]
      exact (hok hpos).2.1
    -- the table is gone, and everything below it
    have hbelow := hs.tree.none_below hgone
    refine ⟨.empty, Or.inl ⟨hpos, rfl⟩,
      of_bare hs ?_ (fun c => hs.tree.none_below (hbelow _) c) ?_ ?_⟩
    · rw [hbelow]
      exact Or.inl rfl
    · exact fun _ hne => absurd rfl hne
    · exact fun _ _ => hgone
  · by_cases hcalm : calm
    · -- without faults only a table that is not there cannot be removed
      have hnot : fs.get (fs.table u) ≠ some .dir := by
        intro hdir
        have hsteady := h.schema.tree.steady_table hu hdir
        rcases removeRecursive_progress _ _ _ _ _ _ _ h.schema.tree hsteady
          (removable_userTablePath hsteady.locate) hdir (h.schema.tree.height _)
            h₁ with hr | hlate
        · exact hpos hr
        · exact hlate.not_noFault (hno hcalm)
      have hrec : a.record = none := by
        by_contra hne
        exact hnot (h.schema.tree.parent _ _ _ (h.complete hcalm hne))
      have hnone := h.absent hcalm hrec
      have hsame : ∀ q, fs'.get q = fs.get q := by
        intro q
        rcases herased.frame q with heq | ⟨names, rfl, hgone, -⟩
        · exact heq
        · rw [hgone]
          cases names with
          | nil =>
              rw [List.append_nil]
              exact hnone.symm
          | cons c names =>
              exact (h.schema.tree.none_of_not_dir hnot c names).symm
      refine ⟨a, Or.inr ⟨not_le.mp hpos, ⟨Or.inl rfl, fun _ => Or.inl rfl, rfl⟩,
        fun _ => ⟨rfl, hrec⟩⟩, ?_⟩
      exact h.frame hs herased.cwd (hsame _) (hsame _) (hsame _) (fun _ => hsame _)
        fun hstray => ⟨hstray, fun _ => hsame _⟩
    · obtain rfl : calm = False := eq_false hcalm
      obtain ⟨a', hpart, hkept⟩ := h.of_erased hs herased
      exact ⟨a', Or.inr ⟨not_le.mp hpos, hpart, fun hc => hc.elim⟩, hkept⟩

end FS.Keeps

/-- **A call on the user's own entries** acts on the file system as it acts on the account. -/
theorem keeps_call (h : fs.Keeps calm u a) (hu : slash ∉ u) (hfits : FitsBuf maxStrSize u)
    {call : DbCall}
    (hallowed : (ownNames u).Allowed (.db call)) {x : call.Ans}
    (hstep : DbStep (tidy calm) fs call x fs') :
    ∃ a', AccountCall calm u a call x a' ∧ fs'.Keeps calm u a' := by
  have hs : Schema fs' := by
    obtain ⟨t, hexec, ht⟩ := hstep
    exact (dbStep_confined h.schema (ownNames_allowed hfits hallowed) ⟨t, hexec, ht.1⟩).1.schema
  obtain ⟨t, hexec, hun, hno⟩ := hstep
  cases call with
  | userExists v =>
      obtain ⟨rfl, -⟩ := exec_userExists hexec
      refine ⟨a, ⟨rfl, fun hcalm hv => ?_⟩, h⟩
      subst hv
      exact (h.userExists hu hexec hno).2 hcalm
  | getPendMsg e =>
      obtain ⟨v, m, rfl, rfl⟩ := hallowed
      obtain ⟨rfl, hfinds⟩ := h.finds hu hfits hexec hun hno
      exact ⟨a, ⟨rfl, m, rfl, hfinds⟩, h⟩
  | creatUsrTbl e =>
      obtain ⟨v, ud, rfl, rfl, -⟩ := hallowed
      obtain ⟨a', hopens, hkept⟩ := h.opens hu hs hexec hun hno
      exact ⟨a', ⟨ud, rfl, hopens⟩, hkept⟩
  | delUsrTbl v =>
      obtain rfl : v = u := hallowed
      obtain ⟨a', hcloses, hkept⟩ := h.closes hu hs hexec hno
      exact ⟨a', ⟨rfl, hcloses⟩, hkept⟩
  | ioOpUsrEnt e mode =>
      cases mode with
      | read =>
          obtain rfl := exec_ioOp_read_frame hexec
          refine ⟨a, ⟨rfl, fun j hj => ?_⟩, h⟩
          subst hj
          exact (h.reads hu hfits hexec hun hno).2
      | create =>
          obtain ⟨v, m, rfl, rfl, hsender, hcontent⟩ := hallowed
          obtain ⟨a', hstores, hkept⟩ := h.stores hu hsender hcontent hs hexec hun hno
          exact ⟨a', ⟨m, rfl, hstores⟩, hkept⟩
      | modify =>
          obtain ⟨v, ud, rfl, rfl, -⟩ := hallowed
          obtain ⟨a', hrewrites, hkept⟩ := h.rewrites hu hs hexec hun hno
          exact ⟨a', ⟨ud, rfl, hrewrites⟩, hkept⟩
      | delete =>
          obtain ⟨v, m, rfl, rfl⟩ := hallowed
          obtain ⟨a', hdrops, hkept⟩ := h.drops hu hs hexec hno
          exact ⟨a', ⟨m, rfl, hdrops⟩, hkept⟩
      | overwrite =>
          obtain rfl := exec_ioOp_overwrite hexec
          exact ⟨a, rfl, h⟩

end Tables

/-! ## Requests of other users -/

section Others

variable {calm : Prop} {fs fs' : FS} {u v : Bytes} {a : Account}

/-- The names `v` whose table meets neither the table of `u` nor anything in it. -/
structure Unrelated (cwd : Location) (v u : Bytes) : Prop where
  apart : Apart cwd v u
  outside : ¬ lexical cwd (userTablePath u) <+: lexical cwd (userTablePath v)

/-- Different names without `/` are unrelated. -/
theorem unrelated_of_noSlash (cwd : Location) (hv : slash ∉ v) (hu : slash ∉ u)
    (hne : v ≠ u) :
    Unrelated cwd v u := by
  refine ⟨apart_of_noSlash cwd hv hu hne, fun hpre => hne ?_⟩
  rw [lexical_noSlash cwd hu, lexical_noSlash cwd hv] at hpre
  have hcons := (List.prefix_append_right_inj cwd).mp hpre
  rw [List.cons_prefix_cons, List.cons_prefix_cons] at hcons
  exact (List.append_cancel_right hcons.2.1).symm

/-- **A request of a user apart** leaves the account as it is, but for what may be added in
the place of the messages. -/
theorem Touches.keeps (h : Touches (fs.table v) fs fs') (hapart : Apart fs.cwd v u)
    (hkept : fs.Keeps calm u a) {stray : Bool}
    (hstray : stray = false → a.stray = false ∧ Unrelated fs.cwd v u) :
    fs'.Keeps calm u { a with stray := stray } := by
  have htrail : ∀ q ∈ trail fs.cwd (pendTablePath u), ¬ fs.table v <+: q := hapart
  have hpend : fs.table u ++ [pendMsgsTable] ∈ trail fs.cwd (pendTablePath u) := by
    have hlex := lexical_mem_trail fs.cwd (pendTablePath u)
    rwa [pendTablePath, lexical_append _ _ plain_pendMsgsTable] at hlex
  have htable : fs.table u ∈ trail fs.cwd (pendTablePath u) :=
    trail_append (lexical_mem_trail fs.cwd (userTablePath u))
  refine hkept.frame h.schema h.cwd (h.frame _ (htrail _ htable)) ?_
    (h.frame _ (htrail _ hpend)) ?_ ?_
  · exact h.frame _ (not_prefix_append (htrail _ htable) (by decide))
  · intro id
    rw [msgFile_eq]
    exact h.frame _ (not_prefix_append (htrail _ hpend) (getLast?_decimal _))
  · intro hs
    obtain ⟨hold, hunrel⟩ := hstray hs
    refine ⟨hold, fun c => h.frame _ fun hpre => ?_⟩
    -- a table below the place of the messages is below the table of `u`
    rcases List.prefix_concat_iff.mp hpre with heq | hpre'
    · apply hunrel.outside
      show fs.table u <+: fs.table v
      rw [heq, List.append_assoc]
      exact List.prefix_append _ _
    · exact htrail _ hpend hpre'

end Others
