/-
# Library calls on the entries of an account

A call on the user's own entries acts on the file system as it acts on the account.

* `ownNames`, `tidy`: the calls on the user's own entries, and when they are said to succeed;
* `FS.Keeps.reads`, `FS.Keeps.rewrites`: the record;
* `FS.Keeps.stores`, `FS.Keeps.drops`, `FS.Keeps.finds`: the messages.
-/
import MessageServer.Account

/-! ## Calls on the user's own entries -/

/-- The user's own name, as a class for the services. -/
def ownNames (u : Bytes) : Confinement where
  Same := (· = u)
  Good := (tableNames [] []).Good
  zero := (tableNames [] []).zero
  next := (tableNames [] []).next

/-- The calls considered: no transfer is torn, and none fails when `calm`. -/
def tidy (calm : Prop) (_ : DbCall) (t : List sysE.Event) : Prop :=
  Untorn t ∧ (calm → NoFault t)

section Calls

variable {calm : Prop} {fs fs' : FS} {u : Bytes} {a : Account}

/-- Own names are names of the own table. -/
theorem ownNames_allowed (hfits : FitsBuf maxStrSize u) {o : SrvOp} (h : (ownNames u).Allowed o) :
    (tableNames fs.cwd (fs.table u)).Allowed o := by
  have hname : ∀ v, v = u → NameOf fs.cwd (fs.table u) v := by
    rintro v rfl
    exact ⟨hfits, rfl⟩
  have huser : ∀ e, (ownNames u).User e → (tableNames fs.cwd (fs.table u)).User e := by
    rintro e ⟨v, ud, rfl, hv, hid⟩
    exact ⟨v, ud, rfl, hname v hv, hid⟩
  cases o with
  | db call =>
      cases call with
      | userExists v => trivial
      | getPendMsg e =>
          obtain ⟨v, m, rfl, hv⟩ := h
          exact ⟨v, m, rfl, hname v hv⟩
      | creatUsrTbl e => exact huser e h
      | delUsrTbl v => exact hname v h
      | ioOpUsrEnt e mode =>
          cases mode with
          | modify => exact huser e h
          | create =>
              obtain ⟨v, m, rfl, hv, hs, hc⟩ := h
              exact ⟨v, m, rfl, hname v hv, hs, hc⟩
          | delete =>
              obtain ⟨v, m, rfl, hv⟩ := h
              exact ⟨v, m, rfl, hname v hv⟩
          | _ => trivial
  | _ => trivial

/-! ### Files of messages -/

/-- The place of another message, and any other place, when one message changes. -/
theorem ne_msgFile_id {L : Location} {id id' : UInt32} (hne : id' ≠ id) :
    msgFile L id'.toNat ≠ msgFile L id.toNat := fun heq =>
  hne (UInt32.toNat_inj.mp (msgFile_inj heq).2)

namespace FS.Keeps

theorem userExists (h : fs.Keeps calm u a) (hu : slash ∉ u) {x : ℤ} {t : List sysE.Event}
    (hexec : Exec SysStep (dbUserExists u) fs t x fs') (hno : calm → NoFault t) :
    fs' = fs ∧ (calm → (x = 1 ↔ a.record ≠ none)) := by
  obtain ⟨rfl, hx⟩ := exec_userExists hexec
  refine ⟨rfl, fun hcalm => ?_⟩
  rcases hx with ⟨rfl, L, hL⟩ | ⟨hneg, hnot⟩
  · refine iff_of_true rfl fun hnone => ?_
    have hget := hL.2
    rw [locate_eq_lexical hL.1, ← FS.table, h.absent hcalm hnone] at hget
    exact absurd hget (by simp)
  · refine iff_of_false (by omega) fun hsome => ?_
    have hdir := h.schema.tree.parent _ _ _ (h.complete hcalm hsome)
    exact hnot (hno hcalm) _ (h.schema.tree.dirAt_table hu hdir)

theorem reads (h : fs.Keeps calm u a) (hu : slash ∉ u) (hfits : FitsBuf maxStrSize u)
    {j : Userdata}
    {x : ℤ × Entry} {depth : ℕ} {t : List sysE.Event}
    (hexec : Exec SysStep (dbIoOpUsrEnt depth ⟨u, .user j⟩ .read) fs t x fs') (hun : Untorn t)
    (hno : calm → NoFault t) : fs' = fs ∧ a.Reads calm u j x := by
  obtain ⟨rfl, hread⟩ := exec_ioOp_read (typed_user u j) hexec
  refine ⟨rfl, ?_⟩
  have hcontent := h.content_record hu
  cases hrec : a.record with
  | none =>
      rw [hrec] at hcontent
      obtain ⟨hneg, heq⟩ := hread.of_nil hcontent
      exact Or.inr ⟨hneg, heq, fun _ => hrec⟩
  | some ud =>
      rw [hrec] at hcontent
      have himage : fs'.content (entryPath ⟨u, .user j⟩) = Entry.image ⟨u, .user ud⟩ :=
        hcontent
      rcases hread.of_image himage (fits_user hfits ud) with hneg | ⟨hok, heq⟩
      · refine Or.inr ⟨hneg, hread.ofUntorn hun hneg, fun hcalm => ?_⟩
        have hok := hread.ofNoFault (hno hcalm) (by rw [himage]; exact image_ne_nil _)
        rw [hok] at hneg
        exact absurd hneg (by decide)
      · exact Or.inl ⟨ud, hrec, Prod.ext hok heq⟩

/-! ### The record is rewritten -/

/-- A new content of the record. -/
theorem put_record (h : fs.Keeps calm u a) {r : Option Userdata} {c : Bytes}
    (hs : Schema (fs.put (fs.table u ++ [userdataEntry]) (.file c)))
    (hfiled : Filed calm (some (.file c)) (r.map fun ud => Entry.image ⟨u, .user ud⟩))
    (hcalm : calm → r ≠ none ∧ a.record ≠ none) :
    (fs.put (fs.table u ++ [userdataEntry]) (.file c)).Keeps calm u { a with record := r } := by
  have hne : ∀ names, names ≠ [userdataEntry] →
      (fs.put (fs.table u ++ [userdataEntry]) (.file c)).get (fs.table u ++ names) =
        fs.get (fs.table u ++ names) := by
    intro names hnames
    apply FS.get_put_of_ne
    intro heq
    exact hnames (List.append_cancel_left heq)
  refine ⟨hs, ?_, fun id => ?_, h.own, fun hc _ => ?_, fun hc hnone => ?_,
    fun hstray c' n hn => ?_⟩
  · show Filed calm ((fs.put _ _).get (fs.table u ++ [userdataEntry])) _
    rw [FS.get_put_self]
    exact hfiled
  · show Filed calm ((fs.put _ _).get (fs.table u ++ [pendMsgsTable, decimal id.toNat])) _
    rw [hne _ (by simp)]
    exact h.pending id
  · show (fs.put _ _).get (fs.table u ++ [pendMsgsTable]) = _
    rw [hne _ (by decide)]
    exact h.complete hc (hcalm hc).2
  · exact absurd hnone (hcalm hc).1
  · have hn' : (fs.put (fs.table u ++ [userdataEntry]) (.file c)).get
        (fs.table u ++ [pendMsgsTable, c']) = some n := by
      rw [← hn, FS.table, List.append_assoc]
      rfl
    rw [hne _ (by simp)] at hn'
    apply h.neat hstray c' n
    rw [List.append_assoc]
    exact hn'

theorem rewrites (h : fs.Keeps calm u a) (hu : slash ∉ u) {ud : Userdata}
    {x : ℤ × Entry} {depth : ℕ}
    {t : List sysE.Event} (hs : Schema fs')
    (hexec : Exec SysStep (dbIoOpUsrEnt depth ⟨u, .user ud⟩ .modify) fs t x fs')
    (hun : Untorn t)
    (hno : calm → NoFault t) : ∃ a', a.Rewrites calm ud x a' ∧ fs'.Keeps calm u a' := by
  obtain ⟨hloc, hfound⟩ := locate_record h.schema.tree hu
  have hsome : ∀ p, fs.Writable .modify p → p = fs.table u ++ [userdataEntry] → calm →
      a.record ≠ none := by
    rintro p ⟨c, hc⟩ rfl hcalm hnone
    have hfiled := h.record
    rw [hnone] at hfiled
    rcases hfiled with hget | ⟨hnot, -⟩
    · rw [hget] at hc
      exact absurd hc (by simp)
    · exact hnot hcalm
  cases exec_ioOp_write (typed_user u ud) (Or.inr rfl) hexec with
  | refused code hcode hfree =>
      refine ⟨a, Or.inr ⟨hcode, Or.inl rfl, fun hcalm => ⟨rfl, ?_⟩⟩, h⟩
      by_contra hrec
      obtain ⟨old, hold⟩ := Option.ne_none_iff_exists'.mp hrec
      have hfiled := h.record
      rw [hold] at hfiled
      have hget : fs.get (fs.table u ++ [userdataEntry]) =
          some (.file (Entry.image ⟨u, .user old⟩)) :=
        hfiled
      exact hfree (hno hcalm) _ (hfound (by rw [hget]; simp)) ⟨_, hget⟩
  | written p hp hfree =>
      obtain rfl := hloc p hp
      refine ⟨_, Or.inl ⟨rfl, rfl, hsome _ hfree rfl⟩, h.put_record hs rfl fun hcalm => ?_⟩
      exact ⟨by simp, hsome _ hfree rfl hcalm⟩
  | torn p k hp hfree hfault =>
      obtain rfl := hloc p hp
      obtain rfl := hfault.write_eq_zero hun
      have hrough : ¬ calm := fun hcalm => hfault.not_noFault (hno hcalm)
      refine ⟨_, Or.inr ⟨dbmsErrAny_neg, Or.inr rfl, fun hcalm => absurd hcalm hrough⟩,
        h.put_record hs (Or.inr ⟨hrough, rfl⟩) fun hcalm => absurd hcalm hrough⟩

/-! ### Messages are stored and dropped -/

/-- What the table of pending messages holds when one message changes. -/
theorem change_message (h : fs.Keeps calm u a) (id : UInt32) (m : Option Message) (hs : Schema fs')
    (hcwd : fs'.cwd = fs.cwd)
    (hframe : ∀ q, q ≠ msgFile (fs.table u) id.toNat → fs'.get q = fs.get q)
    (hfiled : Filed calm (fs'.get (msgFile (fs.table u) id.toNat))
      (m.map fun m => Entry.image ⟨u, .msg m⟩))
    (hown : ∀ m', m = some m' →
      m'.id = id ∧ FitsBuf maxStrSize m'.sender ∧ FitsBuf maxMsgSize m'.content) :
    fs'.Keeps calm u { a with pending := Function.update a.pending id m } := by
  have htable : fs'.table u = fs.table u := by rw [FS.table, FS.table, hcwd]
  have hshort : ∀ names, names.length < 2 →
      fs'.get (fs.table u ++ names) = fs.get (fs.table u ++ names) := by
    intro names hlen
    apply hframe
    intro heq
    have hlen' := congrArg List.length heq
    simp [msgFile] at hlen'
    omega
  refine ⟨hs, ?_, fun id' => ?_, fun id' m' hm' => ?_, fun hc hrec => ?_, fun hc hrec => ?_,
    fun hstray c n hn => ?_⟩
  · rw [htable, hshort _ (by simp)]
    exact h.record
  · rw [htable]
    by_cases hid : id' = id
    · subst hid
      show Filed calm _ (Option.map _ (Function.update a.pending id' m id'))
      rw [Function.update_self]
      exact hfiled
    · show Filed calm _ (Option.map _ (Function.update a.pending id m id'))
      rw [Function.update_of_ne hid, hframe _ (ne_msgFile_id hid)]
      exact h.pending id'
  · by_cases hid : id' = id
    · subst hid
      rw [show m' = m' from rfl] at hm'
      apply hown
      rw [← hm']
      exact (Function.update_self id' m a.pending).symm
    · apply h.own
      rw [← hm']
      exact (Function.update_of_ne hid m a.pending).symm
  · rw [htable, hshort _ (by simp)]
    exact h.complete hc hrec
  · have hnil := hshort [] (by simp)
    rw [List.append_nil] at hnil
    rw [htable, hnil]
    exact h.absent hc hrec
  · rw [htable] at hn
    by_cases hc : c = decimal id.toNat
    · exact ⟨id, hc⟩
    · apply h.neat hstray c n
      rw [← hn]
      refine (hframe _ fun heq => hc ?_).symm
      rw [msgFile_eq] at heq
      exact List.singleton_inj.mp (List.append_inj' heq rfl).2

theorem stores (h : fs.Keeps calm u a) (hu : slash ∉ u) {m : Message}
    (hsender : FitsBuf maxStrSize m.sender) (hcontent : FitsBuf maxMsgSize m.content)
    {x : ℤ × Entry}
    {depth : ℕ} {t : List sysE.Event} (hs : Schema fs')
    (hexec : Exec SysStep (dbIoOpUsrEnt depth ⟨u, .msg m⟩ .create) fs t x fs') (hun : Untorn t)
    (hno : calm → NoFault t) : ∃ a', a.Stores calm m x a' ∧ fs'.Keeps calm u a' := by
  obtain ⟨hloc, hfound⟩ := locate_message h.schema.tree hu m.id
  have hframe : ∀ n q, q ≠ msgFile (fs.table u) m.id.toNat →
      (fs.put (msgFile (fs.table u) m.id.toNat) n).get q = fs.get q :=
    fun n q hq => FS.get_put_of_ne _ _ hq
  -- where nothing is, no message waits
  have hnone : fs.get (msgFile (fs.table u) m.id.toNat) = none → a.pending m.id = none := by
    intro hget
    by_contra hne
    obtain ⟨m', hm'⟩ := Option.ne_none_iff_exists'.mp hne
    have hfiled := h.pending m.id
    rw [hm', hget] at hfiled
    exact absurd (show none = some _ from hfiled) (by simp)
  cases exec_ioOp_write (typed_msg u m) (Or.inl rfl) hexec with
  | refused code hcode hfree =>
      refine ⟨a, Or.inr ⟨hcode, rfl, fun hcalm hrec hpend => ?_⟩, h⟩
      have hfiled := h.pending m.id
      rw [hpend] at hfiled
      rcases hfiled with hget | ⟨hnot, -⟩
      · exact hfree (hno hcalm) _ (hfound (h.complete hcalm hrec)) hget
      · exact hnot hcalm
  | written p hp hfree =>
      obtain rfl := hloc p hp
      refine ⟨_, Or.inl ⟨rfl, hnone hfree, rfl⟩, ?_⟩
      apply h.change_message m.id (some m) hs rfl (hframe _)
      · rw [FS.get_put_self]
        exact rfl
      · rintro m' hm'
        obtain rfl := Option.some.inj hm'
        exact ⟨rfl, hsender, hcontent⟩
  | torn p k hp hfree hfault =>
      obtain rfl := hloc p hp
      obtain rfl := hfault.write_eq_zero hun
      have hrough : ¬ calm := fun hcalm => hfault.not_noFault (hno hcalm)
      refine ⟨a, Or.inr ⟨dbmsErrAny_neg, rfl, fun hcalm => absurd hcalm hrough⟩, ?_⟩
      have hkept := h.change_message m.id none hs rfl (hframe _)
        (by rw [FS.get_put_self]; exact Or.inr ⟨hrough, rfl⟩) (by simp)
      rwa [← hnone hfree, Function.update_eq_self] at hkept

theorem drops (h : fs.Keeps calm u a) (hu : slash ∉ u) {m : Message} {x : ℤ × Entry}
    {t : List sysE.Event} (hs : Schema fs')
    (hexec : Exec SysStep (dbIoOpUsrEnt fs.depth ⟨u, .msg m⟩ .delete) fs t x fs')
    (hno : calm → NoFault t) : ∃ a', a.Drops calm m x a' ∧ fs'.Keeps calm u a' := by
  obtain ⟨hloc, hfound⟩ := locate_message h.schema.tree hu m.id
  rw [dbIoOpUsrEnt_delete (typed_msg u m)] at hexec
  obtain ⟨t₁, r, fs₁, t₂, h₁, h₂, rfl⟩ := exec_bind_iff.mp hexec
  obtain ⟨rfl, rfl, rfl⟩ := exec_ret_iff.mp h₂
  rw [List.append_nil] at hno
  have hdrop : ∀ fs₂ : FS, Schema fs₂ → fs₂.cwd = fs.cwd →
      (∀ q, q ≠ msgFile (fs.table u) m.id.toNat → fs₂.get q = fs.get q) →
      fs₂.get (msgFile (fs.table u) m.id.toNat) = none → fs₂.Keeps calm u (a.drop m.id) :=
    fun fs₂ hs₂ hcwd hframe hnone => h.change_message m.id none hs₂ hcwd hframe
      (by rw [hnone]; exact Or.inl rfl) (by simp)
  cases hget : fs.get (msgFile (fs.table u) m.id.toNat) with
  | none =>
      -- nothing is there: whatever the answer is, nothing changes
      obtain ⟨-, herased, -⟩ := exec_removeRecursive _ _ _ _ _ _ h.schema.tree h₁
      have hlex : lexical fs.cwd (entryPath ⟨u, .msg m⟩) = msgFile (fs.table u) m.id.toNat :=
        lexical_pendMsgPath fs.cwd u m.id
      have hsame : ∀ q, fs'.get q = fs.get q := by
        intro q
        rcases herased.frame q with heq | ⟨names, rfl, hnone, -⟩
        · exact heq
        · rw [hnone, hlex]
          cases names with
          | nil => rw [List.append_nil, hget]
          | cons c names =>
              apply (h.schema.tree.none_of_not_dir _ c names).symm
              rw [hget]
              simp
      have hkept := hdrop fs' hs herased.cwd (fun q _ => hsame q) (by rw [hsame, hget])
      have hpend : a.pending m.id = none := by
        have hfiled := h.pending m.id
        rw [hget] at hfiled
        cases hm : a.pending m.id with
        | none => rfl
        | some m' =>
            rw [hm] at hfiled
            exact absurd (show none = some _ from hfiled) (by simp)
      by_cases hpos : 0 ≤ (if r.1 < 0 then r.1 else dbmsSuccess)
      · exact ⟨_, Or.inl ⟨hpos, rfl⟩, hkept⟩
      · refine ⟨a, Or.inr ⟨not_le.mp hpos, rfl, fun _ => hpend⟩, ?_⟩
        rwa [Account.drop, ← hpend, Function.update_eq_self] at hkept
  | some n =>
      obtain ⟨c, rfl, -⟩ := h.schema.message _ _ _ hget
      have hpath : fs.locate (entryPath ⟨u, .msg m⟩) =
          .ok (msgFile (fs.table u) m.id.toNat) := by
        apply hfound
        apply h.schema.tree.parent _ (decimal m.id.toNat) (.file c)
        rw [← msgFile_eq, hget]
      rcases exec_removeRecursive_file hpath hget h₁ with ⟨hr, rfl⟩ | ⟨hr, rfl, hfault⟩
      · refine ⟨_, Or.inl ⟨?_, rfl⟩, ?_⟩
        · rw [if_neg (by rw [hr]; decide)]
          show 0 ≤ dbmsSuccess
          decide
        · apply hdrop _ hs rfl
          · intro q hq
            rw [FS.get_del, if_neg hq]
          · rw [FS.get_del, if_pos rfl]
      · refine ⟨a, Or.inr ⟨?_, rfl, fun hcalm => absurd (hno hcalm) hfault⟩, h⟩
        rw [if_pos hr]
        exact hr

/-! ### A message is found -/

theorem finds (h : fs.Keeps calm u a) (hu : slash ∉ u)
    (hfits : FitsBuf maxStrSize u) {m : Message}
    {x : ℤ × Entry} {depth : ℕ} {t : List sysE.Event}
    (hexec : Exec SysStep (dbGetPendMsg depth ⟨u, .msg m⟩) fs t x fs') (hun : Untorn t)
    (hno : calm → NoFault t) : fs' = fs ∧ a.Finds calm u m x := by
  obtain ⟨rfl, hpend⟩ := exec_getPendMsg h.schema.tree hexec
  refine ⟨rfl, ?_⟩
  have hchild : ∀ d, d ∈ fs'.children (fs'.table u ++ [pendMsgsTable]) → a.stray = false →
      ∃ id : UInt32, d.name = decimal id.toNat := by
    intro d hd hstray
    obtain ⟨n, hn, -⟩ := FS.mem_children.mp hd
    exact h.neat hstray d.name n hn
  cases hpend with
  | nothing code hcode hempty =>
      refine Or.inl ⟨hcode, rfl, fun hcalm hrec hstray id => ?_⟩
      have hdir := h.complete hcalm hrec
      have hpath : fs'.DirAt (pendTablePath u) (fs'.table u ++ [pendMsgsTable]) :=
        ⟨locate_pendTablePath.mpr ⟨_,
          h.schema.tree.dirAt_table hu (h.schema.tree.parent _ _ _ hdir), rfl⟩,
          hdir⟩
      by_contra hne
      obtain ⟨m', hm'⟩ := Option.ne_none_iff_exists'.mp hne
      have hfiled := h.pending id
      rw [hm', msgFile_eq] at hfiled
      have hget : fs'.get (fs'.table u ++ [pendMsgsTable] ++ [decimal id.toNat]) = some (.file _) :=
        hfiled
      have hd : (⟨decimal id.toNat, false⟩ : Dirent) ∈
          fs'.children (fs'.table u ++ [pendMsgsTable]) :=
        FS.mem_children.mpr ⟨_, hget, rfl⟩
      rcases hempty (hno hcalm) _ hpath _ hd id.toNat with hnum | ⟨d', hd', err, herr⟩
      · exact hnum (strToNum_decimal id)
      · obtain ⟨id', hid'⟩ := hchild d' hd' hstray
        rw [hid', strToNum_decimal] at herr
        exact absurd herr (by simp)
  | found p hp d hd id hid r hread =>
      refine Or.inr ⟨rfl, ?_⟩
      -- the listing gave a number; the account says whether a message has it
      obtain ⟨L, hL, rfl⟩ := locate_pendTablePath.mp hp.1
      obtain rfl : L = fs'.table u := locate_eq_lexical hL.1
      have hcontent := h.content_pending hu id.toNat.toUInt32
      cases hm : a.pending id.toNat.toUInt32 with
      | some m' =>
          obtain ⟨hid', hs, hc⟩ := h.own _ _ hm
          rw [hm] at hcontent
          have himage : fs'.content (entryPath ⟨u, .msg { m with id := id.toNat.toUInt32 }⟩) =
              Entry.image ⟨u, .msg m'⟩ := hcontent
          rcases hread.of_image himage (fits_msg hfits hs hc) with hneg | ⟨-, heq⟩
          · refine Or.inr ⟨fun hcalm => ?_, _, hread.ofUntorn hun hneg⟩
            have hok := hread.ofNoFault (hno hcalm) (by rw [himage]; exact image_ne_nil _)
            rw [hok] at hneg
            exact absurd hneg (by decide)
          · exact Or.inl ⟨m', by rw [hid', hm], heq⟩
      | none =>
          rw [hm] at hcontent
          -- no message has this number: the read finds nothing, and the entry keeps what it held
          obtain ⟨-, heq⟩ := hread.of_nil hcontent
          refine Or.inr ⟨fun hcalm => ?_, _, heq⟩
          by_contra hstray
          obtain ⟨id', hname⟩ := hchild d hd (by simpa using hstray)
          rw [hname, strToNum_decimal] at hid
          obtain rfl : (id'.toNat : ℤ) = id := Except.ok.inj hid
          obtain ⟨n, hn, -⟩ := FS.mem_children.mp hd
          have hfiled := h.pending id'
          have hback : ((id'.toNat : ℤ).toNat).toUInt32 = id' := by simp
          rw [hback] at hm
          rw [hm] at hfiled
          rcases hfiled with hnone | ⟨hnot, -⟩
          · rw [msgFile_eq, ← hname, hn] at hnone
            exact absurd hnone (by simp)
          · exact hnot hcalm

end FS.Keeps

end Calls
