/-
# How `CONNECT` decides

The reply code of `srv_connect` is also what steers it, and is not assigned on every path.

* `srvConnectFront`: the handler up to the drain;
* `Settled`: what becomes of the record, and the reply;
* `FS.entry`, `connectCode`: the entry of a user, and the reply that goes with it;
* `connect_decided_iff`: the handler decides so exactly when the name leads to a record whose own
  name still does, and the code that was never assigned does not say `SRV_ERR_CN_ANY`;
* `InRange`, `connect_port_iff`: the ports that are stored as they are named.
-/
import MessageServer.Erasure
import MessageServer.FailedWrite

/-! ## The handler up to the drain -/

/-- `srv_connect`, until the reply is sent. -/
def srvConnectFront (username port : Bytes) : Srv Junk := do
  let junk ← uninit
  let r ← callIoOpUsrEnt ⟨username, .user junk.user⟩ .read
  let code ← srvConnectReply port junk.byte r.1 r.2
  let _ ← sendServerReply code
  return junk

/-- What follows is the drain. -/
theorem srvConnectBody_eq (fuel : ℕ) (username port : Bytes) :
    srvConnectBody fuel username port = srvConnectFront username port >>= fun junk =>
      auxConnectSendPendMsgs fuel ⟨username, .msg junk.msg⟩ >>= fun result =>
        return result.map fun _ => () := by
  rw [srvConnectFront]
  simp only [bind_assoc]
  rfl

/-- The entry that `CONNECT` writes. -/
def Entry.connected (e : Entry) (number : ℤ) (ip : UInt32) : Entry :=
  e.mapUser fun u =>
    { u with status := statusCn, port := (number % 65536).toNat.toUInt16, ip := ip }

/-- `getpeername` failed. -/
def unknownPeer : srvE.Event → Bool
  | ⟨.getpeername, none⟩ => true
  | _ => false

/-- `getpeername` failed in a run. -/
def PeerUnknown (t : List srvE.Event) : Prop := ∃ ev ∈ t, unknownPeer ev = true

instance (t : List srvE.Event) : Decidable (PeerUnknown t) :=
  inferInstanceAs (Decidable (∃ ev ∈ t, unknownPeer ev = true))

/-- What `srv_connect` makes of the result `x` of its `READ`. -/
inductive Settled (T : DbCall → List sysE.Event → Prop) (fs : FS) (port : Bytes) (byte : UInt8)
    (x : ℤ × Entry) (t : List srvE.Event) : UInt8 → FS → Prop
  | unread (hx : x.1 < 0) : Settled T fs port byte x t
      (if x.1 = dbmsErrNotExists then srvErrCnUsrNotExists else srvErrCnAny) fs
  | already (hx : 0 ≤ x.1) (hstatus : x.2.user.status = statusCn) :
      Settled T fs port byte x t srvErrCnUsrAlreadyCn fs
  | refused (hx : 0 ≤ x.1) (hstatus : x.2.user.status ≠ statusCn)
      (hwhy : (∃ err, strToNum port .int = .error err) ∨ PeerUnknown t ∨ byte = srvErrCnAny) :
      Settled T fs port byte x t srvErrCnAny fs
  | wrote (hx : 0 ≤ x.1) (hstatus : x.2.user.status ≠ statusCn) (hbyte : byte ≠ srvErrCnAny)
      (number : ℤ) (hnumber : strToNum port .int = .ok number) (ip : UInt32)
      (y : ℤ × Entry) (fs' : FS)
      (hy : DbStep T fs (.ioOpUsrEnt (x.2.connected number ip) .modify) y fs') :
      Settled T fs port byte x t (if y.1 = dbmsErrNotExists then srvErrCnUsrNotExists
        else if y.1 < 0 then srvErrCnAny else srvSuccess) fs'

section Deciding

variable {T : DbCall → List sysE.Event → Prop} {fs fs' : FS} {u port : Bytes} {byte : UInt8}
  {input : List ReadEv} {x : ℤ × Entry} {t t' : List srvE.Event} {code : UInt8}

theorem Settled.mono (h : Settled T fs port byte x t code fs') (ht : ∀ ev ∈ t, ev ∈ t') :
    Settled T fs port byte x t' code fs' := by
  cases h with
  | unread hx => exact .unread hx
  | already hx hstatus => exact .already hx hstatus
  | refused hx hstatus hwhy =>
      exact .refused hx hstatus
        (hwhy.imp_right (Or.imp_left fun ⟨ev, hev, heq⟩ => ⟨ev, ht ev hev, heq⟩))
  | wrote hx hstatus hbyte number hnumber ip y _ hy =>
      exact .wrote hx hstatus hbyte number hnumber ip y _ hy

/-- The part of `srv_connect` that decides. -/
theorem must_srvConnectReply_settled : (srvConnectReply port byte x.1 x.2).Must (SrvStep T)
    (fun t code w' => Settled T fs port byte x t code w'.fs ∧ w'.input = input ∧
      ∀ bytes, Act.replied bytes ∉ acts t) ⟨fs, input⟩ := by
  have hsilent : ∀ bytes, Act.replied bytes ∉ acts [] := fun bytes => List.not_mem_nil
  rw [srvConnectReply]
  split
  · rename_i hcode
    have hneg : x.1 < 0 := by
      rw [hcode]
      decide
    have h : Settled T fs port byte x [] _ fs := .unread hneg
    rw [if_pos hcode] at h
    exact must_ret ⟨h, rfl, hsilent⟩
  rename_i hcode
  split
  · rename_i hneg
    have h : Settled T fs port byte x [] _ fs := .unread hneg
    rw [if_neg hcode] at h
    exact must_ret ⟨h, rfl, hsilent⟩
  rename_i hpos
  have hx : 0 ≤ x.1 := Int.not_lt.mp hpos
  split
  · rename_i hstatus
    exact must_ret ⟨.already hx hstatus, rfl, hsilent⟩
  rename_i hstatus
  refine must_inert (by simp) (by simp) fun peer => ?_
  dsimp only
  cases hnumber : strToNum port .int with
  | error err =>
      have hreply : (if peer.isNone then srvErrCnAny else srvErrCnAny) = srvErrCnAny := ite_self _
      simp only [Except.toOption, Option.isNone_none, if_true, hreply]
      rw [if_neg (not_not_intro rfl)]
      exact must_ret ⟨.refused hx hstatus (Or.inl ⟨err, hnumber⟩), rfl, hsilent⟩
  | ok number =>
      simp only [Except.toOption, Option.isNone_some, Bool.false_eq_true, if_false]
      cases peer with
      | none =>
          simp only [Option.isNone_none, if_true]
          rw [if_neg (not_not_intro rfl)]
          exact must_ret ⟨.refused hx hstatus (Or.inr (Or.inl ⟨_, List.mem_cons_self, rfl⟩)),
            rfl, hsilent⟩
      | some ip =>
          simp only [Option.isNone_some, Bool.false_eq_true, if_false]
          by_cases hbyte : byte = srvErrCnAny
          · rw [if_neg (not_not_intro hbyte), hbyte]
            exact must_ret ⟨.refused hx hstatus (Or.inr (Or.inr rfl)), rfl, hsilent⟩
          · rw [if_pos hbyte]
            refine must_db fun (y : ℤ × Entry) fs' hy =>
              must_ret ⟨?_, rfl, fun bytes hmem => ?_⟩
            · exact .wrote hx hstatus hbyte number hnumber ip y fs' hy
            · rw [acts_getpeername, acts_modify, acts_nil, List.mem_singleton] at hmem
              cases hmem

/-- **`srv_connect` until the reply is sent.** -/
theorem must_srvConnectFront : (srvConnectFront u port).Must (SrvStep T)
    (fun t junk w' => ∃ x code, DbStep T fs (.ioOpUsrEnt ⟨u, .user junk.user⟩ .read) x fs ∧
      Settled T fs port junk.byte x t code w'.fs ∧ RepliesOnly t code) ⟨fs, input⟩ := by
  rw [srvConnectFront]
  refine must_uninit fun junk => must_read fun x hx => must_bind ?_
  refine must_srvConnectReply_settled.mono fun t code w' ⟨hsettled, _, hsilent⟩ => ?_
  refine must_sendServerReply fun ok t' r ht' _ =>
    must_ret ⟨x, code, hx.1, hsettled.mono ?_, ?_⟩
  · intro ev hev
    exact List.mem_cons_of_mem _ (List.mem_cons_of_mem _ (List.mem_append_left _ hev))
  · refine repliesOnly_single (.locals junk :: acts t) [] ?_ (by simp) ?_
    · intro bytes hmem
      rcases List.mem_cons.mp hmem with hmem | hmem
      · cases hmem
      · exact hsilent bytes hmem
    · rw [acts_uninit, acts_read, acts_append, acts_write, List.append_nil, acts_closes ht']
      rfl

end Deciding

/-! ## The decision -/

/-- The entry of a user, if one is stored. -/
def FS.entry (fs : FS) (u : Bytes) : Option Entry :=
  if fs.content (userdataPath u) = [] then none
  else some (Entry.ofImage ((fs.content (userdataPath u)).take sizeofEntry))

/-- The reply that goes with the entry of a user. -/
def connectCode (fs : FS) (u port : Bytes) : UInt8 :=
  match fs.entry u with
  | none => srvErrCnUsrNotExists
  | some e =>
      if e.user.status = statusCn then srvErrCnUsrAlreadyCn
      else
        match strToNum port .int with
        | .error _ => srvErrCnAny
        | .ok _ => srvSuccess

/-- An entry with another status, address and port. -/
def SameButSession (e e' : Entry) : Prop :=
  ∃ status ip port, e' = e.mapUser fun u => { u with status := status, ip := ip, port := port }

/-- **The decision**: this reply, and the entry is as it was or, on success, as it was but for the
session. -/
def ConnectDecided (fs : FS) (u port : Bytes) (t : List srvE.Event) (fs' : FS) : Prop :=
  RepliesOnly t (connectCode fs u port) ∧
    (fs'.entry u ≠ fs.entry u → connectCode fs u port = srvSuccess ∧
      ∃ e e', fs.entry u = some e ∧ fs'.entry u = some e' ∧ SameButSession e e')

/-- Where `srv_connect` decides well: there is no record at all, or it is read and its own name
leads to it, and nothing stale is taken for a refusal. -/
def DecidesWell (fs : FS) (u port : Bytes) (byte : UInt8) : Prop :=
  match fs.entry u with
  | none => fs.openFile (userdataPath u) .rdonly = .error .enoent
  | some e => e.user.status = statusCn ∨ (∃ err, strToNum port .int = .error err) ∨
      (byte ≠ srvErrCnAny ∧ ¬ fs.Lost e.username)

/-! ### Entries and codes -/

section Decision

variable {fs fs' : FS} {u u' port : Bytes} {ud : Userdata} {input : List ReadEv} {junk : Junk}
  {x : ℤ × Entry} {t : List srvE.Event} {code code' : UInt8}

theorem RepliesOnly.unique (h : RepliesOnly t code) (h' : RepliesOnly t code') : code = code' :=
  (List.cons.inj ((h' [code]).mp ((h [code]).mpr rfl))).1

/-- No record is read. -/
theorem entry_eq_none : fs.entry u = none ↔ fs.content (userdataPath u) = [] := by
  unfold FS.entry
  split
  · rename_i h
    exact iff_of_true rfl h
  · rename_i h
    exact iff_of_false (by simp) h

/-- The entry of a record. -/
theorem entry_of_content (hfits : FitsBuf maxStrSize u')
    (h : fs.content (userdataPath u) = Entry.image ⟨u', .user ud⟩) :
    fs.entry u = some ⟨u', .user ud⟩ := by
  rw [FS.entry, h, if_neg (image_ne_nil _), List.take_of_length_le (length_image _).le,
    ofImage_image (fits_user hfits ud)]

/-- A record that is somewhere. -/
theorem FS.FileAt.entry {p : Location} (hfits : FitsBuf maxStrSize u')
    (h : fs.FileAt (userdataPath u) p (Entry.image ⟨u', .user ud⟩)) :
    fs.entry u = some ⟨u', .user ud⟩ :=
  entry_of_content hfits h.content

/-- A `READ` says that there is no entry exactly when there is no file. -/
theorem readOf_code_iff {v : Entry} : (fs.readOf v).1 = dbmsErrNotExists ↔
    fs.openFile (entryPath v) .rdonly = .error .enoent := by
  have hcodes : dbmsErrAny ≠ dbmsErrNotExists ∧ dbmsSuccess ≠ dbmsErrNotExists := by decide
  unfold FS.readOf
  split
  · rename_i err herr
    rw [herr]
    by_cases hno : err = .enoent
    · simp [hno]
    · simp [hno, hcodes.1]
  · rename_i fd fs₀ hopen
    rw [hopen]
    refine iff_of_false ?_ (by simp)
    split
    · exact hcodes.2
    · exact hcodes.1

/-! ### The cases of the decision -/

/-- Another reply than that of the decision. -/
theorem not_decided (hreply : RepliesOnly t code) (hne : code ≠ connectCode fs u port) :
    ¬ ConnectDecided fs u port t fs' := fun h => hne (hreply.unique h.1)

/-- The reply of the decision, and nothing was changed. -/
theorem decided_same (hreply : RepliesOnly t code) (heq : code = connectCode fs u port) :
    ConnectDecided fs u port t fs := ⟨heq ▸ hreply, fun hne => absurd rfl hne⟩

/-- A name that leads to no record. -/
theorem decided_iff_absent (hnone : fs.entry u = none) (hx : x = fs.readOf ⟨u, .user junk.user⟩)
    (hneg : x.1 < 0) (hsettled : Settled noFaults fs port junk.byte x t code fs')
    (hreply : RepliesOnly t code) : ConnectDecided fs u port t fs' ↔
      DecidesWell fs u port junk.byte := by
  have hcode : connectCode fs u port = srvErrCnUsrNotExists := by
    rw [connectCode, hnone]
  have hwell : DecidesWell fs u port junk.byte ↔ x.1 = dbmsErrNotExists := by
    rw [hx, readOf_code_iff, DecidesWell, hnone]
    exact Iff.rfl
  rw [hwell]
  cases hsettled with
  | unread _ =>
      by_cases hno : x.1 = dbmsErrNotExists
      · rw [if_pos hno] at hreply
        exact iff_of_true (decided_same hreply hcode.symm) hno
      · rw [if_neg hno] at hreply
        refine iff_of_false (not_decided hreply ?_) hno
        rw [hcode]
        decide
  | already hpos _ => exact absurd hneg (Int.not_lt.mpr hpos)
  | refused hpos _ _ => exact absurd hneg (Int.not_lt.mpr hpos)
  | wrote hpos _ _ _ _ _ _ _ _ => exact absurd hneg (Int.not_lt.mpr hpos)

/-- A name that leads to a record. -/
theorem decided_iff_present (hfits : FitsBuf maxStrSize u')
    (hentry : fs.entry u = some ⟨u', .user ud⟩)
    (hplace : (∃ p, fs.FileAt (userdataPath u) p (Entry.image ⟨u', .user ud⟩) ∧
      fs.FileAt (userdataPath u') p (Entry.image ⟨u', .user ud⟩)) ∨ fs.Lost u')
    (hpeer : ¬ PeerUnknown t)
    (hsettled : Settled noFaults fs port junk.byte (dbmsSuccess, ⟨u', .user ud⟩) t code fs')
    (hreply : RepliesOnly t code) : ConnectDecided fs u port t fs' ↔
      DecidesWell fs u port junk.byte := by
  have hwell : DecidesWell fs u port junk.byte ↔ ud.status = statusCn ∨
      (∃ err, strToNum port .int = .error err) ∨
        (junk.byte ≠ srvErrCnAny ∧ ¬ fs.Lost u') := by
    rw [DecidesWell, hentry]
    exact Iff.rfl
  have hcode : connectCode fs u port = if ud.status = statusCn then srvErrCnUsrAlreadyCn
      else match strToNum port .int with
        | .error _ => srvErrCnAny
        | .ok _ => srvSuccess := by
    rw [connectCode, hentry]
    rfl
  rw [hwell]
  cases hsettled with
  | unread hneg => exact absurd hneg (show ¬ dbmsSuccess < 0 by decide)
  | already _ hstatus =>
      have hcn : ud.status = statusCn := hstatus
      refine iff_of_true (decided_same hreply ?_) (Or.inl hcn)
      rw [hcode, if_pos hcn]
  | refused _ hstatus hwhy =>
      have hdcn : ¬ ud.status = statusCn := hstatus
      rw [if_neg hdcn] at hcode
      cases hnumber : strToNum port .int with
      | error err =>
          rw [hnumber] at hcode
          exact iff_of_true (decided_same hreply hcode.symm) (Or.inr (Or.inl ⟨err, rfl⟩))
      | ok number =>
          rw [hnumber] at hcode hwhy
          -- the code that was never assigned is what refuses
          have hbyte : junk.byte = srvErrCnAny := by
            rcases hwhy with ⟨err, herr⟩ | hunknown | hbyte
            · cases herr
            · exact absurd hunknown hpeer
            · exact hbyte
          refine iff_of_false (not_decided hreply ?_) ?_
          · rw [hcode]
            exact show srvErrCnAny ≠ srvSuccess by decide
          · rintro (hcn | ⟨err, herr⟩ | ⟨hne, -⟩)
            · exact hstatus hcn
            · cases herr
            · exact hne hbyte
  | wrote _ hstatus hbyte number hnumber ip y _ hy =>
      have hdcn : ¬ ud.status = statusCn := hstatus
      rw [if_neg hdcn, hnumber] at hcode
      rw [hnumber]
      rcases dbStep_modify hy with ⟨hneg, rfl, hno⟩ | ⟨hok, p, c, hp, rfl⟩
      · have hlost : fs'.Lost u' := hplace.resolve_left fun ⟨p, _, hp⟩ => hno p _ hp
        refine iff_of_false (not_decided hreply ?_) ?_
        · rw [hcode, if_pos hneg]
          split
          · exact show srvErrCnUsrNotExists ≠ srvSuccess by decide
          · exact show srvErrCnAny ≠ srvSuccess by decide
        · rintro (hcn | ⟨err, herr⟩ | ⟨-, hnot⟩)
          · exact hstatus hcn
          · cases herr
          · exact hnot hlost
      · have hkept : ¬ fs.Lost u' := fun hlost => hlost p hp.1
        obtain ⟨q, hq, hq'⟩ := hplace.resolve_right hkept
        obtain rfl : p = q := Except.ok.inj (hp.1.symm.trans hq'.1)
        refine iff_of_true ⟨?_, fun _ => ⟨hcode, ⟨u', .user ud⟩, _, hentry,
          (hq.put _).entry hfits,
          statusCn, ip, (number % 65536).toNat.toUInt16, rfl⟩⟩
            (Or.inr (Or.inr ⟨hbyte, hkept⟩))
        rw [if_neg (by rw [hok]; decide), if_neg (by rw [hok]; decide)] at hreply
        rw [hcode]
        exact hreply

/-! ### The condition -/

/-- **`CONNECT` decides well** exactly under `DecidesWell`. -/
theorem connect_decided_iff (hreach : Reachable fs) {w' : SrvWorld}
    (h : Exec (SrvStep noFaults) (srvConnectFront u port) ⟨fs, input⟩ t junk w')
    (hpeer : ¬ PeerUnknown t) : ConnectDecided fs u port t w'.fs ↔
      DecidesWell fs u port junk.byte := by
  obtain ⟨x, code, ⟨tr, hread, hcalm⟩, hsettled, hreply⟩ := must_srvConnectFront _ _ _ h
  have hread' : Exec SysStep (dbIoOpUsrEnt fs.depth ⟨u, .user junk.user⟩ .read) fs tr x fs :=
    hread
  obtain ⟨-, houtcome⟩ := exec_ioOp_read (typed_user u junk.user) hread'
  by_cases hnil : fs.content (userdataPath u) = []
  · have hx := exec_ioOp_readOf (typed_user u junk.user) hread' hcalm
    exact decided_iff_absent (entry_eq_none.mpr hnil) hx (houtcome.of_nil hnil).1 hsettled hreply
  · obtain ⟨u', ud, hcontent, hfits, -, hplace⟩ := hreach.schema.place_or_lost hnil
    have hok := houtcome.ofNoFault hcalm hnil
    have hover := (houtcome.success hok).2
    have hpath : fs.content (entryPath ⟨u, .user junk.user⟩) = Entry.image ⟨u', .user ud⟩ :=
      hcontent
    rw [hpath, overlay_image (fits_user hfits ud)] at hover
    obtain rfl : x = (dbmsSuccess, ⟨u', .user ud⟩) := Prod.ext hok hover
    exact decided_iff_present hfits (entry_of_content hfits hcontent) hplace hpeer hsettled hreply

end Decision

/-! ## The port -/

/-- A decimal numeral of a port. -/
structure InRange (port : Bytes) : Prop where
  nonempty : port ≠ []
  digits : ∀ c ∈ port, isDigit c = true
  positive : 1 ≤ digitsValue port
  small : digitsValue port ≤ 65535

/-- The user is registered under a name that leads to the record, and not connected. -/
def FS.Connectable (fs : FS) (u : Bytes) : Prop :=
  ∃ u' ud, fs.KnownAs u u' ud ∧ ud.status ≠ statusCn

/-- **What is stored is what was named**: success means that the string is a port and this port is
stored, and any other string is refused and nothing is stored. -/
structure PortKept (fs : FS) (u port : Bytes) (t : List srvE.Event) (fs' : FS) : Prop where
  stored : RepliesOnly t srvSuccess →
    InRange port ∧ ∃ e, fs'.entry u = some e ∧ e.user.port.toNat = digitsValue port
  refused : ¬ InRange port → ¬ RepliesOnly t srvSuccess ∧ fs' = fs ∧
    (fs.Connectable u → RepliesOnly t srvErrCnAny)

/-! ### Port strings -/

section Port

variable {fs fs' : FS} {u u' port : Bytes} {ud : Userdata} {input : List ReadEv} {junk : Junk}
  {x : ℤ × Entry} {t : List srvE.Event} {code : UInt8}

/-- A port keeps its value through `long`, `int` and `uint16_t`. -/
theorem InRange.number (h : InRange port) : strToNum port .int = .ok (digitsValue port : ℤ) := by
  have hsmall := h.small
  have htol := strtol_digits h.nonempty h.digits (by omega)
  unfold strToNum
  rw [if_neg h.nonempty, htol]
  simp only [Except.ok.injEq]
  rw [Int.bmod_eq_of_le (by omega) (by omega)]

theorem InRange.kept (h : InRange port) :
    ((digitsValue port : ℤ) % 65536).toNat.toUInt16.toNat = digitsValue port := by
  have hsmall := h.small
  rw [Int.emod_eq_of_lt (by omega) (by omega), Int.toNat_natCast, Nat.toUInt16, UInt16.toNat_ofNat',
    Nat.mod_eq_of_lt (by omega)]

/-- Where there is a record, no `READ` says that there is none. -/
theorem read_code_ne (hne : fs.content (userdataPath u) ≠ []) {tr : List sysE.Event} {depth : ℕ}
    (h : Exec SysStep (dbIoOpUsrEnt depth ⟨u, .user ud⟩ .read) fs tr x fs') :
    x.1 ≠ dbmsErrNotExists := by
  rw [dbIoOpUsrEnt_eq (typed_user u ud) (by decide)] at h
  obtain ⟨y, fs₁, t', hstep, hrest, rfl⟩ := exec_perform_bind_iff.mp h
  rcases hstep.openFile with ⟨rfl, rfl⟩ | ⟨err, hopen, rfl, rfl⟩ | ⟨fd, hopen, rfl⟩
  · obtain ⟨rfl, rfl, rfl⟩ := exec_ret_iff.mp hrest
    exact show dbmsErrAny ≠ dbmsErrNotExists by decide
  · exact absurd (content_of_openFile_error hopen) hne
  · obtain ⟨t₁, r, fs₂, t₂, h₁, h₂, rfl⟩ := exec_bind_iff.mp hrest
    obtain ⟨rfl, rfl⟩ := exec_close_ret h₂
    rw [transferEntry, if_pos rfl] at h₁
    rcases (exec_readEntry_delivered h₁).2 with hcode | ⟨hcode, -⟩
    · rw [hcode]
      decide
    · rw [hcode]
      decide

/-- The record that a successful `READ` gives, whatever may fail. -/
theorem entry_of_read (hs : Schema fs) (hpos : 0 ≤ x.1)
    (hread : DbStep anyFaults fs (.ioOpUsrEnt ⟨u, .user junk.user⟩ .read) x fs) :
    ∃ u' ud, x.2 = ⟨u', .user ud⟩ ∧ FitsBuf maxStrSize u' ∧
      fs.content (userdataPath u) = Entry.image ⟨u', .user ud⟩ ∧
      ((∃ p, fs.FileAt (userdataPath u) p (Entry.image ⟨u', .user ud⟩) ∧
        fs.FileAt (userdataPath u') p (Entry.image ⟨u', .user ud⟩)) ∨ fs.Lost u') := by
  obtain ⟨tr, hexec, -⟩ := hread
  obtain ⟨-, houtcome⟩ := exec_ioOp_read (typed_user u junk.user) hexec
  have hok : x.1 = dbmsSuccess := houtcome.code.resolve_right (Int.not_lt.mpr hpos)
  obtain ⟨hne, hover⟩ := houtcome.success hok
  obtain ⟨u', ud, hcontent, hfits, -, hplace⟩ := hs.place_or_lost hne
  have hpath : fs.content (entryPath ⟨u, .user junk.user⟩) = Entry.image ⟨u', .user ud⟩ :=
    hcontent
  rw [hpath, overlay_image (fits_user hfits ud)] at hover
  exact ⟨u', ud, hover, hfits, hcontent, hplace⟩

/-- A connectable user is not connected. -/
theorem FS.Connectable.status (h : fs.Connectable u) (hfits : FitsBuf maxStrSize u')
    (hcontent : fs.content (userdataPath u) = Entry.image ⟨u', .user ud⟩) :
    ud.status ≠ statusCn := by
  obtain ⟨v, vd, hknown, hstatus⟩ := h
  have heq := hknown.content.symm.trans hcontent
  have hsame := image_inj (fits_user hknown.fits vd) (fits_user hfits ud) heq
  rw [Entry.mk.injEq, EntryData.user.injEq] at hsame
  rw [← hsame.2]
  exact hstatus

/-! ### The executions -/

/-- A `CONNECT` that is refused. -/
theorem portKept_or (hreply : RepliesOnly t code) (hno : code ≠ srvSuccess)
    (hrest : ¬ InRange port → fs' = fs ∧ (fs.Connectable u → code = srvErrCnAny)) :
    PortKept fs u port t fs' := by
  refine ⟨fun hok => absurd (hreply.unique hok) hno, fun hout => ?_⟩
  obtain ⟨hsame, hany⟩ := hrest hout
  refine ⟨fun hok => hno (hreply.unique hok), hsame, fun hconn => ?_⟩
  rw [← hany hconn]
  exact hreply

/-- Ports, strings that are no number, and users who cannot connect. -/
theorem portKept_of_exec (hs : Schema fs) {w' : SrvWorld}
    (h : Exec (SrvStep anyFaults) (srvConnectFront u port) ⟨fs, input⟩ t junk w')
    (hcond : ¬ fs.Connectable u ∨ InRange port ∨ ∃ err, strToNum port .int = .error err) :
    PortKept fs u port t w'.fs := by
  obtain ⟨x, code, hread, hsettled, hreply⟩ := must_srvConnectFront _ _ _ h
  generalize w'.fs = fs' at hsettled ⊢
  cases hsettled with
  | unread hneg =>
      obtain ⟨tr, hexec, -⟩ := hread
      refine portKept_or hreply ?_ fun _ => ⟨rfl, fun hconn => if_neg ?_⟩
      · split
        · decide
        · decide
      · obtain ⟨v, vd, hknown, -⟩ := hconn
        exact read_code_ne (by rw [hknown.content]; exact image_ne_nil _) hexec
  | already hpos hstatus =>
      obtain ⟨u', ud, hx, hfits, hcontent, -⟩ := entry_of_read hs hpos hread
      rw [hx] at hstatus
      exact portKept_or hreply (by decide) fun _ =>
        ⟨rfl, fun hconn => absurd hstatus (hconn.status hfits hcontent)⟩
  | refused hpos hstatus hwhy =>
      exact portKept_or hreply (by decide) fun _ => ⟨rfl, fun _ => rfl⟩
  | wrote hpos hstatus hbyte number hnumber ip y _ hy =>
      obtain ⟨u', ud, hx, hfits, hcontent, hplace⟩ := entry_of_read hs hpos hread
      rw [hx] at hstatus hy
      obtain ⟨ty, hwrite, -⟩ := hy
      have hnot : ∀ err, strToNum port .int ≠ .error err := by
        rw [hnumber]
        exact fun err heq => by cases heq
      -- what is written is at the place of the record, so the user could connect
      have hin : ∀ p, fs.locate (userdataPath u') = .ok p →
          InRange port ∧ fs.FileAt (userdataPath u) p (Entry.image ⟨u', .user ud⟩) := by
        intro p hp
        obtain ⟨q, hq, hq'⟩ := hplace.resolve_right fun hlost => hlost p hp
        obtain rfl : p = q := Except.ok.inj (hp.symm.trans hq'.1)
        have hconn : fs.Connectable u := ⟨u', ud, ⟨hfits, hcontent, hq'.content⟩, hstatus⟩
        rcases hcond with hno | hport | ⟨err, herr⟩
        · exact absurd hconn hno
        · exact ⟨hport, hq⟩
        · exact absurd herr (hnot err)
      have hfailed : ∀ n : ℤ, n < 0 → (if n = dbmsErrNotExists then srvErrCnUsrNotExists
          else if n < 0 then srvErrCnAny else srvSuccess) ≠ srvSuccess := by
        intro n hn
        rw [if_pos hn]
        split
        · decide
        · decide
      cases exec_ioOp_write (typed_user u' _) (Or.inr rfl) hwrite with
      | refused code hcode hfree =>
          refine portKept_or hreply (hfailed code hcode) fun hno => ⟨rfl, fun hconn => ?_⟩
          rcases hcond with hnever | hport | ⟨err, herr⟩
          · exact absurd hconn hnever
          · exact absurd hport hno
          · exact absurd herr (hnot err)
      | written p hloc hfree =>
          obtain ⟨hport, hfile⟩ := hin p hloc
          refine ⟨fun _ => ⟨hport, _, (hfile.put _).entry hfits, ?_⟩,
            fun hno => absurd hport hno⟩
          obtain rfl : (digitsValue port : ℤ) = number :=
            Except.ok.inj (hport.number.symm.trans hnumber)
          exact hport.kept
      | torn p k hloc hfree hfault =>
          exact portKept_or hreply (hfailed _ dbmsErrAny_neg) fun hno => absurd (hin p hloc).1 hno

/-- A user who can connect is connected under any number. -/
theorem may_connect (input : List ReadEv) (hconn : fs.Connectable u) {number : ℤ}
    (hnumber : strToNum port .int = .ok number) :
    (srvConnectFront u port).May (SrvStep noFaults) (fun t _ _ => RepliesOnly t srvSuccess)
      ⟨fs, input⟩ := by
  obtain ⟨u', ud, hknown, hstatus⟩ := hconn
  obtain ⟨p, hp⟩ := hknown.fileAt
  have hread :=
    may_read (typed_user u (default : Junk).user) hknown.content (fits_user hknown.fits ud)
  have hwrite := may_modify (e := Entry.connected ⟨u', .user ud⟩ number 0) (typed_user u' _) hp
  rw [srvConnectFront]
  refine may_perform_bind (default : Junk) rfl (may_db_bind hread (may_bind ?_))
  have hdcn : ¬ (Entry.mk u' (.user ud)).user.status = statusCn := hstatus
  have hcodes : ¬ dbmsSuccess = dbmsErrNotExists ∧ ¬ dbmsSuccess < 0 := by decide
  rw [srvConnectReply, if_neg hcodes.1, if_neg hcodes.2, if_neg hdcn, hnumber]
  refine may_perform_bind (some 0 : Option UInt32) rfl ?_
  refine may_db_bind hwrite (may_ret ?_)
  rw [if_neg hcodes.1, if_neg hcodes.2]
  refine may_bind (may_sendServerReply (may_ret ?_))
  exact repliesOnly_single [.locals default, .wrote _ true] [] (by simp) (by simp) rfl

/-- **`CONNECT` keeps the port**, whatever the locals held and whatever fails, exactly for ports,
for strings that are refused as a number, and for users who cannot connect. -/
theorem connect_port_iff (hreach : Reachable fs) :
    (∀ input t junk w', Exec (SrvStep anyFaults) (srvConnectFront u port) ⟨fs,
        input⟩ t junk w' →
      PortKept fs u port t w'.fs) ↔
    ¬ fs.Connectable u ∨ InRange port ∨ ∃ err, strToNum port .int = .error err := by
  constructor
  · intro hall
    by_contra hcond
    push Not at hcond
    obtain ⟨hconn, hout, hnumeric⟩ := hcond
    cases hnumber : strToNum port .int with
    | error err => exact hnumeric err hnumber
    | ok number =>
        obtain ⟨t, junk, w', hexec, hreply⟩ := may_connect [] hconn hnumber
        exact ((hall [] t junk w' (exec_anyFaults hexec)).refused hout).1 hreply
  · intro hcond input t junk w' hexec
    exact portKept_of_exec hreach.schema hexec hcond

end Port

/-! ## A reply that is left over, and a port that wraps -/

/-- The reply code happens to be `SRV_ERR_CN_ANY` when it is declared. -/
def staleReply (_ : ℕ) : SrvChoice :=
  { (default : SrvChoice) with junk := { (default : Junk) with byte := srvErrCnAny } }

/-- `a` connects at port 80, under the locals that `env` gives. -/
def connectA (env : ℕ → SrvChoice) : List srvE.Event × Junk × SrvWorld :=
  (srvConnectFront (ascii "a") (ascii "80")).run srvApply env ⟨registeredA, []⟩

theorem exec_connectA {env : ℕ → SrvChoice} (henv : ∀ n, (env n).Calm) :
    Exec (SrvStep noFaults) (srvConnectFront (ascii "a") (ascii "80")) ⟨registeredA, []⟩
      (connectA env).1 (connectA env).2.1 (connectA env).2.2 := exec_srvRun env henv _ _

theorem staleReply_calm (n : ℕ) : (staleReply n).Calm := fun _ => rfl

theorem peerKnown_connectA : ¬ PeerUnknown (connectA staleReply).1 := by decide +kernel

theorem connect_decided_iff_stale :
    ConnectDecided registeredA (ascii "a") (ascii "80") (connectA staleReply).1
      (connectA staleReply).2.2.fs ↔
      DecidesWell registeredA (ascii "a") (ascii "80") (connectA staleReply).2.1.byte :=
  connect_decided_iff registeredA_reachable (exec_connectA staleReply_calm) peerKnown_connectA

/-- **A registered and disconnected user is refused with a valid port**, by a code that was never
assigned. -/
theorem not_connect_decided :
    ¬ ∀ (fs : FS) (u port : Bytes) (input : List ReadEv) (t : List srvE.Event) (junk : Junk)
      (w' : SrvWorld),
      Reachable fs → Exec (SrvStep noFaults) (srvConnectFront u port)
        ⟨fs, input⟩ t junk w' →
      ¬ PeerUnknown t → ConnectDecided fs u port t w'.fs := by
  intro h
  have hdecided :=
    h _ _ _ _ _ _ _ registeredA_reachable (exec_connectA staleReply_calm) peerKnown_connectA
  have hcode : connectCode registeredA (ascii "a") (ascii "80") = srvSuccess := by decide +kernel
  have hreplied : replies (connectA staleReply).1 srvErrCnAny = true := by decide +kernel
  have hboth := (hdecided.1 _).mp (replies_iff.mp hreplied)
  rw [hcode] at hboth
  exact absurd hboth (by decide)

/-- `a` is registered and not connected. -/
theorem connectable_registeredA : registeredA.Connectable (ascii "a") := by
  have hcontent : registeredA.content (userdataPath (ascii "a")) =
      Entry.image ⟨ascii "a", .user default⟩ := by
    decide +kernel
  exact ⟨ascii "a", default, ⟨by decide, hcontent, hcontent⟩, by decide⟩

theorem connect_port_iff_registeredA :
    (∀ input t junk w', Exec (SrvStep anyFaults) (srvConnectFront (ascii "a") (ascii "80"))
        ⟨registeredA, input⟩ t junk w' →
          PortKept registeredA (ascii "a") (ascii "80") t w'.fs) ↔
      ¬ registeredA.Connectable (ascii "a") ∨ InRange (ascii "80") ∨
        ∃ err, strToNum (ascii "80") .int = .error err :=
  connect_port_iff registeredA_reachable

/-- **A port that is out of range is stored as another one**: 65616 as 80. -/
theorem not_connect_port :
    ¬ ∀ (fs : FS) (u port : Bytes) (input : List ReadEv) (t : List srvE.Event) (junk : Junk)
      (w' : SrvWorld),
      Reachable fs → Exec (SrvStep noFaults) (srvConnectFront u port)
        ⟨fs, input⟩ t junk w' →
      PortKept fs u port t w'.fs := by
  intro h
  have hnumber : strToNum (ascii "65616") .int = .ok 65616 := by decide +kernel
  obtain ⟨t, junk, w', hexec, hreply⟩ := may_connect [] connectable_registeredA hnumber
  obtain ⟨hport, -⟩ := (h _ _ _ _ _ _ _ registeredA_reachable hexec).stored hreply
  exact absurd hport.small (by decide +kernel)
