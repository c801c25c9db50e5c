/-
# Requests that are cut short

`read_line` counts the end of the connection as the end of a field, and leaves the
buffer as it was when the connection ends before the first byte.  A stream that ends
too early is therefore handled as some request: the fields that came, and for the
others what the buffers held.

* `FS.Harmless fs req`: the request changes nothing and sends nothing;
* `effectless_iff`: this is so exactly when no handling of it has an effect;
* `incomplete_request_no_effect_iff`: the same for the thread on a cut stream.
-/
import MessageServer.FailedConnect

/-! ## Requests without effect -/

/-- The request finds nothing to do. -/
def FS.Harmless (fs : FS) : Req → Prop
  | .register u => ∀ p, fs.locate (userTablePath u) = .ok p → fs.get p ≠ none
  | .unregister u => ∀ p, ¬ fs.DirAt (userTablePath u) p
  | .connect u port => ¬ fs.Drains u ∧
      ∀ u' ud, fs.KnownAs u u' ud → ud.status = statusCn ∨
        ∃ err, strToNum port .int = .error err
  | .disconnect u => ∀ u' ud, fs.KnownAs u u' ud → ud.status = statusDcn
  | .send s r _ => (∀ p, ¬ fs.DirAt (userTablePath s) p) ∨
      (∀ p, ¬ fs.DirAt (userTablePath r) p) ∨
      ∀ u' ud, ¬ fs.KnownAs r u' ud
  | .unknown => True

section Harmless

variable {fs : FS}

/-- A reply changes nothing. -/
theorem quiet_reply (code : UInt8) :
    (sendServerReply code >>= fun _ => (return () : Srv Unit)).Obeys (quietly fs)
      (fun _ _ => True) () := by
  rw [obeys_bind]
  exact quiet_sendServerReply code fun _ => trivial

/-- The end of a handler changes nothing. -/
theorem quiet_finished {p : Srv Unit} (h : p.Obeys (quietly fs) (fun _ _ => True) ()) :
    (finished p).Obeys (quietly fs) (fun _ _ => True) () := by
  rw [finished, obeys_bind]
  exact h.mono fun _ _ _ => trivial

/-- A harmless `REGISTER` changes nothing. -/
theorem quiet_srvRegisterBody (hs : Schema fs) {u : Bytes}
    (h : fs.Harmless (.register u)) :
    (srvRegisterBody u).Obeys (quietly fs) (fun _ _ => True) () := by
  rw [srvRegisterBody]
  refine obeys_perform_bind.mpr ⟨trivial, fun junk _ => ?_⟩
  refine obeys_perform_bind.mpr ⟨fun x fs' hstep => ?_, fun result _ => quiet_reply _⟩
  obtain ⟨t, hexec, -⟩ := hstep
  cases exec_creatUsrTbl hs.tree hexec with
  | found L hL => rfl
  | refused hno => rfl
  | table L hL hnew _ => exact absurd hnew (h L hL)
  | record L hL hnew _ c _ => exact absurd hnew (h L hL)
  | complete L hL hnew r _ => exact absurd hnew (h L hL)

/-- A harmless `UNREGISTER` changes nothing. -/
theorem quiet_srvUnregisterBody {u : Bytes} (h : fs.Harmless (.unregister u)) :
    (srvUnregisterBody u).Obeys (quietly fs) (fun _ _ => True) () := by
  rw [srvUnregisterBody]
  refine quiet_userExists fun r hr => ?_
  rcases hr with ⟨-, p, hp⟩ | hle
  · exact absurd hp (h p)
  rw [obeys_bind]
  unfold srvUnregisterReply
  rw [if_neg (by omega)]
  split
  · exact quiet_reply _
  · exact quiet_reply _

/-- What a `READ` of a user's record can give. -/
theorem read_cases (hs : Schema fs) {u : Bytes} {ud₀ : Userdata} {r : ℤ × Entry}
    (h : DbStep anyFaults fs (.ioOpUsrEnt ⟨u, .user ud₀⟩ .read) r fs) :
    r.1 < 0 ∨ ∃ u' ud, r = (dbmsSuccess, ⟨u', .user ud⟩) ∧
      (fs.KnownAs u u' ud ∨ fs.Lost u') := by
  obtain ⟨t, hexec, -⟩ := h
  obtain ⟨-, hread⟩ := exec_ioOp_read (typed_user u ud₀) hexec
  rcases hread.code with hok | hneg
  · right
    obtain ⟨u', ud, hc, hu', -, hknown⟩ := hs.known_or_lost (hread.success hok).1
    rcases hread.of_image hc (fits_user hu' ud) with hneg | ⟨-, hr⟩
    · rw [hok] at hneg
      exact absurd hneg (by decide)
    · exact ⟨u', ud, Prod.ext hok hr, hknown⟩
  · exact Or.inl hneg

/-- A harmless `CONNECT` changes nothing. -/
theorem quiet_srvConnectBody (hs : Schema fs) {u port : Bytes} (h : fs.Harmless (.connect u port))
    (fuel : ℕ) : (srvConnectBody fuel u port).Obeys (quietly fs) (fun _ _ => True) () := by
  obtain ⟨hdrains, hstatus⟩ := h
  rw [srvConnectBody]
  refine obeys_perform_bind.mpr ⟨trivial, fun junk _ => ?_⟩
  refine quiet_read fun r hr => ?_
  have hreply : (srvConnectReply port junk.byte r.1 r.2).Obeys (quietly fs)
      (fun _ _ => True) () := by
    unfold srvConnectReply
    rcases read_cases hs hr with hneg | ⟨u', ud, rfl, hknown⟩
    · split
      · trivial
      · trivial
    · rw [if_neg (show dbmsSuccess ≠ dbmsErrNotExists by decide),
        if_neg (show ¬ dbmsSuccess < 0 by decide)]
      split
      · trivial
      · rename_i hcn
        refine obeys_perform_bind.mpr ⟨trivial, fun peer _ => ?_⟩
        rcases hknown with hknown | hlost
        · -- the port is no number, so nothing is written
          obtain ⟨err, herr⟩ := (hstatus u' ud hknown).resolve_left hcn
          have hnone : (strToNum port .int).toOption.isNone = true := by rw [herr]; rfl
          simp only [hnone, if_true, ite_self, ne_eq, not_true_eq_false, if_false]
          trivial
        · generalize (if peer.isNone then srvErrCnAny
            else if (strToNum port .int).toOption.isNone then srvErrCnAny else junk.byte) = code
          simp only
          split
          · exact quiet_modify_lost hlost fun _ _ => trivial
          · trivial
  rw [obeys_bind]
  refine hreply.mono fun _ code _ => ?_
  rw [obeys_bind]
  refine quiet_sendServerReply _ fun _ => ?_
  rw [obeys_bind]
  exact (quiet_auxConnectSendPendMsgs hs hdrains fuel junk.msg).mono fun _ _ _ => trivial

/-- A harmless `DISCONNECT` changes nothing. -/
theorem quiet_srvDisconnectBody (hs : Schema fs) {u : Bytes} (h : fs.Harmless (.disconnect u)) :
    (srvDisconnectBody u).Obeys (quietly fs) (fun _ _ => True) () := by
  rw [srvDisconnectBody]
  refine obeys_perform_bind.mpr ⟨trivial, fun junk _ => ?_⟩
  refine quiet_read fun r hr => ?_
  rw [obeys_bind]
  unfold srvDisconnectReply
  rcases read_cases hs hr with hneg | ⟨u', ud, rfl, hknown⟩
  · split
    · exact quiet_reply _
    · exact quiet_reply _
  · rw [if_neg (show dbmsSuccess ≠ dbmsErrNotExists by decide),
      if_neg (show ¬ dbmsSuccess < 0 by decide)]
    split
    · exact quiet_reply _
    · rename_i hne
      have hlost := hknown.resolve_left fun hk => hne (h u' ud hk)
      exact quiet_modify_lost hlost fun _ _ => quiet_reply _

/-- A harmless `SEND` changes nothing. -/
theorem quiet_srvSendBody (hs : Schema fs) {s r c : Bytes} (h : fs.Harmless (.send s r c)) :
    (srvSendBody s r c).Obeys (quietly fs) (fun _ _ => True) () := by
  rw [srvSendBody]
  refine obeys_perform_bind.mpr ⟨trivial, fun junk _ => ?_⟩
  have hinit : (auxSendInit s r ⟨[], .user junk.user⟩).Obeys (quietly fs)
      (fun _ i => i.1 ≠ srvSuccess) () := by
    rw [auxSendInit]
    refine quiet_userExists fun x hx => quiet_userExists fun y hy => ?_
    split
    · exact (by decide : srvErrSendUsrNotExists ≠ srvSuccess)
    split
    · exact (by decide : srvErrSendAny ≠ srvSuccess)
    rename_i hzero hneg
    push Not at hzero hneg
    -- both tables are there, so the record cannot be rewritten
    obtain ⟨p, hp⟩ : ∃ p, fs.DirAt (userTablePath s) p := by
      rcases hx with ⟨-, hp⟩ | hle
      · exact hp
      · omega
    obtain ⟨q, hq⟩ : ∃ q, fs.DirAt (userTablePath r) q := by
      rcases hy with ⟨-, hq⟩ | hle
      · exact hq
      · omega
    have hunknown := (h.resolve_left fun h => h p hp).resolve_left fun h => h q hq
    refine quiet_read fun x hx => ?_
    rcases read_cases hs hx with hneg | ⟨u', ud, rfl, hknown⟩
    · rw [if_pos hneg]
      exact (by decide : srvErrSendAny ≠ srvSuccess)
    · rw [if_neg (show ¬ dbmsSuccess < 0 by decide)]
      refine quiet_modify_lost (hknown.resolve_left (hunknown u' ud)) fun w hw => ?_
      rw [if_pos hw]
      exact (by decide : srvErrSendAny ≠ srvSuccess)
  rw [obeys_bind]
  refine hinit.mono fun _ i hi => ?_
  rw [if_pos hi]
  exact quiet_reply _

/-- **A harmless request has no effect**, whatever fails. -/
theorem quiet_body (hs : Schema fs) {req : Req} (h : fs.Harmless req) (fuel : ℕ) :
    (req.body fuel).Obeys (quietly fs) (fun _ _ => True) () := by
  cases req with
  | register u => exact quiet_finished (quiet_srvRegisterBody hs h)
  | unregister u => exact quiet_finished (quiet_srvUnregisterBody h)
  | connect u port => exact quiet_srvConnectBody hs h fuel
  | disconnect u => exact quiet_finished (quiet_srvDisconnectBody hs h)
  | send s r c => exact quiet_finished (quiet_srvSendBody hs h)
  | unknown => trivial

end Harmless

/-! ## Requests with an effect -/

/-- Entries that fit are told apart by their images. -/
theorem image_inj {e e' : Entry} (h : e.Fits) (h' : e'.Fits) (heq : e.image = e'.image) :
    e = e' := by
  rw [← ofImage_image h, heq, ofImage_image h']

/-- The next number is another one, also around the end. -/
theorem succ_mod_ne {n M : ℕ} (hM : 1 < M) (h : n < M) : (n + 1) % M ≠ n := by
  rcases Nat.lt_or_ge (n + 1) M with hlt | hge
  · rw [Nat.mod_eq_of_lt hlt]
    omega
  · obtain rfl : M = n + 1 := by omega
    rw [Nat.mod_self]
    omega

/-- Below the bound the ids count up modulo the bound. -/
theorem toNat_nextMsgId {id : UInt32} (h : id < msgIdMaxValue) :
    (nextMsgId id).toNat = (id.toNat + 1) % msgIdMaxValue.toNat := by
  have hlt : id.toNat + 1 < 2 ^ 32 :=
    (Nat.succ_le_of_lt (UInt32.lt_iff_toNat_lt.mp h)).trans_lt msgIdMaxValue.toNat_lt
  have hone : (1 : UInt32).toNat = 1 := by decide
  rw [nextMsgId, UInt32.toNat_mod, UInt32.toNat_add, hone, Nat.mod_eq_of_lt hlt]

/-- So is the next message id. -/
theorem nextMsgId_ne {id : UInt32} (h : id < msgIdMaxValue) : nextMsgId id ≠ id := by
  intro heq
  have hnat := congrArg UInt32.toNat heq
  rw [toNat_nextMsgId h] at hnat
  exact succ_mod_ne (by decide) (UInt32.lt_iff_toNat_lt.mp h) hnat

/-- The trees of a file system are lower than its bound. -/
theorem FS.Tree.height {fs : FS} (htree : fs.Tree) (L : Location) : fs.Height L fs.depth := by
  intro names hdir
  -- the locations on the way down are different, and all of them hold something
  let down : List Location := (List.range (names.length + 1)).map fun i => L ++ names.take i
  have hkeys : ∀ q ∈ down, q ∈ fs.nodes.keys := by
    intro q hq
    obtain ⟨i, -, rfl⟩ := List.mem_map.mp hq
    have hget : ∃ n, fs.get (L ++ names.take i) = some n := by
      cases hrest : names.drop i with
      | nil =>
          rw [List.take_of_length_le (List.drop_eq_nil_iff.mp hrest)]
          exact ⟨_, hdir⟩
      | cons c rest =>
          refine ⟨_, htree.dir_of_below _ c rest (n := .dir) ?_⟩
          rw [List.append_assoc, ← hrest, List.take_append_drop]
          exact hdir
    obtain ⟨n, hn⟩ := hget
    refine AList.mem_keys.mp (AList.lookup_isSome.mp ?_)
    rw [show fs.nodes.lookup (L ++ names.take i) = some n from hn]
    rfl
  have hnodup : down.Nodup := by
    refine List.Nodup.map_on (fun i hi j hj h => ?_) List.nodup_range
    have hlen := congrArg List.length (List.append_cancel_left h)
    rw [List.mem_range] at hi hj
    rw [List.length_take, List.length_take] at hlen
    omega
  have hle := (hnodup.subperm hkeys).length_le
  rw [List.length_map, List.length_range] at hle
  have hlen : fs.nodes.keys.length = fs.nodes.entries.length := List.length_map _
  unfold FS.depth
  omega

section Loud

variable {fs : FS} {input : List ReadEv}

/-- A `MODIFY` of a file without faults. -/
theorem may_modify {e : Entry} (he : e.Typed) {p : Location} {c : Bytes}
    (hfile : fs.FileAt (entryPath e) p c) :
    DbStep noFaults fs (.ioOpUsrEnt e .modify) (dbmsSuccess, e) (fs.put p (.file e.image)) :=
  may_write he (Or.inr rfl) hfile.1 ⟨c, hfile.2⟩

/-- The file of a known record. -/
theorem FS.KnownAs.fileAt {u u' : Bytes} {ud : Userdata} (h : fs.KnownAs u u' ud) :
    ∃ p, fs.FileAt (userdataPath u') p (Entry.image ⟨u', .user ud⟩) := by
  have hne : fs.content (userdataPath u') ≠ [] := by
    rw [h.again]
    exact image_ne_nil _
  obtain ⟨p, hp⟩ := FS.exists_fileAt hne
  rw [h.again] at hp
  exact ⟨p, hp⟩

/-- A record that is rewritten differently is a change. -/
theorem not_same_of_put {u : Bytes} {ud ud' : Userdata} (hu : FitsBuf maxStrSize u)
    (hne : ud' ≠ ud)
    {p : Location} (hp : fs.get p = some (.file (Entry.image ⟨u, .user ud⟩))) {fs' : FS}
    (hfs' : fs'.get p = some (.file (Entry.image ⟨u, .user ud'⟩))) : ¬ fs.Same fs' := by
  intro hsame
  have hget := hsame.nodes p
  rw [hp, hfs', Option.some.injEq, Node.file.injEq] at hget
  have heq := image_inj (fits_user hu ud') (fits_user hu ud) hget
  rw [Entry.mk.injEq, EntryData.user.injEq] at heq
  exact hne heq.2

/-- A reply changes nothing. -/
theorem may_reply {T : DbCall → List sysE.Event → Prop} {α : Type} {code : UInt8} {a : α}
    {Q : List srvE.Event → α → SrvWorld → Prop} {w : SrvWorld} (hQ : ∀ t, Q t a w) :
    (sendServerReply code >>= fun _ => (return a : Srv α)).May (SrvStep T) Q w := by
  exact may_bind (may_sendServerReply (may_ret (hQ _)))

/-- An effect on the database, or a transmission. -/
def Effect (fs : FS) (t : List srvE.Event) (fs' : FS) : Prop := ¬ (fs.Same fs' ∧ ¬ Transmits t)

/-! ### `REGISTER` and `UNREGISTER` -/

/-- A database that has changed is an effect. -/
theorem effect_of_not_same {t : List srvE.Event} {fs' : FS} (h : ¬ fs.Same fs') :
    Effect fs t fs' :=
  fun hno => h hno.1

/-- A transmission is an effect. -/
theorem effect_of_transmits {t : List srvE.Event} {fs' : FS} (h : Transmits t) : Effect fs t fs' :=
  fun hno => hno.2 h

/-- A `REGISTER` that is not harmless may have an effect. -/
theorem loud_srvRegisterBody (hs : Schema fs) {u : Bytes} (h : ¬ fs.Harmless (.register u)) :
    (srvRegisterBody u).May (SrvStep noFaults) (fun t _ w => Effect fs t w.fs) ⟨fs, input⟩ := by
  unfold FS.Harmless at h
  push Not at h
  obtain ⟨L, hL, hnew⟩ := h
  rw [srvRegisterBody]
  refine may_perform_bind (default : Junk) rfl ?_
  obtain ⟨x, fs', t, hexec, ht⟩ := dbStep_exists fs
    (.creatUsrTbl ⟨u, .user { (default : Junk).user with lastMsgId := 0 }⟩)
  refine may_db_bind ⟨t, hexec, ht⟩ (may_reply fun _ => effect_of_not_same fun hsame => ?_)
  have hget := hsame.nodes L
  have hchild : ∀ c, L ≠ L ++ [c] := fun c heq => absurd (congrArg List.length heq) (by simp)
  have hmade : ∀ {L'}, fs.locate (userTablePath u) = .ok L' → L' = L := fun hL' =>
    Except.ok.inj (hL'.symm.trans hL)
  cases exec_creatUsrTbl hs.tree hexec with
  | found L' hL' =>
      obtain rfl := hmade hL'.1
      rw [hL'.2] at hnew
      exact absurd hnew (by simp)
  | refused hno => exact hno ht L hL hnew
  | table L' hL' _ _ =>
      obtain rfl := hmade hL'
      rw [FS.get_put_self, hnew] at hget
      exact absurd hget (by simp)
  | record L' hL' _ _ c _ =>
      obtain rfl := hmade hL'
      rw [FS.get_put_of_ne _ _ (hchild _), FS.get_put_self, hnew] at hget
      exact absurd hget (by simp)
  | complete L' hL' _ r _ =>
      obtain rfl := hmade hL'
      rw [FS.withTable, FS.get_put_of_ne _ _ (hchild _), FS.get_put_of_ne _ _ (hchild _),
        FS.get_put_self, hnew] at hget
      exact absurd hget (by simp)

/-- The table is there when its path leads to a directory. -/
theorem may_userExists {u : Bytes} {p : Location} (hp : fs.DirAt (userTablePath u) p) :
    DbStep noFaults fs (.userExists u) (1 : ℤ) fs := by
  obtain ⟨t, r, fs', hexec, ht⟩ := exec_noFault (dbUserExists u) fs
  obtain ⟨rfl, ⟨rfl, -⟩ | ⟨-, hnot⟩⟩ := exec_userExists hexec
  · exact ⟨t, hexec, ht⟩
  · exact absurd hp (hnot ht p)

/-- An `UNREGISTER` that is not harmless may have an effect. -/
theorem loud_srvUnregisterBody (hs : Schema fs) {u : Bytes} (h : ¬ fs.Harmless (.unregister u)) :
    (srvUnregisterBody u).May (SrvStep noFaults) (fun t _ w => Effect fs t w.fs)
      ⟨fs, input⟩ := by
  unfold FS.Harmless at h
  push Not at h
  obtain ⟨L, hL⟩ := h
  rw [srvUnregisterBody]
  refine may_db_bind (may_userExists hL) ?_
  rw [srvUnregisterReply, if_pos rfl]
  obtain ⟨x, fs', t, hexec, ht⟩ := dbStep_exists fs (.delUsrTbl u)
  refine may_bind (may_db_bind ⟨t, hexec, ht⟩ (may_ret (may_reply fun _ =>
    effect_of_not_same fun hsame => ?_)))
  -- the removal erases something
  change Exec SysStep (dbDelUsrTbl fs.depth u) fs t x fs' at hexec
  rw [dbDelUsrTbl] at hexec
  obtain ⟨t₁, r, fs₁, t₂, h₁, h₂, rfl⟩ := exec_bind_iff.mp hexec
  obtain ⟨rfl, rfl, rfl⟩ := exec_ret_iff.mp h₂
  obtain ⟨q, hq, hnone⟩ := removeRecursive_erases _ hs.tree hL.1 (removable_userTablePath hL.1)
    hL.2 (hs.tree.height L) h₁ ht.of_append_left
  exact hq ((hsame.nodes q).symm.trans hnone)

/-- What the schema says about a known record. -/
theorem FS.KnownAs.spec (hs : Schema fs) {u u' : Bytes} {ud : Userdata} (h : fs.KnownAs u u' ud) :
    NameOf fs.cwd (lexical fs.cwd (userTablePath u)) u' ∧ ud.lastMsgId < msgIdMaxValue := by
  have hne : fs.content (userdataPath u) ≠ [] := by
    rw [h.content]
    exact image_ne_nil _
  obtain ⟨v, ud', hc, hv, hid⟩ := hs.read_userdata hne
  have heq := image_inj (fits_user h.fits ud) (fits_user hv.1 ud') (h.content.symm.trans hc)
  rw [Entry.mk.injEq, EntryData.user.injEq] at heq
  obtain ⟨rfl, rfl⟩ := heq
  exact ⟨hv, hid⟩

/-- Whatever comes after. -/
theorem may_of_total {α : Type} {Q : List srvE.Event → α → SrvWorld → Prop} {p : Srv α}
    {w : SrvWorld} (hQ : ∀ t a w', Q t a w') : p.May (SrvStep noFaults) Q w := by
  obtain ⟨t, a, w', hexec⟩ := exec_srvTotal p w
  exact ⟨t, a, w', hexec, hQ _ _ _⟩

/-! ### `DISCONNECT` -/

/-- A `DISCONNECT` that is not harmless may have an effect. -/
theorem loud_srvDisconnectBody {u : Bytes} (h : ¬ fs.Harmless (.disconnect u)) :
    (srvDisconnectBody u).May (SrvStep noFaults) (fun t _ w => Effect fs t w.fs)
      ⟨fs, input⟩ := by
  unfold FS.Harmless at h
  push Not at h
  obtain ⟨u', ud, hknown, hstatus⟩ := h
  obtain ⟨p, hp⟩ := hknown.fileAt
  rw [srvDisconnectBody]
  refine may_perform_bind (default : Junk) rfl ?_
  refine may_db_bind (may_read (typed_user _ _) hknown.content (fits_user hknown.fits ud)) ?_
  unfold srvDisconnectReply
  rw [if_neg (show dbmsSuccess ≠ dbmsErrNotExists by decide),
    if_neg (show ¬ dbmsSuccess < 0 by decide),
      if_neg (show (Entry.mk u' (.user ud)).user.status ≠ _
      from hstatus)]
  refine may_bind (may_db_bind (may_modify (typed_user _ _) hp) (may_ret (may_reply fun _ =>
    effect_of_not_same (not_same_of_put hknown.fits ?_ hp.2 (FS.get_put_self _ _ _)))))
  intro heq
  exact hstatus (congrArg Userdata.status heq).symm

/-- The end of a `SEND` to a recipient that is not connected leaves the record. -/
theorem loud_finish {s : Bytes} {code : UInt8} {u' : Bytes} {ud ud' : Userdata} {msgEntry : Entry}
    (hstatus : ud'.status ≠ statusCn) (hu' : FitsBuf maxStrSize u') (hne : ud' ≠ ud)
    {f : Location}
    (hold : fs.get f = some (.file (Entry.image ⟨u', .user ud⟩))) {w : SrvWorld}
    (hnew : w.fs.get f = some (.file (Entry.image ⟨u', .user ud'⟩)))
    {Q : List srvE.Event → List srvE.Event} :
    (srvSendFinish s code ⟨u', .user ud'⟩ msgEntry).May (SrvStep noFaults)
      (fun t _ w => Effect fs (Q t) w.fs) w := by
  obtain ⟨t, a, w', hexec⟩ :=
    exec_srvTotal (srvSendFinish s code ⟨u', .user ud'⟩ msgEntry) w
  refine ⟨t, a, w', hexec, effect_of_not_same (not_same_of_put hu' hne hold ?_)⟩
  have hinert : (srvSendFinish s code ⟨u', .user ud'⟩ msgEntry).Performs Inert :=
    performs_srvSendFinish hstatus
  rw [exec_inert hinert hexec, hnew]

/-- Storing a message leaves the userdata files. -/
theorem create_get_userdata {T : DbCall → List sysE.Event → Prop} {fs₁ fs₂ : FS} {r : Bytes}
    {m : Message} {x : ℤ × Entry}
    (h : DbStep T fs₁ (.ioOpUsrEnt ⟨r, .msg m⟩ .create) x fs₂)
    (L : Location) :
    fs₂.get (L ++ [userdataEntry]) = fs₁.get (L ++ [userdataEntry]) := by
  obtain ⟨t, hexec, -⟩ := h
  have hput : ∀ p c, fs₁.locate (pendMsgPath r m.id) = .ok p →
      (fs₁.put p (.file c)).get (L ++ [userdataEntry]) = fs₁.get (L ++ [userdataEntry]) := by
    intro p c hp
    obtain ⟨L', -, -, -, rfl⟩ := locate_pendMsgPath.mp hp
    exact FS.get_put_of_ne _ _ (msgFile_ne_userdata _ _ _).symm
  cases exec_ioOp_write (typed_msg r m) (Or.inl rfl) hexec with
  | refused code hcode hfree => rfl
  | written p hloc hfree => exact hput p _ hloc
  | torn p k hloc hfree hfault => exact hput p _ hloc

/-- A record after one more message. -/
def Userdata.next (ud : Userdata) : Userdata := { ud with lastMsgId := nextMsgId ud.lastMsgId }

/-- The next message id changes no status. -/
@[simp] theorem status_next (ud : Userdata) : ud.next.status = ud.status := rfl

/-! ### `SEND` and `CONNECT` -/

/-- A `SEND` that is not harmless may have an effect. -/
theorem loud_srvSendBody (hs : Schema fs) {s r c : Bytes} (h : ¬ fs.Harmless (.send s r c)) :
    (srvSendBody s r c).May (SrvStep noFaults) (fun t _ w => Effect fs t w.fs) ⟨fs, input⟩ := by
  unfold FS.Harmless at h
  push Not at h
  obtain ⟨⟨p, hp⟩, ⟨q, hq⟩, u', ud, hknown⟩ := h
  obtain ⟨f, hf⟩ := hknown.fileAt
  obtain ⟨L, -, rfl⟩ := locate_userdataPath.mp hf.1
  have hne : ud.next ≠ ud := fun heq =>
    nextMsgId_ne (hknown.spec hs).2 (congrArg Userdata.lastMsgId heq)
  rw [srvSendBody]
  refine may_perform_bind (default : Junk) rfl (may_bind ?_)
  rw [auxSendInit]
  refine may_db_bind (may_userExists hp) (may_db_bind (may_userExists hq) ?_)
  rw [if_neg (by decide), if_neg (by decide)]
  refine may_db_bind (may_read (typed_user _ _) hknown.content (fits_user hknown.fits ud)) ?_
  rw [if_neg (show ¬ dbmsSuccess < 0 by decide)]
  refine may_db_bind (may_modify (typed_user _ _) hf) (may_ret ?_)
  rw [if_neg (show ¬ dbmsSuccess < 0 by decide),
    if_neg (show ¬ srvSuccess ≠ srvSuccess by decide)]
  have hnew :=
    FS.get_put_self fs (L ++ [userdataEntry]) (.file (Entry.image ⟨u', .user ud.next⟩))
  refine may_bind ?_
  change (auxSendMsgPass s r c srvSuccess ⟨u', .user ud.next⟩).May _ _ _
  by_cases hstatus : ud.next.status = statusCn
  · -- a connected recipient is sent the message
    rw [auxSendMsgPass_connected hstatus]
    refine may_bind ((may_cltSendMessage _ hknown.fits (hf.put _).content).mono ?_)
    rintro t x w ⟨⟨bytes, hsent⟩, -, rfl⟩
    refine may_of_total fun t' a w' => may_of_total fun t'' a' w'' => effect_of_transmits ?_
    exact ⟨bytes, by simp [hsent]⟩
  · rw [auxSendMsgPass_other hstatus]
    refine may_ret ?_
    split
    · obtain ⟨x, fs₂, hstep⟩ :=
        dbStep_exists (fs.put (L ++ [userdataEntry]) (.file (Entry.image
        ⟨u', .user ud.next⟩))) (.ioOpUsrEnt ⟨r, .msg ⟨s, ud.next.lastMsgId, c⟩⟩ .create)
      refine may_db_bind hstep (loud_finish hstatus hknown.fits hne hf.2 ?_)
      exact (create_get_userdata hstep L).trans hnew
    · exact loud_finish hstatus hknown.fits hne hf.2 hnew

/-- A `CONNECT` that is not harmless may have an effect. -/
theorem loud_srvConnectBody (hs : Schema fs) {u port : Bytes}
    (h : ¬ fs.Harmless (.connect u port)) :
    (srvConnectBody 1 u port).May (SrvStep noFaults) (fun t _ w => Effect fs t w.fs)
      ⟨fs, input⟩ := by
  by_cases hdrains : fs.Drains u
  · exact (may_connect_loud hs hdrains port input).mono fun t r w hloud =>
      effect_of_transmits hloud.2.2.2
  unfold FS.Harmless at h
  push Not at h
  obtain ⟨u', ud, hknown, hstatus, hport⟩ := h hdrains
  obtain ⟨n, hn⟩ : ∃ n, strToNum port .int = .ok n := by
    cases hnum : strToNum port .int with
    | error err => exact absurd hnum (hport err)
    | ok n => exact ⟨n, rfl⟩
  obtain ⟨p, hp⟩ := hknown.fileAt
  let ud' : Userdata := { ud with status := statusCn, port := (n % 65536).toNat.toUInt16, ip := 0 }
  have hmodify := may_modify (typed_user u' ud') hp
  have hne : ud' ≠ ud := fun heq => hstatus (congrArg Userdata.status heq).symm
  have hnew := not_same_of_put hknown.fits hne hp.2 (FS.get_put_self fs p (.file (Entry.image
    ⟨u', .user ud'⟩)))
  have hs' : Schema (fs.put p (.file (Entry.image ⟨u', .user ud'⟩))) := by
    obtain ⟨hname, hid⟩ := hknown.spec hs
    obtain ⟨t, hexec, ht⟩ := hmodify
    exact (touches_modify hs ⟨u', ud', rfl, hname, hid⟩ hexec (NoFault.untorn ht)).schema
  rw [srvConnectBody]
  refine may_perform_bind (default : Junk) rfl ?_
  refine may_db_bind (may_read (typed_user _ _) hknown.content (fits_user hknown.fits ud)) ?_
  refine may_bind ?_
  unfold srvConnectReply
  rw [if_neg (show dbmsSuccess ≠ dbmsErrNotExists by decide),
    if_neg (show ¬ dbmsSuccess < 0 by decide),
      if_neg (show (Entry.mk u' (.user ud)).user.status ≠ _
      from hstatus)]
  refine may_perform_bind (some 0 : Option UInt32) rfl ?_
  rw [hn]
  refine may_db_bind hmodify (may_ret ?_)
  refine may_bind (may_sendServerReply ?_)
  -- the drain transmits, or leaves the new record
  by_cases hdrains' : (fs.put p (.file (Entry.image ⟨u', .user ud'⟩))).Drains u
  · refine may_bind ((may_transmit_drain hs' hdrains' _).mono ?_)
    rintro t r w ⟨⟨bytes, hsent⟩, -, -⟩
    exact may_ret (effect_of_transmits ⟨bytes, by simp [hsent]⟩)
  · refine may_bind ?_
    obtain ⟨t, a, w, hexec⟩ := exec_srvTotal (auxConnectSendPendMsgs 1 ⟨u, .msg default⟩)
      ⟨fs.put p (.file (Entry.image ⟨u', .user ud'⟩)), input⟩
    obtain ⟨hfs, -, -⟩ := exec_quiet (quiet_auxConnectSendPendMsgs hs' hdrains' 1 default) rfl
      (exec_anyFaults hexec)
    refine ⟨t, a, w, hexec, may_ret (effect_of_not_same ?_)⟩
    rw [hfs]
    exact hnew

end Loud

/-! ## The whole request -/

/-- The end of a handler keeps its effect. -/
theorem may_finished {p : Srv Unit} {fs : FS} {w : SrvWorld}
    (h : p.May (SrvStep noFaults) (fun t _ w => Effect fs t w.fs) w) :
    (finished p).May (SrvStep noFaults) (fun t _ w => Effect fs t w.fs) w := by
  rw [finished]
  refine may_bind (h.mono fun t _ w heffect => may_ret ?_)
  rw [List.append_nil]
  exact heffect

/-- **A request that is not harmless may have an effect**, even without faults. -/
theorem loud_body {fs : FS} (hs : Schema fs) {req : Req} (h : ¬ fs.Harmless req)
    (input : List ReadEv) :
    (req.body 1).May (SrvStep noFaults) (fun t _ w => Effect fs t w.fs) ⟨fs, input⟩ := by
  cases req with
  | register u => exact may_finished (loud_srvRegisterBody hs h)
  | unregister u => exact may_finished (loud_srvUnregisterBody hs h)
  | connect u port => exact loud_srvConnectBody hs h
  | disconnect u => exact may_finished (loud_srvDisconnectBody h)
  | send s r c => exact may_finished (loud_srvSendBody hs h)
  | unknown => exact absurd trivial h

/-- The fields that follow an operation code. -/
def fieldsNeeded (opCode : Bytes) : ℕ :=
  if opCode = opRegister ∨ opCode = opUnregister ∨ opCode = opDisconnect then 1
  else if opCode = opConnect then 2
  else if opCode = opSend then 3
  else 0

/-- The stream ends before the terminator of the last field that the request needs. -/
def Incomplete (bs : Bytes) : Prop :=
  bs.countP isTerminator < 1 + fieldsNeeded (bs.takeWhile fun b => !isTerminator b)

instance (bs : Bytes) : Decidable (Incomplete bs) := inferInstanceAs (Decidable (_ < _))

/-- Receiving is without effect. -/
theorem transmits_append_recv {t₀ t : List srvE.Event} (h : ∀ e ∈ t₀, IsRecv e) :
    Transmits (t₀ ++ t) ↔ Transmits t := by
  refine exists_congr fun bytes => ?_
  rw [List.mem_append]
  refine or_iff_right fun hmem => ?_
  obtain ⟨buf, hbuf⟩ := h _ hmem
  exact absurd hbuf (by simp [sentEvent])

/-- **Requests that are cut short.**  Over every database, whatever the buffers of the
service thread hold, a stream that ends too early leaves the database as it is and
transmits nothing, whatever fails, if and only if the request that comes out of it
finds nothing to do. -/
theorem incomplete_request_no_effect_iff {fs : FS} (hs : Schema fs) (request : Request) :
    ∀ bs, Incomplete bs →
      ((∀ fuel t v w', Exec (SrvStep anyFaults) (serviceThread fuel request) ⟨fs,
          stream bs⟩ t v w' →
        fs.Same w'.fs ∧ ¬ Transmits t) ↔ fs.Harmless (received request bs)) := by
  intro bs _
  constructor
  · intro h
    by_contra hno
    obtain ⟨t₀, rest, ht₀, hreceives⟩ := serviceThread_receives noFaults 1 request fs bs
    obtain ⟨t, v, w', hexec, heffect⟩ := loud_body hs hno (stream rest)
    have hthread := (hreceives _ _ _).mpr ⟨t, rfl, hexec⟩
    obtain ⟨hsame, hnot⟩ := h 1 _ _ _ (exec_anyFaults hthread)
    rw [transmits_append_recv ht₀] at hnot
    exact heffect ⟨hsame, hnot⟩
  · intro hharmless fuel t v w' hthread
    obtain ⟨t₀, rest, ht₀, hreceives⟩ := serviceThread_receives anyFaults fuel request fs bs
    obtain ⟨t', rfl, hexec⟩ := (hreceives _ _ _).mp hthread
    obtain ⟨hfs, hnot, -⟩ := exec_quiet (quiet_body hs hharmless fuel) rfl hexec
    rw [transmits_append_recv ht₀, hfs]
    exact ⟨FS.Same.refl fs, hnot⟩

/-- The stream `UNREGISTER` without a name, and buffers in which `v` is left over. -/
def staleV : Request := ⟨[], ascii "v" ++ [0], [], []⟩

/-- The condition at a stale buffer that names a user. -/
theorem incomplete_request_no_effect_iff_staleV :
    (∀ fuel t v w', Exec (SrvStep anyFaults) (serviceThread fuel staleV)
      ⟨registeredV, stream (opUnregister ++ [0])⟩ t v w' →
      registeredV.Same w'.fs ∧ ¬ Transmits t) ↔
        registeredV.Harmless (received staleV (opUnregister ++ [0])) :=
  incomplete_request_no_effect_iff registeredV_reachable.schema staleV _ (by decide)

/-- **A request that is cut short has an effect.**  `UNREGISTER` without a name deletes
the user whose name is left over in the buffer. -/
theorem not_incomplete_request_no_effect :
    ¬ ∀ (fs : FS) (request : Request) (bs : Bytes), Schema fs → Incomplete bs →
      ∀ fuel t v w', Exec (SrvStep anyFaults) (serviceThread fuel request)
        ⟨fs, stream bs⟩ t v w' →
        fs.Same w'.fs ∧ ¬ Transmits t := by
  intro h
  have hexec := exec_srvRun calm calm_calm (serviceThread 1 staleV)
    ⟨registeredV, stream (opUnregister ++ [0])⟩
  obtain ⟨hsame, -⟩ := h registeredV staleV (opUnregister ++ [0]) registeredV_reachable.schema
    (by decide) 1 _ _ _ (exec_anyFaults hexec)
  have htable := hsame.nodes [dbDir, ascii "v-table"]
  revert htable
  decide +kernel
