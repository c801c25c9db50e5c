/-
# The agreement over whole runs

* `JointStep.agrees_iff`: one call keeps the agreement if and only if it unregisters nobody but the
  connected user;
* `run_agrees_iff`: so does a run of calls.
-/
import MessageServer.Agreement

/-! ## One call -/

section Moves

variable {s s' : Joint} {call : ClientCall} {u v : PyStr} {a a' : Account} {self : Client}
variable {net : Network} {op : ClientOp} {code : UInt8}

/-- The invariant, from what a step does to the client and to the record of one user. -/
theorem Moves.build (h : InStep s) (hm : Moves s call s' net op code)
    (hown : ∀ a a' : Account, a.Follows s.client.client call.account →
        Reported a op.req code a'.record →
      a'.Follows s'.client.client call.account)
    (hother : ∀ u, u ≠ call.account →
      (s'.client.client.connectedUser = some u ↔ s.client.client.connectedUser = some u) ∧
      (s'.client.client.connectedUser = some u →
          s'.client.client.listeningPort = s.client.client.listeningPort))
    (hthreads : s'.client.listening.map ListenThread.port =
      if s'.client.client.connectedUser = none then [] else s'.client.client.listeningPort.toList) :
      InStep s' := by
  refine ⟨fun u hu => ?_, fun u hu => ?_, hthreads⟩
  · by_cases heq : u = call.account
    · obtain ⟨a, a', -, hfollows, hkept', hreported⟩ := hm.own
      rw [heq]
      exact ⟨a', hkept', hown a a' hfollows hreported⟩
    · obtain ⟨a, a', -, hfollows, hkept', hrecord⟩ := hm.other u hu heq
      exact ⟨a', hkept', hfollows.same hrecord (hother u heq).1 (hother u heq).2⟩
  · by_cases heq : u = call.account
    · exact heq ▸ hm.proper.1
    · exact h.named u ((hother u heq).1.mp hu)

/-- A step that changes the record of a user only in other ways than the session. -/
theorem Moves.unchanged (h : InStep s) (hm : Moves s call s' net op code)
    (hclient : call.after net s.client.client (s.client.listening.map ListenThread.port) code =
      (s.client.client, s.client.listening.map ListenThread.port))
    (hown : ∀ a a' : Account, a.Follows s.client.client call.account →
        Reported a op.req code a'.record →
      a'.Follows s.client.client call.account) : InStep s' := by
  obtain ⟨hsame, hports⟩ := Prod.mk.inj (hm.client.trans hclient)
  refine hm.build h ?_ ?_ ?_
  · rw [hsame]
    exact hown
  · exact fun u _ => ⟨by rw [hsame], fun _ => by rw [hsame]⟩
  · rw [hports, hsame]
    exact h.threads

/-- A record that stays. -/
theorem Account.Follows.of_record (h : a.Follows self u) (hrecord : a'.record = a.record) :
    a'.Follows self u :=
  h.same hrecord Iff.rfl fun _ => rfl

/-- The listening threads behind the end of a session. -/
theorem InStep.endThreads (h : InStep s) (hcn : s.client.client.connectedUser ≠ none) :
    (s.client.listening.map ListenThread.port).filter
      (fun q => some q ≠ s.client.client.listeningPort) = [] := by
  rw [h.threads, if_neg hcn]
  cases s.client.client.listeningPort with
  | none => rfl
  | some port => simp

/-! ### The client's user goes, and users come -/

/-- A step at which the session ends on both sides. -/
theorem Moves.ended (h : InStep s) (hm : Moves s call s' net op code)
    (hcn : s.client.client.connectedUser = some call.account)
    (hclient : call.after net s.client.client (s.client.listening.map ListenThread.port) code =
      ({ s.client.client with connectedUser := none },
        (s.client.listening.map ListenThread.port).filter fun q => some q ≠
        s.client.client.listeningPort))
    (hleft : ∀ a a' : Account, a.Follows s.client.client call.account →
        Reported a op.req code a'.record →
      ∀ ud, a'.record = some ud → ud.status = statusDcn) : InStep s' := by
  obtain ⟨hended, hports⟩ := Prod.mk.inj (hm.client.trans hclient)
  have hnone : s'.client.client.connectedUser = none := by rw [hended]
  have habsurd : ∀ u, s'.client.client.connectedUser ≠ some u := by
    intro u hu
    rw [hnone] at hu
    cases hu
  refine hm.build h ?_ ?_ ?_
  · exact fun a a' hfollows hreported =>
      ⟨fun hcn' => absurd hcn' (habsurd _), fun _ => hleft a a' hfollows hreported⟩
  · intro u hne
    refine ⟨⟨fun hu => absurd hu (habsurd u), fun hu => ?_⟩,
      fun hu => absurd hu (habsurd u)⟩
    exact absurd (Option.some.inj (hcn.symm.trans hu)).symm hne
  · rw [hports, hnone, if_pos rfl]
    exact h.endThreads (by rw [hcn]; simp)

/-- A `REGISTER` keeps the invariant. -/
theorem Moves.register (h : InStep s) (hm : Moves s (.register v) s' net op code) : InStep s' := by
  obtain rfl := Option.some.inj hm.asks
  refine hm.unchanged h rfl fun a a' hfollows hreported => ?_
  generalize hrec : a'.record = rec at hreported
  cases hreported with
  | opened ud hnone hstatus =>
      constructor
      · intro hcn
        obtain ⟨ud', hud', -⟩ := hfollows.connected hcn
        rw [hud'] at hnone
        cases hnone
      · intro _ ud' hud'
        obtain rfl := Option.some.inj (hrec.symm.trans hud')
        exact hstatus
  | notOpened code => exact hfollows.of_record hrec

/-- A `SEND` keeps it. -/
theorem Moves.send {m : PyStr} (h : InStep s) (hm : Moves s (.send v m) s' net op code) :
    InStep s' := by
  have hasks := hm.asks
  simp only [ClientCall.op] at hasks
  split at hasks
  · obtain rfl := Option.some.inj hasks
    refine hm.unchanged h rfl fun a a' hfollows hreported => ?_
    generalize hrec : a'.record = rec at hreported
    cases hreported with
    | rejected code => exact hfollows.of_record hrec
    | accepted ud code hud =>
        constructor
        · intro hcn
          obtain ⟨ud', hud', hstatus, hport⟩ := hfollows.connected hcn
          obtain rfl := Option.some.inj (hud.symm.trans hud')
          exact ⟨ud.next, hrec, hstatus, hport⟩
        · intro hcn ud' hud'
          obtain rfl := Option.some.inj (hrec.symm.trans hud')
          exact hfollows.other hcn ud hud
  · cases hasks

/-- An `UNREGISTER` of the connected user keeps it, or of nobody registered. -/
theorem Moves.unregister (h : InStep s) (hm : Moves s (.unregister v) s' net op code)
    (hforeign : ¬ Foreign s (.unregister v)) : InStep s' := by
  obtain rfl := Option.some.inj hm.asks
  by_cases hcode : code = srvSuccess
  · have hgone : ∀ a a' : Account, Reported a (ClientOp.unregister v).req code a'.record →
        a.record ≠ none ∧ a'.record = none := by
      intro a a' hreported
      generalize a'.record = rec at hreported
      cases hreported with
      | closed hsome => exact ⟨hsome, rfl⟩
      | notClosed code hne hnone => exact absurd hcode hne
    have hleft : ∀ a a' : Account, Reported a (ClientOp.unregister v).req code a'.record →
        ∀ ud, a'.record = some ud → ud.status = statusDcn := by
      intro a a' hreported ud hud
      rw [(hgone a a' hreported).2] at hud
      cases hud
    -- nobody else is the connected user
    have hown : ∀ u, s.client.client.connectedUser = some u → u = v := by
      intro u hcn
      by_contra hne
      obtain ⟨a, a', hkept, -, -, hreported⟩ := hm.own
      obtain ⟨ud, hud⟩ := Option.ne_none_iff_exists'.mp (hgone a a' hreported).1
      have hcontent : s.fs.content (userdataPath (asciiBytes v)) = _ :=
        hkept.content_record hm.proper.1.noSlash
      rw [hud] at hcontent
      exact hforeign ⟨u, v, rfl, hcn, hne, by rw [hcontent]; exact image_ne_nil _⟩
    by_cases huser : s.client.client.hasUser = true
    · obtain ⟨u, hu⟩ := Option.ne_none_iff_exists'.mp (hasUser_ne_none huser)
      refine hm.ended h (by rw [hu, hown u hu]; rfl) ?_ fun a a' _ => hleft a a'
      rw [ClientCall.after, if_pos ⟨hcode, huser⟩]
    · have hnone := eq_none_of_not_hasUser h.named huser
      refine hm.unchanged h (by rw [ClientCall.after, if_neg fun h => huser h.2])
        fun a a' _ hreported => ?_
      refine ⟨fun hcn => ?_, fun _ => hleft a a' hreported⟩
      rw [hnone] at hcn
      cases hcn
  · refine hm.unchanged h (by rw [ClientCall.after, if_neg fun h => hcode h.1])
      fun a a' hfollows hreported => ?_
    generalize hrec : a'.record = rec at hreported
    cases hreported with
    | closed hsome => exact absurd rfl hcode
    | notClosed code hne hnone => exact hfollows.of_record (hrec.trans hnone.symm)

/-- A `DISCONNECT` keeps it. -/
theorem Moves.disconnect (h : InStep s) (hm : Moves s (.disconnect v) s' net op code) :
    InStep s' := by
  have hasks := hm.asks
  simp only [ClientCall.op] at hasks
  split at hasks
  · cases hasks
  obtain rfl := Option.some.inj hasks
  by_cases hcode : code = srvSuccess
  · have hleft : ∀ a a' : Account, a.Follows s.client.client v →
        Reported a (ClientOp.disconnect v).req code a'.record →
        s.client.client.connectedUser = some v ∧ ∀ ud, a'.record = some ud →
          ud.status = statusDcn := by
      intro a a' hfollows hreported
      generalize a'.record = rec at hreported
      cases hreported with
      | disconnected ud hud hstatus =>
          refine ⟨?_, fun ud' hud' => ?_⟩
          · by_contra hne
            exact hstatus (hfollows.other hne ud hud)
          · obtain rfl := Option.some.inj hud'
            rfl
      | notDisconnected code hne hdcn => exact absurd hcode hne
    obtain ⟨b, b', -, hbfollows, -, hbreported⟩ := hm.own
    refine hm.ended h (hleft b b' hbfollows hbreported).1 ?_ fun a a' hfollows hreported =>
      (hleft a a' hfollows hreported).2
    rw [ClientCall.after, if_pos hcode]
  · refine hm.unchanged h (by rw [ClientCall.after, if_neg hcode])
      fun a a' hfollows hreported => ?_
    generalize hrec : a'.record = rec at hreported
    cases hreported with
    | disconnected ud hud hstatus => exact absurd rfl hcode
    | notDisconnected code hne hdcn => exact hfollows.of_record hrec

/-! ### The client's user comes -/

/-- The record of a user who has just connected. -/
theorem Reported.connect {port : ℕ} {rec : Option Userdata} (hpos : 0 < port)
    (hsmall : port < 65536)
    (h : Reported a (ClientOp.connect v (toString port).toList).req srvSuccess rec) :
    (∃ ud, a.record = some ud ∧ ud.status ≠ statusCn) ∧
      ∃ ud, rec = some ud ∧ ud.status = statusCn ∧ ud.port.toNat = port := by
  obtain ⟨hrange, hvalue⟩ := inRange_port hpos hsmall
  have hlist : (toString port).toList = Nat.toDigits 10 port := Nat.toList_repr
  have hlen : (toString port).toList.length ≤ 255 := by
    have hdigits := Nat.toDigits_length 10 port 5 (by omega) (by omega)
    rw [hlist]
    omega
  cases h with
  | connected ud ip p hud hstatus hp =>
      rw [received255_of_length hlen, hrange.number, hvalue] at hp
      obtain rfl := Except.ok.inj hp
      have hkept := hrange.kept
      rw [hvalue] at hkept
      exact ⟨⟨ud, hud, hstatus⟩, ud.connected ip port, rfl, rfl, hkept⟩
  | notConnected code hne => exact absurd rfl hne

/-- A `CONNECT` keeps it. -/
theorem Moves.connect (h : InStep s) (hm : Moves s (.connect v) s' net op code) : InStep s' := by
  have hasks := hm.asks
  simp only [ClientCall.op] at hasks
  split at hasks
  · cases hasks
  rename_i hother
  obtain ⟨port, hport, rfl⟩ := Option.map_eq_some_iff.mp hasks
  obtain ⟨port', hport', hpos, hsmall, -⟩ := hm.works.port
  obtain rfl := Option.some.inj (hport.symm.trans hport')
  by_cases hcode : code = srvSuccess
  · subst hcode
    -- the server had the user disconnected, so the client has no user yet
    have hfree : s.client.client.connectedUser = none := by
      obtain ⟨b, b', -, hbfollows, -, hbreported⟩ := hm.own
      obtain ⟨⟨ud, hud, hstatus⟩, -⟩ := hbreported.connect hpos hsmall
      refine (user_of_guard h.named hother).resolve_right fun hcn => ?_
      obtain ⟨ud', hud', hcn', -⟩ := hbfollows.connected hcn
      obtain rfl := Option.some.inj (hud.symm.trans hud')
      exact hstatus hcn'
    have hclient := hm.client
    rw [ClientCall.after, if_pos rfl, hport, h.threads, if_pos hfree] at hclient
    obtain ⟨hconnected, hports⟩ := Prod.mk.inj hclient
    have huser : s'.client.client.connectedUser = some v := by rw [hconnected]
    refine hm.build h ?_ ?_ ?_
    · intro a a' _ hreported
      obtain ⟨-, ud, hud, hstatus, hudport⟩ := hreported.connect hpos hsmall
      exact ⟨fun _ => ⟨ud, hud, hstatus, by rw [hconnected, hudport]⟩,
        fun hne => absurd huser hne⟩
    · intro u hne
      have hnot : s'.client.client.connectedUser ≠ some u := by
        rw [huser]
        exact fun heq => hne (Option.some.inj heq).symm
      refine ⟨⟨fun hu => absurd hu hnot, fun hu => ?_⟩, fun hu => absurd hu hnot⟩
      rw [hfree] at hu
      cases hu
    · -- the one listening thread is that of the new session
      rw [hports, hconnected]
      rfl
  · refine hm.unchanged h (by rw [ClientCall.after, if_neg hcode])
      fun a a' hfollows hreported => ?_
    generalize hrec : a'.record = rec at hreported
    cases hreported with
    | connected ud ip p hud hstatus hp => exact absurd rfl hcode
    | notConnected code hne => exact hfollows.of_record hrec

/-! ### Any call -/

/-- Every call keeps it that is not foreign. -/
theorem Moves.inStep (h : InStep s) (hm : Moves s call s' net op code)
    (hforeign : ¬ Foreign s call) :
    InStep s' := by
  cases call with
  | register v => exact hm.register h
  | unregister v => exact hm.unregister h hforeign
  | connect v => exact hm.connect h
  | disconnect v => exact hm.disconnect h
  | send v m => exact hm.send h

/-- A call that unregisters somebody else leaves the server with a connected user whom the client
has forgotten. -/
theorem Moves.not_agrees (h : InStep s) (hm : Moves s call s' net op code)
    (hforeign : Foreign s call) :
    ¬ Agrees s' := by
  obtain ⟨u, v, rfl, huser, hne, hcontent⟩ := hforeign
  intro hagrees
  have hu := h.named u huser
  obtain rfl := Option.some.inj hm.asks
  have hcode : code = srvSuccess := by
    obtain ⟨a, a', hkept, -, -, hreported⟩ := hm.own
    generalize a'.record = rec at hreported
    cases hreported with
    | closed hsome => rfl
    | notClosed code hne hnone =>
        have hrecord := hkept.content_record hm.proper.1.noSlash
        rw [hnone] at hrecord
        exact absurd hrecord hcontent
  have hclient := hm.client
  rw [ClientCall.after, if_pos ⟨hcode, hasUser_of_some h.named huser⟩] at hclient
  have hnone : s'.client.client.connectedUser = none := by rw [(Prod.mk.inj hclient).1]
  -- the record of `u` is as it was
  obtain ⟨a, a', -, hfollows, hkept', hrecord⟩ := hm.other u hu hne
  obtain ⟨ud, hud, hstatus, -⟩ := hfollows.connected huser
  have hconnected := (connectedAt_iff hu hkept').mpr ⟨ud, hrecord.trans hud, hstatus, rfl⟩
  have hsame := ((hagrees.record u hu _).mp hconnected).1
  rw [hnone] at hsame
  cases hsame

/-- A step keeps the invariant unless it is foreign. -/
theorem JointStep.inStep (h : InStep s) (hstep : JointStep s call s')
    (hforeign : ¬ Foreign s call) : InStep s' := by
  rcases hstep.moves h with ⟨rfl, -⟩ | ⟨net, op, code, hm⟩
  · exact h
  · exact hm.inStep h hforeign

/-- One call keeps the agreement if and only if it unregisters nobody else. -/
theorem JointStep.agrees_iff (h : InStep s) (hstep : JointStep s call s') :
    Agrees s' ↔ ¬ Foreign s call := by
  constructor
  · intro hagrees hforeign
    rcases hstep.moves h with ⟨-, net, hop⟩ | ⟨net, op, code, hm⟩
    · obtain ⟨u, v, rfl, -⟩ := hforeign
      cases hop
    · exact hm.not_agrees h hforeign hagrees
  · exact fun hforeign => (hstep.inStep h hforeign).agrees

end Moves

/-! ## Whole runs -/

/-- A client that has just been started, and a new database. -/
def newJoint (fs : FS) : Joint := ⟨freshClient, fs⟩

/-- The invariant at the start. -/
theorem inStep_newJoint {fs : FS} (h : fs.Fresh) : InStep (newJoint fs) := by
  refine ⟨fun u hu => ⟨.empty, h.keeps hu.noSlash, ⟨fun hcn => ?_, fun _ ud hud => ?_⟩⟩,
    fun u hu => ?_, rfl⟩
  · cases hcn
  · cases hud
  · cases hu

/-- A step of a thread that goes well. -/
def goesWell : srvE.Event → Bool
  | ⟨.write _ _, ok⟩ => ok
  | ⟨.note (.cltSendMessage _ _ result), _⟩ => result == 0
  | ⟨.uninit, junk⟩ => junk.user.status == statusDcn
  | _ => true

/-- A request is served well when each of its steps goes well. -/
theorem servedWell_of_goesWell {op : ClientOp} {t : List srvE.Event}
    (h : ∀ e ∈ t, goesWell e = true) :
    ServedWell op t := by
  refine ⟨fun sock bytes hmem => ?_, fun m result hmem => ?_, fun v junk _ hmem => ?_⟩
  · exact Bool.false_ne_true (h _ hmem)
  · obtain ⟨e, he, hact⟩ := List.mem_filterMap.mp hmem
    have hwell := h e he
    unfold actOf at hact
    split at hact <;> cases hact
    exact eq_of_beq hwell
  · obtain ⟨e, he, hact⟩ := List.mem_filterMap.mp hmem
    have hwell := h e he
    unfold actOf at hact
    split at hact <;> cases hact
    exact eq_of_beq hwell

/-- A network on which everything succeeds, with a free port and what the server answers. -/
def answering (port : ℕ) (reply : Bytes) : Network :=
  { closing with listening := some port, server := ⟨reply, .closed⟩ }

/-- What a thread makes of the bytes of `op`, when everything succeeds. -/
def work (op : ClientOp) (fs : FS) : List srvE.Event × Option Unit × SrvWorld :=
  (serviceThreadMem 1 (List.replicate sizeofRequest 0)).run srvApply calm
    ⟨fs, stream op.writes.bytes⟩

/-- What a call makes of the client, when a thread answers it. -/
def Joint.answered (s : Joint) (port : ℕ) (call : ClientCall) (op : ClientOp) :
    Outcome ℕ × ClientProcess :=
  call.process (answering port (sentToClient (work op s.fs).1)) s.client

/-- One call on which everything succeeds. -/
def Joint.play (s : Joint) (port : ℕ) (call : ClientCall) (op : ClientOp) : Joint :=
  ⟨(s.answered port call op).2, (work op s.fs).2.2.fs⟩

/-- A call that is played is a step. -/
theorem Joint.step_play {s : Joint} {port : ℕ} {call : ClientCall} {op : ClientOp}
    (hproper : call.Proper closing)
    (hport : 0 < port ∧ port < 65536 ∧ ∀ l ∈ s.client.listening, l.port ≠ port)
    (hop : call.op (answering port []) s.client.client = some op)
    (hwork : (work op s.fs).2.1 = some () ∧ (∀ e ∈ (work op s.fs).1, goesWell e = true) ∧
      (s.answered port call op).1 = .returned ecSuccess) : JointStep s call
      (s.play port call op) := by
  obtain ⟨hends, hwell, hreturns⟩ := hwork
  have hexec := exec_srvRun calm calm_calm (serviceThreadMem 1 (List.replicate sizeofRequest 0))
    ⟨s.fs, stream op.writes.bytes⟩
  have hthread : Exec (SrvStep noFaults) (serviceThreadMem 1 (List.replicate sizeofRequest 0))
      ⟨s.fs, stream op.writes.bytes⟩ (work op s.fs).1 (some ()) (work op s.fs).2.2 :=
        hends ▸ hexec
  have hevs : Delivers (stream op.writes.bytes) op.writes.bytes := by
    rw [Delivers, List.filter_eq_self]
    intro ev hev
    obtain ⟨b, -, rfl⟩ := List.mem_map.mp hev
    rfl
  have hworks : (answering port (sentToClient (work op s.fs).1)).Works s.client :=
    ⟨⟨port, rfl, hport⟩, rfl, fun _ => rfl, fun _ => rfl, fun _ => rfl⟩
  have hop' : call.op (answering port (sentToClient (work op s.fs).1)) s.client.client =
      some op := by
    cases call <;> exact hop
  have hprocess : call.process (answering port (sentToClient (work op s.fs).1)) s.client =
      (.returned ecSuccess, (s.answered port call op).2) := Prod.ext hreturns rfl
  exact JointStep.served hworks hproper hop' List.length_replicate hevs hthread
    (servedWell_of_goesWell hwell) rfl
    hprocess

/-- `a` is registered. -/
def jointA : Joint := (newJoint emptyDb).play 50000 (.register ['a']) (.register ['a'])

/-- `a` and `b` are registered. -/
def jointAB : Joint := jointA.play 50000 (.register ['b']) (.register ['b'])

/-- `a` is connected. -/
def jointConnected : Joint :=
  jointAB.play 50000 (.connect ['a']) (.connect ['a'] (toString 50000).toList)

theorem step_jointA : JointStep (newJoint emptyDb) (.register ['a']) jointA :=
  Joint.step_play ⟨by decide, nofun⟩ (by decide) rfl (by decide +kernel)

theorem step_jointAB : JointStep jointA (.register ['b']) jointAB :=
  Joint.step_play ⟨by decide, nofun⟩ (by decide +kernel) rfl (by decide +kernel)

theorem step_jointConnected : JointStep jointAB (.connect ['a']) jointConnected := by
  have hclient : jointAB.client = freshClient := by decide +kernel
  have hop : (ClientCall.connect ['a']).op (answering 50000 []) jointAB.client.client =
      some (.connect ['a'] (toString 50000).toList) := by
    rw [hclient]
    rfl
  exact Joint.step_play ⟨by decide, nofun⟩ (by decide +kernel) hop (by decide +kernel)

/-- `b` is unregistered while `a` is connected. -/
def jointApart : Joint := jointConnected.play 50001 (.unregister ['b']) (.unregister ['b'])

/-- **A client that unregisters somebody else** forgets its own user, whom the server has
connected. -/
theorem not_run_agrees : ∃ calls s, Run JointStep (newJoint emptyDb) calls s ∧ ¬ Agrees s := by
  have hstep : JointStep jointConnected (.unregister ['b']) jointApart :=
    Joint.step_play ⟨by decide, nofun⟩ (by decide +kernel) rfl (by decide +kernel)
  have hrun : Run JointStep (newJoint emptyDb) [.register ['a'], .register ['b'], .connect ['a'],
      .unregister ['b']]
      jointApart :=
        (((Run.single step_jointA).snoc step_jointAB).snoc step_jointConnected).snoc hstep
  refine ⟨_, _, hrun, fun hagrees => ?_⟩
  have hcontent : jointApart.fs.content (userdataPath (asciiBytes ['a'])) =
      Entry.image ⟨asciiBytes ['a'], .user ((default : Userdata).connected 0 50000)⟩ := by
        decide +kernel
  have hconnected : jointApart.fs.ConnectedAt ['a'] 50000 := ⟨_, hcontent, by decide, by decide⟩
  have huser := ((hagrees.record ['a'] (by decide) 50000).mp hconnected).1
  revert huser
  decide +kernel
