/-
# The agreement of client and server

The server has exactly the client's user connected, at the client's port, and the client has one
listening thread for it.

* `Agrees`: the agreement, `Foreign`: a call that breaks it;
* `InStep`: the invariant behind it, from the account of each user;
* `Moves`: what one call does, from the client's side and from the server's.
-/
import MessageServer.JointSystem

/-! ## Agreement -/

/-- The server has `u` connected at `port`. -/
def FS.ConnectedAt (fs : FS) (u : PyStr) (port : ℕ) : Prop :=
  ∃ ud, fs.content (userdataPath (asciiBytes u)) = Entry.image ⟨asciiBytes u, .user ud⟩ ∧
    ud.status = statusCn ∧ ud.port.toNat = port

/-- The server has exactly the client's user connected, at the port that the client listens on, and
the client has one listening thread, for this port, when it has a user, and none otherwise. -/
structure Agrees (s : Joint) : Prop where
  record : ∀ u, UserName u → ∀ port, s.fs.ConnectedAt u port ↔
    s.client.client.connectedUser = some u ∧ s.client.client.listeningPort = some port
  threads : s.client.listening.map ListenThread.port =
    if s.client.client.connectedUser = none then [] else s.client.client.listeningPort.toList

/-- The call unregisters somebody who is registered, and is not the connected user. -/
def Foreign (s : Joint) (call : ClientCall) : Prop :=
  ∃ u v, call = .unregister v ∧ s.client.client.connectedUser = some u ∧ u ≠ v ∧
    s.fs.content (userdataPath (asciiBytes v)) ≠ []

/-- The record of `u` is as the client has it. -/
structure Account.Follows (a : Account) (client : Client) (u : PyStr) : Prop where
  connected : client.connectedUser = some u →
    ∃ ud, a.record = some ud ∧ ud.status = statusCn ∧
    client.listeningPort = some ud.port.toNat
  other : client.connectedUser ≠ some u → ∀ ud, a.record = some ud → ud.status = statusDcn

/-- The invariant of the joint system. -/
structure InStep (s : Joint) : Prop where
  kept : ∀ u, UserName u → ∃ a, s.fs.Keeps True (asciiBytes u) a ∧
    a.Follows s.client.client u
  named : ∀ u, s.client.client.connectedUser = some u → UserName u
  threads : s.client.listening.map ListenThread.port =
    if s.client.client.connectedUser = none then [] else s.client.client.listeningPort.toList

/-! ### The agreement and its invariant -/

section Agreement

variable {s s' : Joint} {call : ClientCall} {u v : PyStr} {a a' : Account} {self : Client}

theorem connectedAt_iff {fs : FS} {port : ℕ} (hu : UserName u)
    (hkept : fs.Keeps True (asciiBytes u) a) :
    fs.ConnectedAt u port ↔ ∃ ud, a.record = some ud ∧ ud.status = statusCn ∧
      ud.port.toNat = port := by
  have hcontent := hkept.content_record hu.noSlash
  have hrecord : ∀ ud, fs.content (userdataPath (asciiBytes u)) = Entry.image ⟨asciiBytes u,
      .user ud⟩ ↔
      a.record = some ud := by
    intro ud
    rw [hcontent]
    cases hrec : a.record with
    | none => simpa using (image_ne_nil _).symm
    | some ud' =>
        constructor
        · intro heq
          have hsame := image_inj (fits_user hu.fits ud') (fits_user hu.fits ud) heq
          simpa using hsame
        · intro heq
          rw [Option.some.inj heq]
          rfl
  exact exists_congr fun ud => and_congr_left fun _ => hrecord ud

/-- The invariant is an agreement. -/
theorem InStep.agrees (h : InStep s) : Agrees s := by
  refine ⟨fun u hu port => ?_, h.threads⟩
  obtain ⟨a, hkept, hfollows⟩ := h.kept u hu
  rw [connectedAt_iff hu hkept]
  constructor
  · rintro ⟨ud, hud, hstatus, hport⟩
    have huser : s.client.client.connectedUser = some u := by
      by_contra hne
      exact statusDcn_ne_statusCn ((hfollows.other hne ud hud).symm.trans hstatus)
    obtain ⟨ud', hud', -, hport'⟩ := hfollows.connected huser
    obtain rfl := Option.some.inj (hud.symm.trans hud')
    exact ⟨huser, by rw [hport', hport]⟩
  · rintro ⟨huser, hport⟩
    obtain ⟨ud, hud, hstatus, hport'⟩ := hfollows.connected huser
    exact ⟨ud, hud, hstatus, Option.some.inj (hport'.symm.trans hport)⟩

/-- A record that is the same for a client that is the same for its user. -/
theorem Account.Follows.same {self' : Client} (h : a.Follows self u)
    (hrecord : a'.record = a.record)
    (huser : self'.connectedUser = some u ↔ self.connectedUser = some u)
    (hport : self'.connectedUser = some u → self'.listeningPort = self.listeningPort) :
    a'.Follows self' u := by
  constructor
  · intro hcn
    rw [hrecord, hport hcn]
    exact h.connected (huser.mp hcn)
  · intro hcn
    rw [hrecord]
    exact h.other fun hcn' => hcn (huser.mpr hcn')

/-! ### What a call asks for -/

/-- The guard of `connect` and `disconnect`. -/
theorem user_of_guard (hnamed : ∀ u, self.connectedUser = some u → UserName u)
    (h : ¬ self.hasOtherUser v = true) :
    self.connectedUser = none ∨ self.connectedUser = some v := by
  cases huser : self.connectedUser with
  | none => exact Or.inl rfl
  | some w =>
      have hne : w ≠ [] := (hnamed w huser).2.1
      have hhas : self.hasUser = true := by
        rw [Client.hasUser, huser]
        simpa using hne
      rw [Client.hasOtherUser, hhas, huser] at h
      simp only [Bool.true_and, decide_eq_true_eq, not_not, Option.some.injEq] at h
      exact Or.inr (by rw [h])

theorem hasUser_of_some (hnamed : ∀ u, self.connectedUser = some u → UserName u)
    (h : self.connectedUser = some u) : self.hasUser = true := by
  rw [Client.hasUser, h]
  simpa using (hnamed u h).2.1

theorem eq_none_of_not_hasUser (hnamed : ∀ u, self.connectedUser = some u → UserName u)
    (h : ¬ self.hasUser = true) : self.connectedUser = none := by
  cases huser : self.connectedUser with
  | none => rfl
  | some u => exact absurd (hasUser_of_some hnamed huser) h

/-- The request of a call is for the account that the call is about. -/
theorem ClientCall.op_user {net : Network} {op : ClientOp} (hproper : call.Proper net)
    (hop : call.op net self = some op) : op.req.user = some (asciiBytes call.account) := by
  have hreceived := hproper.1.received
  cases call with
  | register user =>
      obtain rfl := Option.some.inj hop
      exact congrArg some hreceived
  | unregister user =>
      obtain rfl := Option.some.inj hop
      exact congrArg some hreceived
  | connect user =>
      simp only [ClientCall.op] at hop
      split at hop
      · cases hop
      · obtain ⟨port, -, rfl⟩ := Option.map_eq_some_iff.mp hop
        exact congrArg some hreceived
  | disconnect user =>
      simp only [ClientCall.op] at hop
      split at hop
      · cases hop
      · obtain rfl := Option.some.inj hop
        exact congrArg some hreceived
  | send recipient message =>
      simp only [ClientCall.op] at hop
      split at hop
      · obtain rfl := Option.some.inj hop
        exact congrArg some hreceived
      · cases hop

/-- The fields of a call are field values. -/
theorem ClientCall.op_fields {net : Network} {op : ClientOp}
    (hnamed : ∀ u, self.connectedUser = some u → UserName u) (hproper : call.Proper net)
    (hop : call.op net self = some op) : ∀ s ∈ op.fields, FieldValue s := by
  have haccount := hproper.1.1
  cases call with
  | register user =>
      obtain rfl := Option.some.inj hop
      exact fun s hs => List.mem_singleton.mp hs ▸ haccount
  | unregister user =>
      obtain rfl := Option.some.inj hop
      exact fun s hs => List.mem_singleton.mp hs ▸ haccount
  | connect user =>
      simp only [ClientCall.op] at hop
      split at hop
      · cases hop
      · obtain ⟨port, -, rfl⟩ := Option.map_eq_some_iff.mp hop
        intro s hs
        rcases List.mem_cons.mp hs with rfl | hs
        · exact haccount
        · rw [List.mem_singleton.mp hs]
          intro c hc
          have hdigit := digit_of_port hc
          omega
  | disconnect user =>
      simp only [ClientCall.op] at hop
      split at hop
      · cases hop
      · obtain rfl := Option.some.inj hop
        exact fun s hs => List.mem_singleton.mp hs ▸ haccount
  | send recipient message =>
      simp only [ClientCall.op] at hop
      split at hop
      · rename_i user text huser htext
        obtain rfl := Option.some.inj hop
        intro s hs
        simp only [ClientOp.fields, List.mem_cons, List.not_mem_nil, or_false] at hs
        rcases hs with rfl | rfl | rfl
        · exact (hnamed _ huser).1
        · exact haccount
        · exact hproper.2 _ _ _ rfl htext
      · cases hop

/-! ### What a call does -/

/-- A request for somebody else leaves the record of `u` as it is. -/
theorem account_step {fs fs' : FS} {req : Req} {t : List srvE.Event} (hu : UserName u)
    (hv : UserName v)
    (h : Handled fs (req, t) fs') (huser : req.user = some (asciiBytes v))
    (hkept : fs.Keeps True (asciiBytes u) a) :
    ∃ a', fs'.Keeps True (asciiBytes u) a' ∧
      (u = v → Served (asciiBytes u) a req (acts t) a') ∧
      (u ≠ v → a'.record = a.record) := by
  have hinj : asciiBytes v = asciiBytes u → v = u := asciiBytes_inj hv.isAscii hu.isAscii
  obtain ⟨a', hturn, hkept'⟩ := h.turn False hu.noSlash hkept fun w hw => by
    obtain rfl : asciiBytes v = w := Option.some.inj (huser.symm.trans hw)
    by_cases heq : asciiBytes v = asciiBytes u
    · exact Or.inl heq
    · exact Or.inr ⟨apart_of_noSlash _ hv.noSlash hu.noSlash heq, False.elim⟩
  refine ⟨a', hkept', ?_, ?_⟩
  · rintro rfl
    rcases hturn with ⟨-, hserved⟩ | ⟨hne, -⟩
    · exact hserved
    · exact absurd huser hne
  · intro hne
    rcases hturn with ⟨hsame, -⟩ | ⟨-, stray, -, rfl⟩
    · exact absurd (hinj (Option.some.inj (huser.symm.trans hsame))).symm hne
    · rfl

/-- What a call that reaches the server does: to the client, to the record of its user, and to the
others. -/
structure Moves (s : Joint) (call : ClientCall) (s' : Joint) (net : Network) (op : ClientOp)
    (code : UInt8) : Prop where
  works : net.Works s.client
  proper : call.Proper net
  asks : call.op net s.client.client = some op
  client : (s'.client.client, s'.client.listening.map ListenThread.port) =
    call.after net s.client.client (s.client.listening.map ListenThread.port) code
  own : ∃ a a', s.fs.Keeps True (asciiBytes call.account) a ∧
    a.Follows s.client.client call.account ∧
    s'.fs.Keeps True (asciiBytes call.account) a' ∧ Reported a op.req code a'.record
  other : ∀ u, UserName u → u ≠ call.account →
    ∃ a a', s.fs.Keeps True (asciiBytes u) a ∧
    a.Follows s.client.client u ∧ s'.fs.Keeps True (asciiBytes u) a' ∧ a'.record = a.record

theorem JointStep.moves (h : InStep s) (hstep : JointStep s call s') :
    (s' = s ∧ ∃ net : Network, call.op net s.client.client = none) ∨ ∃ net op code,
      Moves s call s' net op code := by
  cases hstep with
  | @refused net _ _ hworks hproper hop hprocess =>
      left
      rw [ClientCall.process_refused hworks hop hprocess]
      exact ⟨rfl, net, hop⟩
  | @served net op fuel mem evs t w c self' hworks hproper hop hmem hevs hthread hwell
      hserver hprocess =>
      right
      have huser := ClientCall.op_user hproper hop
      obtain ⟨t', hhandled, hacts⟩ :=
        handled_of_thread (ClientCall.op_fields h.named hproper hop) hmem hevs hthread
      have hstep := fun u (hu : UserName u) a (hkept : s.fs.Keeps True (asciiBytes u) a) =>
        account_step hu hproper.1 hhandled huser hkept
      obtain ⟨a, hkept, hfollows⟩ := h.kept _ hproper.1
      obtain ⟨a', hkept', hserved, -⟩ := hstep _ hproper.1 a hkept
      have hserved' := hserved rfl
      rw [hacts] at hserved'
      obtain ⟨code, rest, hreply, hreported⟩ :=
        hserved'.reported hwell.sent fun v junk hreg hjunk => by
        cases op with
        | register user => exact hwell.clean user junk rfl hjunk
        | _ => cases hreg
      rw [← sentToClient_eq hwell.written, ← hserver] at hreply
      refine ⟨net, op, code, hworks, hproper, hop, ClientCall.process_after hworks hop
        hprocess hreply,
        ⟨a, a', hkept, hfollows, hkept', hreported⟩, fun u hu hne => ?_⟩
      obtain ⟨b, hb, hbfollows⟩ := h.kept u hu
      obtain ⟨b', hb', -, hsame⟩ := hstep u hu b hb
      exact ⟨b, b', hb, hbfollows, hb', hsame hne⟩

end Agreement
