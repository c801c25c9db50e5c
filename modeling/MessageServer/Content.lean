/-
# The text of a message, from `Client.send` to the recipient

A text that the protocol cannot carry is sent all the same: `read_line` drops what
does not fit and stops at a newline, and the sender is told that all is well.

* `carriedBy`: the content that a step of `srv_send` transmits or stores;
* `may_send`: a message that is stored for a recipient who is not connected;
* `send_delivers_text_iff`: the texts that arrive unchanged.
-/
import MessageServer.ClientWire
import MessageServer.RequestWire
import MessageServer.Incomplete

/-! ## What is carried, and what the sender sees -/

/-- The content that a step transmits to a recipient or stores as pending. -/
def carriedBy : SrvOp → Option Bytes
  | .note (.cltSendMessage _ message _) => some message.content
  | .db (.ioOpUsrEnt entry .create) =>
      match entry.data with
      | .msg message => some message.content
      | _ => none
  | _ => none

/-- Some step carries the content. -/
def Carries (t : List srvE.Event) (content : Bytes) : Prop :=
  ∃ e ∈ t, carriedBy e.1 = some content

/-- What the client may get of a step: the bytes of a write, or a part of them when the
write fails. -/
def GotOf : srvE.Event → Bytes → Prop
  | ⟨.write .client bytes, ok⟩, got => if (show Bool from ok) then got = bytes
      else got <+: bytes
  | _, got => got = []

/-- What the client may get of the steps of a thread. -/
def Incoming (t : List srvE.Event) (incoming : Bytes) : Prop :=
  ∃ parts, List.Forall₂ GotOf t parts ∧ incoming = parts.flatten

/-- No step of a thread carries anything but `content`. -/
def carrying (content : Bytes) : Discipline srvE Unit where
  allowed := fun _ o => ∀ c, carriedBy o = some c → c = content
  possible := fun _ _ _ => True
  next := fun _ _ _ => ()

section Carrying

variable {content : Bytes}

theorem carrying_inert {α : Type} {p : Srv α} (hp : p.Performs Inert) {Q : Unit → α → Prop}
    (hQ : ∀ a, Q () a) : p.Obeys (carrying content) Q () := by
  refine obeys_of_performs (fun o ho => ⟨?_, fun _ => rfl⟩) hp hQ
  intro c hc
  cases o with
  | db call => exact ho.elim
  | note n => exact ho.elim
  | _ => exact absurd hc (by simp [carriedBy])

/-- A step that carries nothing. -/
theorem carrying_step {α : Type} {o : SrvOp} (ho : carriedBy o = none) {f : o.Ans → Srv α}
    {Q : Unit → α → Prop} (hf : ∀ x, (f x).Obeys (carrying content) Q ()) :
    (@Prog.perform srvE o >>= f).Obeys (carrying content) Q () :=
  obeys_perform_bind.mpr ⟨fun c hc => absurd (ho.symm.trans hc) (by simp), fun x _ => hf x⟩

theorem carrying_auxConnect {e : Entry} {Q : Unit → ℤ × Entry → Prop} (hQ : ∀ r, Q () r) :
    (auxConnectCltListenThread e).Obeys (carrying content) Q () := by
  rw [auxConnectCltListenThread]
  refine carrying_step rfl fun r => ?_
  split
  · exact hQ _
  refine carrying_step rfl fun ok => ?_
  split
  · exact carrying_step rfl fun connected => hQ _
  · exact hQ _

theorem carrying_auxSendMsgPass {sender recipient : Bytes} {code : UInt8} {entry : Entry}
    {Q : Unit → UInt8 × Entry × Entry → Prop}
    (hQ : ∀ c e id, Q () (c, e, ⟨recipient, .msg ⟨sender, id, content⟩⟩)) :
    (auxSendMsgPass sender recipient content code entry).Obeys (carrying content) Q () := by
  unfold auxSendMsgPass
  simp only
  split
  · rw [obeys_bind, cltSendMessage, obeys_bind]
    refine carrying_auxConnect fun r => ?_
    rw [obeys_bind]
    refine carrying_inert (performs_ifConnected (onSock_cltSendMessageStrings _)) fun result => ?_
    refine obeys_perform_bind.mpr ⟨fun c hc => (Option.some.inj hc).symm, fun _ _ => ?_⟩
    simp only [Prog.pure_eq, obeys_ret]
    split
    · exact hQ _ _ _
    · exact carrying_step rfl fun w => hQ _ _ _
  · exact hQ _ _ _

theorem carrying_srvSendFinish (sender : Bytes) (code : UInt8) (recipientEntry msgEntry : Entry) :
    (srvSendFinish sender code recipientEntry msgEntry).Obeys (carrying content)
      (fun _ _ => True) () := by
  rw [srvSendFinish, obeys_bind]
  refine carrying_inert (performs_auxSendFirstAck _ _) fun _ => ?_
  split
  · refine carrying_step rfl fun junk => ?_
    rw [obeys_bind, cltSendMessAck, obeys_bind]
    refine carrying_auxConnect fun r => ?_
    rw [obeys_bind]
    refine carrying_inert (performs_ifConnected (onSock_cltSendMessAckStrings _)) fun result => ?_
    exact carrying_step rfl fun _ => trivial
  · trivial

theorem carrying_auxSendInit (sender recipient : Bytes) (entry : Entry)
    {Q : Unit → UInt8 × Entry → Prop}
    (hQ : ∀ r, Q () r) : (auxSendInit sender recipient entry).Obeys (carrying content) Q () := by
  rw [auxSendInit]
  refine carrying_step rfl fun senderExists => carrying_step rfl fun recipientExists => ?_
  split
  · exact hQ _
  split
  · exact hQ _
  refine carrying_step rfl fun r => ?_
  split
  · exact hQ _
  · exact carrying_step rfl fun w => hQ _

/-- **`srv_send` carries the content that it received**, and no other. -/
theorem carrying_srvSendBody (sender recipient : Bytes) :
    (srvSendBody sender recipient content).Obeys (carrying content) (fun _ _ => True) () := by
  rw [srvSendBody]
  refine carrying_step rfl fun junk => ?_
  rw [obeys_bind]
  refine carrying_auxSendInit _ _ _ fun i => ?_
  split
  · rw [obeys_bind]
    exact carrying_inert (performs_sendServerReply _) fun _ => trivial
  · rw [obeys_bind]
    refine carrying_auxSendMsgPass fun code e id => ?_
    split
    · refine obeys_perform_bind.mpr ⟨fun c hc => (Option.some.inj hc).symm, fun w _ => ?_⟩
      exact carrying_srvSendFinish _ _ _ _
    · exact carrying_srvSendFinish _ _ _ _

end Carrying

/-- Every content that an execution of `srv_send` carries is the one it received. -/
theorem carries_srvSendBody {T : DbCall → List sysE.Event → Prop} {s r c c' : Bytes}
    {w w' : SrvWorld}
    {t : List srvE.Event} {a : Option Unit}
    (h : Exec (SrvStep T) (finished (srvSendBody s r c)) w t a w') (hc : Carries t c') :
    c' = c := by
  obtain ⟨e, he, hcarried⟩ := hc
  have hobeys : (finished (srvSendBody s r c)).Obeys (carrying c) (fun _ _ => True) () := by
    rw [finished, obeys_bind]
    exact (carrying_srvSendBody s r).mono fun _ _ _ => trivial
  obtain ⟨_, hallowed⟩ := Exec.allowed (I := fun _ _ => True)
    (fun _ _ _ _ _ _ _ _ => ⟨trivial, trivial⟩) h hobeys trivial e he
  exact hallowed c' hcarried

/-! ## A message that is stored -/

theorem Incoming.append {t t' : List srvE.Event} {bs bs' : Bytes} (h : Incoming t bs)
    (h' : Incoming t' bs') : Incoming (t ++ t') (bs ++ bs') := by
  obtain ⟨parts, hparts, rfl⟩ := h
  obtain ⟨parts', hparts', rfl⟩ := h'
  exact ⟨parts ++ parts', List.rel_append hparts hparts', List.flatten_append.symm⟩

/-- Receives bring the client nothing. -/
theorem incoming_recv {t : List srvE.Event} (h : ∀ e ∈ t, IsRecv e) : Incoming t [] := by
  refine ⟨t.map fun _ => [], ?_, by simp⟩
  rw [List.forall₂_map_right_iff, List.forall₂_same]
  intro e he
  obtain ⟨buf, hbuf⟩ := h e he
  obtain ⟨o, x⟩ := e
  obtain rfl : o = .recv buf := hbuf
  rfl

section Storing

variable {fs : FS} {s r : Bytes}

/-- **A message for a recipient who is not connected** can be accepted and stored. -/
theorem may_send {p q place : Location} (hs : fs.DirAt (userTablePath s) p)
    (hr : fs.DirAt (userTablePath r) q) {u' : Bytes} {ud : Userdata} (hknown : fs.KnownAs r u' ud)
    (hstatus : ud.status ≠ statusCn)
    (hplace : fs.locate (pendMsgPath r (nextMsgId ud.lastMsgId)) = .ok place)
    (hfree : fs.Writable .create place) (c : Bytes) (input : List ReadEv) :
    (srvSendBody s r c).May (SrvStep noFaults) (fun t _ _ =>
      Carries t c ∧ Incoming t (replyBytes srvSuccess (nextMsgId ud.lastMsgId))) ⟨fs,
        input⟩ := by
  obtain ⟨f, hf⟩ := hknown.fileAt
  have hplace' : (fs.put f (.file (Entry.image ⟨u', .user ud.next⟩))).locate
      (pendMsgPath r (nextMsgId ud.lastMsgId)) = .ok place := (FS.locate_put_file hf.2).mpr hplace
  have hfree' : (fs.put f (.file (Entry.image ⟨u', .user ud.next⟩))).Writable
      .create place := by
    have hne : place ≠ f := by
      rintro rfl
      rw [FS.Writable, hf.2] at hfree
      exact absurd hfree (by simp)
    rw [FS.Writable, FS.get_put_of_ne _ _ hne]
    exact hfree
  rw [srvSendBody]
  refine may_perform_bind (⟨1, default, default⟩ : Junk) rfl (may_bind ?_)
  rw [auxSendInit]
  refine may_db_bind (may_userExists hs) (may_db_bind (may_userExists hr) ?_)
  rw [if_neg (by decide), if_neg (by decide)]
  refine may_db_bind (may_read (typed_user _ _) hknown.content (fits_user hknown.fits ud)) ?_
  rw [if_neg (show ¬ dbmsSuccess < 0 by decide)]
  refine may_db_bind (may_modify (typed_user _ _) hf) (may_ret ?_)
  rw [if_neg (show ¬ dbmsSuccess < 0 by decide),
    if_neg (show ¬ srvSuccess ≠ srvSuccess by decide)]
  refine may_bind ?_
  change (auxSendMsgPass s r c srvSuccess ⟨u', .user ud.next⟩).May _ _ _
  rw [auxSendMsgPass_other (show ud.next.status ≠ statusCn from hstatus)]
  refine may_ret ?_
  -- the uninitialised reply code is 1, so the message is stored in any case
  rw [if_pos (Or.inr (show (1 : UInt8) ≠ srvSuccess by decide))]
  refine may_db_bind (may_write (typed_msg _ _) (Or.inl rfl) hplace' hfree') ?_
  rw [if_neg (show ¬ dbmsSuccess < 0 by decide), srvSendFinish]
  refine may_bind ?_
  rw [auxSendFirstAck]
  refine may_bind (may_sendServerReply ?_)
  rw [if_neg (show ¬ (0 : ℤ) < 0 by decide), if_pos rfl, sendString]
  refine may_bind (may_perform_bind true rfl (may_ret (may_ret ?_)))
  rw [if_neg (show (Entry.mk u' (.user ud.next)).user.status ≠ statusCn from hstatus)]
  refine may_ret ⟨?_, ?_⟩
  · exact ⟨⟨SrvOp.db (.ioOpUsrEnt ⟨r, .msg ⟨s, ud.next.lastMsgId, c⟩⟩ .create),
      (dbmsSuccess, ⟨r, .msg ⟨s, ud.next.lastMsgId, c⟩⟩)⟩, by simp, rfl⟩
  · refine ⟨[[], [], [], [], [], [], [srvSuccess],
      decimal (nextMsgId ud.lastMsgId).toNat ++ [0]], ?_,
      by simp [replyBytes]⟩
    simp [GotOf, Userdata.next]

end Storing

/-! ## Texts -/

/-- A text that the client can encode and that has no NUL. -/
def MessageText (text : PyStr) : Prop := ∀ c ∈ text, c.toNat < 128 ∧ c.toNat ≠ 0

instance (text : PyStr) : Decidable (MessageText text) := List.decidableBAll _ text

/-- On a database: whenever `Client.send` returns `EC.SUCCESS` for the text, what the
server has transmitted or stored is the normalised text. -/
def FS.DeliversText (fs : FS) (text : PyStr) : Prop :=
  ∀ (connectedUser : Option PyStr) (recipient : PyStr),
    (∀ user ∈ connectedUser, FieldValue user) →
    FieldValue recipient →
    ∀ fuel mem evs t v w' incoming, mem.length = sizeofRequest →
      Delivers evs (sendWrites connectedUser recipient text).bytes →
      Exec (SrvStep anyFaults) (serviceThreadMem fuel mem) ⟨fs, evs⟩ t v w' →
      Incoming t incoming → clientSend connectedUser recipient text incoming = some ecSuccess →
      ∀ content, Carries t content → content = asciiBytes (Project.remove text)

theorem messageText_remove {text : PyStr} (h : MessageText text) :
    MessageText (Project.remove text) := by
  intro c hc
  rcases mem_removeLoop hc with hmem | rfl
  · exact h c hmem
  · decide

theorem MessageText.fieldValue {text : PyStr} (h : MessageText text) (hnewline : '\n' ∉ text) :
    FieldValue text := by
  intro c hc
  refine ⟨(h c hc).1, (h c hc).2, fun heq => hnewline ?_⟩
  obtain rfl : c = '\n' := Char.toNat_inj.mp heq
  exact hc

/-! ### The text on its way -/

/-- The first line of a string with its NUL. -/
theorem exists_line (bs : Bytes) : ∃ line b more, IsLine line ∧ isTerminator b = true ∧
    bs ++ [0] = line ++ b :: more ∧ (line.length < bs.length ∨ (line = bs ∧ IsLine bs)) := by
  induction bs with
  | nil => exact ⟨[], 0, [], by simp [IsLine], rfl, rfl, Or.inr ⟨rfl, by simp [IsLine]⟩⟩
  | cons c bs ih =>
      by_cases hc : isTerminator c = true
      · exact ⟨[], c, bs ++ [0], by simp [IsLine], hc, rfl, Or.inl (Nat.succ_pos _)⟩
      · obtain ⟨line, b, more, hline, hb, heq, hlen⟩ := ih
        have hcons : ∀ {l : Bytes}, IsLine l → IsLine (c :: l) := by
          intro l hl d hd
          rcases List.mem_cons.mp hd with rfl | hd
          · simpa using hc
          · exact hl d hd
        refine ⟨c :: line, b, more, hcons hline, hb, by rw [List.cons_append, heq]; rfl, ?_⟩
        rcases hlen with hlt | ⟨rfl, hbs⟩
        · exact Or.inl (Nat.succ_lt_succ hlt)
        · exact Or.inr ⟨rfl, hcons hbs⟩

/-- A text that is too long or has a newline is cut. -/
theorem exists_cut {text : PyStr} (hno : ¬ (text.length ≤ 255 ∧ '\n' ∉ text)) :
    ∃ line b more, IsLine line ∧ isTerminator b = true ∧
      asciiBytes text ++ [0] = line ++ b :: more ∧
      received255 line ≠ asciiBytes text := by
  obtain ⟨line, b, more, hline, hb, heq, hlen⟩ := exists_line (asciiBytes text)
  refine ⟨line, b, more, hline, hb, heq, fun hsame => ?_⟩
  have hcut : (received255 line).length ≤ line.length := List.length_take_le' _ _
  rw [hsame] at hcut
  rcases hlen with hlt | ⟨rfl, hbs⟩
  · omega
  · refine hno ⟨?_, fun hmem => ?_⟩
    · have hlen := length_received255 (asciiBytes text)
      rw [hsame, asciiBytes, List.length_map] at hlen
      exact hlen
    · have hterm := hbs 10 (List.mem_map.mpr ⟨'\n', hmem, rfl⟩)
      exact absurd hterm (by decide)

/-- What `Client.send` writes, and that it returns success on an accepted message. -/
theorem sendWrites_eq {user recipient text : PyStr} (hu : FieldValue user)
    (hr : FieldValue recipient)
    (htext : MessageText text) : sendWrites (some user) recipient text = ⟨nulTerminated
      [opSend, asciiBytes user, asciiBytes recipient, asciiBytes (Project.remove text)],
        false⟩ := by
  have hascii : ∀ s ∈ (ClientOp.send user recipient (Project.remove text)).fields,
      IsAscii s := by
    intro s hs
    rcases List.mem_cons.mp hs with rfl | hs
    · exact hu.isAscii
    rcases List.mem_cons.mp hs with rfl | hs
    · exact hr.isAscii
    · obtain rfl := List.mem_singleton.mp hs
      exact fun c hc => (messageText_remove htext c hc).1
  exact writes_eq _ hascii

theorem clientSend_accepted {user recipient text : PyStr} (hu : FieldValue user)
    (hr : FieldValue recipient) (htext : MessageText text) (id : UInt32) :
    clientSend (some user) recipient text (replyBytes srvSuccess id) = some ecSuccess := by
  have hreply := receiveSendReply_replyBytes srvSuccess id []
  rw [List.append_nil] at hreply
  rw [clientSend, sendWrites_eq hu hr htext, hreply]
  rfl

/-- **A text that the protocol cannot carry is cut** and reported as sent: `a` sends it
to `b`, who is not connected. -/
theorem may_deliver_cut {text : PyStr} (htext : MessageText text)
    (hno : ¬ ((Project.remove text).length ≤ 255 ∧ '\n' ∉ Project.remove text)) (mem : Bytes)
    (hmem : mem.length = sizeofRequest) :
    ∃ t v w' incoming content, Exec (SrvStep anyFaults) (serviceThreadMem 1 mem)
        ⟨registeredAB, stream (sendWrites (some ['a']) ['b'] text).bytes⟩ t v w' ∧
      Incoming t incoming ∧ clientSend (some ['a']) ['b'] text incoming = some ecSuccess ∧
      Carries t content ∧ content ≠ asciiBytes (Project.remove text) := by
  have ha : FieldValue ['a'] := by decide
  have hb : FieldValue ['b'] := by decide
  -- the server reads the text up to its first line feed, or 255 bytes of it
  obtain ⟨line, z, more, hline, hz, heq, hcut⟩ := exists_cut hno
  have hdelivers := delivers_stream (sendWrites (some ['a']) ['b'] text).bytes
  rw [sendWrites_eq ha hb htext] at hdelivers ⊢
  have hbytes : nulTerminated [opSend, asciiBytes ['a'], asciiBytes ['b'],
      asciiBytes (Project.remove text)] =
      opSend ++ 0 :: (asciiBytes ['a'] ++ 0 :: (asciiBytes ['b'] ++ 0 :: (line ++ z :: more))) := by
    rw [← heq]
    simp [nulTerminated]
  dsimp only at hdelivers ⊢
  rw [hbytes] at hdelivers ⊢
  obtain ⟨t₀, evs, hrecv, -, hexec⟩ : LeadsTo noFaults registeredAB
      (serviceThreadMem 1 mem) _ more
      (finished (srvSendBody (ascii "a") (ascii "b") (received255 line))) := by
    refine leadsTo_dispatch (show IsLine opSend by decide) (by decide) hdelivers
      fun evs' hrest => ?_
    rw [dispatchMem, if_neg (by decide), if_neg (by decide), if_neg (by decide),
      if_neg (by decide), if_pos rfl]
    refine leadsTo_send ha.isLine hb.isLine hline hz ?_ hrest
    rw [length_store (by rw [hmem]; decide), hmem]
  -- both users are registered, and there is room for the message
  have hknown : registeredAB.KnownAs (ascii "b") (ascii "b") default :=
    ⟨by decide, by decide +kernel, by decide +kernel⟩
  have htableA : registeredAB.DirAt (userTablePath (ascii "a")) [dbDir, ascii "a-table"] :=
    ⟨by decide +kernel, by decide +kernel⟩
  have htableB : registeredAB.DirAt (userTablePath (ascii "b")) [dbDir, ascii "b-table"] :=
    ⟨by decide +kernel, by decide +kernel⟩
  have hplace :
      registeredAB.locate (pendMsgPath (ascii "b") (nextMsgId (default : Userdata).lastMsgId)) =
      .ok (msgFile [dbDir, ascii "b-table"] 1) := by decide +kernel
  have hfree : registeredAB.Writable .create (msgFile [dbDir, ascii "b-table"] 1) :=
    show registeredAB.get (msgFile [dbDir, ascii "b-table"] 1) = none by decide +kernel
  obtain ⟨t, a, w', hsend, hcarries, hincoming⟩ :=
    may_send htableA htableB hknown (by decide) hplace hfree (received255 line) evs
  have hfinished : Exec (SrvStep noFaults) (finished (srvSendBody (ascii "a") (ascii "b")
      (received255 line))) ⟨registeredAB, evs⟩ (t ++ []) (some ()) w' :=
    exec_bind_iff.mpr ⟨t, a, w', [], hsend, Exec.ret _ _, rfl⟩
  refine ⟨t₀ ++ (t ++ []), some (), w',
    replyBytes srvSuccess (nextMsgId (default : Userdata).lastMsgId),
    received255 line, exec_anyFaults ((hexec _ _ _).mpr ⟨_, rfl, hfinished⟩), ?_,
    clientSend_accepted ha hb htext _, ?_, hcut⟩
  · rw [List.append_nil]
    exact (incoming_recv hrecv).append hincoming
  · obtain ⟨e, he, hcarried⟩ := hcarries
    exact ⟨e, by simp [he], hcarried⟩

/-! ### The condition -/

/-- **The text that arrives is the text that was sent**, for every user, recipient and
database and whatever fails, exactly when the normalised text has at most 255
characters and no newline. -/
theorem send_delivers_text_iff (text : PyStr) (htext : MessageText text) :
    (∀ fs : FS, fs.DeliversText text) ↔ (Project.remove text).length ≤ 255 ∧
      '\n' ∉ Project.remove text := by
  constructor
  · intro h
    by_contra hno
    obtain ⟨t, v, w', incoming, content, hexec, hincoming, hsuccess, hcarries, hne⟩ :=
      may_deliver_cut htext hno (List.replicate sizeofRequest 0) List.length_replicate
    exact hne (h registeredAB (some ['a']) ['b'] (by decide) (by decide) 1 _ _ t v w' incoming
      List.length_replicate (delivers_stream _) hexec hincoming hsuccess content hcarries)
  · rintro ⟨hlen, hnewline⟩ fs connectedUser recipient hu hr fuel mem evs t v w' incoming
      hmem hdelivers
      hexec - hsuccess content hcarries
    cases connectedUser with
    | none =>
        exact absurd hsuccess (by simp [clientSend, sendWrites, sendAscii, sendNul, Sent.andThen,
        encodeAscii])
    | some user =>
        have hvalue := (messageText_remove htext).fieldValue hnewline
        have hfields : ∀ s ∈ (ClientOp.send user recipient (Project.remove text)).fields,
            FieldValue s := by
          intro s hs
          rcases List.mem_cons.mp hs with rfl | hs
          · exact hu _ rfl
          rcases List.mem_cons.mp hs with rfl | hs
          · exact hr
          · obtain rfl := List.mem_singleton.mp hs
            exact hvalue
        have hdelivers' : Delivers evs
            ((ClientOp.send user recipient (Project.remove text)).writes.bytes ++ []) := by
          rw [List.append_nil]
          exact hdelivers
        obtain ⟨-, t₀, evs', hrecv, -, hleads⟩ := serviceThread_decodes anyFaults fuel fs hmem
          (.send user recipient (Project.remove text)) hfields hdelivers'
        obtain ⟨t', rfl, hbody⟩ := (hleads _ _ _).mp hexec
        have hcarries' : Carries t' content := by
          obtain ⟨e, he, hcarried⟩ := hcarries
          rcases List.mem_append.mp he with he | he
          · obtain ⟨buf, hbuf⟩ := hrecv e he
            rw [hbuf] at hcarried
            exact absurd hcarried (by simp [carriedBy])
          · exact ⟨e, he, hcarried⟩
        rw [carries_srvSendBody hbody hcarries']
        exact received255_of_length hlen

/-- The text of the tests. -/
theorem send_delivers_text_iff_blanks :
    (∀ fs : FS, fs.DeliversText "1 2  3   4    5".toList) ↔
      (Project.remove "1 2  3   4    5".toList).length ≤ 255 ∧
        '\n' ∉ Project.remove "1 2  3   4    5".toList :=
  send_delivers_text_iff _ (by decide)

/-- A text of 256 characters. -/
def longText : PyStr := List.replicate 256 'x'

/-- **A text that is too long loses its end** while the sender is told that it was
sent. -/
theorem not_send_delivers_text :
    ¬ ∀ (fs : FS) (text : PyStr), Reachable fs → MessageText text →
      fs.DeliversText text := by
  intro h
  have htext : MessageText longText := by decide +kernel
  have hlong : ¬ ((Project.remove longText).length ≤ 255 ∧
      '\n' ∉ Project.remove longText) := by decide +kernel
  obtain ⟨t, v, w', incoming, content, hexec, hincoming, hsuccess, hcarries, hne⟩ :=
    may_deliver_cut htext hlong (List.replicate sizeofRequest 0) List.length_replicate
  exact hne (h registeredAB longText registeredAB_reachable htext (some ['a']) ['b'] (by decide)
    (by decide) 1 _ _ t v w' incoming List.length_replicate (delivers_stream _) hexec
      hincoming hsuccess
    content hcarries)
