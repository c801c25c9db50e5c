/-
# What a drain delivers

`aux_connect_send_pend_msgs` on a mailbox, when the operations on files succeed.  Whatever the
listeners do, it delivers some of the messages one after the other and deletes exactly these; it
stops at the first message that does not get through, or when none is left.

* `Round`: the steps of one delivery, `LastRound`: those after the last one;
* `Deliveries`: all of it, with the file system afterwards;
* `must_drainLoop_deliver`: the loop, by induction on its rounds;
* `drain_delivers_exactly`: the drain ends and makes deliveries.
-/
import MessageServer.Mailbox
import MessageServer.Served
import MessageServer.Transmission
import MessageServer.FailedConnect

/-! ## Deliveries -/

/-- The steps of the delivery of a stored message to the user with record `ud`: the message is
found, the user's record is read and the message sent to the listener at its address, all of it; its
file is deleted; the record of its sender is read, and an acknowledgement with its id is sent to the
listener at the address in what that read returns, unless the read fails. -/
inductive Round (u : Bytes) (ud : Userdata) (x : Bytes × Message) : List srvE.Event → Prop
  | intro {call ack : List srvE.Event} {key sender : Entry} {deleted answer : ℤ × Entry}
      {result : ℤ}
      (hcall : CallsAt ⟨u, .user ud⟩ (StringsSent x.2.wire) true call)
      (hdeleted : 0 ≤ deleted.1) (hsender : sender.username = x.2.sender)
      (hack : ServiceCall answer (AckSent (ackWire x.2.id)) result ack) :
      Round u ud x
        (⟨.db (.getPendMsg key), (dbmsSuccess, ⟨x.1, .msg x.2⟩)⟩ ::
        ⟨.db (.ioOpUsrEnt ⟨u, .user ud⟩ .read), (dbmsSuccess, ⟨u, .user ud⟩)⟩ ::
        (call ++ ⟨.note (.cltSendMessage ⟨u, .user ud⟩ x.2 0), ()⟩ ::
        ⟨.db (.ioOpUsrEnt ⟨x.1, .msg x.2⟩ .delete), deleted⟩ ::
        ⟨.db (.ioOpUsrEnt sender .read), answer⟩ ::
        (ack ++ [⟨.note (.cltSendMessAck answer.2 x.2.id result), ()⟩])))

/-- The steps after the deliveries when the messages `P` are left: no message is found when there
are none; else one is found and the call with it fails, and the user's record is rewritten.  With
the result of the drain, and the record then. -/
inductive LastRound (u : Bytes) (ud : Userdata) (P : Finset (Bytes × Message)) :
    List srvE.Event → ℤ → Userdata → Prop
  | done {key : Entry} {found : ℤ × Entry} (hnone : P = ∅) (hfound : found.1 ≠ dbmsSuccess) :
      LastRound u ud P [⟨.db (.getPendMsg key), found⟩] srvSuccess.toNat ud
  | failed {key : Entry} {call : List srvE.Event} {modified : ℤ × Entry} (x : Bytes × Message)
      (hx : x ∈ P) (hcall : CallsAt ⟨u, .user ud⟩ (StringsSent x.2.wire) false call) :
      LastRound u ud P
        (⟨.db (.getPendMsg key), (dbmsSuccess, ⟨x.1, .msg x.2⟩)⟩ ::
        ⟨.db (.ioOpUsrEnt ⟨u, .user ud⟩ .read), (dbmsSuccess, ⟨u, .user ud⟩)⟩ ::
        (call ++ [⟨.note (.cltSendMessage ⟨u, .user ud⟩ x.2 genErrAny), ()⟩,
          ⟨.db (.ioOpUsrEnt ⟨u, .user ud.lost⟩ .modify), modified⟩]))
        srvErrSendAny.toNat ud.lost

/-- The deliveries of a drain of the messages `P` in the table at `L`: the messages `D`, in this
order, then the ending; the file system `fs'` has lost their files, and holds the record `ud'`. -/
structure Deliveries (fs : FS) (L : Location) (P : Finset (Bytes × Message)) (u : Bytes)
    (ud : Userdata) (D : List (Bytes × Message)) (rounds : List (List srvE.Event))
    (last : List srvE.Event) (result : ℤ) (ud' : Userdata) (fs' : FS) : Prop where
  nodup : D.Nodup
  sub : ∀ x ∈ D, x ∈ P
  rounds : List.Forall₂ (Round u ud) D rounds
  ending : LastRound u ud (P \ D.toFinset) last result ud'
  gone : ∀ x ∈ D, fs'.get (msgFile L x.2.id.toNat) = none
  record : fs'.get (L ++ [userdataEntry]) = some (.file (Entry.image ⟨u, .user ud'⟩))
  frame : ∀ q, (∀ x ∈ D, q ≠ msgFile L x.2.id.toNat) → q ≠ L ++ [userdataEntry] →
    fs'.get q = fs.get q

section Drain

variable {fs fs' : FS} {N : Set Bytes} {L : Location} {P : Finset (Bytes × Message)} {w u : Bytes}
  {ud ud' : Userdata} {m : Message} {D : List (Bytes × Message)} {rounds : List (List srvE.Event)}
  {last : List srvE.Event} {result : ℤ} {input : List ReadEv} {fuel : ℕ}

namespace Deliveries

/-- Nothing is left to deliver. -/
theorem done (hrec : fs.Recorded N L u ud) (hending : LastRound u ud P last result ud) :
    Deliveries fs L P u ud [] [] last result ud fs where
  nodup := List.nodup_nil
  sub := by simp
  rounds := .nil
  ending := by
    rw [List.toFinset_nil, Finset.sdiff_empty]
    exact hending
  gone := by simp
  record := hrec.file
  frame := fun _ _ _ => rfl

/-- The first message does not get through. -/
theorem failed (hending : LastRound u ud P last result ud') :
    Deliveries fs L P u ud [] [] last result ud'
      (fs.put (L ++ [userdataEntry]) (.file (Entry.image ⟨u, .user ud'⟩))) where
  nodup := List.nodup_nil
  sub := by simp
  rounds := .nil
  ending := by
    rw [List.toFinset_nil, Finset.sdiff_empty]
    exact hending
  gone := by simp
  record := FS.get_put_self _ _ _
  frame := fun _ _ hq => FS.get_put_of_ne _ _ hq

/-- One more delivery in front. -/
theorem cons {x : Bytes × Message} {t : List srvE.Event} (hx : x ∈ P) (hround : Round u ud x t)
    (h : Deliveries (fs.del (msgFile L x.2.id.toNat)) L (P.erase x) u ud D rounds last
        result ud' fs') :
    Deliveries fs L P u ud (x :: D) (t :: rounds) last result ud' fs' where
  nodup := List.nodup_cons.mpr ⟨fun hmem => Finset.notMem_erase x P (h.sub x hmem), h.nodup⟩
  sub := by
    intro y hy
    rcases List.mem_cons.mp hy with rfl | hy
    · exact hx
    · exact Finset.mem_of_mem_erase (h.sub y hy)
  rounds := .cons hround h.rounds
  ending := by
    have hleft : P \ (x :: D).toFinset = P.erase x \ D.toFinset := by
      rw [List.toFinset_cons, Finset.sdiff_insert, Finset.erase_sdiff_comm]
    rw [hleft]
    exact h.ending
  gone := by
    intro y hy
    by_cases hsame : ∃ z ∈ D, msgFile L y.2.id.toNat = msgFile L z.2.id.toNat
    · obtain ⟨z, hz, heq⟩ := hsame
      rw [heq]
      exact h.gone z hz
    · rcases List.mem_cons.mp hy with rfl | hy
      · -- the later rounds leave the place of the file alone
        rw [h.frame _ (fun z hz heq => hsame ⟨z, hz, heq⟩) (msgFile_ne_userdata L L _),
          FS.get_del,
          if_pos rfl]
      · exact absurd ⟨y, hy, rfl⟩ hsame
  record := h.record
  frame := by
    intro q hq hne
    rw [h.frame q (fun y hy => hq y (List.mem_cons_of_mem _ hy)) hne, FS.get_del,
      if_neg (hq x List.mem_cons_self)]

/-- The messages that are not delivered. -/
theorem card_left (h : Deliveries fs L P u ud D rounds last result ud' fs') :
    (P \ D.toFinset).card = P.card - D.length := by
  have hsub : D.toFinset ⊆ P := fun x hx => h.sub x (List.mem_toFinset.mp hx)
  rw [Finset.card_sdiff_of_subset hsub, List.toFinset_card_of_nodup h.nodup]

theorem length_le (h : Deliveries fs L P u ud D rounds last result ud' fs') :
    D.length ≤ P.card := by
  rw [← List.toFinset_card_of_nodup h.nodup]
  exact Finset.card_le_card fun x hx => h.sub x (List.mem_toFinset.mp hx)

/-! ### What is left behind the deliveries -/

/-- A message that is not delivered stays as it is. -/
theorem kept (h : Deliveries fs L P u ud D rounds last result ud' fs') (hbox : fs.Mailbox N L P)
    {x : Bytes × Message} (hx : x ∈ P) (hno : x ∉ D) :
    fs'.get (msgFile L x.2.id.toNat) = some (.file (Entry.image ⟨x.1, .msg x.2⟩)) := by
  rw [h.frame _ (fun y hy heq => hno ?_) (msgFile_ne_userdata L L _)]
  · exact hbox.file hx
  · have hid : x.2.id = y.2.id := UInt32.toNat_inj.mp (msgFile_inj heq).2
    rw [hbox.eq_of_id hx (h.sub y hy) hid]
    exact hy

/-- The delivered messages are those whose files are gone. -/
theorem mem_iff (h : Deliveries fs L P u ud D rounds last result ud' fs') (hbox : fs.Mailbox N L P)
    {x : Bytes × Message} (hx : x ∈ P) :
    x ∈ D ↔ fs'.get (msgFile L x.2.id.toNat) = none := by
  constructor
  · exact h.gone x
  · intro hnone
    by_contra hno
    rw [h.kept hbox hx hno] at hnone
    cases hnone

/-- The drain reports success, keeps the record, and has seen no call with a message fail, if and
only if it has delivered everything. -/
theorem complete_iff (h : Deliveries fs L P u ud D rounds last result ud' fs') :
    (result = srvSuccess.toNat ↔ D.length = P.card) ∧
      (ud' = if D.length = P.card then ud else ud.lost) ∧
      ((∃ ev ∈ last, FailedCall ev) ↔ D.length ≠ P.card) := by
  have hcard := h.card_left
  have hle := h.length_le
  cases h.ending with
  | done hnone hfound =>
      rw [hnone, Finset.card_empty] at hcard
      have hall : D.length = P.card := by omega
      rw [if_pos hall]
      refine ⟨⟨fun _ => hall, fun _ => rfl⟩, rfl, iff_of_false ?_ (not_not_intro hall)⟩
      rintro ⟨ev, hev, hfailed⟩
      rw [List.mem_singleton.mp hev] at hfailed
      exact hfailed
  | failed x hx hcall =>
      have hpos := Finset.card_pos.mpr ⟨x, hx⟩
      have hsome : D.length ≠ P.card := by omega
      rw [if_neg hsome]
      refine ⟨⟨fun hsuccess => absurd hsuccess (by decide), fun hall => absurd hall hsome⟩,
        rfl, ?_⟩
      refine iff_of_true ?_ hsome
      obtain ⟨ev, hev, hfailed⟩ := hcall.failed_iff.mp rfl
      refine ⟨ev, ?_, hfailed⟩
      exact List.mem_cons_of_mem _ (List.mem_cons_of_mem _ (List.mem_append_left _ hev))

end Deliveries

/-! ### The drain delivers -/

/-- **The loop** delivers, by induction on its rounds. -/
theorem must_drainLoop_deliver {e : Entry} (h : fs.Mailbox N L P) (hrec : fs.Recorded N L u ud)
    (hw : w ∈ N) (hfuel : P.card < fuel) :
    (drainLoop fuel ⟨w, .msg m⟩ ⟨u, .user ud⟩ e).Must (SrvStep noFaults)
      (fun t v s => s.input = input ∧ ∃ D rounds last result ud', v = some result ∧
        t = rounds.flatten ++ last ∧ Deliveries fs L P u ud D rounds last result ud' s.fs)
      ⟨fs, input⟩ := by
  induction fuel generalizing fs P w m e with
  | zero => exact absurd hfuel (Nat.not_lt_zero _)
  | succ fuel ih =>
      rw [drainLoop]
      refine must_db fun (g : ℤ × Entry) fs₁ hg => ?_
      obtain ⟨tg, hg, hcalm⟩ := hg
      obtain ⟨rfl, ⟨hnone, hbad⟩ | ⟨x, hx, rfl⟩⟩ := h.getPendMsg hw hg hcalm
      · rw [if_neg hbad]
        exact must_ret ⟨rfl, [], [], _, _, ud, rfl, rfl,
          Deliveries.done hrec (.done hnone hbad)⟩
      rw [if_pos rfl]
      dsimp only
      have hname := (h.fits x hx).1
      refine must_cltSendMessage_call fun y result t hy hsent => ?_
      obtain ⟨⟨ty, hy, hcalmy⟩, -⟩ := hy
      obtain rfl := hrec.read h hrec.name hy hcalmy
      obtain ⟨ok, hcall, rfl⟩ := hsent.of_read (show 0 ≤ dbmsSuccess by decide)
      cases ok with
      | true =>
          rw [if_pos (show (if true then 0 else genErrAny) = (0 : ℤ) from rfl)]
          refine must_db fun (d : ℤ × Entry) fs₂ hd => ?_
          obtain ⟨td, hd, hcalmd⟩ := hd
          obtain ⟨hdeleted, rfl⟩ : 0 ≤ d.1 ∧
              fs₂ = fs₁.del (msgFile L x.2.id.toNat) := by
            rcases h.delete_or hx hname rfl hd with hdel | ⟨-, -, hfault⟩
            · exact hdel
            · exact absurd hcalmd hfault
          refine must_cltSendMessAck_call fun a result' t' _ hack => ?_
          have hless : (P.erase x).card < fuel := by
            have hcard := Finset.card_erase_lt_of_mem hx
            omega
          refine (ih (h.del hx) (hrec.del _) hname hless).mono fun t'' v s hrest => ?_
          obtain ⟨hinput, D, rounds, last, res, ud', rfl, rfl, hdel⟩ := hrest
          have hround :=
            @Round.intro u ud x t t' ⟨w, .msg m⟩ { e with username := x.2.sender } d a
            result' hcall hdeleted rfl hack
          refine ⟨hinput, x :: D, _ :: rounds, last, res, ud', rfl, ?_,
            Deliveries.cons hx hround hdel⟩
          simp
      | false =>
          rw [if_neg (show ¬ (if false then 0 else genErrAny) = (0 : ℤ) by decide)]
          refine must_db fun (d : ℤ × Entry) fs₂ hd => must_ret ?_
          obtain ⟨td, hd, hcalmd⟩ := hd
          obtain rfl : fs₂ = _ := hrec.modify h hd hcalmd
          exact ⟨rfl, [], [], _, _, ud.lost, rfl, rfl, Deliveries.failed (.failed x hx hcall)⟩

/-- **`aux_connect_send_pend_msgs`** delivers. -/
theorem must_auxConnectSendPendMsgs_deliver (h : fs.Mailbox N L P) (hrec : fs.Recorded N L u ud)
    (hw : w ∈ N) (hfuel : P.card < fuel) :
    (auxConnectSendPendMsgs fuel ⟨w, .msg m⟩).Must (SrvStep noFaults)
      (fun t v s => s.input = input ∧ ∃ junk : Junk, ∃ D rounds last result ud',
          v = some result ∧
        t = ⟨SrvOp.uninit, junk⟩ :: ⟨SrvOp.db (.ioOpUsrEnt ⟨w, .user junk.user⟩ .read),
          (dbmsSuccess, ⟨u, .user ud⟩)⟩ :: (rounds.flatten ++ last) ∧
          Deliveries fs L P u ud D rounds last result ud' s.fs) ⟨fs, input⟩ := by
  rw [auxConnectSendPendMsgs]
  refine must_uninit fun junk => must_read fun x hx => ?_
  obtain ⟨⟨t, hexec, hcalm⟩, -⟩ := hx
  obtain rfl := hrec.read h hw hexec hcalm
  rw [if_neg (show ¬ dbmsSuccess < 0 by decide)]
  refine (must_drainLoop_deliver h hrec hw hfuel).mono fun t v s hloop => ?_
  obtain ⟨hinput, D, rounds, last, result, ud', hv, rfl, hdel⟩ := hloop
  exact ⟨hinput, junk, D, rounds, last, result, ud', hv, rfl, hdel⟩

/-- **The drain delivers exactly what it removes.**  On a mailbox with the messages `P` the drain
ends, whatever the listeners do, and whatever the order in which the table is listed.  It delivers
different messages of `P` in some order, one round each; deletes the files of these, and no other
file; and reports success if and only if these are all messages.  Then the record stays as it is,
else a call at the user's listener has failed, and the status becomes "disconnected". -/
theorem drain_delivers_exactly (h : fs.Mailbox N L P) (hrec : fs.Recorded N L u ud) (hw : w ∈ N)
    (hfuel : P.card < fuel) (m : Message) (input : List ReadEv) :
    (∃ t v s, Exec (SrvStep noFaults) (auxConnectSendPendMsgs fuel ⟨w, .msg m⟩) ⟨fs,
        input⟩ t v s) ∧
      ∀ t v s, Exec (SrvStep noFaults) (auxConnectSendPendMsgs fuel ⟨w, .msg m⟩)
        ⟨fs, input⟩ t v s →
        s.input = input ∧ ∃ junk : Junk, ∃ D rounds last result ud', v = some result ∧
          t = ⟨SrvOp.uninit, junk⟩ :: ⟨SrvOp.db (.ioOpUsrEnt ⟨w, .user junk.user⟩ .read),
            (dbmsSuccess, ⟨u, .user ud⟩)⟩ :: (rounds.flatten ++ last) ∧
            Deliveries fs L P u ud D rounds last result ud' s.fs ∧
              (result = srvSuccess.toNat ↔ D.length = P.card) ∧
              (ud' = if D.length = P.card then ud else ud.lost) ∧
              ((∃ ev ∈ last, FailedCall ev) ↔ D.length ≠ P.card) := by
  refine ⟨exec_srvTotal _ _, fun t v s hexec => ?_⟩
  obtain ⟨hinput, junk, D, rounds, last, result, ud', hv, ht, hdel⟩ :=
    must_auxConnectSendPendMsgs_deliver h hrec hw hfuel t v s hexec
  obtain ⟨hsuccess, hud, hcall⟩ := hdel.complete_iff
  exact ⟨hinput, junk, D, rounds, last, result, ud', hv, ht, hdel, hsuccess, hud, hcall⟩

end Drain

/-! ## A mailbox with two messages -/

/-- Two messages from `a` are stored for `b`. -/
def pendingABB : FS := (Req.send (ascii "a") (ascii "b") (ascii "yo")).run calm 1 pendingAB

/-- The stored messages. -/
def messageHi : Bytes × Message := (ascii "b", ⟨ascii "a", 1, ascii "hi"⟩)

def messageYo : Bytes × Message := (ascii "b", ⟨ascii "a", 2, ascii "yo"⟩)

theorem pendingABB_reachable : Reachable pendingABB := by
  obtain ⟨fs₀, reqs, hfresh, hrun⟩ := pendingAB_reachable
  have hfits : (Req.send (ascii "a") (ascii "b") (ascii "yo")).Fits := by decide
  have hends : (Req.send (ascii "a") (ascii "b") (ascii "yo")).Ends calm 1 pendingAB := by
    decide +kernel
  exact ⟨fs₀, _, hfresh, hrun.snoc (requestStep_run hfits hends)⟩

/-- The table of `b`: his record, and the messages. -/
theorem pendingABB_table :
    pendingABB.locate (userTablePath (ascii "b")) = .ok [dbDir, ascii "b-table"] ∧
      pendingABB.get ([dbDir, ascii "b-table"] ++ [pendMsgsTable]) = some .dir ∧
      (∀ d ∈ pendingABB.children ([dbDir, ascii "b-table"] ++ [pendMsgsTable]),
        d.name = decimal 1 ∨ d.name = decimal 2) ∧
      pendingABB.get ([dbDir, ascii "b-table"] ++ [pendMsgsTable] ++ [decimal 1]) =
        some (.file (Entry.image ⟨messageHi.1, .msg messageHi.2⟩)) ∧
      pendingABB.get ([dbDir, ascii "b-table"] ++ [pendMsgsTable] ++ [decimal 2]) =
        some (.file (Entry.image ⟨messageYo.1, .msg messageYo.2⟩)) ∧
      pendingABB.get ([dbDir, ascii "b-table"] ++ [userdataEntry]) =
        some (.file (Entry.image ⟨ascii "b", .user ⟨0, 0, 0, 2⟩⟩)) := by
  decide +kernel

theorem pendingABB_mailbox :
    pendingABB.Mailbox {ascii "b"} [dbDir, ascii "b-table"] {messageHi, messageYo} := by
  obtain ⟨hlocate, htable, hall, hhi, hyo, -⟩ := pendingABB_table
  refine ⟨pendingABB_reachable.schema.tree, ?_, htable, ?_, fun c n => ⟨fun hn => ?_, ?_⟩⟩
  · intro w hw
    rw [Set.mem_singleton_iff.mp hw]
    exact hlocate
  · intro x hx
    rcases Finset.mem_insert.mp hx with rfl | hx
    · exact ⟨rfl, by decide, by decide, by decide⟩
    · rw [Finset.mem_singleton.mp hx]
      exact ⟨rfl, by decide, by decide, by decide⟩
  · rcases hall ⟨c, n.isDir⟩ (FS.mem_children.mpr ⟨n, hn, rfl⟩) with hname | hname
    · obtain rfl : c = decimal 1 := hname
      rw [hhi] at hn
      exact ⟨messageHi, Finset.mem_insert_self _ _, rfl, (Option.some.inj hn).symm⟩
    · obtain rfl : c = decimal 2 := hname
      rw [hyo] at hn
      exact ⟨messageYo, Finset.mem_insert_of_mem (Finset.mem_singleton_self _), rfl,
        (Option.some.inj hn).symm⟩
  · rintro ⟨x, hx, rfl, rfl⟩
    rcases Finset.mem_insert.mp hx with rfl | hx
    · exact hhi
    · rw [Finset.mem_singleton.mp hx]
      exact hyo

theorem pendingABB_recorded :
    pendingABB.Recorded {ascii "b"} [dbDir, ascii "b-table"] (ascii "b") ⟨0, 0, 0, 2⟩ := by
  obtain ⟨-, -, -, -, -, hrecord⟩ := pendingABB_table
  exact ⟨rfl, by decide, hrecord⟩

/-- The listener of `b` refuses the second message that it is called for. -/
def refusesSecond (n : ℕ) : SrvChoice :=
  if n = 23 then { (default : SrvChoice) with ok := false } else default

theorem refusesSecond_calm (n : ℕ) : (refusesSecond n).Calm := by
  intro k
  unfold refusesSecond
  split <;> rfl

/-- The drain of the two messages. -/
def drainABB (fuel : ℕ) (env : ℕ → SrvChoice) : List srvE.Event × Option ℤ × SrvWorld :=
  (auxConnectSendPendMsgs fuel ⟨ascii "b", .msg default⟩).run srvApply env ⟨pendingABB, []⟩

/-- Afterwards one file is left. -/
theorem drainABB_files :
    (drainABB 3 refusesSecond).2.2.fs.get (msgFile [dbDir, ascii "b-table"] 1) ≠ none ∧
      (drainABB 3 refusesSecond).2.2.fs.get (msgFile [dbDir, ascii "b-table"] 2) = none := by
  decide +kernel

/-- **One message gets through**, and is gone; the other one is refused, and stays. -/
theorem drain_delivers_exactly_pendingABB :
    ∃ rounds last result ud', (drainABB 3 refusesSecond).2.1 = some result ∧
      Deliveries pendingABB [dbDir, ascii "b-table"] {messageHi, messageYo} (ascii "b")
        ⟨0, 0, 0, 2⟩
        [messageYo] rounds last result ud' (drainABB 3 refusesSecond).2.2.fs ∧
        result ≠ srvSuccess.toNat ∧ ∃ ev ∈ last, FailedCall ev := by
  have hexec : Exec (SrvStep noFaults) (auxConnectSendPendMsgs 3 ⟨ascii "b", .msg default⟩)
      ⟨pendingABB, []⟩ (drainABB 3 refusesSecond).1 (drainABB 3 refusesSecond).2.1
      (drainABB 3 refusesSecond).2.2 := exec_srvRun refusesSecond refusesSecond_calm _ _
  have hfiles := drainABB_files
  generalize drainABB 3 refusesSecond = run at hexec hfiles
  obtain ⟨-, _, D, rounds, last, result, ud', hv, -, hdel, hsuccess, -, hcall⟩ :=
    (drain_delivers_exactly pendingABB_mailbox pendingABB_recorded rfl (by decide) default []).2 _ _
      _
      hexec
  have hhi : messageHi ∉ D := fun hmem => hfiles.1 (hdel.gone _ hmem)
  have hyo : messageYo ∈ D :=
    (hdel.mem_iff pendingABB_mailbox (by decide : messageYo ∈ _)).mpr hfiles.2
  have hall : ∀ x ∈ D, x = messageYo := by
    intro x hx
    rcases Finset.mem_insert.mp (hdel.sub x hx) with rfl | hmem
    · exact absurd hx hhi
    · exact Finset.mem_singleton.mp hmem
  obtain rfl : D = [messageYo] := by
    apply List.perm_singleton.mp
    apply (List.perm_ext_iff_of_nodup hdel.nodup (List.nodup_singleton _)).mpr
    intro x
    rw [List.mem_singleton]
    exact ⟨hall x, fun heq => heq ▸ hyo⟩
  refine ⟨rounds, last, result, ud', hv, hdel, ?_, ?_⟩
  · exact fun h => absurd (hsuccess.mp h) (by decide)
  · exact hcall.mpr (by decide)
