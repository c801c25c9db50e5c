/-
# Waiting messages and drains to come

Any number of service threads handle `SEND`, `CONNECT` and `DISCONNECT` for one user, each library
call and each transmission an atomic step, and every step succeeds.  `SEND` decides to store a
message from a status that it has read earlier; `CONNECT` writes the status and then drains the
messages.

* `Standing`: the status that has been written, and whether a message may wait;
* `DrainToCome`: a step that may leave a message behind falls while a drain is still to come;
* `Tended`: a message that may wait has a drain to come;
* `Emptying`, `emptying`: where a thread is with its drain, as a discipline.
-/
import MessageServer.Drains
import MessageServer.FoundMessage
import MessageServer.FirstAck

/-! ## Waiting messages and idle threads -/

/-- The record of `u` says that `u` is connected. -/
def FS.Connected (fs : FS) (u : Bytes) : Prop :=
  ∃ v ud, FitsBuf maxStrSize v ∧ fs.Stores u ⟨v, .user ud⟩ ∧ ud.status = statusCn

/-- No message waits for `u`. -/
def FS.Mailless (fs : FS) (u : Bytes) : Prop := fs.children (fs.table u ++ [pendMsgsTable]) = []

instance (fs : FS) (u : Bytes) : Decidable (fs.Mailless u) :=
  inferInstanceAs (Decidable (fs.children (fs.table u ++ [pendMsgsTable]) = []))

/-- The request works for `u`, and neither registers nor removes anybody. -/
def Req.Concerns (u : Bytes) : Req → Prop
  | .connect v _ => v = u
  | .disconnect v => v = u
  | .send _ r _ => r = u
  | _ => False

/-- Whether a request is `CONNECT`. -/
def Req.connects : Req → Bool
  | .connect _ _ => true
  | _ => false

/-- No request is in progress: every thread has not begun, or has come to its end. -/
def AllIdle {ι : Type} [DecidableEq ι] (t : List (ι × srvE.Event))
    (ps : ι → Srv (Option Unit)) : Prop :=
  ∀ i, threadEvents i t = [] ∨ ps i = .ret (some ())

/-- A drain finds that no message waits. -/
def findsNone : srvE.Event → Bool
  | ⟨.db (.getPendMsg _), x⟩ => decide (x.1 = dbmsErrNotExists)
  | _ => false

/-- A call on an entry that succeeds, a search for a message that finds one or finds that there is
none, a message that gets through, or any other step. -/
def works : srvE.Event → Bool
  | ⟨.db (.ioOpUsrEnt _ _), x⟩ => decide (0 ≤ x.1)
  | ⟨.db (.getPendMsg _), x⟩ => decide (x.1 = dbmsSuccess ∨ x.1 = dbmsErrNotExists)
  | ⟨.note (.cltSendMessage _ _ result), _⟩ => decide (result = 0)
  | _ => true

/-! ## The status and the messages -/

/-- The status that has been written last, and whether a message may wait. -/
structure Standing where
  status : UInt8
  waiting : Bool

/-- How a step that succeeds changes them. -/
def Standing.next (s : Standing) : srvE.Event → Standing
  | ⟨.db (.ioOpUsrEnt e .modify), _⟩ => { s with status := e.user.status }
  | ⟨.db (.ioOpUsrEnt _ .create), _⟩ => { s with waiting := true }
  | ⟨.db (.getPendMsg _), x⟩ =>
      { s with waiting := s.waiting && decide (x.1 ≠ dbmsErrNotExists) }
  | _ => s

/-- The same after a history. -/
def standing {ι : Type} (s : Standing) (t : List (ι × srvE.Event)) : Standing :=
  t.foldl (fun s e => s.next e.2) s

/-- A step that may leave a message behind: it stores one while the user counts as connected, or it
is not of a `CONNECT` and makes the user count as connected again while a message may wait. -/
def Standing.strands (s : Standing) (connects : Bool) : srvE.Event → Bool
  | ⟨.db (.ioOpUsrEnt e .modify), _⟩ =>
      decide (e.user.status = statusCn) && decide (s.status ≠ statusCn) && s.waiting && !connects
  | ⟨.db (.ioOpUsrEnt _ .create), _⟩ => decide (s.status = statusCn)
  | _ => false

section History

variable {ι : Type} [DecidableEq ι]

/-- Thread `j` handles a `CONNECT` that has begun, and has not found so far that no message
waits. -/
def ToDrain (reqs : ι → Req) (t : List (ι × srvE.Event)) (j : ι) : Prop :=
  (reqs j).connects = true ∧ threadEvents j t ≠ [] ∧ (threadEvents j t).any findsNone = false

instance (reqs : ι → Req) (t : List (ι × srvE.Event)) (j : ι) :
    Decidable (ToDrain reqs t j) :=
  inferInstanceAs (Decidable ((reqs j).connects = true ∧ threadEvents j t ≠ [] ∧ _))

/-- Every step that may leave a message behind falls while a drain is still to come. -/
def DrainToCome (reqs : ι → Req) (s : Standing) (t : List (ι × srvE.Event)) : Prop :=
  ∀ before e after, t = before ++ e :: after →
    (standing s before).strands (reqs e.1).connects e.2 = true → ∃ j, ToDrain reqs before j

/-! ### Drains that are still to come -/

/-- The condition on the runs, step by step. -/
theorem drainToCome_iff {reqs : ι → Req} {s : Standing} {t : List (ι × srvE.Event)} :
    DrainToCome reqs s t ↔ ∀ n, ∀ hn : n < t.length,
      (standing s (t.take n)).strands (reqs t[n].1).connects t[n].2 = true →
        ∃ j, ToDrain reqs (t.take n) j :=
  forall_split_iff (P := fun before e =>
    (standing s before).strands (reqs e.1).connects e.2 = true → ∃ j, ToDrain reqs before j)

instance [Fintype ι] (reqs : ι → Req) (s : Standing) (t : List (ι × srvE.Event)) :
    Decidable (DrainToCome reqs s t) := decidable_of_iff _ drainToCome_iff.symm

variable {reqs : ι → Req} {s : Standing} {t : List (ι × srvE.Event)} {i j : ι}
  {ev : srvE.Event}

omit [DecidableEq ι] in

/-- One more step. -/
theorem standing_snoc : standing s (t ++ [(i, ev)]) = (standing s t).next ev :=
  List.foldl_concat _ _ _ _

/-- What holds of a run held of its beginning. -/
theorem DrainToCome.of_append {t' : List (ι × srvE.Event)} (h : DrainToCome reqs s (t ++ t')) :
    DrainToCome reqs s t := by
  intro before e after heq
  apply h before e (after ++ t')
  rw [heq, List.append_assoc]
  rfl

/-- A drain that is to come stays so until it finds that no message waits. -/
theorem ToDrain.snoc (h : ToDrain reqs t j) (hev : findsNone ev = false) :
    ToDrain reqs (t ++ [(i, ev)]) j := by
  obtain ⟨hconnects, hbegun, hnone⟩ := h
  by_cases hij : i = j
  · subst hij
    refine ⟨hconnects, ?_, ?_⟩
    · rw [threadEvents_snoc_self]
      simp
    · rw [threadEvents_snoc_self, List.any_append, hnone]
      simp [hev]
  · rw [ToDrain, threadEvents_snoc_of_ne hij]
    exact ⟨hconnects, hbegun, hnone⟩

/-- A `CONNECT` that takes a step has begun. -/
theorem toDrain_self (hconnects : (reqs i).connects = true)
    (hnone : (threadEvents i t).any findsNone = false)
    (hev : findsNone ev = false) : ToDrain reqs (t ++ [(i, ev)]) i := by
  refine ⟨hconnects, ?_, ?_⟩
  · rw [threadEvents_snoc_self]
    simp
  · rw [threadEvents_snoc_self, List.any_append, hnone]
    simp [hev]

/-! ### Tended runs -/

/-- While a message may wait for a connected user, a drain is to come. -/
def Tended (reqs : ι → Req) (s : Standing) (t : List (ι × srvE.Event)) : Prop :=
  (standing s t).status = statusCn → (standing s t).waiting = true → ∃ j, ToDrain reqs t j

/-- A step that finds that no message waits. -/
theorem Standing.next_of_findsNone {s : Standing} (h : findsNone ev = true) :
    (s.next ev).waiting = false := by
  obtain ⟨o, x⟩ := ev
  cases o with
  | db call =>
      cases call with
      | getPendMsg e =>
          have hnone : x.1 = dbmsErrNotExists := of_decide_eq_true h
          show (s.waiting && decide (x.1 ≠ dbmsErrNotExists)) = false
          rw [decide_eq_false (not_not_intro hnone), Bool.and_false]
      | _ => cases h
  | _ => cases h

/-- **The step lemma** for the history. -/
theorem Tended.step (h : Tended reqs s t) (hcome : DrainToCome reqs s (t ++ [(i, ev)]))
    (hnone : (reqs i).connects = true → (threadEvents i t).any findsNone = false) :
    Tended reqs s (t ++ [(i, ev)]) := by
  rw [Tended, standing_snoc]
  -- a step that finds that no message waits, or any other
  cases hev : findsNone ev with
  | true =>
      intro _ hwaiting
      rw [Standing.next_of_findsNone hev] at hwaiting
      cases hwaiting
  | false =>
      have hkeep : (∃ j, ToDrain reqs t j) → ∃ j, ToDrain reqs (t ++ [(i, ev)]) j :=
        fun ⟨j, hj⟩ => ⟨j, hj.snoc hev⟩
      have hstrands := hcome t (i, ev) [] rfl
      have hsame : (standing s t).next ev = standing s t →
          ((standing s t).next ev).status = statusCn → ((standing s t).next ev).waiting = true →
          ∃ j, ToDrain reqs (t ++ [(i, ev)]) j := by
        intro heq
        rw [heq]
        exact fun hstatus hwaiting => hkeep (h hstatus hwaiting)
      obtain ⟨o, x⟩ := ev
      cases o with
      | db call =>
          cases call with
          | ioOpUsrEnt e mode =>
              cases mode with
              | modify =>
                  rintro (hstatus : e.user.status = statusCn)
                    (hwaiting : (standing s t).waiting = true)
                  by_cases hbefore : (standing s t).status = statusCn
                  · exact hkeep (h hbefore hwaiting)
                  cases hconnects : (reqs i).connects with
                  | true => exact ⟨i, toDrain_self hconnects (hnone hconnects) hev⟩
                  | false =>
                      apply hkeep
                      apply hstrands
                      show (decide _ && decide _ && _ && !(reqs i).connects) = true
                      rw [hconnects, hwaiting, decide_eq_true hstatus, decide_eq_true hbefore]
                      rfl
              | create =>
                  intro (hstatus : (standing s t).status = statusCn) _
                  exact hkeep (hstrands (decide_eq_true hstatus))
              | _ => exact hsame rfl
          | getPendMsg e =>
              have hsome : ¬ x.1 = dbmsErrNotExists := of_decide_eq_false hev
              apply hsame
              show Standing.mk (standing s t).status
                ((standing s t).waiting && decide (x.1 ≠ dbmsErrNotExists)) = _
              rw [decide_eq_true hsome, Bool.and_true]
          | _ => exact hsame rfl
      | _ => exact hsame rfl

end History

/-! ## `CONNECT` drains -/

/-- Where a thread is: handling another request than `CONNECT`; looking for messages; at its end,
behind finding that none waits. -/
inductive Emptying
  | away
  | looking
  | seen
  deriving DecidableEq

/-- The steps that neither make a table nor remove one. -/
def KeepsTables : SrvOp → Prop
  | .db (.creatUsrTbl _) => False
  | .db (.delUsrTbl _) => False
  | _ => True

/-- The discipline of a thread: a `CONNECT` ends when it finds that no message waits. -/
def emptying : Discipline srvE Emptying where
  allowed ph o := ph ≠ .seen ∧ KeepsTables o
  possible _ o x := works ⟨o, x⟩ = true
  next
    | .looking, .db (.getPendMsg _), x => if x.1 = dbmsErrNotExists then .seen else .looking
    | ph, _, _ => ph

/-! ### Steps that leave the tables alone -/

section Discipline

/-- A plain step leaves the tables alone. -/
theorem Plain.keepsTables {o : SrvOp} (ho : Plain o) : KeepsTables o := by
  cases o with
  | db call =>
      cases call with
      | ioOpUsrEnt e mode => trivial
      | _ => exact ho.elim
  | _ => trivial

/-- So does a socket call. -/
theorem OnSock.keepsTables {sock : Sock} (o : SrvOp) (h : OnSock sock o) : KeepsTables o :=
  (OnSock.plain o h).keepsTables

theorem looking_ne_seen : Emptying.looking ≠ .seen := by decide

theorem away_ne_seen : Emptying.away ≠ .seen := by decide

theorem away_ne_looking : Emptying.away ≠ .looking := by decide

/-- A plain step does not end the search. -/
theorem looking_plain : emptying.Stays Plain .looking := by
  intro o ho
  refine ⟨⟨looking_ne_seen, ho.keepsTables⟩, fun x => ?_⟩
  cases o with
  | db call =>
      cases call with
      | ioOpUsrEnt e mode => rfl
      | _ => exact ho.elim
  | _ => rfl

/-- A message that is sent gets through. -/
theorem obeys_emptying_cltSendMessage (request : CltRequest) (e : Entry) :
    (cltSendMessage request e).Obeys emptying (fun ph r => ph = .looking ∧ r.1 = 0) .looking := by
  rw [cltSendMessage, obeys_bind]
  refine obeys_of_performs looking_plain (performs_auxConnect trivial trivial fun _ _ => trivial)
    fun r => ?_
  rw [obeys_bind]
  refine obeys_of_performs looking_plain
    ((onSock_ifConnected (onSock_cltSendMessageStrings _)).mono OnSock.plain) fun result => ?_
  refine obeys_perform_bind.mpr ⟨⟨looking_ne_seen, trivial⟩, fun x hx => ?_⟩
  exact ⟨rfl, of_decide_eq_true hx⟩

/-- An acknowledgement does not end the search. -/
theorem obeys_emptying_cltSendMessAck (request : CltRequest) (e : Entry) :
    (cltSendMessAck request e).Obeys emptying (fun ph _ => ph = .looking) .looking := by
  rw [cltSendMessAck, obeys_bind]
  refine obeys_of_performs looking_plain (performs_auxConnect trivial trivial fun _ _ => trivial)
    fun r => ?_
  rw [obeys_bind]
  refine obeys_of_performs looking_plain
    ((onSock_ifConnected (onSock_cltSendMessAckStrings _)).mono OnSock.plain) fun result => ?_
  exact obeys_perform_bind.mpr ⟨⟨looking_ne_seen, trivial⟩, fun _ _ => rfl⟩

/-- A thread that has come to its end is not looking any more. -/
def Emptied {α : Type} (ph : Emptying) (a : Option α) : Prop := a ≠ none → ph ≠ .looking

/-! ### The drain empties -/

/-- The drain goes on until it finds that no message waits, by induction on its rounds. -/
theorem obeys_emptying_drainLoop (fuel : ℕ) (pendMsgEntry recipientEntry senderEntry : Entry) :
    (drainLoop fuel pendMsgEntry recipientEntry senderEntry).Obeys emptying Emptied .looking := by
  induction fuel generalizing pendMsgEntry recipientEntry senderEntry with
  | zero => exact fun hnone => absurd rfl hnone
  | succ fuel ih =>
      rw [drainLoop]
      refine obeys_perform_bind.mpr ⟨⟨looking_ne_seen, trivial⟩,
        fun (g : ℤ × Entry) hg => ?_⟩
      show Prog.Obeys _ _ _ (if g.1 = dbmsErrNotExists then _ else _)
      rcases (of_decide_eq_true hg : g.1 = dbmsSuccess ∨ g.1 = dbmsErrNotExists) with hok | hnone
      · rw [if_pos hok, if_neg (by rw [hok]; decide), obeys_bind]
        refine (obeys_emptying_cltSendMessage _ recipientEntry).mono ?_
        rintro ph r ⟨rfl, hr⟩
        rw [if_pos hr]
        -- deleted, then acknowledged
        refine obeys_perform_bind.mpr ⟨⟨looking_ne_seen, trivial⟩, fun _ _ => ?_⟩
        rw [obeys_bind]
        refine (obeys_emptying_cltSendMessAck ⟨opSendMessAck, g.2.msg⟩ _).mono ?_
        rintro ph a rfl
        exact ih _ _ _
      · rw [if_pos hnone, if_neg (by rw [hnone]; decide)]
        exact fun _ => looking_ne_seen.symm

/-- The drain of a `CONNECT` ends with a search that finds nothing. -/
theorem obeys_emptying_auxConnectSendPendMsgs (fuel : ℕ) (e : Entry) :
    (auxConnectSendPendMsgs fuel e).Obeys emptying Emptied .looking := by
  rw [auxConnectSendPendMsgs]
  refine looking_plain.bind (o := .uninit) trivial fun junk _ => ?_
  refine looking_plain.bind (o := .db (.ioOpUsrEnt ⟨e.username, .user junk.user⟩ .read)) trivial
    fun r hr => ?_
  have hok : 0 ≤ r.1 := of_decide_eq_true hr
  rw [if_neg (not_lt.mpr hok)]
  exact obeys_emptying_drainLoop _ _ _ _

/-- **A thread that handles `CONNECT`** ends when it finds that no message waits. -/
theorem obeys_emptying_connect (fuel : ℕ) (u port : Bytes) :
    (srvConnectBody fuel u port).Obeys emptying Emptied .looking := by
  rw [srvConnectBody]
  refine looking_plain.bind (o := .uninit) trivial fun junk _ => ?_
  refine looking_plain.bind (o := .db (.ioOpUsrEnt ⟨u, .user junk.user⟩ .read))
    trivial fun r _ => ?_
  rw [obeys_bind]
  refine obeys_of_performs looking_plain (plain_srvConnectReply _ _ _ _) fun code => ?_
  rw [obeys_bind]
  refine obeys_of_performs looking_plain ((onSock_sendServerReply code).mono OnSock.plain) fun _ =>
    ?_
  rw [obeys_bind]
  refine (obeys_emptying_auxConnectSendPendMsgs fuel _).mono fun ph a ha => ?_
  intro hsome
  apply ha
  rintro rfl
  exact hsome rfl

/-! ### Requests that leave the tables alone -/

/-- What `clt_send_message` and `clt_send_mess_ack` do. -/
theorem keepsTables_cltSend {e : Entry} {sends : Srv ℤ}
    (hsends : sends.Performs (OnSock .listener))
    (n : ℤ × Entry → ℤ → Note) :
    (auxConnectCltListenThread e >>= fun r => ifConnected r.1 sends >>= fun result =>
      note (n r result) >>= fun _ => (return (result, r.2) : Srv (ℤ × Entry))).Performs
        KeepsTables := by
  refine (performs_auxConnect trivial trivial fun _ _ => trivial).bind fun r => ?_
  refine ((onSock_ifConnected hsends).mono OnSock.keepsTables).bind fun result => ?_
  exact Prog.performs_perform_bind.mpr ⟨trivial, fun _ => trivial⟩

theorem keepsTables_auxSendInit (sender recipient : Bytes) (e : Entry) :
    (auxSendInit sender recipient e).Performs KeepsTables := by
  rw [auxSendInit]
  refine Prog.performs_perform_bind.mpr ⟨trivial, fun senderExists => ?_⟩
  refine Prog.performs_perform_bind.mpr ⟨trivial, fun recipientExists => ?_⟩
  split
  · trivial
  split
  · trivial
  refine Prog.performs_perform_bind.mpr ⟨trivial, fun r => ?_⟩
  split
  · trivial
  · exact Prog.performs_perform_bind.mpr ⟨trivial, fun w => trivial⟩

theorem keepsTables_auxSendMsgPass (sender recipient content : Bytes) (code : UInt8) (e : Entry) :
    (auxSendMsgPass sender recipient content code e).Performs KeepsTables := by
  unfold auxSendMsgPass
  dsimp only
  split
  · refine (keepsTables_cltSend (onSock_cltSendMessageStrings _)
      fun r => .cltSendMessage r.2 _).bind fun r => ?_
    split
    · trivial
    · exact Prog.performs_perform_bind.mpr ⟨trivial, fun w => trivial⟩
  · trivial

theorem keepsTables_srvSendFinish (sender : Bytes) (code : UInt8)
    (recipientEntry msgEntry : Entry) :
    (srvSendFinish sender code recipientEntry msgEntry).Performs KeepsTables := by
  rw [srvSendFinish]
  refine ((onSock_auxSendFirstAck code _).mono OnSock.keepsTables).bind fun _ => ?_
  split
  · refine Prog.performs_perform_bind.mpr ⟨trivial, fun junk => ?_⟩
    exact (keepsTables_cltSend (onSock_cltSendMessAckStrings _) fun r => .cltSendMessAck r.2 _).bind
      fun _ => trivial
  · trivial

/-- `SEND` makes and removes no table. -/
theorem keepsTables_srvSendBody (sender recipient content : Bytes) :
    (srvSendBody sender recipient content).Performs KeepsTables := by
  rw [srvSendBody]
  refine Prog.performs_perform_bind.mpr ⟨trivial, fun junk => ?_⟩
  refine (keepsTables_auxSendInit sender recipient _).bind fun i => ?_
  split
  · exact ((onSock_sendServerReply i.1).mono OnSock.keepsTables).bind fun _ => trivial
  refine (keepsTables_auxSendMsgPass sender recipient content i.1 i.2).bind fun p => ?_
  split
  · exact Prog.performs_perform_bind.mpr ⟨trivial, fun w => keepsTables_srvSendFinish _ _ _ _⟩
  · exact keepsTables_srvSendFinish _ _ _ _

/-- `DISCONNECT` makes and removes no table. -/
theorem keepsTables_srvDisconnectBody (u : Bytes) : (srvDisconnectBody u).Performs KeepsTables := by
  have hreply : ∀ ioResult e, (srvDisconnectReply ioResult e).Performs KeepsTables := by
    intro ioResult e
    unfold srvDisconnectReply
    split
    · trivial
    split
    · trivial
    split
    · trivial
    · exact Prog.performs_perform_bind.mpr ⟨trivial, fun w => trivial⟩
  rw [srvDisconnectBody]
  refine Prog.performs_perform_bind.mpr ⟨trivial, fun junk => ?_⟩
  refine Prog.performs_perform_bind.mpr ⟨trivial, fun r => ?_⟩
  refine (hreply _ _).bind fun code => ?_
  exact ((onSock_sendServerReply code).mono OnSock.keepsTables).bind fun _ => trivial

/-! ### The stage of a thread -/

/-- Where a thread is behind these steps. -/
def Req.stage (req : Req) (events : List srvE.Event) : Emptying :=
  if req.connects = true then if events.any findsNone = true then .seen else .looking else .away

/-- A handler that leaves the tables alone is no drain. -/
theorem obeys_away {p : Srv Unit} (hp : p.Performs KeepsTables) :
    (finished p).Obeys emptying Emptied .away := by
  have haway : emptying.Stays KeepsTables .away :=
    fun o ho => ⟨⟨away_ne_seen, ho⟩, fun x => rfl⟩
  rw [finished, obeys_bind]
  exact obeys_of_performs haway hp fun _ _ => away_ne_looking

/-- **A request obeys the discipline.** -/
theorem Req.Concerns.obeys {u : Bytes} {req : Req} (h : req.Concerns u) (fuel : ℕ) :
    (req.body fuel).Obeys emptying Emptied (req.stage []) := by
  cases req with
  | connect v port => exact obeys_emptying_connect fuel v port
  | disconnect v => exact obeys_away (keepsTables_srvDisconnectBody v)
  | send sender recipient content =>
      exact obeys_away (keepsTables_srvSendBody sender recipient content)
  | _ => exact h.elim

/-- The stage of a thread is read off its events. -/
theorem Req.stage_snoc {req : Req} {events : List srvE.Event} {o : SrvOp} (x : o.Ans)
    (hallowed : emptying.allowed (req.stage events) o) :
    emptying.next (req.stage events) o x = req.stage (events ++ [⟨o, x⟩]) := by
  have hany : (events ++ [(⟨o, x⟩ : srvE.Event)]).any findsNone =
      (events.any findsNone || findsNone ⟨o, x⟩) := by
    simp
  unfold Req.stage at hallowed ⊢
  rw [hany]
  cases hconnects : req.connects with
  | false => rfl
  | true =>
      cases hnone : events.any findsNone with
      | true =>
          rw [hconnects, hnone] at hallowed
          exact absurd rfl hallowed.1
      | false =>
          cases o with
          | db call =>
              cases call with
              | getPendMsg e =>
                  show (if x.1 = dbmsErrNotExists then Emptying.seen else .looking) =
                    if decide (x.1 = dbmsErrNotExists) = true then Emptying.seen else .looking
                  simp only [decide_eq_true_eq]
              | _ => rfl
          | _ => rfl

end Discipline
