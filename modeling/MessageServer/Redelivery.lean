/-
# A drain whose deletions fail

`aux_connect_send_pend_msgs` does not look at the result of the deletion.  A message whose file
stays is found again, so it is sent again, and the loop ends only when a deletion gets through at
last.

* `sentIds`, `AllReceived`, `Discards`: what a drain has sent, and how it went;
* `Drain.Ends`: what the acts of a drain say about the messages;
* `must_drainLoop_ends`: the loop, by induction on its rounds;
* `drain_ends_iff`: it ends and sends nothing twice if and only if no deletion fails.
-/
import MessageServer.Delivery

/-! ## What is sent -/

/-- The id of a message that is sent. -/
def Act.sentId : Act → Option UInt32
  | .sent m _ => some m.id
  | _ => none

/-- The ids of the messages that are sent, in this order. -/
def sentIds (l : List Act) : List UInt32 := l.filterMap Act.sentId

/-- A transmission is accepted. -/
def Act.received : Act → Bool
  | .sent _ result => decide (result = 0)
  | _ => true

/-- A deletion succeeds. -/
def Act.discards : Act → Bool
  | .dropped _ ok => ok
  | _ => true

/-- Every transmission is accepted. -/
def AllReceived (l : List Act) : Prop := ∀ act ∈ l, act.received

/-- Every deletion succeeds. -/
def Discards (l : List Act) : Prop := ∀ act ∈ l, act.discards

instance decidableAllReceived (l : List Act) : Decidable (AllReceived l) :=
  inferInstanceAs (Decidable (∀ act ∈ l, act.received))

instance decidableDiscards (l : List Act) : Decidable (Discards l) :=
  inferInstanceAs (Decidable (∀ act ∈ l, act.discards))

/-- The acts of one round. -/
def roundActs (m : Message) (result : ℤ) (ok : Bool) (ack : List Bytes) (result' : ℤ) :
    List Act :=
  tolds m.wire ++ .sent m result :: .dropped m ok :: (tolds ack ++ [.acked m.id result'])

section Acts

variable {l l' : List Act} {m : Message} {result result' : ℤ} {ok : Bool} {ack : List Bytes}

theorem sentIds_tolds (bytes : List Bytes) : sentIds (tolds bytes) = [] := by
  rw [sentIds, tolds, List.filterMap_map]
  exact List.filterMap_eq_nil_iff.mpr fun _ _ => rfl

theorem sentIds_append : sentIds (l ++ l') = sentIds l ++ sentIds l' := List.filterMap_append

theorem sentIds_round :
    sentIds (roundActs m result ok ack result' ++ l) = m.id :: sentIds l := by
  rw [roundActs, sentIds_append, sentIds_append, sentIds_tolds]
  show m.id :: sentIds (tolds ack ++ [.acked m.id result']) ++ sentIds l = _
  rw [sentIds_append, sentIds_tolds]
  rfl

theorem AllReceived.of_append (h : AllReceived (l ++ l')) : AllReceived l' :=
  fun act hmem => h act (List.mem_append_right _ hmem)

theorem discards_round :
    Discards (roundActs m result ok ack result' ++ l) ↔ ok = true ∧ Discards l := by
  have htolds : ∀ bytes, ∀ act ∈ tolds bytes, act.discards := by
    intro bytes act hmem
    obtain ⟨b, -, rfl⟩ := List.mem_map.mp hmem
    rfl
  constructor
  · intro h
    refine ⟨h (.dropped m ok) ?_, fun act hmem => h act (List.mem_append_right _ hmem)⟩
    simp [roundActs]
  · rintro ⟨rfl, h⟩ act hmem
    rcases List.mem_append.mp hmem with hmem | hmem
    · simp only [roundActs, List.mem_append, List.mem_cons, List.not_mem_nil, or_false] at hmem
      rcases hmem with hmem | rfl | rfl | hmem | rfl
      · exact htolds _ act hmem
      · rfl
      · rfl
      · exact htolds _ act hmem
      · rfl
    · exact h act hmem

end Acts

/-! ## Faults -/

/-- Every system call may fail, except the listing of a pending table. -/
def entryFaults : DbCall → List sysE.Event → Prop
  | .getPendMsg _, t => Listed t
  | _, _ => True

theorem noFaults_entryFaults (call : DbCall) (t : List sysE.Event) (h : noFaults call t) :
    entryFaults call t := by
  cases call with
  | getPendMsg e => exact fun ev hev _ => h ev hev
  | _ => trivial

/-- The acts `l` of a drain of the messages `P`, with its result. -/
structure Drain.Ends (P : Finset (Bytes × Message)) (fuel : ℕ) (l : List Act) (v : Option ℤ) :
    Prop where
  covers : v ≠ none → ∀ x ∈ P, x.2.id ∈ sentIds l
  within : Discards l → ∀ id ∈ sentIds l, ∃ x ∈ P, id = x.2.id
  once : Discards l → (sentIds l).Nodup
  ends : Discards l → P.card < fuel → v ≠ none
  discards : v ≠ none → (sentIds l).Nodup → Discards l
  spins : P.Nonempty → (∀ m, Act.dropped m true ∉ l) → v = none

section Drain

variable {fs : FS} {L : Location} {P : Finset (Bytes × Message)} {u : Bytes} {m : Message}
  {l : List Act} {v : Option ℤ} {fuel : ℕ} {x : Bytes × Message} {input : List ReadEv}

/-! ### How a drain ends -/

namespace Drain.Ends

/-- No round is made. -/
theorem nil (hv : v = none ∨ P = ∅) (hfuel : v = none → fuel = 0) :
    Drain.Ends P fuel [] v where
  covers := by
    intro hsome x hx
    rcases hv with hnone | rfl
    · exact absurd hnone hsome
    · exact absurd hx (Finset.notMem_empty x)
  within := by simp [sentIds]
  once := fun _ => List.nodup_nil
  ends := by
    intro _ hcard hnone
    rw [hfuel hnone] at hcard
    exact Nat.not_lt_zero _ hcard
  discards := by simp [Discards]
  spins := by
    rintro ⟨x, hx⟩ -
    rcases hv with hnone | rfl
    · exact hnone
    · exact absurd hx (Finset.notMem_empty x)

/-- A round after which the file of the message is gone. -/
theorem gone {ok : Bool} (ack : List Bytes) (result' : ℤ) (hx : x ∈ P) (hid : m.id = x.2.id)
    (hok : ok = true)
    (hrest : Drain.Ends (P.erase x) fuel l v) (heq : ∀ y ∈ P, y.2.id = x.2.id → y = x) :
    Drain.Ends P (fuel + 1) (roundActs m 0 ok ack result' ++ l) v where
  covers := by
    intro hv y hy
    rw [sentIds_round]
    by_cases hyx : y = x
    · rw [hyx, ← hid]
      exact List.mem_cons_self
    · exact List.mem_cons_of_mem _ (hrest.covers hv y (Finset.mem_erase.mpr ⟨hyx, hy⟩))
  within := by
    intro hd id hmem
    rw [sentIds_round] at hmem
    rcases List.mem_cons.mp hmem with rfl | hmem
    · exact ⟨x, hx, hid⟩
    · obtain ⟨y, hy, hyid⟩ := hrest.within (discards_round.mp hd).2 id hmem
      exact ⟨y, Finset.mem_of_mem_erase hy, hyid⟩
  once := by
    intro hd
    have hd' := (discards_round.mp hd).2
    rw [sentIds_round, List.nodup_cons]
    refine ⟨fun hmem => ?_, hrest.once hd'⟩
    -- what is sent later has another id
    obtain ⟨y, hy, hyid⟩ := hrest.within hd' _ hmem
    obtain ⟨hne, hy⟩ := Finset.mem_erase.mp hy
    exact hne (heq y hy (hyid.symm.trans hid))
  ends := by
    intro hd hfuel
    apply hrest.ends (discards_round.mp hd).2
    have hcard := Finset.card_erase_lt_of_mem hx
    omega
  discards := by
    intro hv hnodup
    rw [sentIds_round, List.nodup_cons] at hnodup
    exact discards_round.mpr ⟨hok, hrest.discards hv hnodup.2⟩
  spins := by
    intro _ hno
    refine absurd ?_ (hno m)
    simp [roundActs, hok]

/-- A round after which the file of the message is still there. -/
theorem stays {ok : Bool} (ack : List Bytes) (result' : ℤ) (hx : x ∈ P) (hid : m.id = x.2.id)
    (hok : ok = false)
    (hrest : Drain.Ends P fuel l v) :
    Drain.Ends P (fuel + 1) (roundActs m 0 ok ack result' ++ l) v where
  covers := by
    intro hv y hy
    rw [sentIds_round]
    exact List.mem_cons_of_mem _ (hrest.covers hv y hy)
  within := fun hd => absurd (hok.symm.trans (discards_round.mp hd).1) (by decide)
  once := fun hd => absurd (hok.symm.trans (discards_round.mp hd).1) (by decide)
  ends := fun hd => absurd (hok.symm.trans (discards_round.mp hd).1) (by decide)
  discards := by
    intro hv hnodup
    rw [sentIds_round, List.nodup_cons] at hnodup
    -- the drain ends only after the message is sent again
    exact absurd (hid ▸ hrest.covers hv x hx) hnodup.1
  spins := fun hsome hno => hrest.spins hsome fun m' hmem => hno m' (List.mem_append_right _ hmem)

end Drain.Ends

/-! ### The drain -/

/-- **The loop**, when deletions may fail. -/
theorem must_drainLoop_ends {r e : Entry} (h : fs.Mailbox {u} L P) (hu : FitsBuf maxStrSize u) :
    (drainLoop fuel ⟨u, .msg m⟩ r e).Must (SrvStep entryFaults)
      (fun t v _ => AllReceived (acts t) → Drain.Ends P fuel (acts t) v) ⟨fs, input⟩ := by
  induction fuel generalizing fs P m r e with
  | zero => exact must_ret fun _ => Drain.Ends.nil (Or.inl rfl) fun _ => rfl
  | succ fuel ih =>
      rw [drainLoop]
      refine must_db fun (g : ℤ × Entry) fs₁ hg => ?_
      obtain ⟨tg, hg, hlisted⟩ := hg
      obtain ⟨rfl, ⟨hnone, hbad⟩ | ⟨x, hx, s, rfl, hid⟩⟩ :=
        h.getPendMsg_listed hu hg hlisted
      · rw [if_neg hbad]
        exact must_ret fun _ => Drain.Ends.nil (Or.inr hnone) fun hv => absurd hv (by simp)
      rw [if_pos rfl]
      dsimp only
      refine must_cltSendMessage fun y t l result _ ht _ hall _ => ?_
      split
      · rename_i hzero
        obtain rfl : result = 0 := hzero
        obtain rfl := hall rfl
        refine must_db fun (d : ℤ × Entry) fs₂ hd => ?_
        obtain ⟨td, hd, -⟩ := hd
        refine must_cltSendMessAck fun a t' ack result' _ ht' _ _ => ?_
        have hacts : ∀ t'',
            acts (⟨SrvOp.db (.getPendMsg ⟨u, .msg m⟩), (dbmsSuccess, ⟨u, .msg s⟩)⟩ ::
            ⟨SrvOp.db (.ioOpUsrEnt r .read), y⟩ ::
              (t ++ ⟨SrvOp.note (.cltSendMessage y.2 s 0), ()⟩ ::
            ⟨SrvOp.db (.ioOpUsrEnt ⟨u, .msg s⟩ .delete), d⟩ ::
            ⟨SrvOp.db (.ioOpUsrEnt { e with username := s.sender } .read), a⟩ ::
            (t' ++ ⟨SrvOp.note (.cltSendMessAck a.2 s.id result'), ()⟩ :: t''))) =
              roundActs s 0 (decide (0 ≤ d.1)) ack result' ++ acts t'' := by
          intro t''
          rw [acts_getPendMsg, acts_read, acts_append, acts_tells ht,
            acts_cltSendMessage, acts_delete,
            acts_read, acts_append, acts_tells ht', acts_cltSendMessAck, roundActs]
          simp [Message.wire]
        -- the deletion succeeds or fails; its result decides which messages are left
        rcases h.delete_or hx rfl hid hd with ⟨hok, rfl⟩ | ⟨hneg, rfl, -⟩
        · refine (ih (h.del hx)).mono fun t'' v _ hrest hreceived => ?_
          have hreceived' : AllReceived (roundActs s 0 (decide (0 ≤ d.1)) ack result' ++
              acts t'') := by
            rw [← hacts]
            exact hreceived
          have hround := Drain.Ends.gone ack result' hx hid (decide_eq_true hok)
            (hrest hreceived'.of_append) fun y hy hsame => h.eq_of_id hy hx hsame
          rw [← hacts] at hround
          exact hround
        · refine (ih h).mono fun t'' v _ hrest hreceived => ?_
          have hreceived' : AllReceived (roundActs s 0 (decide (0 ≤ d.1)) ack result' ++
              acts t'') := by
            rw [← hacts]
            exact hreceived
          have hround := Drain.Ends.stays ack result' hx hid
            (decide_eq_false (not_le.mpr hneg)) (hrest hreceived'.of_append)
          rw [← hacts] at hround
          exact hround
      · rename_i hne
        refine must_db fun (d : ℤ × Entry) fs₂ _ => must_ret fun hreceived => ?_
        refine absurd (of_decide_eq_true (hreceived (.sent s result) ?_)) hne
        rw [acts_getPendMsg, acts_read, acts_append, acts_cltSendMessage]
        exact List.mem_append_right _ List.mem_cons_self

/-- **`aux_connect_send_pend_msgs`**, when deletions may fail: the record of the user cannot be
read, or the loop is made. -/
theorem must_auxConnectSendPendMsgs_ends (h : fs.Mailbox {u} L P) (hu : FitsBuf maxStrSize u) :
    (auxConnectSendPendMsgs fuel ⟨u, .msg m⟩).Must (SrvStep entryFaults)
      (fun t v _ => ∃ junk l, acts t = .locals junk :: l ∧ ((l = [] ∧ v = some dbmsErrAny) ∨
        (AllReceived l → Drain.Ends P fuel l v))) ⟨fs, input⟩ := by
  rw [auxConnectSendPendMsgs]
  refine must_uninit fun junk => must_read fun x _ => ?_
  split
  · exact must_ret ⟨junk, [], by rw [acts_uninit, acts_read, acts_nil], Or.inl ⟨rfl, rfl⟩⟩
  · refine (must_drainLoop_ends h hu).mono fun t v _ hrest => ?_
    exact ⟨junk, acts t, by rw [acts_uninit, acts_read], Or.inr hrest⟩

/-- **When the drain ends.**  Whatever the operations on entries and records give, and as long as
every transmission is accepted: the drain ends, and sends no message twice, if and only if every
deletion of an entry succeeds. -/
theorem drain_ends_iff {t : List srvE.Event} {s : SrvWorld} (h : fs.Mailbox {u} L P)
    (hu : FitsBuf maxStrSize u) (hfuel : P.card < fuel)
    (hexec : Exec (SrvStep entryFaults) (auxConnectSendPendMsgs fuel ⟨u, .msg m⟩) ⟨fs,
        input⟩ t v s)
    (hreceived : AllReceived (acts t)) :
    v ≠ none ∧ (sentIds (acts t)).Nodup ↔ Discards (acts t) := by
  obtain ⟨junk, l, hacts, hends⟩ := must_auxConnectSendPendMsgs_ends h hu t v s hexec
  rw [hacts] at hreceived ⊢
  have hids : sentIds (.locals junk :: l) = sentIds l := rfl
  have hdiscards : Discards (.locals junk :: l) ↔ Discards l := by simp [Discards, Act.discards]
  rw [hids, hdiscards]
  rcases hends with ⟨rfl, rfl⟩ | hends
  · exact ⟨fun _ => by simp [Discards], fun _ => ⟨by simp, List.nodup_nil⟩⟩
  · have hends := hends fun act hmem => hreceived act (List.mem_cons_of_mem _ hmem)
    exact ⟨fun hd => hends.discards hd.1 hd.2,
      fun hd => ⟨hends.ends hd hfuel, hends.once hd⟩⟩

/-- As long as a message waits and no deletion succeeds, the drain does not end, however many rounds
it makes; unless it does not begin, because the record of the user cannot be read. -/
theorem drain_spins {t : List srvE.Event} {s : SrvWorld} (h : fs.Mailbox {u} L P)
    (hu : FitsBuf maxStrSize u) (hsome : P.Nonempty)
    (hexec : Exec (SrvStep entryFaults) (auxConnectSendPendMsgs fuel ⟨u, .msg m⟩) ⟨fs,
        input⟩ t v s)
    (hreceived : AllReceived (acts t)) (hno : ∀ m, Act.dropped m true ∉ acts t) :
    v = none ∨ v = some dbmsErrAny := by
  obtain ⟨junk, l, hacts, hends⟩ := must_auxConnectSendPendMsgs_ends h hu t v s hexec
  rw [hacts] at hreceived hno
  rcases hends with ⟨-, hv⟩ | hends
  · exact Or.inr hv
  · have hends := hends fun act hmem => hreceived act (List.mem_cons_of_mem _ hmem)
    exact Or.inl (hends.spins hsome fun m' hmem => hno m' (List.mem_cons_of_mem _ hmem))

end Drain

/-! ## A deletion that fails once -/

/-- The first deletion of a file fails. -/
def stuckOnce (n : ℕ) : SrvChoice :=
  if n = 12 then
    { (default : SrvChoice) with
      sys := fun k => if k = 1 then { (default : SysChoice) with fail := true } else default }
  else default

/-- The step with the fault is the deletion, and the message is sent again after it. -/
theorem drainABB_stuckOnce :
    ((drainABB 4 stuckOnce).1.map Sigma.fst)[12]? =
        some (.db (.ioOpUsrEnt ⟨messageYo.1, .msg messageYo.2⟩ .delete)) ∧
      AllReceived (acts (drainABB 4 stuckOnce).1) ∧ (drainABB 4 stuckOnce).2.1 = some 0 ∧
        sentIds (acts (drainABB 4 stuckOnce).1) = [2, 2, 1] := by
  decide +kernel

theorem exec_drainABB_stuckOnce :
    Exec (SrvStep entryFaults) (auxConnectSendPendMsgs 4 ⟨ascii "b", .msg default⟩)
      ⟨pendingABB, []⟩
      (drainABB 4 stuckOnce).1 (drainABB 4 stuckOnce).2.1 (drainABB 4 stuckOnce).2.2 := by
  apply exec_srvRunOn
  intro n call hn fs
  by_cases hfault : n = 12
  · rw [hfault] at hn
    obtain rfl : call = .ioOpUsrEnt ⟨messageYo.1, .msg messageYo.2⟩ .delete :=
      SrvOp.db.inj (Option.some.inj (hn.symm.trans drainABB_stuckOnce.1))
    trivial
  · rw [show stuckOnce n = default from if_neg hfault]
    exact noFaults_entryFaults call _ (exec_sysRun _ (fun _ => rfl) (call.prog fs.depth) fs).2

/-- Two messages are drained without faults, and with a deletion that fails. -/
theorem drain_ends_iff_pendingABB :
    ((drainABB 3 calm).2.1 ≠ none ∧ (sentIds (acts (drainABB 3 calm).1)).Nodup ↔
        Discards (acts (drainABB 3 calm).1)) ∧
      ((drainABB 4 stuckOnce).2.1 ≠ none ∧ (sentIds (acts (drainABB 4 stuckOnce).1)).Nodup ↔
        Discards (acts (drainABB 4 stuckOnce).1)) := by
  have hcalm : Exec (SrvStep entryFaults) (auxConnectSendPendMsgs 3 ⟨ascii "b", .msg default⟩)
      ⟨pendingABB, []⟩ (drainABB 3 calm).1 (drainABB 3 calm).2.1 (drainABB 3 calm).2.2 :=
    exec_srvRunOn calm _ _ fun n call _ fs =>
      noFaults_entryFaults call _ (exec_sysRun (calm n).sys (calm_calm n) (call.prog fs.depth) fs).2
  constructor
  · exact drain_ends_iff pendingABB_mailbox (by decide) (by decide) hcalm (by decide +kernel)
  · exact drain_ends_iff pendingABB_mailbox (by decide) (by decide) exec_drainABB_stuckOnce
      drainABB_stuckOnce.2.1

/-- **A message is sent twice** when its deletion fails once. -/
theorem not_drain_ends :
    ¬ ∀ (fs : FS) (L : Location) (P : Finset (Bytes × Message)) (u : Bytes)
      (m : Message) (fuel : ℕ)
      (input : List ReadEv) (t : List srvE.Event) (v : Option ℤ) (s : SrvWorld),
      fs.Mailbox {u} L P → FitsBuf maxStrSize u → P.card < fuel →
      Exec (SrvStep entryFaults) (auxConnectSendPendMsgs fuel ⟨u, .msg m⟩)
        ⟨fs, input⟩ t v s →
      AllReceived (acts t) → v ≠ none ∧ (sentIds (acts t)).Nodup := by
  intro h
  obtain ⟨-, hreceived, -, hids⟩ := drainABB_stuckOnce
  have honce := (h _ _ _ _ _ _ _ _ _ _ pendingABB_mailbox (by decide) (by decide)
    exec_drainABB_stuckOnce hreceived).2
  rw [hids] at honce
  exact absurd honce (by decide)
