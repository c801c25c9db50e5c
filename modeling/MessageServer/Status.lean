/-
# Connection status

What the status in a user's record says about the user's history: whether the latest
event was a `CONNECT`.

* `latest`: the latest event of a history that makes a user connected or disconnected;
* `StatusLaw`: the stored status says which it was;
* `run_statusLaw`: it does after every history in which the accounts of `u` are opened
  with the status of a disconnected user, and other users' tables do not meet that of `u`;
* `not_run_statusLaw`: `srv_register` does not set the status.
-/
import MessageServer.Counter

/-! ## Events -/

/-- The acts of a request that make its user connected or disconnected: a reply of
success to `CONNECT`, or to `DISCONNECT`; an account that is opened; a message that does
not get through. -/
def statusEvent (req : Req) : Act → Option Bool
  | .opened _ result => if result = dbmsSuccess then some false else none
  | .sent _ result => if result = 0 then none else some false
  | .replied bytes =>
      if bytes = [srvSuccess] then
        match req with
        | .connect _ _ => some true
        | .disconnect _ => some false
        | _ => none
      else none
  | _ => none

/-- The events of one request for `u`, in this order. -/
def statusEvents (u : Bytes) (step : Turned) : List Bool :=
  if step.1.user = some u then (acts step.2).filterMap (statusEvent step.1) else []

/-- The latest event for `u`: whether it made `u` connected. -/
def latest (u : Bytes) (H : List Turned) : Option Bool := (H.flatMap (statusEvents u)).getLast?

/-- The record of `u`, if there is one, has one of the two statuses, and says that `u` is
connected exactly when the latest event was a `CONNECT`; from a `REGISTER` that creates
`u` to the first `CONNECT` it says that `u` is disconnected. -/
def StatusLaw (u : Bytes) (H : List Turned) (fs : FS) : Prop :=
  fs.content (userdataPath u) = [] ∨
    ∃ ud, fs.content (userdataPath u) = Entry.image ⟨u, .user ud⟩ ∧
      (ud.status = statusDcn ∨ ud.status = statusCn) ∧
      (ud.status = statusCn ↔ latest u H = some true) ∧
      ∀ H₁ t H₂, H = H₁ ++ (.register u, t) :: H₂ → Creates t = true →
        (∀ step ∈ H₂, true ∉ statusEvents u step) → ud.status = statusDcn

/-! ## The latest of several events -/

/-- The latest event after acts of a request, when it was `b` before. -/
def after (b : Option Bool) (req : Req) (l : List Act) : Option Bool :=
  (l.filterMap (statusEvent req)).getLast?.or b

section Latest

variable {b : Option Bool} {req : Req} {l l' : List Act} {u : Bytes} {H : List Turned}
  {step : Turned}

theorem after_append : after b req (l ++ l') = after (after b req l) req l' := by
  rw [after, List.filterMap_append, List.getLast?_append, Option.or_assoc]
  rfl

/-- Acts that are no events. -/
theorem after_of_none (h : ∀ act ∈ l, statusEvent req act = none) : after b req l = b := by
  rw [after, List.filterMap_eq_nil_iff.mpr h]
  rfl

theorem after_tolds (wire : List Bytes) : after b req (tolds wire) = b := by
  apply after_of_none
  intro act hact
  obtain ⟨bytes, -, rfl⟩ := List.mem_map.mp hact
  rfl

theorem statusEvents_own (h : step.1.user = some u) :
    statusEvents u step = (acts step.2).filterMap (statusEvent step.1) := if_pos h

/-- A reply of failure is no event. -/
theorem after_refused {code : UInt8} (hcode : code ≠ srvSuccess) :
    after b req [.replied [code]] = b := by
  apply after_of_none
  intro act hact
  rw [List.mem_singleton.mp hact]
  exact if_neg fun heq => hcode (List.singleton_inj.mp heq)

/-- Nor is a reply to a `SEND`. -/
theorem statusEvent_reply (s r c : Bytes) (bytes : Bytes) :
    statusEvent (.send s r c) (.replied bytes) = none := by
  show (if bytes = [srvSuccess] then none else none) = none
  exact ite_self none

theorem latest_snoc : latest u (H ++ [step]) = (statusEvents u step).getLast?.or (latest u H) := by
  rw [latest, List.flatMap_append, List.getLast?_append, List.flatMap_singleton]
  rfl

theorem latest_snoc_own (h : step.1.user = some u) :
    latest u (H ++ [step]) = after (latest u H) step.1 (acts step.2) := by
  rw [latest_snoc, statusEvents_own h]
  rfl

theorem latest_snoc_other (h : step.1.user ≠ some u) : latest u (H ++ [step]) = latest u H := by
  rw [latest_snoc, statusEvents, if_neg h]
  rfl

/-- A `REGISTER` makes nobody connected. -/
theorem statusEvent_register (act : Act) : statusEvent (.register u) act ≠ some true := by
  cases act with
  | replied bytes =>
      unfold statusEvent
      split <;> simp
  | opened ud result =>
      unfold statusEvent
      split <;> simp
  | sent m result =>
      unfold statusEvent
      split <;> simp
  | _ => simp [statusEvent]

/-- The events of a `REGISTER` that creates an account. -/
theorem statusEvents_register {t : List srvE.Event} (hnew : Creates t = true) :
    statusEvents u (.register u, t) ≠ [] ∧ true ∉ statusEvents u (.register u, t) := by
  rw [statusEvents_own rfl]
  constructor
  · obtain ⟨act, hact, hopened⟩ := List.any_eq_true.mp hnew
    intro hnil
    have hnone := List.filterMap_eq_nil_iff.mp hnil act hact
    cases act with
    | opened ud result =>
        have hevent : statusEvent (.register u) (.opened ud result) = some false :=
          if_pos (of_decide_eq_true hopened)
        rw [hevent] at hnone
        exact absurd hnone (by simp)
    | _ => exact absurd hopened Bool.false_ne_true
  · intro hmem
    obtain ⟨act, -, hevent⟩ := List.mem_filterMap.mp hmem
    exact statusEvent_register act hevent

/-- After a `REGISTER` that creates `u`, and before a `CONNECT`, the latest event was no
`CONNECT`. -/
theorem latest_of_created {H₁ H₂ : List Turned} {t : List srvE.Event} (hnew : Creates t = true)
    (hno : ∀ step ∈ H₂, true ∉ statusEvents u step) :
    latest u (H₁ ++ (.register u, t) :: H₂) ≠ some true := by
  obtain ⟨hsome, hfirst⟩ := statusEvents_register (u := u) hnew
  have hnone : true ∉ statusEvents u (.register u, t) ++ H₂.flatMap (statusEvents u) := by
    rw [List.mem_append, List.mem_flatMap]
    rintro (hmem | ⟨step, hstep, hmem⟩)
    · exact hfirst hmem
    · exact hno step hstep hmem
  rw [latest, List.flatMap_append, List.flatMap_cons, List.getLast?_append]
  intro hlast
  cases hrest : (statusEvents u (.register u, t) ++ H₂.flatMap (statusEvents u)).getLast? with
  | none =>
      have hnil := List.append_eq_nil_iff.mp (List.getLast?_eq_none_iff.mp hrest)
      exact hsome hnil.1
  | some e =>
      rw [hrest] at hlast
      obtain rfl : e = true := Option.some.inj hlast
      exact hnone (List.mem_of_getLast? hrest)

end Latest

/-! ## One request -/

/-- The record of an account has a status that accords with the latest event. -/
def Account.Accords (a : Account) (b : Option Bool) : Prop :=
  ∀ ud, a.record = some ud →
    (ud.status = statusDcn ∨ ud.status = statusCn) ∧ (ud.status = statusCn ↔ b = some true)

section Requests

variable {u : Bytes} {a a' : Account} {b : Option Bool} {l : List Act}

theorem statusDcn_ne_statusCn : statusDcn ≠ statusCn := by decide

/-- A record that says `u` is disconnected, after an event of this kind. -/
theorem accords_disconnected (ud : Userdata) (hud : a.record = some ud)
    (hstatus : ud.status = statusDcn) :
    a.Accords (some false) := by
  intro ud' hud'
  obtain rfl := Option.some.inj (hud.symm.trans hud')
  refine ⟨Or.inl hstatus, iff_of_false ?_ (by simp)⟩
  rw [hstatus]
  exact statusDcn_ne_statusCn

theorem accords_connected (ud : Userdata) (hud : a.record = some ud)
    (hstatus : ud.status = statusCn) :
    a.Accords (some true) := by
  intro ud' hud'
  obtain rfl := Option.some.inj (hud.symm.trans hud')
  exact ⟨Or.inr hstatus, iff_of_true hstatus rfl⟩

/-- No event, and no other status. -/
theorem Account.Accords.same (h : a.Accords b)
    (hsame : ∀ ud', a'.record = some ud' → ∃ ud, a.record = some ud ∧
        ud.status = ud'.status) :
    a'.Accords b := by
  intro ud' hud'
  obtain ⟨ud, hud, heq⟩ := hsame ud' hud'
  rw [← heq]
  exact h ud hud

/-- A message that does not get through. -/
theorem accords_lost (req : Req) (ud : Userdata) (m : Message) (wire : List Bytes) {result : ℤ}
    (hresult : result ≠ 0) : (a.write ud.lost).Accords
      (after b req (tolds wire ++ [.sent m result, .wrote ud.lost true])) := by
  have hlost : after b req [.sent m result, .wrote ud.lost true] = some false := by
    rw [after, List.filterMap_cons, statusEvent, if_neg hresult]
    rfl
  rw [after_append, after_tolds, hlost]
  exact accords_disconnected ud.lost rfl rfl

/-! ### The pieces of a request -/

theorem Drained.accords (req : Req) (h : Drained a l a') (hacc : a.Accords b) :
    a'.Accords (after b req l) := by
  induction h with
  | stop _ => exact hacc
  | sent m ok ack result hm hok hack hrest ih =>
      have hnone : ∀ acts', after b req (tolds m.wire ++ Act.sent m 0 :: Act.dropped m ok ::
          (tolds ack ++ Act.acked m.id result :: acts')) = after b req acts' := by
        intro acts'
        rw [after_append, after_tolds]
        show after b req (tolds ack ++ _) = _
        rw [after_append, after_tolds]
        rfl
      rw [hnone]
      exact ih hacc
  | failed m wire result hm hwire hresult hud => exact accords_lost req _ m wire hresult

theorem Connecting.accords {v port port' : Bytes} (h : Connecting port a l a')
    (hacc : a.Accords b) :
    a'.Accords (after b (.connect v port') l) := by
  cases h with
  | unknown code hnone hcode =>
      rw [after_refused hcode]
      exact hacc
  | refused ud code hud hcode =>
      rw [after_refused hcode]
      exact hacc
  | accepted ud ip p hud hstatus hport => exact accords_connected (ud.connected ip p) rfl rfl

theorem Draining.accords (req : Req) (h : Draining a l a') (hacc : a.Accords b) :
    a'.Accords (after b req l) := by
  cases h with
  | unknown junk hnone => exact hacc
  | known junk hsome hdrained => exact hdrained.accords req hacc

theorem Passing.accords (req : Req) {ud ud' : Userdata} {m : Message}
    (h : Passing a ud m l ud' a') (hacc : a.Accords b) : a'.Accords (after b req l) := by
  cases h with
  | idle _ => exact hacc
  | sent _ =>
      rw [after_append, after_tolds]
      exact hacc
  | failed wire result hcn hwire hresult => exact accords_lost req ud m wire hresult

theorem Shelving.noEvent {ud : Userdata} {m : Message} {byte code : UInt8}
    (h : Shelving a ud m byte l code a') (req : Req) :
    ∀ act ∈ l, statusEvent req act = none := by
  intro act hact
  cases h with
  | skipped _ _ => exact absurd hact (by simp)
  | _ =>
      rw [List.mem_singleton.mp hact]
      rfl

theorem Finishing.noEvent {ud : Userdata} {id : UInt32} {code : UInt8} (h : Finishing ud id code l)
    (s r c : Bytes) : ∀ act ∈ l, statusEvent (.send s r c) act = none := by
  have hclient : ∀ l₀ : List Act, (∀ act ∈ l₀, code = srvSuccess ∧
      act = .replied (decimal id.toNat ++ [0])) → ∀ act ∈ l₀,
        statusEvent (.send s r c) act = none := by
    intro l₀ hl₀ act hact
    rw [(hl₀ act hact).2]
    exact statusEvent_reply s r c _
  intro act hact
  cases h with
  | bare l₀ hl₀ hstatus =>
      rcases List.mem_cons.mp hact with rfl | hact
      · exact statusEvent_reply s r c _
      · exact hclient l₀ hl₀ act hact
  | acked l₀ hl₀ junk ack result hstatus hack =>
      simp only [List.mem_cons, List.mem_append, List.not_mem_nil, or_false] at hact
      rcases hact with rfl | hact | rfl | hact | rfl
      · exact statusEvent_reply s r c _
      · exact hclient l₀ hl₀ act hact
      · rfl
      · obtain ⟨bytes, -, rfl⟩ := List.mem_map.mp hact
        rfl
      · rfl

/-! ### The whole request -/

/-- **What a request of `u` makes of the status.**  An account has to be opened with the
status of a disconnected user. -/
theorem Served.accords {req : Req} (h : Served u a req l a') (hacc : a.Accords b)
    (hclean : req = .register u → a.record = none →
      ∀ junk, Act.locals junk ∈ l → junk.user.status = statusDcn) :
    a'.Accords (after b req l) := by
  cases h with
  | registered junk hnone => exact accords_disconnected _ rfl (hclean rfl hnone junk (by simp))
  | unregisterable junk hnone => exact hacc
  | alreadyRegistered junk hsome => exact hacc
  | unregistered result hresult hsome =>
      intro ud hud
      exact absurd hud (by simp [Account.empty])
  | notRegistered code hcode hnone =>
      intro ud hud
      rw [hnone] at hud
      exact absurd hud (by simp)
  | connected junk hconnecting hdraining =>
      rw [← List.cons_append, after_append]
      exact hdraining.accords _ (hconnecting.accords hacc)
  | disconnected junk ud hud hstatus => exact accords_disconnected ud.left rfl rfl
  | notConnected junk code hcode hdcn =>
      rw [show after b (.disconnect u) [.locals junk, .replied [code]] = b from after_refused hcode]
      exact hacc
  | @rejected s c junk code hcode =>
      rw [show after b (.send s u c) [.locals junk, .replied [code]] = b from after_refused hcode]
      exact hacc
  | @accepted s c junk ud ud' code l₁ l₂ l₃ a₁ a' hud hpassing hshelving hfinishing =>
      have hnext : (a.write ud.next).Accords b := hacc.same fun ud' hud' => by
        obtain rfl := Option.some.inj hud'
        exact ⟨ud, hud, rfl⟩
      have hpassed := hpassing.accords (.send s u c) hnext
      have hrest : ∀ act ∈ l₂ ++ l₃, statusEvent (.send s u c) act = none := by
        intro act hact
        rcases List.mem_append.mp hact with hact | hact
        · exact hshelving.noEvent _ act hact
        · exact hfinishing.noEvent s u c act hact
      have hall : after b (.send s u c) (.locals junk :: .wrote ud.next true ::
          (l₁ ++ (l₂ ++ l₃))) =
          after b (.send s u c) l₁ := by
        show after b (.send s u c) (l₁ ++ (l₂ ++ l₃)) = _
        rw [after_append]
        exact after_of_none hrest
      rw [hall]
      cases hshelving with
      | _ => exact hpassed

end Requests

/-! ## Histories -/

section Histories

variable {u : Bytes} {a : Account} {H : List Turned}

/-- A request is handled without faults; it is one of `u` or of a user whose table does not
meet that of `u`; and where it may create `u`, the local record says that `u` is
disconnected. -/
def HandledClean (u : Bytes) (fs : FS) (step : Turned) (fs' : FS) : Prop :=
  Handled fs step fs' ∧ (∀ v, step.1.user = some v → v = u ∨ Apart fs.cwd v u) ∧
    (step.1 = .register u → fs.get (fs.table u) = none →
      ∀ junk, Act.locals junk ∈ acts step.2 → junk.user.status = statusDcn)

/-- The status of the account accords with the latest event, and so does that in the file. -/
theorem Account.Accords.statusLaw {fs : FS} (h : a.Accords (latest u H)) (hkept : fs.Keeps True u a)
    (hu : slash ∉ u) : StatusLaw u H fs := by
  have hcontent := hkept.content_record hu
  cases hrec : a.record with
  | none =>
      left
      rw [hcontent, hrec]
      rfl
  | some ud =>
      right
      obtain ⟨hvalue, hiff⟩ := h ud hrec
      refine ⟨ud, by rw [hcontent, hrec]; rfl, hvalue, hiff, fun H₁ t H₂ hH hnew hno => ?_⟩
      apply hvalue.resolve_right
      intro hcn
      have hlatest := hiff.mp hcn
      rw [hH] at hlatest
      exact latest_of_created hnew hno hlatest

/-- **The status of a connection.**  After every history from an empty database that opens
no account of `u` with another status than that of a disconnected user, and has no request
for another user whose table meets that of `u`, the stored status of `u` says whether the
latest event for `u` was a `CONNECT`. -/
theorem run_statusLaw {fs₀ fs : FS} (hu : slash ∉ u) (hfresh : fs₀.Fresh)
    (h : Run (HandledClean u) fs₀ H fs) : StatusLaw u H fs := by
  suffices hrun : ∃ a, a.Accords (latest u H) ∧ fs.Keeps True u a by
    obtain ⟨a, hacc, hkept⟩ := hrun
    exact hacc.statusLaw hkept hu
  induction h with
  | nil =>
      refine ⟨.empty, fun ud hud => ?_, hfresh.keeps hu⟩
      exact absurd hud (by simp [Account.empty])
  | @snoc H fs₁ fs₂ step _ hstep ih =>
      obtain ⟨a, hacc, hkept⟩ := ih
      obtain ⟨hhandled, happart, hclean⟩ := hstep
      obtain ⟨a', hturn, hkept'⟩ := hhandled.turn False hu hkept fun v hv =>
        (happart v hv).imp_right fun h => ⟨h, False.elim⟩
      refine ⟨a', ?_, hkept'⟩
      rcases hturn with ⟨huser, hserved⟩ | ⟨huser, stray, -, rfl⟩
      · rw [latest_snoc_own huser]
        exact hserved.accords hacc fun hreg hnone => hclean hreg (hkept.absent trivial hnone)
      · rw [latest_snoc_other huser]
        exact hacc

end Histories

/-- `b` registers and connects. -/
theorem run_statusLaw_connect : StatusLaw (ascii "b")
    [turned (.register (ascii "b")) emptyDb,
      turned (.connect (ascii "b") (ascii "7000")) ((Req.register (ascii "b")).run calm 1 emptyDb)]
    ((Req.connect (ascii "b") (ascii "7000")).run calm 1
        ((Req.register (ascii "b")).run calm 1 emptyDb)) := by
  have hregister := handled_turned (.register (ascii "b")) emptyDb (by decide)
    (by decide +kernel)
  have hconnect := handled_turned (.connect (ascii "b") (ascii "7000"))
    ((Req.register (ascii "b")).run calm 1 emptyDb) (by decide) (by decide +kernel)
  have hown : ∀ (cwd : Location) (v : Bytes), some (ascii "b") = some v →
      v = ascii "b" ∨ Apart cwd v (ascii "b") := fun _ _ hv => Or.inl (Option.some.inj hv).symm
  have hclean : (acts (turned (.register (ascii "b")) emptyDb).2).all (fun
      | .locals junk => junk.user.status = statusDcn
      | _ => true) = true := by decide +kernel
  refine run_statusLaw (by decide) emptyDb_fresh ((Run.single ⟨hregister, hown _, ?_⟩).snoc
    ⟨hconnect, hown _, fun hreg => absurd hreg (by simp [turned])⟩)
  intro _ _ junk hjunk
  exact of_decide_eq_true (List.all_eq_true.mp hclean _ hjunk)

/-- The local record of the thread says that the user is connected. -/
def connectedJunk (_ : ℕ) : SrvChoice :=
  { (default : SrvChoice) with junk := ⟨0, ⟨statusCn, 0, 0, 0⟩, default⟩ }

/-- **An account may be opened connected.**  `srv_register` stores whatever status its local
record holds. -/
theorem not_run_statusLaw :
    ¬ ∀ (u : Bytes) (fs₀ fs : FS) (H : List Turned), slash ∉ u → fs₀.Fresh →
      Run Handled fs₀ H fs →
      StatusLaw u H fs := by
  intro h
  have hfits : (Req.register (ascii "b")).Fits := by decide
  have hends : (Req.register (ascii "b")).Ends connectedJunk 1 emptyDb := by decide +kernel
  have hlaw := h (ascii "b") emptyDb _ _ (by decide) emptyDb_fresh
    (Run.single (R := Handled) (a := (.register (ascii "b"), _)) ⟨hfits,
      handles_run (fun _ _ => rfl) hends⟩)
  have hstored : ((Req.register (ascii "b")).run connectedJunk 1 emptyDb).content
      (userdataPath (ascii "b")) =
      Entry.image ⟨ascii "b", .user ⟨statusCn, 0, 0, 0⟩⟩ := by decide +kernel
  rcases hlaw with hnone | ⟨ud, hud, -, hiff, -⟩
  · rw [hstored] at hnone
    exact image_ne_nil _ hnone
  · have hfits' : ∀ ud, Entry.Fits ⟨ascii "b", .user ud⟩ := fits_user (by decide)
    have hsame := image_inj (hfits' _) (hfits' _) (hstored.symm.trans hud)
    obtain rfl : (⟨statusCn, 0, 0, 0⟩ : Userdata) = ud := by simpa using hsame
    have hlatest := hiff.mp rfl
    exact absurd hlatest (by decide +kernel)
