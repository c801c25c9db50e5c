/-
# Message ids

The record of a user counts the messages that were accepted for the user, and each is
given the count as its id.

* `admitted`: the messages that a history has accepted for a user, with their ids;
* `CountsIds`: the ids are 1, 2, 3, ... modulo 2³² - 1, the record holds the last of
  them, and wherever the server names a message it names it by its id;
* `run_countsIds`: so it is after every history in which no other user's table meets the
  user's;
* `not_run_countsIds`: the table of `./b` does.
-/
import MessageServer.Histories

/-! ## Messages and their ids -/

/-- The record that a thread has written. -/
def Act.record : Act → Option Userdata
  | .wrote ud true => some ud
  | _ => none

/-- The message of a `SEND` to `u` that `aux_send_init` has accepted, with the id that it
was given: the first record that the thread writes holds it. -/
def admittedIn (u : Bytes) : Turned → Option Message
  | (.send s r c, t) =>
      if r = u then ((acts t).findSome? Act.record).map fun ud => ⟨s, ud.lastMsgId, c⟩ else none
  | _ => none

/-- The messages that were accepted for `u`, in this order. -/
def admitted (u : Bytes) (H : List Turned) : List Message := H.filterMap (admittedIn u)

/-- The thread has created an account. -/
def Creates (t : List srvE.Event) : Bool :=
  (acts t).any fun
    | .opened _ result => result = dbmsSuccess
    | _ => false

/-- `u` is unregistered. -/
def Unregisters (u : Bytes) (step : Turned) : Prop :=
  step.1 = .unregister u ∧ Act.replied [srvSuccess] ∈ acts step.2

/-! ## What is named by an id -/

/-- What is written to a listener. -/
def Act.bytes : Act → Option Bytes
  | .told bytes => some bytes
  | _ => none

/-- The messages `P`, one after the other, each whole and perhaps with its acknowledgement;
the last may be cut off. -/
inductive OnWire (P : Message → Prop) : List Bytes → Prop
  | nil : OnWire P []
  | cut {l : List Bytes} (m : Message) (hm : P m) (h : l <+: m.wire) : OnWire P l
  | whole {l : List Bytes} (m : Message) (ack : List Bytes) (hm : P m)
      (hack : ack = [] ∨ ack = ackWire m.id) (h : OnWire P l) : OnWire P (m.wire ++ (ack ++ l))

/-- An act is about one of the messages `P`, if it is about a message at all. -/
def Act.About (P : Message → Prop) : Act → Prop
  | .replied bytes => (∃ code, bytes = [code]) ∨ ∃ m, P m ∧
      bytes = decimal m.id.toNat ++ [0]
  | .stored m _ => P m
  | .dropped m _ => P m
  | .sent m _ => P m
  | .acked id _ => ∃ m, P m ∧ m.id = id
  | _ => True

/-- A thread names messages `P` only, by their ids: in its replies, on the connections to
listeners, and in the entries that it creates and deletes. -/
structure Names (P : Message → Prop) (l : List Act) : Prop where
  wire : OnWire P (l.filterMap Act.bytes)
  about : ∀ act ∈ l, act.About P

/-- The messages that a request of `u` may name after history `H`: a `SEND` its own, any
other request those that were accepted before. -/
def Nameable (u : Bytes) (H : List Turned) (step : Turned) (m : Message) : Prop :=
  match step.1 with
  | .send _ _ _ => admittedIn u step = some m
  | _ => m ∈ admitted u H

/-- **The law of the counter**: history `H` has led to `fs`. -/
structure CountsIds (u : Bytes) (H : List Turned) (fs : FS) : Prop where
  ids : (admitted u H).map (fun m => m.id.toNat) =
    (List.range (admitted u H).length).map fun k => (k + 1) % (2 ^ 32 - 1)
  below : ∀ m ∈ admitted u H, m.id < msgIdMaxValue
  distinct : ∀ k, ((((admitted u H).drop k).take (2 ^ 32 - 1)).map Message.id).Nodup
  record : ∃ ud, fs.content (userdataPath u) = Entry.image ⟨u, .user ud⟩ ∧
    ud.lastMsgId.toNat = (admitted u H).length % (2 ^ 32 - 1)
  stored : ∀ id, fs.content (pendMsgPath u id) ≠ [] → ∃ m ∈ admitted u H, m.id = id ∧
    fs.content (pendMsgPath u id) = Entry.image ⟨u, .msg m⟩
  names : ∀ H' step H'', H = H' ++ step :: H'' → step.1.user = some u →
    Names (Nameable u H' step) (acts step.2)

/-! ## Consecutive numbers -/

/-- Numbers in a window of length `m` are different modulo `m`. -/
theorem nodup_window (n i m : ℕ) :
    ((((List.range n).map fun k => (k + 1) % m).drop i).take m).Nodup := by
  rw [← List.map_drop, ← List.map_take]
  refine List.Nodup.map_on ?_ ?_
  · intro x hx y hy heq
    have hwindow : ∀ z ∈ ((List.range n).drop i).take m, i ≤ z ∧ z < i + m := by
      intro z hz
      obtain ⟨j, hj, rfl⟩ := List.mem_iff_getElem.mp hz
      rw [List.length_take] at hj
      simp only [List.getElem_take, List.getElem_drop, List.getElem_range]
      omega
    obtain ⟨hx₁, hx₂⟩ := hwindow x hx
    obtain ⟨hy₁, hy₂⟩ := hwindow y hy
    obtain ⟨a, ha⟩ := Nat.le.dest hx₁
    obtain ⟨b, hb⟩ := Nat.le.dest hy₁
    have hab : a ≡ b [MOD m] := by
      have hmod : a + (i + 1) ≡ b + (i + 1) [MOD m] := by
        show (a + (i + 1)) % m = (b + (i + 1)) % m
        rw [show a + (i + 1) = x + 1 by omega, show b + (i + 1) = y + 1 by omega]
        exact heq
      exact Nat.ModEq.add_right_cancel' _ hmod
    have : a = b := by
      rw [← Nat.mod_eq_of_lt (show a < m by omega), ← Nat.mod_eq_of_lt (show b < m by omega)]
      exact hab
    omega
  · exact (List.nodup_range.sublist (List.drop_sublist _ _)).sublist (List.take_sublist _ _)

/-! ## One request -/

section Requests

variable {u : Bytes} {a a' : Account} {ud : Userdata} {P : Message → Prop} {l : List Act}

/-- The bytes of replies. -/
@[simp] theorem filterMap_bytes_tolds (wire : List Bytes) :
    (tolds wire).filterMap Act.bytes = wire := by
  rw [tolds, List.filterMap_map]
  exact List.filterMap_some

/-- Replies are about no message. -/
theorem about_tolds {wire : List Bytes} : ∀ act ∈ tolds wire, act.About P := by
  intro act hact
  obtain ⟨bytes, -, rfl⟩ := List.mem_map.mp hact
  trivial

/-- What waits after a removal waited before. -/
theorem Account.pending_of_drop {id id' : UInt32} {m : Message}
    (h : (a.drop id).pending id' = some m) : a.pending id' = some m := by
  have hupdate : Function.update a.pending id none id' = some m := h
  by_cases hid : id' = id
  · rw [hid, Function.update_self] at hupdate
    exact absurd hupdate (by simp)
  · rwa [Function.update_of_ne hid] at hupdate

/-- What waits after a message is stored is that one, or waited before. -/
theorem Account.pending_of_store {id : UInt32} {m m' : Message}
    (h : (a.store m').pending id = some m) : m = m' ∨ a.pending id = some m := by
  have hupdate : Function.update a.pending m'.id (some m') id = some m := h
  by_cases hid : id = m'.id
  · rw [hid, Function.update_self] at hupdate
    exact Or.inl (Option.some.inj hupdate).symm
  · right
    rwa [Function.update_of_ne hid] at hupdate

/-- What is offered after a removal was offered before. -/
theorem Account.Offers.of_drop {id : UInt32} {m : Message} (h : (a.drop id).Offers m) :
    a.Offers m :=
  h.imp Account.pending_of_drop fun hstray => hstray

/-! ### The messages that are named -/

/-- The drain names messages that were waiting. -/
theorem Drained.names (h : Drained a l a') (hP : ∀ m, a.Offers m → P m) : Names P l := by
  induction h with
  | stop hidle => exact ⟨OnWire.nil, by simp⟩
  | @sent a a' l m ok ack result hm hok hack hrest ih =>
      have hnames := ih fun m' hm' => hP m' hm'.of_drop
      constructor
      · simp only [List.filterMap_append, filterMap_bytes_tolds, List.filterMap_cons, Act.bytes]
        exact OnWire.whole m ack (hP m hm) hack hnames.wire
      · intro act hact
        simp only [List.mem_append, List.mem_cons] at hact
        rcases hact with hact | rfl | rfl | hact | rfl | hact
        · exact about_tolds act hact
        · exact hP m hm
        · exact hP m hm
        · exact about_tolds act hact
        · exact ⟨m, hP m hm, rfl⟩
        · exact hnames.about act hact
  | @failed a ud m wire result hm hwire hresult hud =>
      constructor
      · simp only [List.filterMap_append, filterMap_bytes_tolds, List.filterMap_cons, Act.bytes,
          List.filterMap_nil, List.append_nil]
        exact OnWire.cut m (hP m hm) hwire
      · intro act hact
        simp only [List.mem_append, List.mem_cons, List.not_mem_nil, or_false] at hact
        rcases hact with hact | rfl | rfl
        · exact about_tolds act hact
        · exact hP m hm
        · trivial

/-- A `SEND` that is accepted names its message. -/
theorem names_send {a₁ : Account} {ud' : Userdata} {m : Message} {byte code : UInt8}
    {l l' l'' : List Act}
    (hid : ud.lastMsgId = m.id) (hpassing : Passing a ud m l ud' a₁)
    (hshelving : Shelving a₁ ud' m byte l' code a')
    (hfinishing : Finishing ud' m.id code l'') (hP : P m) :
    Names P (l ++ (l' ++ l'')) := by
  have hshelf : l'.filterMap Act.bytes = [] ∧ ∀ act ∈ l', act.About P := by
    cases hshelving with
    | skipped _ _ => exact ⟨rfl, by simp⟩
    | stored _ _ =>
        refine ⟨rfl, fun act hact => ?_⟩
        rw [List.mem_singleton.mp hact]
        exact hP
    | taken _ _ =>
        refine ⟨rfl, fun act hact => ?_⟩
        rw [List.mem_singleton.mp hact]
        exact hP
  have hreply : ∀ l₀ : List Act, (∀ act ∈ l₀, code = srvSuccess ∧
      act = .replied (decimal m.id.toNat ++ [0])) →
      (l₀.filterMap Act.bytes = [] ∧ ∀ act ∈ l₀, act.About P) := by
    intro l₀ hl₀
    refine ⟨List.filterMap_eq_nil_iff.mpr fun act hact => ?_, fun act hact => ?_⟩
    · rw [(hl₀ act hact).2]
      rfl
    · rw [(hl₀ act hact).2]
      exact Or.inr ⟨m, hP, rfl⟩
  have habout : (∀ act ∈ l, act.About P) → (∀ act ∈ l'', act.About P) →
      ∀ act ∈ l ++ (l' ++ l''), act.About P := by
    intro h h'' act hact
    rcases List.mem_append.mp hact with hact | hact
    · exact h act hact
    rcases List.mem_append.mp hact with hact | hact
    · exact hshelf.2 act hact
    · exact h'' act hact
  have hwire : l''.filterMap Act.bytes = [] → OnWire P (l.filterMap Act.bytes) →
      OnWire P ((l ++ (l' ++ l'')).filterMap Act.bytes) := by
    intro hnil h
    rw [List.filterMap_append, List.filterMap_append, hshelf.1, hnil, List.append_nil,
      List.append_nil]
    exact h
  -- whether the second acknowledgement is due depends on the transmission
  cases hfinishing with
  | bare l₀ hl₀ hstatus =>
      obtain ⟨hnil, hclient⟩ := hreply l₀ hl₀
      have hfirst : ∀ act ∈ Act.replied [code] :: l₀, act.About P := by
        intro act hact
        rcases List.mem_cons.mp hact with rfl | hact
        · exact Or.inl ⟨code, rfl⟩
        · exact hclient act hact
      cases hpassing with
      | idle _ => exact ⟨hwire hnil OnWire.nil, habout (by simp) hfirst⟩
      | sent hcn => exact absurd hcn hstatus
      | failed wire result hcn hpre hresult =>
          refine ⟨hwire hnil ?_, habout (fun act hact => ?_) hfirst⟩
          · simp only [List.filterMap_append, filterMap_bytes_tolds,
              List.filterMap_cons, Act.bytes,
              List.filterMap_nil, List.append_nil]
            exact OnWire.cut m hP hpre
          · simp only [List.mem_append, List.mem_cons, List.not_mem_nil, or_false] at hact
            rcases hact with hact | rfl | rfl
            · exact about_tolds act hact
            · exact hP
            · trivial
  | acked l₀ hl₀ junk ack result hstatus hack =>
      cases hpassing with
      | idle hno => exact absurd hstatus hno
      | failed wire result' hcn hpre hresult =>
          exact absurd hstatus (show statusDcn ≠ statusCn by decide)
      | sent hcn =>
          obtain ⟨hnil, hclient⟩ := hreply l₀ hl₀
          rw [hid] at hack
          constructor
          · simp only [List.filterMap_append, filterMap_bytes_tolds,
              List.filterMap_cons, Act.bytes,
              List.filterMap_nil, List.append_nil, hshelf.1, hnil, List.nil_append]
            have hwhole := OnWire.whole m ack hP hack OnWire.nil
            rwa [List.append_nil] at hwhole
          · refine habout (fun act hact => ?_) fun act hact => ?_
            · rcases List.mem_append.mp hact with hact | hact
              · exact about_tolds act hact
              · rw [List.mem_singleton.mp hact]
                exact hP
            · simp only [List.mem_cons, List.mem_append, List.not_mem_nil, or_false] at hact
              rcases hact with rfl | hact | rfl | hact | rfl
              · exact Or.inl ⟨code, rfl⟩
              · exact hclient act hact
              · trivial
              · exact about_tolds act hact
              · exact ⟨m, hP, hid.symm⟩

/-! ### Actions that name none -/

/-- The acts that name nothing. -/
def Act.plain : Act → Bool
  | .locals _ => true
  | .replied [_] => true
  | .opened _ _ => true
  | .closed _ => true
  | .wrote _ _ => true
  | _ => false

/-- A plain action names no message. -/
theorem Act.names_of_plain {act : Act} (h : act.plain = true) :
    act.bytes = none ∧ act.About P := by
  cases act with
  | replied bytes =>
      obtain ⟨code, rfl⟩ : ∃ code, bytes = [code] := by
        match bytes, h with
        | [code], _ => exact ⟨code, rfl⟩
      exact ⟨rfl, Or.inl ⟨code, rfl⟩⟩
  | told bytes => exact absurd h (by simp [plain])
  | stored m ok => exact absurd h (by simp [plain])
  | dropped m ok => exact absurd h (by simp [plain])
  | sent m result => exact absurd h (by simp [plain])
  | acked id result => exact absurd h (by simp [plain])
  | _ => exact ⟨rfl, trivial⟩

/-- Acts in front that name nothing. -/
theorem Names.plain_append {l' : List Act} (h : l.all Act.plain = true) (h' : Names P l') :
    Names P (l ++ l') := by
  have hplain : ∀ act ∈ l, act.bytes = none ∧ act.About P := fun act hact =>
    Act.names_of_plain (List.all_eq_true.mp h act hact)
  constructor
  · rw [List.filterMap_append, List.filterMap_eq_nil_iff.mpr fun act hact => (hplain act hact).1]
    exact h'.wire
  · intro act hact
    rcases List.mem_append.mp hact with hact | hact
    · exact (hplain act hact).2
    · exact h'.about act hact

/-- Plain actions name no message. -/
theorem names_of_plain (h : l.all Act.plain = true) : Names P l := by
  rw [← List.append_nil l]
  exact Names.plain_append h ⟨OnWire.nil, by simp⟩

/-- The reply to `CONNECT` names nothing. -/
theorem Connecting.plain {port : Bytes} (h : Connecting port a l a') :
    l.all Act.plain = true ∧ a'.stray = a.stray ∧ a'.pending = a.pending := by
  cases h with
  | _ => exact ⟨rfl, rfl, rfl⟩

/-! ### The message that is admitted -/

/-- The message that a `SEND` to `u` may have had admitted. -/
theorem admittedIn_own (s c : Bytes) (t : List srvE.Event) : admittedIn u (.send s u c, t) =
    ((acts t).findSome? Act.record).map fun ud => ⟨s, ud.lastMsgId, c⟩ := if_pos rfl

/-- An accepted `SEND` has written the record first. -/
theorem admittedIn_send {s c : Bytes} {t : List srvE.Event} {junk : Junk}
    (h : acts t = .locals junk :: .wrote ud true :: l) :
    admittedIn u (.send s u c, t) = some ⟨s, ud.lastMsgId, c⟩ := by
  rw [admittedIn_own, h]
  rfl

/-- **What a request of `u` names**: a `SEND` its message, any other request messages that
were waiting. -/
theorem Served.names {req : Req} {t : List srvE.Event} (h : Served u a req (acts t) a')
    (hstray : a.stray = false) {H : List Turned}
    (hpending : ∀ id m, a.pending id = some m → m ∈ admitted u H) :
    Names (Nameable u H (req, t)) (acts t) := by
  generalize hl : acts t = l at h
  cases h with
  | connected junk hconnecting hdraining =>
      obtain ⟨hreply, hstray₁, hpending₁⟩ := hconnecting.plain
      rw [← List.cons_append]
      refine Names.plain_append hreply ?_
      cases hdraining with
      | unknown junk' _ => exact names_of_plain rfl
      | known junk' _ hdrained =>
          refine Names.plain_append (l := [Act.locals junk']) rfl (hdrained.names fun m hm => ?_)
          rcases hm with hm | hm
          · rw [hpending₁] at hm
            exact hpending _ m hm
          · rw [hstray₁, hstray] at hm
            exact absurd hm (by simp)
  | @accepted s c junk ud ud' code l₁ l₂ l₃ a₁ a' hud hpassing hshelving hfinishing =>
      exact Names.plain_append (l := [Act.locals junk, Act.wrote ud.next true]) rfl
        (names_send rfl hpassing hshelving hfinishing (admittedIn_send hl))
  | _ => exact names_of_plain rfl

/-! ### Messages that are taken away -/

/-- The count stays, and no message is added. -/
structure Account.Lessens (a a' : Account) : Prop where
  count : ∀ ud, a.record = some ud → ∃ ud', a'.record = some ud' ∧
    ud'.lastMsgId = ud.lastMsgId
  pending : ∀ id m, a'.pending id = some m → a.pending id = some m

theorem Account.Lessens.refl (a : Account) : a.Lessens a :=
  ⟨fun ud hud => ⟨ud, hud, rfl⟩, fun _ _ h => h⟩

/-- What is taken away in two pieces. -/
theorem Account.Lessens.trans {a'' : Account} (h : a.Lessens a') (h' : a'.Lessens a'') :
    a.Lessens a'' := by
  refine ⟨fun ud hud => ?_, fun id m hm => h.pending id m (h'.pending id m hm)⟩
  obtain ⟨ud', hud', hsame⟩ := h.count ud hud
  obtain ⟨ud'', hud'', hsame'⟩ := h'.count ud' hud'
  exact ⟨ud'', hud'', hsame'.trans hsame⟩

/-- A record with the same count. -/
theorem Account.lessens_write {ud' : Userdata} (hud : a.record = some ud)
    (hsame : ud'.lastMsgId = ud.lastMsgId) : a.Lessens (a.write ud') := by
  refine ⟨fun ud₀ hud₀ => ⟨ud', rfl, ?_⟩, fun _ _ h => h⟩
  obtain rfl := Option.some.inj (hud₀.symm.trans hud)
  exact hsame

/-- A round of the drain takes messages away. -/
theorem Drained.lessens (h : Drained a l a') : a.Lessens a' := by
  induction h with
  | stop _ => exact Account.Lessens.refl _
  | sent m ok ack result hm hok hack hrest ih =>
      have hdrop : ∀ b : Account, b.Lessens (b.drop m.id) := fun b =>
        ⟨fun ud hud => ⟨ud, hud, rfl⟩, fun _ _ => Account.pending_of_drop⟩
      exact (hdrop _).trans ih
  | failed m wire result hm hwire hresult hud => exact Account.lessens_write hud rfl

/-- The start of `CONNECT` takes no message away. -/
theorem Connecting.lessens {port : Bytes} (h : Connecting port a l a') : a.Lessens a' := by
  cases h with
  | accepted ud ip p hud hstatus hport => exact Account.lessens_write hud rfl
  | _ => exact Account.Lessens.refl _

/-- The drain takes messages away. -/
theorem Draining.lessens (h : Draining a l a') : a.Lessens a' := by
  cases h with
  | unknown _ _ => exact Account.Lessens.refl _
  | known _ _ hdrained => exact hdrained.lessens

/-- A transmission takes none away. -/
theorem Passing.lessens {m : Message} {ud' : Userdata} (hud : a.record = some ud)
    (h : Passing a ud m l ud' a') : a.Lessens a' := by
  cases h with
  | failed wire result hcn hpre hresult => exact Account.lessens_write hud rfl
  | _ => exact Account.Lessens.refl _

/-! ### The count -/

/-- **What a request of `u` counts.**  A `SEND` that is accepted has the next id, which the
record holds from then on; any other request that leaves the user registered leaves the
count alone. -/
theorem Served.counts {req : Req} {t : List srvE.Event} (h : Served u a req (acts t) a')
    (hud : a.record = some ud) (hstays : ¬ Unregisters u (req, t)) :
    (admittedIn u (req, t) = none ∧ a.Lessens a') ∨
    ∃ m, admittedIn u (req, t) = some m ∧ m.id = nextMsgId ud.lastMsgId ∧
      (∃ ud', a'.record = some ud' ∧ ud'.lastMsgId = m.id) ∧
      ∀ id m', a'.pending id = some m' → m' = m ∨ a.pending id = some m' := by
  generalize hl : acts t = l at h
  have hsome : a.record ≠ none := by rw [hud]; simp
  cases h with
  | registered junk hnone => exact absurd hnone hsome
  | unregisterable junk hnone => exact absurd hnone hsome
  | notRegistered code hcode hnone => exact absurd hnone hsome
  | unregistered result hresult _ => exact absurd ⟨rfl, by rw [hl]; simp⟩ hstays
  | alreadyRegistered junk _ => exact Or.inl ⟨rfl, Account.Lessens.refl a⟩
  | connected junk hconnecting hdraining =>
      exact Or.inl ⟨rfl, hconnecting.lessens.trans hdraining.lessens⟩
  | disconnected junk ud' hud' hstatus => exact Or.inl ⟨rfl, Account.lessens_write hud' rfl⟩
  | notConnected junk code hcode _ => exact Or.inl ⟨rfl, Account.Lessens.refl a⟩
  | rejected junk code hcode =>
      refine Or.inl ⟨?_, Account.Lessens.refl a⟩
      rw [admittedIn_own, hl]
      rfl
  | @accepted s c junk ud₀ ud' code l₁ l₂ l₃ a₁ a' hud₀ hpassing hshelving hfinishing =>
      obtain rfl := Option.some.inj (hud₀.symm.trans hud)
      right
      refine ⟨_, admittedIn_send hl, rfl, ?_, ?_⟩
      · have hpassed := (Passing.lessens rfl hpassing).count ud₀.next rfl
        cases hshelving with
        | _ => exact hpassed
      · intro id m' hm'
        have hpassed := (Passing.lessens rfl hpassing).pending id m'
        cases hshelving with
        | stored _ _ => exact (Account.pending_of_store hm').imp (fun heq => heq) hpassed
        | _ => exact Or.inr (hpassed hm')

end Requests

/-! ## Histories -/

section Histories

variable {u : Bytes} {a a' : Account} {H : List Turned} {step : Turned}

/-- The account after a history that counts ids. -/
structure Counted (u : Bytes) (H : List Turned) (a : Account) : Prop where
  ids : (admitted u H).map (fun m => m.id.toNat) =
    (List.range (admitted u H).length).map fun k => (k + 1) % (2 ^ 32 - 1)
  record : ∃ ud, a.record = some ud ∧ ud.lastMsgId.toNat = (admitted u H).length % (2 ^ 32 - 1)
  stray : a.stray = false
  pending : ∀ id m, a.pending id = some m → m ∈ admitted u H
  names : ∀ H' step H'', H = H' ++ step :: H'' → step.1.user = some u →
    Names (Nameable u H' step) (acts step.2)

/-- The messages admitted by one more request. -/
theorem admitted_snoc : admitted u (H ++ [step]) = admitted u H ++ (admittedIn u step).toList := by
  rw [admitted, List.filterMap_append, List.filterMap_cons, List.filterMap_nil]
  cases admittedIn u step <;> rfl

/-- Requests of others are not accepted for `u`. -/
theorem admittedIn_other (h : step.1.user ≠ some u) : admittedIn u step = none := by
  obtain ⟨req, t⟩ := step
  cases req with
  | send s r c => exact if_neg fun heq => h (congrArg some heq)
  | _ => rfl

/-- A new account counts from zero. -/
theorem counted_new {ud : Userdata} (hud : ud.lastMsgId = 0) : Counted u [] (.new ud) := by
  refine ⟨rfl, ⟨ud, rfl, by rw [hud]; rfl⟩, rfl, fun id m hm => ?_,
    fun H' step H'' hH => ?_⟩
  · exact absurd hm (by simp [Account.new])
  · exact absurd hH (by simp)

/-- The next id is the next number. -/
theorem toNat_next_of_count {id : UInt32} {n : ℕ} (h : id.toNat = n % (2 ^ 32 - 1)) :
    (nextMsgId id).toNat = (n + 1) % (2 ^ 32 - 1) := by
  have hlt : id < msgIdMaxValue := by
    rw [UInt32.lt_iff_toNat_lt, h]
    exact Nat.mod_lt _ (by decide)
  rw [toNat_nextMsgId hlt, h]
  exact Nat.mod_add_mod _ _ _

/-- **One more request** is counted. -/
theorem Counted.turn (h : Counted u H a) (hturn : Turn True u a step a')
    (hstays : ¬ Unregisters u step) : Counted u (H ++ [step]) a' := by
  obtain ⟨ud, hud, hcount⟩ := h.record
  have hstray := hturn.stray trivial h.stray
  rcases hturn with ⟨huser, hserved⟩ | ⟨huser, stray, -, rfl⟩
  · have hnames := forall_split_snoc.mpr ⟨h.names, fun _ => hserved.names h.stray h.pending⟩
    rcases hserved.counts hud hstays with ⟨hnone, hless⟩ |
      ⟨m, hm, hid, ⟨ud', hud', hud''⟩, hpending⟩
    · have hsame : admitted u (H ++ [step]) = admitted u H := by
        rw [admitted_snoc, show admittedIn u step = none from hnone]
        exact List.append_nil _
      refine ⟨by rw [hsame]; exact h.ids, ?_, hstray, fun id m hm => ?_, hnames⟩
      · obtain ⟨ud', hud', heq⟩ := hless.count ud hud
        exact ⟨ud', hud', by rw [hsame, heq, hcount]⟩
      · rw [hsame]
        exact h.pending id m (hless.pending id m hm)
    · have hmore : admitted u (H ++ [step]) = admitted u H ++ [m] := by
        rw [admitted_snoc, show admittedIn u step = some m from hm]
        rfl
      have hnext : m.id.toNat = ((admitted u H).length + 1) % (2 ^ 32 - 1) := by
        rw [hid]
        exact toNat_next_of_count hcount
      refine ⟨?_, ⟨ud', hud', ?_⟩, hstray, fun id m' hm' => ?_, hnames⟩
      · rw [hmore, List.map_append, h.ids, List.length_append, List.length_singleton,
          List.range_succ,
          List.map_append, List.map_singleton, List.map_singleton, hnext]
      · rw [hmore, List.length_append, List.length_singleton, hud'', hnext]
      · rw [hmore, List.mem_append, List.mem_singleton]
        exact (hpending id m' hm').symm.imp (h.pending id m') fun heq => heq
  · have hsame : admitted u (H ++ [step]) = admitted u H := by
      rw [admitted_snoc, admittedIn_other huser]
      exact List.append_nil _
    refine ⟨by rw [hsame]; exact h.ids, ⟨ud, hud, by rw [hsame]; exact hcount⟩, hstray, ?_,
      forall_split_snoc.mpr ⟨h.names, fun heq => absurd heq huser⟩⟩
    rw [hsame]
    exact h.pending

/-- What the account counts, the files show. -/
theorem Counted.countsIds {fs : FS} (h : Counted u H a) (hkept : fs.Keeps True u a)
    (hu : slash ∉ u) :
    CountsIds u H fs := by
  have hnumber : ∀ m ∈ admitted u H, m.id.toNat < 2 ^ 32 - 1 := by
    intro m hm
    have hmem : m.id.toNat ∈ (admitted u H).map fun m => m.id.toNat := List.mem_map_of_mem hm
    rw [h.ids] at hmem
    obtain ⟨k, -, hk⟩ := List.mem_map.mp hmem
    rw [← hk]
    exact Nat.mod_lt _ (by norm_num)
  refine ⟨h.ids, fun m hm => UInt32.lt_iff_toNat_lt.mpr (hnumber m hm), fun k => ?_, ?_,
    fun id hne => ?_,
    h.names⟩
  · have hnodup := nodup_window (admitted u H).length k (2 ^ 32 - 1)
    rw [← h.ids, ← List.map_drop, ← List.map_take] at hnodup
    apply List.Nodup.of_map UInt32.toNat
    rw [List.map_map]
    exact hnodup
  · obtain ⟨ud, hud, hcount⟩ := h.record
    refine ⟨ud, ?_, hcount⟩
    rw [hkept.content_record hu, hud]
    rfl
  · rw [hkept.content_pending hu] at hne ⊢
    cases hm : a.pending id with
    | none =>
        rw [hm] at hne
        exact absurd rfl hne
    | some m => exact ⟨m, h.pending id m hm, (hkept.own id m hm).1, rfl⟩

/-- A request is handled without faults, and it is one of `u` or of a user whose table
does not meet that of `u`. -/
def HandledApart (u : Bytes) (fs : FS) (step : Turned) (fs' : FS) : Prop :=
  Handled fs step fs' ∧ ∀ v, step.1.user = some v → v = u ∨ Unrelated fs.cwd v u

/-- Requests for unrelated users work elsewhere. -/
theorem HandledApart.elsewhere {fs fs' : FS} (h : HandledApart u fs step fs') :
    Handled fs step fs' ∧ ∀ v, step.1.user = some v → v = u ∨ Elsewhere True fs.cwd v u :=
  ⟨h.1, fun v hv => (h.2 v hv).imp_right fun hunrel => ⟨hunrel.apart, fun _ => hunrel⟩⟩

/-- **The law of the counter.**  From an empty database any history leads to a `REGISTER`
that creates `u`, and from there any history in which `u` is not unregistered counts ids,
if no request is for another user whose table meets that of `u`. -/
theorem run_countsIds {fs₀ fs₁ fs₂ fs : FS} {H₀ : List Turned} {t : List srvE.Event}
    (hu : slash ∉ u)
    (hfresh : fs₀.Fresh) (h₀ : Run (HandledApart u) fs₀ H₀ fs₁)
    (hreg : HandledApart u fs₁ (.register u, t) fs₂) (hnew : Creates t = true)
    (h : Run (HandledApart u) fs₂ H fs) (hstays : ∀ step ∈ H, ¬ Unregisters u step) :
    CountsIds u H fs := by
  obtain ⟨a₁, -, hkept₁⟩ :=
    run_turns hu (hfresh.keeps hu) (fun _ _ _ => HandledApart.elsewhere) h₀
  obtain ⟨a₂, hturn, hkept₂⟩ := hreg.1.turn True hu hkept₁ hreg.elsewhere.2
  have hcounted : Counted u [] a₂ := by
    rcases hturn with ⟨-, hserved⟩ | ⟨huser, -⟩
    · generalize hl : acts t = l at hserved
      rw [Creates, hl] at hnew
      cases hserved with
      | registered junk hnone => exact counted_new rfl
      | _ => exact absurd hnew Bool.false_ne_true
    · exact absurd rfl huser
  suffices hrun : ∃ a, Counted u H a ∧ fs.Keeps True u a by
    obtain ⟨a, hcounted', hkept⟩ := hrun
    exact hcounted'.countsIds hkept hu
  clear hnew hreg hturn
  induction h with
  | nil => exact ⟨a₂, hcounted, hkept₂⟩
  | snoc _ hstep ih =>
      obtain ⟨a, hcounted', hkept⟩ := ih fun step hs => hstays step (List.mem_append_left _ hs)
      obtain ⟨a', hturn, hkept'⟩ := hstep.1.turn True hu hkept hstep.elsewhere.2
      exact ⟨a', hcounted'.turn hturn (hstays _ (by simp)), hkept'⟩

end Histories

/-! ## Two users -/

/-- A request that is handled in the environment in which everything succeeds. -/
def turned (req : Req) (fs : FS) : Turned := (req, ((req.body 1).run srvApply calm ⟨fs, []⟩).1)

/-- A request that is run calmly has been handled. -/
theorem handled_turned (req : Req) (fs : FS) (hfits : req.Fits) (hends : req.Ends calm 1 fs) :
    Handled fs (turned req fs) (req.run calm 1 fs) := ⟨hfits, handles_run calm_calm hends⟩

/-- Users whose names have no `/` are the same or apart. -/
theorem HandledApart.of_noSlash {u v : Bytes} {req : Req} {fs fs' : FS}
    (h : Handled fs (turned req fs) fs')
    (hu : slash ∉ u) (hv : slash ∉ v) (huser : req.user = some v) :
    HandledApart u fs (turned req fs) fs' := by
  refine ⟨h, fun w hw => ?_⟩
  obtain rfl := Option.some.inj (huser.symm.trans hw)
  by_cases heq : v = u
  · exact Or.inl heq
  · exact Or.inr (unrelated_of_noSlash _ hv hu heq)

/-- The count behind one `SEND`. -/
theorem run_countsIds_send : CountsIds (ascii "b")
    [turned (.send (ascii "a") (ascii "b") (ascii "hi")) registeredAB] pendingAB := by
  have hA := handled_turned (.register (ascii "a")) emptyDb (by decide)
    (by decide +kernel)
  have hB := handled_turned (.register (ascii "b")) registeredA (by decide)
    (by decide +kernel)
  have hsend := handled_turned (.send (ascii "a") (ascii "b") (ascii "hi")) registeredAB
    (by decide) (by decide +kernel)
  refine run_countsIds (by decide) emptyDb_fresh
    (Run.single (HandledApart.of_noSlash hA (by decide) (by decide) rfl))
    (HandledApart.of_noSlash hB (by decide) (by decide) rfl) (by decide +kernel)
    (Run.single (HandledApart.of_noSlash hsend (by decide) (by decide) rfl)) fun step hstep => ?_
  rw [List.mem_singleton.mp hstep]
  exact fun hun => absurd hun.1 (by decide)

/-- **Another name counts.**  `SEND` to `./b` moves the counter of `b`, who has been sent
nothing. -/
theorem not_run_countsIds :
    ¬ ∀ (u : Bytes) (fs₀ fs₁ fs₂ fs : FS) (H₀ H : List Turned) (t : List srvE.Event),
      slash ∉ u →
      fs₀.Fresh → Run Handled fs₀ H₀ fs₁ → Handled fs₁ (.register u, t) fs₂ →
        Creates t = true →
      Run Handled fs₂ H fs → (∀ step ∈ H, ¬ Unregisters u step) → CountsIds u H fs := by
  intro h
  have hA := handled_turned (.register (ascii "a")) emptyDb (by decide)
    (by decide +kernel)
  have hB := handled_turned (.register (ascii "b")) registeredA (by decide)
    (by decide +kernel)
  have hsend := handled_turned (.send (ascii "a") (ascii "./b") (ascii "hi")) registeredAB
    (by decide) (by decide +kernel)
  have hcounts := h (ascii "b") emptyDb registeredA registeredAB _ _ _ _ (by decide) emptyDb_fresh
    (Run.single hA) hB (by decide +kernel) (Run.single hsend) fun step hstep => by
      rw [List.mem_singleton.mp hstep]
      exact fun hun => absurd hun.1 (by decide)
  obtain ⟨ud, hud, hcount⟩ := hcounts.record
  have hfits : ∀ ud, Entry.Fits ⟨ascii "b", .user ud⟩ := fits_user (by decide)
  have hstored : ((Req.send (ascii "a") (ascii "./b") (ascii "hi")).run calm 1 registeredAB).content
      (userdataPath (ascii "b")) = Entry.image ⟨ascii "b", .user ⟨0, 0, 0, 1⟩⟩ := by
        decide +kernel
  have hsame := image_inj (hfits _) (hfits _) (hstored.symm.trans hud)
  obtain rfl : (⟨0, 0, 0, 1⟩ : Userdata) = ud := by simpa using hsame
  have hnone :
      admitted (ascii "b") [turned (.send (ascii "a") (ascii "./b") (ascii "hi")) registeredAB] =
      [] := by
    have hother :
        admittedIn (ascii "b") (turned (.send (ascii "a") (ascii "./b") (ascii "hi"))
        registeredAB) =
        none := admittedIn_other (by decide)
    rw [admitted, List.filterMap_cons, hother, List.filterMap_nil]
  rw [hnone] at hcount
  exact absurd hcount (by decide)
