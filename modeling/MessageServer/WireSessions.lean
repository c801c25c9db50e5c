/-
# A request and the session of its user

What the names of a request are on the wire and in the database, what the service thread writes, and
what becomes of the session of the user.

* `UserName`: the names that the wire and the database carry as they are;
* `Reported`: the record of the user after a request, from the code that it is answered with.
-/
import MessageServer.Status
import MessageServer.RequestWire
import MessageServer.ConnectDecision

/-! ## Names on the wire -/

/-- A user name that the wire carries as it is, and that is one name in a directory. -/
def UserName (s : PyStr) : Prop := FieldValue s ∧ s ≠ [] ∧ s.length ≤ 255 ∧ '/' ∉ s

instance (s : PyStr) : Decidable (UserName s) := inferInstanceAs (Decidable (_ ∧ _))

/-- A character below 128 is its own byte. -/
theorem toNat_asciiByte {c : Char} (h : c.toNat < 128) : c.toNat.toUInt8.toNat = c.toNat := by
  rw [Nat.toUInt8, UInt8.toNat_ofNat', Nat.mod_eq_of_lt (by omega)]

/-- A text in ASCII is read back from its bytes. -/
theorem asciiStr_asciiBytes {s : PyStr} (h : IsAscii s) : asciiStr (asciiBytes s) = s := by
  rw [asciiStr, asciiBytes, List.map_map]
  conv_rhs => rw [← List.map_id s]
  refine List.map_congr_left fun c hc => ?_
  show Char.ofNat c.toNat.toUInt8.toNat = c
  rw [toNat_asciiByte (h c hc), Char.ofNat_toNat]

/-- Texts in ASCII are told apart by their bytes. -/
theorem asciiBytes_inj {s s' : PyStr} (h : IsAscii s) (h' : IsAscii s')
    (heq : asciiBytes s = asciiBytes s') :
    s = s' := by
  rw [← asciiStr_asciiBytes h, heq, asciiStr_asciiBytes h']

/-- A user name is in ASCII. -/
theorem UserName.isAscii {s : PyStr} (h : UserName s) : IsAscii s := h.1.isAscii

/-- A user name is received as it is. -/
theorem UserName.received {s : PyStr} (h : UserName s) :
    received255 (asciiBytes s) = asciiBytes s :=
  received255_of_length h.2.2.1

/-- A user name has no `/`. -/
theorem UserName.noSlash {s : PyStr} (h : UserName s) : slash ∉ asciiBytes s := by
  intro hmem
  obtain ⟨c, hc, hslash⟩ := List.mem_map.mp hmem
  have hnat : c.toNat = '/'.toNat := by
    rw [← toNat_asciiByte (h.isAscii c hc), hslash]
    rfl
  exact h.2.2.2 ((Char.toNat_inj.mp hnat) ▸ hc)

/-- A user name fits the array of a name. -/
theorem UserName.fits {s : PyStr} (h : UserName s) : FitsBuf maxStrSize (asciiBytes s) := by
  have hlen := h.2.2.1
  refine ⟨h.received ▸ h.1.isLine.noNul, ?_⟩
  rw [asciiBytes, List.length_map]
  exact lt_of_le_of_lt hlen (by decide)

/-- A port is written with digits. -/
theorem digit_of_port {port : ℕ} {c : Char} (h : c ∈ (toString port).toList) :
    48 ≤ c.toNat ∧ c.toNat ≤ 57 := by
  have hlist : (toString port).toList = Nat.toDigits 10 port := Nat.toList_repr
  rw [hlist] at h
  have hdigit := Nat.isDigit_of_mem_toDigits (by omega) (by omega) h
  simp only [Char.isDigit, Bool.and_eq_true, decide_eq_true_eq] at hdigit
  exact ⟨UInt32.le_iff_toNat_le.mp hdigit.1, UInt32.le_iff_toNat_le.mp hdigit.2⟩

/-- A port as the client writes it. -/
theorem inRange_port {port : ℕ} (hpos : 0 < port) (hsmall : port < 65536) :
    InRange (asciiBytes (toString port).toList) ∧
      digitsValue (asciiBytes (toString port).toList) = port := by
  have hvalue : digitsValue (asciiBytes (toString port).toList) = port := by
    have hlist : (toString port).toList = Nat.toDigits 10 port := Nat.toList_repr
    conv_rhs => rw [← Nat.ofDigitChars_ten_toDigits (n := port), ← hlist]
    rw [digitsValue, asciiBytes, List.foldl_map, Nat.ofDigitChars_eq_foldl]
    refine List.foldl_ext _ _ 0 fun n c hc => ?_
    have hdigit := digit_of_port hc
    rw [toNat_asciiByte (by omega)]
    rfl
  refine ⟨⟨fun hnil => ?_, fun b hb => ?_, by omega, by omega⟩, hvalue⟩
  · rw [hnil] at hvalue
    exact absurd hvalue (by simp [digitsValue]; omega)
  · obtain ⟨c, hc, rfl⟩ := List.mem_map.mp hb
    have hdigit := digit_of_port hc
    have hbyte := toNat_asciiByte (c := c) (by omega)
    simp only [isDigit, Bool.and_eq_true, decide_eq_true_eq]
    constructor
    · refine UInt8.le_iff_toNat_le.mpr ?_
      rw [hbyte]
      exact hdigit.1
    · refine UInt8.le_iff_toNat_le.mpr ?_
      rw [hbyte]
      exact hdigit.2

/-! ## What the thread writes -/

/-- What an event writes to the client. -/
def sentBy : srvE.Event → Bytes
  | ⟨.write .client bytes, ok⟩ => bif ok then bytes else []
  | _ => []

/-- What a service thread writes to its client. -/
def sentToClient (t : List srvE.Event) : Bytes := t.flatMap sentBy

/-- What an act writes to the client. -/
def Act.reply : Act → Bytes
  | .replied bytes => bytes
  | _ => []

/-- What acts write to the client. -/
def repliesOf (l : List Act) : Bytes := l.flatMap Act.reply

/-- Everything that the thread writes is written. -/
def Written (t : List srvE.Event) : Prop :=
  ∀ sock bytes, (⟨.write sock bytes, false⟩ : srvE.Event) ∉ t

/-- Every message that is sent gets through. -/
def AllSent (l : List Act) : Prop := ∀ m result, Act.sent m result ∈ l → result = 0

@[simp] theorem repliesOf_append (l l' : List Act) :
    repliesOf (l ++ l') = repliesOf l ++ repliesOf l' :=
  List.flatMap_append

@[simp] theorem repliesOf_cons (act : Act) (l : List Act) :
    repliesOf (act :: l) = act.reply ++ repliesOf l := rfl

@[simp] theorem repliesOf_nil : repliesOf [] = [] := rfl

/-- What is told to a listener is no reply. -/
@[simp] theorem repliesOf_tolds (l : List Bytes) : repliesOf (tolds l) = [] := by
  rw [repliesOf, tolds, List.flatMap_map]
  exact List.flatMap_eq_nil_iff.mpr fun _ _ => rfl

/-- What one more event sends to the client. -/
theorem sentToClient_cons (e : srvE.Event) (t : List srvE.Event) :
    sentToClient (e :: t) = sentBy e ++ sentToClient t := rfl

/-- An event that writes what it has to write. -/
theorem sentBy_eq {e : srvE.Event}
    (h : ∀ sock bytes, (⟨.write sock bytes, false⟩ : srvE.Event) ≠ e) :
    sentBy e = ((actOf e).map Act.reply).getD [] := by
  obtain ⟨o, x⟩ := e
  cases o with
  | write sock bytes =>
      cases x with
      | false => exact absurd rfl (h sock bytes)
      | true => cases sock <;> rfl
  | db call =>
      cases call with
      | ioOpUsrEnt e mode => cases mode <;> rfl
      | _ => rfl
  | note n => cases n <;> rfl
  | _ => rfl

/-- What goes to the client are the replies, when all is written. -/
theorem sentToClient_eq {t : List srvE.Event} (h : Written t) :
    sentToClient t = repliesOf (acts t) := by
  induction t with
  | nil => rfl
  | cons e t ih =>
      have hrest := ih fun sock bytes hmem => h sock bytes (List.mem_cons_of_mem _ hmem)
      have hfirst : sentBy e = ((actOf e).map Act.reply).getD [] :=
        sentBy_eq fun sock bytes heq => h sock bytes (heq ▸ List.mem_cons_self)
      rw [sentToClient_cons, hfirst, hrest]
      show _ = repliesOf (List.filterMap actOf (e :: t))
      rw [List.filterMap_cons]
      cases actOf e with
      | none => rfl
      | some act => rfl

/-! ## A request and the session of its user -/

section Sessions

variable {u : Bytes} {a a' : Account} {req : Req} {l : List Act}

theorem AllSent.of_append_left {l' : List Act} (h : AllSent (l ++ l')) : AllSent l :=
  fun m result hmem => h m result (List.mem_append_left _ hmem)

theorem AllSent.of_append_right {l' : List Act} (h : AllSent (l ++ l')) : AllSent l' :=
  fun m result hmem => h m result (List.mem_append_right _ hmem)

theorem AllSent.of_cons {act : Act} (h : AllSent (act :: l)) : AllSent l :=
  fun m result hmem => h m result (List.mem_cons_of_mem _ hmem)

/-- A drain in which everything gets through leaves the record alone, and writes nothing to the
client. -/
theorem Drained.session (h : Drained a l a') (hsent : AllSent l) :
    a'.record = a.record ∧ repliesOf l = [] := by
  induction h with
  | stop _ => exact ⟨rfl, rfl⟩
  | sent m ok ack result hm hok hack _ ih =>
      obtain ⟨hrecord, hreplies⟩ :=
        ih hsent.of_append_right.of_cons.of_cons.of_append_right.of_cons
      exact ⟨hrecord, by simp [hreplies, Act.reply]⟩
  | failed m wire result hm hwire hresult hud =>
      exact absurd (hsent m result (List.mem_append_right _ List.mem_cons_self)) hresult

/-- A drain in which all gets through ends no session and replies nothing. -/
theorem Draining.session (h : Draining a l a') (hsent : AllSent l) :
    a'.record = a.record ∧ repliesOf l = [] := by
  cases h with
  | unknown junk hnone => exact ⟨rfl, rfl⟩
  | known junk hsome hdrained =>
      obtain ⟨hrecord, hreplies⟩ := hdrained.session hsent.of_cons
      exact ⟨hrecord, by simp [hreplies, Act.reply]⟩

/-- What a request makes of the record of its user, and the byte that the client reads first, when
everything gets through and new users are recorded as disconnected. -/
inductive Reported (a : Account) : Req → UInt8 → Option Userdata → Prop
  | opened {v : Bytes} (ud : Userdata) (hnone : a.record = none) (hstatus : ud.status = statusDcn) :
      Reported a (.register v) srvSuccess (some ud)
  | notOpened {v : Bytes} (code : UInt8) : Reported a (.register v) code a.record
  | closed {v : Bytes} (hsome : a.record ≠ none) : Reported a (.unregister v) srvSuccess none
  | notClosed {v : Bytes} (code : UInt8) (hcode : code ≠ srvSuccess) (hnone : a.record = none) :
      Reported a (.unregister v) code none
  | connected {v port : Bytes} (ud : Userdata) (ip : UInt32) (p : ℤ) (hud : a.record = some ud)
      (hstatus : ud.status ≠ statusCn) (hport : strToNum port .int = .ok p) :
      Reported a (.connect v port) srvSuccess (some (ud.connected ip p))
  | notConnected {v port : Bytes} (code : UInt8) (hcode : code ≠ srvSuccess) :
      Reported a (.connect v port) code a.record
  | disconnected {v : Bytes} (ud : Userdata) (hud : a.record = some ud)
      (hstatus : ud.status ≠ statusDcn) :
      Reported a (.disconnect v) srvSuccess (some ud.left)
  | notDisconnected {v : Bytes} (code : UInt8) (hcode : code ≠ srvSuccess)
      (h : ∀ ud, a.record = some ud → ud.status = statusDcn) :
      Reported a (.disconnect v) code a.record
  | rejected {s v c : Bytes} (code : UInt8) : Reported a (.send s v c) code a.record
  | accepted {s v c : Bytes} (ud : Userdata) (code : UInt8) (hud : a.record = some ud) :
      Reported a (.send s v c) code (some ud.next)

/-- The end of `SEND` replies the code first. -/
theorem Finishing.replies {ud : Userdata} {id : UInt32} {code : UInt8}
    (h : Finishing ud id code l) :
    ∃ rest, repliesOf l = code :: rest := by
  cases h with
  | bare l hl hstatus => exact ⟨_, rfl⟩
  | acked l hl junk ack result hstatus hack => exact ⟨_, rfl⟩

/-- **What a request reports.** -/
theorem Served.reported (h : Served u a req l a') (hsent : AllSent l)
    (hclean : ∀ v junk, req = .register v → Act.locals junk ∈ l →
        junk.user.status = statusDcn) :
    ∃ code rest, repliesOf l = code :: rest ∧ Reported a req code a'.record := by
  cases h with
  | registered junk hnone =>
      exact ⟨_, _, rfl, Reported.opened _ hnone (hclean u junk rfl List.mem_cons_self)⟩
  | unregisterable junk hnone => exact ⟨_, _, rfl, Reported.notOpened _⟩
  | alreadyRegistered junk hsome => exact ⟨_, _, rfl, Reported.notOpened _⟩
  | unregistered result hresult hsome => exact ⟨_, _, rfl, Reported.closed hsome⟩
  | notRegistered code hcode hnone =>
      refine ⟨_, _, rfl, ?_⟩
      rw [hnone]
      exact Reported.notClosed code hcode hnone
  | @connected _ l l' a₁ _ junk hconnecting hdraining =>
      -- the drain ends no session when all its messages get through
      obtain ⟨hrecord, hreplies⟩ := hdraining.session hsent.of_cons.of_append_right
      rw [hrecord]
      cases hconnecting with
      | unknown code hnone hcode => exact ⟨code, _, rfl, Reported.notConnected code hcode⟩
      | refused ud code hud hcode => exact ⟨code, _, rfl, Reported.notConnected code hcode⟩
      | accepted ud ip p hud hstatus hport =>
          exact ⟨srvSuccess, _, rfl, Reported.connected ud ip p hud hstatus hport⟩
  | disconnected junk ud hud hstatus => exact ⟨_, _, rfl, Reported.disconnected ud hud hstatus⟩
  | notConnected junk code hcode hdcn =>
      exact ⟨_, _, rfl, Reported.notDisconnected code hcode hdcn⟩
  | rejected junk code hcode => exact ⟨_, _, rfl, Reported.rejected code⟩
  | @accepted s c junk ud ud' code l l' l'' a₁ _ hud hpassing hshelving hfinishing =>
      obtain ⟨rest, hrest⟩ := hfinishing.replies
      have hsent' : AllSent l := hsent.of_cons.of_cons.of_append_left
      -- the transmission gets through, so it changes no record
      have hpass : a₁.record = some ud.next ∧ repliesOf l = [] := by
        cases hpassing with
        | idle hstatus => exact ⟨rfl, rfl⟩
        | sent hstatus => exact ⟨rfl, by simp [Act.reply]⟩
        | failed wire result hstatus hwire hresult =>
            exact absurd (hsent' _ result (List.mem_append_right _ List.mem_cons_self)) hresult
      have hshelf : a'.record = a₁.record ∧ repliesOf l' = [] := by
        cases hshelving with
        | skipped _ _ => exact ⟨rfl, rfl⟩
        | stored _ _ => exact ⟨rfl, rfl⟩
        | taken _ _ => exact ⟨rfl, rfl⟩
      refine ⟨code, rest, ?_, ?_⟩
      · simp [hpass.2, hshelf.2, hrest, Act.reply]
      · rw [hshelf.1, hpass.1]
        exact Reported.accepted ud code hud

end Sessions
