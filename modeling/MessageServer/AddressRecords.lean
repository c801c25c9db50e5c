/-
# The address in a record

A connection of the server to a listener is made with the address in the record that the thread has
read last.  The record of a user holds an address for as long as it is there, also when the user is
not connected.

* `calls`: the addresses at which a thread connects for a user;
* `addresses`: the address of a user, from what the requests have been answered;
* `AddressStep`: the address in the record of a user, as the steps of a thread use and change it;
* `exec_address`: the execution of a request on the database is one on the address.
-/
import MessageServer.DeliveryOrder
import MessageServer.FailedConnect

/-! ## Calls -/

/-- The address of a listener. -/
abbrev Address : Type := UInt32 × UInt16

/-- The address in a record. -/
def Userdata.address (ud : Userdata) : Address := (ud.ip, ud.port)

/-- Whose record a thread has read last. -/
def reader (r : Option Bytes) : srvE.Event → Option Bytes
  | ⟨.db (.ioOpUsrEnt e .read), _⟩ => some e.username
  | _ => r

/-- The address at which a step connects for `u`, when the record of `r` has been read last. -/
def callOf (u : Bytes) (r : Option Bytes) : srvE.Event → Option Address
  | ⟨.connect ip port, _⟩ => if r = some u then some (ip, port) else none
  | _ => none

/-- The addresses at which a thread connects for `u`. -/
def calls (u : Bytes) (r : Option Bytes) : List srvE.Event → List Address
  | [] => []
  | ev :: t => (callOf u r ev).toList ++ calls u (reader r ev) t

section Calls

variable {u : Bytes} {r : Option Bytes} {t t' : List srvE.Event} {ev : srvE.Event}
  {s s' s'' : Option Address}
  {ad : Address}

theorem calls_append : calls u r (t ++ t') = calls u r t ++ calls u (t.foldl reader r) t' := by
  induction t generalizing r with
  | nil => rfl
  | cons ev t ih => rw [List.cons_append, calls, calls, ih, List.append_assoc, List.foldl_cons]

/-- The steps that make no connection. -/
def MakesNone : SrvOp → Prop
  | .connect _ _ => False
  | _ => True

theorem callOf_of_makesNone (h : MakesNone ev.1) : callOf u r ev = none := by
  obtain ⟨o, x⟩ := ev
  cases o with
  | connect ip port => exact h.elim
  | _ => rfl

theorem calls_cons (h : MakesNone ev.1) : calls u r (ev :: t) = calls u (reader r ev) t := by
  rw [calls, callOf_of_makesNone h]
  rfl

theorem calls_of_makesNone (h : ∀ ev ∈ t, MakesNone ev.1) : calls u r t = [] := by
  induction t generalizing r with
  | nil => rfl
  | cons ev t ih =>
      rw [calls_cons (h ev List.mem_cons_self)]
      exact ih fun ev' hmem => h ev' (List.mem_cons_of_mem _ hmem)

/-- On a connection to a listener no record is read, so that the calls are for the same user. -/
theorem mem_calls_of_tells {e : Entry} {l : List Bytes} (h : Tells (Contacts e) t l)
    (hmem : ad ∈ calls u r t) :
    r = some u ∧ ad = e.user.address := by
  obtain ⟨hsteps, -⟩ := h
  induction t generalizing r with
  | nil => cases hmem
  | cons ev t ih =>
      obtain ⟨o, x⟩ := ev
      have ho : Contacts e o := hsteps _ List.mem_cons_self
      have hkeep : reader r ⟨o, x⟩ = r := by
        cases o with
        | db call => exact ho.elim
        | _ => rfl
      rw [calls, hkeep, List.mem_append] at hmem
      rcases hmem with hmem | hmem
      · cases o with
        | connect ip port =>
            obtain ⟨rfl, rfl⟩ := ho
            by_cases hr : r = some u
            · rw [callOf, if_pos hr] at hmem
              exact ⟨hr, List.mem_singleton.mp hmem⟩
            · rw [callOf, if_neg hr] at hmem
              cases hmem
        | _ => cases hmem
      · exact ih hmem fun ev hev => hsteps ev (List.mem_cons_of_mem _ hev)

end Calls

/-! ## Addresses from the answers -/

/-- The addresses that a `CONNECT` with this port may give: `getpeername` has given the other
half. -/
def heard (port : Bytes) (t : List srvE.Event) : List Address :=
  t.filterMap fun
    | ⟨.getpeername, some ip⟩ => (strToNum port .int).toOption.map fun p =>
        (ip, (p % 65536).toNat.toUInt16)
    | _ => none

/-- The addresses in the local records of a thread, which nothing has initialised. -/
def leftover (t : List srvE.Event) : List Address :=
  t.filterMap fun
    | ⟨.uninit, junk⟩ => some junk.user.address
    | _ => none

/-- The address of its user after a request that is answered with success, when it has been one of
`ads`: a `CONNECT` gives one, a `DISCONNECT` that of nobody, and a `REGISTER` the one that happens
to be in its local record, when it has opened the account. -/
def Req.gives (t : List srvE.Event) (ads : List Address) : Req → List Address
  | .connect _ port => heard port t
  | .disconnect _ => [(0, 0)]
  | .register _ => leftover t ++ ads
  | .unregister _ => []
  | _ => ads

/-- The address of `u` after a request, when it has been one of `ads`. -/
def grants (u : Bytes) (ads : List Address) (step : Turned) : List Address :=
  if step.1.user = some u ∧ reply step.2 = some srvSuccess then step.1.gives step.2 ads else ads

/-- The addresses that `u` may have after a history. -/
def addresses (u : Bytes) (H : List Turned) : List Address := H.foldl (grants u) []

section Grants

variable {u : Bytes} {ads : List Address} {req : Req} {t : List srvE.Event} {H : List Turned}
  {step : Turned}
  {ad : Address}

theorem addresses_snoc : addresses u (H ++ [step]) = grants u (addresses u H) step :=
  List.foldl_concat _ _ _ _

theorem grants_other (h : req.user ≠ some u) : grants u ads (req, t) = ads :=
  if_neg fun hand => h hand.1

theorem grants_refused (h : reply t ≠ some srvSuccess) : grants u ads (req, t) = ads :=
  if_neg fun hand => h hand.2

theorem grants_send (s v c : Bytes) : grants u ads (.send s v c, t) = ads := by
  unfold grants
  split <;> rfl

/-- What `getpeername` has given. -/
theorem mem_heard {port : Bytes} {ip : UInt32} {p : ℤ}
    (hmem : (⟨.getpeername, some ip⟩ : srvE.Event) ∈ t)
    (hport : strToNum port .int = .ok p) : (ip, (p % 65536).toNat.toUInt16) ∈ heard port t := by
  refine List.mem_filterMap.mpr ⟨_, hmem, ?_⟩
  show (strToNum port .int).toOption.map _ = _
  rw [hport]
  rfl

theorem mem_leftover {junk : Junk} (hmem : (⟨.uninit, junk⟩ : srvE.Event) ∈ t) :
    junk.user.address ∈ leftover t :=
  List.mem_filterMap.mpr ⟨_, hmem, rfl⟩

end Grants

/-! ## The address in a record -/

/-- The address that the server has for the user. -/
def Account.address (a : Account) : Option Address := a.record.map Userdata.address

/-- What a step of a thread says of the address in the record of `u`, and what it makes of it.  Only
a thread that works for `u` changes it, and any call may fail. -/
def AddressStep (u : Bytes) (own : Prop) (s : Option Address) :
    (o : SrvOp) → o.Ans → Option Address → Prop
  | .db (.ioOpUsrEnt e .read), x, s' => s' = s ∧ ∀ v j, e = ⟨v, .user j⟩ →
      (∃ w ud, x.2 = ⟨w, .user ud⟩) ∧
      (v = u → (∃ ud, s = some ud.address ∧ x = (dbmsSuccess, ⟨u, .user ud⟩)) ∨
        (x.1 < 0 ∧ x.2 = e))
  | .db (.ioOpUsrEnt e .modify), x, s' => (¬ own → s' = s) ∧
      (own → (x.1 = dbmsSuccess ∧ s' = some e.user.address) ∨
        (x.1 < 0 ∧ (s' = s ∨ s' = none)))
  | .db (.creatUsrTbl e), x, s' => (¬ own → s' = s) ∧
      (own → s' = s ∨ s' = none ∨ ((show ℤ from x) ≠ dbmsErrExists ∧
        s' = some e.user.address))
  | .db (.delUsrTbl _), x, s' =>
      (¬ own → s' = s) ∧ (own → s' = none ∨ (s' = s ∧ (show ℤ from x) < 0))
  | _, _, s' => s' = s

instance (u : Bytes) (own : Prop) : Modest (AddressStep u own) where
  inert := by
    intro s o x s' hdb _ hR
    cases o with
    | db call => exact absurd rfl (hdb call)
    | _ => exact hR
  asks := by
    intro s o x s' hasks hR
    cases o with
    | db call =>
        cases call with
        | userExists v => exact hR
        | ioOpUsrEnt e mode =>
            cases mode with
            | read => exact hR.1
            | _ => exact hasks.elim
        | _ => exact hasks.elim
    | _ => exact hasks.elim

/-! ### One call on the address -/

section Refinement

variable {u : Bytes} {a a' : Account} {fs fs' : FS} {req : Req} {t : List srvE.Event}

/-- A step on the account is one on the address. -/
theorem AccountCall.address {call : DbCall} {x : call.Ans} (h : AccountCall False u a call x a')
    (hs : Schema fs)
    (hstep : DbStep untorn fs call x fs') :
    AddressStep u True a.address (.db call) x a'.address := by
  cases call with
  | userExists v => exact congrArg Account.address h.1
  | getPendMsg e => exact congrArg Account.address h.1
  | creatUsrTbl e =>
      obtain ⟨ud, rfl, hopens⟩ := h
      refine ⟨fun hnot => absurd trivial hnot, fun _ => ?_⟩
      rcases hopens with ⟨-, rfl, -⟩ | ⟨hx, -, rfl⟩ | ⟨hx, hcases, -⟩
      · exact Or.inl rfl
      · exact Or.inr (Or.inr ⟨fun heq => absurd (hx.symm.trans heq) (by decide), rfl⟩)
      · rcases hcases with rfl | ⟨-, rfl⟩ | ⟨-, rfl⟩
        · exact Or.inl rfl
        · exact Or.inr (Or.inr ⟨fun heq => absurd (hx.symm.trans heq) (by decide), rfl⟩)
        · exact Or.inr (Or.inl rfl)
  | delUsrTbl v =>
      obtain ⟨-, hcloses⟩ := h
      refine ⟨fun hnot => absurd trivial hnot, fun _ => ?_⟩
      rcases hcloses with ⟨-, rfl⟩ | ⟨hx, hpart, -⟩
      · exact Or.inl rfl
      · rcases hpart.record with hsame | hnone
        · exact Or.inr ⟨congrArg (Option.map Userdata.address) hsame, hx⟩
        · exact Or.inl (congrArg (Option.map Userdata.address) hnone)
  | ioOpUsrEnt e mode =>
      cases mode with
      | read =>
          obtain ⟨rfl, hreads⟩ := h
          refine ⟨rfl, ?_⟩
          rintro v j rfl
          refine ⟨exists_user_of_read hs hstep, ?_⟩
          rintro rfl
          rcases hreads j rfl with ⟨ud, hud, hx⟩ | ⟨hneg, hsame, -⟩
          · exact Or.inl ⟨ud, congrArg (Option.map Userdata.address) hud, hx⟩
          · exact Or.inr ⟨hneg, hsame⟩
      | modify =>
          obtain ⟨ud, rfl, hrewrites⟩ := h
          refine ⟨fun hnot => absurd trivial hnot, fun _ => ?_⟩
          rcases hrewrites with ⟨hx, rfl, -⟩ | ⟨hx, hcases, -⟩
          · exact Or.inl ⟨hx, rfl⟩
          · rcases hcases with rfl | rfl
            · exact Or.inr ⟨hx, Or.inl rfl⟩
            · exact Or.inr ⟨hx, Or.inr rfl⟩
      | create =>
          obtain ⟨m, -, hstores⟩ := h
          rcases hstores with ⟨-, -, rfl⟩ | ⟨-, rfl, -⟩ <;> rfl
      | delete =>
          obtain ⟨m, -, hdrops⟩ := h
          rcases hdrops with ⟨-, rfl⟩ | ⟨-, rfl, -⟩ <;> rfl
      | overwrite => exact congrArg Account.address h

/-- A step of a thread that works for `u`. -/
theorem address_own {w w' : SrvWorld} {o : SrvOp} {x : o.Ans} (hkept : w.fs.Keeps False u a)
    (hu : slash ∉ u)
    (hfits : FitsBuf maxStrSize u) (hallowed : (ownNames u).Allowed o)
    (h : SrvStep untorn w o x w') :
    (ownNames u).Possible o x ∧ ∃ a', AddressStep u True a.address o x a'.address ∧
      w'.fs.Keeps False u a' := by
  cases o with
  | db call =>
      obtain ⟨hstep, -⟩ := h
      have htidy : DbStep (tidy False) w.fs call x w'.fs := by
        obtain ⟨t, hexec, hun⟩ := hstep
        exact ⟨t, hexec, hun, False.elim⟩
      obtain ⟨a', hcall, hkept'⟩ := keeps_call hkept hu hfits hallowed htidy
      exact ⟨hcall.possible hkept.schema hfits hallowed htidy, a',
        hcall.address hkept.schema hstep, hkept'⟩
  | recv buf =>
      refine ⟨trivial, a, rfl, ?_⟩
      rw [h.1]
      exact hkept
  | _ =>
      obtain rfl : w' = w := h
      exact ⟨trivial, a, rfl, hkept⟩

/-- A step of a thread that works for another user. -/
theorem address_other {w w' : SrvWorld} {v : Bytes} {o : SrvOp} {x : o.Ans}
    (hkept : w.fs.Keeps False u a)
    (hu : slash ∉ u) (hfits : FitsBuf maxStrSize u) (hapart : Apart w.fs.cwd v u)
    (hallowed : (tableNames w.fs.cwd (w.fs.table v)).Allowed o) (h : SrvStep untorn w o x w') :
    (tableNames w.fs.cwd (w.fs.table v)).Possible o x ∧ w'.fs.cwd = w.fs.cwd ∧
      AddressStep u False a.address o x a.address ∧ ∃ a', a'.address = a.address ∧
        w'.fs.Keeps False u a' := by
  cases o with
  | db call =>
      obtain ⟨hstep, -⟩ := h
      obtain ⟨htouches, hposs⟩ := dbStep_confined hkept.schema hallowed hstep
      have hkept' : w'.fs.Keeps False u { a with stray := true } :=
        htouches.keeps hapart hkept fun hs => absurd hs (by simp)
      refine ⟨hposs, htouches.cwd, ?_, { a with stray := true }, rfl, hkept'⟩
      cases call with
      | ioOpUsrEnt e mode =>
          cases mode with
          | read =>
              refine ⟨rfl, ?_⟩
              rintro v' j rfl
              refine ⟨exists_user_of_read hkept.schema hstep, ?_⟩
              rintro rfl
              obtain ⟨t, hexec, hun⟩ := hstep
              rcases (hkept.reads hu hfits hexec hun False.elim).2 with ⟨ud, hud, hx⟩ |
                ⟨hneg, hsame, -⟩
              · exact Or.inl ⟨ud, congrArg (Option.map Userdata.address) hud, hx⟩
              · exact Or.inr ⟨hneg, hsame⟩
          | modify => exact ⟨fun _ => rfl, False.elim⟩
          | _ => rfl
      | creatUsrTbl e => exact ⟨fun _ => rfl, False.elim⟩
      | delUsrTbl v' => exact ⟨fun _ => rfl, False.elim⟩
      | _ => rfl
  | recv buf =>
      refine ⟨trivial, by rw [h.1], rfl, a, rfl, ?_⟩
      rw [h.1]
      exact hkept
  | _ =>
      obtain rfl : w' = w := h
      exact ⟨trivial, rfl, rfl, a, rfl, hkept⟩

/-! ### Executions on the address -/

/-- **A request runs on the address of `u`**, whosoever it is for. -/
theorem exec_address (hkept : fs.Keeps False u a) (hu : slash ∉ u) (hfits : FitsBuf maxStrSize u)
    (hreq : req.Fits)
    (hothers : ∀ v, req.user = some v → v = u ∨ Apart fs.cwd v u)
    (h : Handles untorn fs req t fs') :
    ∃ fuel a', Exec (AddressStep u (req.user = some u)) (req.body fuel) a.address t
      (some ()) a'.address ∧
      fs'.Keeps False u a' := by
  obtain ⟨fuel, hexec⟩ := h
  cases huser : req.user with
  | none =>
      cases req with
      | unknown =>
          obtain ⟨rfl, -, hw⟩ := exec_ret_iff.mp hexec
          obtain rfl : fs' = fs := congrArg SrvWorld.fs hw
          exact ⟨fuel, a, Exec.ret _ _, hkept⟩
      | _ => cases huser
  | some v =>
      by_cases hown : v = u
      · subst hown
        have hbody :=
          body_confined (C := ownNames v) fuel hreq fun w hw =>
            Option.some.inj (hw.symm.trans huser)
        have hstep : ∀ (w : SrvWorld) (s : Option Address) (ph : Unit) (o : SrvOp) (x : o.Ans)
            (w' : SrvWorld),
            (∃ a : Account, s = a.address ∧ w.fs.Keeps False v a) →
              (confined (ownNames v)).allowed ph o →
            SrvStep untorn w o x w' → (confined (ownNames v)).possible ph o x ∧
              ∃ s', AddressStep v (some v = some v) s o x s' ∧ ∃ a : Account,
                s' = a.address ∧ w'.fs.Keeps False v a := by
          rintro w s ⟨⟩ o x w' ⟨a, rfl, hkept⟩ hallowed hR
          obtain ⟨hposs, a', hstep, hkept'⟩ := address_own hkept hu hfits hallowed hR
          rw [eq_self]
          exact ⟨hposs, a'.address, hstep, a', rfl, hkept'⟩
        obtain ⟨s', -, hrun, ⟨a', rfl, hkept'⟩, -⟩ :=
          hexec.simulate_obeys hstep hbody ⟨a, rfl, hkept⟩
        exact ⟨fuel, a', hrun, hkept'⟩
      · have hapart : Apart fs.cwd v u := (hothers v huser).resolve_left hown
        have hbody := body_confined (C := tableNames fs.cwd (fs.table v)) fuel hreq fun w hw => by
          obtain rfl := Option.some.inj (hw.symm.trans huser)
          exact ⟨(hreq.user huser).mono (by decide), rfl⟩
        have hstep : ∀ (w : SrvWorld) (s : Option Address) (ph : Unit) (o : SrvOp) (x : o.Ans)
            (w' : SrvWorld),
            (w.fs.cwd = fs.cwd ∧ ∃ a : Account, s = a.address ∧ w.fs.Keeps False u a) →
            (confined (tableNames fs.cwd (fs.table v))).allowed ph o → SrvStep untorn w o x w' →
            (confined (tableNames fs.cwd (fs.table v))).possible ph o x ∧
              ∃ s', AddressStep u (some v = some u) s o x s' ∧
                w'.fs.cwd = fs.cwd ∧ ∃ a : Account, s' = a.address ∧
                  w'.fs.Keeps False u a := by
          rintro w s ⟨⟩ o x w' ⟨hcwd, a, rfl, hkept⟩ hallowed hR
          have htable : w.fs.table v = fs.table v := by rw [FS.table, FS.table, hcwd]
          obtain ⟨hposs, hcwd', hstep, a', ha', hkept'⟩ := address_other (v := v) hkept hu hfits
            (by rwa [hcwd]) (by rw [hcwd, htable]; exact hallowed) hR
          rw [hcwd, htable] at hposs
          rw [show (some v = some u) = False from eq_false fun heq => hown (Option.some.inj heq)]
          exact ⟨hposs, a.address, hstep, hcwd'.trans hcwd, a', ha'.symm, hkept'⟩
        obtain ⟨s', -, hrun, ⟨-, a', rfl, hkept'⟩, -⟩ :=
          hexec.simulate_obeys hstep hbody ⟨rfl, a, rfl, hkept⟩
        exact ⟨fuel, a', hrun, hkept'⟩

end Refinement
