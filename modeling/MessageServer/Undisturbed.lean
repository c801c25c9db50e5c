/-
# Clients that do not disturb each other

Threads of one process show what they have received and send what their operations have set, as long
as no thread assigns an attribute that another one has assigned and has yet to read.

* `Own`, `own`: what a thread has assigned and received itself, and what it has to do then;
* `obeys_prog`: every thread does so, or has read what another one has assigned;
* `unmixed_of_undisturbed`: the threads together.
-/
import MessageServer.Attributes

namespace InProcess

/-! ## What a thread has of its own -/

/-- What a thread has assigned, received and begun. -/
structure Own where
  values : Attribute → Option PyVal
  received : List PyVal
  call : Option Call

/-- Nothing yet. -/
def Own.nothing : Own := ⟨fun _ => none, [], none⟩

/-- The same after an assignment. -/
def Own.assign (own : Own) (a : Attribute) (value : PyVal) : Own :=
  { own with values := Function.update own.values a (some value) }

@[simp] theorem Own.assign_self (own : Own) (a : Attribute) (value : PyVal) :
    (own.assign a value).values a = some value := Function.update_self _ _ _

theorem Own.assign_of_ne {own : Own} {a b : Attribute} {value : PyVal} (h : b ≠ a) :
    (own.assign a value).values b = own.values b := Function.update_of_ne h _ _

/-- The same after a string has been received. -/
def Own.receive (own : Own) (value : PyVal) : Own :=
  { own with received := own.received ++ [value] }

@[simp] theorem Own.receive_values (own : Own) (value : PyVal) :
    (own.receive value).values = own.values := rfl

/-- A read: the thread goes on with what is its own if it has read its own value. -/
def Own.read (own : Own) (a : Attribute) (value : PyVal) : Option Own :=
  if own.values a = some value then some own else none

/-- The same after one more step. -/
def Own.next (own : Own) : pyE.Event → Option Own
  | ⟨.get a, value⟩ => own.read a value
  | ⟨.assign a value, _⟩ => some (own.assign a value)
  | ev => some { own with received := receivedStep own.received ev, call := callStep own.call ev }

/-- What a thread has to show and to send; there is nothing to keep to once it has read what
another thread has assigned. -/
def owning : Discipline pyE (Option Own) where
  allowed
    | some own, .dispatch b => b.Shows own.received
    | some own, .send m bytes => Call.Sends own.call m bytes
    | _, _ => True
  possible _ _ _ := True
  next ph o x := ph.bind fun own => own.next ⟨o, x⟩

section Programs

variable {α : Type} {ph : Option Own} {Q : Option Own → α → Prop} {own : Own} {c : Call}

/-- A thread that has read something else may do anything. -/
theorem obeys_none (p : Py α) (hQ : ∀ a, Q none a) : p.Obeys owning Q none := by
  induction p with
  | ret a => exact hQ a
  | call o k ih => exact ⟨trivial, fun x _ => ih x⟩

/-- A read of what the thread has assigned. -/
theorem obeys_get {a : Attribute} {v : PyVal} {f : PyVal → Py α} (hv : own.values a = some v)
    (hnone : ∀ r, Q none r) (h : (f v).Obeys owning Q (some own)) :
    (get a >>= f).Obeys owning Q (some own) := by
  refine obeys_perform_bind.mpr ⟨trivial, fun (x : PyVal) _ => ?_⟩
  show (f x).Obeys owning Q (own.read a x)
  by_cases hx : v = x
  · rw [Own.read, if_pos (hv.trans (congrArg some hx)), ← hx]
    exact h
  · rw [Own.read, if_neg fun h' => hx (Option.some.inj (hv.symm.trans h'))]
    exact obeys_none _ hnone

/-- An assignment. -/
theorem obeys_assign {a : Attribute} {value : PyVal} {f : Unit → Py α}
    (h : (f ()).Obeys owning Q (some (own.assign a value))) :
    (assign a value >>= f).Obeys owning Q (some own) :=
  obeys_perform_bind.mpr ⟨trivial, fun _ _ => h⟩

/-! ## Requests -/

/-- The request is begun, and filled. -/
def Filled (call : Call) : Option Own → Prop
  | none => True
  | some own => own.call = some call ∧
      ∀ m value, call.sets m = some value → own.values (.request, m) = some value

/-- An attribute that is set is sent. -/
theorem obeys_sendMember {m : Member} {value : PyVal} (hsets : c.sets m = some value)
    (h : Filled c ph) : (sendMember m).Obeys owning (fun ph' _ => Filled c ph') ph := by
  cases ph with
  | none => exact obeys_none _ fun _ => trivial
  | some own =>
      rw [sendMember]
      refine obeys_get (h.2 m value hsets) (fun _ => trivial) ?_
      cases hencode : value.encode with
      | none => exact h
      | some bytes =>
          have hsends : Call.Sends own.call m bytes := by
            rw [Call.Sends, h.1, Option.bind_some, hsets]
            exact hencode
          refine obeys_perform_bind.mpr ⟨hsends, fun (ok : Bool) _ => ?_⟩
          cases ok with
          | false => exact h
          | true => exact obeys_perform_bind.mpr ⟨trivial, fun (ok : Bool) _ => h⟩

theorem obeys_sendMembers {ms : List Member} (hsets : ∀ m ∈ ms, c.sets m ≠ none)
    (h : Filled c ph) :
    (sendMembers ms).Obeys owning (fun ph' _ => Filled c ph') ph := by
  induction ms generalizing ph with
  | nil => exact h
  | cons m ms ih =>
      obtain ⟨value, hvalue⟩ := Option.ne_none_iff_exists'.mp (hsets m List.mem_cons_self)
      rw [sendMembers]
      refine obeys_bind.mpr ((obeys_sendMember hvalue h).mono fun ph' r h' => ?_)
      split
      · exact ih (fun m hm => hsets m (List.mem_cons_of_mem _ hm)) h'
      · exact h'

/-- **`send_header`** -/
theorem obeys_sendHeader (hop : c.sets .opCode ≠ none) (huser : c.sets .username ≠ none)
    (h : Filled c ph) : sendHeader.Obeys owning (fun ph' _ => Filled c ph') ph := by
  rw [sendHeader]
  refine obeys_bind.mpr ((obeys_sendMembers ?_ h).mono fun ph' r h' => h')
  intro m hm
  rcases List.mem_cons.mp hm with rfl | hm
  · exact hop
  · rw [List.mem_singleton.mp hm]
    exact huser

/-- **`send_connection_request`**, **`send_message_request`** -/
theorem obeys_sendItem {ms : List Member} (hop : c.sets .opCode ≠ none)
    (huser : c.sets .username ≠ none) (hsets : ∀ m ∈ ms, c.sets m ≠ none)
    (h : Filled c ph) :
    (sendItem ms).Obeys owning (fun ph' _ => Filled c ph') ph := by
  rw [sendItem]
  refine obeys_bind.mpr ((obeys_sendHeader hop huser h).mono fun ph' raised h' => ?_)
  split
  · exact h'
  · exact obeys_bind.mpr ((obeys_sendMembers hsets h').mono fun ph'' r h'' => h'')

/-- Connect, send, receive the error code. -/
theorem obeys_exchange {sends : Py Bool} (h : Filled c ph)
    (hsends : ∀ ph', Filled c ph' → sends.Obeys owning (fun ph'' _ => Filled c ph'') ph') :
    (exchange sends).Obeys owning (fun ph' _ => Filled c ph') ph := by
  cases ph with
  | none => exact obeys_none _ fun _ => trivial
  | some own =>
      rw [exchange]
      refine obeys_perform_bind.mpr ⟨trivial, fun (ok : Bool) _ => ?_⟩
      cases ok with
      | false => exact h
      | true =>
          refine obeys_bind.mpr ((hsends (some own) h).mono fun ph' raised h' => ?_)
          cases raised with
          | true => exact h'
          | false =>
              cases ph' with
              | none => exact obeys_none _ fun _ => trivial
              | some own' => exact ⟨trivial, fun _ _ => h'⟩

/-- `end_listen_thread`, in an operation that has set the user. -/
theorem obeys_endListenThread {user : PyStr} (h : Filled c ph)
    (huser : c.sets .username = some (.str user)) :
    (endListenThread user).Obeys owning (fun _ _ => True) ph := by
  cases ph with
  | none => exact obeys_none _ fun _ => trivial
  | some own =>
      rw [endListenThread]
      refine obeys_perform_bind.mpr ⟨trivial, fun _ _ => obeys_assign ?_⟩
      refine obeys_perform_bind.mpr ⟨trivial, fun (ok : Bool) _ => ?_⟩
      cases ok with
      | false => trivial
      | true =>
          refine obeys_bind.mpr
            ((obeys_sendHeader (c := .endListenThread user) (by simp [Call.sets])
            (by simp [Call.sets]) ?_).mono fun _ _ _ => trivial)
          refine ⟨rfl, fun m value hm => ?_⟩
          cases m with
          | opCode => exact (Own.assign_self _ _ _).trans hm
          | username => exact (Own.assign_of_ne (by decide)).trans ((h.2 _ _ huser).trans hm)
          | _ => cases hm

/-- The header is filled. -/
theorem obeys_fillHeader {opCode : PyStr} {username : PyVal} {f : Unit → Py α}
    (hnone : ∀ a, Q none a)
    (h : ∀ own : Own, own.call = some c →
        own.values (.request, .opCode) = some (.str opCode) →
      own.values (.request, .username) = some username → (f ()).Obeys owning Q (some own)) :
    (fillHeader c opCode username >>= f).Obeys owning Q ph := by
  cases ph with
  | none => exact obeys_none _ hnone
  | some own =>
      rw [fillHeader, bind_assoc]
      refine obeys_perform_bind.mpr ⟨trivial, fun _ _ => ?_⟩
      rw [bind_assoc]
      refine obeys_assign (obeys_assign (h _ rfl ?_ ?_))
      · rw [Own.assign_of_ne (by decide)]
        exact Own.assign_self _ _ _
      · exact Own.assign_self _ _ _

/-! ## Operations -/

/-- **`Client.register`** -/
theorem obeys_register (self : Client) (user : PyStr) :
    (register self user).Obeys owning (fun _ _ => True) ph := by
  rw [register]
  refine obeys_fillHeader (fun _ => trivial) fun own hcall hop huser => ?_
  have hfilled : Filled (.register user) (some own) := by
    refine ⟨hcall, fun m value hm => ?_⟩
    cases m with
    | opCode => exact hop.trans hm
    | username => exact huser.trans hm
    | _ => cases hm
  exact obeys_bind.mpr ((obeys_exchange hfilled fun ph' =>
    obeys_sendHeader (by simp [Call.sets]) (by simp [Call.sets])).mono fun _ _ _ => trivial)

/-- **`Client.unregister`** -/
theorem obeys_unregister (self : Client) (user : PyStr) :
    (unregister self user).Obeys owning (fun _ _ => True) ph := by
  rw [unregister]
  refine obeys_fillHeader (fun _ => trivial) fun own hcall hop huser => ?_
  have hfilled : Filled (.unregister user) (some own) := by
    refine ⟨hcall, fun m value hm => ?_⟩
    cases m with
    | opCode => exact hop.trans hm
    | username => exact huser.trans hm
    | _ => cases hm
  refine obeys_bind.mpr ((obeys_exchange hfilled fun ph' =>
    obeys_sendHeader (by simp [Call.sets]) (by simp [Call.sets])).mono fun ph' code h => ?_)
  split
  · exact obeys_bind.mpr ((obeys_endListenThread h rfl).mono fun _ _ _ => trivial)
  · trivial

/-- **`Client.connect`** -/
theorem obeys_connect (self : Client) (user : PyStr) :
    (connect self user).Obeys owning (fun _ _ => True) ph := by
  unfold connect
  split
  · trivial
  cases ph with
  | none => exact obeys_none _ fun _ => trivial
  | some own =>
      refine obeys_perform_bind.mpr ⟨trivial, fun (port : Option PyStr) _ => ?_⟩
      cases port with
      | none => trivial
      | some listeningPort =>
          refine obeys_fillHeader (fun _ => trivial) fun own hcall hop huser => obeys_assign ?_
          have hfilled : Filled (.connect user listeningPort) (some
              (own.assign (.request, .listeningPort) (.str listeningPort))) := by
            refine ⟨hcall, fun m value hm => ?_⟩
            cases m with
            | opCode => exact (Own.assign_of_ne (by decide)).trans (hop.trans hm)
            | username => exact (Own.assign_of_ne (by decide)).trans (huser.trans hm)
            | listeningPort => exact (Own.assign_self _ _ _).trans hm
            | _ => cases hm
          refine obeys_bind.mpr
            ((obeys_exchange hfilled fun ph' => obeys_sendItem (by simp [Call.sets])
            (by simp [Call.sets]) (by simp [Call.sets])).mono fun ph' code h => ?_)
          split
          · trivial
          split
          · trivial
          · exact obeys_bind.mpr ((obeys_endListenThread h rfl).mono fun _ _ _ => trivial)

/-- **`Client.disconnect`** -/
theorem obeys_disconnect (self : Client) (user : PyStr) :
    (disconnect self user).Obeys owning (fun _ _ => True) ph := by
  unfold disconnect
  split
  · trivial
  refine obeys_fillHeader (fun _ => trivial) fun own hcall hop huser => ?_
  have hfilled : Filled (.disconnect user) (some own) := by
    refine ⟨hcall, fun m value hm => ?_⟩
    cases m with
    | opCode => exact hop.trans hm
    | username => exact huser.trans hm
    | _ => cases hm
  refine obeys_bind.mpr ((obeys_exchange hfilled fun ph' =>
    obeys_sendHeader (by simp [Call.sets]) (by simp [Call.sets])).mono fun ph' code h => ?_)
  split
  · exact obeys_bind.mpr ((obeys_endListenThread h rfl).mono fun _ _ _ => trivial)
  · trivial

/-- **`Client.send`** -/
theorem obeys_send (self : Client) (recipient message : PyStr) :
    (send self recipient message).Obeys owning (fun _ _ => True) ph := by
  cases ph with
  | none => exact obeys_none _ fun _ => trivial
  | some own =>
      rw [send]
      refine obeys_perform_bind.mpr ⟨trivial, fun (reply : Option (Option PyStr)) _ => ?_⟩
      cases reply with
      | none => trivial
      | some message =>
          refine obeys_fillHeader (fun _ => trivial) fun own hcall hop huser => obeys_assign ?_
          cases message with
          | none => trivial
          | some text =>
              refine obeys_assign (obeys_bind.mpr ((obeys_exchange ?_ fun ph' =>
                obeys_sendItem (c := .send self.connectedUser recipient (some text))
                  (by simp [Call.sets]) (by simp [Call.sets]) (by simp [Call.sets])).mono
                fun ph' code h => ?_))
              · refine ⟨hcall, fun m value hm => ?_⟩
                cases m with
                | opCode =>
                    rw [Own.assign_of_ne (by decide), Own.assign_of_ne (by decide)]
                    exact hop.trans hm
                | username =>
                    rw [Own.assign_of_ne (by decide), Own.assign_of_ne (by decide)]
                    exact huser.trans hm
                | recipientUsername =>
                    rw [Own.assign_of_ne (by decide), Own.assign_self]
                    exact hm
                | message => exact (Own.assign_self _ _ _).trans hm
                | _ => cases hm
              · split
                · cases ph' with
                  | none => exact obeys_none _ fun _ => trivial
                  | some own' => exact ⟨trivial, fun _ _ => trivial⟩
                · trivial

theorem obeys_operation (self : Client) (call : ClientCall) :
    (operation self call).Obeys owning (fun _ _ => True) ph := by
  cases call with
  | register user => exact obeys_register self user
  | unregister user => exact obeys_unregister self user
  | connect user => exact obeys_connect self user
  | disconnect user => exact obeys_disconnect self user
  | send recipient message => exact obeys_send self recipient message

theorem obeys_session (calls : List ClientCall) (self : Client) :
    (session calls self).Obeys owning (fun _ _ => True) ph := by
  induction calls generalizing self ph with
  | nil => trivial
  | cons call calls ih =>
      rw [session]
      exact obeys_bind.mpr ((obeys_operation self call).mono fun ph' self' _ => ih self')

/-! ## Listening threads -/

/-- A string is received. -/
theorem obeys_receiveString {f : Option PyVal → Py Unit}
    (hnone : (f none).Obeys owning (fun _ _ => True) (some own))
    (h : ∀ value, (f (some value)).Obeys owning (fun _ _ => True) (some (own.receive value))) :
    (receiveString >>= f).Obeys owning (fun _ _ => True) (some own) := by
  refine obeys_perform_bind.mpr ⟨trivial, fun (reply : Option PyVal) _ => ?_⟩
  cases reply with
  | none => exact hnone
  | some value => exact h value

/-- **The branch of `SEND_MESSAGE`** -/
theorem obeys_listenMessage {loop : Py Unit}
    (hloop : ∀ ph, loop.Obeys owning (fun _ _ => True) ph)
    (h : own.received = [.str "SEND_MESSAGE".toList]) :
    (listenMessage loop).Obeys owning (fun _ _ => True) (some own) := by
  rw [listenMessage]
  refine obeys_receiveString trivial fun username => obeys_assign ?_
  refine obeys_receiveString trivial fun messageId => obeys_assign ?_
  refine obeys_receiveString trivial fun message => obeys_assign ?_
  refine obeys_get (v := messageId) ?_ (fun _ => trivial) ?_
  · rw [Own.assign_of_ne (by decide), Own.receive_values]
    exact Own.assign_self _ _ _
  refine obeys_get (v := username) ?_ (fun _ => trivial) ?_
  · rw [Own.assign_of_ne (by decide), Own.receive_values, Own.assign_of_ne (by decide),
      Own.receive_values]
    exact Own.assign_self _ _ _
  refine obeys_get (Own.assign_self _ _ _) (fun _ => trivial) ?_
  refine obeys_perform_bind.mpr ⟨?_, fun _ _ => hloop _⟩
  show ((own.received ++ [username]) ++ [messageId]) ++ [message] = _
  rw [h]
  rfl

/-- **The branch of `SEND_MESS_ACK`** -/
theorem obeys_listenAck {loop : Py Unit} (hloop : ∀ ph, loop.Obeys owning (fun _ _ => True) ph)
    (h : own.received = [.str "SEND_MESS_ACK".toList]) :
    (listenAck loop).Obeys owning (fun _ _ => True) (some own) := by
  rw [listenAck]
  refine obeys_receiveString trivial fun messageId => obeys_assign ?_
  refine obeys_get (Own.assign_self _ _ _) (fun _ => trivial) ?_
  refine obeys_perform_bind.mpr ⟨?_, fun _ _ => hloop _⟩
  show own.received ++ [messageId] = _
  rw [h]
  rfl

/-- **`listen_and_accept`** -/
theorem obeys_listenAndAccept (fuel : ℕ) :
    (listenAndAccept fuel).Obeys owning (fun _ _ => True) ph := by
  induction fuel generalizing ph with
  | zero => trivial
  | succ fuel ih =>
      cases ph with
      | none => exact obeys_none _ fun _ => trivial
      | some own =>
          rw [listenAndAccept]
          refine obeys_perform_bind.mpr ⟨trivial, fun (ok : Bool) _ => ?_⟩
          cases ok with
          | false => trivial
          | true =>
              refine obeys_receiveString trivial fun opCode => obeys_assign ?_
              refine obeys_get (Own.assign_self _ _ _) (fun _ => trivial) ?_
              split
              · rename_i hop
                refine obeys_listenMessage (fun _ => ih) ?_
                exact congrArg (fun op => [op]) hop
              · rename_i hmessage
                refine obeys_get (Own.assign_self _ _ _) (fun _ => trivial) ?_
                split
                · rename_i hop
                  refine obeys_listenAck (fun _ => ih) ?_
                  exact congrArg (fun op => [op]) hop
                · rename_i hack
                  refine obeys_get (Own.assign_self _ _ _) (fun _ => trivial) ?_
                  refine ⟨?_, fun _ _ => trivial⟩
                  show Branch.Shows [opCode] _
                  split
                  · rename_i hop
                    exact congrArg (fun op => [op]) hop
                  · rename_i hend
                    refine ⟨rfl, fun op hmem => ?_⟩
                    rw [List.mem_singleton.mp hmem]
                    simp only [List.mem_cons, List.not_mem_nil, or_false, not_or]
                    exact ⟨hmessage, hack, hend⟩

/-- **A thread** keeps to what is its own. -/
theorem obeys_prog (thread : PyThread) : thread.prog.Obeys owning (fun _ _ => True) ph := by
  cases thread with
  | session calls self => exact obeys_session calls self
  | listening fuel => exact obeys_listenAndAccept fuel

end Programs

/-! ## All threads -/

section Threads

variable {ι : Type} {t : List (ι × pyE.Event)} {σ σ' : Attribute → PyVal} {i j : ι}
  {o : PyOp} {x : o.Ans} {ph : Option Own}

theorem lastWriter_snoc (a : Attribute) (ev : ι × pyE.Event) :
    lastWriter a (t ++ [ev]) = writerStep a (lastWriter a t) ev := by
  rw [lastWriter, List.foldl_append]
  rfl

theorem receivedIn_snoc (l : List pyE.Event) (ev : pyE.Event) :
    receivedIn (l ++ [ev]) = receivedStep (receivedIn l) ev := by
  rw [receivedIn, List.foldl_append]
  rfl

theorem callIn_snoc (l : List pyE.Event) (ev : pyE.Event) :
    callIn (l ++ [ev]) = callStep (callIn l) ev := by
  rw [callIn, List.foldl_append]
  rfl

theorem undisturbed_snoc {ev : ι × pyE.Event} :
    Undisturbed (t ++ [ev]) ↔ Undisturbed t ∧ OwnRead t ev := forall_split_snoc

theorem unmixed_snoc {l : List pyE.Event} {ev : pyE.Event} :
    Unmixed (l ++ [ev]) ↔ Unmixed l ∧ Proper l ev := forall_split_snoc

/-- A thread that was the last to assign the attribute, and still is after a step of another one,
finds what it has assigned. -/
theorem kept_of_other {a : Attribute} (hstep : AttrStep σ o x σ') (hj : j ≠ i)
    (h : lastWriter a (t ++ [(i, ⟨o, x⟩)]) = some j) :
    lastWriter a t = some j ∧ σ' a = σ a := by
  rw [lastWriter_snoc] at h
  cases o with
  | assign b value =>
      by_cases hb : b = a
      · have hi : (if b = a then some i else lastWriter a t) = some j := h
        rw [if_pos hb] at hi
        exact absurd (Option.some.inj hi).symm hj
      · have hi : (if b = a then some i else lastWriter a t) = some j := h
        rw [if_neg hb] at hi
        refine ⟨hi, ?_⟩
        rw [show σ' = Function.update σ b value from hstep]
        exact Function.update_of_ne (Ne.symm hb) _ _
  | get b => exact ⟨h, congrFun hstep.2 a⟩
  | _ => exact ⟨h, congrFun hstep a⟩

variable [DecidableEq ι]

/-- What holds of a thread that is not disturbed. -/
structure Keeps (i : ι) (t : List (ι × pyE.Event)) (σ : Attribute → PyVal) (own : Own) :
    Prop where
  received : own.received = receivedIn (threadEvents i t)
  call : own.call = callIn (threadEvents i t)
  values : ∀ a, lastWriter a t = some i → own.values a = some (σ a)
  unmixed : Unmixed (threadEvents i t)

variable {own : Own}

/-- The steps of the others. -/
theorem Keeps.other (h : Keeps j t σ own) (hj : j ≠ i) (hstep : AttrStep σ o x σ') :
    Keeps j (t ++ [(i, ⟨o, x⟩)]) σ' own := by
  have hsame : threadEvents j (t ++ [(i, (⟨o, x⟩ : pyE.Event))]) = threadEvents j t :=
    threadEvents_snoc_of_ne (Ne.symm hj)
  refine ⟨?_, ?_, fun a ha => ?_, ?_⟩
  · rw [hsame]
    exact h.received
  · rw [hsame]
    exact h.call
  · obtain ⟨hlast, hvalue⟩ := kept_of_other hstep hj ha
    rw [hvalue]
    exact h.values a hlast
  · rw [hsame]
    exact h.unmixed

/-- An allowed step is a proper one. -/
theorem Keeps.proper (h : Keeps i t σ own) (hallowed : owning.allowed (some own) o) :
    Proper (threadEvents i t) ⟨o, x⟩ := by
  cases o with
  | dispatch b =>
      have hshows : b.Shows own.received := hallowed
      rw [h.received] at hshows
      exact hshows
  | send m bytes =>
      have hsends : Call.Sends own.call m bytes := hallowed
      rw [h.call] at hsends
      exact hsends
  | _ => trivial

/-- The thread's own step. -/
theorem Keeps.self (h : Keeps i t σ own) (hallowed : owning.allowed (some own) o)
    (hstep : AttrStep σ o x σ') (hread : OwnRead t (i, ⟨o, x⟩)) :
    ∃ own', owning.next (some own) o x = some own' ∧
      Keeps i (t ++ [(i, ⟨o, x⟩)]) σ' own' := by
  have hunmixed : Unmixed (threadEvents i (t ++ [(i, (⟨o, x⟩ : pyE.Event))])) := by
    rw [threadEvents_snoc_self]
    exact unmixed_snoc.mpr ⟨h.unmixed, h.proper hallowed⟩
  have hreceived : ∀ l, l = receivedStep own.received ⟨o, x⟩ →
      l = receivedIn (threadEvents i (t ++ [(i, (⟨o, x⟩ : pyE.Event))])) := by
    intro l hl
    rw [threadEvents_snoc_self, receivedIn_snoc, ← h.received]
    exact hl
  have hcall : ∀ c, c = callStep own.call ⟨o, x⟩ →
      c = callIn (threadEvents i (t ++ [(i, (⟨o, x⟩ : pyE.Event))])) := by
    intro c hc
    rw [threadEvents_snoc_self, callIn_snoc, ← h.call]
    exact hc
  cases o with
  | get a =>
      -- the thread reads its own value
      obtain ⟨hx, hσ⟩ := hstep
      have hown : own.values a = some x := by
        rw [hx]
        exact h.values a hread
      refine ⟨own, if_pos hown, hreceived _ rfl, hcall _ rfl, fun b hb => ?_, hunmixed⟩
      rw [lastWriter_snoc] at hb
      rw [hσ]
      exact h.values b hb
  | assign a value =>
      refine ⟨own.assign a value, rfl, hreceived _ rfl, hcall _ rfl, fun b hb => ?_, hunmixed⟩
      rw [show σ' = Function.update σ a value from hstep]
      by_cases hab : b = a
      · rw [hab, Function.update_self]
        exact Own.assign_self _ _ _
      · rw [lastWriter_snoc] at hb
        have hlast : (if a = b then some i else lastWriter b t) = some i := hb
        rw [if_neg (Ne.symm hab)] at hlast
        rw [Function.update_of_ne hab, Own.assign_of_ne hab]
        exact h.values b hlast
  | _ =>
      refine ⟨_, rfl, hreceived _ rfl, hcall _ rfl, fun b hb => ?_, hunmixed⟩
      rw [lastWriter_snoc] at hb
      rw [show σ' = σ from hstep]
      exact h.values b hb

/-- **Threads that do not disturb each other.**  As long as every thread reads only attributes that
it was itself the last to assign, every listening thread dispatches on, and prints, what it has
received on its own connection, and every request is sent as its operation has set it. -/
theorem unmixed_of_undisturbed {threads : ι → PyThread} {ps : ι → Py Unit}
    {initial : Attribute → PyVal}
    (h : Interleave AttrStep initial (fun i => (threads i).prog) t σ ps)
    (ht : Undisturbed t) (i : ι) :
    Unmixed (threadEvents i t) := by
  have hobey : ∀ i, (threads i).prog.Obeys owning (fun _ _ => True) (some Own.nothing) :=
    fun i => obeys_prog (threads i)
  have hkeep : ∀ (t : List (ι × pyE.Event)) (σ : Attribute → PyVal)
      (phs : ι → Option Own) (i : ι)
      (o : PyOp) (x : o.Ans) (σ' : Attribute → PyVal),
      (Undisturbed t → ∀ i, ∃ own, phs i = some own ∧ Keeps i t σ own) →
      owning.allowed (phs i) o → AttrStep σ o x σ' →
      True ∧ (Undisturbed (t ++ [(i, ⟨o, x⟩)]) → ∀ j, ∃ own,
        Function.update phs i (owning.next (phs i) o x) j = some own ∧
          Keeps j (t ++ [(i, ⟨o, x⟩)]) σ' own) := by
    intro t σ phs i o x σ' hI hallowed hstep
    refine ⟨trivial, fun ht j => ?_⟩
    obtain ⟨hbefore, hread⟩ := undisturbed_snoc.mp ht
    obtain ⟨own, hown, hkeeps⟩ := hI hbefore j
    by_cases hj : j = i
    · subst hj
      rw [Function.update_self, hown]
      rw [hown] at hallowed
      exact hkeeps.self hallowed hstep hread
    · rw [Function.update_of_ne hj]
      exact ⟨own, hown, hkeeps.other hj hstep⟩
  have hstart : ∀ i : ι, Keeps i [] initial Own.nothing := by
    -- nothing has been assigned, shown or sent
    refine fun i => ⟨rfl, rfl, fun a ha => ?_, fun before ev after heq => ?_⟩
    · exact absurd ha (by simp [lastWriter])
    · exact absurd heq (by simp [threadEvents])
  obtain ⟨phs, hall, -⟩ := h.invariant
    (I := fun t σ phs => Undisturbed t → ∀ i, ∃ own, phs i = some own ∧ Keeps i t σ own)
    hkeep hobey fun _ i => ⟨_, rfl, hstart i⟩
  obtain ⟨own, -, hkeeps⟩ := hall ht i
  exact hkeeps.unmixed

end Threads

/-! ## Two listening threads -/

/-- A step of a thread: nothing fails, and `value` is what is received. -/
def attrApply (value : PyVal) : (o : PyOp) → (Attribute → PyVal) →
    o.Ans × (Attribute → PyVal)
  | .begin _, σ => ((), σ)
  | .assign a v, σ => ((), Function.update σ a v)
  | .get a, σ => (σ a, σ)
  | .bindPort, σ => (some "5000".toList, σ)
  | .remove message, σ => (some (some message), σ)
  | .connect, σ => (true, σ)
  | .send _ _, σ => (true, σ)
  | .sendNul, σ => (true, σ)
  | .receiveCode, σ => (some ecSuccess, σ)
  | .accept, σ => (true, σ)
  | .receiveString, σ => (some value, σ)
  | .dispatch _, σ => ((), σ)

theorem attrStep_attrApply (value : PyVal) (o : PyOp) (σ : Attribute → PyVal) :
    AttrStep σ o (attrApply value o σ).1 (attrApply value o σ).2 := by
  cases o with
  | get a => exact ⟨rfl, rfl⟩
  | _ => rfl

/-- Two clients listen, and take the given turns. -/
def twoListen (turns : List (Bool × PyVal)) :
    List (Bool × pyE.Event) × (Attribute → PyVal) × (Bool → Py Unit) :=
  schedule attrApply turns (fun _ => .type) fun _ => (PyThread.listening 1).prog

theorem interleave_twoListen (turns : List (Bool × PyVal)) :
    Interleave AttrStep (fun _ => .type) (fun _ => (PyThread.listening 1).prog) (twoListen turns).1
      (twoListen turns).2.1 (twoListen turns).2.2 :=
  interleave_schedule attrStep_attrApply _ _ _

/-- The turns of a thread that accepts a connection and receives a string. -/
def receives (i : Bool) (s : String) : List (Bool × PyVal) := [(i, .none), (i, .str s.toList)]

/-- The recipient of a message shows it, then the sender is told that it has been delivered. -/
def messageThenAck : List (Bool × PyVal) :=
  receives true "SEND_MESSAGE" ++ List.replicate 2 (true, .none) ++ [(true, .str "a".toList)] ++
    receives true "1" ++ receives true "hi" ++ List.replicate 6 (true, .none) ++
    receives false "SEND_MESS_ACK" ++ List.replicate 3 (false, .none) ++
      [(false, .str "1".toList)] ++
    List.replicate 4 (false, .none)

theorem unmixed_messageThenAck : Unmixed (threadEvents true (twoListen messageThenAck).1) :=
  unmixed_of_undisturbed (interleave_twoListen messageThenAck) (by decide +kernel) true

/-- The sender's thread assigns its op code before that of the recipient has compared it. -/
def ackBetween : List (Bool × PyVal) :=
  receives true "SEND_MESSAGE" ++ [(true, .none)] ++ receives false "SEND_MESS_ACK" ++
    [(false, .none)] ++
    List.replicate 2 (true, .none) ++ [(true, .str "a".toList)] ++ List.replicate 3 (true, .none)

/-- **A message taken for an acknowledgement.**  The recipient's thread prints that message `a` has
been delivered. -/
theorem not_unmixed :
    ¬ ∀ (ι : Type) [DecidableEq ι] (threads : ι → PyThread) (t : List (ι × pyE.Event))
        (σ : Attribute → PyVal) (ps : ι → Py Unit),
      Interleave AttrStep (fun _ => .type) (fun i => (threads i).prog) t σ ps →
      ∀ i, Unmixed (threadEvents i t) := by
  intro h
  have hunmixed := h Bool (fun _ => .listening 1) _ _ _ (interleave_twoListen ackBetween) true
  exact absurd hunmixed (by decide +kernel)

end InProcess
