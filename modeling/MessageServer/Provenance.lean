/-
# Messages are not made up

Any number of service threads work on one database, each library call an atomic step.

* `relayOf`: the discipline of each thread, whatever user its request is for;
* `transmitted_submitted`: every message that is transmitted or stored was submitted, whatever the
  threads do meanwhile.
-/
import MessageServer.Relays

/-! ## Any number of threads -/

/-- The discipline of a thread: a request of `u` relays messages, and any other one is for
somebody. -/
def relayOf (u : Bytes) (req : Req) : Discipline srvE Relay :=
  if req.user = some u then relaying u req
  else ⟨fun _ _ => req.user ≠ none, fun _ _ _ => True, fun ph _ _ => ph⟩

section Threads

variable {u : Bytes} {req : Req}

/-- The discipline of a thread that works for `u`. -/
theorem relayOf_own (h : req.user = some u) : relayOf u req = relaying u req := if_pos h

/-- The discipline of another thread. -/
theorem relayOf_other (h : req.user ≠ some u) :
    relayOf u req = ⟨fun _ _ => req.user ≠ none, fun _ _ _ => True, fun ph _ _ => ph⟩ :=
  if_neg h

/-- Every thread keeps to its discipline. -/
theorem obeys_relayOf (fuel : ℕ) (u : Bytes) (req : Req) :
    (req.body fuel).Obeys (relayOf u req) (fun _ _ => True) .start := by
  by_cases huser : req.user = some u
  · rw [relayOf_own huser]
    exact obeys_relaying fuel huser
  · rw [relayOf_other huser]
    cases req with
    | unknown => trivial
    | _ => exact obeys_of_allowed fun _ _ => Option.some_ne_none _

end Threads

/-! ### Messages that are vouched for -/

section Histories

variable {ι : Type} [DecidableEq ι] {reqs : ι → Req} {u : Bytes} {t : List (ι × srvE.Event)}
  {a a' : Account}
  {phs : ι → Relay} {ph' : Relay} {i : ι}

/-- What waits for `u`, what the threads know of messages, and what those of `u` have transmitted,
was submitted. -/
structure Vouched (reqs : ι → Req) (u : Bytes) (t : List (ι × srvE.Event)) (a : Account)
    (phs : ι → Relay) :
    Prop where
  stray : a.stray = false
  pending : ∀ id m, a.pending id = some m → Submitted reqs u t m
  found : ∀ i m, (phs i).found = some m → Submitted reqs u t m
  numbered : ∀ i id, (phs i).numbered = some id → Numbers u t i id
  sent : ∀ i e m result, (reqs i).user = some u →
    (i, (⟨.note (.cltSendMessage e m result), ()⟩ : srvE.Event)) ∈ t → e.username = u ∧
    Submitted reqs u t m

omit [DecidableEq ι] in

/-- The invariant at the start. -/
theorem vouched_start : Vouched reqs u [] .empty fun _ => .start where
  stray := rfl
  pending := fun _ _ hm => by cases hm
  found := fun _ _ hm => by cases hm
  numbered := fun _ _ hid => by cases hid
  sent := fun _ _ _ _ _ hmem => absurd hmem List.not_mem_nil

omit [DecidableEq ι] in
/-- The message of a request under its id was submitted. -/
theorem Vouched.own {m : Message} (h : Vouched reqs u t a phs) (hown : (phs i).Own u (reqs i) m) :
    Submitted reqs u t m := ⟨i, hown.1, h.numbered i _ hown.2⟩

/-- One more step, by what is new behind it. -/
theorem Vouched.pass {ev : srvE.Event} (h : Vouched reqs u t a phs) (hstray : a'.stray = false)
    (hpending : ∀ id m, a'.pending id = some m → a.pending id = some m ∨ Submitted reqs u t m)
    (hfound : ∀ m, ph'.found = some m → (phs i).found = some m ∨ Submitted reqs u t m)
    (hnumbered : ∀ id, ph'.numbered = some id → (phs i).numbered = some id ∨
        Numbers u (t ++ [(i, ev)]) i id)
    (hsent : ∀ e m result, ev = ⟨.note (.cltSendMessage e m result), ()⟩ →
        (reqs i).user = some u →
      e.username = u ∧ Submitted reqs u t m) :
    Vouched reqs u (t ++ [(i, ev)]) a' (Function.update phs i ph') := by
  refine ⟨hstray, fun id m hm => ?_, fun j m hm => ?_, fun j id hid => ?_,
    fun j e m result hj hmem => ?_⟩
  · rcases hpending id m hm with hold | hnew
    · exact (h.pending id m hold).append
    · exact hnew.append
  · by_cases hji : j = i
    · subst hji
      rw [Function.update_self] at hm
      rcases hfound m hm with hold | hnew
      · exact (h.found j m hold).append
      · exact hnew.append
    · rw [Function.update_of_ne hji] at hm
      exact (h.found j m hm).append
  · by_cases hji : j = i
    · subst hji
      rw [Function.update_self] at hid
      rcases hnumbered id hid with hold | hnew
      · exact (h.numbered j id hold).append
      · exact hnew
    · rw [Function.update_of_ne hji] at hid
      exact (h.numbered j id hid).append
  · rcases List.mem_append.mp hmem with hold | hlast
    · obtain ⟨he, hsub⟩ := h.sent j e m result hj hold
      exact ⟨he, hsub.append⟩
    · obtain ⟨rfl, hev⟩ := Prod.mk.inj (List.mem_singleton.mp hlast)
      obtain ⟨he, hsub⟩ := hsent e m result hev.symm hj
      exact ⟨he, hsub.append⟩

/-- **The step lemma**, for a thread that works for `u`. -/
theorem Vouched.step_own {o : SrvOp} {x : o.Ans} (h : Vouched reqs u t a phs)
    (hallowed : (relaying u (reqs i)).allowed (phs i) o) (hstep : AccountStep True u a o x a') :
    (relaying u (reqs i)).possible (phs i) o x ∧
      Vouched reqs u (t ++ [(i, ⟨o, x⟩)]) a'
        (Function.update phs i ((relaying u (reqs i)).next (phs i) o x)) := by
  -- a step at which nothing is stored, found, numbered or transmitted
  have hquiet : a'.stray = false →
      (∀ id m, a'.pending id = some m → a.pending id = some m) →
      (relaying u (reqs i)).next (phs i) o x = phs i →
      (∀ e m result, (⟨o, x⟩ : srvE.Event) ≠
        ⟨.note (.cltSendMessage e m result), ()⟩) →
      Vouched reqs u (t ++ [(i, ⟨o, x⟩)]) a'
        (Function.update phs i ((relaying u (reqs i)).next (phs i) o x)) := by
    intro hstray hpending hnext hnote
    rw [hnext]
    exact h.pass hstray (fun id m hm => Or.inl (hpending id m hm)) (fun _ => Or.inl)
      (fun _ => Or.inl)
      fun e m result heq => absurd heq (hnote e m result)
  cases o with
  | db call =>
      cases call with
      | userExists v =>
          obtain rfl := hstep.1
          exact ⟨trivial, hquiet h.stray (fun _ _ hm => hm) rfl fun _ _ _ heq => by cases heq⟩
      | ioOpUsrEnt e mode =>
          cases mode with
          | read =>
              obtain ⟨rfl, hreads⟩ := hstep
              refine ⟨fun j hj => ?_, hquiet h.stray (fun _ _ hm => hm) rfl
                fun _ _ _ heq => by cases heq⟩
              rcases hreads j hj with ⟨ud, -, rfl⟩ | ⟨-, hx, -⟩
              · exact ⟨ud, rfl⟩
              · exact ⟨j, hx⟩
          | modify =>
              obtain ⟨ud, rfl, hrewrites⟩ := hstep
              have hsame : a'.stray = a.stray ∧ a'.pending = a.pending := by
                rcases hrewrites with ⟨-, rfl, -⟩ | ⟨-, -, hcalm⟩
                · exact ⟨rfl, rfl⟩
                · rw [(hcalm trivial).1]
                  exact ⟨rfl, rfl⟩
              refine ⟨trivial,
                h.pass (hsame.1.trans h.stray) (fun id m hm => Or.inl (hsame.2 ▸ hm))
                (fun _ => Or.inl) (fun id hid => ?_) fun _ _ _ heq => by cases heq⟩
              obtain hid : (if 0 ≤ x.1 then (phs i).numbered.or (some ud.lastMsgId)
                  else (phs i).numbered) =
                some id := hid
              split at hid
              · rename_i hpos
                cases hfirst : (phs i).numbered with
                | some id' =>
                    rw [hfirst, Option.some_or] at hid
                    exact Or.inl hid
                | none =>
                    rw [hfirst, Option.none_or] at hid
                    exact Or.inr ⟨ud, x, List.mem_append_right _ List.mem_cons_self, hpos,
                      Option.some.inj hid⟩
              · exact Or.inl hid
          | create =>
              obtain ⟨m, rfl, hstores⟩ := hstep
              obtain ⟨m', heq, hown⟩ := hallowed
              obtain rfl : m = m' := EntryData.msg.inj (congrArg Entry.data heq)
              refine ⟨trivial, ?_⟩
              rcases hstores with ⟨-, -, rfl⟩ | ⟨-, rfl, -⟩
              · refine h.pass h.stray (fun id m' hm => ?_) (fun _ => Or.inl) (fun _ => Or.inl)
                  fun _ _ _ heq => by cases heq
                rcases Account.pending_of_store hm with rfl | hold
                · exact Or.inr (h.own hown)
                · exact Or.inl hold
              · exact hquiet h.stray (fun _ _ hm => hm) rfl fun _ _ _ heq => by cases heq
          | delete =>
              obtain ⟨m, -, hdrops⟩ := hstep
              refine ⟨trivial, ?_⟩
              rcases hdrops with ⟨-, rfl⟩ | ⟨-, rfl, -⟩
              · exact hquiet h.stray (fun _ _ hm => Account.pending_of_drop hm) rfl
                  fun _ _ _ heq => by cases heq
              · exact hquiet h.stray (fun _ _ hm => hm) rfl fun _ _ _ heq => by cases heq
          | overwrite =>
              obtain rfl : a' = a := hstep
              exact ⟨trivial, hquiet h.stray (fun _ _ hm => hm) rfl
                fun _ _ _ heq => by cases heq⟩
      | getPendMsg e =>
          obtain ⟨rfl, m₀, -, hfinds⟩ := hstep
          refine ⟨trivial, h.pass h.stray (fun _ _ hm => Or.inl hm) (fun m hm => ?_)
            (fun _ => Or.inl)
            fun _ _ _ heq => by cases heq⟩
          obtain hm : (if x.1 = dbmsSuccess then some x.2.msg else (phs i).found) = some m := hm
          split at hm
          · rename_i hsuccess
            right
            rcases hfinds with ⟨hneg, -⟩ | ⟨-, ⟨m', hwaits, hx⟩ | ⟨hstray, -⟩⟩
            · rw [hsuccess] at hneg
              exact absurd hneg (by decide)
            · rw [hx] at hm
              obtain rfl : m' = m := Option.some.inj hm
              exact h.pending _ _ hwaits
            · exact absurd ((hstray trivial).symm.trans h.stray) (by simp)
          · exact Or.inl hm
      | creatUsrTbl e =>
          obtain ⟨ud, -, hopens⟩ := hstep
          have hold : ∀ b : Account, b = a ∨ b = .new ud ∨ b = .empty → b.stray = false ∧
              ∀ id m, b.pending id = some m → a.pending id = some m := by
            rintro b (rfl | rfl | rfl)
            · exact ⟨h.stray, fun _ _ hm => hm⟩
            · exact ⟨rfl, fun _ _ hm => by cases hm⟩
            · exact ⟨rfl, fun _ _ hm => by cases hm⟩
          have hcases : a' = a ∨ a' = .new ud ∨ a' = .empty := by
            rcases hopens with ⟨-, rfl, -⟩ | ⟨-, -, rfl⟩ |
              ⟨-, rfl | ⟨-, rfl⟩ | ⟨-, rfl⟩, -⟩
            · exact Or.inl rfl
            · exact Or.inr (Or.inl rfl)
            · exact Or.inl rfl
            · exact Or.inr (Or.inl rfl)
            · exact Or.inr (Or.inr rfl)
          obtain ⟨hstray, hpending⟩ := hold a' hcases
          exact ⟨trivial, hquiet hstray hpending rfl fun _ _ _ heq => by cases heq⟩
      | delUsrTbl v =>
          obtain ⟨-, hcloses⟩ := hstep
          refine ⟨trivial, ?_⟩
          rcases hcloses with ⟨-, rfl⟩ | ⟨-, -, hcalm⟩
          · exact hquiet rfl (fun _ _ hm => by cases hm) rfl fun _ _ _ heq => by cases heq
          · obtain rfl := (hcalm trivial).1
            exact hquiet h.stray (fun _ _ hm => hm) rfl fun _ _ _ heq => by cases heq
  | note n =>
      obtain rfl : a' = a := hstep
      refine ⟨trivial, ?_⟩
      cases n with
      | cltSendMessage e m result =>
          obtain ⟨he, hknown⟩ := hallowed
          refine h.pass h.stray (fun _ _ hm => Or.inl hm) (fun _ => Or.inl) (fun _ => Or.inl)
            fun e' m' result' heq _ => ?_
          cases heq
          exact ⟨he, hknown.elim h.own (h.found i m)⟩
      | cltSendMessAck e id result =>
          exact hquiet h.stray (fun _ _ hm => hm) rfl fun _ _ _ heq => by cases heq
  | _ =>
      obtain rfl : a' = a := hstep
      exact ⟨trivial, hquiet h.stray (fun _ _ hm => hm) rfl fun _ _ _ heq => by cases heq⟩

end Histories

/-! ## Runs -/

section Runs

variable {ι : Type} [DecidableEq ι] {fuel : ι → ℕ} {reqs : ι → Req} {u : Bytes}
  {t : List (ι × srvE.Event)}
  {ps : ι → Srv (Option Unit)} {fs₀ fs : FS}

/-- What a thread that handles a request may do: to the names of its table, and to messages. -/
def threadRules (cwd : Location) (u : Bytes) (req : Req) : Discipline srvE (Unit × Relay) :=
  (confined (req.within cwd u)).prod (relayOf u req)

/-- **The step lemma**, for any thread. -/
theorem Vouched.step {cwd : Location} {a : Account} {phs : ι → Unit × Relay} {i : ι}
    {o : SrvOp} {x : o.Ans} {fs' : FS}
    (h : Vouched reqs u t a fun i => (phs i).2) (hu : slash ∉ u) (hfits : ∀ i, (reqs i).Fits)
    (hothers : ∀ i v, (reqs i).user = some v → v = u ∨ Unrelated cwd v u)
    (hcwd : fs.cwd = cwd)
    (hkept : fs.Keeps True u a) (hallowed : (threadRules cwd u (reqs i)).allowed (phs i) o)
    (hstep : CalmStep fs o x fs') :
    (threadRules cwd u (reqs i)).possible (phs i) o x ∧ fs'.cwd = cwd ∧
      ∃ a', fs'.Keeps True u a' ∧
      Vouched reqs u (t ++ [(i, ⟨o, x⟩)]) a' fun j =>
        (Function.update phs i ((threadRules cwd u (reqs i)).next (phs i) o x) j).2 := by
  obtain ⟨hconfined, hrelay⟩ : ((reqs i).within cwd u).Allowed o ∧
      (relayOf u (reqs i)).allowed (phs i).2 o := hallowed
  have hphs :
      (fun j => (Function.update phs i ((threadRules cwd u (reqs i)).next (phs i) o x) j).2) =
      Function.update (fun j => (phs j).2) i ((relayOf u (reqs i)).next (phs i).2 o x) :=
    Function.comp_update Prod.snd phs i _
  rw [hphs]
  show (((reqs i).within cwd u).Possible o x ∧ (relayOf u (reqs i)).possible (phs i).2 o x) ∧ _
  by_cases huser : (reqs i).user = some u
  · -- a thread that works for the user
    rw [Req.within_own _ huser] at hconfined ⊢
    rw [relayOf_own huser] at hrelay ⊢
    obtain ⟨hposs, hroot, a', hcall, hkept'⟩ :=
      hstep.own hkept hu (((hfits i).user huser).mono (by decide)) hconfined
    obtain ⟨hposs', hv'⟩ := h.step_own hrelay hcall
    exact ⟨⟨hposs, hposs'⟩, hroot.trans hcwd, a', hkept', hv'⟩
  · -- a thread of another user leaves the account alone
    rw [Req.within_other _ huser, ← hcwd] at hconfined ⊢
    rw [relayOf_other huser] at hrelay ⊢
    have hunrel : ∀ v, (reqs i).user = some v → Unrelated fs.cwd v u := by
      intro v hother
      rw [hcwd]
      rcases hothers i v hother with rfl | hunrel
      · exact absurd hother huser
      · exact hunrel
    obtain ⟨hposs, hroot, hkept'⟩ := hstep.other hkept hconfined hunrel hrelay
    refine ⟨⟨hposs, trivial⟩, hroot, a, hkept', ?_⟩
    exact h.pass h.stray (fun _ _ hm => Or.inl hm) (fun _ => Or.inl) (fun _ => Or.inl)
      fun _ _ _ _ hown => absurd hown huser

/-- **The run lemma.** -/
theorem vouched_run (hu : slash ∉ u) (hfresh : fs₀.Fresh) (hfits : ∀ i, (reqs i).Fits)
    (hothers : ∀ i v, (reqs i).user = some v → v = u ∨ Unrelated fs₀.cwd v u)
    (h : Interleave CalmStep fs₀ (fun i => (reqs i).body (fuel i)) t fs ps) :
    ∃ a phs, fs.Keeps True u a ∧ Vouched reqs u t a phs := by
  have hobeys : ∀ i, ((reqs i).body (fuel i)).Obeys (threadRules fs₀.cwd u (reqs i))
      (fun _ _ => True ∧ True)
      ((), .start) := fun i => (obeys_within (hfits i) _ _ _).prod (obeys_relayOf _ _ _)
  obtain ⟨phs, ⟨-, a, hkept, hv⟩, -⟩ := h.invariant
    (I := fun t fs phs => fs.cwd = fs₀.cwd ∧ ∃ a, fs.Keeps True u a ∧ Vouched reqs u t a
      fun i => (phs i).2)
    (D := fun i => threadRules fs₀.cwd u (reqs i))
    (by
      rintro t fs phs i o x fs' ⟨hcwd, a, hkept, hv⟩ hallowed hstep
      exact hv.step hu hfits hothers hcwd hkept hallowed hstep)
    hobeys ⟨rfl, .empty, hfresh.keeps hu, vouched_start⟩
  exact ⟨a, _, hkept, hv⟩

/-- **No message is made up.**  Any number of threads handle any requests at the same time, from an
empty database on, no system call fails for a reason outside the state of the file system, and no
other user's table is related to that of `u`.  Every message that a thread working for `u`
transmits, it transmits to `u`, and a `SEND` to `u` has submitted it: sender and text are those of
the request, and the id is the one that this thread has given.  So has every message that waits for
`u`. -/
theorem transmitted_submitted (hu : slash ∉ u) (hfresh : fs₀.Fresh)
    (hfits : ∀ i, (reqs i).Fits)
    (hothers : ∀ i v, (reqs i).user = some v → v = u ∨ Unrelated fs₀.cwd v u)
    (h : Interleave CalmStep fs₀ (fun i => (reqs i).body (fuel i)) t fs ps) :
    (∀ i e m result, (reqs i).user = some u →
        (i, (⟨.note (.cltSendMessage e m result), ()⟩ : srvE.Event)) ∈ t →
          e.username = u ∧ Submitted reqs u t m) ∧
      ∀ c n, fs.get (fs.table u ++ [pendMsgsTable] ++ [c]) = some n →
        ∃ m, c = decimal m.id.toNat ∧ n = .file (Entry.image ⟨u, .msg m⟩) ∧
          Submitted reqs u t m := by
  obtain ⟨a, phs, hkept, hv⟩ := vouched_run hu hfresh hfits hothers h
  refine ⟨hv.sent, fun c n hn => ?_⟩
  obtain ⟨id, rfl⟩ := hkept.neat hv.stray c n hn
  have hfile : fs.get (msgFile (fs.table u) id.toNat) = some n := by
    rw [← hn, msgFile, List.append_assoc]
    rfl
  have hfiled := hkept.pending id
  rw [hfile] at hfiled
  cases hm : a.pending id with
  | none =>
      rw [hm] at hfiled
      rcases hfiled with hnone | ⟨hcalm, -⟩
      · cases hnone
      · exact absurd trivial hcalm
  | some m =>
      rw [hm] at hfiled
      obtain rfl : m.id = id := (hkept.own id m hm).1
      exact ⟨m, rfl, Option.some.inj hfiled, hv.pending _ m hm⟩

end Runs

/-! ## A message that is stored while its recipient connects -/

/-- Two users register, `a` sends a message to `b`, and `b` connects. -/
def sendAmidConnect : Fin 4 → Req
  | 0 => .register (ascii "a")
  | 1 => .register (ascii "b")
  | 2 => .send (ascii "a") (ascii "b") (ascii "hi")
  | 3 => .connect (ascii "b") (ascii "7000")

/-- The `CONNECT` reads the record before the `SEND` begins, and looks for messages when it has
ended. -/
def amidConnect : List (Fin 4) :=
  List.replicate 6 0 ++ List.replicate 6 1 ++ List.replicate 2 3 ++ List.replicate 12 2 ++
    List.replicate 20 3

/-- The threads take the given turns, from an empty database on. -/
def fromEmpty (reqs : Fin 4 → Req) (turns : List (Fin 4)) :
    List (Fin 4 × srvE.Event) × FS × (Fin 4 → Srv (Option Unit)) :=
  schedule (fun (_ : Unit) => sharedApply) (turns.map fun i => (i, ())) emptyDb fun i =>
    (reqs i).body 2

/-- Four threads as an interleaving. -/
theorem interleave_fromEmpty (reqs : Fin 4 → Req) (turns : List (Fin 4)) :
    Interleave CalmStep emptyDb (fun i => (reqs i).body 2) (fromEmpty reqs turns).1
      (fromEmpty reqs turns).2.1
      (fromEmpty reqs turns).2.2 :=
  interleave_schedule (fun _ o fs => calmStep_apply o fs) _ _ _

theorem sendAmidConnect_fits : ∀ i, (sendAmidConnect i).Fits := by decide

/-- They are for `a` and `b`. -/
theorem sendAmidConnect_users : ∀ i, (sendAmidConnect i).user = some (ascii "a") ∨
    (sendAmidConnect i).user = some (ascii "b") := by decide

/-- The tables of the two are unrelated. -/
theorem sendAmidConnect_others (i : Fin 4) (v : Bytes) (h : (sendAmidConnect i).user = some v) :
    v = ascii "b" ∨ Unrelated emptyDb.cwd v (ascii "b") := by
  rcases sendAmidConnect_users i with ha | hb
  · obtain rfl : ascii "a" = v := Option.some.inj (ha.symm.trans h)
    exact Or.inr (unrelated_of_noSlash _ (by decide) (by decide) (by decide))
  · exact Or.inl (Option.some.inj (hb.symm.trans h)).symm

/-- What thread 3 transmits. -/
def transmitsHi : Fin 4 × srvE.Event → Bool
  | (i, ⟨.note (.cltSendMessage _ m _), _⟩) => i = 3 && m = ⟨ascii "a", 1, ascii "hi"⟩
  | _ => false

/-- The drain of `b` transmits the message of `a`. -/
theorem amidConnect_transmits : ∃ e result, ((3 : Fin 4),
    (⟨.note (.cltSendMessage e ⟨ascii "a", 1, ascii "hi"⟩ result), ()⟩ : srvE.Event)) ∈
      (fromEmpty sendAmidConnect amidConnect).1 := by
  have hany : (fromEmpty sendAmidConnect amidConnect).1.any transmitsHi = true := by decide +kernel
  obtain ⟨⟨i, o, x⟩, hmem, hsent⟩ := List.any_eq_true.mp hany
  cases o with
  | note n =>
      cases n with
      | cltSendMessage e m result =>
          have hthread : i = 3 ∧ m = ⟨ascii "a", 1, ascii "hi"⟩ := by
            simpa [transmitsHi] using hsent
          obtain ⟨rfl, rfl⟩ := hthread
          exact ⟨e, result, hmem⟩
      | cltSendMessAck e id result => exact absurd hsent (by simp [transmitsHi])
  | _ => exact absurd hsent (by simp [transmitsHi])

/-- The message was submitted. -/
theorem transmitted_submitted_amidConnect :
    Submitted sendAmidConnect (ascii "b") (fromEmpty sendAmidConnect amidConnect).1 ⟨ascii "a", 1,
        ascii "hi"⟩ := by
  obtain ⟨e, result, hmem⟩ := amidConnect_transmits
  exact ((transmitted_submitted (by decide) emptyDb_fresh sendAmidConnect_fits
    sendAmidConnect_others
    (interleave_fromEmpty sendAmidConnect amidConnect)).1 3 e _ result rfl hmem).2
