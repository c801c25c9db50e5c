/-
# The ids of concurrent messages

Any number of service threads handle `SEND` to one user, each library call an atomic step.

* `Issued`: the threads in the order in which they have taken their ids;
* `concurrent_ids`: different ids, and as many as there are threads, as long as no thread
  rewrites a record that has been rewritten since it read it;
* `not_concurrent_ids`: two threads that both read the record first.
-/
import MessageServer.IssueMoves

/-! ## The invariant -/

section Invariant

variable {ι : Type} [DecidableEq ι]

/-- The threads in the order in which they have taken their ids, which count up from `last`, and
what the record and the threads tell of it. -/
structure Issued (C : Confinement) (last : ℕ) (t : List (ι × srvE.Event)) (r : Option Entry)
    (phs : ι → Issuing) (order : List ι) : Prop where
  nodup : order.Nodup
  record : ∃ e, r = some e ∧ C.User e ∧ e.user.lastMsgId.toNat = (last + order.length) %
    msgIdMaxValue.toNat
  ids : ∀ n i, order[n]? = some i →
    ∃ id, (phs i).id? = some id ∧ id.toNat = (last + n + 1) % msgIdMaxValue.toNat
  members : ∀ i, (phs i).id? ≠ none → i ∈ order
  fresh : ∀ i e, (phs i).known = some e → overtaken i (recordActs t) = false → r = some e
  kept : ∀ i, phs i ≠ .refused
  told : ∀ i (id : UInt32), toldEvent (decimal id.toNat ++ [0]) ∈ threadEvents i t →
    phs i = .closing id

variable {C : Confinement} {last : ℕ} {t : List (ι × srvE.Event)} {r r' : Option Entry}
  {phs : ι → Issuing}
  {order : List ι} {i j : ι} {ev : srvE.Event}

/-- Only a rewriting changes whether another thread is overtaken. -/
theorem overtaken_quiet (hact : recordAct ev ≠ some (.write true)) (hne : j ≠ i) :
    overtaken j (recordActs (t ++ [(i, ev)])) = overtaken j (recordActs t) := by
  cases hev : recordAct ev with
  | none => rw [recordActs_snoc_none hev]
  | some act =>
      rw [recordActs_snoc hev, overtaken_snoc]
      cases act with
      | read => exact if_neg (Ne.symm hne)
      | write ok =>
          cases ok with
          | true => exact absurd hev hact
          | false => rfl

/-- A rewriting overtakes the other threads. -/
theorem overtaken_write (hact : recordAct ev = some (.write true)) (hne : j ≠ i) :
    overtaken j (recordActs (t ++ [(i, ev)])) = true := by
  rw [recordActs_snoc hact, overtaken_snoc]
  exact if_neg (Ne.symm hne)

/-- The invariant at the start. -/
theorem issued_start {e : Entry} (he : C.User e)
    (hlast : e.user.lastMsgId.toNat = last % msgIdMaxValue.toNat) :
    Issued C last ([] : List (ι × srvE.Event)) (some e) (fun _ => .starting) [] where
  nodup := List.nodup_nil
  record := ⟨e, rfl, he, hlast⟩
  ids := by simp
  members := by simp [Issuing.id?]
  fresh := by simp [Issuing.known]
  kept := by simp
  told := by simp [threadEvents]

/-! ### Steps that give no id -/

/-- What the threads were told, after one more step. -/
theorem Issued.told_snoc {ph' : Issuing} (h : Issued C last t r phs order)
    (hclosing : ∀ id, phs i = .closing id → ph' = .closing id)
    (htold : ∀ id : UInt32, ev = toldEvent (decimal id.toNat ++ [0]) → ph' = .closing id)
    (j : ι) (id : UInt32)
    (hmem : toldEvent (decimal id.toNat ++ [0]) ∈ threadEvents j (t ++ [(i, ev)])) :
    Function.update phs i ph' j = .closing id := by
  by_cases hj : j = i
  · subst hj
    rw [threadEvents_snoc_self, List.mem_append, List.mem_singleton] at hmem
    rw [Function.update_self]
    rcases hmem with hmem | hmem
    · exact hclosing id (h.told j id hmem)
    · exact htold id hmem.symm
  · rw [threadEvents_snoc_of_ne (Ne.symm hj)] at hmem
    rw [Function.update_of_ne hj]
    exact h.told j id hmem

/-- A thread that keeps its id leaves the order as it is. -/
theorem id_update {ph' : Issuing} (hid : ph'.id? = (phs i).id?) (j : ι) :
    (Function.update phs i ph' j).id? = (phs j).id? := by
  by_cases hj : j = i
  · subst hj
    rw [Function.update_self, hid]
  · rw [Function.update_of_ne hj]

/-- A step that rewrites no record. -/
theorem Issued.pass {ph' : Issuing} (h : Issued C last t r phs order)
    (hact : recordAct ev ≠ some (.write true))
    (hid : ph'.id? = (phs i).id?) (hrefused : ph' ≠ .refused)
    (hknown : ∀ e, ph'.known = some e → r = some e ∨
        (recordAct ev = none ∧ (phs i).known = some e))
    (hclosing : ∀ id, phs i = .closing id → ph' = .closing id)
    (htold : ∀ id : UInt32, ev = toldEvent (decimal id.toNat ++ [0]) → ph' = .closing id) :
    Issued C last (t ++ [(i, ev)]) r (Function.update phs i ph') order where
  nodup := h.nodup
  record := h.record
  ids n j hj := by
    rw [id_update hid]
    exact h.ids n j hj
  members j hj := by
    rw [id_update hid] at hj
    exact h.members j hj
  fresh j e hj hfresh := by
    by_cases hji : j = i
    · subst hji
      rw [Function.update_self] at hj
      rcases hknown e hj with hr | ⟨hnone, hbefore⟩
      · exact hr
      · rw [recordActs_snoc_none hnone] at hfresh
        exact h.fresh j e hbefore hfresh
    · rw [Function.update_of_ne hji] at hj
      rw [overtaken_quiet hact hji] at hfresh
      exact h.fresh j e hj hfresh
  kept j := by
    by_cases hji : j = i
    · subst hji
      rwa [Function.update_self]
    · rw [Function.update_of_ne hji]
      exact h.kept j
  told := h.told_snoc hclosing htold

/-! ### A step that gives an id -/

/-- Behind a rewriting nobody else knows the record. -/
theorem fresh_write {ph' : Issuing} {r' : Option Entry} (hact : recordAct ev = some (.write true))
    (hknown : ph'.known = none) (j : ι) (e : Entry)
    (hj : (Function.update phs i ph' j).known = some e)
    (hfresh : overtaken j (recordActs (t ++ [(i, ev)])) = false) : r' = some e := by
  by_cases hji : j = i
  · subst hji
    rw [Function.update_self, hknown] at hj
    cases hj
  · rw [overtaken_write hact hji] at hfresh
    cases hfresh

/-- No other thread refuses when one goes on. -/
theorem Issued.kept_update {ph' : Issuing} (h : Issued C last t r phs order)
    (hrefused : ph' ≠ .refused) (j : ι) :
    Function.update phs i ph' j ≠ .refused := by
  by_cases hji : j = i
  · subst hji
    rwa [Function.update_self]
  · rw [Function.update_of_ne hji]
    exact h.kept j

/-- A thread takes the next id. -/
theorem Issued.issue (hC : ∀ id, C.Good id → id < msgIdMaxValue) {e : Entry}
    (h : Issued C last t (some e) phs order) (hi : phs i = .looked e)
    (hact : recordAct ev = some (.write true)) (hquiet : ∀ bytes, ev ≠ toldEvent bytes) :
    Issued C last (t ++ [(i, ev)]) (some e.next)
      (Function.update phs i (.numbered e.next.user.lastMsgId none)) (order ++ [i]) := by
  obtain ⟨e', he, huser, hcount⟩ := h.record
  obtain rfl : e = e' := Option.some.inj he
  have hnew : i ∉ order := by
    intro hmem
    obtain ⟨n, hn⟩ := List.mem_iff_getElem?.mp hmem
    obtain ⟨id, hid, -⟩ := h.ids n i hn
    rw [hi] at hid
    cases hid
  -- the counter is the one before, plus the number of ids given since
  have hnext : e.next.user.lastMsgId.toNat = (last + order.length + 1) % msgIdMaxValue.toNat := by
    obtain ⟨v, ud, rfl, -, hgood⟩ := id huser
    have hsucc : (nextMsgId ud.lastMsgId).toNat = (ud.lastMsgId.toNat + 1) % msgIdMaxValue.toNat :=
      toNat_nextMsgId (hC _ hgood)
    have hcount' : ud.lastMsgId.toNat = (last + order.length) % msgIdMaxValue.toNat := hcount
    rw [hcount', Nat.mod_add_mod] at hsucc
    exact hsucc
  constructor
  · rw [List.nodup_append_comm, List.singleton_append, List.nodup_cons]
    exact ⟨hnew, h.nodup⟩
  · refine ⟨e.next, rfl, huser.next, ?_⟩
    rw [hnext, List.length_append, List.length_singleton, Nat.add_assoc]
  · intro n j hj
    by_cases hn : n < order.length
    · rw [List.getElem?_append_left hn] at hj
      have hji : j ≠ i := by
        rintro rfl
        exact hnew (List.mem_of_getElem? hj)
      rw [Function.update_of_ne hji]
      exact h.ids n j hj
    · -- the last one in the order
      rw [List.getElem?_append_right (not_lt.mp hn), List.getElem?_singleton] at hj
      split at hj
      · rename_i hzero
        obtain rfl : i = j := Option.some.inj hj
        obtain rfl : n = order.length := by omega
        rw [Function.update_self]
        exact ⟨_, rfl, hnext⟩
      · cases hj
  · intro j hj
    by_cases hji : j = i
    · subst hji
      exact List.mem_append_right _ (List.mem_singleton_self _)
    · rw [Function.update_of_ne hji] at hj
      exact List.mem_append_left _ (h.members j hj)
  · exact fun j e' => fresh_write hact rfl j e'
  · exact h.kept_update nofun
  · exact h.told_snoc (fun id hid => by rw [hi] at hid; cases hid) fun id htold =>
      absurd htold (hquiet _)

/-- A thread writes down that the recipient is not connected. -/
theorem Issued.mark {e : Entry} {id : UInt32} (h : Issued C last t (some e) phs order)
    (hi : phs i = .numbered id (some e)) (hact : recordAct ev = some (.write true))
    (hquiet : ∀ bytes, ev ≠ toldEvent bytes) :
    Issued C last (t ++ [(i, ev)]) (some e.disconnected)
      (Function.update phs i (.numbered id none)) order := by
  obtain ⟨e', he, huser, hcount⟩ := h.record
  obtain rfl : e = e' := Option.some.inj he
  have hid : (Issuing.numbered id none).id? = (phs i).id? := by
    rw [hi]
    rfl
  constructor
  · exact h.nodup
  · refine ⟨e.disconnected, rfl, huser.mapUser fun _ => rfl, ?_⟩
    obtain ⟨v, ud, rfl, -⟩ := huser
    exact hcount
  · intro n j hj
    rw [id_update hid]
    exact h.ids n j hj
  · intro j hj
    rw [id_update hid] at hj
    exact h.members j hj
  · exact fun j e' => fresh_write hact rfl j e'
  · exact h.kept_update nofun
  · exact h.told_snoc (fun id' hid' => by rw [hi] at hid'; cases hid') fun id' htold =>
      absurd htold (hquiet _)

/-! ### Any step -/

/-- **The step lemma.** -/
theorem Issued.step (hC : ∀ id, C.Good id → id < msgIdMaxValue) {ph' : Issuing}
    (h : Issued C last t r phs order) (hunraced : Unraced (t ++ [(i, ev)]))
    (hmove : IssueMove r r' (phs i) ev ph') :
    ∃ order', Issued C last (t ++ [(i, ev)]) r' (Function.update phs i ph') order' := by
  generalize hph : phs i = ph at hmove
  have hact : ∀ {e : Entry} {x : ℤ × Entry}, 0 ≤ x.1 →
      recordAct ⟨.db (.ioOpUsrEnt e .modify), x⟩ = some (.write true) := by
    intro e x hx
    show some (RecordAct.write (decide (0 ≤ x.1))) = _
    rw [decide_eq_true hx]
  cases hmove with
  | pass hr hquiet hid hrefused hknown hclosing htold =>
      subst hr hph
      exact ⟨order, h.pass hquiet hid hrefused hknown hclosing htold⟩
  | @issue e x hlooked hr hx =>
      -- the thread is not overtaken, so it has read the record as it is
      have hrec : r = some e := by
        apply h.fresh i e
        · rw [hph, hlooked]
          rfl
        · exact hunraced.not_overtaken (hact hx)
      subst hr hrec
      exact ⟨order ++ [i], h.issue hC (hph.trans hlooked) (hact hx) nofun⟩
  | @mark id e x hnumbered hr hx =>
      have hrec : r = some e := by
        apply h.fresh i e
        · rw [hph, hnumbered]
          rfl
        · exact hunraced.not_overtaken (hact hx)
      subst hr hrec
      exact ⟨order, h.mark (hph.trans hnumbered) (hact hx) nofun⟩

end Invariant

/-! ## Runs -/

/-- Every step on the database succeeds. -/
def AllSucceed {ι : Type} (t : List (ι × srvE.Event)) : Prop := ∀ e ∈ t, succeeded e.2 = true

instance {ι : Type} (t : List (ι × srvE.Event)) : Decidable (AllSucceed t) :=
  List.decidableBAll _ t

/-- No two threads report the same id; when all have ended, the record has counted them. -/
structure IdsApart {ι α : Type} [DecidableEq ι] [Fintype ι] (u : Bytes) (ud : Userdata)
    (t : List (ι × srvE.Event)) (fs : FS) (ps : ι → Srv α) : Prop where
  distinct : ∀ i j (id : UInt32), toldEvent (decimal id.toNat ++ [0]) ∈ threadEvents i t →
    toldEvent (decimal id.toNat ++ [0]) ∈ threadEvents j t → i = j
  advanced : (∀ i, ∃ a, ps i = .ret a) → ∃ e, fs.Stores u e ∧
    e.user.lastMsgId.toNat = (ud.lastMsgId.toNat + Fintype.card ι) % msgIdMaxValue.toNat

section Runs

variable {ι : Type} [DecidableEq ι] {u : Bytes} {sender content : ι → Bytes}
  {t : List (ι × srvE.Event)}
  {ps : ι → Srv Unit}

/-- **The run lemma.** -/
theorem issued_run {C : Confinement} (hC : ∀ id, C.Good id → id < msgIdMaxValue)
    (hu : C.Same u) {e : Entry}
    (he : C.User e) {last : ℕ} (hlast : e.user.lastMsgId.toNat = last % msgIdMaxValue.toNat)
    {r : Option Entry}
    (h : Interleave (RecordStep C) (some e) (fun i => srvSendBody (sender i) u (content i)) t r ps)
    (hsucc : AllSucceed t) (hunraced : Unraced t) :
    ∃ phs order, Issued C last t r phs order ∧
      ∀ i, (ps i).Obeys (issuing C) (fun ph _ => ph = .refused ∨
          ∃ id, ph = .closing id) (phs i) := by
  have hkeep : ∀ (t : List (ι × srvE.Event)) (r : Option Entry) (phs : ι → Issuing)
      (i : ι) (o : SrvOp)
      (x : o.Ans) (r' : Option Entry), (AllSucceed t → Unraced t →
        ∃ order, Issued C last t r phs order) →
      (issuing C).allowed (phs i) o → RecordStep C r o x r' →
      (issuing C).possible (phs i) o x ∧
        (AllSucceed (t ++ [(i, ⟨o, x⟩)]) → Unraced (t ++ [(i, ⟨o, x⟩)]) →
          ∃ order, Issued C last (t ++ [(i, ⟨o, x⟩)]) r'
            (Function.update phs i ((issuing C).next (phs i) o x)) order) := by
    intro t r phs i o x r' hinv hallowed hstep
    constructor
    · exact possible_issuing hstep
    · intro hsucc hunraced
      obtain ⟨order, hbefore⟩ :=
        hinv (fun e he => hsucc e (List.mem_append_left _ he)) hunraced.of_append
      have hlast : succeeded ⟨o, x⟩ = true :=
        hsucc _ (List.mem_append_right _ (List.mem_singleton_self _))
      exact hbefore.step hC hunraced (issueMove (hbefore.kept i) hallowed hlast hstep)
  obtain ⟨phs, hinv, hobeys⟩ := h.invariant (D := fun _ => issuing C)
    (I := fun t r phs => AllSucceed t → Unraced t →
      ∃ order, Issued C last t r phs order) hkeep
    (fun i => obeys_issuing (sender i) hu (content i)) fun _ _ => ⟨[], issued_start he hlast⟩
  obtain ⟨order, hissued⟩ := hinv hsucc hunraced
  exact ⟨phs, order, hissued, hobeys⟩

/-- **Different ids for concurrent messages.**  Any number of threads below the bound of the ids
handle `SEND` to one user, and every step on the database succeeds.  In every state that is reached
when no thread rewrites the record after another one has rewritten it since this thread read it, the
ids reported are different; when all have ended, the record has counted all of them. -/
theorem concurrent_ids [Fintype ι] {fs₀ fs : FS} (hreach : Reachable fs₀)
    (hu : FitsBuf maxStrSize u) {v : Bytes}
    (hv : FitsBuf maxStrSize v) {ud : Userdata} (hstored : fs₀.Stores u ⟨v, .user ud⟩)
    (hsender : ∀ i, FitsBuf maxStrSize (sender i))
    (hcontent : ∀ i, FitsBuf maxMsgSize (content i))
    (hcard : Fintype.card ι < msgIdMaxValue.toNat)
    (h : Interleave SharedStep fs₀ (fun i => srvSendBody (sender i) u (content i)) t fs ps)
    (hsucc : AllSucceed t) (hunraced : Unraced t) : IdsApart u ud t fs ps := by
  have hname : NameOf fs₀.cwd (fs₀.table u) u := ⟨hu, rfl⟩
  have hrecords := hstored.records hreach.schema hv
  obtain ⟨r, hrun, -, hrecords'⟩ := interleave_record hrecords
    (fun i => obeys_srvSendBody hname (hsender i) (hcontent i)) h
  have hgood : ∀ id, (tableNames fs₀.cwd (fs₀.table u)).Good id → id < msgIdMaxValue :=
    fun _ hid => hid
  have huser := hrecords.own _ rfl
  have hlast : ud.lastMsgId.toNat = ud.lastMsgId.toNat % msgIdMaxValue.toNat := by
    obtain ⟨w, ud', heq, -, hlt⟩ := id huser
    obtain ⟨-, hdata⟩ := Entry.mk.inj heq
    obtain rfl := EntryData.user.inj hdata
    exact (Nat.mod_eq_of_lt (UInt32.lt_iff_toNat_lt.mp hlt)).symm
  obtain ⟨phs, order, hissued, hobeys⟩ := issued_run hgood hname huser hlast hrun hsucc hunraced
  have hlen : order.length ≤ Fintype.card ι := hissued.nodup.length_le_card
  constructor
  · intro i j id hi hj
    have hphi := hissued.told i id hi
    have hphj := hissued.told j id hj
    obtain ⟨m, hm⟩ := List.mem_iff_getElem?.mp (hissued.members i (by rw [hphi]; exact nofun))
    obtain ⟨n, hn⟩ := List.mem_iff_getElem?.mp (hissued.members j (by rw [hphj]; exact nofun))
    obtain ⟨id₁, hid₁, hm'⟩ := hissued.ids m i hm
    obtain ⟨id₂, hid₂, hn'⟩ := hissued.ids n j hn
    rw [hphi] at hid₁
    rw [hphj] at hid₂
    obtain rfl := Option.some.inj hid₁
    obtain rfl := Option.some.inj hid₂
    have hmlt : m < order.length := (List.getElem?_eq_some_iff.mp hm).1
    have hnlt : n < order.length := (List.getElem?_eq_some_iff.mp hn).1
    -- two places that agree modulo the bound, and both are below it
    have hmax : msgIdMaxValue.toNat = 2 ^ 32 - 1 := rfl
    have hsame : m = n := by
      rw [hmax] at hm' hn' hcard
      omega
    subst hsame
    exact Option.some.inj (hm.symm.trans hn)
  · intro hended
    obtain ⟨e, rfl, -, hcount⟩ := hissued.record
    have hmem : ∀ i, i ∈ order := by
      intro i
      obtain ⟨a, ha⟩ := hended i
      have hclosed := hobeys i
      rw [ha] at hclosed
      obtain ⟨id, hid⟩ := hclosed.resolve_left (hissued.kept i)
      exact hissued.members i (by rw [hid]; exact nofun)
    have hall : order.length = Fintype.card ι := by
      apply le_antisymm hlen
      exact (Finset.card_le_card fun i _ => List.mem_toFinset.mpr (hmem i)).trans
        (List.toFinset_card_le order)
    exact ⟨e, hrecords'.stores, by rw [hcount, hall]⟩

end Runs

/-! ## Two messages -/

/-- Two threads send a message from `b` to `a` each, who is connected, and take the given turns. -/
def twoSend (turns : List Bool) : List (Bool × srvE.Event) × FS × (Bool → Srv Unit) :=
  schedule (fun (_ : Unit) => sharedApply) (turns.map fun i => (i, ())) connectedA
    fun _ => srvSendBody (ascii "b") (ascii "a") (ascii "hi")

/-- Two `SEND`s as an interleaving. -/
theorem interleave_twoSend (turns : List Bool) :
    Interleave SharedStep connectedA (fun _ => srvSendBody (ascii "b") (ascii "a") (ascii "hi"))
      (twoSend turns).1 (twoSend turns).2.1 (twoSend turns).2.2 :=
  interleave_schedule (fun _ o fs => sharedStep_apply o fs) _ _ _

/-- One message after the other. -/
def sendInTurn : List Bool := List.replicate 24 true ++ List.replicate 24 false

/-- Both threads read the record before one of them rewrites it. -/
def bothLook : List Bool :=
  List.replicate 4 true ++ List.replicate 24 false ++ List.replicate 20 true

/-- The record of `a`. -/
theorem connectedA_stores :
    connectedA.Stores (ascii "a")
      ⟨ascii "a", .user ((default : Userdata).connected 0 7000)⟩ := by
  show connectedA.get _ = _
  decide +kernel

/-- Requests in turn meet the conditions. -/
theorem sendInTurn_keeps :
    AllSucceed (twoSend sendInTurn).1 ∧ Unraced (twoSend sendInTurn).1 := by
  decide +kernel

/-- The law at requests in turn. -/
theorem concurrent_ids_sendInTurn : IdsApart (ascii "a") ((default : Userdata).connected 0 7000)
    (twoSend sendInTurn).1 (twoSend sendInTurn).2.1 (twoSend sendInTurn).2.2 :=
  concurrent_ids connectedA_reachable (by decide) (by decide : FitsBuf maxStrSize (ascii "a"))
    connectedA_stores
    (fun _ => by decide) (fun _ => by decide) (by decide) (interleave_twoSend sendInTurn)
      sendInTurn_keeps.1
    sendInTurn_keeps.2

/-- Every step succeeds, and both threads report the id 1. -/
theorem bothLook_tells : AllSucceed (twoSend bothLook).1 ∧
    ∀ i, (threadEvents i (twoSend bothLook).1).any (isTold (decimal 1 ++ [0])) = true := by
  decide +kernel

/-- **One id for two messages.**  Both threads read the record before one of them rewrites it. -/
theorem not_concurrent_ids :
    ¬ ∀ (ι : Type) [DecidableEq ι] [Fintype ι] (sender content : ι → Bytes) (u : Bytes)
      (fs₀ fs : FS)
        (v : Bytes) (ud : Userdata) (t : List (ι × srvE.Event)) (ps : ι → Srv Unit),
          Reachable fs₀ →
      FitsBuf maxStrSize u → FitsBuf maxStrSize v → fs₀.Stores u ⟨v, .user ud⟩ →
      (∀ i, FitsBuf maxStrSize (sender i)) → (∀ i, FitsBuf maxMsgSize (content i)) →
      Fintype.card ι < msgIdMaxValue.toNat →
      Interleave SharedStep fs₀ (fun i => srvSendBody (sender i) u (content i)) t fs ps →
        AllSucceed t →
      IdsApart u ud t fs ps := by
  intro h
  have hapart :=
    h Bool (fun _ => ascii "b") (fun _ => ascii "hi") (ascii "a") connectedA _ (ascii "a") _ _ _
    connectedA_reachable (by decide) (by decide) connectedA_stores (fun _ => by decide)
      (fun _ => by decide)
    (by decide) (interleave_twoSend bothLook) bothLook_tells.1
  have htold : ∀ i, toldEvent (decimal (1 : UInt32).toNat ++ [0]) ∈
      threadEvents i (twoSend bothLook).1 :=
    fun i => mem_told_iff.mpr (bothLook_tells.2 i)
  exact absurd (hapart.distinct true false 1 (htold true) (htold false)) (by decide)
