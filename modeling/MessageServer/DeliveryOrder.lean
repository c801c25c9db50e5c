/-
# The order in which messages arrive

* `InOrder`: messages are transmitted in the order of their `SEND`s, but for those that wait
  together;
* `run_inOrder`: so it is while no other user's table meets the user's;
* `not_run_inOrder`: messages that wait together overtake each other;
* `not_inOrder_of_tableInside`: another user's table among the messages stops the drain.
-/
import MessageServer.Posts

/-! ## Histories -/

section Histories

variable {u : Bytes} {a a' : Account} {H : List Turned} {step : Turned} {i j : ℕ} {m : Message}

/-- What has been admitted stays so. -/
theorem AdmittedAt.snoc (step : Turned) (h : AdmittedAt u H i m) :
    AdmittedAt u (H ++ [step]) i m := by
  obtain ⟨step', hi, hm⟩ := h
  refine ⟨step', ?_, hm⟩
  rw [List.getElem?_append_left (List.getElem?_eq_some_iff.mp hi).1]
  exact hi

/-- A message is admitted at one of the requests. -/
theorem AdmittedAt.lt (h : AdmittedAt u H i m) : i < H.length := by
  obtain ⟨step, hi, -⟩ := h
  exact (List.getElem?_eq_some_iff.mp hi).1

/-- A message may be admitted at the last request. -/
theorem admittedAt_last (h : admittedIn u step = some m) : AdmittedAt u (H ++ [step]) H.length m :=
  ⟨step, by simp, h⟩

/-- Messages that waited together did. -/
theorem Together.snoc (h : Together u H i j) : Together u (H ++ [step]) i j := by
  obtain ⟨H₁, H₂, rfl, hi, hj, hnot⟩ := h
  exact ⟨H₁, H₂ ++ [step], List.append_assoc H₁ H₂ [step], hi, hj, hnot⟩

/-- The transmissions of one more request. -/
theorem transmissions_snoc : transmissions u (H ++ [step]) = transmissions u H ++
    if step.1.user = some u then (acts step.2).filterMap Act.delivers else [] := by
  rw [transmissions, List.flatMap_append, List.flatMap_singleton]
  rfl

/-- A message that a list contains comes before what is added. -/
theorem idxOf_lt_of_append {l l' : List ℕ} (hi : i ∈ l) (hj : j ∉ l) :
    (l ++ l').idxOf i < (l ++ l').idxOf j := by
  rw [List.idxOf_append_of_mem hi, List.idxOf_append_of_notMem hj]
  exact Nat.lt_add_right _ (List.idxOf_lt_length_iff.mpr hi)

/-! ### What has been conveyed -/

/-- What the account and the messages to the user tell after a history. -/
structure Conveyed (u : Bytes) (H : List Turned) (a : Account) : Prop where
  stray : a.stray = false
  owned : a.Owned
  matched : (post u H).Matches (AdmittedAt u H) a
  spent : (post u H).Spent a
  inOrder : InOrder u H
  /-- A message that waits, while a later one has been transmitted, has waited with it. -/
  passed : ∀ i j, i < j → (post u H).Waits i → i ∉ (post u H).order →
    j ∈ (post u H).order → Together u H i j

/-- The messages in the order have been admitted. -/
theorem InOrder.lt (h : InOrder u H) (hi : i ∈ (post u H).order) : i < H.length := by
  obtain ⟨⟨k, m⟩, hmem, rfl⟩ := List.mem_map.mp hi
  exact (h.admitted k m hmem).lt

/-- A new account has conveyed nothing. -/
theorem conveyed_nil : Conveyed u [] .empty where
  stray := rfl
  owned := fun _ _ => rfl
  matched := by
    constructor
    · intro id m hm
      cases hm
    · exact fun _ _ => rfl
  spent := by
    intro ud hud
    cases hud
  inOrder := by
    refine ⟨rfl, fun i m hm => ?_, fun i j _ hi => ?_⟩
    · cases hm
    · cases hi
  passed := by
    intro i j _ hi
    obtain ⟨id, hid⟩ := hi
    cases hid

/-- A post matches a weaker account of what is admitted. -/
theorem Post.Matches.mono {A A' : ℕ → Message → Prop} {p : Post} (h : p.Matches A a)
    (hA : ∀ i m, A i m → A' i m) : p.Matches A' a := by
  refine ⟨fun id m hm => ?_, h.free⟩
  obtain ⟨i, hi, hA'⟩ := h.held id m hm
  exact ⟨i, hi, hA i m hA'⟩

/-- A request for somebody else. -/
theorem Conveyed.other (h : Conveyed u H a) (huser : step.1.user ≠ some u) :
    Conveyed u (H ++ [step]) a := by
  have hpost : post u (H ++ [step]) = post u H := by
    rw [post_snoc]
    exact if_neg huser
  refine ⟨h.stray, h.owned, ?_, ?_, ⟨?_, fun i m hm => ?_, fun i j hij hi hj => ?_⟩,
    fun i j hij hi hnot hj => ?_⟩
  · rw [hpost]
    exact h.matched.mono fun _ _ hA => hA.snoc _
  · rw [hpost]
    exact h.spent
  · rw [hpost, transmissions_snoc, if_neg huser, List.append_nil]
    exact h.inOrder.transmitted
  · rw [hpost] at hm
    exact (h.inOrder.admitted i m hm).snoc _
  · rw [hpost] at hi hj ⊢
    exact (h.inOrder.order i j hij hi hj).imp_right Together.snoc
  · rw [hpost] at hi hnot hj
    exact (h.passed i j hij hi hnot hj).snoc

/-- **A request of the user** keeps the order. -/
theorem Conveyed.own {req : Req} {t : List srvE.Event} (h : Conveyed u H a)
    (huser : req.user = some u)
    (hserved : Served u a req (acts t) a') : Conveyed u (H ++ [(req, t)]) a' := by
  obtain ⟨hmatched, hwaits, ⟨l, hl, hms, hnew⟩, hspent⟩ :=
    hserved.post (k := H.length) h.stray h.owned
    (h.matched.mono fun _ _ hA => hA.snoc _) fun m hm => admittedAt_last hm
  have hpost : post u (H ++ [(req, t)]) = (acts t).foldl (Post.act H.length req) (post u H) := by
    rw [post_snoc]
    exact if_pos huser
  rw [← hpost] at hmatched hwaits hl hspent
  have horder : (post u (H ++ [(req, t)])).order = (post u H).order ++ l.map Prod.fst := by
    rw [Post.order, hl, List.map_append]
    rfl
  have hadmitted : ∀ i m, (i, m) ∈ (post u (H ++ [(req, t)])).sent →
      AdmittedAt u (H ++ [(req, t)]) i m := by
    intro i m hm
    rw [hl] at hm
    rcases List.mem_append.mp hm with hm | hm
    · exact (h.inOrder.admitted i m hm).snoc _
    · exact (hnew _ hm).1
  have hlast : ∀ j ∈ l.map Prod.fst, j ≤ H.length := by
    intro j hj
    obtain ⟨⟨k, m⟩, hmem, rfl⟩ := List.mem_map.mp hj
    have hlt := (hnew _ hmem).1.lt
    rw [List.length_append, List.length_singleton] at hlt
    exact Nat.lt_succ_iff.mp hlt
  -- a message that waits and was not transmitted before: what is transmitted now waits with it
  have htogether : ∀ i, (post u H).Waits i → i ∉ (post u H).order →
      ∀ j ∈ l.map Prod.fst,
      Together u (H ++ [(req, t)]) i j := by
    intro i hi hnot j hj
    obtain ⟨⟨k, m⟩, hmem, rfl⟩ := List.mem_map.mp hj
    rcases (hnew _ hmem).2 with hwait | ⟨-, ud, hud, hcn⟩
    · exact ⟨H, [(req, t)], rfl, hi, hwait, hnot⟩
    · exact absurd (h.spent ud hud hcn i hi) hnot
  refine ⟨hserved.stray h.stray, hserved.owned h.owned, hmatched, hspent h.spent,
    ⟨?_, hadmitted, fun i j hij hi hj => ?_⟩, fun i j hij hi hnot hj => ?_⟩
  · rw [transmissions_snoc, if_pos huser, hl, List.map_append, h.inOrder.transmitted, hms]
  · rw [horder, List.mem_append] at hi hj
    rw [horder]
    by_cases hi' : i ∈ (post u H).order
    · by_cases hj' : j ∈ (post u H).order
      · rw [List.idxOf_append_of_mem hi', List.idxOf_append_of_mem hj']
        exact (h.inOrder.order i j hij hi' hj').imp_right Together.snoc
      · exact Or.inl (idxOf_lt_of_append hi' hj')
    · right
      obtain ⟨⟨k, m⟩, hmem, rfl⟩ := List.mem_map.mp (hi.resolve_left hi')
      rcases (hnew _ hmem).2 with hwait | ⟨rfl, -⟩
      · rcases hj with hj | hj
        · exact (h.passed _ j hij hwait hi' hj).snoc
        · exact htogether _ hwait hi' j hj
      · rcases hj with hj | hj
        · exact absurd (h.inOrder.lt hj) (by omega)
        · exact absurd (hlast j hj) (by omega)
  · rw [horder, List.mem_append, not_or] at hnot
    rw [horder, List.mem_append] at hj
    rcases hwaits i hi with hwait | rfl
    · rcases hj with hj | hj
      · exact (h.passed i j hij hwait hnot.1 hj).snoc
      · exact htogether i hwait hnot.1 j hj
    · rcases hj with hj | hj
      · exact absurd (h.inOrder.lt hj) (by omega)
      · exact absurd (hlast j hj) (by omega)

/-! ### The order -/

/-- **The law of the order.**  From an empty database, in every history in which no request is for
another user whose table meets that of `u`, messages to `u` are transmitted in the order in which
they were accepted, but for those that wait together. -/
theorem run_inOrder {fs₀ fs : FS} (hu : slash ∉ u) (hfresh : fs₀.Fresh)
    (h : Run (HandledApart u) fs₀ H fs) :
    InOrder u H := by
  obtain ⟨a, hrun, -⟩ := run_turns hu (hfresh.keeps hu) (fun _ _ _ => HandledApart.elsewhere) h
  suffices hconveyed : Conveyed u H a from hconveyed.inOrder
  refine hrun.invariant (I := Conveyed u) conveyed_nil fun H₁ a₁ step a₂ hc hturn => ?_
  rcases hturn with ⟨huser, hserved⟩ | ⟨huser, stray, hsame, rfl⟩
  · exact hc.own huser hserved
  · obtain rfl : stray = a₁.stray := hsame trivial
    exact hc.other huser

end Histories

/-! ## Two messages that wait -/

/-- A script without faults, of users whose names have no `/`. -/
theorem run_script_apart {u : Bytes} {fuel : ℕ} {script : Script} {fs : FS} (hu : slash ∉ u)
    (hcalm : ∀ c ∈ script, ∀ n, (c.2 n).Calm) (h : Plays fuel script fs)
    (hreqs : ∀ c ∈ script, ∀ v, c.1.user = some v → slash ∉ v) :
    Run (HandledApart u) fs (history fuel script fs).1 (history fuel script fs).2 := by
  have hrun := run_history (T := noFaults)
    (fun c hc n call fs => (exec_sysRun (c.2 n).sys (hcalm c hc n) (call.prog fs.depth) fs).2) h
  refine (hrun.labels (P := fun step => ∀ v, step.1.user = some v → slash ∉ v)
    fun step hstep v hv => ?_).mono
    fun fs₁ step fs₂ hstep => ⟨hstep.1, fun v hv => ?_⟩
  · have hmem : step.1 ∈ (history fuel script fs).1.map Prod.fst := List.mem_map_of_mem hstep
    rw [history_requests] at hmem
    obtain ⟨c, hc, heq⟩ := List.mem_map.mp hmem
    exact hreqs c hc v (by rw [heq]; exact hv)
  · by_cases heq : v = u
    · exact Or.inl heq
    · exact Or.inr (unrelated_of_noSlash _ (hstep.2 v hv) hu heq)

/-- A run of requests for names without `/` keeps the tables apart. -/
theorem run_calmly_apart {u : Bytes} {fuel : ℕ} {reqs : List Req} {fs : FS} (hu : slash ∉ u)
    (h : Plays fuel (calmly reqs) fs) (hreqs : ∀ req ∈ reqs, ∀ v, req.user = some v →
        slash ∉ v) :
    Run (HandledApart u) fs (history fuel (calmly reqs) fs).1
      (history fuel (calmly reqs) fs).2 := by
  refine run_script_apart hu (fun c hc n => ?_) h fun c hc => ?_
  · obtain ⟨req, -, rfl⟩ := List.mem_map.mp hc
    exact calm_calm n
  · obtain ⟨req, hreq, rfl⟩ := List.mem_map.mp hc
    exact hreqs req hreq

/-- Two messages wait for `b`, who then connects. -/
def sendTwoThenConnect : List Req :=
  [.register (ascii "a"), .register (ascii "b"), .send (ascii "a") (ascii "b") (ascii "hi"),
    .send (ascii "a") (ascii "b") (ascii "ho"), .connect (ascii "b") (ascii "80")]

/-- Two messages wait for `b`, and the second is listed first. -/
theorem sendTwoThenConnect_plays : Plays 3 (calmly sendTwoThenConnect) emptyDb ∧
    (post (ascii "b") (history 3 (calmly sendTwoThenConnect) emptyDb).1).sent =
      [(3, ⟨ascii "a", 2, ascii "ho"⟩), (2, ⟨ascii "a", 1, ascii "hi"⟩)] := by
  decide +kernel

/-- The order of this run. -/
theorem run_inOrder_two : InOrder (ascii "b") (history 3 (calmly sendTwoThenConnect) emptyDb).1 :=
  run_inOrder (by decide) emptyDb_fresh
    (run_calmly_apart (by decide) sendTwoThenConnect_plays.1 (by decide))

/-- **Messages that wait together overtake each other.**  The directory lists the second one
first. -/
theorem not_run_inOrder :
    ¬ ∀ (u : Bytes) (fs₀ fs : FS) (H : List Turned), slash ∉ u → fs₀.Fresh →
      H.length < 2 ^ 32 - 1 →
      Run (HandledApart u) fs₀ H fs → ∀ i j m m', i < j → (i, m) ∈ (post u H).sent →
        (j, m') ∈ (post u H).sent → m.sender = m'.sender →
        (post u H).order.idxOf i < (post u H).order.idxOf j := by
  intro h
  obtain ⟨hplays, hsent⟩ := sendTwoThenConnect_plays
  have hlt := h (ascii "b") emptyDb _ _ (by decide) emptyDb_fresh (by decide +kernel)
    (run_calmly_apart (by decide) hplays (by decide)) 2 3
    ⟨ascii "a", 1, ascii "hi"⟩ ⟨ascii "a", 2, ascii "ho"⟩ (by decide)
    (by rw [hsent]; exact List.mem_cons_of_mem _ List.mem_cons_self)
    (by rw [hsent]; exact List.mem_cons_self) rfl
  rw [Post.order, hsent] at hlt
  exact absurd hlt (by decide)

/-! ## Another name in the table -/

/-- What waits after an action waited before, or has just been stored. -/
theorem Post.waits_act {k i : ℕ} {req : Req} {p : Post} {x : Act} (h : (p.act k req x).Waits i) :
    p.Waits i ∨ (i = k ∧ ∃ m, x = .stored m true) := by
  unfold Post.act at h
  split at h
  · obtain ⟨id, hid⟩ := h
    rcases update_eq_iff.mp hid with ⟨-, heq⟩ | ⟨-, hi⟩
    · exact Or.inr ⟨(Option.some.inj heq).symm, _, rfl⟩
    · exact Or.inl ⟨id, hi⟩
  · exact Or.inl (Post.waits_of_drop h)
  · split at h
    · obtain ⟨id, hid⟩ := h
      cases hid
    · exact Or.inl h
  · split at h
    · split at h
      · exact Or.inl h
      · exact Or.inl h
    · exact Or.inl h
  · exact Or.inl h

/-- So for all actions of a request. -/
theorem Post.waits_foldl {k i : ℕ} {req : Req} {p : Post} {l : List Act}
    (h : (l.foldl (Post.act k req) p).Waits i) :
    p.Waits i ∨ (i = k ∧ ∃ m, Act.stored m true ∈ l) := by
  induction l generalizing p with
  | nil => exact Or.inl h
  | cons x l ih =>
      rcases ih h with hwaits | ⟨hi, m, hm⟩
      · rcases Post.waits_act hwaits with hwaits | ⟨hi, m, rfl⟩
        · exact Or.inl hwaits
        · exact Or.inr ⟨hi, m, List.mem_cons_self⟩
      · exact Or.inr ⟨hi, m, List.mem_cons_of_mem _ hm⟩

/-- A message that waits was stored by its own request. -/
theorem stored_of_waits {u : Bytes} {H : List Turned} {i : ℕ} (h : (post u H).Waits i) :
    ∃ step m, H[i]? = some step ∧ Act.stored m true ∈ acts step.2 := by
  induction H using List.reverseRecOn with
  | nil =>
      obtain ⟨id, hid⟩ := h
      cases hid
  | append_singleton H step ih =>
      have hbefore : (post u H).Waits i →
          ∃ step' m, (H ++ [step])[i]? = some step' ∧ Act.stored m true ∈ acts step'.2 := by
        intro hwaits
        obtain ⟨step', m, hi, hm⟩ := ih hwaits
        refine ⟨step', m, ?_, hm⟩
        rw [List.getElem?_append_left (List.getElem?_eq_some_iff.mp hi).1]
        exact hi
      rw [post_snoc] at h
      unfold Post.turn at h
      split at h
      · rcases Post.waits_foldl h with hwaits | ⟨rfl, m, hm⟩
        · exact hbefore hwaits
        · exact ⟨step, m, by simp, hm⟩
      · exact hbefore h

/-- A table inside that of `b` stops the drain, so that `b` is connected while a message waits. -/
def tableInside : List Req :=
  [.register (ascii "a"), .register (ascii "b"), .send (ascii "a") (ascii "b") (ascii "hi"),
    .register (ascii "b-table/pend_msgs-table/x"), .connect (ascii "b") (ascii "80"),
    .send (ascii "a") (ascii "b") (ascii "ho"), .disconnect (ascii "b"),
    .unregister (ascii "b-table/pend_msgs-table/x"), .connect (ascii "b") (ascii "80")]

/-- A thread stores a message. -/
def storesMessage (t : List srvE.Event) : Bool :=
  (acts t).any fun
    | .stored _ ok => ok
    | _ => false

/-- A table inside the directory of messages stops the drain. -/
theorem tableInside_plays : Plays 3 (calmly tableInside) emptyDb ∧
    (post (ascii "b") (history 3 (calmly tableInside) emptyDb).1).order = [5, 2] ∧
    ((history 3 (calmly tableInside) emptyDb).1[5]?.map fun step => storesMessage step.2) =
      some false := by
  decide +kernel

/-- **Another name overtakes.**  A message that is sent while `b` is connected arrives before the
one that waits. -/
theorem not_inOrder_of_tableInside :
    ¬ ∀ (u : Bytes) (fs₀ fs : FS) (H : List Turned), slash ∉ u → fs₀.Fresh →
      Run Handled fs₀ H fs →
      InOrder u H := by
  intro h
  obtain ⟨hplays, horder, hstores⟩ := tableInside_plays
  have hinOrder := h (ascii "b") emptyDb _ _ (by decide) emptyDb_fresh (run_calmly hplays)
  rcases hinOrder.order 2 5 (by decide) (by rw [horder]; decide) (by rw [horder]; decide) with hlt |
    htogether
  · rw [horder] at hlt
    exact absurd hlt (by decide)
  · obtain ⟨H₁, H₂, hH, -, hwaits, -⟩ := htogether
    obtain ⟨step, m, hstep, hm⟩ := stored_of_waits hwaits
    rw [hH, List.getElem?_append_left (List.getElem?_eq_some_iff.mp hstep).1, hstep,
      Option.map_some] at hstores
    have hany : storesMessage step.2 = true := List.any_eq_true.mpr ⟨_, hm, rfl⟩
    rw [hany] at hstores
    cases hstores
