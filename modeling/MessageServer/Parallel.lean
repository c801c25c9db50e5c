/-
# Users who are served at the same time

Any number of service threads work on one database, each library call an atomic step, and the
requests are for any users.  The account of a user sees the requests of this user only.

* `arrivals`: the threads that work for a user, in the order in which they begin;
* `Separate`: no two requests for the user overlap;
* `Lined`: what the threads have made of the account;
* `parallel_served`: the requests of the user are served one after another, in the order in which
  they began, whatever the threads of other users do meanwhile;
* `parallel_countsIds`: so the laws of histories hold, such as that of the message ids;
* `not_parallel_served`: two requests for one user that overlap.
-/
import MessageServer.PartialRun
import MessageServer.Counter
import MessageServer.FirstAck

/-! ## Requests that do not overlap -/

/-- One step of a thread on the shared database: a library call is one step, in which system calls
fail only where the state of the file system dictates it. -/
def CalmStep (fs : FS) : (o : SrvOp) → o.Ans → FS → Prop
  | .db call, x, fs' => DbStep noFaults fs call x fs'
  | _, _, fs' => fs' = fs

section Arrivals

variable {ι : Type} [DecidableEq ι]

/-- The threads that have begun to work for `u`, in the order in which they began. -/
def arrivals (reqs : ι → Req) (u : Bytes) (t : List (ι × srvE.Event)) : List ι :=
  t.foldl (fun l e => if (reqs e.1).user = some u ∧ e.1 ∉ l then l ++ [e.1] else l) []

/-- No two requests for `u` overlap. -/
def Separate (reqs : ι → Req) (u : Bytes) (t : List (ι × srvE.Event)) : Prop :=
  ∀ before e after, t = before ++ e :: after → (reqs e.1).user = some u →
    ∀ j, j ≠ e.1 → (reqs j).user = some u → threadEvents j before = [] ∨
      threadEvents j after = []

variable {reqs : ι → Req} {u : Bytes} {t : List (ι × srvE.Event)} {i j : ι} {ev : srvE.Event}

/-- One more step. -/
theorem arrivals_snoc (t : List (ι × srvE.Event)) (e : ι × srvE.Event) :
    arrivals reqs u (t ++ [e]) =
      if (reqs e.1).user = some u ∧ e.1 ∉ arrivals reqs u t then arrivals reqs u t ++ [e.1]
      else arrivals reqs u t := List.foldl_concat _ _ _ _

/-- The threads that have begun to work for `u`. -/
theorem mem_arrivals : i ∈ arrivals reqs u t ↔ (reqs i).user = some u ∧
    threadEvents i t ≠ [] := by
  induction t using List.reverseRecOn with
  | nil => simp [arrivals, threadEvents]
  | append_singleton t e ih =>
      obtain ⟨j, ev⟩ := e
      have hevents : threadEvents i (t ++ [(j, ev)]) ≠ [] ↔ j = i ∨
          threadEvents i t ≠ [] := by
        by_cases hj : j = i
        · subst hj
          rw [threadEvents_snoc_self]
          simp
        · rw [threadEvents_snoc_of_ne hj]
          simp [hj]
      rw [arrivals_snoc, hevents]
      by_cases hnew : (reqs j).user = some u ∧ j ∉ arrivals reqs u t
      · rw [if_pos hnew, List.mem_append, List.mem_singleton, ih]
        constructor
        · rintro (⟨huser, hbegun⟩ | rfl)
          · exact ⟨huser, Or.inr hbegun⟩
          · exact ⟨hnew.1, Or.inl rfl⟩
        · rintro ⟨huser, rfl | hbegun⟩
          · exact Or.inr rfl
          · exact Or.inl ⟨huser, hbegun⟩
      · rw [if_neg hnew, ih]
        constructor
        · rintro ⟨huser, hbegun⟩
          exact ⟨huser, Or.inr hbegun⟩
        · rintro ⟨huser, rfl | hbegun⟩
          · rw [not_and, not_not, ih] at hnew
            exact hnew huser
          · exact ⟨huser, hbegun⟩

/-- A thread begins once. -/
theorem nodup_arrivals (reqs : ι → Req) (u : Bytes) (t : List (ι × srvE.Event)) :
    (arrivals reqs u t).Nodup := by
  induction t using List.reverseRecOn with
  | nil => exact List.nodup_nil
  | append_singleton t e ih =>
      rw [arrivals_snoc]
      split
      · rename_i hnew
        exact List.nodup_append.mpr ⟨ih, List.nodup_singleton _, fun a ha b hb heq => by
          rw [List.mem_singleton.mp hb] at heq
          exact hnew.2 (heq ▸ ha)⟩
      · exact ih

/-- Requests that do not overlap have not overlapped from the beginning. -/
theorem Separate.of_append {t' : List (ι × srvE.Event)} (h : Separate reqs u (t ++ t')) :
    Separate reqs u t := by
  intro before e after heq huser j hj hju
  rcases h before e (after ++ t') (by rw [heq, List.append_assoc]; rfl) huser j hj hju with hb | ha
  · exact Or.inl hb
  · rw [threadEvents_append, List.append_eq_nil_iff] at ha
    exact Or.inr ha.1

/-- The thread that has arrived last has taken a step since every other one. -/
theorem arrivals_last {l : List ι} (h : arrivals reqs u t = l ++ [j]) (hi : i ∈ l) :
    ∃ before e after, t = before ++ e :: after ∧ e.1 = j ∧ threadEvents i before ≠ [] := by
  induction t using List.reverseRecOn with
  | nil => simp [arrivals] at h
  | append_singleton t e ih =>
      rw [arrivals_snoc] at h
      split at h
      · obtain ⟨rfl, hlast⟩ := List.append_inj' h rfl
        exact ⟨t, e, [], rfl, List.singleton_inj.mp hlast, (mem_arrivals.mp hi).2⟩
      · obtain ⟨before, e', after, rfl, he', hbegun⟩ := ih h
        exact ⟨before, e', after ++ [e], by simp, he', hbegun⟩

/-- A thread that takes a further step is the one that has arrived last. -/
theorem Separate.last (h : Separate reqs u (t ++ [(i, ev)])) (hi : i ∈ arrivals reqs u t) :
    ∃ l, arrivals reqs u t = l ++ [i] := by
  obtain ⟨l, j, hlast⟩ : ∃ l j, arrivals reqs u t = l ++ [j] := by
    rcases List.eq_nil_or_concat (arrivals reqs u t) with hnil | ⟨l, j, hlast⟩
    · rw [hnil] at hi
      cases hi
    · exact ⟨l, j, by rw [hlast, List.concat_eq_append]⟩
  by_cases hij : i = j
  · exact ⟨l, hij ▸ hlast⟩
  · rw [hlast, List.mem_append, List.mem_singleton] at hi
    obtain ⟨before, e, after, rfl, rfl, hbegun⟩ := arrivals_last hlast (hi.resolve_right hij)
    have huser : (reqs e.1).user = some u :=
      (mem_arrivals.mp (hlast ▸ List.mem_append_right _ List.mem_cons_self)).1
    have hmem : i ∈ arrivals reqs u (before ++ e :: after) := by
      rw [hlast]
      exact List.mem_append_left _ (hi.resolve_right hij)
    rcases h before e (after ++ [(i, ev)]) (by simp) huser i hij (mem_arrivals.mp hmem).1 with hb |
      ha
    · exact absurd hb hbegun
    · rw [threadEvents_snoc_self] at ha
      exact absurd ha (by simp)

end Arrivals

/-! ## Steps -/

/-- The names that a request may use: its user's own for `u`, and those of the user's table for
others. -/
def Req.within (cwd : Location) (u : Bytes) (req : Req) : Confinement :=
  if req.user = some u then ownNames u else tableNames cwd (req.table cwd)

section Steps

variable {fs fs' : FS} {u : Bytes} {a : Account} {req : Req} {o : SrvOp} {x : o.Ans}

/-- A request for `u` is confined to the names of `u`. -/
theorem Req.within_own (cwd : Location) (h : req.user = some u) : req.within cwd u = ownNames u :=
  if_pos h

/-- Another request is confined to its own table. -/
theorem Req.within_other (cwd : Location) (h : req.user ≠ some u) :
    req.within cwd u = tableNames cwd (req.table cwd) := if_neg h

/-- Every request is confined so. -/
theorem obeys_within (h : req.Fits) (cwd : Location) (u : Bytes) (fuel : ℕ) :
    (req.body fuel).Obeys (confined (req.within cwd u)) (fun _ _ => True) () := by
  by_cases huser : req.user = some u
  · rw [Req.within_own cwd huser]
    exact body_confined fuel h fun v hv => Option.some.inj (hv.symm.trans huser)
  · rw [Req.within_other cwd huser]
    exact h.confined fuel

/-- A step of a thread that works for `u` is a step of the account. -/
theorem CalmStep.own (h : CalmStep fs o x fs') (hkept : fs.Keeps True u a) (hu : slash ∉ u)
    (hfits : FitsBuf maxStrSize u) (hallowed : (ownNames u).Allowed o) :
    (ownNames u).Possible o x ∧ fs'.cwd = fs.cwd ∧ ∃ a', AccountStep True u a o x a' ∧
      fs'.Keeps True u a' := by
  cases o with
  | db call =>
      have hstep : DbStep (tidy True) fs call x fs' := by
        obtain ⟨t, hexec, hno⟩ := h
        exact ⟨t, hexec, NoFault.untorn hno, fun _ => hno⟩
      obtain ⟨a', hcall, hkept'⟩ := keeps_call hkept hu hfits hallowed hstep
      have htouches :=
        (dbStep_confined hkept.schema (ownNames_allowed hfits hallowed) (DbStep.untorn h)).1
      exact ⟨hcall.possible hkept.schema hfits hallowed hstep, htouches.cwd, a', hcall, hkept'⟩
  | _ =>
      obtain rfl : fs' = fs := h
      exact ⟨trivial, rfl, a, rfl, hkept⟩

/-- A step of a thread that works for an unrelated user leaves the account alone. -/
theorem CalmStep.other (h : CalmStep fs o x fs') (hkept : fs.Keeps True u a)
    (hallowed : (tableNames fs.cwd (req.table fs.cwd)).Allowed o)
    (hunrel : ∀ v, req.user = some v → Unrelated fs.cwd v u) (huser : req.user ≠ none) :
    (tableNames fs.cwd (req.table fs.cwd)).Possible o x ∧ fs'.cwd = fs.cwd ∧
      fs'.Keeps True u a := by
  cases o with
  | db call =>
      obtain ⟨v, hv⟩ := Option.ne_none_iff_exists'.mp huser
      obtain ⟨htouches, hposs⟩ := dbStep_confined hkept.schema hallowed (DbStep.untorn h)
      refine ⟨hposs, htouches.cwd, ?_⟩
      have htable : req.table fs.cwd = fs.table v := by rw [Req.table, hv, FS.table]
      rw [htable] at htouches
      have hstray : a.stray = false → a.stray = false ∧ Unrelated fs.cwd v u :=
        fun hs => ⟨hs, hunrel v hv⟩
      exact htouches.keeps (hunrel v hv).apart hkept hstray
  | _ =>
      obtain rfl : fs' = fs := h
      exact ⟨trivial, rfl, hkept⟩

end Steps

/-! ## The threads of a user, one after another -/

section Runs

variable {ι : Type} [DecidableEq ι] {fuel : ι → ℕ} {reqs : ι → Req} {u : Bytes}
  {t : List (ι × srvE.Event)}
  {ps : ι → Srv (Option Unit)} {fs₀ fs : FS} {a₀ : Account} {i : ι}

/-- The part of its request that a thread has performed, on the account. -/
def Portion (fuel : ι → ℕ) (reqs : ι → Req) (u : Bytes) (t : List (ι × srvE.Event))
    (ps : ι → Srv (Option Unit))
    (a : Account) (i : ι) (a' : Account) : Prop :=
  Begun (AccountStep True u) ((reqs i).body (fuel i)) a (threadEvents i t) (ps i) a'

/-- What the threads have made of the account: each has performed its part behind the others. -/
structure Lined (fuel : ι → ℕ) (reqs : ι → Req) (u : Bytes) (a₀ : Account)
    (t : List (ι × srvE.Event))
    (cwd : Location) (fs : FS) (ps : ι → Srv (Option Unit)) : Prop where
  root : fs.cwd = cwd
  account : ∃ a, Run (Portion fuel reqs u t ps) a₀ (arrivals reqs u t) a ∧ fs.Keeps True u a
  obeys : ∀ i, (ps i).Obeys (confined ((reqs i).within cwd u)) (fun _ _ => True) ()
  fresh : ∀ i, threadEvents i t = [] ∨ (reqs i).user = none → ps i = (reqs i).body (fuel i)

/-- The parts of other threads stay when thread `i` goes on. -/
theorem Portion.of_ne {t' : List (ι × srvE.Event)} {ps' : ι → Srv (Option Unit)}
    {l : List ι} {a : Account}
    (h : Run (Portion fuel reqs u t ps) a₀ l a) (hi : i ∉ l)
    (hevents : ∀ j, j ≠ i → threadEvents j t' = threadEvents j t)
    (hps : ∀ j, j ≠ i → ps' j = ps j) : Run (Portion fuel reqs u t' ps') a₀ l a := by
  refine (h.labels (P := fun j => j ≠ i) fun j hj heq => hi (heq ▸ hj)).mono ?_
  rintro a j a' ⟨hpart, hj⟩
  rw [Portion, hevents j hj, hps j hj]
  exact hpart

/-- **The step lemma.** -/
theorem Lined.step {cwd : Location} {o : SrvOp} {k : o.Ans → Srv (Option Unit)}
    {x : o.Ans} {fs' : FS}
    (h : Lined fuel reqs u a₀ t cwd fs ps) (hu : slash ∉ u) (hfits : ∀ i, (reqs i).Fits)
    (hothers : ∀ i v, (reqs i).user = some v → v = u ∨ Unrelated cwd v u)
    (hi : ps i = .call o k)
    (hstep : CalmStep fs o x fs') (hsep : Separate reqs u (t ++ [(i, ⟨o, x⟩)])) :
    Lined fuel reqs u a₀ (t ++ [(i, ⟨o, x⟩)]) cwd fs' (Function.update ps i (k x)) := by
  obtain ⟨hroot, ⟨a, hrun, hkept⟩, hobeys, hfresh⟩ := h
  obtain ⟨hallowed, hrest⟩ :=
    obeys_update (D := fun i => confined ((reqs i).within cwd u)) (x := x) hobeys hi
  have hupdate : ∀ j, j ≠ i → Function.update ps i (k x) j = ps j :=
    fun j hj => Function.update_of_ne hj _ _
  have hevents : ∀ j, j ≠ i → threadEvents j (t ++ [(i, ⟨o, x⟩)]) = threadEvents j t :=
    fun j hj => threadEvents_snoc_of_ne (Ne.symm hj)
  -- a thread that takes a step has a request with a user
  have hbusy : (reqs i).user ≠ none := by
    intro hnone
    have hbody := hfresh i (Or.inr hnone)
    cases hreq : reqs i with
    | unknown =>
        rw [hreq, hi] at hbody
        cases hbody
    | _ =>
        rw [hreq] at hnone
        cases hnone
  have hfresh' : ∀ j, threadEvents j (t ++ [(i, ⟨o, x⟩)]) = [] ∨ (reqs j).user = none →
      Function.update ps i (k x) j = (reqs j).body (fuel j) := by
    intro j hj
    by_cases hji : j = i
    · subst hji
      rw [threadEvents_snoc_self] at hj
      rcases hj with hj | hj
      · exact absurd hj (by simp)
      · exact absurd hj hbusy
    · rw [hupdate j hji]
      exact hfresh j (by rwa [hevents j hji] at hj)
  by_cases huser : (reqs i).user = some u
  · -- a thread of the user goes on with its part
    have hallowed' : (ownNames u).Allowed o := by
      rw [← Req.within_own cwd huser]
      exact hallowed
    obtain ⟨hposs, hcwd, a', hcall, hkept'⟩ :=
      hstep.own hkept hu (((hfits i).user huser).mono (by decide)) hallowed'
    refine ⟨hcwd.trans hroot, ⟨a', ?_, hkept'⟩, hrest ?_, hfresh'⟩
    · by_cases harrived : i ∈ arrivals reqs u t
      · obtain ⟨l, hlast⟩ := hsep.last harrived
        have hsame : arrivals reqs u (t ++ [(i, ⟨o, x⟩)]) = l ++ [i] := by
          rw [arrivals_snoc, if_neg fun hnew => hnew.2 harrived, hlast]
        rw [hlast] at hrun
        obtain ⟨m, hbefore, hpart⟩ := hrun.snoc_inv
        have hnot : i ∉ l := by
          have hnodup := nodup_arrivals reqs u t
          rw [hlast] at hnodup
          exact fun hmem => (List.nodup_append.mp hnodup).2.2 i hmem i List.mem_cons_self rfl
        rw [hsame]
        refine (Portion.of_ne hbefore hnot hevents hupdate).snoc ?_
        rw [Portion, threadEvents_snoc_self, Function.update_self]
        rw [Portion, hi] at hpart
        exact hpart.snoc hcall
      · have hnone : threadEvents i t = [] := by
          by_contra hbegun
          exact harrived (mem_arrivals.mpr ⟨huser, hbegun⟩)
        rw [arrivals_snoc, if_pos ⟨huser, harrived⟩]
        refine (Portion.of_ne hrun harrived hevents hupdate).snoc ?_
        have hbody := hfresh i (Or.inl hnone)
        rw [Portion, threadEvents_snoc_self, Function.update_self, hnone, ← hbody, hi]
        exact Begun.nil.snoc hcall
    · rw [Req.within_own cwd huser]
      exact hposs
  · -- a thread of another user
    have hunrel : ∀ v, (reqs i).user = some v → Unrelated fs.cwd v u := by
      intro v hv
      rw [hroot]
      rcases hothers i v hv with rfl | hunrel
      · exact absurd hv huser
      · exact hunrel
    have hallowed' : (tableNames fs.cwd ((reqs i).table fs.cwd)).Allowed o := by
      rw [hroot, ← Req.within_other cwd huser]
      exact hallowed
    obtain ⟨hposs, hcwd, hkept'⟩ := hstep.other hkept hallowed' hunrel hbusy
    refine ⟨hcwd.trans hroot, ⟨a, ?_, hkept'⟩, hrest ?_, hfresh'⟩
    · have hsame : arrivals reqs u (t ++ [(i, ⟨o, x⟩)]) = arrivals reqs u t := by
        rw [arrivals_snoc, if_neg fun hnew => huser hnew.1]
      rw [hsame]
      exact Portion.of_ne hrun (fun hmem => huser (mem_arrivals.mp hmem).1) hevents hupdate
    · rw [Req.within_other cwd huser, ← hroot]
      exact hposs

/-- **The run lemma.** -/
theorem lined_run (hu : slash ∉ u) (hkept : fs₀.Keeps True u a₀)
    (hfits : ∀ i, (reqs i).Fits)
    (hothers : ∀ i v, (reqs i).user = some v → v = u ∨ Unrelated fs₀.cwd v u)
    (h : Interleave CalmStep fs₀ (fun i => (reqs i).body (fuel i)) t fs ps)
    (hsep : Separate reqs u t) :
    Lined fuel reqs u a₀ t fs₀.cwd fs ps := by
  induction h with
  | nil =>
      exact ⟨rfl, ⟨a₀, Run.nil, hkept⟩, fun i => obeys_within (hfits i) _ _ _,
        fun _ _ => rfl⟩
  | snoc _ hi hstep ih => exact (ih hsep.of_append).step hu hfits hothers hi hstep hsep

/-- **Users who are served at the same time.**  Any number of threads handle any requests that fit,
no system call fails for a reason outside the state of the file system, and no other user's table is
related to that of `u`.  If no two requests for `u` overlap, and those that have begun have come to
their end, then the account of `u` is what these requests make of it when they are served one after
another, in the order in which they began. -/
theorem parallel_served (hu : slash ∉ u) (hkept : fs₀.Keeps True u a₀)
    (hfits : ∀ i, (reqs i).Fits)
    (hothers : ∀ i v, (reqs i).user = some v → v = u ∨ Unrelated fs₀.cwd v u)
    (h : Interleave CalmStep fs₀ (fun i => (reqs i).body (fuel i)) t fs ps)
    (hsep : Separate reqs u t)
    (hended : ∀ i ∈ arrivals reqs u t, ps i = .ret (some ())) :
    ∃ a, Run (fun a i a' => Served u a (reqs i) (acts (threadEvents i t)) a') a₀
      (arrivals reqs u t) a ∧
      fs.Keeps True u a := by
  obtain ⟨-, ⟨a, hrun, hkept'⟩, -, -⟩ := lined_run hu hkept hfits hothers h hsep
  refine ⟨a, (hrun.labels (P := fun i => i ∈ arrivals reqs u t) fun _ hi => hi).mono ?_,
    hkept'⟩
  rintro a i a' ⟨hpart, hi⟩
  rw [Portion, hended i hi] at hpart
  exact must_body (fuel i) (reqs i) (mem_arrivals.mp hi).1 a _ (some ()) a' hpart.finished (by simp)

end Runs

/-! ## Laws of histories -/

section Laws

variable {ι : Type} [DecidableEq ι] {fuel : ι → ℕ} {reqs : ι → Req} {u : Bytes}
  {t : List (ι × srvE.Event)}
  {ps : ι → Srv (Option Unit)} {fs₀ fs : FS} {a₀ : Account}

/-- The requests for `u` with what their threads did, in the order in which they began. -/
def turns (reqs : ι → Req) (u : Bytes) (t : List (ι × srvE.Event)) : List Turned :=
  (arrivals reqs u t).map fun i => (reqs i, threadEvents i t)

/-- The requests of `u` make a history of the account. -/
theorem parallel_turns (hu : slash ∉ u) (hkept : fs₀.Keeps True u a₀)
    (hfits : ∀ i, (reqs i).Fits)
    (hothers : ∀ i v, (reqs i).user = some v → v = u ∨ Unrelated fs₀.cwd v u)
    (h : Interleave CalmStep fs₀ (fun i => (reqs i).body (fuel i)) t fs ps)
    (hsep : Separate reqs u t)
    (hended : ∀ i ∈ arrivals reqs u t, ps i = .ret (some ())) :
    ∃ a, Run (Turn True u) a₀ (turns reqs u t) a ∧ fs.Keeps True u a := by
  obtain ⟨a, hrun, hkept'⟩ := parallel_served hu hkept hfits hothers h hsep hended
  refine ⟨a, Run.map ?_, hkept'⟩
  refine (hrun.labels (P := fun i => i ∈ arrivals reqs u t) fun _ hi => hi).mono ?_
  rintro a i a' ⟨hserved, hi⟩
  exact Or.inl ⟨(mem_arrivals.mp hi).1, hserved⟩

/-- **The law of the counter at work.**  From an empty database a history leads to a `REGISTER` that
creates `u`; then any number of threads handle any requests at the same time.  The requests of `u`
that are accepted are counted in the order in which they began. -/
theorem parallel_countsIds {fs₁ fs₂ : FS} {H₀ : List Turned} {t₀ : List srvE.Event}
    (hu : slash ∉ u)
    (hfresh : fs₀.Fresh) (h₀ : Run (HandledApart u) fs₀ H₀ fs₁)
    (hreg : HandledApart u fs₁ (.register u, t₀) fs₂)
    (hnew : Creates t₀ = true) (hfits : ∀ i, (reqs i).Fits)
    (hothers : ∀ i v, (reqs i).user = some v → v = u ∨ Unrelated fs₂.cwd v u)
    (h : Interleave CalmStep fs₂ (fun i => (reqs i).body (fuel i)) t fs ps)
    (hsep : Separate reqs u t)
    (hended : ∀ i ∈ arrivals reqs u t, ps i = .ret (some ()))
    (hstays : ∀ step ∈ turns reqs u t, ¬ Unregisters u step) :
    CountsIds u (turns reqs u t) fs := by
  obtain ⟨a₁, -, hkept₁⟩ :=
    run_turns hu (hfresh.keeps hu) (fun _ _ _ => HandledApart.elsewhere) h₀
  obtain ⟨a₂, hturn, hkept₂⟩ := hreg.1.turn True hu hkept₁ hreg.elsewhere.2
  have hcounted : Counted u [] a₂ := by
    rcases hturn with ⟨-, hserved⟩ | ⟨huser, -⟩
    · generalize hl : acts t₀ = l at hserved
      rw [Creates, hl] at hnew
      cases hserved with
      | registered junk hnone => exact counted_new rfl
      | _ => exact absurd hnew Bool.false_ne_true
    · exact absurd rfl huser
  obtain ⟨a, hrun, hkept⟩ := parallel_turns hu hkept₂ hfits hothers h hsep hended
  have hcounts : Counted u (turns reqs u t) a := by
    refine Run.invariant (I := fun H a => (∀ step ∈ H, ¬ Unregisters u step) →
      Counted u H a) hrun
      (fun _ => hcounted) ?_ hstays
    intro H a step a' ih hstep hstays
    exact (ih fun step hs => hstays step (List.mem_append_left _ hs)).turn hstep
      (hstays _ (by simp))
  exact hcounts.countsIds hkept hu

end Laws

/-! ## Two users at work, and two requests of one user that overlap -/

/-- The condition on the runs, step by step. -/
theorem separate_iff {ι : Type} [DecidableEq ι] {reqs : ι → Req} {u : Bytes}
    {t : List (ι × srvE.Event)} :
    Separate reqs u t ↔ ∀ n, ∀ hn : n < t.length, (reqs t[n].1).user = some u →
      ∀ j, j ≠ t[n].1 →
      (reqs j).user = some u → threadEvents j (t.take n) = [] ∨
        threadEvents j (t.drop (n + 1)) = [] := by
  constructor
  · exact fun h n hn => h (t.take n) t[n] (t.drop (n + 1)) (cut_at hn)
  · rintro h before e after rfl
    have hn : before.length < (before ++ e :: after).length := by simp
    have hat := h before.length hn
    have hnth : (before ++ e :: after)[before.length] = e := by simp
    have hdrop : (before ++ e :: after).drop (before.length + 1) = after := by simp
    rwa [List.take_left, hnth, hdrop] at hat

instance {ι : Type} [DecidableEq ι] [Fintype ι] (reqs : ι → Req) (u : Bytes)
    (t : List (ι × srvE.Event)) :
    Decidable (Separate reqs u t) := decidable_of_iff _ separate_iff.symm

/-- The threads take the given turns, and every step succeeds. -/
def atWork (reqs : Bool → Req) (turns : List Bool) :
    List (Bool × srvE.Event) × FS × (Bool → Srv (Option Unit)) :=
  schedule (fun (_ : Unit) => sharedApply) (turns.map fun i => (i, ())) registeredAB fun i =>
    (reqs i).body 2

/-- The computed step is a step. -/
theorem calmStep_apply (o : SrvOp) (fs : FS) :
    CalmStep fs o (sharedApply o fs).1 (sharedApply o fs).2 := by
  cases o with
  | db call => exact (srvApply_calm (fun _ => rfl) (.db call) ⟨fs, []⟩).1
  | _ => rfl

/-- Two threads at work as an interleaving. -/
theorem interleave_atWork (reqs : Bool → Req) (turns : List Bool) :
    Interleave CalmStep registeredAB (fun i => (reqs i).body 2) (atWork reqs turns).1
      (atWork reqs turns).2.1
      (atWork reqs turns).2.2 :=
  interleave_schedule (fun _ o fs => calmStep_apply o fs) _ _ _

/-! ### Requests by turns -/

/-- `a` connects while a message is sent to `b`. -/
def connectAndSend : Bool → Req
  | true => .connect (ascii "a") (ascii "7000")
  | false => .send (ascii "a") (ascii "b") (ascii "hi")

/-- The threads take turns. -/
def byTurns : List Bool := (List.replicate 30 [true, false]).flatten

/-- The threads that take turns do not overlap. -/
theorem byTurns_ends : Separate connectAndSend (ascii "b") (atWork connectAndSend byTurns).1 ∧
    arrivals connectAndSend (ascii "b") (atWork connectAndSend byTurns).1 = [false] ∧
    ((atWork connectAndSend byTurns).2.2 false).returned = some (some ()) := by
  decide +kernel

theorem connectAndSend_fits (i : Bool) : (connectAndSend i).Fits := by
  cases i <;> decide

/-- The tables of the two users are unrelated. -/
theorem connectAndSend_others (cwd : Location) (i : Bool) (v : Bytes)
    (h : (connectAndSend i).user = some v) :
    v = ascii "b" ∨ Unrelated cwd v (ascii "b") := by
  cases i with
  | true =>
      obtain rfl := Option.some.inj h
      exact Or.inr (unrelated_of_noSlash cwd (by decide) (by decide) (by decide))
  | false => exact Or.inl (Option.some.inj h).symm

/-- Both threads have come to their end. -/
theorem byTurns_ended :
    ∀ i ∈ arrivals connectAndSend (ascii "b") (atWork connectAndSend byTurns).1,
    (atWork connectAndSend byTurns).2.2 i = .ret (some ()) := by
  rw [byTurns_ends.2.1]
  intro i hi
  rw [List.mem_singleton.mp hi]
  exact Prog.eq_ret_of_returned byTurns_ends.2.2

/-- The account of `b` when `a` and `b` have been registered. -/
theorem registeredAB_keeps : ∃ a, registeredAB.Keeps True (ascii "b") a := by
  have hA := handled_turned (.register (ascii "a")) emptyDb (by decide) (by decide +kernel)
  have hB := handled_turned (.register (ascii "b")) registeredA (by decide) (by decide +kernel)
  have hrun :=
    (Run.single (HandledApart.of_noSlash (u := ascii "b") hA (by decide) (by decide) rfl)).snoc
    (HandledApart.of_noSlash (u := ascii "b") hB (by decide) (by decide) rfl)
  obtain ⟨a, -, hkept⟩ := run_turns (by decide) (emptyDb_fresh.keeps (by decide))
    (fun _ _ _ => HandledApart.elsewhere) hrun
  exact ⟨a, hkept⟩

/-- The account after the two requests. -/
theorem parallel_served_byTurns : ∃ a₀ a,
    Run (fun a i a' => Served (ascii "b") a (connectAndSend i)
      (acts (threadEvents i (atWork connectAndSend byTurns).1)) a') a₀
      (arrivals connectAndSend (ascii "b") (atWork connectAndSend byTurns).1) a ∧
    (atWork connectAndSend byTurns).2.1.Keeps True (ascii "b") a := by
  obtain ⟨a₀, hkept⟩ := registeredAB_keeps
  exact ⟨a₀, parallel_served (by decide) hkept connectAndSend_fits (connectAndSend_others _)
    (interleave_atWork connectAndSend byTurns) byTurns_ends.1 byTurns_ended⟩

/-- Neither removes the account. -/
theorem byTurns_stays :
    ∀ step ∈ turns connectAndSend (ascii "b") (atWork connectAndSend byTurns).1,
    ¬ Unregisters (ascii "b") step := by
  intro step hstep hun
  rw [turns, byTurns_ends.2.1] at hstep
  rw [List.mem_singleton.mp hstep] at hun
  cases hun.1

/-- The count after the two requests. -/
theorem parallel_countsIds_byTurns :
    CountsIds (ascii "b") (turns connectAndSend (ascii "b") (atWork connectAndSend byTurns).1)
      (atWork connectAndSend byTurns).2.1 := by
  have hA := handled_turned (.register (ascii "a")) emptyDb (by decide) (by decide +kernel)
  have hB := handled_turned (.register (ascii "b")) registeredA (by decide) (by decide +kernel)
  exact parallel_countsIds (by decide) emptyDb_fresh
    (Run.single (HandledApart.of_noSlash hA (by decide) (by decide) rfl))
    (HandledApart.of_noSlash hB (by decide) (by decide) rfl) (by decide +kernel) connectAndSend_fits
    (connectAndSend_others _) (interleave_atWork connectAndSend byTurns) byTurns_ends.1
      byTurns_ended byTurns_stays

/-! ### Requests that overlap -/

/-- `b` is unregistered twice. -/
def twoUnregister (_ : Bool) : Req := .unregister (ascii "b")

/-- A removal that fails. -/
def failsToClose : Act → Bool
  | .closed result => decide (result < 0)
  | _ => false

/-- Both threads look whether `b` exists, then both remove the table. -/
theorem twoUnregister_overlap :
    (∀ i, ((atWork twoUnregister byTurns).2.2 i).returned = some (some ())) ∧
      (acts (threadEvents false (atWork twoUnregister byTurns).1)).any failsToClose = true ∧
      false ∈ arrivals twoUnregister (ascii "b") (atWork twoUnregister byTurns).1 := by
  decide +kernel

/-- An `UNREGISTER` that is served does not fail to remove the table. -/
theorem Served.closes {u v : Bytes} {a a' : Account} {l : List Act}
    (h : Served u a (.unregister v) l a') :
    l.any failsToClose = false := by
  cases h with
  | unregistered result hresult hsome =>
      show (decide (result < 0) || false) = false
      rw [decide_eq_false (not_lt.mpr hresult), Bool.or_false]
  | notRegistered code hcode hnone => rfl

/-- Two removals in a row do not both succeed. -/
theorem closes_of_run {t : List (Bool × srvE.Event)} {a₀ a : Account} {l : List Bool}
    (h : Run (fun a i a' => Served (ascii "b") a (twoUnregister i) (acts (threadEvents i t))
        a') a₀ l a) :
    ∀ i ∈ l, (acts (threadEvents i t)).any failsToClose = false := by
  induction h with
  | nil => exact fun i hi => absurd hi List.not_mem_nil
  | snoc _ hserved ih =>
      intro j hj
      rcases List.mem_append.mp hj with hj | hj
      · exact ih j hj
      · rw [List.mem_singleton.mp hj]
        exact hserved.closes

/-- **Requests for one user that overlap** are not served one after another. -/
theorem not_parallel_served :
    ¬ ∀ (ι : Type) [DecidableEq ι] (fuel : ι → ℕ) (reqs : ι → Req) (u : Bytes)
      (a₀ : Account) (fs₀ fs : FS)
        (t : List (ι × srvE.Event)) (ps : ι → Srv (Option Unit)), slash ∉ u →
          fs₀.Keeps True u a₀ →
      (∀ i, (reqs i).Fits) → (∀ i v, (reqs i).user = some v → v = u ∨
          Unrelated fs₀.cwd v u) →
      Interleave CalmStep fs₀ (fun i => (reqs i).body (fuel i)) t fs ps →
      (∀ i ∈ arrivals reqs u t, ps i = .ret (some ())) →
      ∃ a, Run (fun a i a' => Served u a (reqs i) (acts (threadEvents i t)) a') a₀
        (arrivals reqs u t) a ∧
        fs.Keeps True u a := by
  intro h
  obtain ⟨hends, hfails, hmem⟩ := twoUnregister_overlap
  obtain ⟨a₀, hkept⟩ := registeredAB_keeps
  have hfits : (Req.unregister (ascii "b")).Fits := by decide
  obtain ⟨a, hrun, -⟩ :=
    h Bool (fun _ => 2) twoUnregister (ascii "b") a₀ registeredAB _ _ _ (by decide) hkept
    (fun _ => hfits) (fun _ v hv => Or.inl (Option.some.inj hv).symm)
    (interleave_atWork twoUnregister byTurns) fun i _ => Prog.eq_ret_of_returned (hends i)
  exact Bool.false_ne_true ((closes_of_run hrun false hmem).symm.trans hfails)
