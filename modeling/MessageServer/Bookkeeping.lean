/-
# Messages are delivered or kept

A message that was accepted has been transmitted once, or it waits once.

* `AnsweredAt`: a `SEND` that was answered with success;
* `Placed`: where its message is, unless it waited when its recipient was unregistered;
* `Bookkept`: so it is for every message to a user, and the files hold what waits;
* `Post.Tidy`: the messages that wait are others than those that were transmitted;
* `DeliversOrStores`: a `SEND` stores its message if and only if it has not delivered it;
* `run_bookkept`: then the books are kept, while no other user's table meets the user's;
* `not_run_bookkept`: `srv_send` keeps a message that it has delivered.
-/
import MessageServer.DeliveryOrder

/-! ## Where a message is -/

/-- The message of position `i` waits for `u`, or has been transmitted. -/
def Post.Has (p : Post) (i : ℕ) : Prop := p.Waits i ∨ i ∈ p.order

/-- The request at position `i` is a `SEND` to `u` that was answered `SRV_SUCCESS`. -/
def AnsweredAt (u : Bytes) (H : List Turned) (i : ℕ) : Prop :=
  ∃ s c t, H[i]? = some (.send s u c, t) ∧ Act.replied [srvSuccess] ∈ acts t

/-- The message of position `i` waited when `u` was unregistered. -/
def DiscardedAt (u : Bytes) (H : List Turned) (i : ℕ) : Prop :=
  ∃ H₁ step H₂, H = H₁ ++ step :: H₂ ∧ Unregisters u step ∧ (post u H₁).Waits i

/-- The message of position `i` has been transmitted once and does not wait; or it waits
once and has not been transmitted; or it was discarded. -/
inductive Placed (u : Bytes) (H : List Turned) (i : ℕ) : Prop
  | delivered (hsent : (post u H).order.count i = 1) (hwaits : ¬ (post u H).Waits i)
  | kept (hsent : (post u H).order.count i = 0) (hwaits : ∃! id, (post u H).waits id = some i)
  | discarded (h : DiscardedAt u H i) (hsent : (post u H).order.count i = 0)
      (hwaits : ¬ (post u H).Waits i)

/-- **The law of the books**: history `H` has led to `fs`. -/
structure Bookkept (u : Bytes) (H : List Turned) (fs : FS) : Prop where
  placed : ∀ i, AnsweredAt u H i → Placed u H i
  /-- What waits is what the files hold. -/
  stored : ∀ id, ((post u H).waits id = none ∧ fs.content (pendMsgPath u id) = []) ∨
    ∃ i m, (post u H).waits id = some i ∧ AdmittedAt u H i m ∧ m.id = id ∧
      fs.content (pendMsgPath u id) = Entry.image ⟨u, .msg m⟩
  transmitted : (post u H).sent.map Prod.snd = transmissions u H
  admitted : ∀ i m, (i, m) ∈ (post u H).sent → AdmittedAt u H i m

/-- A `SEND` to a user with record `ud` stores its message if and only if it has not
delivered it: what decides is a byte that nothing assigns and a status that may never have
been set. -/
def DeliversOrStores (ud : Userdata) (l : List Act) : Prop :=
  ∀ junk l', l = .locals junk :: l' →
    (ud.status = statusCn → l'.filterMap Act.delivers ≠ [] → junk.byte = srvSuccess) ∧
      (ud.status ≠ statusCn → ud.status ≠ statusDcn → junk.byte ≠ srvSuccess)

/-! ## Tidy messages -/

/-- Before position `k` no message waits twice, was transmitted twice, or both. -/
structure Post.Tidy (k : ℕ) (p : Post) : Prop where
  single : ∀ id id' i, p.waits id = some i → p.waits id' = some i → id = id'
  once : p.order.Nodup
  apart : ∀ i, p.Waits i → i ∉ p.order
  below : ∀ i, p.Has i → i < k

/-- A request at position `k` loses no message, and adds at most its own. -/
structure Post.Carries (k : ℕ) (p p' : Post) : Prop where
  tidy : p'.Tidy (k + 1)
  kept : ∀ i, p.Has i → p'.Has i
  new : ∀ i, p'.Has i → p.Has i ∨ i = k

namespace Post

variable {k i : ℕ} {p p' : Post} {id : UInt32}

theorem Tidy.mono {k' : ℕ} (h : p.Tidy k) (hle : k ≤ k') : p.Tidy k' :=
  ⟨h.single, h.once, h.apart, fun i hi => (h.below i hi).trans_le hle⟩

/-- The message of the request itself is new. -/
theorem Tidy.fresh (h : p.Tidy k) : ¬ p.Has k := fun hk => absurd (h.below k hk) (Nat.lt_irrefl k)

/-- A message that waits is transmitted and waits no longer. -/
theorem Tidy.take {m : Message} (h : p.Tidy k) (hi : p.waits id = some i) :
    Tidy k ⟨Function.update p.waits id none, p.sent ++ [(i, m)]⟩ ∧
      ∀ j, Has ⟨Function.update p.waits id none, p.sent ++ [(i, m)]⟩ j ↔ p.Has j := by
  have horder : order ⟨Function.update p.waits id none, p.sent ++ [(i, m)]⟩ =
      p.order ++ [i] := by
    rw [order, List.map_append]
    rfl
  have hnot : i ∉ p.order := h.apart i ⟨id, hi⟩
  have hhas : ∀ j, Has ⟨Function.update p.waits id none, p.sent ++ [(i, m)]⟩ j ↔
      p.Has j := by
    intro j
    rw [Has, horder, List.mem_append, List.mem_singleton]
    constructor
    · rintro (hj | hj | rfl)
      · exact Or.inl (waits_of_drop hj)
      · exact Or.inr hj
      · exact Or.inl ⟨id, hi⟩
    · rintro (⟨id', hj⟩ | hj)
      · by_cases heq : id' = id
        · subst heq
          exact Or.inr (Or.inr (Option.some.inj (hj.symm.trans hi)))
        · exact Or.inl ⟨id', update_eq_iff.mpr (Or.inr ⟨heq, hj⟩)⟩
      · exact Or.inr (Or.inl hj)
  refine ⟨⟨fun id₁ id₂ j h₁ h₂ => ?_, ?_, fun j hj => ?_,
    fun j hj => h.below j ((hhas j).mp hj)⟩, hhas⟩
  · rcases update_eq_iff.mp h₁ with ⟨-, hnone⟩ | ⟨-, h₁⟩
    · cases hnone
    · rcases update_eq_iff.mp h₂ with ⟨-, hnone⟩ | ⟨-, h₂⟩
      · cases hnone
      · exact h.single id₁ id₂ j h₁ h₂
  · rw [horder, ← List.concat_eq_append]
    exact h.once.concat hnot
  · rw [horder, List.mem_append, List.mem_singleton, not_or]
    refine ⟨h.apart j (waits_of_drop hj), ?_⟩
    rintro rfl
    obtain ⟨id', hid'⟩ := hj
    rcases update_eq_iff.mp hid' with ⟨-, hnone⟩ | ⟨hne, hid'⟩
    · cases hnone
    · exact hne (h.single id' id j hid' hi)

namespace Carries

/-- Nothing moves. -/
theorem refl (h : p.Tidy k) : p.Carries k p :=
  ⟨h.mono (Nat.le_succ k), fun _ hi => hi, fun _ hi => Or.inl hi⟩

/-- The message is stored. -/
theorem store (h : p.Tidy k) (hfree : p.waits id = none) :
    p.Carries k ⟨Function.update p.waits id (some k), p.sent⟩ := by
  have hwaits : ∀ j, Waits ⟨Function.update p.waits id (some k), p.sent⟩ j ↔
      p.Waits j ∨ j = k := by
    intro j
    constructor
    · rintro ⟨id', hid'⟩
      rcases update_eq_iff.mp hid' with ⟨-, heq⟩ | ⟨-, hj⟩
      · exact Or.inr (Option.some.inj heq).symm
      · exact Or.inl ⟨id', hj⟩
    · rintro (⟨id', hj⟩ | rfl)
      · refine ⟨id', update_eq_iff.mpr (Or.inr ⟨?_, hj⟩)⟩
        rintro rfl
        rw [hfree] at hj
        cases hj
      · exact ⟨id, update_eq_iff.mpr (Or.inl ⟨rfl, rfl⟩)⟩
  have hnew : ∀ j, Has ⟨Function.update p.waits id (some k), p.sent⟩ j →
      p.Has j ∨ j = k := by
    rintro j (hj | hj)
    · exact ((hwaits j).mp hj).imp_left Or.inl
    · exact Or.inl (Or.inr hj)
  refine ⟨⟨fun id₁ id₂ j h₁ h₂ => ?_, h.once, fun j hj => ?_, fun j hj => ?_⟩, ?_,
    hnew⟩
  · rcases update_eq_iff.mp h₁ with ⟨rfl, heq⟩ | ⟨-, hold₁⟩
    · rcases update_eq_iff.mp h₂ with ⟨rfl, -⟩ | ⟨-, hold₂⟩
      · rfl
      · obtain rfl := Option.some.inj heq
        exact absurd (Or.inl ⟨id₂, hold₂⟩) h.fresh
    · rcases update_eq_iff.mp h₂ with ⟨rfl, heq⟩ | ⟨-, hold₂⟩
      · obtain rfl := Option.some.inj heq
        exact absurd (Or.inl ⟨id₁, hold₁⟩) h.fresh
      · exact h.single id₁ id₂ j hold₁ hold₂
  · rcases (hwaits j).mp hj with hj | rfl
    · exact h.apart j hj
    · exact fun hmem => h.fresh (Or.inr hmem)
  · rcases hnew j hj with hj | rfl
    · exact (h.below j hj).trans (Nat.lt_succ_self k)
    · exact Nat.lt_succ_self j
  · rintro j (hj | hj)
    · exact Or.inl ((hwaits j).mpr (Or.inl hj))
    · exact Or.inr hj

/-- The message is transmitted. -/
theorem pass {m : Message} (h : p.Tidy k) : p.Carries k ⟨p.waits, p.sent ++ [(k, m)]⟩ := by
  have horder : order ⟨p.waits, p.sent ++ [(k, m)]⟩ = p.order ++ [k] := by
    rw [order, List.map_append]
    rfl
  have hnew : ∀ j, Has ⟨p.waits, p.sent ++ [(k, m)]⟩ j → p.Has j ∨ j = k := by
    intro j hj
    rw [Has, horder, List.mem_append, List.mem_singleton, ← or_assoc] at hj
    exact hj
  refine ⟨⟨h.single, ?_, fun j hj => ?_, fun j hj => ?_⟩, fun j hj => ?_, hnew⟩
  · rw [horder, ← List.concat_eq_append]
    exact h.once.concat fun hmem => h.fresh (Or.inr hmem)
  · rw [horder, List.mem_append, List.mem_singleton, not_or]
    refine ⟨h.apart j hj, ?_⟩
    rintro rfl
    exact h.fresh (Or.inl hj)
  · rcases hnew j hj with hj | rfl
    · exact (h.below j hj).trans (Nat.lt_succ_self k)
    · exact Nat.lt_succ_self j
  · rw [Has, horder, List.mem_append]
    exact hj.imp_right Or.inl

end Carries

end Post

/-! ## One request -/

section Requests

variable {u : Bytes} {a a' : Account} {k : ℕ} {req : Req} {p : Post} {A : ℕ → Message →
  Prop} {l : List Act}

/-- The drain transmits what waits, by induction on its rounds. -/
theorem Drained.tidy (v port : Bytes) (h : Drained a l a') (hstray : a.stray = false)
    (hp : p.Matches A a)
    (htidy : p.Tidy k) : (l.foldl (Post.act k (.connect v port)) p).Tidy k ∧
      ∀ j, (l.foldl (Post.act k (.connect v port)) p).Has j ↔ p.Has j := by
  induction h generalizing p with
  | stop _ => exact ⟨htidy, fun _ => Iff.rfl⟩
  | @sent a a' l m ok ack result hm hok hack hrest ih =>
      obtain ⟨hpending, rfl⟩ := hm.pending hstray hok
      obtain ⟨i, hi, -⟩ := hp.held m.id m hpending
      rw [foldl_act_delivery v port ack result hi]
      obtain ⟨htidy₁, hhas₁⟩ := htidy.take (m := m) hi
      obtain ⟨htidy', hhas'⟩ := ih hstray (hp.drop (p.sent ++ [(i, m)])) htidy₁
      exact ⟨htidy', fun j => (hhas' j).trans (hhas₁ j)⟩
  | @failed a ud m wire result hm hwire hresult hud =>
      rw [foldl_act_failure m wire ud.lost hresult]
      exact ⟨htidy, fun _ => Iff.rfl⟩

/-- Passing a message on leaves the record, unless the message does not get through. -/
theorem Passing.record {ud ud' : Userdata} {m : Message} (h : Passing a ud m l ud' a') :
    ud' = ud ∨ (ud'.status = statusDcn ∧ l.filterMap Act.delivers = []) := by
  cases h with
  | idle _ => exact Or.inl rfl
  | sent _ => exact Or.inl rfl
  | failed wire result _ _ hresult =>
      refine Or.inr ⟨rfl, ?_⟩
      rw [List.filterMap_append, filterMap_delivers_tolds, List.nil_append,
        List.filterMap_cons_none (delivers_failed hresult)]
      rfl

/-- A `SEND` is answered with success only if nothing fails. -/
theorem Finishing.success {ud : Userdata} {id : UInt32} {code : UInt8} (h : Finishing ud id code l)
    (hreply : Act.replied [srvSuccess] ∈ l) : code = srvSuccess := by
  have hfirst : ∀ l₀ : List Act, (∀ act ∈ l₀, code = srvSuccess ∧
      act = .replied (decimal id.toNat ++ [0])) →
      ∀ l₁ : List Act, Act.replied [srvSuccess] ∉ l₁ →
        Act.replied [srvSuccess] ∈ Act.replied [code] :: (l₀ ++ l₁) →
          code = srvSuccess := by
    intro l₀ hl₀ l₁ hl₁ hmem
    rcases List.mem_cons.mp hmem with heq | hmem
    · cases heq
      rfl
    · rcases List.mem_append.mp hmem with hmem | hmem
      · exact (hl₀ _ hmem).1
      · exact absurd hmem hl₁
  cases h with
  | bare l₀ hl₀ _ =>
      apply hfirst l₀ hl₀ [] (by simp)
      rwa [List.append_nil]
  | acked l₀ hl₀ junk ack result _ _ =>
      refine hfirst l₀ hl₀ _ ?_ hreply
      simp [tolds]

/-- Passing a message on and storing it does not answer the sender. -/
theorem Passing.noReply {ud ud' : Userdata} {m : Message} (h : Passing a ud m l ud' a')
    (bytes : Bytes) :
    Act.replied bytes ∉ l := by
  cases h with
  | _ => simp [tolds]

theorem Shelving.noReply {ud : Userdata} {m : Message} {byte code : UInt8}
    (h : Shelving a ud m byte l code a')
    (bytes : Bytes) : Act.replied bytes ∉ l := by
  cases h with
  | _ => simp

/-! ### A request and the status of its message -/

/-- A `SEND` that delivers its message does not store it, and one that does not stores it. -/
theorem carries_send {s r c : Bytes} {a₁ : Account} {ud ud' : Userdata} {m : Message}
    {byte code : UInt8}
    {l₁ l₂ : List Act} (hud : a.record = some ud) (hp : p.Matches A a) (htidy : p.Tidy k)
    (hpassing : Passing a ud m l₁ ud' a₁) (hshelving : Shelving a₁ ud' m byte l₂ code a')
    (hbyte : ud.status = statusCn → l₁.filterMap Act.delivers ≠ [] → byte = srvSuccess)
    (hstatus : ud.status ≠ statusCn → ud.status ≠ statusDcn → byte ≠ srvSuccess) :
    p.Carries k
      (l₂.foldl (Post.act k (.send s r c)) (l₁.foldl (Post.act k (.send s r c)) p)) ∧
      (code = srvSuccess →
          (l₂.foldl (Post.act k (.send s r c)) (l₁.foldl (Post.act k (.send s r c)) p)).Has
          k) := by
  obtain ⟨hpending, -, hpassed⟩ :=
    Passing.post (k := k) (p := p) (s := s) (r := r) (c := c) hpassing hud
  rcases hpassed with ⟨hfold, -, hlost⟩ | ⟨hfold, hms, hcn⟩
  · -- the message has not been delivered
    rw [hfold]
    cases hshelving with
    | skipped hnot hsuccess =>
        rcases hpassing.record with rfl | ⟨hdcn, -⟩
        · exact absurd hsuccess (hstatus hlost hnot)
        · exact absurd hdcn hnot
    | stored _ hfree =>
        rw [hpending] at hfree
        exact ⟨Post.Carries.store htidy (hp.free _ hfree),
          fun _ => Or.inl ⟨m.id, update_eq_iff.mpr (Or.inl ⟨rfl, rfl⟩)⟩⟩
    | taken _ _ => exact ⟨Post.Carries.refl htidy, fun h => absurd h (by decide)⟩
  · -- it has
    rw [hfold]
    have hdelivers : l₁.filterMap Act.delivers ≠ [] := by
      rw [hms]
      exact List.cons_ne_nil _ _
    have hskips : ¬ (ud'.status = statusDcn ∨ byte ≠ srvSuccess) := by
      rintro (hdcn | hne)
      · rcases hpassing.record with rfl | ⟨-, hnone⟩
        · rw [hcn] at hdcn
          exact absurd hdcn.symm (show statusDcn ≠ statusCn by decide)
        · exact hdelivers hnone
      · exact hne (hbyte hcn hdelivers)
    cases hshelving with
    | skipped _ _ => exact ⟨Post.Carries.pass htidy, fun _ => Or.inr (by simp [Post.order])⟩
    | stored h _ => exact absurd h hskips
    | taken h _ => exact absurd h hskips

/-- **What a request of `u` does to the messages to `u`**: an `UNREGISTER` discards what waits;
any other request loses nothing, and a `SEND` that is answered with success adds its message. -/
theorem Served.carries {t : List srvE.Event} (h : Served u a req (acts t) a')
    (hstray : a.stray = false)
    (hp : p.Matches A a) (htidy : p.Tidy k)
    (hright : ∀ s c ud, req = .send s u c → a.record = some ud →
        DeliversOrStores ud (acts t)) :
    (Unregisters u (req, t) ∧ (acts t).foldl (Post.act k req) p = ⟨fun _ => none, p.sent⟩) ∨
      (¬ Unregisters u (req, t) ∧ p.Carries k ((acts t).foldl (Post.act k req) p) ∧
        ∀ s c, req = .send s u c → Act.replied [srvSuccess] ∈ acts t →
          ((acts t).foldl (Post.act k req) p).Has k) := by
  have hrefused : ∀ {code : UInt8} {l : List Act}, code ≠ srvSuccess →
      (∀ bytes, Act.replied bytes ∉ l) →
      Act.replied [srvSuccess] ∉ l ++ [.replied [code]] := by
    intro code l hcode hl hmem
    rcases List.mem_append.mp hmem with hmem | hmem
    · exact hl _ hmem
    · cases List.mem_singleton.mp hmem
      exact hcode rfl
  generalize hl : acts t = l at h
  cases h with
  | unregistered result hresult hsome =>
      refine Or.inl ⟨⟨rfl, by rw [hl]; simp⟩, if_pos hresult⟩
  | @connected port l l' a₁ a' junk hconnecting hdraining =>
      right
      obtain ⟨hfold, -, hpending, hstray₁⟩ :=
        Connecting.post k (.connect u port) p hconnecting
      have hfolds : (Act.locals junk :: (l ++ l')).foldl (Post.act k (.connect u port)) p =
          l'.foldl (Post.act k (.connect u port)) p := by
        rw [List.foldl_cons, List.foldl_append]
        change l'.foldl _ (l.foldl _ p) = _
        rw [hfold]
      rw [hfolds]
      refine ⟨fun hun => (by cases hun.1), ?_, fun s c hreq => by cases hreq⟩
      -- what waits is carried on by the drain
      cases hdraining with
      | unknown junk' hnone => exact Post.Carries.refl htidy
      | @known junk' l' _ hsome hdrained =>
          have hp₁ : p.Matches A a₁ :=
            ⟨by rw [hpending]; exact hp.held, by rw [hpending]; exact hp.free⟩
          obtain ⟨htidy', hhas⟩ := hdrained.tidy u port (hstray₁.trans hstray) hp₁ htidy
          exact ⟨htidy'.mono (Nat.le_succ k), fun i hi => (hhas i).mpr hi,
            fun i hi => Or.inl ((hhas i).mp hi)⟩
  | rejected junk code hcode =>
      exact Or.inr ⟨fun hun => (by cases hun.1), Post.Carries.refl htidy,
        fun s c _ hreply => absurd hreply (hrefused (l := [Act.locals junk]) hcode (by simp))⟩
  | @accepted s c junk ud ud' code l₁ l₂ l₃ a₁ a' hud hpassing hshelving hfinishing =>
      right
      -- the message is numbered, passed on, and shelved when it has not got through
      obtain ⟨hbyte, hstatus⟩ := hright s c ud rfl hud junk _ hl
      have hfold : (Act.locals junk :: Act.wrote ud.next true :: (l₁ ++ (l₂ ++ l₃))).foldl
          (Post.act k (.send s u c)) p =
          l₂.foldl (Post.act k (.send s u c)) (l₁.foldl (Post.act k (.send s u c)) p) := by
        rw [List.foldl_cons, List.foldl_cons, List.foldl_append, List.foldl_append,
          (hfinishing.post k (.send s u c) _).1]
        rfl
      have hp₁ : p.Matches A (a.write ud.next) := ⟨hp.held, hp.free⟩
      have hbyte₁ : ud.next.status = statusCn → l₁.filterMap Act.delivers ≠ [] →
          junk.byte = srvSuccess := by
        intro hcn hdelivers
        apply hbyte hcn
        rw [List.filterMap_cons_none rfl, List.filterMap_append]
        exact fun hnil => hdelivers (List.append_eq_nil_iff.mp hnil).1
      obtain ⟨hcarries, hhas⟩ :=
        carries_send (s := s) (r := u) (c := c) rfl hp₁ htidy hpassing hshelving
        hbyte₁ hstatus
      rw [hfold]
      refine ⟨fun hun => (by cases hun.1), hcarries,
        fun _ _ _ hreply => hhas (hfinishing.success ?_)⟩
      simp only [List.mem_cons, List.mem_append, reduceCtorEq, false_or] at hreply
      rcases hreply with hreply | hreply | hreply
      · exact absurd hreply (hpassing.noReply _)
      · exact absurd hreply (hshelving.noReply _)
      · exact hreply
  | notRegistered code hcode hnone =>
      refine Or.inr ⟨fun hun => ?_, Post.Carries.refl htidy, fun s c hreq => by cases hreq⟩
      have hreply := hun.2
      rw [hl] at hreply
      exact hrefused (l := []) hcode (by simp) hreply
  | _ =>
      exact Or.inr ⟨fun hun => (by cases hun.1), Post.Carries.refl htidy,
        fun s c hreq => by cases hreq⟩

end Requests

/-! ## Histories -/

section Histories

variable {u : Bytes} {a a' : Account} {H : List Turned} {step : Turned} {i : ℕ}

theorem answeredAt_snoc (h : AnsweredAt u (H ++ [step]) i) : AnsweredAt u H i ∨
    (i = H.length ∧ ∃ s c, step.1 = .send s u c ∧
        Act.replied [srvSuccess] ∈ acts step.2) := by
  obtain ⟨s, c, t, hstep, hreply⟩ := h
  rcases Nat.lt_or_ge i H.length with hlt | hge
  · rw [List.getElem?_append_left hlt] at hstep
    exact Or.inl ⟨s, c, t, hstep, hreply⟩
  · rw [List.getElem?_append_right hge, List.getElem?_singleton] at hstep
    obtain ⟨hzero, heq⟩ := Option.ite_none_right_eq_some.mp hstep
    cases heq
    exact Or.inr ⟨by omega, s, c, rfl, hreply⟩

theorem discardedAt_snoc : DiscardedAt u (H ++ [step]) i ↔
    DiscardedAt u H i ∨ (Unregisters u step ∧ (post u H).Waits i) := by
  have hsplit := forall_split_snoc (l := H) (b := step)
    (P := fun H₁ step => ¬ (Unregisters u step ∧ (post u H₁).Waits i))
  have hnot : ∀ H : List Turned, ¬ DiscardedAt u H i ↔ ∀ H₁ step H₂,
      H = H₁ ++ step :: H₂ →
      ¬ (Unregisters u step ∧ (post u H₁).Waits i) := by
    intro H
    constructor
    · exact fun h H₁ step H₂ hH hboth => h ⟨H₁, step, H₂, hH, hboth⟩
    · rintro h ⟨H₁, step, H₂, hH, hboth⟩
      exact h H₁ step H₂ hH hboth
  rw [← not_iff_not, not_or, hnot, hnot]
  exact hsplit

/-- A message that was discarded was stored before. -/
theorem DiscardedAt.lt (h : DiscardedAt u H i) : i < H.length := by
  obtain ⟨H₁, step, H₂, rfl, -, hwaits⟩ := h
  obtain ⟨step', m, hi, -⟩ := stored_of_waits hwaits
  rw [List.length_append]
  exact Nat.lt_add_right _ (List.getElem?_eq_some_iff.mp hi).1

/-! ### What is booked -/

/-- What the books tell after a history. -/
structure Booked (u : Bytes) (H : List Turned) : Prop where
  tidy : (post u H).Tidy H.length
  traced : ∀ i, AnsweredAt u H i → (post u H).Has i ∨ DiscardedAt u H i
  gone : ∀ i, DiscardedAt u H i → ¬ (post u H).Has i

/-- New books are empty. -/
theorem booked_nil : Booked u [] where
  tidy := by
    refine ⟨fun id id' i hi => (by cases hi), List.nodup_nil, fun i hi => ?_, fun i hi => ?_⟩
    · obtain ⟨id, hid⟩ := hi
      cases hid
    · rcases hi with ⟨id, hid⟩ | hi
      · cases hid
      · cases hi
  traced := by
    rintro i ⟨s, c, t, hstep, -⟩
    cases hstep
  gone := fun i hi => absurd hi.lt (Nat.not_lt_zero i)

/-- A request for somebody else. -/
theorem Booked.other (h : Booked u H) (huser : step.1.user ≠ some u) :
    Booked u (H ++ [step]) := by
  have hpost : post u (H ++ [step]) = post u H := by
    rw [post_snoc]
    exact if_neg huser
  refine ⟨?_, fun i hi => ?_, fun i hi => ?_⟩
  · rw [hpost, List.length_append]
    exact h.tidy.mono (Nat.le_add_right _ _)
  · rw [hpost, discardedAt_snoc]
    rcases answeredAt_snoc hi with hi | ⟨-, s, c, hreq, -⟩
    · exact (h.traced i hi).imp_right Or.inl
    · exact absurd (by rw [hreq]; rfl) huser
  · rw [hpost]
    rcases discardedAt_snoc.mp hi with hi | ⟨hun, -⟩
    · exact h.gone i hi
    · exact absurd (by rw [hun.1]; rfl) huser

/-- An `UNREGISTER` discards what waits. -/
theorem Booked.unregistered (h : Booked u H) (hun : Unregisters u step)
    (hpost : post u (H ++ [step]) = ⟨fun _ => none, (post u H).sent⟩) :
    Booked u (H ++ [step]) := by
  have hwaits : ∀ i, ¬ (post u (H ++ [step])).Waits i := by
    rintro i ⟨id, hid⟩
    rw [hpost] at hid
    cases hid
  have horder : (post u (H ++ [step])).order = (post u H).order := by
    rw [hpost]
    rfl
  have hhas : ∀ i, (post u (H ++ [step])).Has i → i ∈ (post u H).order := by
    rintro i (hi | hi)
    · exact absurd hi (hwaits i)
    · rwa [horder] at hi
  refine ⟨⟨fun id id' i hi => absurd ⟨id, hi⟩ (hwaits i), ?_,
    fun i hi => absurd hi (hwaits i), fun i hi => ?_⟩,
    fun i hi => ?_, fun i hi hmem => ?_⟩
  · rw [horder]
    exact h.tidy.once
  · rw [List.length_append]
    exact Nat.lt_add_right _ (h.tidy.below i (Or.inr (hhas i hi)))
  · rw [discardedAt_snoc]
    rcases answeredAt_snoc hi with hi | ⟨-, s, c, hreq, -⟩
    · rcases h.traced i hi with (hi | hi) | hi
      · exact Or.inr (Or.inr ⟨hun, hi⟩)
      · exact Or.inl (Or.inr (by rwa [horder]))
      · exact Or.inr (Or.inl hi)
    · rw [hun.1] at hreq
      cases hreq
  · rcases discardedAt_snoc.mp hi with hi | ⟨-, hi⟩
    · exact h.gone i hi (Or.inr (hhas i hmem))
    · exact h.tidy.apart i hi (hhas i hmem)

/-- Any other request keeps the books. -/
theorem Booked.carried (h : Booked u H) (hun : ¬ Unregisters u step)
    (hcarries : (post u H).Carries H.length (post u (H ++ [step])))
    (hnew : ∀ s c, step.1 = .send s u c → Act.replied [srvSuccess] ∈ acts step.2 →
      (post u (H ++ [step])).Has H.length) : Booked u (H ++ [step]) := by
  refine ⟨?_, fun i hi => ?_, fun i hi hmem => ?_⟩
  · rw [List.length_append]
    exact hcarries.tidy
  · rw [discardedAt_snoc]
    rcases answeredAt_snoc hi with hi | ⟨rfl, s, c, hreq, hreply⟩
    · exact (h.traced i hi).imp (hcarries.kept i) Or.inl
    · exact Or.inl (hnew s c hreq hreply)
  · rcases discardedAt_snoc.mp hi with hi | ⟨hyes, -⟩
    · rcases hcarries.new i hmem with hmem | rfl
      · exact h.gone i hi hmem
      · exact absurd hi.lt (Nat.lt_irrefl _)
    · exact hun hyes

/-- **One more request of the user**, whose `SEND`s deliver or store. -/
theorem Booked.own {req : Req} {t : List srvE.Event} (h : Booked u H) (hconveyed : Conveyed u H a)
    (huser : req.user = some u) (hserved : Served u a req (acts t) a')
    (hright : ∀ s c ud, req = .send s u c → a.record = some ud →
        DeliversOrStores ud (acts t)) :
    Booked u (H ++ [(req, t)]) := by
  have hpost : post u (H ++ [(req, t)]) = (acts t).foldl (Post.act H.length req) (post u H) := by
    rw [post_snoc]
    exact if_pos huser
  rcases hserved.carries hconveyed.stray hconveyed.matched h.tidy hright with
    ⟨hun, hnone⟩ | ⟨hun, hcarries, hnew⟩
  · exact h.unregistered hun (hpost.trans hnone)
  · rw [← hpost] at hcarries hnew
    exact h.carried hun hcarries hnew

/-! ### Whole histories -/

/-- A request is handled as in `HandledApart`, and a `SEND` to `u` delivers or stores. -/
def HandledOnce (u : Bytes) (fs : FS) (step : Turned) (fs' : FS) : Prop :=
  HandledApart u fs step fs' ∧ ∀ s c ud, step.1 = .send s u c →
    fs.content (userdataPath u) = Entry.image ⟨u, .user ud⟩ →
      DeliversOrStores ud (acts step.2)

/-- What the books tell, the files show. -/
theorem Booked.bookkept {fs : FS} (h : Booked u H) (hconveyed : Conveyed u H a)
    (hkept : fs.Keeps True u a)
    (hu : slash ∉ u) : Bookkept u H fs := by
  refine ⟨fun i hi => ?_, fun id => ?_, hconveyed.inOrder.transmitted,
    hconveyed.inOrder.admitted⟩
  · rcases h.traced i hi with (hwaits | hsent) | hdiscarded
    · obtain ⟨id, hid⟩ := hwaits
      exact Placed.kept (List.count_eq_zero_of_not_mem (h.tidy.apart i ⟨id, hid⟩))
        ⟨id, hid, fun id' hid' => h.tidy.single id' id i hid' hid⟩
    · exact Placed.delivered (List.count_eq_one_of_mem h.tidy.once hsent) fun hwaits =>
        h.tidy.apart i hwaits hsent
    · have hnot := h.gone i hdiscarded
      exact Placed.discarded hdiscarded (List.count_eq_zero_of_not_mem
        fun hmem => hnot (Or.inr hmem))
        fun hwaits => hnot (Or.inl hwaits)
  · rw [hkept.content_pending hu]
    cases hm : a.pending id with
    | none => exact Or.inl ⟨hconveyed.matched.free id hm, rfl⟩
    | some m =>
        obtain ⟨i, hi, hadmitted⟩ := hconveyed.matched.held id m hm
        exact Or.inr ⟨i, m, hi, hadmitted, (hkept.own id m hm).1, rfl⟩

/-- **The law of the books.**  After every history from an empty database in which every
`SEND` to `u` delivers or stores, and no request is for another user whose table meets that
of `u`, each message whose `SEND` was answered with success has been transmitted once or
waits once, unless it was discarded by an `UNREGISTER`. -/
theorem run_bookkept {fs₀ fs : FS} (hu : slash ∉ u) (hfresh : fs₀.Fresh)
    (h : Run (HandledOnce u) fs₀ H fs) : Bookkept u H fs := by
  suffices hrun : ∃ a, Booked u H ∧ Conveyed u H a ∧ fs.Keeps True u a by
    obtain ⟨a, hbooked, hconveyed, hkept⟩ := hrun
    exact hbooked.bookkept hconveyed hkept hu
  induction h with
  | nil => exact ⟨.empty, booked_nil, conveyed_nil, hfresh.keeps hu⟩
  | @snoc H fs₁ fs₂ step _ hstep ih =>
      obtain ⟨a, hbooked, hconveyed, hkept⟩ := ih
      obtain ⟨hhandled, hright⟩ := hstep
      obtain ⟨a', hturn, hkept'⟩ := hhandled.1.turn True hu hkept hhandled.elsewhere.2
      refine ⟨a', ?_⟩
      rcases hturn with ⟨huser, hserved⟩ | ⟨huser, stray, hsame, rfl⟩
      · refine ⟨hbooked.own hconveyed huser hserved fun s c ud hreq hud => hright s c ud hreq ?_,
          hconveyed.own huser hserved, hkept'⟩
        rw [hkept.content_record hu, hud]
        rfl
      · obtain rfl : stray = a.stray := hsame trivial
        exact ⟨hbooked.other huser, hconveyed.other huser, hkept'⟩

end Histories

/-! ## A message that is delivered and kept -/

/-- A message waits for `b`. -/
theorem run_bookkept_send : Bookkept (ascii "b") [turned (.register (ascii "a")) emptyDb,
    turned (.register (ascii "b")) registeredA,
    turned (.send (ascii "a") (ascii "b") (ascii "hi")) registeredAB] pendingAB := by
  have hA := handled_turned (.register (ascii "a")) emptyDb (by decide) (by decide +kernel)
  have hB := handled_turned (.register (ascii "b")) registeredA (by decide) (by decide +kernel)
  have hsend := handled_turned (.send (ascii "a") (ascii "b") (ascii "hi")) registeredAB
    (by decide) (by decide +kernel)
  have hregister : ∀ {v : Bytes} {fs fs' : FS}, HandledApart (ascii "b") fs
      (turned (.register v) fs) fs' →
      HandledOnce (ascii "b") fs (turned (.register v) fs) fs' :=
    fun h => ⟨h, fun s c ud hreq => by cases hreq⟩
  have hright : HandledOnce (ascii "b") registeredAB
      (turned (.send (ascii "a") (ascii "b") (ascii "hi")) registeredAB) pendingAB := by
    refine ⟨HandledApart.of_noSlash hsend (by decide) (by decide) rfl,
      fun s c ud _ hud junk l _ => ?_⟩
    -- `b` counts as disconnected
    have hrecord : registeredAB.content (userdataPath (ascii "b")) =
        Entry.image ⟨ascii "b", .user ⟨statusDcn, 0, 0, 0⟩⟩ := by decide +kernel
    have hfits : ∀ ud, Entry.Fits ⟨ascii "b", .user ud⟩ := fits_user (by decide)
    have hsame := image_inj (hfits _) (hfits _) (hrecord.symm.trans hud)
    obtain rfl : (⟨statusDcn, 0, 0, 0⟩ : Userdata) = ud := by simpa using hsame
    exact ⟨fun hcn => absurd hcn (show statusDcn ≠ statusCn by decide),
      fun _ hnot => absurd rfl hnot⟩
  exact run_bookkept (by decide) emptyDb_fresh
    (((Run.single (hregister (HandledApart.of_noSlash hA (by decide) (by decide) rfl))).snoc
      (hregister (HandledApart.of_noSlash hB (by decide) (by decide) rfl))).snoc hright)

/-- The reply code that nothing assigns happens to be 1. -/
def byteOne (_ : ℕ) : SrvChoice :=
  { (default : SrvChoice) with junk := ⟨1, default, default⟩ }

/-- A message is sent to `b`, who is connected. -/
def sendToConnected : Script :=
  [(.register (ascii "a"), calm), (.register (ascii "b"), calm),
    (.connect (ascii "b") (ascii "80"), calm),
    (.send (ascii "a") (ascii "b") (ascii "hi"), byteOne)]

theorem sendToConnected_plays : Plays 2 sendToConnected emptyDb ∧
    ((history 2 sendToConnected emptyDb).1[3]?.map
        fun step => (step.1, replies step.2 srvSuccess)) =
      some (.send (ascii "a") (ascii "b") (ascii "hi"), true) ∧
    (post (ascii "b") (history 2 sendToConnected emptyDb).1).order = [3] ∧
    (post (ascii "b") (history 2 sendToConnected emptyDb).1).waits 1 = some 3 := by
  decide +kernel

/-- **`srv_send` keeps a message that it has delivered**, when the reply code that nothing
assigns is not `SRV_SUCCESS`. -/
theorem not_run_bookkept :
    ¬ ∀ (u : Bytes) (fs₀ fs : FS) (H : List Turned), slash ∉ u → fs₀.Fresh →
      Run (HandledApart u) fs₀ H fs →
      ∀ i, AnsweredAt u H i → Placed u H i := by
  intro h
  obtain ⟨hplays, hanswered, horder, hwaits⟩ := sendToConnected_plays
  have hcalm : ∀ c ∈ sendToConnected, ∀ n, (c.2 n).Calm := by
    simp only [sendToConnected, List.forall_mem_cons, List.not_mem_nil, false_imp_iff,
      implies_true, and_true]
    exact ⟨calm_calm, calm_calm, calm_calm, fun _ _ => rfl⟩
  have hbooks := h (ascii "b") emptyDb _ _ (by decide) emptyDb_fresh
    (run_script_apart (by decide) hcalm hplays (by decide))
  have hplaced : Placed (ascii "b") (history 2 sendToConnected emptyDb).1 3 := by
    obtain ⟨step, hstep, heq⟩ := Option.map_eq_some_iff.mp hanswered
    obtain ⟨req, t⟩ := step
    obtain ⟨rfl, hreply⟩ := Prod.mk.inj heq
    exact hbooks 3 ⟨_, _, t, hstep, replies_iff.mp hreply⟩
  -- it has been transmitted, and it waits
  cases hplaced with
  | delivered _ hnot => exact hnot ⟨1, hwaits⟩
  | kept hsent _ =>
      rw [horder] at hsent
      cases hsent
  | discarded _ _ hnot => exact hnot ⟨1, hwaits⟩
