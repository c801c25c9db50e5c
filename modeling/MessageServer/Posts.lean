/-
# Messages on their way

A message to a connected user is transmitted by its own `SEND`; any other waits, and the next
`CONNECT` transmits what waits as the directory lists it.

* `Post`, `post`: the messages to a user that wait and those that were transmitted, each known by
  the position of its `SEND` in the history;
* `Post.Matches`: the messages that wait are those of the account;
* `Served.post`: what one request does to them.
-/
import MessageServer.Erasure

/-! ## Following messages -/

/-- What becomes of the messages to a user: which wait, by their ids, and which were
transmitted.  A message is known by the position of its `SEND`. -/
structure Post where
  waits : UInt32 → Option ℕ
  sent : List (ℕ × Message)

namespace Post

/-- No message yet. -/
def empty : Post := ⟨fun _ => none, []⟩

/-- An act of the request at position `k`. -/
def act (k : ℕ) (req : Req) (p : Post) : Act → Post
  | .stored m true => { p with waits := Function.update p.waits m.id (some k) }
  | .dropped m true => { p with waits := Function.update p.waits m.id none }
  | .closed result => if 0 ≤ result then { p with waits := fun _ => none } else p
  | .sent m result =>
      if result = 0 then
        match req with
        | .send _ _ _ => { p with sent := p.sent ++ [(k, m)] }
        -- the message that waits under the id
        | _ => { p with sent := p.sent ++ ((p.waits m.id).map fun i => (i, m)).toList }
      else p
  | _ => p

/-- A request at position `k`, whosoever it is for. -/
def turn (u : Bytes) (p : Post) (k : ℕ) (step : Turned) : Post :=
  if step.1.user = some u then (acts step.2).foldl (act k step.1) p else p

/-- The message of position `i` waits. -/
def Waits (p : Post) (i : ℕ) : Prop := ∃ id, p.waits id = some i

/-- The positions of the transmitted messages, in the order of the transmissions. -/
def order (p : Post) : List ℕ := p.sent.map Prod.fst

end Post

/-- The messages to `u` after a history. -/
def post (u : Bytes) (H : List Turned) : Post :=
  H.zipIdx.foldl (fun p step => p.turn u step.2 step.1) Post.empty

/-- The message that an act transmits. -/
def Act.delivers : Act → Option Message
  | .sent m result => if result = 0 then some m else none
  | _ => none

/-- The messages that were transmitted to `u`, in this order. -/
def transmissions (u : Bytes) (H : List Turned) : List Message :=
  H.flatMap fun step => if step.1.user = some u then (acts step.2).filterMap Act.delivers else []

/-- The message of position `i` is accepted for `u` as `m`. -/
def AdmittedAt (u : Bytes) (H : List Turned) (i : ℕ) (m : Message) : Prop :=
  ∃ step, H[i]? = some step ∧ admittedIn u step = some m

/-- At some time the messages of positions `i` and `j` both wait, and the first has not been
transmitted. -/
def Together (u : Bytes) (H : List Turned) (i j : ℕ) : Prop :=
  ∃ H₁ H₂, H = H₁ ++ H₂ ∧ (post u H₁).Waits i ∧ (post u H₁).Waits j ∧
    i ∉ (post u H₁).order

/-- **The law of the order**: what is transmitted was accepted, and of two messages the one
that was accepted first is transmitted first, unless they wait together. -/
structure InOrder (u : Bytes) (H : List Turned) : Prop where
  transmitted : (post u H).sent.map Prod.snd = transmissions u H
  admitted : ∀ i m, (i, m) ∈ (post u H).sent → AdmittedAt u H i m
  order : ∀ i j, i < j → i ∈ (post u H).order → j ∈ (post u H).order →
    (post u H).order.idxOf i < (post u H).order.idxOf j ∨ Together u H i j

/-! ## One request -/

section Requests

variable {u : Bytes} {a a' : Account} {k : ℕ} {req : Req} {p : Post}
  {A : ℕ → Message → Prop} {l : List Act}

/-- One more request. -/
theorem post_snoc (u : Bytes) (H : List Turned) (step : Turned) :
    post u (H ++ [step]) = (post u H).turn u H.length step := by
  unfold post
  rw [List.zipIdx_append, List.foldl_append, Nat.zero_add]
  rfl

/-- Acts that move no message. -/
theorem foldl_act_of_still (h : ∀ x ∈ l, ∀ p, Post.act k req p x = p) :
    l.foldl (Post.act k req) p = p := by
  induction l with
  | nil => rfl
  | cons x l ih =>
      rw [List.foldl_cons, h x List.mem_cons_self]
      exact ih fun y hy => h y (List.mem_cons_of_mem _ hy)

/-- Replies change no post. -/
@[simp] theorem foldl_act_tolds (wire : List Bytes) :
    (tolds wire).foldl (Post.act k req) p = p := by
  apply foldl_act_of_still
  intro x hx p
  obtain ⟨bytes, -, rfl⟩ := List.mem_map.mp hx
  rfl

/-- A message that gets through is delivered. -/
theorem delivers_sent (m : Message) : (Act.sent m 0).delivers = some m := rfl

/-- A message that does not get through is not delivered. -/
theorem delivers_failed {m : Message} {result : ℤ} (h : result ≠ 0) :
    (Act.sent m result).delivers = none :=
  if_neg h

/-- Replies deliver nothing. -/
@[simp] theorem filterMap_delivers_tolds (wire : List Bytes) :
    (tolds wire).filterMap Act.delivers = [] := by
  apply List.filterMap_eq_nil_iff.mpr
  intro x hx
  obtain ⟨bytes, -, rfl⟩ := List.mem_map.mp hx
  rfl

/-! ### The post and the account -/

/-- The messages that wait are those of the account, and `A` says which they are. -/
structure Post.Matches (A : ℕ → Message → Prop) (p : Post) (a : Account) : Prop where
  held : ∀ id m, a.pending id = some m → ∃ i, p.waits id = some i ∧ A i m
  free : ∀ id, a.pending id = none → p.waits id = none

/-- While the user is connected, what waits has been transmitted already. -/
def Post.Spent (p : Post) (a : Account) : Prop :=
  ∀ ud, a.record = some ud → ud.status = statusCn → ∀ i, p.Waits i → i ∈ p.order

/-- What a request at position `k`, which transmits `ms`, does to the messages. -/
structure Post.Moves (A : ℕ → Message → Prop) (a : Account) (k : ℕ) (p : Post)
    (ms : List Message) (p' : Post)
    (a' : Account) : Prop where
  matched : p'.Matches A a'
  waits : ∀ i, p'.Waits i → p.Waits i ∨ i = k
  sent : ∃ l, p'.sent = p.sent ++ l ∧ l.map Prod.snd = ms ∧ ∀ x ∈ l, A x.1 x.2 ∧
    (p.Waits x.1 ∨ x.1 = k ∧ ∃ ud, a.record = some ud ∧ ud.status = statusCn)
  spent : p.Spent a → p'.Spent a'

/-- A matched message that waits. -/
theorem Post.Matches.pending (h : p.Matches A a) {id : UInt32} {i : ℕ}
    (hi : p.waits id = some i) :
    ∃ m, a.pending id = some m ∧ A i m := by
  cases hm : a.pending id with
  | none =>
      rw [h.free id hm] at hi
      cases hi
  | some m =>
      obtain ⟨i', hi', hA⟩ := h.held id m hm
      obtain rfl := Option.some.inj (hi'.symm.trans hi)
      exact ⟨m, rfl, hA⟩

/-- Nothing moves. -/
theorem Post.Moves.still (h : p.Matches A a) (hpending : a'.pending = a.pending)
    (hstatus : ∀ ud, a'.record = some ud → ud.status = statusCn →
      (∃ ud, a.record = some ud ∧ ud.status = statusCn) ∨ ∀ i, ¬ p.Waits i) :
      p.Moves A a k [] p a' := by
  refine ⟨⟨fun id m hm => h.held id m (by rwa [hpending] at hm),
    fun id hm => h.free id (by rwa [hpending] at hm)⟩,
    fun i hi => Or.inl hi, ⟨[], by simp, rfl, by simp⟩, fun hspent ud hud hcn i hi => ?_⟩
  rcases hstatus ud hud hcn with ⟨ud', hud', hcn'⟩ | hnone
  · exact hspent ud' hud' hcn' i hi
  · exact absurd hi (hnone i)

/-- A message that waits no more. -/
theorem Post.Matches.drop {m : Message} (h : p.Matches A a) (l' : List (ℕ × Message)) :
    Post.Matches A ⟨Function.update p.waits m.id none, l'⟩ (a.drop m.id) := by
  constructor
  · intro id m' hm'
    rcases update_eq_iff.mp hm' with ⟨-, hnone⟩ | ⟨hne, hm'⟩
    · cases hnone
    · obtain ⟨i, hi, hA⟩ := h.held id m' hm'
      exact ⟨i, update_eq_iff.mpr (Or.inr ⟨hne, hi⟩), hA⟩
  · intro id hnone
    apply update_eq_iff.mpr
    rcases update_eq_iff.mp hnone with ⟨heq, -⟩ | ⟨hne, hnone⟩
    · exact Or.inl ⟨heq, rfl⟩
    · exact Or.inr ⟨hne, h.free id hnone⟩

/-- What waits after a removal waited before. -/
theorem Post.waits_of_drop {p : Post} {id : UInt32} {l' : List (ℕ × Message)} {i : ℕ}
    (h : Post.Waits ⟨Function.update p.waits id none, l'⟩ i) : p.Waits i := by
  obtain ⟨id', hid'⟩ := h
  rcases update_eq_iff.mp hid' with ⟨-, hnone⟩ | ⟨-, hi⟩
  · cases hnone
  · exact ⟨id', hi⟩

/-- What the drain does: it transmits messages `ms` that wait, and either nothing waits any longer
or the user counts as disconnected. -/
structure Post.Drains (A : ℕ → Message → Prop) (p : Post) (ms : List Message) (p' : Post)
    (a' : Account) : Prop where
  matched : p'.Matches A a'
  waits : ∀ i, p'.Waits i → p.Waits i
  sent : ∃ l, p'.sent = p.sent ++ l ∧ l.map Prod.snd = ms ∧ ∀ x ∈ l,
    A x.1 x.2 ∧ p.Waits x.1
  done : ∀ ud, a'.record = some ud → ud.status = statusCn → ∀ i, ¬ p'.Waits i

/-- Without strays the drain comes up with a message that waits, and deletes it. -/
theorem Account.Offers.pending {m : Message} {ok : Bool} (h : a.Offers m) (hstray : a.stray = false)
    (hok : ok = false → a.pending m.id = none) : a.pending m.id = some m ∧ ok = true := by
  have hpending : a.pending m.id = some m := by
    apply h.resolve_right
    rw [hstray]
    simp
  refine ⟨hpending, ?_⟩
  cases ok with
  | false =>
      rw [hok rfl] at hpending
      cases hpending
  | true => rfl

/-- A delivery of the drain. -/
theorem foldl_act_delivery (v port : Bytes) {m : Message} (ack : List Bytes)
    (result : ℤ) {i : ℕ}
    (hi : p.waits m.id = some i) :
    (tolds m.wire ++ .sent m 0 :: .dropped m true :: (tolds ack ++ .acked m.id result :: l)).foldl
        (Post.act k (.connect v port)) p =
      l.foldl (Post.act k (.connect v port)) ⟨Function.update p.waits m.id none, p.sent ++
          [(i, m)]⟩ := by
  rw [List.foldl_append, foldl_act_tolds, List.foldl_cons, List.foldl_cons, List.foldl_append,
    foldl_act_tolds, List.foldl_cons]
  unfold Post.act
  simp only [if_true, hi, Option.map_some, Option.toList_some]

/-- A message that does not get through moves nothing. -/
theorem foldl_act_failure (m : Message) (wire : List Bytes) {result : ℤ} (ud : Userdata)
    (hresult : result ≠ 0) :
    (tolds wire ++ [Act.sent m result, Act.wrote ud true]).foldl (Post.act k req) p = p := by
  rw [List.foldl_append, foldl_act_tolds]
  exact if_neg hresult

/-! ### The pieces of a request -/

/-- The drain, by induction on its rounds. -/
theorem Drained.post (v port : Bytes) (h : Drained a l a') (hstray : a.stray = false)
    (hp : p.Matches A a) :
    p.Drains A (l.filterMap Act.delivers) (l.foldl (Post.act k (.connect v port)) p) a' := by
  induction h generalizing p with
  | stop hidle =>
      refine ⟨hp, fun i hi => hi, ⟨[], by simp, rfl, by simp⟩, fun ud _ _ i hi => ?_⟩
      obtain ⟨id, hid⟩ := hi
      rw [List.foldl_nil, hp.free id (hidle hstray id)] at hid
      cases hid
  | @sent a a' l m ok ack result hm hok hack hrest ih =>
      obtain ⟨hpending, rfl⟩ := hm.pending hstray hok
      obtain ⟨i, hi, hA⟩ := hp.held m.id m hpending
      rw [foldl_act_delivery v port ack result hi, List.filterMap_append, filterMap_delivers_tolds,
        List.nil_append]
      obtain ⟨hmatched, hwaits, ⟨l', hsent, hms, hl'⟩, hdone⟩ :=
        ih hstray (hp.drop (p.sent ++ [(i, m)]))
      refine ⟨hmatched, fun j hj => Post.waits_of_drop (hwaits j hj),
        ⟨(i, m) :: l', ?_, ?_, ?_⟩, hdone⟩
      · rw [hsent, List.append_assoc]
        rfl
      · rw [List.map_cons, hms, List.filterMap_cons_some (delivers_sent m),
          List.filterMap_cons_none rfl,
          List.filterMap_append, filterMap_delivers_tolds, List.nil_append,
            List.filterMap_cons_none rfl]
      · intro x hx
        rcases List.mem_cons.mp hx with rfl | hx
        · exact ⟨hA, m.id, hi⟩
        · exact ⟨(hl' x hx).1, Post.waits_of_drop (hl' x hx).2⟩
  | @failed a ud m wire result hm hwire hresult hud =>
      rw [foldl_act_failure m wire ud.lost hresult, List.filterMap_append, filterMap_delivers_tolds,
        List.nil_append,
        List.filterMap_cons_none (delivers_failed hresult)]
      refine ⟨⟨hp.held, hp.free⟩, fun i hi => hi, ⟨[], by simp, rfl, by simp⟩,
        fun ud' hud' hcn => ?_⟩
      have hlost : ud.lost = ud' := Option.some.inj hud'
      rw [← hlost] at hcn
      exact absurd hcn (show statusDcn ≠ statusCn by decide)

/-- The reply to `CONNECT` moves no message. -/
theorem Connecting.post (k : ℕ) (req : Req) (p : Post) {port : Bytes}
    (h : Connecting port a l a') :
    l.foldl (Post.act k req) p = p ∧ l.filterMap Act.delivers = [] ∧ a'.pending = a.pending ∧
      a'.stray = a.stray := by
  cases h with
  | _ => exact ⟨rfl, rfl, rfl, rfl⟩

/-- Passing on a message of position `k`: it is transmitted to a user who is connected, and who
stays so only then. -/
theorem Passing.post {s r c : Bytes} {ud ud' : Userdata} {m : Message} (h : Passing a ud m l ud' a')
    (hud : a.record = some ud) : a'.pending = a.pending ∧ a'.record = some ud' ∧
      ((l.foldl (Post.act k (.send s r c)) p = p ∧ l.filterMap Act.delivers = [] ∧
          ud'.status ≠ statusCn) ∨
        (l.foldl (Post.act k (.send s r c)) p = ⟨p.waits, p.sent ++ [(k, m)]⟩ ∧
          l.filterMap Act.delivers = [m] ∧ ud.status = statusCn)) := by
  cases h with
  | idle hstatus => exact ⟨rfl, hud, Or.inl ⟨rfl, rfl, hstatus⟩⟩
  | sent hstatus =>
      refine ⟨rfl, hud, Or.inr ⟨?_, ?_, hstatus⟩⟩
      · rw [List.foldl_append, foldl_act_tolds]
        rfl
      · rw [List.filterMap_append, filterMap_delivers_tolds]
        rfl
  | failed wire result hstatus hwire hresult =>
      refine ⟨rfl, rfl, Or.inl ⟨?_, ?_, show statusDcn ≠ statusCn by decide⟩⟩
      · rw [List.foldl_append, foldl_act_tolds]
        exact if_neg hresult
      · rw [List.filterMap_append, filterMap_delivers_tolds, List.nil_append,
          List.filterMap_cons_none (delivers_failed hresult)]
        rfl

/-- Storing a message of position `k`. -/
theorem Shelving.post (req : Req) {ud : Userdata} {m : Message} {byte code : UInt8}
    (h : Shelving a ud m byte l code a')
    (hp : p.Matches A a) (hA : A k m) : (l.foldl (Post.act k req) p).Matches A a' ∧
      l.filterMap Act.delivers = [] ∧ a'.record = a.record ∧
        (l.foldl (Post.act k req) p).sent = p.sent ∧
      ∀ i, (l.foldl (Post.act k req) p).Waits i → p.Waits i ∨ i = k := by
  cases h with
  | skipped _ _ => exact ⟨hp, rfl, rfl, rfl, fun i hi => Or.inl hi⟩
  | taken _ _ => exact ⟨hp, rfl, rfl, rfl, fun i hi => Or.inl hi⟩
  | stored _ hfree =>
      refine ⟨⟨fun id m' hm' => ?_, fun id hnone => ?_⟩, rfl, rfl, rfl, fun i hi => ?_⟩
      · rcases update_eq_iff.mp hm' with ⟨heq, hm'⟩ | ⟨hne, hm'⟩
        · cases hm'
          exact ⟨k, update_eq_iff.mpr (Or.inl ⟨heq, rfl⟩), hA⟩
        · obtain ⟨i, hi, hA'⟩ := hp.held id m' hm'
          exact ⟨i, update_eq_iff.mpr (Or.inr ⟨hne, hi⟩), hA'⟩
      · rcases update_eq_iff.mp hnone with ⟨-, hm'⟩ | ⟨hne, hnone⟩
        · cases hm'
        · exact update_eq_iff.mpr (Or.inr ⟨hne, hp.free id hnone⟩)
      · obtain ⟨id, hid⟩ := hi
        rcases update_eq_iff.mp hid with ⟨-, heq⟩ | ⟨-, hi⟩
        · exact Or.inr (Option.some.inj heq).symm
        · exact Or.inl ⟨id, hi⟩

/-- The end of `SEND` moves no message. -/
theorem Finishing.post (k : ℕ) (req : Req) (p : Post) {ud : Userdata} {id : UInt32} {code : UInt8}
    (h : Finishing ud id code l) :
    l.foldl (Post.act k req) p = p ∧ l.filterMap Act.delivers = [] := by
  have hreply : ∀ l₀ : List Act, (∀ act ∈ l₀, code = srvSuccess ∧
      act = .replied (decimal id.toNat ++ [0])) →
      (∀ q : Post, l₀.foldl (Post.act k req) q = q) ∧ l₀.filterMap Act.delivers = [] := by
    intro l₀ hl₀
    constructor
    · intro q
      apply foldl_act_of_still
      intro x hx q
      rw [(hl₀ x hx).2]
      rfl
    · apply List.filterMap_eq_nil_iff.mpr
      intro x hx
      rw [(hl₀ x hx).2]
      rfl
  cases h with
  | bare l₀ hl₀ _ => exact ⟨(hreply l₀ hl₀).1 p, (hreply l₀ hl₀).2⟩
  | acked l₀ hl₀ junk ack result _ _ =>
      obtain ⟨hstill, hnone⟩ := hreply l₀ hl₀
      constructor
      · rw [List.foldl_cons, List.foldl_append, hstill, List.foldl_cons, List.foldl_append,
          foldl_act_tolds]
        rfl
      · rw [List.filterMap_cons_none rfl, List.filterMap_append, hnone, List.nil_append,
          List.filterMap_cons_none rfl, List.filterMap_append, filterMap_delivers_tolds]
        rfl

/-! ### The whole request -/

/-- Only a user with a record has messages that wait. -/
def Account.Owned (a : Account) : Prop := a.record = none → ∀ id, a.pending id = none

/-- A served account keeps its own messages. -/
theorem Served.owned {t : List srvE.Event} (h : Served u a req (acts t) a') (howned : a.Owned) :
    a'.Owned := by
  cases hrec : a.record with
  | none =>
      obtain ⟨-, rfl | ⟨ud, -, rfl, -⟩⟩ := h.of_none hrec
      · exact howned
      · exact fun _ _ => rfl
  | some ud =>
      by_cases hun : Unregisters u (req, t)
      · obtain ⟨-, rfl⟩ := h.of_unregisters hun
        exact fun _ _ => rfl
      · intro hnone
        rcases h.counts hrec hun with ⟨-, hless⟩ | ⟨m, -, -, ⟨ud', hud', -⟩, -⟩
        · obtain ⟨ud', hud', -⟩ := hless.count ud hrec
          rw [hud'] at hnone
          cases hnone
        · rw [hud'] at hnone
          cases hnone

/-- **What a request of `u` does to the messages to `u`**, by its outcome. -/
theorem Served.post {t : List srvE.Event} (h : Served u a req (acts t) a')
    (hstray : a.stray = false)
    (howned : a.Owned) (hp : p.Matches A a) (hA : ∀ m, admittedIn u (req, t) = some m → A k m) :
    Post.Moves A a k p ((acts t).filterMap Act.delivers)
      ((acts t).foldl (Post.act k req) p) a' := by
  have hnowhere : a.record = none → ∀ i, ¬ p.Waits i := by
    rintro hnone i ⟨id, hid⟩
    rw [hp.free id (howned hnone id)] at hid
    cases hid
  generalize hl : acts t = l at h
  cases h with
  | registered junk hnone =>
      exact Post.Moves.still hp (funext fun id => (howned hnone id).symm) fun _ _ _ =>
        Or.inr (hnowhere hnone)
  | unregistered result hresult hsome =>
      have hfold : [Act.closed result, Act.replied [srvSuccess]].foldl
          (Post.act k (.unregister u)) p =
          ⟨fun _ => none, p.sent⟩ := if_pos hresult
      rw [hfold]
      refine ⟨⟨fun id m hm => ?_, fun _ _ => rfl⟩, fun i hi => ?_,
        ⟨[], by simp, rfl, by simp⟩, fun _ ud hud => ?_⟩
      · cases hm
      · obtain ⟨id, hid⟩ := hi
        cases hid
      · cases hud
  | @connected port l l' a₁ a' junk hconnecting hdraining =>
      obtain ⟨hfold, hsilent, hpending, hstray₁⟩ :=
        Connecting.post k (.connect u port) p hconnecting
      rw [List.filterMap_cons_none rfl, List.filterMap_append, hsilent, List.nil_append,
        List.foldl_cons,
        List.foldl_append]
      change Post.Moves A a k p _ (l'.foldl _ (l.foldl _ p)) a'
      rw [hfold]
      -- what waits is transmitted in the order of the listing
      cases hdraining with
      | unknown junk' hnone =>
          refine Post.Moves.still hp hpending fun ud hud => ?_
          rw [hnone] at hud
          cases hud
      | @known junk' l' _ hsome hdrained =>
          have hp₁ : p.Matches A a₁ :=
            ⟨by rw [hpending]; exact hp.held, by rw [hpending]; exact hp.free⟩
          obtain ⟨hmatched, hwaits, ⟨l₀, hsent, hms, hl₀⟩, hdone⟩ :=
            hdrained.post u port (hstray₁.trans hstray) hp₁
          exact ⟨hmatched, fun i hi => Or.inl (hwaits i hi),
            ⟨l₀, hsent, hms, fun x hx => ⟨(hl₀ x hx).1, Or.inl (hl₀ x hx).2⟩⟩,
            fun _ ud hud hcn i hi => absurd hi (hdone ud hud hcn i)⟩
  | disconnected junk ud hud hstatus =>
      refine Post.Moves.still hp rfl fun ud' hud' hcn => ?_
      obtain rfl : ud.left = ud' := Option.some.inj hud'
      exact absurd hcn (show statusDcn ≠ statusCn by decide)
  | @accepted s c junk ud ud' code l₁ l₂ l₃ a₁ a' hud hpassing hshelving hfinishing =>
      have hA' : A k ⟨s, ud.next.lastMsgId, c⟩ := hA _ (admittedIn_send hl)
      obtain ⟨hpending, hrecord, hpassed⟩ :=
        Passing.post (k := k) (p := p) (s := s) (r := u) (c := c) hpassing rfl
      have hfold : (Act.locals junk :: Act.wrote ud.next true :: (l₁ ++ (l₂ ++ l₃))).foldl
          (Post.act k (.send s u c)) p =
          l₂.foldl (Post.act k (.send s u c)) (l₁.foldl (Post.act k (.send s u c)) p) := by
        rw [List.foldl_cons, List.foldl_cons, List.foldl_append, List.foldl_append,
          (hfinishing.post k (.send s u c) _).1]
        rfl
      have hms : (Act.locals junk :: Act.wrote ud.next true :: (l₁ ++ (l₂ ++ l₃))).filterMap
          Act.delivers =
          l₁.filterMap Act.delivers ++ l₂.filterMap Act.delivers := by
        rw [List.filterMap_cons_none rfl, List.filterMap_cons_none rfl, List.filterMap_append,
          List.filterMap_append, (hfinishing.post k (.send s u c) p).2, List.append_nil]
      rw [hfold, hms]
      -- the message has not got through, or has been transmitted at once
      rcases hpassed with ⟨hpass, hms₁, hlost⟩ | ⟨hpass, hms₁, hcn⟩
      · rw [hpass, hms₁]
        have hp₁ : p.Matches A a₁ :=
          ⟨by rw [hpending]; exact hp.held, by rw [hpending]; exact hp.free⟩
        obtain ⟨hmatched, hms₂, hsame, hsent, hwaits⟩ :=
          hshelving.post (.send s u c) hp₁ hA'
        refine ⟨hmatched, hwaits,
          ⟨[], by rw [hsent, List.append_nil], by rw [hms₂]; rfl, by simp⟩,
          fun _ ud₀ hud₀ hcn => ?_⟩
        rw [hsame, hrecord] at hud₀
        cases hud₀
        exact absurd hcn hlost
      · rw [hpass, hms₁]
        have hp₁ :
            Post.Matches A ⟨p.waits, p.sent ++ [(k, ⟨s, ud.next.lastMsgId, c⟩)]⟩ a₁ :=
          ⟨by rw [hpending]; exact hp.held, by rw [hpending]; exact hp.free⟩
        obtain ⟨hmatched, hms₂, hsame, hsent, hwaits⟩ :=
          hshelving.post (.send s u c) hp₁ hA'
        refine ⟨hmatched, hwaits, ⟨_, hsent, by rw [hms₂]; rfl, fun x hx => ?_⟩,
          fun hspent _ _ _ i hi => ?_⟩
        · rw [List.mem_singleton.mp hx]
          exact ⟨hA', Or.inr ⟨rfl, ud, hud, hcn⟩⟩
        · -- what waited has been transmitted before, and the new message just now
          rw [Post.order, hsent, List.map_append, List.mem_append]
          rcases hwaits i hi with hi | rfl
          · exact Or.inl (hspent ud hud hcn i hi)
          · exact Or.inr (by simp)
  | _ => exact Post.Moves.still hp rfl fun ud hud hcn => Or.inl ⟨ud, hud, hcn⟩

end Requests
