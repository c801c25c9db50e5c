/-
# Database entries and their memory image (`entry_t` of `util.h`)

`Entry` is the struct `entry_t`: a username, a type tag and a union of a userdata
record and a message.  The union is a sum with one summand for each view; a tag
that is neither `ENT_TYPE_UD` nor `ENT_TYPE_P_MSG` keeps the bytes it stands on.

The server stores an entry by writing its memory image, and reads it back over the
caller's variable, so the image is part of the model: `Entry.image` lays the fields
out as the compiler does on amd64 (little endian, padding and the space behind a
string's NUL cleared), `Entry.ofImage` reads them off again.

* `ofImage_image` : an entry whose strings fit their arrays is read back as it is.
-/
import MessageServer.Util

/-! ## Records -/

/-- `struct userdata`: what is stored about a user. -/
structure Userdata where
  status : UInt8
  ip : UInt32
  port : UInt16
  lastMsgId : UInt32
  deriving DecidableEq, Repr, Inhabited

/-- `message_t` -/
structure Message where
  sender : Bytes
  id : UInt32
  content : Bytes
  deriving DecidableEq, Repr, Inhabited

/-- `ENT_TYPE_UD` -/
def entTypeUd : UInt8 := 117
/-- `ENT_TYPE_P_MSG` -/
def entTypePMsg : UInt8 := 109

/-- The `type` field and the union of `entry_t`. -/
inductive EntryData
  | user (u : Userdata)
  | msg (m : Message)
  | other (type : UInt8) (mem : Bytes)
  deriving DecidableEq, Repr

instance : Inhabited EntryData := ⟨.user default⟩

/-- `entry_t` -/
structure Entry where
  username : Bytes
  data : EntryData
  deriving DecidableEq, Repr, Inhabited

/-! ## Little-endian numbers -/

/-- A number in `k` bytes, least significant first. -/
def le : ℕ → ℕ → Bytes
  | 0, _ => []
  | k + 1, n => (n % 256).toUInt8 :: le k (n / 256)

/-- The number that bytes stand for, least significant first. -/
def unle : Bytes → ℕ
  | [] => 0
  | b :: bs => b.toNat + 256 * unle bs

/-- An integer has as many bytes as asked for. -/
@[simp] theorem length_le (k n : ℕ) : (le k n).length = k := by
  induction k generalizing n with
  | zero => rfl
  | succ k ih => simp [le, ih]

/-- An integer is read back from its bytes. -/
theorem unle_le (k n : ℕ) (h : n < 256 ^ k) : unle (le k n) = n := by
  induction k generalizing n with
  | zero =>
      simp only [pow_zero, Nat.lt_one_iff] at h
      subst h
      rfl
  | succ k ih =>
      have hdiv : n / 256 < 256 ^ k := by
        rw [Nat.div_lt_iff_lt_mul (by norm_num)]
        rwa [pow_succ] at h
      have hmod : (n % 256).toUInt8.toNat = n % 256 := by
        simp
      rw [le, unle, ih _ hdiv, hmod]
      omega

/-! ## Strings in arrays -/

/-- A C string that fits an array of `n` bytes with its terminator. -/
structure FitsBuf (n : ℕ) (s : Bytes) : Prop where
  noNul : 0 ∉ s
  short : s.length < n

/-- A string fits when it has no NUL and is short enough. -/
theorem fitsBuf_iff {n : ℕ} {s : Bytes} : FitsBuf n s ↔ 0 ∉ s ∧ s.length < n :=
  ⟨fun h => ⟨h.noNul, h.short⟩, fun h => ⟨h.1, h.2⟩⟩

instance (n : ℕ) (s : Bytes) : Decidable (FitsBuf n s) := decidable_of_iff _ fitsBuf_iff.symm

/-- A padded string has the length asked for. -/
@[simp] theorem length_padTo (n : ℕ) (s : Bytes) : (padTo n s).length = n := by
  simp only [padTo, List.length_take, List.length_append, List.length_replicate]
  omega

/-- Padding a string that fits appends at least its terminator. -/
theorem padTo_eq {n : ℕ} {s : Bytes} (h : s.length ≤ n) :
    padTo n s = s ++ List.replicate (n - s.length) 0 := by
  rw [padTo, List.take_of_length_le]
  simp only [List.length_append, List.length_replicate]
  omega

/-- A string without NUL ends at the first NUL after it. -/
theorem cstr_append_zero {s t : Bytes} (h : 0 ∉ s) : cstr (s ++ 0 :: t) = s := by
  unfold cstr
  rw [List.takeWhile_append_of_pos]
  · simp
  · intro c hc
    have hne : c ≠ 0 := fun h0 => h (h0 ▸ hc)
    simpa using hne

/-- A string is read back from its array. -/
theorem cstr_padTo {n : ℕ} {s : Bytes} (h : FitsBuf n s) : cstr (padTo n s) = s := by
  obtain ⟨k, hk⟩ : ∃ k, n - s.length = k + 1 :=
    ⟨n - s.length - 1, by have := h.short; omega⟩
  rw [padTo_eq h.short.le, hk, List.replicate_succ]
  exact cstr_append_zero h.noNul

/-! ## Images -/

/-- The offset of the union in `entry_t`. -/
def unionOffset : ℕ := 516
/-- The size of the union, that of `message_t`. -/
def unionSize : ℕ := 772
/-- `sizeof(entry_t)` -/
def sizeofEntry : ℕ := 1288

/-- The 16 bytes of a userdata record. -/
def Userdata.image (u : Userdata) : Bytes :=
  [u.status, 0, 0, 0] ++ le 4 u.ip.toNat ++ le 2 u.port.toNat ++ [0, 0] ++ le 4 u.lastMsgId.toNat

/-- The userdata record at the start of the union. -/
def Userdata.ofImage (mem : Bytes) : Userdata where
  status := mem.getD 0 0
  ip := (unle ((mem.drop 4).take 4)).toUInt32
  port := (unle ((mem.drop 8).take 2)).toUInt16
  lastMsgId := (unle ((mem.drop 12).take 4)).toUInt32

/-- The 772 bytes of a message. -/
def Message.image (m : Message) : Bytes :=
  padTo maxStrSize m.sender ++ le 4 m.id.toNat ++ padTo maxMsgSize m.content

/-- The message at the start of the union. -/
def Message.ofImage (mem : Bytes) : Message where
  sender := cstr (mem.take maxStrSize)
  id := (unle ((mem.drop 512).take 4)).toUInt32
  content := cstr ((mem.drop 516).take maxMsgSize)

/-- The `type` field. -/
def EntryData.type : EntryData → UInt8
  | .user _ => entTypeUd
  | .msg _ => entTypePMsg
  | .other t _ => t

/-- The bytes of the union. -/
def EntryData.image : EntryData → Bytes
  | .user u => padTo unionSize u.image
  | .msg m => m.image
  | .other _ mem => padTo unionSize mem

/-- The view of the union that a type tag selects. -/
def EntryData.ofImage (type : UInt8) (mem : Bytes) : EntryData :=
  if type = entTypeUd then .user (Userdata.ofImage mem)
  else if type = entTypePMsg then .msg (Message.ofImage mem)
  else .other type mem

/-- The memory image of an entry. -/
def Entry.image (e : Entry) : Bytes :=
  padTo maxStrSize e.username ++ [e.data.type, 0, 0, 0] ++ e.data.image

/-- The entry that an image holds. -/
def Entry.ofImage (mem : Bytes) : Entry where
  username := cstr (mem.take maxStrSize)
  data := EntryData.ofImage (mem.getD 512 0) (mem.drop unionOffset)

/-! ## The union's members -/

/-- `entry.user`: the union read as a userdata record. -/
def Entry.user (e : Entry) : Userdata :=
  match e.data with
  | .user u => u
  | d => Userdata.ofImage d.image

/-- `entry.msg`: the union read as a message. -/
def Entry.msg (e : Entry) : Message :=
  match e.data with
  | .msg m => m
  | d => Message.ofImage d.image

/-- Assignments to members of `entry.user`; the tag stays. -/
def Entry.mapUser (f : Userdata → Userdata) (e : Entry) : Entry :=
  match e.data with
  | .user u => { e with data := .user (f u) }
  | d => { e with
      data := EntryData.ofImage d.type ((f (Userdata.ofImage d.image)).image ++ d.image.drop 16) }

/-- Assignments to members of `entry.msg`; the tag stays. -/
def Entry.mapMsg (f : Message → Message) (e : Entry) : Entry :=
  match e.data with
  | .msg m => { e with data := .msg (f m) }
  | d => { e with data := EntryData.ofImage d.type (f (Message.ofImage d.image)).image }

@[simp] theorem user_mk (u : Bytes) (ud : Userdata) : (Entry.mk u (.user ud)).user = ud := rfl

@[simp] theorem msg_mk (u : Bytes) (m : Message) : (Entry.mk u (.msg m)).msg = m := rfl

@[simp] theorem mapUser_mk (f : Userdata → Userdata) (u : Bytes) (ud : Userdata) :
    (Entry.mk u (.user ud)).mapUser f = ⟨u, .user (f ud)⟩ := rfl

@[simp] theorem mapMsg_mk (f : Message → Message) (u : Bytes) (m : Message) :
    (Entry.mk u (.msg m)).mapMsg f = ⟨u, .msg (f m)⟩ := rfl

/-! ## Reading an image back -/

/-- The strings of an entry fit their arrays. -/
def Entry.Fits (e : Entry) : Prop :=
  FitsBuf maxStrSize e.username ∧
    match e.data with
    | .user _ => True
    | .msg m => FitsBuf maxStrSize m.sender ∧ FitsBuf maxMsgSize m.content
    | .other _ _ => False

/-- The size of `userdata`. -/
@[simp] theorem length_userdata_image (u : Userdata) : u.image.length = 16 := by
  simp [Userdata.image]

/-- The size of `message_t` in the union. -/
@[simp] theorem length_message_image (m : Message) : m.image.length = unionSize := by
  simp [Message.image, maxStrSize, maxMsgSize, unionSize]

/-- The size of the union. -/
@[simp] theorem length_data_image (d : EntryData) : d.image.length = unionSize := by
  cases d <;> simp [EntryData.image]

/-- The size of `entry_t`. -/
@[simp] theorem length_image (e : Entry) : e.image.length = sizeofEntry := by
  simp [Entry.image, sizeofEntry, unionSize, maxStrSize]

/-- A record is read back from any memory that starts with its image. -/
theorem userdata_ofImage_append (u : Userdata) (t : Bytes) :
    Userdata.ofImage (u.image ++ t) = u := by
  obtain ⟨status, ip, port, lastMsgId⟩ := u
  have hip := unle_le 4 ip.toNat ip.toNat_lt
  have hport := unle_le 2 port.toNat port.toNat_lt
  have hid := unle_le 4 lastMsgId.toNat lastMsgId.toNat_lt
  have hdrop : ((Userdata.mk status ip port lastMsgId).image ++ t).drop 12 =
      le 4 lastMsgId.toNat ++ t := by
    rw [Userdata.image, List.append_assoc]
    exact List.drop_left' (by simp)
  simp only [Userdata.ofImage, hdrop, Userdata.mk.injEq]
  simp [Userdata.image, hip, hport, hid]

/-- A message whose strings fit is read back from its image. -/
theorem message_ofImage_image {m : Message} (hs : FitsBuf maxStrSize m.sender)
    (hc : FitsBuf maxMsgSize m.content) : Message.ofImage m.image = m := by
  obtain ⟨sender, id, content⟩ := m
  have hid := unle_le 4 id.toNat id.toNat_lt
  have hls : (padTo maxStrSize sender).length = 512 := length_padTo _ _
  have hlc : (padTo maxMsgSize content).length = 256 := length_padTo _ _
  simp only [Message.ofImage, Message.image, List.append_assoc, Message.mk.injEq]
  refine ⟨?_, ?_, ?_⟩
  · rw [List.take_append_of_le_length (by rw [hls]; rfl),
      List.take_of_length_le (by rw [hls]; rfl)]
    exact cstr_padTo hs
  · rw [List.drop_left' hls, List.take_left' (length_le _ _), hid]
    simp
  · rw [← List.append_assoc, List.drop_left' (by simp [hls]),
      List.take_of_length_le (by rw [hlc]; rfl)]
    exact cstr_padTo hc

/-- The first 516 bytes of an image: the name and the tag. -/
theorem ofImage_of_header (name : Bytes) (hname : FitsBuf maxStrSize name) (type : UInt8)
    (mem : Bytes) :
    Entry.ofImage (padTo maxStrSize name ++ [type, 0, 0, 0] ++ mem) =
      ⟨name, EntryData.ofImage type mem⟩ := by
  have hl : (padTo maxStrSize name).length = 512 := length_padTo _ _
  simp only [Entry.ofImage, List.append_assoc, Entry.mk.injEq]
  refine ⟨?_, ?_⟩
  · rw [List.take_append_of_le_length (by rw [hl]; rfl), List.take_of_length_le (by rw [hl]; rfl)]
    exact cstr_padTo hname
  · have htype : (padTo maxStrSize name ++ ([type, 0, 0, 0] ++ mem)).getD 512 0 = type := by
      rw [List.getD_eq_getElem?_getD, List.getElem?_append_right (by rw [hl]), hl]
      rfl
    have hunion : (padTo maxStrSize name ++ ([type, 0, 0, 0] ++ mem)).drop unionOffset = mem := by
      rw [← List.append_assoc]
      exact List.drop_left' (by simp [hl, unionOffset])
    rw [htype, hunion]

/-- **An entry whose strings fit their arrays is read back from its image.** -/
theorem ofImage_image {e : Entry} (h : e.Fits) : Entry.ofImage e.image = e := by
  obtain ⟨name, data⟩ := e
  obtain ⟨hname, hdata⟩ := h
  rw [Entry.image, ofImage_of_header name hname]
  cases data with
  | user u =>
      simp only [EntryData.type, EntryData.ofImage, EntryData.image, if_true, Entry.mk.injEq,
        true_and, EntryData.user.injEq]
      rw [padTo_eq (by simp [unionSize])]
      exact userdata_ofImage_append u _
  | msg m =>
      have hne : entTypePMsg ≠ entTypeUd := by decide
      simp only [EntryData.type, EntryData.ofImage, EntryData.image, if_neg hne, if_true]
      rw [message_ofImage_image hdata.1 hdata.2]
  | other t mem => exact hdata.elim
