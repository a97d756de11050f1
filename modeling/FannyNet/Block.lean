import FannyNet.NetBuffer

/-!
# `NetBlock`, the block of the default protocol

A message is a header of 12 bytes followed by the body; the header holds the
length of both.  The sender writes the header in front of the pushed payloads, the
receiver reads it and then fills a buffer of the body's length.  The encryption
hooks are null in every call and left out.

Main results:

- Theorem `NetBlock.header_truthful_iff`: what a block that is built for sending holds,
  and when its header gives its length.
- Theorem `NetBlock.recvBody_spec`: how a body is filled.
- Theorem `NetBlock.recv_spec`: what one `recv` does, in terms of the bytes received
  since the start of the message.
-/

namespace FannyNet

/-! ## The header -/

/-- `NetBlock::head`.  The compiler aligns the check field, and a header that is copied takes
the two bytes in front of it along. -/
structure Head where
  len : UInt32
  mask : UInt16
  padding : UInt16
  check : UInt32
deriving DecidableEq, Repr

/-- `sizeof(head)`. -/
def sizeofHead : Nat := 12

/-- The bytes of a 16-bit POD in memory. -/
def halfBytes (v : UInt16) : Bytes :=
  [UInt8.ofNat v.toNat, UInt8.ofNat (v.toNat / 256)]

/-- The 16-bit POD in two bytes of memory. -/
def halfValue (lo hi : UInt8) : UInt16 :=
  UInt16.ofNat (lo.toNat + 256 * hi.toNat)

theorem halfValue_halfBytes (v : UInt16) :
    halfValue (UInt8.ofNat v.toNat) (UInt8.ofNat (v.toNat / 256)) = v := by
  have hlt := v.toNat_lt
  have hvalue : (UInt8.ofNat v.toNat).toNat + 256 * (UInt8.ofNat (v.toNat / 256)).toNat =
      v.toNat := by
    rw [UInt8.toNat_ofNat', UInt8.toNat_ofNat']
    omega
  rw [halfValue, hvalue, UInt16.ofNat_toNat]

namespace Head

/-- A header after `memset`. -/
def zero : Head := ⟨0, 0, 0, 0⟩

/-- The header in memory. -/
def toBytes (h : Head) : Bytes :=
  podBytes h.len.toNat ++ (halfBytes h.mask ++ halfBytes h.padding ++ podBytes h.check.toNat)

/-- The header at the start of a memory range. -/
def ofBytes (bs : Bytes) : Head where
  len := UInt32.ofNat (podValue bs)
  mask := halfValue (bs.getD 4 0) (bs.getD 5 0)
  padding := halfValue (bs.getD 6 0) (bs.getD 7 0)
  check := UInt32.ofNat (podValue (bs.drop 8))

@[simp]
theorem length_toBytes (h : Head) : h.toBytes.length = sizeofHead :=
  rfl

theorem len_ofBytes (bs : Bytes) : (ofBytes bs).len.toNat = podValue bs := by
  rw [ofBytes, UInt32.toNat_ofNat', Nat.mod_eq_of_lt (podValue_lt bs)]

/-- Only the bytes of the header matter. -/
theorem ofBytes_take (bs : Bytes) : ofBytes (bs.take sizeofHead) = ofBytes bs := by
  simp [ofBytes, podValue, sizeofHead, List.getD_eq_getElem?_getD, List.getElem?_drop]

theorem ofBytes_append {bs : Bytes} (h : sizeofHead ≤ bs.length) (rest : Bytes) :
    ofBytes (bs ++ rest) = ofBytes bs := by
  rw [← ofBytes_take (bs ++ rest), List.take_append_of_le_length h, ofBytes_take]

/-- A header is read back, whatever follows it. -/
theorem ofBytes_toBytes (h : Head) (rest : Bytes) : ofBytes (h.toBytes ++ rest) = h := by
  rcases h with ⟨len, mask, padding, check⟩
  have hlen : podValue (toBytes ⟨len, mask, padding, check⟩ ++ rest) = len.toNat := by
    rw [toBytes, List.append_assoc, podValue_podBytes len.toNat_lt]
  have hcheck : podValue ((toBytes ⟨len, mask, padding, check⟩ ++ rest).drop 8) = check.toNat :=
    podValue_podBytes check.toNat_lt rest
  have hmask : halfValue ((toBytes ⟨len, mask, padding, check⟩ ++ rest).getD 4 0)
      ((toBytes ⟨len, mask, padding, check⟩ ++ rest).getD 5 0) = mask := halfValue_halfBytes mask
  have hpadding : halfValue ((toBytes ⟨len, mask, padding, check⟩ ++ rest).getD 6 0)
      ((toBytes ⟨len, mask, padding, check⟩ ++ rest).getD 7 0) = padding :=
    halfValue_halfBytes padding
  rw [ofBytes, hlen, hcheck, hmask, hpadding, UInt32.ofNat_toNat, UInt32.ofNat_toNat]

end Head

/-! ## `NetBlock` -/

/-- The class `NetBlock`. -/
structure NetBlock extends NetBlockBase where
  head : Head
deriving DecidableEq, Repr

namespace NetBlock

/-- The constructor `NetBlock(s, size)`. -/
def create (s : SessionId) (size : Nat) : NetBlock where
  toNetBlockBase :=
    let base := NetBlockBase.create s (if size > 0 then sizeAdd size sizeofHead else 0)
    { base with data := base.data.map fun d => (d.tailData Head.zero.toBytes).1 }
  head := Head.zero

/-- Write the header in front of the body again. -/
def encrypt (k : NetBlock) : NetBlock :=
  match k.data with
  | none => k
  | some d =>
      let head : Head := { k.head with len := UInt32.ofNat d.length, mask := 0, check := 0 }
      { k with data := some (d.setHead head.toBytes).1, head := head }

def push (k : NetBlock) (bytes : Bytes) : NetBlock × Bool :=
  match k.data with
  | none => (k, true)
  | some d => ({ k with data := some (d.tailData bytes).1 }.encrypt, true)

def recvBody (k : NetBlock) (buf : NetBuffer) : NetBlock × NetBuffer × Bool :=
  if k.state = .body then
    let len := sizeSub k.head.len.toNat sizeofHead
    let data := k.data.getD (NetBuffer.create len)
    let (buf, data, _) := buf.readBuffer data
    let buf := buf.clearReadBuffer
    if data.isFull then
      ({ k with data := some data.setLock, state := .done }, buf, k.head.check == 0)
    else ({ k with data := some data }, buf, false)
  else (k, buf, false)

def recvHead (k : NetBlock) (buf : NetBuffer) : NetBlock × NetBuffer × Bool :=
  if k.state = .init then
    match buf.readData sizeofHead with
    | (buf, some p) =>
        recvBody { k with head := Head.ofBytes p, state := .body } buf.clearReadBuffer
    | (buf, none) => (k, buf, false)
  else recvBody k buf

def recv (k : NetBlock) (buf : NetBuffer) : NetBlock × NetBuffer × Bool :=
  k.recvHead buf

/-- `NetBlock` as a connection sees it. -/
def blockClass : BlockClass NetBlock where
  make := create
  base := toNetBlockBase
  recv k buf := .ok (k.recv buf)

/-! ## Building a message -/

/-- A block built for sending: the payloads are pushed one after another. -/
def build (s : SessionId) (size : Nat) (payloads : List Bytes) : NetBlock :=
  payloads.foldl (fun k p => (k.push p).1) (create s size)

theorem build_concat (s : SessionId) (size : Nat) (ps : List Bytes) (p : Bytes) :
    build s size (ps ++ [p]) = ((build s size ps).push p).1 := by
  simp [build]

/-- The bytes of `m_data`, which are what is sent. -/
def bytes (k : NetBlock) : Bytes :=
  (k.data.map NetBuffer.data).getD []

/-- The header of a message of `len` bytes. -/
def headOfLen (len : Nat) : Head := ⟨UInt32.ofNat len, 0, 0, 0⟩

/-- The buffer of a block under construction: a header, then the body so far. -/
structure Holding (d : NetBuffer) (h : Head) (w : Bytes) : Prop where
  valid : d.Valid
  lock : d.lock = false
  readPos : d.readPos = 0
  data : d.data = h.toBytes ++ w

/-- The constructor makes a buffer: a size is asked for, and its sum with the header's does not
wrap to zero. -/
def Sized (size : Nat) : Prop :=
  0 < size ∧ sizeAdd size sizeofHead ≠ 0

instance (size : Nat) : Decidable (Sized size) :=
  inferInstanceAs (Decidable (_ ∧ _))

theorem data_create_of_sized (s : SessionId) {size : Nat} (hsize : Sized size) :
    (create s size).data = some ((NetBuffer.create s).tailData Head.zero.toBytes).1 := by
  simp [create, NetBlockBase.create, hsize.1, Nat.pos_of_ne_zero hsize.2]

theorem data_create_of_not_sized (s : SessionId) {size : Nat} (hsize : ¬ Sized size) :
    (create s size).data = none := by
  by_cases hpos : 0 < size
  · have hzero : sizeAdd size sizeofHead = 0 := by
      by_contra hne
      exact hsize ⟨hpos, hne⟩
    simp [create, NetBlockBase.create, hzero]
  · simp [create, NetBlockBase.create, hpos]

theorem exists_holding_create (s : SessionId) {size : Nat} (hsize : Sized size) :
    ∃ d, (create s size).data = some d ∧ Holding d Head.zero [] := by
  have hvalid := NetBuffer.valid_create s
  refine ⟨((NetBuffer.create s).tailData Head.zero.toBytes).1, data_create_of_sized s hsize, ?_⟩
  refine ⟨NetBuffer.valid_tailData hvalid rfl _, ?_, ?_, ?_⟩
  · rw [NetBuffer.lock_tailData]
    rfl
  · rw [NetBuffer.readPos_tailData]
    rfl
  · rw [NetBuffer.data_tailData hvalid rfl, List.append_nil]
    rfl

/-- Without a buffer nothing is pushed. -/
theorem push_of_none {k : NetBlock} (hk : k.data = none) (p : Bytes) : k.push p = (k, true) := by
  rw [push, hk]

/-- Writing the header again leaves its padding as it was. -/
theorem padding_push (k : NetBlock) (p : Bytes) : (k.push p).1.head.padding = k.head.padding := by
  cases hk : k.data with
  | none => rw [push_of_none hk]
  | some d => simp only [push, hk, encrypt]

/-- A push appends to the body and puts the new length into the header. -/
theorem exists_holding_push {k : NetBlock} {d : NetBuffer} {h : Head} {w : Bytes}
    (hk : k.data = some d) (hpadding : k.head.padding = 0) (hd : Holding d h w) (p : Bytes) :
    ∃ d', (k.push p).1.data = some d' ∧
      Holding d' (headOfLen (sizeofHead + (w ++ p).length)) (w ++ p) := by
  have hvalid := NetBuffer.valid_tailData hd.valid hd.lock p
  have hlock : (d.tailData p).1.lock = false := by rw [NetBuffer.lock_tailData, hd.lock]
  have hdata : (d.tailData p).1.data = h.toBytes ++ (w ++ p) := by
    rw [NetBuffer.data_tailData hd.valid hd.lock, hd.data, List.append_assoc]
  have hlen : (d.tailData p).1.length = sizeofHead + (w ++ p).length := by
    rw [NetBuffer.length, ← hvalid.length_data, hdata, List.length_append, Head.length_toBytes]
  have hpush : (k.push p).1.data =
      some ((d.tailData p).1.setHead (headOfLen (sizeofHead + (w ++ p).length)).toBytes).1 := by
    simp only [push, hk, encrypt, hlen, headOfLen, hpadding]
  have hroom : (headOfLen (sizeofHead + (w ++ p).length)).toBytes.length ≤
      (d.tailData p).1.writePos := by
    rw [Head.length_toBytes]
    simp only [NetBuffer.length] at hlen
    omega
  refine ⟨_, hpush, NetBuffer.valid_setHead hvalid _, ?_, ?_, ?_⟩
  · rw [NetBuffer.lock_setHead, hlock]
  · rw [NetBuffer.readPos_setHead, NetBuffer.readPos_tailData, hd.readPos]
  · rw [NetBuffer.data_setHead hvalid hlock hroom, hdata, Head.length_toBytes,
      List.drop_left' (Head.length_toBytes h)]

/-- A block with at least one push holds the header of its length and the payloads. -/
theorem exists_holding_build (s : SessionId) {size : Nat} (hsize : Sized size)
    {payloads : List Bytes} (hne : payloads ≠ []) :
    ∃ d, (build s size payloads).data = some d ∧
      Holding d (headOfLen (sizeofHead + payloads.flatten.length)) payloads.flatten := by
  have hpushed : ∀ ps : List Bytes, ∃ d h, (build s size ps).data = some d ∧
      (build s size ps).head.padding = 0 ∧ Holding d h ps.flatten ∧
      (ps ≠ [] → h = headOfLen (sizeofHead + ps.flatten.length)) := by
    intro ps
    induction ps using List.reverseRecOn with
    | nil =>
        rcases exists_holding_create s hsize with ⟨d, hd, hholds⟩
        exact ⟨d, Head.zero, hd, rfl, hholds, fun h => absurd rfl h⟩
    | append_singleton ps p ih =>
        rcases ih with ⟨d, h, hd, hpadding, hholds, -⟩
        rcases exists_holding_push hd hpadding hholds p with ⟨d', hd', hholds'⟩
        have hflat : (ps ++ [p]).flatten = ps.flatten ++ p := by simp
        refine ⟨d', _, ?_, ?_, ?_, fun _ => rfl⟩
        · rw [build_concat, hd']
        · rw [build_concat, padding_push, hpadding]
        · rw [hflat]
          exact hholds'
  rcases hpushed payloads with ⟨d, h, hd, -, hholds, hhead⟩
  rw [hhead hne] at hholds
  exact ⟨d, hd, hholds⟩

/-- What a block that is built for sending holds. -/
theorem bytes_build (s : SessionId) {size : Nat} (hsize : Sized size) {payloads : List Bytes}
    (hne : payloads ≠ []) :
    (build s size payloads).bytes =
      (headOfLen (sizeofHead + payloads.flatten.length)).toBytes ++ payloads.flatten := by
  rcases exists_holding_build s hsize hne with ⟨d, hd, hholds⟩
  rw [bytes, hd, Option.map_some, Option.getD_some, hholds.data]

/-- The header of a block: the first push writes the length into it. -/
theorem exists_holding (s : SessionId) {size : Nat} (hsize : Sized size) (payloads : List Bytes) :
    ∃ d h, (build s size payloads).data = some d ∧ Holding d h payloads.flatten ∧
      h.len.toNat = if payloads = [] then 0
        else (sizeofHead + payloads.flatten.length) % 4294967296 := by
  by_cases hne : payloads = []
  · subst hne
    rcases exists_holding_create s hsize with ⟨d, hd, hholds⟩
    exact ⟨d, Head.zero, hd, hholds, rfl⟩
  · rcases exists_holding_build s hsize hne with ⟨d, hd, hholds⟩
    refine ⟨d, _, hd, hholds, ?_⟩
    rw [if_neg hne, headOfLen, UInt32.toNat_ofNat']

/-- A block that was made without a buffer never gets one. -/
theorem data_build_of_not_sized (s : SessionId) {size : Nat} (hsize : ¬ Sized size)
    (payloads : List Bytes) : (build s size payloads).data = none := by
  induction payloads using List.reverseRecOn with
  | nil => exact data_create_of_not_sized s hsize
  | append_singleton ps p ih => rw [build_concat, push_of_none ih, ih]

/-- A block with a buffer holds a header that gives its length, and behind it the pushed
payloads, exactly when something was pushed and the length fits its field. -/
theorem header_truthful_of_sized (s : SessionId) {size : Nat} (hsize : Sized size)
    (payloads : List Bytes) :
    (∃ d, (build s size payloads).data = some d ∧
        ∃ h : Head, d.data = h.toBytes ++ payloads.flatten ∧ h.len.toNat = d.length) ↔
      payloads ≠ [] ∧ sizeofHead + payloads.flatten.length < 4294967296 := by
  rcases exists_holding s hsize payloads with ⟨d, h, hd, hholds, hlen⟩
  have hlength : d.length = sizeofHead + payloads.flatten.length := by
    rw [NetBuffer.length, ← hholds.valid.length_data, hholds.data, List.length_append,
      Head.length_toBytes]
  have hiff : h.len.toNat = d.length ↔
      payloads ≠ [] ∧ sizeofHead + payloads.flatten.length < 4294967296 := by
    rw [hlen, hlength]
    by_cases hne : payloads = []
    · rw [if_pos hne]
      constructor
      · intro hzero
        exact absurd hzero (Nat.ne_of_lt (Nat.add_pos_left (by decide) _))
      · rintro ⟨hpushed, -⟩
        exact absurd hne hpushed
    · rw [if_neg hne]
      constructor
      · intro hmod
        exact ⟨hne, hmod ▸ Nat.mod_lt _ (by decide)⟩
      · rintro ⟨-, hlt⟩
        exact Nat.mod_eq_of_lt hlt
  rw [← hiff]
  constructor
  · rintro ⟨d', hd', h', hdata', hlen'⟩
    rw [hd, Option.some.injEq] at hd'
    subst hd'
    -- the header is read back from the data
    have hsame : h' = h := by
      rw [← Head.ofBytes_toBytes h' payloads.flatten, ← hdata', hholds.data, Head.ofBytes_toBytes]
    rw [← hsame]
    exact hlen'
  · intro htruthful
    exact ⟨d, hd, h, hholds.data, htruthful⟩

/-- A block that is asked for with a size holds a header that gives its length, and behind it the
pushed payloads, exactly when it has a buffer at all, something was pushed and the length fits
its field. -/
theorem header_truthful_iff (s : SessionId) {size : Nat} (hsize : 0 < size)
    (payloads : List Bytes) :
    (∃ d, (build s size payloads).data = some d ∧
        ∃ h : Head, d.data = h.toBytes ++ payloads.flatten ∧ h.len.toNat = d.length) ↔
      sizeAdd size sizeofHead ≠ 0 ∧ payloads ≠ [] ∧
        sizeofHead + payloads.flatten.length < 4294967296 := by
  by_cases hsum : sizeAdd size sizeofHead = 0
  · have hnone := data_build_of_not_sized s (fun h : Sized size => h.2 hsum) payloads
    simp [hnone, hsum]
  · rw [header_truthful_of_sized s ⟨hsize, hsum⟩ payloads, and_iff_right hsum]

theorem header_truthful_iff_hi :
    ∃ d, (build 7 1 [[104, 105]]).data = some d ∧
      ∃ h : Head, d.data = h.toBytes ++ [104, 105] ∧ h.len.toNat = d.length :=
  (header_truthful_iff 7 (by decide) [[104, 105]]).mpr ⟨by decide, by decide, by decide⟩

/-- The header of a block that nothing was pushed to gives no length at all. -/
theorem unpushed_header_zero :
    ∃ d, (build 7 1 []).data = some d ∧ d.length = 12 ∧ d.data = Head.zero.toBytes ∧
      Head.zero.len.toNat = 0 :=
  ⟨_, rfl, by decide +kernel, by decide +kernel, rfl⟩

/-- The sum of this size and the header's is `2 ^ 64`: no buffer is made, and a push that answers
`true` keeps nothing. -/
example :
    (create 7 18446744073709551604).data = none ∧
      ((create 7 18446744073709551604).push [104, 105]).2 = true ∧
      ((create 7 18446744073709551604).push [104, 105]).1.data = none := by
  decide +kernel

/-! ## Receiving a message -/

/-- The capacity of the body buffer that a header asks for. -/
def bodyLen (h : Head) : Nat :=
  sizeSub h.len.toNat sizeofHead

/-- The body buffer of a block that is receiving, with the part `w` of the body. -/
structure Filling (d : NetBuffer) (len : Nat) (w : Bytes) : Prop where
  valid : d.Valid
  lock : d.lock = false
  readPos : d.readPos = 0
  maxLen : d.maxLen = len
  data : d.data = w

theorem filling_create (len : Nat) : Filling (NetBuffer.create len) len [] :=
  ⟨NetBuffer.valid_create len, rfl, rfl, rfl, by simp [NetBuffer.data, NetBuffer.create]⟩

/-- A body is filled with what has arrived, up to its length. -/
theorem readBuffer_filling {buf d : NetBuffer} (hbuf : buf.Valid) {len : Nat} {w : Bytes}
    (hd : Filling d len w) :
    ∃ buf' d' r, buf.readBuffer d = (buf', d', r) ∧ buf.Compacted buf'.clearReadBuffer ∧
      buf'.clearReadBuffer.unread = (w ++ buf.unread).drop len ∧
      Filling d' len ((w ++ buf.unread).take len) ∧
      (d'.isFull = true ↔ len ≤ (w ++ buf.unread).length) := by
  rcases NetBuffer.readBuffer_spec hbuf hd.valid hd.lock with
    ⟨buf', d', r, hread, hvalid, hvalid', hunread, hdata, hpos, hmax, hlock, hmaxb, hlockb, hwrite⟩
  have hw : w.length = d.writePos := by rw [← hd.data, hd.valid.length_data]
  have hle : w.length ≤ len := by
    rw [hw, ← hd.maxLen]
    exact hd.valid.writePos_le
  have hmoved : NetBuffer.moved buf d = min buf.unread.length (len - w.length) := by
    rw [NetBuffer.moved, hd.maxLen, hw]
  have hdrop : buf.unread.drop (NetBuffer.moved buf d) = (w ++ buf.unread).drop len := by
    rw [hmoved, List.drop_append, List.drop_of_length_le hle, List.nil_append]
    rcases le_total buf.unread.length (len - w.length) with h | h
    · rw [Nat.min_eq_left h, List.drop_length, List.drop_of_length_le h]
    · rw [Nat.min_eq_right h]
  have htake : w ++ buf.unread.take (NetBuffer.moved buf d) = (w ++ buf.unread).take len := by
    rw [hmoved, List.take_append, List.take_of_length_le hle]
    rcases le_total buf.unread.length (len - w.length) with h | h
    · rw [Nat.min_eq_left h, List.take_length, List.take_of_length_le h]
    · rw [Nat.min_eq_right h]
  rw [hdrop] at hunread
  refine ⟨buf', d', r, hread, ⟨NetBuffer.valid_clearReadBuffer hvalid, rfl, hmaxb, hlockb, ?_⟩, ?_,
    ⟨hvalid', hlock, ?_, ?_, ?_⟩, ?_⟩
  · have hlen := hvalid.length_unread
    have hlenb := hbuf.length_unread
    rw [hunread] at hlen
    rw [NetBuffer.writePos_clearReadBuffer, ← hlen, List.length_drop, List.length_append]
    omega
  · rw [NetBuffer.unread_clearReadBuffer hvalid, hunread]
  · rw [hpos, hd.readPos]
  · rw [hmax, hd.maxLen]
  · rw [hdata, hd.data, htake]
  · rw [NetBuffer.isFull, decide_eq_true_eq, hmax, hd.maxLen, hwrite, hmoved, ← hw,
      List.length_append]
    omega

/-- A block in the body state, whose buffer is there or still to be made. -/
structure Receiving (k : NetBlock) (h : Head) (w : Bytes) : Prop where
  state : k.state = .body
  head : k.head = h
  data : Filling (k.data.getD (NetBuffer.create (bodyLen h))) (bodyLen h) w

/-- A completed block: its buffer has the capacity its header asked for, and is full. -/
structure Received (k : NetBlock) (h : Head) (w : Bytes) : Prop where
  state : k.state = .done
  head : k.head = h
  data : ∃ d, k.data = some d ∧ d.maxLen = bodyLen h ∧ d.data = w ∧ d.readPos = 0 ∧ d.lock = true

theorem recvBody_spec {k : NetBlock} {h : Head} {w : Bytes} (hk : Receiving k h w)
    {buf : NetBuffer} (hbuf : buf.Valid) :
    ∃ k' buf' r, k.recvBody buf = (k', buf', r) ∧ buf.Compacted buf' ∧
      buf'.unread = (w ++ buf.unread).drop (bodyLen h) ∧
      if bodyLen h ≤ (w ++ buf.unread).length then
        Received k' h ((w ++ buf.unread).take (bodyLen h))
      else Receiving k' h (w ++ buf.unread) ∧ k'.data.isSome := by
  rcases readBuffer_filling hbuf hk.data with ⟨buf', d', r, hread, hcomp, hrest, hd', hfull⟩
  have hlen : sizeSub k.head.len.toNat sizeofHead = bodyLen h := by rw [hk.head, bodyLen]
  unfold recvBody
  simp only [if_pos hk.state, hlen, hread]
  by_cases hfit : bodyLen h ≤ (w ++ buf.unread).length
  · rw [if_pos (hfull.mpr hfit)]
    refine ⟨_, _, _, rfl, hcomp, hrest, ?_⟩
    rw [if_pos hfit]
    exact ⟨rfl, hk.head, d'.setLock, rfl, hd'.maxLen, hd'.data, hd'.readPos, rfl⟩
  · rw [if_neg (fun hf => hfit (hfull.mp hf))]
    refine ⟨_, _, _, rfl, hcomp, hrest, ?_⟩
    rw [if_neg hfit]
    rw [List.take_of_length_le (Nat.le_of_not_le hfit)] at hd'
    exact ⟨⟨hk.state, hk.head, hd'⟩, rfl⟩

/-- The length of the message that starts with `x`, as the receiver sees it. -/
def frameLen (x : Bytes) : Nat :=
  sizeofHead + bodyLen (Head.ofBytes x)

/-- A complete message is at the start of `x`. -/
def FrameComplete (x : Bytes) : Prop :=
  sizeofHead ≤ x.length ∧ frameLen x ≤ x.length

instance (x : Bytes) : Decidable (FrameComplete x) :=
  inferInstanceAs (Decidable (_ ∧ _))

/-- A block that waits for more, with the bytes `u` left in the buffer, after the
bytes `v` of its message. -/
inductive Waits (v : Bytes) (k : NetBlock) (u : Bytes) : Prop where
  | head (hlen : v.length < sizeofHead) (hstate : k.state = .init) (hdata : k.data = none)
      (hu : u = v)
  | body (hlen : sizeofHead ≤ v.length) (hopen : v.length < frameLen v)
      (hk : Receiving k (Head.ofBytes v) (v.drop sizeofHead)) (hdata : k.data.isSome) (hu : u = [])

/-- Filling the body, in terms of the whole message. -/
theorem recvBody_frame {x : Bytes} (hlen : sizeofHead ≤ x.length) {k : NetBlock} {w : Bytes}
    (hk : Receiving k (Head.ofBytes x) w) {buf : NetBuffer} (hbuf : buf.Valid)
    (hx : w ++ buf.unread = x.drop sizeofHead) :
    ∃ k' buf' r, k.recvBody buf = (k', buf', r) ∧ buf.Compacted buf' ∧
      if FrameComplete x then
        Received k' (Head.ofBytes x) ((x.drop sizeofHead).take (bodyLen (Head.ofBytes x))) ∧
          buf'.unread = x.drop (frameLen x)
      else Waits x k' buf'.unread := by
  rcases recvBody_spec hk hbuf with ⟨k', buf', r, hrecv, hcomp, hrest, hout⟩
  rw [hx] at hrest hout
  refine ⟨k', buf', r, hrecv, hcomp, ?_⟩
  have hiff : bodyLen (Head.ofBytes x) ≤ (x.drop sizeofHead).length ↔ FrameComplete x := by
    simp only [FrameComplete, frameLen, List.length_drop]
    omega
  by_cases hfit : bodyLen (Head.ofBytes x) ≤ (x.drop sizeofHead).length
  · rw [if_pos hfit] at hout
    rw [if_pos (hiff.mp hfit)]
    refine ⟨hout, ?_⟩
    rw [hrest, List.drop_drop, frameLen]
  · rw [if_neg hfit] at hout
    rw [if_neg (fun h => hfit (hiff.mpr h)), hrest, List.drop_of_length_le (Nat.le_of_not_le hfit)]
    have hopen : x.length < frameLen x := by
      rw [List.length_drop] at hfit
      simp only [frameLen]
      omega
    exact .body hlen hopen hout.1 hout.2 rfl

/-- What one `recv` does with the bytes received since the start of the message. -/
theorem recv_spec {v u c : Bytes} {k : NetBlock} (hk : Waits v k u) {buf : NetBuffer}
    (hbuf : buf.Valid) (hpos : buf.readPos = 0) (hunread : buf.unread = u ++ c) :
    ∃ k' buf' r, k.recv buf = (k', buf', r) ∧ buf.Compacted buf' ∧
      if FrameComplete (v ++ c) then
        Received k' (Head.ofBytes (v ++ c))
            (((v ++ c).drop sizeofHead).take (bodyLen (Head.ofBytes (v ++ c)))) ∧
          buf'.unread = (v ++ c).drop (frameLen (v ++ c))
      else Waits (v ++ c) k' buf'.unread := by
  cases hk with
  | head hlen hstate hdata hu =>
      subst hu
      unfold recv recvHead
      rw [if_pos hstate]
      by_cases hhead : sizeofHead ≤ (u ++ c).length
      · have hneed : sizeofHead ≤ buf.needReadLength := by
          rw [hbuf.needReadLength_eq, hunread]
          exact hhead
        rcases NetBuffer.readData_clearReadBuffer hbuf hneed with ⟨hcomp, hrest, -⟩
        rw [NetBuffer.readData_of_le hneed] at hcomp hrest ⊢
        simp only [hunread, Head.ofBytes_take] at hcomp hrest ⊢
        have hk' : Receiving { k with head := Head.ofBytes (u ++ c), state := .body }
            (Head.ofBytes (u ++ c)) [] := by
          refine ⟨rfl, rfl, ?_⟩
          simp only [hdata, Option.getD_none]
          exact filling_create _
        rcases recvBody_frame hhead hk' hcomp.valid (by simpa using hrest) with
          ⟨k', buf', r, hrecv, hcomp', hout⟩
        exact ⟨k', buf', r, hrecv, hcomp.trans hcomp', hout⟩
      · have hneed : buf.needReadLength < sizeofHead := by
          rw [hbuf.needReadLength_eq, hunread]
          omega
        rw [NetBuffer.readData_of_lt hneed]
        refine ⟨k, buf, false, rfl, ⟨hbuf, hpos, rfl, rfl, le_rfl⟩, ?_⟩
        rw [if_neg (fun h => hhead h.1), hunread]
        exact .head (by omega) hstate hdata rfl
  | body hlen hopen hk hdata hu =>
      subst hu
      have hstate : ¬ k.state = .init := by
        rw [hk.state]
        decide
      have hlen' : sizeofHead ≤ (v ++ c).length := by
        rw [List.length_append]
        omega
      unfold recv recvHead
      rw [if_neg hstate]
      rw [← Head.ofBytes_append hlen c] at hk
      refine recvBody_frame hlen' hk hbuf ?_
      rw [hunread, List.nil_append, List.drop_append_of_le_length hlen]

/-- A new block for receiving waits for a header. -/
theorem waits_create (s : SessionId) : Waits [] (create s 0) [] :=
  .head (by decide) rfl rfl rfl

end NetBlock

end FannyNet
