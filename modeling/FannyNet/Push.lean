import FannyNet.CloneRedis

/-!
# Pushing to a block

What `push` appends goes to `m_data`, which is there when the constructor was given a size
or a body has begun, and which is locked when the message is complete.  `NetBlock::push`
leaves the result of `tailData` alone and writes the header again in every case.

The constructor of the base class takes the session id for the size of the buffer.

Main results:

- Theorem `NetBlock.push_truthful_iff`: when the result of `push` tells what it did.
- Theorem `CloneClass.Pushes.sessionFree_iff`: what pushes make of a buffer that starts with the
  capacity of its session.
- Theorem `session_free_iff`: when the buffer of a block does not depend on its session.
-/

namespace FannyNet

/-! ## The result of a push -/

namespace NetBlock

/-- The bytes are behind what the buffer held, and make up all that it grew by. -/
def Appends (k : NetBlock) (bytes : Bytes) : Prop :=
  ∃ d d', k.data = some d ∧ (k.push bytes).1.data = some d' ∧
    d'.length = d.length + bytes.length ∧ d'.data.drop d.length = bytes

/-- There is no buffer, or it is locked. -/
def Closed (k : NetBlock) : Prop :=
  ∀ d, k.data = some d → d.lock = true

/-- `push` returns `true` when it has appended the bytes, and only then; when it cannot append, it
returns `false` and leaves the block as it is. -/
def Truthful (k : NetBlock) (bytes : Bytes) : Prop :=
  ((k.push bytes).2 = true ↔ k.Appends bytes) ∧
    (k.Closed → (k.push bytes).2 = false ∧ (k.push bytes).1.head = k.head ∧
      (k.push bytes).1.data = k.data)

/-- The header that is written over the front of `len` bytes.  It keeps the padding that was
received. -/
def newHead (k : NetBlock) (len : Nat) : Head :=
  { k.head with len := UInt32.ofNat len, mask := 0, check := 0 }

/-- There is a buffer that is not locked, and the header that is then written over its first
bytes leaves the pushed ones as they are: the buffer is still shorter than a header, or what is
written behind its old length is what was pushed there. -/
def Pushable (k : NetBlock) (bytes : Bytes) : Prop :=
  ∃ d, k.data = some d ∧ d.lock = false ∧
    (d.length + bytes.length < sizeofHead ∨
      (k.newHead (d.length + bytes.length)).toBytes.drop d.length <+: bytes)

theorem push_result (k : NetBlock) (bytes : Bytes) : (k.push bytes).2 = true := by
  rw [push]
  cases k.data <;> rfl

/-- A push to an open buffer: the bytes behind, then the header in front. -/
theorem data_push {k : NetBlock} {d : NetBuffer} (hd : k.data = some d) (hlock : d.lock = false)
    (bytes : Bytes) :
    (k.push bytes).1.data =
      some ((d.tailData bytes).1.setHead (k.newHead (d.length + bytes.length)).toBytes).1 := by
  simp only [push, hd, encrypt, newHead, NetBuffer.length_tailData hlock]

/-- Bytes of which the first are written over, by a header of `n` bytes in all. -/
theorem drop_head_eq_iff {α : Type} {h a b : List α} {n : Nat} (hh : h.length = n)
    (hn : n ≤ a.length + b.length) :
    (h ++ (a ++ b).drop n).drop a.length = b ↔ h.drop a.length <+: b := by
  rcases le_or_gt n a.length with hle | hlt
  · -- the header ends in front of them
    rw [List.drop_append, List.drop_append_of_le_length hle, hh, List.drop_append, List.drop_drop,
      List.length_drop, List.drop_of_length_le (by omega : h.length ≤ a.length)]
    have hall : (a.drop (n + (a.length - n))) = [] := List.drop_of_length_le (by omega)
    rw [hall]
    simp
  · have hrest : (a ++ b).drop n = b.drop (n - a.length) := by
      rw [List.drop_append, List.drop_of_length_le (by omega), List.nil_append]
    have hlen : (h.drop a.length).length = n - a.length := by rw [List.length_drop, hh]
    rw [hrest, List.drop_append_of_le_length (by omega), ← hlen]
    constructor
    · intro heq
      exact ⟨_, heq⟩
    · rintro ⟨rest, rfl⟩
      rw [List.drop_left' rfl]

theorem appends_iff {k : NetBlock} {d : NetBuffer} (hd : k.data = some d) (hvalid : d.Valid)
    (hlock : d.lock = false) (bytes : Bytes) :
    k.Appends bytes ↔ d.length + bytes.length < sizeofHead ∨
      (k.newHead (d.length + bytes.length)).toBytes.drop d.length <+: bytes := by
  have hpush := data_push hd hlock bytes
  have hlen := NetBuffer.length_tailData hlock bytes
  have hdata := NetBuffer.data_tailData hvalid hlock bytes
  have hvalid' := NetBuffer.valid_tailData hvalid hlock bytes
  have hlock' : (d.tailData bytes).1.lock = false := by rw [NetBuffer.lock_tailData, hlock]
  have hiff : k.Appends bytes ↔
      ((d.tailData bytes).1.setHead (k.newHead (d.length + bytes.length)).toBytes).1.data.drop
        d.data.length = bytes := by
    have hwritten : d.data.length = d.length := hvalid.length_data
    rw [hwritten]
    constructor
    · rintro ⟨d₀, d', hd₀, hd', -, hbytes⟩
      rw [hd, Option.some.injEq] at hd₀
      rw [hpush, Option.some.injEq] at hd'
      rw [hd', hd₀]
      exact hbytes
    · intro hbytes
      refine ⟨d, _, hd, hpush, ?_, hbytes⟩
      rw [NetBuffer.length_setHead, hlen]
  rw [hiff]
  by_cases hshort : d.length + bytes.length < sizeofHead
  · have hkeep : (d.tailData bytes).1.length <
        (k.newHead (d.length + bytes.length)).toBytes.length := by
      rw [hlen, Head.length_toBytes]
      exact hshort
    rw [NetBuffer.setHead_of_lt hkeep, hdata, List.drop_left' rfl]
    exact iff_of_true rfl (Or.inl hshort)
  · have hroom : (k.newHead (d.length + bytes.length)).toBytes.length ≤
        (d.tailData bytes).1.writePos := by
      have hw : (d.tailData bytes).1.writePos = d.length + bytes.length := hlen
      rw [hw, Head.length_toBytes]
      omega
    have hlong : (k.newHead (d.length + bytes.length)).toBytes.length ≤
        d.data.length + bytes.length := by
      rw [hvalid.length_data, Head.length_toBytes]
      simp only [NetBuffer.length] at hshort
      omega
    have hwritten : d.data.length = d.length := hvalid.length_data
    rw [NetBuffer.data_setHead hvalid' hlock' hroom, hdata, drop_head_eq_iff rfl hlong, hwritten]
    constructor
    · exact Or.inr
    · rintro (hlt | hprefix)
      · exact absurd hlt hshort
      · exact hprefix

/-- The result of `push` tells what it did exactly on the blocks that are open, with a header or
the room for it in front of what is pushed. -/
theorem push_truthful_iff {k : NetBlock} (hk : cloneClass.Reachable k) (bytes : Bytes) :
    k.Truthful bytes ↔ k.Pushable bytes := by
  have hresult := push_result k bytes
  constructor
  · rintro ⟨happends, hclosed⟩
    rcases happends.mp hresult with ⟨d, d', hd, hd', hlen, hbehind⟩
    have hopen : d.lock = false := by
      by_contra hlock
      have hclosed' : k.Closed := by
        intro d₀ hd₀
        rw [hd, Option.some.injEq] at hd₀
        rw [← hd₀]
        exact Bool.eq_true_of_not_eq_false hlock
      have hfalse := (hclosed hclosed').1
      rw [hresult] at hfalse
      cases hfalse
    refine ⟨d, hd, hopen, ?_⟩
    rw [← appends_iff hd (sound_of_reachable hk d hd).1 hopen]
    exact ⟨d, d', hd, hd', hlen, hbehind⟩
  · rintro ⟨d, hd, hopen, hhead⟩
    rw [← appends_iff hd (sound_of_reachable hk d hd).1 hopen] at hhead
    constructor
    · exact iff_of_true hresult hhead
    · intro hclosed
      have hlock := hclosed d hd
      rw [hopen] at hlock
      cases hlock

/-- A push to a new block of a size. -/
theorem push_truthful_hi :
    (create 9 2).Truthful (text "hi") ∧ (create 9 2).Pushable (text "hi") := by
  have hopen : (create 9 2).Pushable (text "hi") :=
    ⟨_, rfl, by decide +kernel, Or.inr (by decide +kernel)⟩
  exact ⟨(push_truthful_iff (.make 9 2) (text "hi")).mpr hopen, hopen⟩

/-- A push to a block without a size and a push to a message that has been received return `true`;
nothing is appended, and the header of the message is no longer its own. -/
theorem push_dropped :
    (¬ (create 9 0).Truthful (text "hi") ∧ ((create 9 0).push (text "hi")).2 = true ∧
        ((create 9 0).push (text "hi")).1.data = none) ∧
      ∃ k buf, (create 9 0).recv ((NetBuffer.create 14).writeBytes
          [14, 0, 0, 0, 0, 0, 0, 0, 0, 0, 0, 0, 104, 105]) = (k, buf, true) ∧
        ¬ k.Truthful (text "!") ∧ (k.push (text "!")).2 = true ∧
        (k.push (text "!")).1.data = k.data ∧
        k.head.len = 14 ∧ (k.push (text "!")).1.head.len = 2 := by
  constructor
  · refine ⟨?_, rfl, rfl⟩
    intro h
    have hclosed : (create 9 0).Closed := by
      intro d hd
      cases hd
    exact absurd (h.2 hclosed).1 (by decide)
  · refine ⟨_, _, rfl, ?_, rfl, by decide +kernel, by decide +kernel, by decide +kernel⟩
    intro h
    have hhead := (h.2 fun d hd => by cases hd; rfl).2.1
    exact absurd (congrArg Head.len hhead) (by decide +kernel)

/-- Behind the first four bytes of a body, eight zeros are written over by the header, which has
kept the padding it was received with. -/
example :
    ∃ k buf d, (create 9 0).recv ((NetBuffer.create 16).writeBytes
        [32, 0, 0, 0, 0, 0, 170, 187, 0, 0, 0, 0, 1, 2, 3, 4]) = (k, buf, false) ∧
      (k.push (List.replicate 8 0)).1.data = some d ∧
      d.data = [12, 0, 0, 0, 0, 0, 170, 187, 0, 0, 0, 0] :=
  ⟨_, _, _, rfl, rfl, by decide +kernel⟩

end NetBlock

/-! ## The capacity of a buffer -/

/-- The capacity of a buffer that is to hold `len` bytes. -/
def grown (cap len : Nat) : Nat :=
  if len > cap then len * 2 else cap

/-- The capacity of a buffer of `len` bytes behind a number of pushes. -/
def capacity : Nat → Nat → List Bytes → Nat
  | cap, _, [] => cap
  | cap, len, p :: ps => capacity (grown cap (len + p.length)) (len + p.length) ps

theorem grown_of_le {cap len : Nat} (h : len ≤ cap) : grown cap len = cap :=
  if_neg (by omega)

theorem capacity_concat (cap len : Nat) (ps : List Bytes) (p : Bytes) :
    capacity cap len (ps ++ [p]) =
      grown (capacity cap len ps) (len + ps.flatten.length + p.length) := by
  induction ps generalizing cap len with
  | nil => rfl
  | cons q ps ih =>
      rw [List.cons_append, capacity, ih, capacity, List.flatten_cons, List.length_append]
      congr 1
      omega

/-- Payloads that fit leave the capacity as it is. -/
theorem capacity_of_le {cap len : Nat} {ps : List Bytes} (h : len + ps.flatten.length ≤ cap) :
    capacity cap len ps = cap := by
  induction ps generalizing len with
  | nil => rfl
  | cons p ps ih =>
      rw [List.flatten_cons, List.length_append] at h
      rw [capacity, grown_of_le (by omega), ih (by omega)]

/-! ## Blocks of two sessions -/

namespace CloneClass

variable {β ρ : Type} (C : CloneClass β ρ)

/-- The block that is built for a session with a size, behind a number of pushes. -/
def built (s : SessionId) (size : Nat) (payloads : List Bytes) : Option β :=
  payloads.foldlM C.push (C.make s size)

/-- The bytes, the length and the capacity of `m_data`. -/
def buffer (k : β) : Option (Bytes × Nat × Nat) :=
  (C.base k).data.map fun d => (d.data, d.length, d.maxLength)

/-- At every step the blocks of the two sessions have a buffer, with the same bytes, length and
capacity. -/
def Same (s s' : SessionId) (size : Nat) (payloads : List Bytes) : Prop :=
  ∀ ps, ps <+: payloads → ∃ k k' x, C.built s size ps = some k ∧ C.built s' size ps = some k' ∧
    C.buffer k = some x ∧ C.buffer k' = some x

/-- The new block has the requested capacity, and behind the bytes it starts with; pushes up to
the size leave the capacity as it is. -/
def Roomy (start : Nat) (s : SessionId) (size : Nat) (payloads : List Bytes) : Prop :=
  ∃ d k d', (C.base (C.make s size)).data = some d ∧ size + start ≤ d.maxLength ∧
    C.built s size payloads = some k ∧ (C.base k).data = some d' ∧
    (payloads.flatten.length ≤ size → d'.maxLength = d.maxLength)

/-- The buffer of a block does not depend on its session. -/
structure SessionFree (start : Nat) (s s' : SessionId) (size : Nat) (payloads : List Bytes) :
    Prop where
  same : C.Same s s' size payloads
  left : C.Roomy start s size payloads
  right : C.Roomy start s' size payloads

/-- What construction with some of the sizes and pushes do to the buffer: it starts with `start`
bytes and a capacity that comes from the session, and holds `bytes` of the payloads that were
pushed. -/
structure Pushes (sized : Nat → Prop) (I : β → Prop) (start : Nat) (cap : SessionId → Nat)
    (bytes : List Bytes → Bytes) : Prop where
  make : ∀ s size, sized size → I (C.make s size) ∧ ∃ d, (C.base (C.make s size)).data = some d ∧
    d.Writes (bytes []) ∧ d.length = start ∧ d.maxLen = cap s
  push : ∀ k d ps p, I k → (C.base k).data = some d → d.Writes (bytes ps) →
    ∃ k' d', C.push k p = some k' ∧ I k' ∧ (C.base k').data = some d' ∧
      d'.Writes (bytes (ps ++ [p])) ∧ d'.length = d.length + p.length ∧
      d'.maxLen = grown d.maxLen (d.length + p.length)

variable {C} {sized : Nat → Prop} {I : β → Prop} {start : Nat} {cap : SessionId → Nat}
  {bytes : List Bytes → Bytes}

theorem built_concat (s : SessionId) (size : Nat) (ps : List Bytes) (p : Bytes) :
    C.built s size (ps ++ [p]) = (C.built s size ps).bind fun k => C.push k p := by
  rw [built, List.foldlM_append]
  change (C.built s size ps).bind _ = _
  congr 1
  funext k
  rw [List.foldlM_cons]
  cases C.push k p <;> rfl

/-- What the buffer of a block is after a number of pushes. -/
theorem Pushes.built (h : C.Pushes sized I start cap bytes) (s : SessionId) {size : Nat}
    (hsize : sized size) (ps : List Bytes) :
    ∃ k d, C.built s size ps = some k ∧ I k ∧ (C.base k).data = some d ∧ d.Writes (bytes ps) ∧
      d.length = start + ps.flatten.length ∧ d.maxLen = capacity (cap s) start ps := by
  induction ps using List.reverseRecOn with
  | nil =>
      rcases h.make s size hsize with ⟨hI, d, hd, hwrites, hlen, hmax⟩
      exact ⟨_, d, rfl, hI, hd, hwrites, hlen, hmax⟩
  | append_singleton ps p ih =>
      rcases ih with ⟨k, d, hk, hI, hd, hwrites, hlen, hmax⟩
      rcases h.push k d ps p hI hd hwrites with ⟨k', d', hpush, hI', hd', hwrites', hlen', hmax'⟩
      refine ⟨k', d', ?_, hI', hd', hwrites', ?_, ?_⟩
      · rw [built_concat, hk]
        exact hpush
      · rw [hlen', hlen, List.flatten_append, List.length_append, List.flatten_singleton,
          Nat.add_assoc]
      · rw [hmax', hmax, hlen, capacity_concat]

theorem Pushes.buffer_eq (h : C.Pushes sized I start cap bytes) (s : SessionId) {size : Nat}
    (hsize : sized size) (ps : List Bytes) :
    ∃ k, C.built s size ps = some k ∧
      C.buffer k = some (bytes ps, start + ps.flatten.length, capacity (cap s) start ps) := by
  rcases h.built s hsize ps with ⟨k, d, hk, -, hd, hwrites, hlen, hmax⟩
  refine ⟨k, hk, ?_⟩
  rw [buffer, hd, Option.map_some, hwrites.data, hlen, NetBuffer.maxLength, hmax]

theorem Pushes.roomy (h : C.Pushes sized I start cap bytes) {s : SessionId} {size : Nat}
    (hsize : sized size) (hroom : size + start ≤ cap s) (payloads : List Bytes) :
    C.Roomy start s size payloads := by
  rcases h.built s hsize [] with ⟨k₀, d, hk₀, -, hd, -, -, hmax⟩
  rcases h.built s hsize payloads with ⟨k, d', hk, -, hd', -, -, hmax'⟩
  have hmake : C.make s size = k₀ := Option.some.inj hk₀
  refine ⟨d, k, d', ?_, ?_, hk, hd', ?_⟩
  · rw [hmake, hd]
  · rw [NetBuffer.maxLength, hmax]
    exact hroom
  · intro hfits
    rw [NetBuffer.maxLength, NetBuffer.maxLength, hmax', hmax, capacity_of_le (by omega)]
    rfl

/-- The buffer does not depend on the session exactly when both sessions give the same capacity,
and that is enough. -/
theorem Pushes.sessionFree_iff (h : C.Pushes sized I start cap bytes) (s s' : SessionId)
    {size : Nat} (hsize : sized size) (payloads : List Bytes) :
    C.SessionFree start s s' size payloads ↔ cap s = cap s' ∧ size + start ≤ cap s := by
  constructor
  · intro hfree
    constructor
    · -- the blocks differ as soon as they are built
      rcases hfree.same [] (List.nil_prefix) with ⟨k, k', x, hk, hk', hx, hx'⟩
      rcases h.buffer_eq s hsize [] with ⟨k₁, hk₁, hbuf⟩
      rcases h.buffer_eq s' hsize [] with ⟨k₂, hk₂, hbuf'⟩
      rw [hk, Option.some.injEq] at hk₁
      rw [hk', Option.some.injEq] at hk₂
      rw [← hk₁, hx, Option.some.injEq] at hbuf
      rw [← hk₂, hx', hbuf, Option.some.injEq, Prod.mk.injEq, Prod.mk.injEq] at hbuf'
      exact hbuf'.2.2
    · rcases hfree.left with ⟨d, -, -, hd, hroom, -⟩
      rcases h.make s size hsize with ⟨-, d', hd', -, -, hmax⟩
      rw [hd, Option.some.injEq] at hd'
      rw [← hmax, ← hd']
      exact hroom
  · rintro ⟨hcap, hroom⟩
    refine ⟨?_, h.roomy hsize hroom payloads, h.roomy hsize (hcap ▸ hroom) payloads⟩
    intro ps _
    rcases h.buffer_eq s hsize ps with ⟨k, hk, hbuf⟩
    rcases h.buffer_eq s' hsize ps with ⟨k', hk', hbuf'⟩
    rw [← hcap] at hbuf'
    exact ⟨k, k', _, hk, hk', hbuf, hbuf'⟩

/-- A class whose `push` is `tailData`. -/
theorem pushes_of_tailData
    (hmake : ∀ s size, 0 < size → (C.base (C.make s size)).data = some (NetBuffer.create s))
    (hpush : ∀ k d p, (C.base k).data = some d →
      ∃ k', C.push k p = some k' ∧ (C.base k').data = some (d.tailData p).1) :
    C.Pushes (0 < ·) (fun _ => True) 0 id List.flatten where
  make s size hsize := ⟨trivial, _, hmake s size hsize, NetBuffer.writes_create s, rfl, rfl⟩
  push k d ps p _ hd hwrites := by
    rcases hpush k d p hd with ⟨k', hk', hd'⟩
    refine ⟨k', _, hk', trivial, hd', ?_, NetBuffer.length_tailData hwrites.lock p,
      NetBuffer.maxLen_tailData hwrites.lock p⟩
    rw [List.flatten_append, List.flatten_singleton]
    exact hwrites.tailData p

end CloneClass

section
variable [LexicalCast]

theorem RedisBlock.pushes :
    RedisBlock.cloneClass.Pushes (0 < ·) (fun _ => True) 0 id List.flatten := by
  apply CloneClass.pushes_of_tailData
  · intro s size hsize
    exact if_pos hsize
  · intro k d p hd
    have hdata : k.data = some d := hd
    exact ⟨{ k with data := some (d.tailData p).1 },
      by simp only [RedisBlock.cloneClass, RedisBlock.push, hdata, Option.map_some], rfl⟩

theorem RedisBlock2.pushes :
    RedisBlock2.cloneClass.Pushes (0 < ·) (fun _ => True) 0 id List.flatten := by
  apply CloneClass.pushes_of_tailData
  · intro s size hsize
    exact if_pos hsize
  · intro k d p hd
    have hdata : k.data = some d := hd
    exact ⟨{ k with data := some (d.tailData p).1 },
      by simp only [RedisBlock2.cloneClass, RedisBlock2.push, hdata, Option.map_some], rfl⟩

end

namespace NetBlock

/-- The header that the pushes of the payloads leave. -/
def headOf (payloads : List Bytes) : Head :=
  if payloads = [] then Head.zero else headOfLen (sizeofHead + payloads.flatten.length)

theorem pushes : cloneClass.Pushes Sized (fun k => k.head.padding = 0) sizeofHead
    (fun s => grown s sizeofHead) fun ps => (headOf ps).toBytes ++ ps.flatten where
  make s size hsize := by
    refine ⟨rfl, _, data_create_of_sized s hsize, ?_, ?_, ?_⟩
    · exact (NetBuffer.writes_create s).tailData Head.zero.toBytes
    · exact NetBuffer.length_tailData rfl _
    · rw [NetBuffer.maxLen_tailData rfl, Head.length_toBytes]
      simp only [NetBuffer.create, NetBuffer.length, Nat.zero_add, grown]
  push k d ps p hpadding hd hwrites := by
    have hnew : k.newHead (d.length + p.length) = headOfLen (d.length + p.length) := by
      rw [newHead, hpadding, headOfLen]
    have hdata := data_push hd hwrites.lock p
    rw [hnew] at hdata
    have hlen := NetBuffer.length_tailData hwrites.lock p
    have htail := hwrites.tailData p
    have hlength : d.length = sizeofHead + ps.flatten.length := by
      rw [NetBuffer.length, ← hwrites.valid.length_data, hwrites.data, List.length_append,
        Head.length_toBytes]
    have hroom : (headOfLen (d.length + p.length)).toBytes.length ≤ (d.tailData p).1.writePos := by
      rw [Head.length_toBytes]
      simp only [NetBuffer.length] at hlen hlength
      omega
    refine ⟨(k.push p).1, _, rfl, ?_, hdata, ⟨?_, ?_, ?_⟩, ?_, ?_⟩
    · rw [padding_push, hpadding]
    · exact NetBuffer.valid_setHead htail.valid _
    · rw [NetBuffer.lock_setHead, htail.lock]
    · have hflat : (ps ++ [p]).flatten = ps.flatten ++ p := by
        rw [List.flatten_append, List.flatten_singleton]
      have hhead : headOf (ps ++ [p]) = headOfLen (d.length + p.length) := by
        rw [headOf, if_neg (by simp), hflat, List.length_append, hlength, Nat.add_assoc]
      rw [NetBuffer.data_setHead htail.valid htail.lock hroom, htail.data, Head.length_toBytes,
        List.append_assoc, List.drop_left' (Head.length_toBytes _), hhead, hflat]
    · rw [NetBuffer.length_setHead, hlen]
    · rw [NetBuffer.maxLen_setHead, NetBuffer.maxLen_tailData hwrites.lock]
      rfl

/-- A block without a buffer does not have the requested capacity. -/
theorem not_sessionFree (s s' : SessionId) {size : Nat} (hsize : ¬ Sized size)
    (payloads : List Bytes) : ¬ cloneClass.SessionFree sizeofHead s s' size payloads := by
  intro h
  rcases h.left with ⟨d, -, -, hd, -⟩
  change (create s size).data = some d at hd
  rw [data_create_of_not_sized s hsize] at hd
  cases hd

end NetBlock

/-- Built with a size and given any payloads, the blocks of two sessions do not depend on them
exactly when they have a buffer, both ids give the same capacity and the requested size fits
it. -/
theorem session_free_iff [LexicalCast] (s s' : SessionId) {size : Nat} (hsize : 0 < size)
    (payloads : List Bytes) :
    (NetBlock.cloneClass.SessionFree sizeofHead s s' size payloads ↔
        sizeAdd size sizeofHead ≠ 0 ∧ grown s sizeofHead = grown s' sizeofHead ∧
          size + sizeofHead ≤ grown s sizeofHead) ∧
      (RedisBlock.cloneClass.SessionFree 0 s s' size payloads ↔ s = s' ∧ size ≤ s) ∧
      (RedisBlock2.cloneClass.SessionFree 0 s s' size payloads ↔ s = s' ∧ size ≤ s) := by
  refine ⟨?_, RedisBlock.pushes.sessionFree_iff s s' hsize payloads,
    RedisBlock2.pushes.sessionFree_iff s s' hsize payloads⟩
  by_cases hsum : sizeAdd size sizeofHead = 0
  · apply iff_of_false
    · exact NetBlock.not_sessionFree s s' (fun h : NetBlock.Sized size => h.2 hsum) payloads
    · rintro ⟨hne, -⟩
      exact hne hsum
  · rw [NetBlock.pushes.sessionFree_iff s s' ⟨hsize, hsum⟩ payloads, and_iff_right hsum]

/-- Two small ids, and a size that fits the capacity both give. -/
theorem session_free_small :
    NetBlock.cloneClass.SessionFree sizeofHead 3 9 2 [text "hi"] ∧
      ¬ RedisBlock.cloneClass.SessionFree 0 3 9 2 [text "hi"] ∧
      RedisBlock2.cloneClass.SessionFree 0 9 9 2 [text "hi"] := by
  rcases session_free_iff 3 9 (Nat.succ_pos 1) [text "hi"] with ⟨hnet, hredis, -⟩
  have hsame := session_free_iff 9 9 (Nat.succ_pos 1) [text "hi"]
  refine ⟨?_, ?_, hsame.2.2.mpr ⟨rfl, by decide⟩⟩
  · exact hnet.mpr ⟨by decide, rfl, by decide⟩
  · intro h
    exact absurd (hredis.mp h).1 (by decide)

/-- Built with the size 30 for the sessions 1 and 100, blocks have a capacity of 24 and 100 bytes,
or 1 and 100. -/
theorem capacity_of_session :
    (NetBlock.create 1 30).data.map NetBuffer.maxLength = some 24 ∧
      (NetBlock.create 100 30).data.map NetBuffer.maxLength = some 100 ∧
      (RedisBlock.create 1 30).data.map NetBuffer.maxLength = some 1 ∧
      (RedisBlock.create 100 30).data.map NetBuffer.maxLength = some 100 ∧
      (RedisBlock2.create 1 30).data.map NetBuffer.maxLength = some 1 ∧
      (RedisBlock2.create 100 30).data.map NetBuffer.maxLength = some 100 := by
  decide +kernel

end FannyNet
