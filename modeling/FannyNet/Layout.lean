import FannyNet.RedisBlock

/-!
# What `RedisBlock::recv` lays out

`makeRedisBuffer` packs the type and the values of a reply into a new `m_data`.  Each part of
`recv` waits, goes on, or lays a result out; what it can do to the block is said here once.

Main results:

- Theorem `RedisBlock.makes_of_makeRedisBuffer`: the result in its buffer.
- Theorems `RedisBlock.recvBulk_pass` and `RedisBlock.recvElement_pass`: what a single body and
  one pass through the loop do.
- Theorem `RedisBlock.recvElements_loop`: the loop, from an invariant of its passes.
-/

namespace FannyNet

/-! ## Packed buffers -/

/-- A buffer that holds the bytes `w`. -/
structure NetBuffer.Writes (d : NetBuffer) (w : Bytes) : Prop where
  valid : d.Valid
  lock : d.lock = false
  data : d.data = w

theorem NetBuffer.writes_create (len : Nat) : (NetBuffer.create len).Writes [] :=
  ⟨NetBuffer.valid_create len, rfl, by simp [NetBuffer.create, NetBuffer.data]⟩

theorem NetBuffer.Writes.tailData {d : NetBuffer} {w : Bytes} (h : d.Writes w) (bytes : Bytes) :
    (d.tailData bytes).1.Writes (w ++ bytes) where
  valid := NetBuffer.valid_tailData h.valid h.lock bytes
  lock := by rw [NetBuffer.lock_tailData, h.lock]
  data := by rw [NetBuffer.data_tailData h.valid h.lock, h.data]

/-- A buffer that was made for `cap` bytes and holds the bytes `w`; as long as they fit, it has
not grown. -/
structure NetBuffer.Packs (d : NetBuffer) (cap : Nat) (w : Bytes) : Prop extends d.Writes w where
  readPos : d.readPos = 0
  maxLen : w.length ≤ cap → d.maxLen = cap

theorem NetBuffer.packs_create (cap : Nat) : (NetBuffer.create cap).Packs cap [] where
  toWrites := NetBuffer.writes_create cap
  readPos := rfl
  maxLen _ := rfl

theorem NetBuffer.Packs.tailData {d : NetBuffer} {cap : Nat} {w : Bytes} (h : d.Packs cap w)
    (bytes : Bytes) : (d.tailData bytes).1.Packs cap (w ++ bytes) where
  toWrites := h.toWrites.tailData bytes
  readPos := by rw [NetBuffer.readPos_tailData, h.readPos]
  maxLen hfits := by
    rw [List.length_append] at hfits
    have hmax := h.maxLen (by omega)
    have hlen : d.length = w.length := by
      rw [NetBuffer.length, ← h.valid.length_data, h.data]
    rw [NetBuffer.maxLen_tailData h.lock, hlen, hmax, if_neg (by omega)]

namespace RedisBlock

/-- An `int` in memory. -/
def intBytes (v : Int) : Bytes :=
  podBytes (v % 4294967296).toNat

/-- The element records of a multi-bulk result. -/
def elementBytes (vs : List Bytes) : Bytes :=
  vs.flatMap fun v => intBytes v.length ++ v

theorem packs_tailElements {b : NetBuffer} {cap : Nat} {w : Bytes} (h : b.Packs cap w)
    (vs : List Bytes) : (tailElements b vs).Packs cap (w ++ elementBytes vs) := by
  induction vs generalizing b w with
  | nil =>
      rw [elementBytes, List.flatMap_nil, List.append_nil]
      exact h
  | cons v vs ih =>
      have hrest := ih ((h.tailData (intBytes v.length)).tailData v)
      rw [elementBytes, List.flatMap_cons, ← List.append_assoc, ← List.append_assoc]
      exact hrest

section
variable [LexicalCast]

/-- The bytes of a result: the type, then the values. -/
def layout (type : ReplyT) (recvList : List Bytes) : Bytes :=
  podBytes type.toNat ++
    match type with
    | .noReply => []
    | .intReply =>
        match lexicalCast (recvList.headD []) with
        | .ok v => intBytes v
        | .error _ => []
    | .multiBulkReply => intBytes recvList.length ++ elementBytes recvList
    | _ => recvList.headD []

omit [LexicalCast] in
theorem getFirst_ok {k : RedisBlock} {t : ReplyT} {v : Bytes} (h : k.getFirst t = .ok v) :
    v = k.recvList.headD [] := by
  rcases exists_of_bind h with ⟨u, -, hfirst⟩
  exact (Except.ok.inj hfirst).symm

theorem getIntReply_ok {k : RedisBlock} {v : Int} (h : k.getIntReply = .ok v) :
    lexicalCast (k.recvList.headD []) = .ok v := by
  rcases exists_of_bind h with ⟨u, -, hcast⟩
  exact hcast

omit [LexicalCast] in
/-- A result that is laid out as its first value. -/
theorem eq_of_first {k k' : RedisBlock} {d : NetBuffer} {t : ReplyT}
    (h : (k.getFirst t).bind (fun str => .ok { k with data := some (d.tailData str).1 }) = .ok k') :
    k' = { k with data := some (d.tailData (k.recvList.headD [])).1 } := by
  rcases exists_of_bind h with ⟨v, hfirst, hk'⟩
  rw [← getFirst_ok hfirst]
  exact (Except.ok.inj hk').symm

/-- An integer reply is one that `lexical_cast` reads. -/
def Casts (type : ReplyT) (recvList : List Bytes) : Prop :=
  type = .intReply → ∃ v, lexicalCast (recvList.headD []) = .ok v

/-- The block with its result laid out, in a buffer of `m_recvSize` bytes. -/
def Makes (k k' : RedisBlock) : Prop :=
  ∃ d, k' = { k with recvSize := if k.recvSize = 0 then 1 else k.recvSize, data := some d } ∧
    d.Packs (if k.recvSize = 0 then 1 else k.recvSize) (layout k.type k.recvList) ∧
    Casts k.type k.recvList

/-- The state does not matter to a result that is laid out. -/
theorem Makes.setState {k k' : RedisBlock} (h : Makes k k') (st : BlockState) :
    Makes { k with state := st } { k' with state := st } := by
  rcases h with ⟨d, rfl, hpacks, hcasts⟩
  exact ⟨d, rfl, hpacks, hcasts⟩

/-- What `makeRedisBuffer` writes. -/
theorem makes_of_makeRedisBuffer {k k' : RedisBlock} (h : k.makeRedisBuffer = .ok k') :
    Makes k k' := by
  unfold makeRedisBuffer at h
  unfold Makes
  generalize (if k.recvSize = 0 then 1 else k.recvSize) = size at h ⊢
  have hd := (NetBuffer.packs_create size).tailData (podBytes k.type.toNat)
  rw [List.nil_append] at hd
  have hfirst : ((NetBuffer.create size).tailData (podBytes k.type.toNat)).1.tailData
      (k.recvList.headD []) |>.1.Packs size (podBytes k.type.toNat ++ k.recvList.headD []) :=
    hd.tailData _
  cases htype : k.type with
  | noReply =>
      simp only [htype, Except.ok.injEq] at h hd
      refine ⟨_, h.symm, ?_, fun hint => by cases hint⟩
      simpa [layout] using hd
  | statusCodeReply =>
      simp only [htype] at h hfirst
      exact ⟨_, eq_of_first h, hfirst, fun hint => by cases hint⟩
  | errorReply =>
      simp only [htype] at h hfirst
      exact ⟨_, eq_of_first h, hfirst, fun hint => by cases hint⟩
  | bulkReply =>
      simp only [htype] at h hfirst
      exact ⟨_, eq_of_first h, hfirst, fun hint => by cases hint⟩
  | intReply =>
      simp only [htype] at h hd
      rcases exists_of_bind h with ⟨v, hget, hk'⟩
      have hcast := getIntReply_ok hget
      simp only at hcast
      have hlayout : layout .intReply k.recvList =
          podBytes ReplyT.intReply.toNat ++ intBytes v := by
        simp only [layout, hcast]
      refine ⟨_, (Except.ok.inj hk').symm, ?_, fun _ => ⟨v, hcast⟩⟩
      rw [hlayout]
      exact hd.tailData (intBytes v)
  | multiBulkReply =>
      simp only [htype, Except.ok.injEq] at h hd
      refine ⟨_, h.symm, ?_, fun hint => by cases hint⟩
      have hrest := packs_tailElements (hd.tailData (intBytes k.recvList.length)) k.recvList
      rw [List.append_assoc] at hrest
      exact hrest

/-! ## Outcomes -/

/-- What an outcome says about the block it returns. -/
def OnOk {α : Type} (P : RedisBlock → α → Prop) : Except Exn (RedisBlock × α) → Prop
  | .ok (k, a) => P k a
  | .error _ => True

omit [LexicalCast] in
theorem onOk_bind {α γ : Type} {P : RedisBlock → α → Prop} {x : Except Exn γ}
    {f : γ → Except Exn (RedisBlock × α)} (h : ∀ c, x = .ok c → OnOk P (f c)) :
    OnOk P (x >>= f) := by
  cases x with
  | error e => trivial
  | ok c => exact h c rfl

omit [LexicalCast] in
theorem OnOk.imp {α : Type} {P Q : RedisBlock → α → Prop} {x : Except Exn (RedisBlock × α)}
    (h : OnOk P x) (himp : ∀ k a, P k a → Q k a) : OnOk Q x := by
  cases x with
  | error e => trivial
  | ok y => exact himp y.1 y.2 h

omit [LexicalCast] in
theorem OnOk.of_ok {α : Type} {P : RedisBlock → α → Prop} {x : Except Exn (RedisBlock × α)}
    {k : RedisBlock} {a : α} (h : OnOk P x) (hx : x = .ok (k, a)) : P k a := by
  subst hx
  exact h

/-- A result that is laid out, whatever is set in the block behind it. -/
theorem onOk_make {α : Type} {P : RedisBlock → α → Prop} {k : RedisBlock}
    {f : RedisBlock → RedisBlock} {a : α} (h : ∀ k', Makes k k' → P (f k') a) :
    OnOk P (k.makeRedisBuffer >>= fun k' => .ok (f k', a)) := by
  cases hmake : k.makeRedisBuffer with
  | error e => trivial
  | ok k' => exact h k' (makes_of_makeRedisBuffer hmake)

omit [LexicalCast] in
theorem readLen_eq (k : RedisBlock) (buf : NetBuffer) (len : Nat) :
    ∃ t buf' out, k.readLen buf len = ({ k with temp := t }, buf', out) := by
  unfold readLen
  dsimp only
  split
  · exact ⟨_, _, _, rfl⟩
  · exact ⟨_, _, _, rfl⟩

omit [LexicalCast] in
theorem readline_eq (k : RedisBlock) (buf : NetBuffer) :
    ∃ t buf' out, k.readline buf = ({ k with temp := t }, buf', out) := by
  unfold readline
  dsimp only
  split
  · exact ⟨_, _, _, rfl⟩
  · exact ⟨_, _, _, rfl⟩

omit [LexicalCast] in
theorem readline_state (k : RedisBlock) (st : BlockState) (buf : NetBuffer) :
    readline { k with state := st } buf =
      ({ (k.readline buf).1 with state := st }, (k.readline buf).2) := by
  unfold readline
  dsimp only
  split
  · rfl
  · rfl

/-! ## The parts of `recv` -/

/-- A number that an `int` was converted to. -/
def FromInt (n : Nat) : Prop :=
  ∃ i, INT_MIN ≤ i ∧ i ≤ INT_MAX ∧ n = toSize i

omit [LexicalCast] in
/-- The length of a body without its CRLF. -/
theorem fromInt_bodyLen {n : Int} (hlo : INT_MIN ≤ n) (hhi : n ≤ INT_MAX) :
    FromInt (sizeSub (toSize (toSize n + 2)) 2) := by
  refine ⟨n, hlo, hhi, ?_⟩
  simp only [INT_MIN, INT_MAX, sizeSub, toSize] at *
  omega

/-- A single body is awaited, or it is the value of the reply. -/
inductive BulkPass (k : RedisBlock) : RedisBlock → Bool → Prop where
  | wait (t : Bytes) : BulkPass k { k with temp := t } false
  | last {t v : Bytes} {k' : RedisBlock} (hmakes : Makes { k with
      temp := t, recvSize := k.recvSize + v.length, recvList := k.recvList ++ [v],
      state := .done } k') : BulkPass k k' true

theorem recvBulk_pass (k : RedisBlock) (buf : NetBuffer) :
    OnOk (fun k' x => BulkPass k k' x.2) (k.recvBulk buf) := by
  unfold recvBulk
  rcases k.readLen_eq buf k.bufSize with ⟨t, buf', out, hcall⟩
  rw [hcall]
  cases out with
  | none => exact .wait t
  | some b =>
      apply onOk_bind
      intro body _
      apply onOk_make (f := id)
      intro k' hmakes
      exact .last hmakes

/-- An element is awaited, or it is counted, and may be the last one. -/
inductive ElementPass (k : RedisBlock) : RedisBlock → Option Bool → Prop where
  | wait {t : Bytes} {st : BlockState} {n : Nat} (hst : st = k.state ∨ st = .body) :
      ElementPass k { k with temp := t, state := st, bufSize := n } (some false)
  | more {t v : Bytes} {n size : Nat} (hv : FromInt v.length)
      (hsize : size = k.recvSize + sizeofInt + v.length) :
      ElementPass k { k with
        temp := t, state := .body, bufSize := n, recvSize := size,
        recvList := k.recvList ++ [v] } none
  | last {t v : Bytes} {n size : Nat} {k' : RedisBlock} (hv : FromInt v.length)
      (hsize : size = k.recvSize + sizeofInt + v.length)
      (hall : (k.recvList ++ [v]).length = k.mutSize)
      (hmakes : Makes { k with
        temp := t, state := .done, bufSize := n, recvSize := size,
        recvList := k.recvList ++ [v] } k') :
      ElementPass k k' (some true)

/-- One pass through the loop. -/
theorem recvElement_pass (k : RedisBlock) (buf : NetBuffer) :
    OnOk (fun k' x => ElementPass k k' x.2) (k.recvElement buf) := by
  unfold recvElement
  rcases k.readline_eq buf with ⟨t, buf₁, out, hcall⟩
  rw [hcall]
  cases out with
  | none => exact .wait (Or.inl rfl)
  | some lline =>
      apply onOk_bind
      intro ssub _
      apply onOk_bind
      intro n hcast
      have hrange := (lexicalCast_eq_ok_iff.mp hcast).2
      by_cases hnil : n = -1
      · simp only [if_pos hnil]
        have hmissing : FromInt REDIS_MISSING.length := ⟨19, by decide, by decide, rfl⟩
        have hsize : k.recvSize + REDIS_MISSING.length + sizeofInt =
            k.recvSize + sizeofInt + REDIS_MISSING.length := by omega
        split
        · rename_i hall
          apply onOk_make (f := id)
          intro k' hmakes
          exact .last hmissing hsize hall hmakes
        · exact .more hmissing hsize
      · simp only [if_neg hnil]
        rcases readLen_eq { k with temp := t, state := .body, bufSize := toSize (toSize n + 2) }
          buf₁ (toSize (toSize n + 2)) with ⟨t₂, buf₂, out₂, hcall₂⟩
        simp only [hcall₂]
        cases out₂ with
        | none => exact .wait (Or.inr rfl)
        | some bb =>
            apply onOk_bind
            intro body herase
            have hbody : FromInt body.length := by
              rw [length_erase herase]
              exact fromInt_bodyLen hrange.1 hrange.2
            dsimp only
            split
            · rename_i hall
              apply onOk_make (f := fun k' => { k' with state := .done })
              intro k' hmakes
              exact .last hbody rfl hall (hmakes.setState .done)
            · exact .more hbody rfl

/-- The loop: what every pass keeps, and what the last pass establishes. -/
theorem recvElements_loop {I : RedisBlock → Prop} {J : RedisBlock → Bool → Prop}
    (hwait : ∀ k, I k → J k false)
    (hpass : ∀ k k' out, I k → ElementPass k k' out →
      match out with
      | none => I k'
      | some r => J k' r) (fuel : Nat) {k : RedisBlock} (h : I k) (buf : NetBuffer) :
    OnOk (fun k' x => J k' x.2) (recvElements fuel k buf) := by
  induction fuel generalizing k buf with
  | zero => exact hwait k h
  | succ fuel ih =>
      have helem := k.recvElement_pass buf
      unfold recvElements
      cases hcall : k.recvElement buf with
      | error e => trivial
      | ok x =>
          rcases x with ⟨k', buf', out⟩
          rw [hcall] at helem
          have hnext := hpass k k' out h helem
          rw [ok_bind]
          cases out with
          | some r => exact hnext
          | none => exact ih hnext buf'

end

end RedisBlock

end FannyNet
