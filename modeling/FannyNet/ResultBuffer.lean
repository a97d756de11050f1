import FannyNet.Clone
import FannyNet.Layout
import FannyNet.ReadLoop

/-!
# The result buffer of `RedisBlock`

`recv` counts in `m_recvSize` what the result will take, piece by piece, and
`makeRedisBuffer` lays the result out in a buffer of that size.  A reader of the buffer goes
by the type: the rest of the bytes, an `int`, or a count and the elements with their lengths.

Main results:

- Definition `readResult`: the reader.
- Theorem `readResult_layout`: it reads back what was laid out.
- Definition `RedisBlock.Counted`: what an incomplete block has counted so far.
- Theorem `RedisBlock.recv_ends`: a call keeps the count, or lays out an exact result.
- Theorem `RedisBlock.result_exact_iff`: of which reachable blocks the next result is exact.
- Theorem `RedisBlock.every_result_exact`: the results of a connection.
-/

namespace FannyNet

open Library

/-! ## Reading the buffer -/

/-- The `reply_t` of a number. -/
def replyTOfNat : Nat → Option ReplyT
  | 0 => some .noReply
  | 1 => some .statusCodeReply
  | 2 => some .errorReply
  | 3 => some .intReply
  | 4 => some .bulkReply
  | 5 => some .multiBulkReply
  | _ => none

@[simp]
theorem replyTOfNat_toNat (t : ReplyT) : replyTOfNat t.toNat = some t := by
  cases t <;> rfl

/-- What a reader makes of the bytes behind the type. -/
inductive ReplyValue where
  | none
  | text (v : Bytes)
  | int (v : Int)
  | list (vs : List Bytes)
deriving DecidableEq, Repr

/-- `readPod<int>`. -/
def readInt (d : NetBuffer) : Option (NetBuffer × Int) :=
  match d.readPod sizeofInt with
  | (d, some p) => some (d, (podValue p : Int).bmod 4294967296)
  | (_, none) => none

/-- `readData(len)`. -/
def readText (d : NetBuffer) (len : Nat) : Option (NetBuffer × Bytes) :=
  match d.readData len with
  | (d, some p) => some (d, p)
  | (_, none) => none

/-- A number of elements, each behind its length. -/
def readElements : Nat → NetBuffer → Option (NetBuffer × List Bytes)
  | 0, d => some (d, [])
  | n + 1, d => do
      let (d, len) ← readInt d
      let (d, v) ← readText d (toSize len)
      let (d, vs) ← readElements n d
      some (d, v :: vs)

/-- The rest of the bytes, an `int`, or a count and the elements. -/
def readValue (t : ReplyT) (d : NetBuffer) : Option (NetBuffer × ReplyValue) :=
  match t with
  | .noReply => some (d, .none)
  | .intReply => (readInt d).map fun x => (x.1, .int x.2)
  | .multiBulkReply => do
      let (d, count) ← readInt d
      (readElements count.toNat d).map fun x => (x.1, .list x.2)
  | _ => (readText d d.needReadLength).map fun x => (x.1, .text x.2)

/-- The type, then what belongs to it. -/
def readResult (d : NetBuffer) : Option (NetBuffer × ReplyT × ReplyValue) :=
  match d.readPod sizeofInt with
  | (_, none) => none
  | (d, some p) => do
      let t ← replyTOfNat (podValue p)
      (readValue t d).map fun x => (x.1, t, x.2)

/-- Behind the type its value is read. -/
theorem readValue_of_readResult {d d' : NetBuffer} {t : ReplyT} {x : ReplyValue}
    (h : readResult d = some (d', t, x)) : ∃ d₁, readValue t d₁ = some (d', x) := by
  unfold readResult at h
  split at h
  · cases h
  · rename_i d₁ p hread
    cases htype : replyTOfNat (podValue p) with
    | none =>
        rw [htype] at h
        cases h
    | some t' =>
        rw [htype] at h
        rcases Option.map_eq_some_iff.mp h with ⟨⟨d₂, y⟩, hvalue, heq⟩
        cases heq
        exact ⟨d₁, hvalue⟩

/-- Behind the type of an integer reply an `int` is read. -/
theorem exists_int_of_readResult {d d' : NetBuffer} {x : ReplyValue}
    (h : readResult d = some (d', .intReply, x)) : ∃ v, x = .int v := by
  rcases readValue_of_readResult h with ⟨d₁, hvalue⟩
  rcases Option.map_eq_some_iff.mp hvalue with ⟨z, -, hz⟩
  cases hz
  exact ⟨_, rfl⟩

/-- Behind the type of a bulk reply one value is read. -/
theorem exists_text_of_readResult {d d' : NetBuffer} {x : ReplyValue}
    (h : readResult d = some (d', .bulkReply, x)) : ∃ v, x = .text v := by
  rcases readValue_of_readResult h with ⟨d₁, hvalue⟩
  rcases Option.map_eq_some_iff.mp hvalue with ⟨z, -, hz⟩
  cases hz
  exact ⟨_, rfl⟩

namespace NetBuffer

/-- The bytes that are left to be read. -/
structure Leaves (d : NetBuffer) (w : Bytes) : Prop where
  valid : d.Valid
  unread : d.unread = w

/-- The next bytes are read. -/
theorem Leaves.readData {d : NetBuffer} {p w : Bytes} (h : d.Leaves (p ++ w)) :
    ∃ d', d.readData p.length = (d', some p) ∧ d'.Leaves w := by
  have hlen : p.length ≤ d.needReadLength := by
    rw [h.valid.needReadLength_eq, h.unread, List.length_append]
    omega
  have htake : d.unread.take p.length = p := by rw [h.unread, List.take_left' rfl]
  refine ⟨_, by rw [readData_of_le hlen, htake], valid_advance h.valid hlen, ?_⟩
  rw [unread_advance, h.unread, List.drop_left' rfl]

theorem Packs.leaves {d : NetBuffer} {cap : Nat} {w : Bytes} (h : d.Packs cap w) : d.Leaves w where
  valid := h.valid
  unread := by rw [NetBuffer.unread, h.data, h.readPos, List.drop_zero]

theorem Packs.length_eq {d : NetBuffer} {cap : Nat} {w : Bytes} (h : d.Packs cap w) :
    d.length = w.length := by
  rw [NetBuffer.length, ← h.valid.length_data, h.data]

end NetBuffer

theorem readInt_leaves {d : NetBuffer} {v : Int} {w : Bytes}
    (h : d.Leaves (RedisBlock.intBytes v ++ w)) (hlo : INT_MIN ≤ v) (hhi : v ≤ INT_MAX) :
    ∃ d', readInt d = some (d', v) ∧ d'.Leaves w := by
  rcases h.readData with ⟨d', hread, hleaves⟩
  have hpod : d.readPod sizeofInt = (d', some (RedisBlock.intBytes v)) := hread
  have hlt : (v % 4294967296).toNat < 4294967296 := by omega
  have hvalue := podValue_podBytes hlt []
  rw [List.append_nil] at hvalue
  have hback : (((v % 4294967296).toNat : Nat) : Int).bmod 4294967296 = v := by
    simp only [INT_MIN, INT_MAX] at hlo hhi
    simp only [Int.bmod_def]
    omega
  refine ⟨d', ?_, hleaves⟩
  simp only [readInt, hpod, RedisBlock.intBytes, hvalue, hback]

theorem readText_leaves {d : NetBuffer} {v w : Bytes} (h : d.Leaves (v ++ w)) :
    ∃ d', readText d v.length = some (d', v) ∧ d'.Leaves w := by
  rcases h.readData with ⟨d', hread, hleaves⟩
  refine ⟨d', ?_, hleaves⟩
  rw [readText, hread]

/-- All that is left is read. -/
theorem readRest_leaves {d : NetBuffer} {v : Bytes} (h : d.Leaves v) :
    ∃ d', (readText d d.needReadLength).map (fun x => (x.1, ReplyValue.text x.2)) =
      some (d', .text v) ∧ d'.Leaves [] := by
  have hlen : d.needReadLength = v.length := by rw [h.valid.needReadLength_eq, h.unread]
  rw [← List.append_nil v] at h
  rcases readText_leaves h with ⟨d', hread, hleaves⟩
  refine ⟨d', ?_, hleaves⟩
  rw [hlen, hread, Option.map_some]

theorem readElements_leaves {vs : List Bytes} (hlens : ∀ v ∈ vs, (v.length : Int) ≤ INT_MAX)
    {d : NetBuffer} {w : Bytes} (h : d.Leaves (RedisBlock.elementBytes vs ++ w)) :
    ∃ d', readElements vs.length d = some (d', vs) ∧ d'.Leaves w := by
  induction vs generalizing d with
  | nil => exact ⟨d, rfl, h⟩
  | cons v vs ih =>
      have hv : (v.length : Int) ≤ INT_MAX := hlens v List.mem_cons_self
      rw [RedisBlock.elementBytes, List.flatMap_cons, List.append_assoc, List.append_assoc] at h
      rcases readInt_leaves h (by simp only [INT_MIN]; omega) hv with ⟨d₁, hint, h₁⟩
      rcases readText_leaves h₁ with ⟨d₂, htext, h₂⟩
      rcases ih (fun v' hv' => hlens v' (List.mem_cons_of_mem v hv')) h₂ with ⟨d₃, hrest, h₃⟩
      refine ⟨d₃, ?_, h₃⟩
      have hsize : toSize (v.length : Int) = v.length := by
        rw [toSize_of_nonneg (Int.natCast_nonneg _) (by simp only [INT_MAX] at hv; omega),
          Int.toNat_natCast]
      simp only [List.length_cons, readElements, hint, hsize, htext, hrest, Option.bind_eq_bind,
        Option.bind_some]

namespace ReplyValue

variable [LexicalCast]

/-- What was read stands for the values of a reply. -/
def Shows (recvList : List Bytes) : ReplyValue → Prop
  | .none => recvList = []
  | .text v => recvList = [v]
  | .int v => ∃ t, recvList = [t] ∧ lexicalCast t = .ok v
  | .list vs => recvList = vs

end ReplyValue

namespace RedisBlock

/-- The values that a type comes with; what a multi-bulk reply counts fits an `int`. -/
def Fits : ReplyT → List Bytes → Prop
  | .noReply, recvList => recvList = []
  | .multiBulkReply, recvList =>
      (recvList.length : Int) ≤ INT_MAX ∧ ∀ v ∈ recvList, (v.length : Int) ≤ INT_MAX
  | _, recvList => ∃ v, recvList = [v]

/-- The number of bytes a result takes. -/
def resultSize (type : ReplyT) (recvList : List Bytes) : Nat :=
  match type with
  | .noReply => sizeofInt
  | .intReply => sizeofInt + sizeofInt
  | .multiBulkReply => sizeofInt + sizeofInt + (elementBytes recvList).length
  | _ => sizeofInt + (recvList.headD []).length

section
variable [LexicalCast]

theorem length_layout {type : ReplyT} {recvList : List Bytes} (hcasts : Casts type recvList) :
    (layout type recvList).length = resultSize type recvList := by
  cases type with
  | noReply => rfl
  | statusCodeReply => exact List.length_append
  | errorReply => exact List.length_append
  | bulkReply => exact List.length_append
  | intReply =>
      rcases hcasts rfl with ⟨v, hcast⟩
      simp only [layout, hcast]
      rfl
  | multiBulkReply =>
      simp only [layout, List.length_append, resultSize]
      rw [← Nat.add_assoc]
      rfl

/-- A result is read back, to its last byte. -/
theorem readResult_layout {type : ReplyT} {recvList : List Bytes} (hfits : Fits type recvList)
    (hcasts : Casts type recvList) {d : NetBuffer} (h : d.Leaves (layout type recvList)) :
    ∃ d' x, readResult d = some (d', type, x) ∧ x.Shows recvList ∧ d'.Leaves [] := by
  rcases h.readData with ⟨d₁, hread, h₁⟩
  have hlt : type.toNat < 4294967296 := by cases type <;> decide
  have hpod := podValue_podBytes hlt []
  rw [List.append_nil] at hpod
  have hread' : d.readPod sizeofInt = (d₁, some (podBytes type.toNat)) := hread
  -- the values behind the type
  have hbehind : ∀ {d' : NetBuffer} {x : ReplyValue}, readValue type d₁ = some (d', x) →
      readResult d = some (d', type, x) := by
    intro d' x hvalue
    simp only [readResult, hread', hpod, replyTOfNat_toNat, hvalue, Option.bind_eq_bind,
      Option.bind_some, Option.map_some]
  cases type with
  | noReply => exact ⟨d₁, .none, hbehind rfl, hfits, h₁⟩
  | statusCodeReply =>
      rcases hfits with ⟨v, rfl⟩
      rcases readRest_leaves h₁ with ⟨d₂, hrest, h₂⟩
      exact ⟨d₂, .text v, hbehind hrest, rfl, h₂⟩
  | errorReply =>
      rcases hfits with ⟨v, rfl⟩
      rcases readRest_leaves h₁ with ⟨d₂, hrest, h₂⟩
      exact ⟨d₂, .text v, hbehind hrest, rfl, h₂⟩
  | bulkReply =>
      rcases hfits with ⟨v, rfl⟩
      rcases readRest_leaves h₁ with ⟨d₂, hrest, h₂⟩
      exact ⟨d₂, .text v, hbehind hrest, rfl, h₂⟩
  | intReply =>
      rcases hfits with ⟨t, rfl⟩
      rcases hcasts rfl with ⟨v, hcast⟩
      have hrange := (lexicalCast_eq_ok_iff.mp hcast).2
      simp only [hcast] at h₁
      rw [← List.append_nil (intBytes v)] at h₁
      rcases readInt_leaves h₁ hrange.1 hrange.2 with ⟨d₂, hint, h₂⟩
      refine ⟨d₂, .int v, hbehind ?_, ⟨t, rfl, hcast⟩, h₂⟩
      rw [readValue, hint, Option.map_some]
  | multiBulkReply =>
      rcases readInt_leaves h₁ (by simp only [INT_MIN]; omega) hfits.1 with ⟨d₂, hcount, h₂⟩
      rw [← List.append_nil (elementBytes recvList)] at h₂
      rcases readElements_leaves hfits.2 h₂ with ⟨d₃, helements, h₃⟩
      refine ⟨d₃, .list recvList, hbehind ?_, rfl, h₃⟩
      simp only [readValue, hcount, Option.bind_eq_bind, Option.bind_some, Int.toNat_natCast,
        helements, Option.map_some]

/-! ## What `recv` counts -/

/-- The result is as long as was counted, fills its buffer, and is read back to the last
byte. -/
def Exact (k : RedisBlock) : Prop :=
  ∃ d d' x, k.data = some d ∧ d.length = k.recvSize ∧ d.maxLength = k.recvSize ∧
    readResult d = some (d', k.type, x) ∧ x.Shows k.recvList ∧ d'.hasRead = false

omit [LexicalCast] in
theorem FromInt.le {n : Nat} (h : FromInt n) (hn : n ≤ PTRDIFF_MAX) : (n : Int) ≤ INT_MAX := by
  rcases h with ⟨i, hlo, hhi, rfl⟩
  simp only [INT_MIN, INT_MAX, PTRDIFF_MAX, toSize] at *
  omega

/-- The elements of an array have been counted so far. -/
structure CountsElements (k : RedisBlock) : Prop where
  type : k.type = .multiBulkReply
  recvSize : k.recvSize = resultSize .multiBulkReply k.recvList
  mutSize : FromInt k.mutSize
  lengths : ∀ v ∈ k.recvList, FromInt v.length

/-- What an incomplete block has counted so far. -/
inductive Counted (k : RedisBlock) : Prop where
  | line (hdone : k.bodyDone = false) (htype : k.type = .noReply) (hlist : k.recvList = [])
  | body (hdone : k.bodyDone = false) (htype : k.type = .bulkReply) (hlist : k.recvList = [])
      (hsize : k.recvSize = sizeofInt)
  | elements (hdone : k.bodyDone = false) (h : k.CountsElements)

omit [LexicalCast] in
theorem elementBytes_append (vs : List Bytes) (v : Bytes) :
    (elementBytes (vs ++ [v])).length = (elementBytes vs).length + sizeofInt + v.length := by
  simp only [elementBytes, List.flatMap_append, List.flatMap_cons, List.flatMap_nil,
    List.append_nil, List.length_append]
  rw [Nat.add_assoc]
  rfl

omit [LexicalCast] in
/-- Each element takes its length and its bytes. -/
theorem le_elementBytes (vs : List Bytes) :
    vs.length ≤ (elementBytes vs).length ∧ ∀ v ∈ vs, v.length ≤ (elementBytes vs).length := by
  induction vs with
  | nil => simp
  | cons v vs ih =>
      have hlen : (elementBytes (v :: vs)).length =
          4 + v.length + (elementBytes vs).length := by
        simp only [elementBytes, List.flatMap_cons, List.length_append]
        rfl
      rw [hlen]
      constructor
      · rw [List.length_cons]
        omega
      · intro w hw
        rcases List.mem_cons.mp hw with rfl | hmem
        · omega
        · have := ih.2 w hmem
          omega

omit [LexicalCast] in
/-- What has been counted fits an `int` when the result exists in memory. -/
theorem fits_elements {vs : List Bytes} (hcount : FromInt vs.length)
    (hlens : ∀ v ∈ vs, FromInt v.length)
    (hmem : resultSize .multiBulkReply vs ≤ PTRDIFF_MAX) : Fits .multiBulkReply vs := by
  have hle : (elementBytes vs).length ≤ PTRDIFF_MAX := by
    rw [resultSize] at hmem
    exact (Nat.le_add_left _ _).trans hmem
  rcases le_elementBytes vs with ⟨hcountLe, hlensLe⟩
  constructor
  · exact hcount.le (hcountLe.trans hle)
  · intro v hv
    exact (hlens v hv).le ((hlensLe v hv).trans hle)

omit [LexicalCast] in
theorem Counted.bodyDone_eq {k : RedisBlock} (h : k.Counted) : k.bodyDone = false := by
  cases h with
  | line hdone => exact hdone
  | body hdone => exact hdone
  | elements hdone => exact hdone

/-- What a block has received when its reply is there; the elements of an array may go on
behind it. -/
inductive Replied (k : RedisBlock) : Prop where
  | line (hbulk : k.type ≠ .bulkReply) (hmulti : k.type ≠ .multiBulkReply)
      (hlist : k.type = .noReply → k.recvList = [])
  | body (htype : k.type = .bulkReply) (hdone : k.bodyDone = true) (hlist : k.recvList ≠ [])
  | elements (htype : k.type = .multiBulkReply) (hall : k.mutSize ≤ k.recvList.length)

omit [LexicalCast] in
/-- The result is laid out beside what has been received. -/
theorem Replied.lays {k : RedisBlock} (h : k.Replied) {size : Nat} {d : Option NetBuffer} :
    Replied { k with recvSize := size, data := d } := by
  cases h with
  | line hbulk hmulti hlist => exact .line hbulk hmulti hlist
  | body htype hdone hlist => exact .body htype hdone hlist
  | elements htype hall => exact .elements htype hall

/-- A block that is complete, with a result that is exact if it exists in memory. -/
structure Result (k : RedisBlock) : Prop where
  done : k.bodyDone = true
  replied : k.Replied
  recvSize : k.recvSize = resultSize k.type k.recvList
  exact : k.recvSize ≤ PTRDIFF_MAX → k.Exact

/-- A call that does not return `true` keeps the count; one that does leaves a result. -/
def Ends (k : RedisBlock) (r : Bool) : Prop :=
  if r then k.Result else k.Counted

/-- A result of the size that was counted. -/
theorem Makes.result {k k' : RedisBlock} (h : Makes k k') (hdone : k.bodyDone = true)
    (hreplied : k.Replied) (hsize : k.recvSize = resultSize k.type k.recvList)
    (hfits : k.recvSize ≤ PTRDIFF_MAX → Fits k.type k.recvList) : k'.Result := by
  have hpos : k.recvSize ≠ 0 := by
    rw [hsize]
    cases k.type <;> simp [resultSize, sizeofInt]
  rcases h with ⟨d, hk', hpacks, hcasts⟩
  rw [if_neg hpos] at hk' hpacks
  subst hk'
  refine ⟨hdone, hreplied.lays, hsize, fun hmem => ?_⟩
  have hlen : (layout k.type k.recvList).length = k.recvSize := by
    rw [length_layout hcasts, hsize]
  rcases readResult_layout (hfits hmem) hcasts hpacks.leaves with ⟨d', x, hread, hshows, hrest⟩
  refine ⟨d, d', x, rfl, ?_, ?_, hread, hshows, ?_⟩
  · rw [hpacks.length_eq, hlen]
  · exact hpacks.maxLen hlen.le
  · rw [NetBuffer.hasRead, hrest.valid.needReadLength_eq, hrest.unread]
    rfl

theorem recvBulk_ends {k : RedisBlock} (hdone : k.bodyDone = false) (htype : k.type = .bulkReply)
    (hlist : k.recvList = []) (hsize : k.recvSize = sizeofInt) (buf : NetBuffer) :
    OnOk (fun k' x => Ends k' x.2) (k.recvBulk buf) := by
  apply (k.recvBulk_pass buf).imp
  rintro k' ⟨buf', r⟩ hpass
  change BulkPass k k' r at hpass
  cases hpass with
  | wait t => exact Counted.body hdone htype hlist hsize
  | @last t v k' hmakes =>
      apply hmakes.result rfl
      · exact .body htype rfl (List.append_ne_nil_of_right_ne_nil _ (List.cons_ne_nil v []))
      · simp only [htype, hlist, hsize]
        rfl
      · intro _
        simp only [htype, hlist]
        exact ⟨v, rfl⟩

omit [LexicalCast] in
theorem CountsElements.fits {k : RedisBlock} (h : k.CountsElements)
    (hall : k.recvList.length = k.mutSize) (hmem : k.recvSize ≤ PTRDIFF_MAX) :
    Fits k.type k.recvList := by
  rw [h.type]
  have hcount := h.mutSize
  rw [← hall] at hcount
  rw [h.recvSize] at hmem
  exact fits_elements hcount h.lengths hmem

omit [LexicalCast] in
/-- One more element is counted. -/
theorem CountsElements.append {k k' : RedisBlock} (h : k.CountsElements) {v : Bytes}
    (hv : FromInt v.length) (htype : k'.type = k.type) (hlist : k'.recvList = k.recvList ++ [v])
    (hmut : k'.mutSize = k.mutSize) (hsize : k'.recvSize = k.recvSize + sizeofInt + v.length) :
    k'.CountsElements where
  type := by rw [htype, h.type]
  recvSize := by
    rw [hsize, h.recvSize, hlist, resultSize, resultSize, elementBytes_append]
    omega
  mutSize := by rw [hmut]; exact h.mutSize
  lengths := by
    rw [hlist]
    intro w hw
    rcases List.mem_append.mp hw with hmem | hmem
    · exact h.lengths w hmem
    · rw [List.mem_singleton.mp hmem]
      exact hv

/-- A pass through the loop counts an element, waits for it, or completes the array. -/
theorem recvElements_ends (fuel : Nat) {k : RedisBlock} (hdone : k.bodyDone = false)
    (h : k.CountsElements) (buf : NetBuffer) :
    OnOk (fun k' x => k'.Ends x.2) (recvElements fuel k buf) := by
  apply recvElements_loop (I := fun k => k.bodyDone = false ∧ k.CountsElements) (J := Ends)
  · intro k₁ hk₁
    exact Counted.elements hk₁.1 hk₁.2
  · intro k₁ k₂ out hk₁ hpass
    rcases hk₁ with ⟨hopen, hcounts⟩
    cases hpass with
    | @wait t st n hst =>
        have hopen' : ({ k₁ with temp := t, state := st, bufSize := n } : RedisBlock).bodyDone =
            false := by
          rcases hst with rfl | rfl
          · exact hopen
          · rfl
        exact Counted.elements hopen'
          ⟨hcounts.type, hcounts.recvSize, hcounts.mutSize, hcounts.lengths⟩
    | more hv hsize => exact ⟨rfl, hcounts.append hv rfl rfl rfl hsize⟩
    | @last t v n size k₂ hv hsize hall hmakes =>
        have hlast : CountsElements { k₁ with
            temp := t, state := .done, bufSize := n, recvSize := size,
            recvList := k₁.recvList ++ [v] } := hcounts.append hv rfl rfl rfl hsize
        apply hmakes.result rfl
        · exact .elements hlast.type hall.ge
        · rw [hlast.type]
          exact hlast.recvSize
        · exact hlast.fits hall
  · exact ⟨hdone, h⟩

theorem recvBody_ends {k : RedisBlock} (h : k.Counted) (htype : k.type ≠ .noReply)
    (buf : NetBuffer) : OnOk (fun k' x => k'.Ends x.2) (k.recvBody buf) := by
  unfold recvBody
  cases h with
  | line hdone hline hlist => exact absurd hline htype
  | body hdone hbody hlist hsize =>
      rw [if_pos hbody]
      exact recvBulk_ends hdone hbody hlist hsize buf
  | elements hdone helements =>
      rw [if_neg (by simp [helements.type]), if_pos helements.type]
      exact recvElements_ends _ hdone helements buf

theorem recvType_ends {k : RedisBlock} (hlist : k.recvList = []) (buf : NetBuffer) (str : Bytes) :
    OnOk (fun k' x => k'.Ends x.2) (k.recvType buf str) := by
  -- a reply that is complete with its line
  have hmake : ∀ k₁ : RedisBlock, k₁.state = .done → k₁.Replied →
      k₁.recvSize = resultSize k₁.type k₁.recvList → Fits k₁.type k₁.recvList →
      OnOk (fun k' (x : NetBuffer × Bool) => k'.Ends x.2)
        (k₁.makeRedisBuffer >>= fun k' => .ok (k', buf, true)) := by
    intro k₁ hstate hreplied hsize hfits
    apply onOk_make (f := id)
    intro k' hmakes
    apply hmakes.result _ hreplied hsize fun _ => hfits
    rw [NetBlockBase.bodyDone, hstate]
    rfl
  have hone : ∀ v : Bytes, k.recvList ++ [v] = [v] := by
    intro v
    rw [hlist, List.nil_append]
  unfold recvType
  cases getReplyType str with
  | noReply =>
      exact hmake _ rfl (.line ReplyT.noConfusion ReplyT.noConfusion fun _ => hlist) rfl hlist
  | statusCodeReply =>
      refine onOk_bind fun v _ => hmake _ rfl ?_ rfl ⟨v, hone v⟩
      exact .line ReplyT.noConfusion ReplyT.noConfusion ReplyT.noConfusion
  | errorReply =>
      refine onOk_bind fun v _ => hmake _ rfl ?_ rfl ⟨v, hone v⟩
      exact .line ReplyT.noConfusion ReplyT.noConfusion ReplyT.noConfusion
  | intReply =>
      refine onOk_bind fun v _ => hmake _ rfl ?_ rfl ⟨v, hone v⟩
      exact .line ReplyT.noConfusion ReplyT.noConfusion ReplyT.noConfusion
  | bulkReply =>
      refine onOk_bind fun v _ => onOk_bind fun n _ => ?_
      split
      · refine hmake _ rfl ?_ ?_ ⟨REDIS_MISSING, hone REDIS_MISSING⟩
        · exact .body rfl rfl (List.append_ne_nil_of_right_ne_nil _ (List.cons_ne_nil _ []))
        · simp only [hone]
          rfl
      · apply recvBody_ends
        · exact .body rfl rfl hlist rfl
        · exact ReplyT.noConfusion
  | multiBulkReply =>
      refine onOk_bind fun v _ => onOk_bind fun n hcast => ?_
      have hrange := (lexicalCast_eq_ok_iff.mp hcast).2
      have hempty : sizeofInt + sizeofInt = resultSize .multiBulkReply k.recvList := by
        rw [hlist]
        rfl
      split
      · refine hmake _ rfl (.elements rfl (Nat.zero_le _)) hempty ?_
        simp only [hlist]
        exact ⟨by decide, fun v hv => absurd hv List.not_mem_nil⟩
      · apply recvBody_ends
        · refine .elements rfl ⟨rfl, hempty, ⟨n, hrange.1, hrange.2, rfl⟩, ?_⟩
          simp only [hlist]
          exact fun v hv => absurd hv List.not_mem_nil
        · exact ReplyT.noConfusion

/-- A call keeps the count, or completes the block with an exact result. -/
theorem recv_ends {k : RedisBlock} (h : k.Counted) (buf : NetBuffer) :
    OnOk (fun k' x => k'.Ends x.2) (k.recv buf) := by
  unfold recv
  split
  · rename_i htype
    rcases k.readline_eq buf with ⟨t, buf', out, hcall⟩
    rw [hcall]
    cases h with
    | line hdone hline hlist =>
        cases out with
        | none => exact Counted.line hdone hline hlist
        | some str => exact recvType_ends (k := { k with temp := t }) hlist buf' str
    | body hdone hbody hlist hsize =>
        rw [htype] at hbody
        cases hbody
    | elements hdone helements =>
        have hmulti := helements.type
        rw [htype] at hmulti
        cases hmulti
  · rename_i htype
    exact recvBody_ends h htype buf

theorem keeps_counted : blockClass.Keeps Counted Result where
  make s := .line rfl rfl rfl
  recv := by
    intro k buf k' buf' r hcounted hrecv
    have hends : k'.Ends r := (recv_ends hcounted buf).of_ok hrecv
    cases r with
    | true =>
        have hdone : blockClass.bodyDone k' = true := hends.done
        rw [if_pos hdone]
        exact hends
    | false =>
        have hopen : ¬ blockClass.bodyDone k' = true := by
          change ¬ k'.bodyDone = true
          rw [Counted.bodyDone_eq hends]
          exact Bool.false_ne_true
        rw [if_neg hopen]
        exact hends

/-- Every result that a connection is handed, and that exists in memory, is exact. -/
theorem every_result_exact (cs : List Bytes) (s : SessionId) (size : Nat) :
    Connection.EveryRecv blockClass
      (fun k buf => ∀ k' buf', k.recv buf = .ok (k', buf', true) → k'.recvSize ≤ PTRDIFF_MAX →
        k'.Exact) (Connection.accepted s size, []) cs := by
  apply keeps_counted.everyRecv
  · intro k buf hcounted k' buf' hrecv
    have hresult : k'.Result := (recv_ends hcounted buf).of_ok hrecv
    exact hresult.exact
  · exact Connection.waiting_accepted s size
  · exact List.forall_mem_nil Result

/-! ## Blocks that are given more -/

/-- A single body is there, and `recv` takes what comes next for another one. -/
def BulkDone (k : RedisBlock) : Prop :=
  k.type = .bulkReply ∧ k.bodyDone = true

instance (k : RedisBlock) : Decidable k.BulkDone :=
  inferInstanceAs (Decidable (_ ∧ _))

/-- Between two calls a block counts what its result will take, or has received its reply. -/
def Between (k : RedisBlock) : Prop :=
  k.Counted ∨ k.Replied

omit [LexicalCast] in
/-- What a caller pushes goes to `m_data` only. -/
theorem Between.push {k : RedisBlock} (h : k.Between) (d : Option NetBuffer) :
    Between { k with data := d } := by
  rcases h with hcounted | hreplied
  · left
    cases hcounted with
    | line hdone htype hlist => exact .line hdone htype hlist
    | body hdone htype hlist hsize => exact .body hdone htype hlist hsize
    | elements hdone h => exact .elements hdone ⟨h.type, h.recvSize, h.mutSize, h.lengths⟩
  · exact Or.inr hreplied.lays

/-- What a call comes to: the block is between two calls again, and a result it has laid out is
exact if and only if `exact` holds. -/
def Comes (exact : Prop) (k : RedisBlock) (r : Bool) : Prop :=
  k.Between ∧ (r = true → k.recvSize ≤ PTRDIFF_MAX → (k.Exact ↔ exact))

theorem Ends.comes {k : RedisBlock} {r : Bool} (h : k.Ends r) {exact : Prop} (hexact : exact) :
    Comes exact k r := by
  cases r with
  | false => exact ⟨Or.inl h, Bool.noConfusion⟩
  | true =>
      have hresult : k.Result := h
      exact ⟨Or.inr hresult.replied, fun _ hmem => iff_of_true (hresult.exact hmem) hexact⟩

/-- A second body goes behind the first in `m_recvList`, and the reader has one value only. -/
theorem Makes.not_exact {k k' : RedisBlock} (h : Makes k k') (htype : k.type = .bulkReply)
    (hlist : 1 < k.recvList.length) : ¬ k'.Exact := by
  rcases h with ⟨d, rfl, -, -⟩
  rintro ⟨d₁, d₂, x, -, -, -, hread, hshows, -⟩
  have hread' : readResult d₁ = some (d₂, .bulkReply, x) := by
    rw [← htype]
    exact hread
  rcases exists_text_of_readResult hread' with ⟨v, rfl⟩
  have hone : k.recvList = [v] := hshows
  rw [hone, List.length_singleton] at hlist
  omega

/-- A block with a single body takes another one behind it. -/
theorem recvBulk_comes {k : RedisBlock} (htype : k.type = .bulkReply) (hdone : k.bodyDone = true)
    (hlist : k.recvList ≠ []) (buf : NetBuffer) :
    OnOk (fun k' x => Comes False k' x.2) (k.recvBulk buf) := by
  apply (k.recvBulk_pass buf).imp
  rintro k' ⟨buf', r⟩ hpass
  change BulkPass k k' r at hpass
  cases hpass with
  | wait t => exact ⟨Or.inr (.body htype hdone hlist), Bool.noConfusion⟩
  | @last t v k' hmakes =>
      have hne : k.recvList ++ [v] ≠ [] := by simp
      have hlen : 1 < (k.recvList ++ [v]).length := by
        have hpos := List.length_pos_iff.mpr hlist
        rw [List.length_append, List.length_singleton]
        omega
      have hnot := hmakes.not_exact htype hlen
      rcases hmakes with ⟨d, rfl, -, -⟩
      have hreplied : Replied { k with
          temp := t, recvSize := k.recvSize + v.length, recvList := k.recvList ++ [v],
          state := .done } := .body htype rfl hne
      exact ⟨Or.inr hreplied.lays, fun _ _ => iff_of_false hnot id⟩

/-- The count of an array is passed, so that no further element completes it again. -/
theorem recvElements_replied (fuel : Nat) {k : RedisBlock} (htype : k.type = .multiBulkReply)
    (hall : k.mutSize ≤ k.recvList.length) (buf : NetBuffer) :
    OnOk (fun k' x => k'.Replied ∧ x.2 = false) (recvElements fuel k buf) := by
  apply recvElements_loop
    (I := fun k => k.type = .multiBulkReply ∧ k.mutSize ≤ k.recvList.length)
    (J := fun k r => k.Replied ∧ r = false)
  · intro k₁ hk₁
    exact ⟨.elements hk₁.1 hk₁.2, rfl⟩
  · intro k₁ k₂ out hk₁ hpass
    rcases hk₁ with ⟨htype₁, hall₁⟩
    cases hpass with
    | wait hst => exact ⟨.elements htype₁ hall₁, rfl⟩
    | more hv hsize =>
        refine ⟨htype₁, hall₁.trans ?_⟩
        rw [List.length_append]
        omega
    | last hv hsize hlast hmakes =>
        rw [List.length_append, List.length_singleton] at hlast
        omega
  · exact ⟨htype, hall⟩

/-- Behind a reply the next line is read, the next body, or the next elements. -/
theorem Replied.recv {k : RedisBlock} (h : k.Replied) (buf : NetBuffer) :
    OnOk (fun k' x => Comes (¬ k.BulkDone) k' x.2) (k.recv buf) := by
  unfold RedisBlock.recv
  cases h with
  | line hbulk hmulti hlist =>
      have hopen : ¬ k.BulkDone := fun hdone => hbulk hdone.1
      split
      · rename_i htype
        rcases k.readline_eq buf with ⟨t, buf', out, hcall⟩
        rw [hcall]
        cases out with
        | none => exact ⟨Or.inr (.line hbulk hmulti hlist), Bool.noConfusion⟩
        | some str =>
            apply (recvType_ends (k := { k with temp := t }) (hlist htype) buf' str).imp
            intro k' x hends
            exact hends.comes hopen
      · rw [recvBody, if_neg hbulk, if_neg hmulti]
        exact ⟨Or.inr (.line hbulk hmulti hlist), Bool.noConfusion⟩
  | body htype hdone hlist =>
      rw [if_neg (by simp [htype]), recvBody, if_pos htype]
      apply (recvBulk_comes htype hdone hlist buf).imp
      rintro k' x ⟨hbetween, hexact⟩
      refine ⟨hbetween, fun hr hmem => (hexact hr hmem).trans ?_⟩
      exact iff_of_false id fun hopen => hopen ⟨htype, hdone⟩
  | elements htype hall =>
      rw [if_neg (by simp [htype]), recvBody, if_neg (by simp [htype]), if_pos htype]
      apply (recvElements_replied _ htype hall buf).imp
      rintro k' x ⟨hreplied, hr⟩
      refine ⟨Or.inr hreplied, fun htrue => ?_⟩
      rw [hr] at htrue
      cases htrue

/-- A call on a block between two calls. -/
theorem Between.recv {k : RedisBlock} (h : k.Between) (buf : NetBuffer) :
    OnOk (fun k' x => Comes (¬ k.BulkDone) k' x.2) (k.recv buf) := by
  rcases h with hcounted | hreplied
  · apply (recv_ends hcounted buf).imp
    intro k' x hends
    apply hends.comes
    rintro ⟨-, hdone⟩
    rw [hcounted.bodyDone_eq] at hdone
    cases hdone
  · exact hreplied.recv buf

theorem between_of_reachable {k : RedisBlock} (h : cloneClass.Reachable k) : k.Between := by
  induction h with
  | make s size => exact Or.inl (.line rfl rfl rfl)
  | push _ bytes hpush ih =>
      rcases exists_of_push hpush with ⟨d, rfl⟩
      exact ih.push _
  | recv _ _ hrecv ih =>
      rcases (ih.recv _).of_ok hrecv with ⟨hbetween, -⟩
      exact hbetween

/-- A result that exists in memory is exact, unless the block had a single body before. -/
theorem result_exact_iff {k k' : RedisBlock} (hk : cloneClass.Reachable k) {buf buf' : NetBuffer}
    (hrecv : k.recv buf = .ok (k', buf', true)) (hmem : k'.recvSize ≤ PTRDIFF_MAX) :
    k'.Exact ↔ ¬ k.BulkDone := by
  rcases ((between_of_reachable hk).recv buf).of_ok hrecv with ⟨-, hexact⟩
  exact hexact rfl hmem

end

/-- An array with a nil element, in one read. -/
theorem result_exact_iff_array : ∃ k buf,
    (create 9 0).recv ((NetBuffer.create 64).writeBytes (text "*2\r\n$1\r\nx\r\n$-1\r\n")) =
      .ok (k, buf, true) ∧ k.recvSize = 36 ∧ k.Exact := by
  have hrun : ∃ k buf,
      (create 9 0).recv ((NetBuffer.create 64).writeBytes (text "*2\r\n$1\r\nx\r\n$-1\r\n")) =
        .ok (k, buf, true) ∧ k.recvSize = 36 := ⟨_, _, rfl, rfl⟩
  rcases hrun with ⟨k, buf, hrecv, hsize⟩
  refine ⟨k, buf, hrecv, hsize, ?_⟩
  exact (result_exact_iff (.make 9 0) hrecv (by rw [hsize]; decide)).mpr (by decide)

/-- The second of two bulk replies is taken for another body: the result is laid out in five of
its six bytes. -/
theorem second_bulk_not_exact : ∃ k k' d buf buf',
    (create 9 0).recv ((NetBuffer.create 64).writeBytes (text "$1\r\na\r\n")) =
        .ok (k, buf, true) ∧
      k.recv (buf.writeBytes (text "$1\r\nb\r\n")) = .ok (k', buf', true) ∧
      k'.data = some d ∧ d.length = 5 ∧ k'.recvSize = 6 ∧ ¬ k'.Exact := by
  -- both calls, with what is seen of the second result
  have hrun : ((create 9 0).recv
      ((NetBuffer.create 64).writeBytes (text "$1\r\na\r\n"))).toOption.any
        (fun x => x.2.2 && (x.1.recv (x.2.1.writeBytes (text "$1\r\nb\r\n"))).toOption.any
          fun y => y.2.2 && y.1.data.any (fun d => d.length == 5) && y.1.recvSize == 6) = true := by
    decide +kernel
  rcases exists_ok_of_any hrun with ⟨⟨k, buf, r⟩, hfirst, hrest⟩
  rcases Bool.and_eq_true_iff.mp hrest with ⟨hr, hsecond⟩
  rcases exists_ok_of_any hsecond with ⟨⟨k', buf', r'⟩, hsecond, hrest'⟩
  simp only [Bool.and_eq_true, beq_iff_eq] at hr hrest'
  rcases hrest' with ⟨⟨hr', hany⟩, hsize⟩
  rcases Option.any_eq_true _ _ |>.mp hany with ⟨d, hdata, hlen⟩
  rw [beq_iff_eq] at hlen
  subst hr hr'
  refine ⟨k, k', d, buf, buf', hfirst, hsecond, hdata, hlen, hsize, ?_⟩
  rintro ⟨d₁, -, -, hdata₁, hlen₁, -⟩
  rw [hdata, Option.some.injEq] at hdata₁
  subst hdata₁
  omega

end RedisBlock

end FannyNet
