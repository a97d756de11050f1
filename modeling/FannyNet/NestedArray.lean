import FannyNet.WholeReply

/-!
# Arrays of arbitrary replies

RESP2 arrays whose elements are replies of any kind, and what the element loop of
`RedisParse` makes of them.  The loop drops the first byte of an element line
without looking at it.

Main results:

- Definition `Resp`: the recursive reply grammar.
- Theorem `RedisParse.readsByType_iff`: when an array that has other elements than
  bulk strings is read according to the type bytes of its elements, or refused.
- Theorem `RedisParse.int_element_swallows_reply`: an array with an integer element
  that swallows the reply behind it.
-/

namespace FannyNet

open Library

/-! ## The reply grammar -/

/-- A RESP2 reply. -/
inductive Resp where
  | single (s : Single)
  | array (es : List Resp)
  | nilArray

namespace Resp

/-- The first line, without its line end. -/
def headLine : Resp → Bytes
  | single s => s.headLine
  | array es => arrayLine es.length
  | nilArray => REDIS_PREFIX_MULTI_BULK_REPLY :: nilText

mutual

/-- A reply on the wire. -/
def encode : Resp → Bytes
  | single s => s.encode
  | array es => arrayLine es.length ++ REDIS_LBR ++ encodeAll es
  | nilArray => REDIS_PREFIX_MULTI_BULK_REPLY :: nilText ++ REDIS_LBR

/-- Replies on the wire, one after another. -/
def encodeAll : List Resp → Bytes
  | [] => []
  | e :: es => e.encode ++ encodeAll es

end

/-- What follows the first line. -/
def tail : Resp → Bytes
  | single s => s.tail
  | array es => encodeAll es
  | nilArray => []

/-- The first line behind the type byte. -/
def lineText (e : Resp) : Bytes :=
  e.headLine.drop 1

/-- The replies that the element loop is made for. -/
def isBulk : Resp → Bool
  | single (.bulk _) => true
  | single .nil => true
  | _ => false

theorem encode_eq (e : Resp) : e.encode = e.headLine ++ REDIS_LBR ++ e.tail := by
  cases e with
  | single s => rw [encode]; rfl
  | array es => rw [encode]; rfl
  | nilArray => rw [encode, headLine, tail, List.append_nil]

theorem clean_headLine (e : Resp) : Clean e.headLine := by
  cases e with
  | single s => exact s.clean_headLine
  | array es => exact clean_arrayLine es.length
  | nilArray =>
      have hclean : Clean (REDIS_PREFIX_MULTI_BULK_REPLY :: nilText) := by decide
      exact hclean

theorem headLine_eq (e : Resp) : ∃ b, e.headLine = b :: e.lineText := by
  cases e with
  | single s => cases s <;> exact ⟨_, rfl⟩
  | array es => exact ⟨_, rfl⟩
  | nilArray => exact ⟨_, rfl⟩

theorem length_encode_pos (e : Resp) : 0 < e.encode.length := by
  rw [encode_eq]
  simp only [REDIS_LBR, List.length_append, List.length_cons]
  omega

@[simp]
theorem encodeAll_nil : encodeAll [] = [] := by
  rw [encodeAll]

@[simp]
theorem encodeAll_cons (e : Resp) (es : List Resp) :
    encodeAll (e :: es) = e.encode ++ encodeAll es := by
  rw [encodeAll]

theorem encodeAll_append (es fs : List Resp) :
    encodeAll (es ++ fs) = encodeAll es ++ encodeAll fs := by
  induction es with
  | nil => simp
  | cons e es ih => rw [List.cons_append, encodeAll_cons, ih, encodeAll_cons, List.append_assoc]

end Resp

/-! ## Elements that are read as bulk strings -/

namespace Resp

/-- The elements that the loop reads as what they are. -/
def Readable : Resp → Prop
  | single (.bulk body) => (body.length : Int) ≤ INT_MAX - 2
  | single .nil => True
  | _ => False

/-- The elements up to the first one that the loop is not made for are readable, and
on that one the loop throws: its length, or the text in its place, is no `int`, or
it is the one `int` for which the cutting of the terminator throws. -/
def StopsWithError (trailing : Bytes) : List Resp → Prop
  | [] => False
  | single (.bulk body) :: es =>
      INT_MAX < (body.length : Int) ∨
        ((body.length : Int) ≤ INT_MAX - 2 ∧ StopsWithError trailing es)
  | single .nil :: es => StopsWithError trailing es
  | e :: es =>
      (∀ n, ¬ (Decimal.IsIntText e.lineText n ∧ INT_MIN ≤ n ∧ n ≤ INT_MAX)) ∨
        (Decimal.IsIntText e.lineText (-2) ∧ e.tail ++ (encodeAll es ++ trailing) ≠ [])

theorem Readable.exists_element {e : Resp} (h : e.Readable) :
    ∃ o, e.encode = (element o).encode ∧ ElementFits RedisParse.readerConfig o := by
  cases e with
  | single s =>
      cases s with
      | bulk body => exact ⟨some body, by rw [encode]; rfl, h⟩
      | nil => exact ⟨none, by rw [encode]; rfl, trivial⟩
      | status l => exact absurd h id
      | error l => exact absurd h id
      | int n => exact absurd h id
  | array es => exact absurd h id
  | nilArray => exact absurd h id

theorem readable_elements {es : List Resp} (h : ∀ e ∈ es, e.Readable) :
    ∃ os, encodeAll es = encodeElements os ∧ os.length = es.length ∧
      ∀ o ∈ os, ElementFits RedisParse.readerConfig o := by
  induction es with
  | nil => exact ⟨[], by simp, rfl, by simp⟩
  | cons e es ih =>
      rcases (h e (by simp)).exists_element with ⟨o, ho, hfit⟩
      rcases ih fun f hf => h f (by simp [hf]) with ⟨os, hos, hlen, hfits⟩
      refine ⟨o :: os, by rw [encodeAll_cons, encodeElements_cons, ho, hos], by simp [hlen], ?_⟩
      intro o' ho'
      rcases List.mem_cons.mp ho' with rfl | ho'
      · exact hfit
      · exact hfits o' ho'

theorem not_readable_of_isBulk {e : Resp} (h : e.isBulk = false) : ¬ e.Readable := by
  cases e with
  | single s => cases s <;> simp_all [isBulk, Readable]
  | array es => exact id
  | nilArray => exact id

/-- A bulk string that is not readable is too long. -/
theorem exists_body_of_unreadable {e : Resp} (he : ¬ e.Readable) (hbulk : e.isBulk = true) :
    ∃ body, e.encode = (element (some body)).encode ∧
      ¬ ElementFits RedisParse.readerConfig (some body) := by
  cases e with
  | single s =>
      cases s with
      | bulk body => exact ⟨body, by rw [encode]; rfl, he⟩
      | nil => exact absurd trivial he
      | status l => cases hbulk
      | error l => cases hbulk
      | int n => cases hbulk
  | array es => cases hbulk
  | nilArray => cases hbulk

/-- The first element that is not readable. -/
theorem exists_first_unreadable {es : List Resp} (h : ∃ e ∈ es, ¬ e.Readable) :
    ∃ pre e post, es = pre ++ e :: post ∧ (∀ f ∈ pre, f.Readable) ∧ ¬ e.Readable := by
  classical
  induction es with
  | nil =>
      rcases h with ⟨e, he, -⟩
      cases he
  | cons e es ih =>
      by_cases he : e.Readable
      · have hes : ∃ f ∈ es, ¬ f.Readable := by
          rcases h with ⟨f, hf, hnot⟩
          rcases List.mem_cons.mp hf with rfl | hf
          · exact absurd he hnot
          · exact ⟨f, hf, hnot⟩
        rcases ih hes with ⟨pre, f, post, hsplit, hpre, hf⟩
        refine ⟨e :: pre, f, post, by rw [hsplit]; rfl, ?_, hf⟩
        intro g hg
        rcases List.mem_cons.mp hg with rfl | hg
        · exact he
        · exact hpre g hg
      · exact ⟨[], e, es, rfl, by simp, he⟩

/-- There is only one first element that is not readable. -/
theorem first_unreadable_unique {pre pre' post post' : List Resp} {e e' : Resp}
    (h : pre ++ e :: post = pre' ++ e' :: post') (hpre : ∀ f ∈ pre, f.Readable)
    (hpre' : ∀ f ∈ pre', f.Readable) (he : ¬ e.Readable) (he' : ¬ e'.Readable) :
    pre = pre' ∧ e = e' ∧ post = post' := by
  induction pre generalizing pre' with
  | nil =>
      cases pre' with
      | nil => exact ⟨rfl, List.cons.inj h⟩
      | cons f pre' =>
          rw [List.nil_append, List.cons_append] at h
          rw [(List.cons.inj h).1] at he
          exact absurd (hpre' f (by simp)) he
  | cons f pre ih =>
      cases pre' with
      | nil =>
          rw [List.nil_append, List.cons_append] at h
          rw [← (List.cons.inj h).1] at he'
          exact absurd (hpre f (by simp)) he'
      | cons f' pre' =>
          rw [List.cons_append, List.cons_append] at h
          rcases ih (List.cons.inj h).2 (fun g hg => hpre g (by simp [hg]))
            (fun g hg => hpre' g (by simp [hg])) with ⟨h₁, h₂, h₃⟩
          exact ⟨by rw [(List.cons.inj h).1, h₁], h₂, h₃⟩

/-- A position between elements determines the elements before it. -/
theorem eq_of_encodeAll_length {pre pre' post post' : List Resp} (h : pre ++ post = pre' ++ post')
    (hlen : (encodeAll pre).length = (encodeAll pre').length) : pre = pre' ∧ post = post' := by
  induction pre generalizing pre' with
  | nil =>
      cases pre' with
      | nil => exact ⟨rfl, h⟩
      | cons f pre' =>
          have hpos := f.length_encode_pos
          rw [encodeAll_nil, encodeAll_cons, List.length_nil, List.length_append] at hlen
          omega
  | cons e pre ih =>
      cases pre' with
      | nil =>
          have hpos := e.length_encode_pos
          rw [encodeAll_nil, encodeAll_cons, List.length_nil, List.length_append] at hlen
          omega
      | cons f pre' =>
          rw [List.cons_append, List.cons_append] at h
          rcases List.cons.inj h with ⟨rfl, htail⟩
          rw [encodeAll_cons, encodeAll_cons, List.length_append, List.length_append] at hlen
          rcases ih htail (by omega) with ⟨rfl, rfl⟩
          exact ⟨rfl, rfl⟩

end Resp

section
variable [LexicalCast]

namespace Resp

/-- The number on an element line is that of the text behind its type byte. -/
theorem elementNumber_headLine (e : Resp) :
    elementNumber e.headLine = lexicalCast e.lineText := by
  rcases e.headLine_eq with ⟨b, hb⟩
  rw [hb, elementNumber, substr_cons_one, ok_bind]

/-- The element loop throws on an element exactly for a text that is no `int`, and for
the length minus two when a byte follows. -/
theorem takeElement_error_iff (e : Resp) (rest : Bytes) :
    (∃ err, takeElement RedisParse.readerConfig [] (e.encode ++ rest) = .error err) ↔
      (∀ n, ¬ (Decimal.IsIntText e.lineText n ∧ INT_MIN ≤ n ∧ n ≤ INT_MAX)) ∨
        (Decimal.IsIntText e.lineText (-2) ∧ e.tail ++ rest ≠ []) := by
  rw [encode_eq, List.append_assoc, takeElement_line e.clean_headLine, elementNumber_headLine]
  cases hcast : lexicalCast e.lineText with
  | error err =>
      simp only [error_bind, Except.error.injEq, exists_eq', true_iff]
      exact Or.inl (lexicalCast_eq_error_iff.mp hcast).2
  | ok n =>
      have hn := lexicalCast_eq_ok_iff.mp hcast
      have hleft : ¬ ∀ m, ¬ (Decimal.IsIntText e.lineText m ∧ INT_MIN ≤ m ∧ m ≤ INT_MAX) :=
        fun h => h n hn
      have htwo : Decimal.IsIntText e.lineText (-2) ↔ n = -2 := by
        constructor
        · intro h
          exact hn.1.unique h
        · rintro rfl
          exact hn.1
      rw [or_iff_right hleft, htwo, ok_bind]
      by_cases hnil : n = -1
      · simp [hnil]
      · rw [if_neg hnil]
        have hlen : RedisParse.readerConfig.elementLen n < 2 ↔ n = -2 := by
          have hrange := hn.2
          simp only [INT_MIN, INT_MAX] at hrange
          simp only [RedisParse.readerConfig, toSize, intAdd, Int.bmod_def]
          omega
        unfold takeBody
        by_cases hwait : ([] ++ (e.tail ++ rest)).length < RedisParse.readerConfig.elementLen n ∨
            (e.tail ++ rest = [] ∧ RedisParse.readerConfig.eager = false)
        · rw [if_pos hwait]
          simp only [ok_bind, reduceCtorEq, exists_false, false_iff]
          rintro ⟨rfl, hne⟩
          rcases hwait with h | ⟨h, -⟩
          · have hzero : RedisParse.readerConfig.elementLen (-2) = 0 := by decide
            omega
          · exact hne h
        · rw [if_neg hwait]
          rw [not_or] at hwait
          by_cases htiny : RedisParse.readerConfig.elementLen n < 2
          · rw [if_pos htiny]
            simp only [error_bind, Except.error.injEq, exists_eq', true_iff]
            exact ⟨hlen.mp htiny, fun h => hwait.2 ⟨h, rfl⟩⟩
          · rw [if_neg htiny]
            simp only [ok_bind, reduceCtorEq, exists_false, false_iff]
            rintro ⟨rfl, -⟩
            exact htiny (hlen.mpr rfl)

/-- The condition on the elements, as what the loop does on the first element that is
not readable. -/
theorem stopsWithError_iff {pre post : List Resp} {e : Resp} {trailing : Bytes}
    (hpre : ∀ f ∈ pre, f.Readable) (he : ¬ e.Readable)
    (hsize : (e.encode ++ (encodeAll post ++ trailing)).length ≤ PTRDIFF_MAX) :
    StopsWithError trailing (pre ++ e :: post) ↔
      ∃ err, takeElement RedisParse.readerConfig []
        (e.encode ++ (encodeAll post ++ trailing)) = .error err := by
  induction pre with
  | cons f pre ih =>
      have hf : f.Readable := hpre f (by simp)
      have hrest := ih fun g hg => hpre g (by simp [hg])
      cases f with
      | single s =>
          cases s with
          | bulk body =>
              have hmax : ¬ INT_MAX < (body.length : Int) := by
                have hle : (body.length : Int) ≤ INT_MAX - 2 := hf
                omega
              rw [← hrest, List.cons_append, StopsWithError, or_iff_right hmax]
              exact and_iff_right hf
          | nil => exact hrest
          | status l => exact absurd hf id
          | error l => exact absurd hf id
          | int n => exact absurd hf id
      | array es => exact absurd hf id
      | nilArray => exact absurd hf id
  | nil =>
      have hall := takeElement_error_iff e (encodeAll post ++ trailing)
      cases e with
      | single s =>
          cases s with
          | nil => exact absurd trivial he
          | bulk body =>
              have hlong : ¬ ((body.length : Int) ≤ INT_MAX - 2) := he
              rw [List.nil_append, StopsWithError, hall]
              have htext : Decimal.IsIntText (single (.bulk body)).lineText body.length :=
                Decimal.isIntText_decimal body.length
              constructor
              · rintro (hmax | ⟨hle, -⟩)
                · left
                  rintro n ⟨hn, -, hhi⟩
                  have := hn.unique htext
                  omega
                · exact absurd hle hlong
              · rintro (hnone | ⟨htwo, -⟩)
                · left
                  by_contra hle
                  exact hnone body.length ⟨htext, by simp only [INT_MIN]; omega, by omega⟩
                · have := htwo.unique htext
                  omega
          | status l => exact hall.symm
          | error l => exact hall.symm
          | int n => exact hall.symm
      | array es => exact hall.symm
      | nilArray => exact hall.symm

end Resp

/-! ## The passes of the element loop -/

namespace RedisParse

/-- The states and positions in which the element loop of a fresh parser's call on
`buf` begins a pass. -/
inductive LoopAt (buf : Bytes) : RedisParse → Nat → Prop where
  | first {p : RedisParse} {pos : Nat} (h : ({} : RedisParse).parseType buf 0 = .ok (p, pos, true))
      (hdone : p.done = false) (htype : p.type = .multiBulkReply) : LoopAt buf p pos
  | next {p p' : RedisParse} {pos pos' : Nat} (h : LoopAt buf p pos)
      (hpass : p.parseElement buf pos = .ok (p', pos', true))
      (hmore : p'.multiCount ≠ p'.recvList.length) : LoopAt buf p' pos'

/-- Where the elements of an array begin. -/
def firstElement (es : List Resp) : Nat :=
  (arrayLine es.length ++ REDIS_LBR).length

/-- The array `es` in front of `trailing` is consumed exactly or refused with an
exception, and no pass of the element loop that begins at an element which is no bulk
string gets past its number. -/
def ReadsByType (es : List Resp) (trailing : Bytes) : Prop :=
  ((∃ err, ({} : RedisParse).parse ((Resp.array es).encode ++ trailing) 0 = .error err) ∨
      ∃ p, ({} : RedisParse).parse ((Resp.array es).encode ++ trailing) 0 =
          .ok (p, (Resp.array es).encode.length, true) ∧ p.isDone = true) ∧
    ∀ pre e post p, es = pre ++ e :: post → e.isBulk = false →
      LoopAt ((Resp.array es).encode ++ trailing) p
        (firstElement es + (Resp.encodeAll pre).length) →
      ∃ err, p.parseElement ((Resp.array es).encode ++ trailing)
        (firstElement es + (Resp.encodeAll pre).length) = .error err

/-- The loop stands between the elements `pre` and `post`. -/
structure Between (es pre post : List Resp) (p : RedisParse) (pos : Nat) : Prop where
  split : es = pre ++ post
  temp : p.temp = []
  type : p.type = .multiBulkReply
  multiCount : p.multiCount = es.length
  recvList : p.recvList.length = pre.length
  pos_eq : pos = firstElement es + (Resp.encodeAll pre).length

section
variable {es : List Resp} {trailing : Bytes}

omit [LexicalCast] in
theorem encode_array_split {pre post : List Resp} (h : es = pre ++ post) :
    (Resp.array es).encode ++ trailing =
      (arrayLine es.length ++ REDIS_LBR ++ Resp.encodeAll pre) ++
        (Resp.encodeAll post ++ trailing) := by
  rw [Resp.encode_eq, Resp.headLine, Resp.tail]
  conv_lhs => rw [h, Resp.encodeAll_append, ← h]
  simp only [List.append_assoc]

omit [LexicalCast] in
theorem Between.drop_eq {pre post : List Resp} {p : RedisParse} {pos : Nat}
    (h : Between es pre post p pos) (trailing : Bytes) :
    ((Resp.array es).encode ++ trailing).drop pos = Resp.encodeAll post ++ trailing := by
  rw [encode_array_split h.split]
  apply List.drop_left'
  rw [h.pos_eq, firstElement, List.length_append]

omit [LexicalCast] in
theorem Between.pos_le {pre post : List Resp} {p : RedisParse} {pos : Nat}
    (h : Between es pre post p pos) (trailing : Bytes) :
    pos ≤ ((Resp.array es).encode ++ trailing).length := by
  rw [encode_array_split h.split, h.pos_eq, firstElement]
  simp only [List.length_append]
  omega

/-- The type line of an array. -/
theorem parseType_array :
    ({} : RedisParse).parseType ((Resp.array es).encode ++ trailing) 0 =
      (do
        let count ← lexicalCast (Decimal.decimal es.length)
        if count = -1 then
          .ok ({ type := .multiBulkReply, multiCount := 0, done := true }, firstElement es, true)
        else
          .ok ({ type := .multiBulkReply, multiCount := toSize count }, firstElement es,
            true)) := by
  have hbuf : (Resp.array es).encode ++ trailing =
      arrayLine es.length ++ REDIS_LBR ++ (Resp.encodeAll es ++ trailing) := by
    rw [Resp.encode_eq, Resp.headLine, Resp.tail, List.append_assoc]
  have hline : ({} : RedisParse).readLine ((Resp.array es).encode ++ trailing) 0 =
      ({}, firstElement es, some (arrayLine es.length)) := by
    rw [readLine_spec _ (Nat.zero_le _), List.drop_zero, hbuf, splitAfter_line (clean_arrayLine _)]
    simp only [List.nil_append, rtrim_line (clean_arrayLine _)]
    rw [List.length_append, Nat.add_sub_cancel]
    rfl
  have htype : getReplyType (arrayLine es.length) = .multiBulkReply := rfl
  unfold parseType
  rw [hline]
  simp only [htype]
  rfl

/-- The first pass of the element loop. -/
theorem between_first (hcount : (es.length : Int) ≤ INT_MAX) {p : RedisParse} {pos : Nat} {r : Bool}
    (h : ({} : RedisParse).parseType ((Resp.array es).encode ++ trailing) 0 = .ok (p, pos, r)) :
    r = true ∧ p.done = false ∧ Between es [] es p pos := by
  have hne : ¬ ((es.length : Int) = -1) := by omega
  have hsize : toSize es.length = es.length := by
    simp only [INT_MAX] at hcount
    rw [toSize_of_nonneg (by omega) (by omega)]
    omega
  rw [parseType_array, lexicalCast_decimal hcount, ok_bind, if_neg hne, hsize] at h
  simp only [Except.ok.injEq, Prod.mk.injEq] at h
  rcases h with ⟨rfl, rfl, rfl⟩
  exact ⟨rfl, rfl, ⟨rfl, rfl, rfl, rfl, rfl, by simp⟩⟩

/-- A pass throws when its element does. -/
theorem Between.parseElement_error_iff {pre post : List Resp} {e : Resp} {p : RedisParse}
    {pos : Nat} (h : Between es pre (e :: post) p pos) {err : Exn} :
    p.parseElement ((Resp.array es).encode ++ trailing) pos = .error err ↔
      takeElement readerConfig [] (e.encode ++ (Resp.encodeAll post ++ trailing)) = .error err := by
  have hpass := p.parseElement_refines (h.pos_le trailing)
  rw [h.temp, h.drop_eq trailing, Resp.encodeAll_cons, List.append_assoc] at hpass
  split at hpass
  · rename_i e' hcall
    rw [hcall, hpass]
    simp
  · rename_i p' pos' hcall
    rw [hcall, hpass.1]
    simp
  · rename_i p' pos' hcall
    rcases hpass with ⟨v, htake, -⟩
    rw [hcall, htake]
    simp

/-- A pass over a readable element. -/
theorem Between.pass {pre post : List Resp} {e : Resp} {p : RedisParse} {pos : Nat}
    (h : Between es pre (e :: post) p pos) (he : e.Readable) (trailing : Bytes) :
    ∃ p' pos', p.parseElement ((Resp.array es).encode ++ trailing) pos = .ok (p', pos', true) ∧
      Between es (pre ++ [e]) post p' pos' := by
  have hpass := p.parseElement_refines (h.pos_le trailing)
  rcases he.exists_element with ⟨o, ho, hfit⟩
  rw [h.temp, h.drop_eq trailing, Resp.encodeAll_cons, List.append_assoc, ho,
    takeElement_encode hfit] at hpass
  split at hpass
  · cases hpass
  · cases hpass.1
  · rename_i p' pos' hcall
    rcases hpass with ⟨v, htake, hsame, hlist, htemp, -, hle⟩
    simp only [Except.ok.injEq, Sum.inr.injEq, Prod.mk.injEq] at htake
    have hsplit : es = (pre ++ [e]) ++ post := by
      rw [h.split, List.append_assoc]
      rfl
    refine ⟨p', pos', hcall, hsplit, htemp, hsame.type.trans h.type,
      hsame.multiCount.trans h.multiCount, ?_, ?_⟩
    · rw [hlist, List.length_append, List.length_append, h.recvList]
      rfl
    · have hlen := congrArg List.length htake.2
      rw [List.length_drop] at hlen
      rw [encode_array_split hsplit] at hlen hle
      rw [firstElement]
      simp only [List.length_append] at hlen hle ⊢
      omega

/-- The loop begins a pass behind every run of readable elements that is not the whole
array. -/
theorem exists_loopAt (hcount : (es.length : Int) ≤ INT_MAX) {pre post : List Resp}
    (hsplit : es = pre ++ post) (hpost : post ≠ []) (hpre : ∀ f ∈ pre, f.Readable)
    (trailing : Bytes) :
    ∃ p pos, LoopAt ((Resp.array es).encode ++ trailing) p pos ∧
      Between es pre post p pos := by
  induction pre using List.reverseRecOn generalizing post with
  | nil =>
      rw [List.nil_append] at hsplit
      subst hsplit
      cases htype : ({} : RedisParse).parseType ((Resp.array es).encode ++ trailing) 0 with
      | error e =>
          have hne : ¬ ((es.length : Int) = -1) := by omega
          rw [parseType_array, lexicalCast_decimal hcount, ok_bind, if_neg hne] at htype
          cases htype
      | ok x =>
          rcases x with ⟨p, pos, r⟩
          rcases between_first hcount htype with ⟨rfl, hdone, hbetween⟩
          exact ⟨p, pos, .first htype hdone hbetween.type, hbetween⟩
  | append_singleton pre e ih =>
      have hsplit' : es = pre ++ e :: post := by
        rw [hsplit, List.append_assoc]
        rfl
      rcases ih hsplit' (by simp) fun f hf => hpre f (by simp [hf]) with ⟨p, pos, hloop, hbetween⟩
      rcases hbetween.pass (hpre e (by simp)) trailing with ⟨p', pos', hcall, hbetween'⟩
      refine ⟨p', pos', .next hloop hcall ?_, hbetween'⟩
      rw [hbetween'.multiCount, hbetween'.recvList, hsplit]
      have hpos := List.length_pos_iff.mpr hpost
      simp only [List.length_append]
      omega

/-- When the loop throws on the first element that is not readable, every pass begins
between readable elements. -/
theorem loopAt_between (hcount : (es.length : Int) ≤ INT_MAX) {pre post : List Resp} {e : Resp}
    (hsplit : es = pre ++ e :: post) (hpre : ∀ f ∈ pre, f.Readable) (he : ¬ e.Readable) {err : Exn}
    (herr : takeElement readerConfig [] (e.encode ++ (Resp.encodeAll post ++ trailing)) =
      .error err)
    {p : RedisParse} {pos : Nat} (hloop : LoopAt ((Resp.array es).encode ++ trailing) p pos) :
    ∃ pre' e' post', (∀ f ∈ pre', f.Readable) ∧ Between es pre' (e' :: post') p pos := by
  induction hloop with
  | first h hdone htype =>
      rcases between_first hcount h with ⟨-, -, hbetween⟩
      cases es with
      | nil => simp at hsplit
      | cons f fs => exact ⟨[], f, fs, by simp, hbetween⟩
  | next h hpass hmore ih =>
      rcases ih with ⟨pre', e', post', hpre', hbetween⟩
      by_cases he' : e'.Readable
      · rcases hbetween.pass he' trailing with ⟨q, pos', hcall, hbetween'⟩
        rw [hcall] at hpass
        simp only [Except.ok.injEq, Prod.mk.injEq, and_true] at hpass
        rcases hpass with ⟨rfl, rfl⟩
        have hall : ∀ f ∈ pre' ++ [e'], f.Readable := by
          intro f hf
          rcases List.mem_append.mp hf with hf | hf
          · exact hpre' f hf
          · rw [List.mem_singleton.mp hf]
            exact he'
        cases post' with
        | nil =>
            exfalso
            apply hmore
            rw [hbetween'.multiCount, hbetween'.recvList, hbetween'.split, List.append_nil]
        | cons f fs => exact ⟨pre' ++ [e'], f, fs, hall, hbetween'⟩
      · exfalso
        rcases Resp.first_unreadable_unique (hsplit.symm.trans hbetween.split) hpre hpre' he
          he' with ⟨rfl, rfl, rfl⟩
        rw [hbetween.parseElement_error_iff.mpr herr] at hpass
        cases hpass

/-- Without a type line the loop does not begin. -/
theorem not_loopAt_of_lt (hcount : INT_MAX < (es.length : Int)) {p : RedisParse} {pos : Nat} :
    ¬ LoopAt ((Resp.array es).encode ++ trailing) p pos := by
  intro h
  induction h with
  | first h hdone htype =>
      rw [parseType_array, lexicalCast_decimal_of_lt hcount, error_bind] at h
      cases h
  | next h hpass hmore ih => exact ih

/-- What the reader makes of the array, from the first element on that is not
readable. -/
theorem feed_array_unreadable (hcount : (es.length : Int) ≤ INT_MAX) {pre post : List Resp}
    {e : Resp} (hsplit : es = pre ++ e :: post) (hpre : ∀ f ∈ pre, f.Readable) (trailing : Bytes) :
    ∃ items, Reader.fresh.feed readerConfig ((Resp.array es).encode ++ trailing) =
      elements readerConfig es.length items [] (e.encode ++ (Resp.encodeAll post ++ trailing)) := by
  rcases Resp.readable_elements hpre with ⟨os, hos, hlen, hfits⟩
  have hbuf : (Resp.array es).encode ++ trailing =
      arrayLine es.length ++ REDIS_LBR ++
        (encodeElements os ++ (e.encode ++ (Resp.encodeAll post ++ trailing))) := by
    rw [encode_array_split hsplit, hos, Resp.encodeAll_cons]
    simp only [List.append_assoc]
  refine ⟨values readerConfig.missing os, ?_⟩
  rw [hbuf, feed_arrayLine hcount, elements_encode hfits, List.nil_append]
  rw [hsplit, List.length_append, List.length_cons, hlen, List.length_nil]
  omega

end

/-- An array that has other elements than bulk strings is read according to its type
bytes, or refused, if and only if its count is no `int` or the loop throws on the first
element that it is not made for. -/
theorem readsByType_iff {es : List Resp} {trailing : Bytes} (hmixed : ∃ e ∈ es, e.isBulk = false)
    (hsize : ((Resp.array es).encode ++ trailing).length ≤ PTRDIFF_MAX) :
    ReadsByType es trailing ↔
      INT_MAX < (es.length : Int) ∨ Resp.StopsWithError trailing es := by
  have hunread : ∃ e ∈ es, ¬ e.Readable := by
    rcases hmixed with ⟨e, he, hbulk⟩
    exact ⟨e, he, Resp.not_readable_of_isBulk hbulk⟩
  rcases Resp.exists_first_unreadable hunread with ⟨pre, e, post, hsplit, hpre, he⟩
  have hsize' : (e.encode ++ (Resp.encodeAll post ++ trailing)).length ≤ PTRDIFF_MAX := by
    rw [encode_array_split hsplit, Resp.encodeAll_cons] at hsize
    simp only [List.length_append] at hsize ⊢
    omega
  have hstop := Resp.stopsWithError_iff hpre he hsize'
  rw [← hsplit] at hstop
  rw [hstop]
  by_cases hcount : (es.length : Int) ≤ INT_MAX
  · rcases feed_array_unreadable hcount hsplit hpre trailing with ⟨items, hfeed⟩
    rw [or_iff_right (by omega)]
    constructor
    · rintro ⟨hconsumed, hnumber⟩
      by_cases hbulk : e.isBulk = false
      · rcases exists_loopAt hcount hsplit (by simp) hpre trailing with ⟨p, pos, hloop, hbetween⟩
        have hpos := hbetween.pos_eq
        subst hpos
        rcases hnumber pre e post p hsplit hbulk hloop with ⟨err, herr⟩
        exact ⟨err, hbetween.parseElement_error_iff.mp herr⟩
      · rcases Resp.exists_body_of_unreadable he (by simpa using hbulk) with ⟨body, hencode, hlong⟩
        rw [hencode] at hfeed hsize' ⊢
        rcases takeElement_of_not_fits hlong hsize' with herr | ⟨w, hwait⟩
        · exact herr
        · exfalso
          rw [elements_unfold, hwait] at hfeed
          rcases hconsumed with ⟨err, herr⟩ | ⟨p, hparse, hdone⟩
          · rw [parse_error_iff.mp herr] at hfeed
            cases hfeed
          · rw [feed_of_parse hparse hdone] at hfeed
            cases hfeed
    · rintro ⟨err, herr⟩
      refine ⟨Or.inl ⟨err, parse_error_iff.mpr ?_⟩, ?_⟩
      · rw [hfeed, elements_unfold, herr]
      · intro pre₁ e₁ post₁ p hsplit₁ hbulk₁ hloop
        rcases loopAt_between hcount hsplit hpre he herr hloop with
          ⟨pre', e', post', hpre', hbetween⟩
        have hlen : (Resp.encodeAll pre₁).length = (Resp.encodeAll pre').length := by
          have := hbetween.pos_eq
          omega
        rcases Resp.eq_of_encodeAll_length (hsplit₁.symm.trans hbetween.split) hlen with
          ⟨rfl, htail⟩
        rcases List.cons.inj htail with ⟨rfl, rfl⟩
        rcases Resp.first_unreadable_unique (hsplit.symm.trans hsplit₁) hpre hpre' he
          (Resp.not_readable_of_isBulk hbulk₁) with ⟨rfl, rfl, rfl⟩
        exact ⟨err, hbetween.parseElement_error_iff.mpr herr⟩
  · rw [not_le] at hcount
    refine iff_of_true ⟨Or.inl ⟨.badLexicalCast, parse_error_iff.mpr ?_⟩, ?_⟩ (Or.inl hcount)
    · rw [Resp.encode_eq, Resp.headLine, Resp.tail, List.append_assoc, feed_arrayLine_of_lt hcount]
    · intro pre₁ e₁ post₁ p _ _ hloop
      exact absurd hloop (not_loopAt_of_lt hcount)

end RedisParse

end

/-- A transaction reply with a status in it is refused. -/
theorem RedisParse.readsByType_exec :
    ReadsByType [.single (.status ⟨text "QUEUED", by decide⟩), .single (.bulk (text "a"))]
      (text "+OK\r\n") := by
  apply (readsByType_iff ⟨_, List.mem_cons_self, rfl⟩ (by decide +kernel)).mpr
  exact Or.inr (Or.inl (lexicalCast_eq_error_iff.mp rfl).2)

/-- The reply behind an array with the integer 5 is taken for a body of five bytes. -/
theorem RedisParse.int_element_swallows_reply :
    (Resp.array [.single (.int 5)]).encode = text "*1\r\n:5\r\n" ∧
      (({} : RedisParse).parse
          ((Resp.array [.single (.int 5)]).encode ++ text "+OK\r\n+PONG\r\n") 0).map
        (fun x => (x.2.1, x.1.isDone, x.1.recvList)) = .ok (15, true, [text "+OK\r\n"]) ∧
      ¬ ReadsByType [.single (.int 5)] (text "+OK\r\n+PONG\r\n") := by
  have hparse : (({} : RedisParse).parse
      ((Resp.array [.single (.int 5)]).encode ++ text "+OK\r\n+PONG\r\n") 0).map
        (fun x => (x.2.1, x.1.isDone, x.1.recvList)) = .ok (15, true, [text "+OK\r\n"]) := by
    decide +kernel
  have hlen : (Resp.array [.single (.int 5)]).encode.length = 8 := by decide +kernel
  refine ⟨by decide +kernel, hparse, ?_⟩
  rintro ⟨⟨err, herr⟩ | ⟨p, hp, -⟩, -⟩
  · rw [herr] at hparse
    cases hparse
  · rw [hp, hlen] at hparse
    simp [Except.map] at hparse

end FannyNet
