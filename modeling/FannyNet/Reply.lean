import FannyNet.RedisBlockRefinement

/-!
# Replies on the wire

The well-formed replies, their encoding, and what the reader makes of one complete
reply followed by other bytes.

Main results:

- Theorem `takeElement_encode`: an element is read as its value, and nothing after
  it is touched.
- Theorem `feed_single` and theorem `feed_array`: a reply the parser can represent
  is read completely, whatever follows it.
- Theorem `feed_single_fits` and theorem `feed_array_fits`: only such a reply is
  ever completed.
-/

namespace FannyNet

open Library

/-! ## Lines -/

/-- A line text: no byte of it is a line end. -/
def Clean (l : Bytes) : Prop :=
  ∀ b ∈ l, b ∉ REDIS_LBR

instance (l : Bytes) : Decidable (Clean l) :=
  List.decidableBAll _ l

/-- The text of a status or error line. -/
def Line : Type := { l : Bytes // Clean l }

theorem Clean.cons {b : UInt8} {l : Bytes} (hb : b ∉ REDIS_LBR) (hl : Clean l) :
    Clean (b :: l) := by
  intro x hx
  rcases List.mem_cons.mp hx with rfl | hx
  · exact hb
  · exact hl x hx

theorem clean_of_isDigit {l : Bytes} (h : ∀ b ∈ l, Decimal.IsDigit b) : Clean l := by
  intro b hb hmem
  have hdigit := h b hb
  simp only [REDIS_LBR, List.mem_cons, List.not_mem_nil, or_false] at hmem
  rcases hmem with rfl | rfl
  · exact absurd hdigit (by decide)
  · exact absurd hdigit (by decide)

theorem clean_decimal (n : Nat) : Clean (Decimal.decimal n) :=
  clean_of_isDigit fun _ hb => Decimal.decimal_isDigit hb

theorem clean_intDecimal (n : Int) : Clean (Decimal.intDecimal n) := by
  cases n with
  | ofNat n => exact clean_decimal n
  | negSucc n => exact (clean_decimal (n + 1)).cons (by decide)

/-- A line ends at its own line end. -/
theorem splitAfter_line {l : Bytes} (hl : Clean l) (r : Bytes) :
    Lines.splitAfter LF (l ++ REDIS_LBR ++ r) = some (l ++ REDIS_LBR, r) := by
  have hfree : LF ∉ l ++ [CR] := by
    intro h
    rcases List.mem_append.mp h with h | h
    · exact hl LF h (by decide)
    · exact absurd h (by decide)
  have hsplit := Lines.splitAfter_line hfree r
  simpa [REDIS_LBR] using hsplit

/-- Trimming a line gives its text. -/
theorem rtrim_line {l : Bytes} (hl : Clean l) : rtrim (l ++ REDIS_LBR) = l := by
  rw [rtrim, Lines.rtrim_append_of_all (fun _ h => h), Lines.rtrim_of_forall_notMem hl]

/-! ## Single replies -/

/-- A reply that is no array: a status, an error, an integer, a bulk string or nil. -/
inductive Single where
  | status (l : Line)
  | error (l : Line)
  | int (n : Int)
  | bulk (body : Bytes)
  | nil

/-- The text behind the `$` of a nil. -/
def nilText : Bytes := [45, 49]

theorem isIntText_nilText : Decimal.IsIntText nilText (-1) :=
  Decimal.IsIntText.minus (by decide) (by decide)

namespace Single

def type : Single → ReplyT
  | status _ => .statusCodeReply
  | error _ => .errorReply
  | int _ => .intReply
  | bulk _ => .bulkReply
  | nil => .bulkReply

/-- The first line, without its line end. -/
def headLine : Single → Bytes
  | status l => REDIS_PREFIX_STATUS_REPLY_VALUE :: l.val
  | error l => REDIS_PREFIX_STATUS_REPLY_ERR_C :: l.val
  | int n => REDIS_PREFIX_INT_REPLY :: Decimal.intDecimal n
  | bulk body => REDIS_PREFIX_SINGLE_BULK_REPLY :: Decimal.decimal body.length
  | nil => REDIS_PREFIX_SINGLE_BULK_REPLY :: nilText

/-- What follows the first line. -/
def tail : Single → Bytes
  | bulk body => body ++ REDIS_LBR
  | _ => []

def encode (s : Single) : Bytes :=
  s.headLine ++ REDIS_LBR ++ s.tail

/-- The value a parser stores; of an error line it drops the first four bytes. -/
def item (missing : Bytes) : Single → Bytes
  | status l => l.val
  | error l => l.val.drop 3
  | int n => Decimal.intDecimal n
  | bulk body => body
  | nil => missing

theorem clean_headLine (s : Single) : Clean s.headLine := by
  cases s with
  | status l => exact l.property.cons (by decide)
  | error l => exact l.property.cons (by decide)
  | int n => exact (clean_intDecimal n).cons (by decide)
  | bulk body => exact (clean_decimal _).cons (by decide)
  | nil => decide

theorem encode_ne_nil (s : Single) : s.encode ≠ [] := by
  simp [encode, REDIS_LBR]

/-- The type byte decides the reply type. -/
theorem getReplyType_headLine (s : Single) : getReplyType s.headLine = s.type := by
  cases s <;> rfl

/-- The replies a parser can represent: an error line has the four bytes that are
dropped from it, a body length leaves room for its terminator in an `int`. -/
def Fits (cfg : ReaderConfig) : Single → Prop
  | status _ => True
  | error l => 3 ≤ l.val.length
  | int n => cfg.castsInteger = true → INT_MIN ≤ n ∧ n ≤ INT_MAX
  | bulk body => (body.length : Int) ≤ INT_MAX - 2
  | nil => True

end Single

/-! ## Array elements -/

/-- An array element, a bulk string or nil, as a reply of its own. -/
def element : Option Bytes → Single
  | some body => .bulk body
  | none => .nil

/-- The elements of an array on the wire. -/
def encodeElements (es : List (Option Bytes)) : Bytes :=
  es.flatMap fun e => (element e).encode

@[simp]
theorem encodeElements_nil : encodeElements [] = [] :=
  rfl

@[simp]
theorem encodeElements_cons (e : Option Bytes) (es : List (Option Bytes)) :
    encodeElements (e :: es) = (element e).encode ++ encodeElements es :=
  rfl

theorem encodeElements_append (es fs : List (Option Bytes)) :
    encodeElements (es ++ fs) = encodeElements es ++ encodeElements fs :=
  List.flatMap_append

/-- The values of the elements. -/
def values (missing : Bytes) (es : List (Option Bytes)) : List Bytes :=
  es.map fun e => e.getD missing

/-- The elements a parser can represent. -/
def ElementFits (cfg : ReaderConfig) : Option Bytes → Prop
  | some body => (body.length : Int) ≤ cfg.maxElement
  | none => True

theorem ElementFits.le_INT_MAX {cfg : ReaderConfig} {body : Bytes}
    (h : ElementFits cfg (some body)) : (body.length : Int) ≤ INT_MAX :=
  h.trans cfg.maxElement_le

/-- The bytes awaited for a representable element. -/
theorem ElementFits.elementLen_eq {cfg : ReaderConfig} {body : Bytes}
    (h : ElementFits cfg (some body)) : cfg.elementLen body.length = body.length + 2 := by
  rw [cfg.elementLen_exact _ (by omega) h, Int.toNat_natCast]

/-- The first line of an array. -/
def arrayLine (n : Nat) : Bytes :=
  REDIS_PREFIX_MULTI_BULK_REPLY :: Decimal.decimal n

theorem clean_arrayLine (n : Nat) : Clean (arrayLine n) :=
  (clean_decimal n).cons (by decide)

/-- An array of bulk strings and nils. -/
def encodeArray (es : List (Option Bytes)) : Bytes :=
  arrayLine es.length ++ REDIS_LBR ++ encodeElements es

/-- The nil array. -/
def encodeNilArray : Bytes :=
  REDIS_PREFIX_MULTI_BULK_REPLY :: nilText ++ REDIS_LBR

/-- The arrays a parser can represent. -/
structure ArrayFits (cfg : ReaderConfig) (es : List (Option Bytes)) : Prop where
  ne_nil : es ≠ []
  count : (es.length : Int) ≤ INT_MAX
  elements : ∀ e ∈ es, ElementFits cfg e

theorem arrayFits_iff {cfg : ReaderConfig} {es : List (Option Bytes)} :
    ArrayFits cfg es ↔ es ≠ [] ∧ (es.length : Int) ≤ INT_MAX ∧
      ∀ body, some body ∈ es → (body.length : Int) ≤ cfg.maxElement := by
  constructor
  · intro h
    exact ⟨h.ne_nil, h.count, fun body hbody => h.elements _ hbody⟩
  · rintro ⟨hne, hcount, hbodies⟩
    refine ⟨hne, hcount, ?_⟩
    intro e he
    cases e with
    | none => trivial
    | some body => exact hbodies body he

section
variable {cfg : ReaderConfig}

/-! ## Reading a body -/

/-- A body that has arrived with its terminator. -/
theorem takeBody_body (body rest : Bytes) :
    takeBody cfg (body.length + 2) [] (body ++ REDIS_LBR ++ rest) = .ok (some (body, rest)) := by
  have hwait : ¬ (([] ++ (body ++ REDIS_LBR ++ rest)).length < body.length + 2 ∨
      (body ++ REDIS_LBR ++ rest = [] ∧ cfg.eager = false)) := by
    rw [not_or]
    constructor
    · simp [REDIS_LBR]
    · simp [REDIS_LBR]
  have hdrop : (body ++ REDIS_LBR ++ rest).drop (body.length + 2) = rest :=
    List.drop_left' (by simp [REDIS_LBR])
  unfold takeBody
  rw [if_neg hwait, if_neg (by omega), List.nil_append, hdrop, Nat.add_sub_cancel,
    List.append_assoc, List.take_left' rfl]

/-- A single bulk body that has arrived with its terminator. -/
theorem bulkBody_body {body : Bytes} (hfit : (body.length : Int) ≤ INT_MAX - 2) (rest : Bytes) :
    bulkBody cfg (toSize (intAdd body.length 2)) [] (body ++ REDIS_LBR ++ rest) =
      .ok ⟨.done .bulkReply, rest, [body]⟩ := by
  rw [bodyLen_exact (by omega) hfit, Int.toNat_natCast, bulkBody, takeBody_body, ok_bind]

/-- Fewer bytes than awaited complete nothing. -/
theorem takeBody_of_lt {len : Nat} {held u : Bytes} (h : (held ++ u).length < len) :
    takeBody cfg len held u = .ok none :=
  if_pos (Or.inl h)

variable [LexicalCast]

theorem lexicalCast_nilText : lexicalCast nilText = .ok (-1) :=
  lexicalCast_eq_ok_iff.mpr ⟨isIntText_nilText, by decide, by decide⟩

/-! ## Reading an element -/

/-- The element step on a line that is complete. -/
theorem takeElement_line {l : Bytes} (hl : Clean l) (rest : Bytes) :
    takeElement cfg [] (l ++ REDIS_LBR ++ rest) =
      (do
        let n ← elementNumber l
        if n = -1 then .ok (.inr (cfg.missing, rest))
        else
          match ← takeBody cfg (cfg.elementLen n) [] rest with
          | none => .ok (.inl rest)
          | some (body, r') => .ok (.inr (body, r'))) := by
  rewrite [takeElement_of_split (splitAfter_line hl rest), List.nil_append, rtrim_line hl]
  rfl

theorem elementNumber_bulk {n : Nat} (hn : (n : Int) ≤ INT_MAX) :
    elementNumber (REDIS_PREFIX_SINGLE_BULK_REPLY :: Decimal.decimal n) = .ok n := by
  simp [elementNumber, lexicalCast_decimal hn]

/-- A representable element is read as its value, and nothing after it is touched. -/
theorem takeElement_encode {e : Option Bytes} (he : ElementFits cfg e) (rest : Bytes) :
    takeElement cfg [] ((element e).encode ++ rest) = .ok (.inr (e.getD cfg.missing, rest)) := by
  rw [Single.encode, List.append_assoc, takeElement_line (Single.clean_headLine _)]
  cases e with
  | none =>
      have hnum : elementNumber (REDIS_PREFIX_SINGLE_BULK_REPLY :: nilText) = .ok (-1) := by
        simp [elementNumber, lexicalCast_nilText]
      simp [element, Single.headLine, Single.tail, hnum]
  | some body =>
      have hne : ¬ ((body.length : Int) = -1) := by omega
      simp only [element, Single.headLine, Single.tail, elementNumber_bulk he.le_INT_MAX, ok_bind,
        if_neg hne, he.elementLen_eq, takeBody_body, Option.getD_some]

/-- An element that is not representable throws or waits. -/
theorem takeElement_of_not_fits {e : Option Bytes} (he : ¬ ElementFits cfg e) {rest : Bytes}
    (hsize : ((element e).encode ++ rest).length ≤ PTRDIFF_MAX) :
    (∃ err, takeElement cfg [] ((element e).encode ++ rest) = .error err) ∨
      ∃ w, takeElement cfg [] ((element e).encode ++ rest) = .ok (.inl w) := by
  cases e with
  | none => exact absurd trivial he
  | some body =>
      rw [Single.encode, List.append_assoc, List.length_append] at hsize
      rw [Single.encode, List.append_assoc, takeElement_line (Single.clean_headLine _)]
      simp only [element, Single.headLine] at hsize ⊢
      by_cases hlen : (body.length : Int) ≤ INT_MAX
      · right
        have hne : ¬ ((body.length : Int) = -1) := by omega
        have hlarge : PTRDIFF_MAX < cfg.elementLen body.length :=
          cfg.elementLen_large _ (not_le.mp he) hlen
        have hwait :
            takeBody cfg (cfg.elementLen body.length) [] ((Single.bulk body).tail ++ rest) =
              .ok none := by
          apply takeBody_of_lt
          rw [List.nil_append]
          omega
        refine ⟨(Single.bulk body).tail ++ rest, ?_⟩
        simp only [elementNumber_bulk hlen, ok_bind, if_neg hne, hwait]
      · left
        refine ⟨.badLexicalCast, ?_⟩
        have hcast := lexicalCast_decimal_of_lt (n := body.length) (by omega)
        simp [elementNumber, hcast]

/-! ## Reading the elements of an array -/

/-- Complete elements that are not the last ones are collected. -/
theorem elements_encode {es : List (Option Bytes)} (hes : ∀ e ∈ es, ElementFits cfg e)
    {count : Nat} {items : List Bytes} (hcount : items.length + es.length < count) (u : Bytes) :
    elements cfg count items [] (encodeElements es ++ u) =
      elements cfg count (items ++ values cfg.missing es) [] u := by
  induction es generalizing items with
  | nil => simp [values]
  | cons e es ih =>
      rw [List.length_cons] at hcount
      rw [elements_unfold, encodeElements_cons, List.append_assoc,
        takeElement_encode (hes e (by simp))]
      have hmore : ¬ (items ++ [e.getD cfg.missing]).length = count := by
        rw [List.length_append, List.length_singleton]
        omega
      simp only [if_neg hmore]
      rw [ih (fun f hf => hes f (by simp [hf])) (by simp; omega)]
      simp [values]

/-- All elements of an array complete it. -/
theorem elements_encode_all {es : List (Option Bytes)} (hne : es ≠ [])
    (hes : ∀ e ∈ es, ElementFits cfg e) (items : List Bytes) (rest : Bytes) :
    elements cfg (items.length + es.length) items [] (encodeElements es ++ rest) =
      .ok ⟨.done .multiBulkReply, rest, items ++ values cfg.missing es⟩ := by
  rcases List.eq_nil_or_concat es with rfl | ⟨fs, e, rfl⟩
  · exact absurd rfl hne
  · rw [List.concat_eq_append] at hes ⊢
    rw [encodeElements_append, List.append_assoc,
      elements_encode (fun f hf => hes f (by simp [hf])) (by simp), elements_unfold,
      encodeElements_cons, encodeElements_nil, List.append_nil,
      takeElement_encode (hes e (by simp))]
    have hlast : (items ++ values cfg.missing fs ++ [e.getD cfg.missing]).length =
        items.length + (fs ++ [e]).length := by
      simp [values]
    simp only [if_pos hlast]
    simp [values]

/-- An array with an element that is not representable is not completed. -/
theorem elements_fits {es : List (Option Bytes)} {items : List Bytes} {rest : Bytes} {a : Reader}
    (hsize : (encodeElements es ++ rest).length ≤ PTRDIFF_MAX)
    (h : elements cfg (items.length + es.length) items [] (encodeElements es ++ rest) = .ok a)
    (hdone : a.isDone = true) : ∀ e ∈ es, ElementFits cfg e := by
  induction es generalizing items with
  | nil => simp
  | cons e es ih =>
      rw [encodeElements_cons, List.append_assoc] at hsize h
      rw [elements_unfold] at h
      by_cases he : ElementFits cfg e
      · rw [takeElement_encode he] at h
        simp only at h
        have hrest : (encodeElements es ++ rest).length ≤ PTRDIFF_MAX := by
          rw [List.length_append] at hsize
          omega
        intro f hf
        rcases List.mem_cons.mp hf with rfl | hf
        · exact he
        · have hmore :
              ¬ (items ++ [e.getD cfg.missing]).length = items.length + (e :: es).length := by
            have hpos := List.length_pos_of_mem hf
            intro hlen
            simp only [List.length_append, List.length_cons, List.length_nil] at hlen
            omega
          rw [if_neg hmore] at h
          have hcount : items.length + (e :: es).length =
              (items ++ [e.getD cfg.missing]).length + es.length := by
            simp only [List.length_append, List.length_cons, List.length_nil]
            omega
          rw [hcount] at h
          exact ih hrest h f hf
      · rcases takeElement_of_not_fits he hsize with ⟨err, herr⟩ | ⟨w, hw⟩
        · rw [herr] at h
          cases h
        · rw [hw] at h
          simp only [Except.ok.injEq] at h
          subst a
          cases hdone

/-! ## Reading a whole reply -/

/-- A complete first line in front of a fresh reader. -/
theorem feed_fresh_line {l : Bytes} (hl : Clean l) (rest : Bytes) :
    Reader.fresh.feed cfg (l ++ REDIS_LBR ++ rest) = startLine cfg l rest := by
  unfold Reader.feed Reader.fresh
  simp only [splitAfter_line hl, List.nil_append, rtrim_line hl]

/-- A representable single reply is read completely, and nothing after it. -/
theorem feed_single {s : Single} (hs : s.Fits cfg) (rest : Bytes) :
    Reader.fresh.feed cfg (s.encode ++ rest) =
      .ok ⟨.done s.type, rest, [s.item cfg.missing]⟩ := by
  rw [Single.encode, List.append_assoc, feed_fresh_line s.clean_headLine, startLine,
    s.getReplyType_headLine]
  cases s with
  | status l => simp [Single.type, Single.headLine, Single.tail, Single.item]
  | error l =>
      have hlen : 4 ≤ (REDIS_PREFIX_STATUS_REPLY_ERR_C :: l.val).length := by
        rw [List.length_cons]
        exact Nat.succ_le_succ hs
      simp [Single.type, Single.headLine, Single.tail, Single.item, substr_of_le hlen]
  | int n =>
      simp only [Single.type, Single.headLine, Single.tail, Single.item, substr_cons_one, ok_bind,
        List.nil_append]
      by_cases hcast : cfg.castsInteger = true
      · have hok : lexicalCast (Decimal.intDecimal n) = .ok n :=
          lexicalCast_eq_ok_iff.mpr ⟨Decimal.isIntText_intDecimal n, hs hcast⟩
        rw [if_pos hcast, hok, ok_bind]
      · rw [if_neg hcast]
  | bulk body =>
      have hmax : (body.length : Int) ≤ INT_MAX := by
        simp only [Single.Fits, INT_MAX] at hs ⊢
        omega
      have hne : ¬ ((body.length : Int) = -1) := by omega
      simp only [Single.type, Single.headLine, Single.tail, Single.item, substr_cons_one, ok_bind,
        lexicalCast_decimal hmax, if_neg hne, bulkBody_body hs]
  | nil =>
      simp [Single.type, Single.headLine, Single.tail, Single.item, lexicalCast_nilText]

/-- Only a representable single reply is completed. -/
theorem feed_single_fits {s : Single} {rest : Bytes} {a : Reader}
    (hsize : (s.encode ++ rest).length ≤ PTRDIFF_MAX)
    (h : Reader.fresh.feed cfg (s.encode ++ rest) = .ok a) (hdone : a.isDone = true) :
    s.Fits cfg := by
  rw [Single.encode, List.append_assoc] at h hsize
  rw [feed_fresh_line s.clean_headLine, startLine, s.getReplyType_headLine] at h
  cases s with
  | status l => trivial
  | error l =>
      by_contra hshort
      simp only [Single.Fits, not_le] at hshort
      have hlen : (REDIS_PREFIX_STATUS_REPLY_ERR_C :: l.val).length < 4 := by
        rw [List.length_cons]
        omega
      simp [Single.type, Single.headLine, substr_of_lt hlen] at h
  | int n =>
      intro hcast
      simp only [Single.type, Single.headLine, substr_cons_one, ok_bind, if_pos hcast] at h
      cases hn : lexicalCast (Decimal.intDecimal n) with
      | error e => simp [hn] at h
      | ok m =>
          have hm := lexicalCast_eq_ok_iff.mp hn
          rw [(Decimal.isIntText_intDecimal n).unique hm.1]
          exact hm.2
  | bulk body =>
      by_contra hlong
      simp only [Single.Fits, not_le] at hlong
      have hne : ¬ ((body.length : Int) = -1) := by omega
      simp only [Single.type, Single.headLine, Single.tail, substr_cons_one, ok_bind] at h
      by_cases hmax : (body.length : Int) ≤ INT_MAX
      · -- the awaited length has wrapped, and no input is that long
        have hwrap := bodyLen_wrap hlong hmax
        have hwait : takeBody cfg (toSize (intAdd body.length 2)) [] (body ++ REDIS_LBR ++ rest) =
            .ok none := by
          apply takeBody_of_lt
          simp only [Single.headLine, Single.tail, PTRDIFF_MAX] at hsize
          rw [List.nil_append]
          rw [List.length_append] at hsize
          omega
        simp only [lexicalCast_decimal hmax, ok_bind, if_neg hne, bulkBody, hwait,
          Except.ok.injEq] at h
        subst a
        cases hdone
      · rw [lexicalCast_decimal_of_lt (by omega)] at h
        simp at h
  | nil => trivial

/-- A complete array line hands over to the element loop. -/
theorem feed_arrayLine {n : Nat} (hn : (n : Int) ≤ INT_MAX) (rest : Bytes) :
    Reader.fresh.feed cfg (arrayLine n ++ REDIS_LBR ++ rest) = elements cfg n [] [] rest := by
  have htype : getReplyType (arrayLine n) = .multiBulkReply := rfl
  have hne : ¬ ((n : Int) = -1) := by omega
  have hsize : toSize n = n := by
    simp only [INT_MAX] at hn
    rw [toSize_of_nonneg (by omega) (by omega)]
    omega
  rw [feed_fresh_line (clean_arrayLine n), startLine, htype]
  simp only [arrayLine, substr_cons_one, ok_bind, lexicalCast_decimal hn, if_neg hne, hsize]

/-- A count out of range throws. -/
theorem feed_arrayLine_of_lt {n : Nat} (hn : INT_MAX < (n : Int)) (rest : Bytes) :
    Reader.fresh.feed cfg (arrayLine n ++ REDIS_LBR ++ rest) = .error .badLexicalCast := by
  have htype : getReplyType (arrayLine n) = .multiBulkReply := rfl
  rw [feed_fresh_line (clean_arrayLine n), startLine, htype]
  simp only [arrayLine, substr_cons_one, ok_bind, lexicalCast_decimal_of_lt hn, error_bind]

/-- A representable array is read completely, and nothing after it. -/
theorem feed_array {es : List (Option Bytes)} (hes : ArrayFits cfg es) (rest : Bytes) :
    Reader.fresh.feed cfg (encodeArray es ++ rest) =
      .ok ⟨.done .multiBulkReply, rest, values cfg.missing es⟩ := by
  have hall := elements_encode_all hes.ne_nil hes.elements [] rest
  rw [encodeArray, List.append_assoc, feed_arrayLine hes.count]
  simpa using hall

/-- An empty array is never completed: its count is tested after an element only. -/
theorem elements_zero {items : List Bytes} {held u : Bytes} {a : Reader}
    (h : elements cfg 0 items held u = .ok a) : a.phase = .elements 0 := by
  refine elements_induction (C := fun _ _ _ => a.phase = .elements 0) ?_ ?_ ?_ h
  · rintro items held u rest - rfl
    rfl
  · intro items held u body r _ hcount
    simp at hcount
  · intro items held u body r _ _ hrest
    exact hrest

/-- Only a representable array is completed. -/
theorem feed_array_fits {es : List (Option Bytes)} {rest : Bytes} {a : Reader}
    (hsize : (encodeArray es ++ rest).length ≤ PTRDIFF_MAX)
    (h : Reader.fresh.feed cfg (encodeArray es ++ rest) = .ok a) (hdone : a.isDone = true) :
    ArrayFits cfg es := by
  rw [encodeArray, List.append_assoc] at h hsize
  have hcount : (es.length : Int) ≤ INT_MAX := by
    by_contra hlarge
    rw [feed_arrayLine_of_lt (by omega)] at h
    cases h
  rw [feed_arrayLine hcount] at h
  refine ⟨?_, hcount, ?_⟩
  · rintro rfl
    have hphase := elements_zero h
    simp [Reader.isDone, hphase] at hdone
  · have hbody : (encodeElements es ++ rest).length ≤ PTRDIFF_MAX := by
      rw [List.length_append] at hsize
      omega
    have hall :
        elements cfg (([] : List Bytes).length + es.length) [] [] (encodeElements es ++ rest) =
          .ok a := by simpa using h
    exact elements_fits hbody hall hdone

/-- A nil array is complete with its line. -/
theorem feed_nilArray (rest : Bytes) :
    Reader.fresh.feed cfg (encodeNilArray ++ rest) = .ok ⟨.done .multiBulkReply, rest, []⟩ := by
  have htype : getReplyType (REDIS_PREFIX_MULTI_BULK_REPLY :: nilText) = .multiBulkReply := rfl
  have hclean : Clean (REDIS_PREFIX_MULTI_BULK_REPLY :: nilText) := by decide
  rw [encodeNilArray, feed_fresh_line hclean, startLine, htype]
  simp [lexicalCast_nilText]

end

end FannyNet
