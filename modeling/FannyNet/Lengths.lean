import FannyNet.Completion
import FannyNet.Agreement

/-!
# Declared lengths and counts

What a length or count line makes a parser wait for, as an integer.  The conversions from
`int` to `size_t` and the sums with the two bytes of the terminator are made in several
places, with operands of different types; what a line should do is said here once.

Main results:

- Definitions `bulkOutcome`, `elementOutcome` and `countOutcome`: what the number on a line
  asks for.
- Definition `ReadsReplies.LineExact`: a class does what the line asks for, or refuses it.
- Theorem `lengths_exact_iff`: the numbers for which the two classes do so, for each kind
  of line.
-/

namespace FannyNet

open Library

section
variable (cfg : ReaderConfig) [LexicalCast]

/-! ## What a line asks for -/

/-- Elements are collected until there are `count` values. -/
def collect (count : Nat) (items : List Bytes) (r : Bytes) : Except Exn Reader :=
  if items.length = count then .ok ⟨.done .multiBulkReply, r, items⟩
  else elements cfg count items [] r

/-- Behind the line `$n` of a bulk reply: nil, or a body of `n` bytes and two more. -/
def bulkOutcome (n : Int) (r : Bytes) : Except Exn Reader :=
  if n = -1 then .ok ⟨.done .bulkReply, r, [cfg.missing]⟩
  else if (r.length : Int) < n + 2 then .ok ⟨.body (n + 2).toNat, r, []⟩
  else .ok ⟨.done .bulkReply, r.drop (n + 2).toNat, [r.take n.toNat]⟩

/-- Behind the line `$n` of an element: nil, or a body of `n` bytes and two more. -/
def elementOutcome (count : Nat) (items : List Bytes) (n : Int) (r : Bytes) :
    Except Exn Reader :=
  if n = -1 then collect cfg count (items ++ [cfg.missing]) r
  else if (r.length : Int) < n + 2 then .ok ⟨.elements count, r, items⟩
  else collect cfg count (items ++ [r.take n.toNat]) (r.drop (n + 2).toNat)

/-- Behind the line `*n`: nil, or `n` elements. -/
def countOutcome (n : Int) (r : Bytes) : Except Exn Reader :=
  if n = -1 then .ok ⟨.done .multiBulkReply, r, []⟩ else collect cfg n.toNat [] r

/-- A reply is refused at once, or with whatever comes next. -/
def Refused (out : Except Exn Reader) : Prop :=
  ∀ a, out = .ok a → a.isDone = false ∧ ∀ c, c ≠ [] → ∃ e, a.feed cfg c = .error e

variable {cfg}

theorem refused_error (e : Exn) : Refused cfg (.error e) := by
  intro a ha
  cases ha

/-- A reader that takes one more byte has not refused. -/
theorem not_refused {a b : Reader} {x : UInt8} (h : a.feed cfg [x] = .ok b) :
    ¬ Refused cfg (.ok a) := by
  intro hrefused
  rcases (hrefused a rfl).2 [x] (by simp) with ⟨e, he⟩
  rw [h] at he
  cases he

/-! ## Bulk replies -/

omit [LexicalCast] in
/-- A body whose awaited length is exact. -/
theorem takeBody_exact {len : Nat} (hlen : 2 ≤ len) (r : Bytes) :
    takeBody cfg len [] r =
      if r.length < len then .ok none else .ok (some (r.take (len - 2), r.drop len)) := by
  unfold takeBody
  rw [List.nil_append]
  by_cases hshort : r.length < len
  · rw [if_pos (Or.inl hshort), if_pos hshort]
  · have hgo : ¬ (r.length < len ∨ (r = [] ∧ cfg.eager = false)) := by
      rintro (h | ⟨rfl, -⟩)
      · exact hshort h
      · rw [List.length_nil] at hshort
        omega
    rw [if_neg hgo, if_neg (by omega), if_neg hshort]

omit [LexicalCast] in
theorem bulkBody_exact {n : Int} (h0 : 0 ≤ n) (h : n ≤ INT_MAX - 2) (r : Bytes) :
    bulkBody cfg (toSize (intAdd n 2)) [] r = bulkOutcome cfg n r := by
  have hlen : (n + 2).toNat = n.toNat + 2 := by omega
  have hnil : ¬ n = -1 := by omega
  rw [bodyLen_exact h0 h, bulkBody, takeBody_exact (by omega), bulkOutcome, if_neg hnil, hlen,
    List.nil_append]
  by_cases hshort : r.length < n.toNat + 2
  · rw [if_pos hshort, if_pos (by omega), ok_bind]
  · rw [if_neg hshort, if_neg (by omega), ok_bind, Nat.add_sub_cancel]

/-- A length of -2 awaits no bytes at all, and there are none to cut the terminator off. -/
theorem bulkBody_refused (r : Bytes) : Refused cfg (bulkBody cfg 0 [] r) := by
  have hsome : ∀ u : Bytes, u ≠ [] → bulkBody cfg 0 [] u = .error .outOfRange := by
    intro u hu
    rw [bulkBody, takeBody, if_neg (by simp [hu]), if_pos (by omega), error_bind]
  by_cases hr : r = []
  · subst hr
    intro a ha
    unfold bulkBody takeBody at ha
    by_cases heager : cfg.eager = false
    · rw [if_pos (Or.inr ⟨rfl, heager⟩), ok_bind, Except.ok.injEq] at ha
      subst ha
      exact ⟨rfl, fun c hc => ⟨.outOfRange, hsome c hc⟩⟩
    · rw [if_neg (by simp [heager]), if_pos (by omega), error_bind] at ha
      cases ha
  · rw [hsome r hr]
    exact refused_error _

variable (cfg) in
/-- A body of a length that memory cannot hold is awaited, and goes on being awaited. -/
theorem bulkBody_large {len : Nat} (hlen : PTRDIFF_MAX < len) :
    bulkBody cfg len [] [] = .ok ⟨.body len, [], []⟩ ∧
      ¬ Refused cfg (bulkBody cfg len [] []) := by
  simp only [PTRDIFF_MAX] at hlen
  have hempty : bulkBody cfg len [] [] = .ok ⟨.body len, [], []⟩ := by
    rw [bulkBody, takeBody_of_lt (by simp; omega), ok_bind, List.append_nil]
  refine ⟨hempty, ?_⟩
  rw [hempty]
  apply not_refused (x := 0) (b := ⟨.body len, [0], []⟩)
  change bulkBody cfg len [] [0] = _
  rw [bulkBody, takeBody_of_lt (by simp; omega), ok_bind, List.nil_append]

/-- All later input is taken into a body of such a length. -/
theorem feedAll_body_large {len : Nat} (hlen : PTRDIFF_MAX < len) (held : Bytes)
    (cs : List Bytes) (hcs : (held ++ cs.flatten).length ≤ PTRDIFF_MAX) :
    Incremental.feedAll (Reader.feed cfg) ⟨.body len, held, []⟩ cs =
      .ok ⟨.body len, held ++ cs.flatten, []⟩ := by
  induction cs generalizing held with
  | nil =>
      rw [Incremental.feedAll_nil, List.flatten_nil, List.append_nil]
  | cons c cs ih =>
      rw [List.flatten_cons, ← List.append_assoc] at hcs
      have hshort : (held ++ c).length < len := by
        rw [List.length_append] at hcs
        omega
      have hfeed : Reader.feed cfg ⟨.body len, held, []⟩ c = .ok ⟨.body len, held ++ c, []⟩ := by
        change bulkBody cfg len held c = _
        rw [bulkBody, takeBody_of_lt hshort, ok_bind]
      rw [Incremental.feedAll, hfeed, List.flatten_cons, ← List.append_assoc]
      exact ih (held ++ c) hcs

/-- A `$n` line in front of a reply is a bulk body of `n + 2` bytes, as the code computes it. -/
theorem startLine_bulk {txt : Bytes} {n : Int} (hn : lexicalCast txt = .ok n) (r : Bytes) :
    startLine cfg (REDIS_PREFIX_SINGLE_BULK_REPLY :: txt) r =
      if n = -1 then .ok ⟨.done .bulkReply, r, [cfg.missing]⟩
      else bulkBody cfg (toSize (intAdd n 2)) [] r :=
  startLine_of_bulk rfl ⟨_, txt, rfl, lexicalCast_eq_ok_iff.mp hn⟩ r

theorem startLine_bulk_exact {txt : Bytes} {n : Int} (hn : lexicalCast txt = .ok n)
    (hlo : -2 ≤ n) (hhi : n ≤ INT_MAX - 2) (r : Bytes) :
    Refused cfg (startLine cfg (REDIS_PREFIX_SINGLE_BULK_REPLY :: txt) r) ∨
      (-1 ≤ n ∧ startLine cfg (REDIS_PREFIX_SINGLE_BULK_REPLY :: txt) r = bulkOutcome cfg n r) := by
  rw [startLine_bulk hn]
  by_cases hnil : n = -1
  · rw [if_pos hnil, bulkOutcome, if_pos hnil]
    exact Or.inr ⟨by omega, rfl⟩
  · rw [if_neg hnil]
    by_cases h0 : 0 ≤ n
    · exact Or.inr ⟨by omega, bulkBody_exact h0 hhi r⟩
    · have htwo : n = -2 := by omega
      subst htwo
      exact Or.inl (bulkBody_refused r)

theorem startLine_bulk_inexact {txt : Bytes} {n : Int} (hn : lexicalCast txt = .ok n)
    (h : n < -2 ∨ INT_MAX - 2 < n) :
    ¬ (Refused cfg (startLine cfg (REDIS_PREFIX_SINGLE_BULK_REPLY :: txt) []) ∨
      (-1 ≤ n ∧
        startLine cfg (REDIS_PREFIX_SINGLE_BULK_REPLY :: txt) [] = bulkOutcome cfg n [])) := by
  rcases lexicalCast_eq_ok_iff.mp hn with ⟨-, hlo, hhi⟩
  have hnil : ¬ n = -1 := by
    simp only [INT_MAX] at h
    omega
  have hlarge : PTRDIFF_MAX < toSize (intAdd n 2) := by
    rcases h with hneg | hbig
    · rcases bodyLen_negative hlo (by omega) with hsmall | hlarge
      · have hadd : intAdd n 2 = n + 2 := by
          apply intAdd_of_le
          · omega
          · simp only [INT_MAX]
            omega
        rw [hadd] at hsmall
        have := toSize_of_neg (i := n + 2) (by omega) (by omega)
        simp only [PTRDIFF_MAX] at this
        omega
      · exact hlarge
    · exact RedisParse.bodyLen_large hbig hhi
  rcases bulkBody_large cfg hlarge with ⟨hwait, hnot⟩
  rw [startLine_bulk hn, if_neg hnil]
  rintro (hrefused | ⟨hge, hexact⟩)
  · exact hnot hrefused
  · rw [hwait, bulkOutcome, if_neg hnil, if_pos (by simp; omega)] at hexact
    simp only [Except.ok.injEq, Reader.mk.injEq, Phase.body.injEq, and_true] at hexact
    simp only [PTRDIFF_MAX, INT_MAX] at hlarge hhi
    omega

/-! ## Counts -/

/-- A `*n` line is a loop over as many elements as the conversion makes of `n`. -/
theorem startLine_count {txt : Bytes} {n : Int} (hn : lexicalCast txt = .ok n) (r : Bytes) :
    startLine cfg (REDIS_PREFIX_MULTI_BULK_REPLY :: txt) r =
      if n = -1 then .ok ⟨.done .multiBulkReply, r, []⟩ else elements cfg (toSize n) [] [] r :=
  startLine_of_multiBulk rfl ⟨_, txt, rfl, lexicalCast_eq_ok_iff.mp hn⟩ r

theorem startLine_count_exact {txt : Bytes} {n : Int} (hn : lexicalCast txt = .ok n)
    (h : n = -1 ∨ 1 ≤ n) (r : Bytes) :
    startLine cfg (REDIS_PREFIX_MULTI_BULK_REPLY :: txt) r = countOutcome cfg n r := by
  rw [startLine_count hn, countOutcome]
  by_cases hnil : n = -1
  · rw [if_pos hnil, if_pos hnil]
  · rcases lexicalCast_eq_ok_iff.mp hn with ⟨-, -, hhi⟩
    simp only [INT_MAX] at hhi
    have hpos : ¬ ([] : List Bytes).length = n.toNat := by
      rw [List.length_nil]
      omega
    rw [if_neg hnil, if_neg hnil, collect, if_neg hpos, toSize_of_nonneg (by omega) (by omega)]

variable (cfg) in
/-- The element loop waits for a line, of any count. -/
theorem elements_not_refused (count : Nat) (items : List Bytes) (held : Bytes) :
    elements cfg count items held [] = .ok ⟨.elements count, held, items⟩ ∧
      ¬ Refused cfg (.ok ⟨.elements count, held, items⟩) := by
  have hline : ∀ u : Bytes, LF ∉ u →
      elements cfg count items held u = .ok ⟨.elements count, held ++ u, items⟩ := by
    intro u hu
    rw [elements_unfold, takeElement, Lines.splitAfter_eq_none_iff.mpr hu]
  refine ⟨?_, not_refused (x := 0) (hline [0] (by decide))⟩
  rw [hline [] (by simp), List.append_nil]

theorem startLine_count_inexact {txt : Bytes} {n : Int} (hn : lexicalCast txt = .ok n)
    (h : ¬ (n = -1 ∨ 1 ≤ n)) :
    ¬ (Refused cfg (startLine cfg (REDIS_PREFIX_MULTI_BULK_REPLY :: txt) []) ∨
      (-1 ≤ n ∧
        startLine cfg (REDIS_PREFIX_MULTI_BULK_REPLY :: txt) [] = countOutcome cfg n [])) := by
  rw [not_or] at h
  rcases elements_not_refused cfg (toSize n) [] [] with ⟨hwait, hnot⟩
  rw [startLine_count hn, if_neg h.1, hwait]
  rintro (hrefused | ⟨hge, hexact⟩)
  · exact hnot hrefused
  · -- only no elements at all are left, and they should have been complete at once
    have hzero : n = 0 := by omega
    subst hzero
    have hnone : ([] : List Bytes).length = (0 : Int).toNat := rfl
    rw [countOutcome, if_neg h.1, collect, if_pos hnone] at hexact
    cases hexact

/-! ## Elements -/

/-- The element step behind a line with a number. -/
theorem elements_of_line {held c l r : Bytes} (hsplit : Lines.splitAfter LF c = some (l, r))
    {n : Int} (hn : elementNumber (rtrim (held ++ l)) = .ok n) (count : Nat) (items : List Bytes) :
    elements cfg count items held c =
      if n = -1 then collect cfg count (items ++ [cfg.missing]) r
      else
        match takeBody cfg (cfg.elementLen n) [] r with
        | .error e => .error e
        | .ok none => .ok ⟨.elements count, r, items⟩
        | .ok (some (body, r')) => collect cfg count (items ++ [body]) r' := by
  rw [elements_unfold, takeElement_of_split hsplit, hn, ok_bind]
  by_cases hnil : n = -1
  · rw [if_pos hnil, if_pos hnil, collect]
  · rw [if_neg hnil, if_neg hnil]
    cases takeBody cfg (cfg.elementLen n) [] r with
    | error e => rfl
    | ok x =>
        cases x with
        | none => rfl
        | some p => rfl

theorem elements_exact {held c l r : Bytes} (hsplit : Lines.splitAfter LF c = some (l, r))
    {n : Int} (hn : elementNumber (rtrim (held ++ l)) = .ok n) (hlo : -1 ≤ n)
    (hhi : n ≤ cfg.maxElement) (count : Nat) (items : List Bytes) :
    elements cfg count items held c = elementOutcome cfg count items n r := by
  rw [elements_of_line hsplit hn, elementOutcome]
  by_cases hnil : n = -1
  · rw [if_pos hnil, if_pos hnil]
  · have hlen : (n + 2).toNat = n.toNat + 2 := by omega
    rw [if_neg hnil, if_neg hnil, cfg.elementLen_exact n (by omega) hhi, takeBody_exact (by omega),
      hlen]
    by_cases hshort : r.length < n.toNat + 2
    · rw [if_pos hshort, if_pos (by omega)]
    · rw [if_neg hshort, if_neg (by omega)]
      rfl

end

/-! ## The classes -/

section
variable [LexicalCast]

/-- A call that throws, or one that leaves a reply that cannot go on. -/
def RefusedBy {β : Type} (K : BlockClass β) (res : Except Exn (β × NetBuffer × Bool)) : Prop :=
  ∀ k buf b, res = .ok (k, buf, b) → K.bodyDone k = false ∧
    ∀ (buf' : NetBuffer) (c : Bytes), buf'.Valid → c ≠ [] → buf'.unread = buf.unread ++ c →
      ∃ e, K.recv k buf' = .error e

namespace ReadsReplies

variable {β : Type} {K : BlockClass β} {cfg : ReaderConfig} (R : ReadsReplies K cfg)

/-- An open block meets the end of the line `line` in its buffer, with `r` behind it.  What
came before of the line is in the block, or still in the buffer. -/
structure Meets (k : β) (buf : NetBuffer) (a : Reader) (line r : Bytes) : Prop where
  open_ : K.bodyDone k = false
  valid : buf.Valid
  split : ∃ u c l, R.Waits k u ∧ R.reader k u = a ∧ buf.unread = u ++ c ∧
    Lines.splitAfter LF c = some (l, r) ∧ rtrim (a.held ++ l) = line

/-- Wherever a line with the number `n` is met in the phase `phase`, the block does what the
line asks for, or refuses it. -/
def LineExact (phase : Phase) (lead : UInt8) (n : Int)
    (outcome : Reader → Bytes → Except Exn Reader) : Prop :=
  ∀ k buf a txt r, a.phase = phase → Decimal.IsIntText txt n → R.Meets k buf a (lead :: txt) r →
    RefusedBy K (K.recv k buf) ∨
      (-1 ≤ n ∧ Receives R.reader R.Waits buf (outcome a r) (K.recv k buf))

/-- The line `$n` of a bulk reply. -/
def BulkExact (n : Int) : Prop :=
  R.LineExact .start REDIS_PREFIX_SINGLE_BULK_REPLY n fun _ r => bulkOutcome cfg n r

/-- The line `$n` of an element. -/
def ElementExact (n : Int) : Prop :=
  ∀ count, R.LineExact (.elements count) REDIS_PREFIX_SINGLE_BULK_REPLY n fun a r =>
    elementOutcome cfg count a.items n r

/-- The line `*n`. -/
def CountExact (n : Int) : Prop :=
  R.LineExact .start REDIS_PREFIX_MULTI_BULK_REPLY n fun _ r => countOutcome cfg n r

variable {R}

/-- The next call sees what is left in the buffer and the new bytes. -/
theorem refusedBy_iff {buf : NetBuffer} {out : Except Exn Reader}
    {res : Except Exn (β × NetBuffer × Bool)} (h : Receives R.reader R.Waits buf out res) :
    RefusedBy K res ↔ Refused cfg out := by
  cases res with
  | error e =>
      have hout : out = .error e := h
      rw [hout]
      refine ⟨fun _ => refused_error e, ?_⟩
      intro _ k buf b hres
      cases hres
  | ok x =>
      rcases x with ⟨k, buf₁, b⟩
      rcases h with ⟨hout, hcomp, hwaits⟩
      have hdone := R.isDone_reader k buf₁.unread hwaits
      constructor
      · intro hrefused a ha
        rw [hout, Except.ok.injEq] at ha
        subst ha
        rcases hrefused k buf₁ b rfl with ⟨hopen, hnext⟩
        refine ⟨by rw [hdone, hopen], fun c hc => ?_⟩
        -- any buffer with the bytes left over and `c` will do
        rcases NetBuffer.exists_unread (buf₁.unread ++ c) with ⟨buf₂, hvalid, hunread⟩
        rcases hnext buf₂ c hvalid hc hunread with ⟨e, he⟩
        have hrecv := R.recv_refines k buf₁.unread c buf₂ hwaits hopen hvalid hunread
        rw [he] at hrecv
        exact ⟨e, hrecv⟩
      · intro hrefused k' buf' b' hres
        cases hres
        rcases hrefused _ hout with ⟨hopen, hnext⟩
        have hopen' : K.bodyDone k = false := by rw [← hdone, hopen]
        refine ⟨hopen', ?_⟩
        intro buf₂ c hvalid hc hunread
        rcases hnext c hc with ⟨e, he⟩
        have hrecv := R.recv_refines k buf₁.unread c buf₂ hwaits hopen' hvalid hunread
        rw [he] at hrecv
        cases hres : K.recv k buf₂ with
        | error f => exact ⟨f, rfl⟩
        | ok y =>
            rw [hres] at hrecv
            cases hrecv.1

/-- A call tells what its reader has read. -/
theorem receives_iff {buf : NetBuffer} {out out' : Except Exn Reader}
    {res : Except Exn (β × NetBuffer × Bool)} (h : Receives R.reader R.Waits buf out res) :
    Receives R.reader R.Waits buf out' res ↔ out = out' := by
  constructor
  · intro h'
    cases res with
    | error e =>
        have hout : out = .error e := h
        have hout' : out' = .error e := h'
        rw [hout, hout']
    | ok x =>
        rcases x with ⟨k, buf₁, b⟩
        rw [h.1, h'.1]
  · rintro rfl
    exact h

/-- A block that meets a line does what its reader does. -/
theorem Meets.exact_iff {k : β} {buf : NetBuffer} {a : Reader} {line r : Bytes}
    (h : R.Meets k buf a line r) (out : Except Exn Reader) (n : Int) :
    ∃ c l, Lines.splitAfter LF c = some (l, r) ∧ rtrim (a.held ++ l) = line ∧
      ((RefusedBy K (K.recv k buf) ∨
          (-1 ≤ n ∧ Receives R.reader R.Waits buf out (K.recv k buf))) ↔
        (Refused cfg (a.feed cfg c) ∨ (-1 ≤ n ∧ a.feed cfg c = out))) := by
  rcases h with ⟨hopen, hvalid, u, c, l, hwaits, hreader, hunread, hsplit, hline⟩
  have hrecv := R.recv_refines k u c buf hwaits hopen hvalid hunread
  rw [hreader] at hrecv
  exact ⟨c, l, hsplit, hline, by rw [refusedBy_iff hrecv, receives_iff hrecv]⟩

/-! ## Bulk lengths and counts -/

/-- A new block that is given a line and the bytes `r` meets it. -/
theorem exists_meets {line : Bytes} (hline : Clean line) (r : Bytes) :
    ∃ k buf, R.Meets k buf Reader.fresh line r := by
  rcases NetBuffer.exists_unread (line ++ REDIS_LBR ++ r) with ⟨buf, hvalid, hunread⟩
  have hwaits := R.make_waits 0 0
  have hopen : K.bodyDone (K.make 0 0) = false := by
    rw [← R.isDone_reader _ _ hwaits, R.make_reader]
    rfl
  exact ⟨K.make 0 0, buf, hopen, hvalid, [], _, _, hwaits, R.make_reader 0 0, hunread,
    splitAfter_line hline r, rtrim_line hline⟩

/-- In front of a reply it is the first line that decides. -/
theorem lineExact_start_iff {lead : UInt8} (hlead : lead ∉ REDIS_LBR) {n : Int}
    {out : Bytes → Except Exn Reader} :
    R.LineExact .start lead n (fun _ r => out r) ↔
      ∀ txt r, Decimal.IsIntText txt n → Refused cfg (startLine cfg (lead :: txt) r) ∨
        (-1 ≤ n ∧ startLine cfg (lead :: txt) r = out r) := by
  have hfeed : ∀ {a : Reader} {c l r line : Bytes}, a.phase = .start →
      Lines.splitAfter LF c = some (l, r) → rtrim (a.held ++ l) = line →
      a.feed cfg c = startLine cfg line r := by
    intro a c l r line hphase hsplit hline
    simp only [Reader.feed, hphase, hsplit, hline]
  constructor
  · intro h txt r htxt
    rcases exists_meets (R := R) ((clean_of_isIntText htxt).cons hlead) r with ⟨k, buf, hmeets⟩
    rcases hmeets.exact_iff (out r) n with ⟨c, l, hsplit, hline, hiff⟩
    rw [← hfeed rfl hsplit hline]
    exact hiff.mp (h k buf Reader.fresh txt r rfl htxt hmeets)
  · intro h k buf a txt r hphase htxt hmeets
    rcases hmeets.exact_iff (out r) n with ⟨c, l, hsplit, hline, hiff⟩
    rw [hiff, hfeed hphase hsplit hline]
    exact h txt r htxt

variable (R) {n : Int} (hlo : INT_MIN ≤ n) (hhi : n ≤ INT_MAX)
include hlo hhi

/-- From -2, which is refused, to the last length whose sum is an `int`. -/
theorem bulkExact_iff : R.BulkExact n ↔ -2 ≤ n ∧ n ≤ INT_MAX - 2 := by
  unfold BulkExact
  rw [lineExact_start_iff (by decide)]
  constructor
  · intro h
    by_contra hbad
    have hcast : lexicalCast (Decimal.intDecimal n) = .ok n :=
      lexicalCast_eq_ok_iff.mpr ⟨Decimal.isIntText_intDecimal n, hlo, hhi⟩
    apply startLine_bulk_inexact hcast (by omega)
    exact h _ [] (Decimal.isIntText_intDecimal n)
  · rintro ⟨h2, hmax⟩ txt r htxt
    exact startLine_bulk_exact (lexicalCast_eq_ok_iff.mpr ⟨htxt, hlo, hhi⟩) h2 hmax r

/-- No count below -1 is refused, and none of no elements is complete. -/
theorem countExact_iff : R.CountExact n ↔ n = -1 ∨ 1 ≤ n := by
  unfold CountExact
  rw [lineExact_start_iff (by decide)]
  constructor
  · intro h
    by_contra hbad
    have hcast : lexicalCast (Decimal.intDecimal n) = .ok n :=
      lexicalCast_eq_ok_iff.mpr ⟨Decimal.isIntText_intDecimal n, hlo, hhi⟩
    apply startLine_count_inexact hcast hbad
    exact h _ [] (Decimal.isIntText_intDecimal n)
  · intro h txt r htxt
    have hcast : lexicalCast txt = .ok n := lexicalCast_eq_ok_iff.mpr ⟨htxt, hlo, hhi⟩
    exact Or.inr ⟨by omega, startLine_count_exact hcast h r⟩

omit hlo hhi

/-! ## Elements -/

/-- The number on an element line does not depend on its first byte. -/
theorem elementNumber_cons {b : UInt8} {txt : Bytes} {m : Int} (h : lexicalCast txt = .ok m) :
    elementNumber (b :: txt) = .ok m := by
  rw [elementNumber, substr_cons_one, ok_bind, h]

/-- Behind the line of an array of two, a block meets the line of its first element. -/
theorem exists_meets_element {line : Bytes} (hline : Clean line) (r : Bytes) :
    ∃ k buf a, a.phase = .elements 2 ∧ a.held = [] ∧ a.items = [] ∧ R.Meets k buf a line r := by
  rcases NetBuffer.exists_unread (text "*2\r\n") with ⟨buf, hvalid, hunread⟩
  have hwaits := R.make_waits 0 0
  have hopen : K.bodyDone (K.make 0 0) = false := by
    rw [← R.isDone_reader _ _ hwaits, R.make_reader]
    rfl
  have htext : text "2" = Decimal.decimal 2 := by decide
  have hcast : lexicalCast (text "2") = .ok 2 := by
    rw [htext]
    exact lexicalCast_decimal (by decide)
  have hfeed : Reader.fresh.feed cfg (text "*2\r\n") = .ok ⟨.elements 2, [], []⟩ := by
    have hstart : Reader.fresh.feed cfg (text "*2\r\n") =
        startLine cfg (REDIS_PREFIX_MULTI_BULK_REPLY :: text "2") [] := rfl
    rw [hstart, startLine_count hcast, if_neg (by decide)]
    exact (elements_not_refused _ 2 [] []).1
  have hrecv := R.recv_refines _ [] (text "*2\r\n") buf hwaits hopen hvalid hunread
  rw [R.make_reader, hfeed] at hrecv
  cases hres : K.recv (K.make 0 0) buf with
  | error e =>
      rw [hres] at hrecv
      cases hrecv
  | ok x =>
      rcases x with ⟨k, buf₁, b⟩
      rw [hres] at hrecv
      rcases hrecv with ⟨hreader, -, hwaits₁⟩
      rw [Except.ok.injEq] at hreader
      -- the array line is used up
      have hnone : buf₁.unread = [] := by
        have hheld := R.reader_held k buf₁.unread
        rw [← hreader] at hheld
        exact List.suffix_nil.mp hheld
      have hopen₁ : K.bodyDone k = false := by
        rw [← R.isDone_reader _ _ hwaits₁, ← hreader]
        rfl
      rcases NetBuffer.exists_unread (line ++ REDIS_LBR ++ r) with ⟨buf₂, hvalid₂, hunread₂⟩
      rw [hnone] at hreader hwaits₁
      exact ⟨k, buf₂, _, rfl, rfl, rfl, hopen₁, hvalid₂, [], _, _, hwaits₁, hreader.symm, hunread₂,
        splitAfter_line hline r, rtrim_line hline⟩

variable {R}

theorem feed_elements {a : Reader} {count : Nat} (h : a.phase = .elements count) (c : Bytes) :
    a.feed cfg c = elements cfg count a.items a.held c := by
  simp only [Reader.feed, h]

/-- An element line whose awaited length is exact. -/
theorem elementExact_of_le {n : Int} (hlo : -1 ≤ n) (hhi : n ≤ cfg.maxElement) :
    R.ElementExact n := by
  intro count k buf a txt r hphase htxt hmeets
  have hcast : lexicalCast txt = .ok n := by
    refine lexicalCast_eq_ok_iff.mpr ⟨htxt, ?_, hhi.trans cfg.maxElement_le⟩
    simp only [INT_MIN]
    omega
  rcases hmeets.exact_iff (elementOutcome cfg count a.items n r) n with
    ⟨c, l, hsplit, hline, hiff⟩
  rw [hiff, feed_elements hphase]
  have hn : elementNumber (rtrim (a.held ++ l)) = .ok n := by
    rw [hline]
    exact elementNumber_cons hcast
  exact Or.inr ⟨hlo, elements_exact hsplit hn hlo hhi count a.items⟩

/-- An element line behind which `r` is left waiting, although it is too long for that or the
length negative. -/
theorem not_elementExact {n : Int} (hlo : INT_MIN ≤ n) (hhi : n ≤ INT_MAX) {r : Bytes}
    (hwait : takeBody cfg (cfg.elementLen n) [] r = .ok none)
    (hbad : n < -1 ∨ (0 ≤ n ∧ n + 2 = r.length)) : ¬ R.ElementExact n := by
  intro hexact
  have htxt := Decimal.isIntText_intDecimal n
  have hcast : lexicalCast (Decimal.intDecimal n) = .ok n :=
    lexicalCast_eq_ok_iff.mpr ⟨htxt, hlo, hhi⟩
  have hclean : Clean (REDIS_PREFIX_SINGLE_BULK_REPLY :: Decimal.intDecimal n) :=
    (clean_of_isIntText htxt).cons (by decide)
  rcases exists_meets_element R hclean r with ⟨k, buf, a, hphase, hheld, hitems, hmeets⟩
  have hline := hexact 2 k buf a _ r hphase htxt hmeets
  rcases hmeets.exact_iff (elementOutcome cfg 2 a.items n r) n with
    ⟨c, l, hsplit, htrim, hiff⟩
  have hn : elementNumber (rtrim (a.held ++ l)) = .ok n := by
    rw [htrim]
    exact elementNumber_cons hcast
  have hnil : n ≠ -1 := by omega
  have hfeed : a.feed cfg c = .ok ⟨.elements 2, r, a.items⟩ := by
    rw [feed_elements hphase, elements_of_line hsplit hn, if_neg hnil, hwait]
  rw [hiff, hfeed] at hline
  rcases hline with hrefused | ⟨hge, heq⟩
  · exact (elements_not_refused _ 2 a.items r).2 hrefused
  · -- the element is complete, so it counts
    rw [elementOutcome, if_neg hnil, if_neg (by omega), hitems, collect] at heq
    have hone : ¬ ([] ++ [r.take n.toNat]).length = 2 := by simp
    have hdrop : r.drop (n + 2).toNat = [] := List.drop_of_length_le (by omega)
    rw [if_neg hone, hdrop, (elements_not_refused _ 2 _ []).1] at heq
    simp at heq

end ReadsReplies

/-- `RedisParse` computes the awaited length of an element as that of a bulk reply, but meets
-2 without input behind the line as well. -/
theorem RedisBlock2.elementExact_iff {n : Int} (hlo : INT_MIN ≤ n) (hhi : n ≤ INT_MAX) :
    RedisBlock2.readsReplies.ElementExact n ↔ -1 ≤ n ∧ n ≤ INT_MAX - 2 := by
  constructor
  · intro h
    by_contra hbad
    by_cases hneg : n < -1
    · apply ReadsReplies.not_elementExact hlo hhi (r := []) _ (Or.inl hneg) h
      rw [takeBody, if_pos (Or.inr ⟨rfl, rfl⟩)]
    · have hover : INT_MAX - 2 < n := by omega
      have hlarge := RedisParse.readerConfig.elementLen_large n hover hhi
      have hlen : (List.replicate (n + 2).toNat (0 : UInt8)).length = (n + 2).toNat :=
        List.length_replicate
      have hlast : n ≤ 2147483647 := hhi
      simp only [PTRDIFF_MAX] at hlarge
      apply ReadsReplies.not_elementExact hlo hhi (r := List.replicate (n + 2).toNat 0) _ _ h
      · apply takeBody_of_lt
        rw [List.nil_append, hlen]
        omega
      · refine Or.inr ⟨?_, ?_⟩
        · simp only [INT_MAX] at hover
          omega
        · rw [hlen]
          omega
  · rintro ⟨hge, hmax⟩
    exact ReadsReplies.elementExact_of_le hge hmax

/-- `RedisBlock` adds the two as `size_t`, and refuses -2 at once. -/
theorem RedisBlock.elementExact_iff {n : Int} (hlo : INT_MIN ≤ n) (hhi : n ≤ INT_MAX) :
    RedisBlock.readsReplies.ElementExact n ↔ -2 ≤ n := by
  constructor
  · intro h
    by_contra hbad
    apply ReadsReplies.not_elementExact hlo hhi (r := []) _ (Or.inl (by omega)) h
    apply takeBody_of_lt
    change 0 < toSize (toSize n + 2)
    simp only [INT_MIN] at hlo
    simp only [toSize]
    omega
  · intro hge
    by_cases htwo : n = -2
    · subst htwo
      intro count k buf a txt r hphase htxt hmeets
      have hcast : lexicalCast txt = .ok (-2) := lexicalCast_eq_ok_iff.mpr ⟨htxt, hlo, hhi⟩
      rcases hmeets.exact_iff (elementOutcome readerConfig count a.items (-2) r) (-2)
        with ⟨c, l, hsplit, hline, hiff⟩
      have hn : elementNumber (rtrim (a.held ++ l)) = .ok (-2) := by
        rw [hline]
        exact ReadsReplies.elementNumber_cons hcast
      have hlen : readerConfig.elementLen (-2) = 0 := by decide
      have hgo : ¬ (([] ++ r).length < 0 ∨ (r = [] ∧ readerConfig.eager = false)) := by
        rintro (h | ⟨-, h⟩)
        · omega
        · cases h
      rw [hiff, ReadsReplies.feed_elements hphase, elements_of_line hsplit hn, if_neg (by decide),
        hlen, takeBody, if_neg hgo, if_pos (by decide)]
      exact Or.inl (refused_error _)
    · exact ReadsReplies.elementExact_of_le (by omega) hhi

/-! ## Both classes -/

/-- A number on a length or count line is handled exactly, by either class and wherever it
may stand. -/
structure LengthsExact (n : Int) : Prop where
  bulk : RedisBlock.readsReplies.BulkExact n
  bulk2 : RedisBlock2.readsReplies.BulkExact n
  element : RedisBlock.readsReplies.ElementExact n
  element2 : RedisBlock2.readsReplies.ElementExact n
  count : RedisBlock.readsReplies.CountExact n
  count2 : RedisBlock2.readsReplies.CountExact n

/-- Which numbers are handled exactly, for each kind of line and each class. -/
theorem lengths_exact_iff {n : Int} (hlo : INT_MIN ≤ n) (hhi : n ≤ INT_MAX) :
    (LengthsExact n ↔ n = -1 ∨ (1 ≤ n ∧ n ≤ INT_MAX - 2)) ∧
      (RedisBlock.readsReplies.BulkExact n ↔ -2 ≤ n ∧ n ≤ INT_MAX - 2) ∧
      (RedisBlock2.readsReplies.BulkExact n ↔ -2 ≤ n ∧ n ≤ INT_MAX - 2) ∧
      (RedisBlock.readsReplies.ElementExact n ↔ -2 ≤ n) ∧
      (RedisBlock2.readsReplies.ElementExact n ↔ -1 ≤ n ∧ n ≤ INT_MAX - 2) ∧
      (RedisBlock.readsReplies.CountExact n ↔ n = -1 ∨ 1 ≤ n) ∧
      (RedisBlock2.readsReplies.CountExact n ↔ n = -1 ∨ 1 ≤ n) := by
  have hbulk := RedisBlock.readsReplies.bulkExact_iff hlo hhi
  have hbulk2 := RedisBlock2.readsReplies.bulkExact_iff hlo hhi
  have helement := RedisBlock.elementExact_iff hlo hhi
  have helement2 := RedisBlock2.elementExact_iff hlo hhi
  have hcount := RedisBlock.readsReplies.countExact_iff hlo hhi
  have hcount2 := RedisBlock2.readsReplies.countExact_iff hlo hhi
  refine ⟨?_, hbulk, hbulk2, helement, helement2, hcount, hcount2⟩
  constructor
  · intro h
    have h1 := helement2.mp h.element2
    rcases hcount.mp h.count with hnil | hpos
    · exact Or.inl hnil
    · exact Or.inr ⟨hpos, h1.2⟩
  · intro h
    simp only [INT_MAX] at h hbulk hbulk2 helement helement2 hcount hcount2
    exact ⟨hbulk.mpr (by omega), hbulk2.mpr (by omega), helement.mpr (by omega),
      helement2.mpr (by omega), hcount.mpr (by omega), hcount2.mpr (by omega)⟩

end

/-- The number 1, on any line. -/
theorem lengths_exact_one :
    INT_MIN ≤ 1 ∧ (1 : Int) ≤ INT_MAX ∧ LengthsExact 1 :=
  ⟨by decide, by decide, (lengths_exact_iff (n := 1) (by decide) (by decide)).1.mpr (by decide)⟩

/-- The length -3 makes `RedisParse` wait for `2 ^ 64 - 1` bytes and take all later input for
them, the last two lengths wrap, and the count 0 awaits an element. -/
theorem lengths_inexact :
    ¬ RedisBlock2.readsReplies.BulkExact (-3) ∧ ¬ RedisBlock2.readsReplies.BulkExact INT_MAX ∧
      ¬ RedisBlock2.readsReplies.CountExact 0 ∧
      (∀ cs : List Bytes, cs.flatten.length ≤ PTRDIFF_MAX →
        Incremental.feedAll (Reader.feed RedisParse.readerConfig) Reader.fresh
          (text "$-3\r\n" :: cs) = .ok ⟨.body 18446744073709551615, cs.flatten, []⟩) ∧
      Reader.fresh.feed RedisParse.readerConfig (text "$2147483647\r\n") =
        .ok ⟨.body 18446744071562067969, [], []⟩ ∧
      Reader.fresh.feed RedisParse.readerConfig (text "*0\r\n") = .ok ⟨.elements 0, [], []⟩ := by
  have hneg : Reader.fresh.feed RedisParse.readerConfig (text "$-3\r\n") =
      .ok ⟨.body 18446744073709551615, [], []⟩ := by decide +kernel
  refine ⟨?_, ?_, ?_, ?_, by decide +kernel, by decide +kernel⟩
  · rw [RedisBlock2.readsReplies.bulkExact_iff (by decide) (by decide)]
    decide
  · rw [RedisBlock2.readsReplies.bulkExact_iff (by decide) (by decide)]
    decide
  · rw [RedisBlock2.readsReplies.countExact_iff (by decide) (by decide)]
    decide
  · intro cs hcs
    rw [Incremental.feedAll, hneg]
    exact feedAll_body_large (by decide) [] cs hcs

end FannyNet
