import FannyNet.RedisParser

/-!
# The reply reader

What both Redis parsers do, on a stream of bytes and without their buffers: wait
for a line, decide the reply type, wait for a body, collect elements.  The reader
holds every byte it has received and not yet used.  The two parsers differ in
four points, which are the fields of `ReaderConfig`.

Main results:

- Definition `Reader.feed`: one more piece of the stream.
- Theorem `elements_unfold`: the element loop, one element at a time.
- Theorem `Reader.feed_prolongs`: a piece that ends a reply, or fails on it, does
  so whatever follows.
- Theorem `Reader.feed_append_wait`: a piece that leaves a reply open outside an
  array can be cut off there.
-/

namespace FannyNet

open Library

/-- The points in which the two parsers differ, and what the proofs need to know
about them. -/
structure ReaderConfig where
  /-- The value stored for a nil. -/
  missing : Bytes
  /-- The number of bytes awaited for an array element of a given length. -/
  elementLen : Int → Nat
  /-- The largest length of an array element that is awaited exactly. -/
  maxElement : Int
  /-- Whether a body of no bytes completes without any further input. -/
  eager : Bool
  /-- Whether the text of an integer reply must be an `int`. -/
  castsInteger : Bool
  missing_last : ∃ w, missing = w ++ [42]
  missing_LF : LF ∉ missing
  maxElement_le : maxElement ≤ INT_MAX
  elementLen_exact : ∀ n : Int, 0 ≤ n → n ≤ maxElement → elementLen n = n.toNat + 2
  elementLen_large : ∀ n : Int, maxElement < n → n ≤ INT_MAX → PTRDIFF_MAX < elementLen n
  elementLen_tail : ∀ (n : Int) (m k : Nat), 0 ≤ n → n ≤ INT_MAX → elementLen n = m + 2 →
    n = (m % 10 ^ k : Nat) → n = m

/-- What the reader waits for, or the type of the reply it has completed. -/
inductive Phase where
  | start
  | body (len : Nat)
  | elements (count : Nat)
  | done (type : ReplyT)
deriving DecidableEq, Repr

/-- A reader: its phase, the bytes received and not used, the values read. -/
structure Reader where
  phase : Phase
  held : Bytes
  items : List Bytes
deriving DecidableEq, Repr

namespace Reader

/-- The reader before the first byte of a reply. -/
def fresh : Reader := ⟨.start, [], []⟩

/-- The phase is a completed reply. -/
def isDone (a : Reader) : Bool :=
  match a.phase with
  | .done _ => true
  | _ => false

end Reader

section
variable (cfg : ReaderConfig)

/-- A body of `len` bytes, its two terminator bytes cut off, and what follows. -/
def takeBody (len : Nat) (held u : Bytes) : Except Exn (Option (Bytes × Bytes)) :=
  if (held ++ u).length < len ∨ (u = [] ∧ cfg.eager = false) then .ok none
  else if len < 2 then .error .outOfRange
  else .ok (some ((held ++ u).take (len - 2), (held ++ u).drop len))

/-- A single bulk body. -/
def bulkBody (len : Nat) (held u : Bytes) : Except Exn Reader := do
  match ← takeBody cfg len held u with
  | none => .ok ⟨.body len, held ++ u, []⟩
  | some (body, r) => .ok ⟨.done .bulkReply, r, [body]⟩

variable {cfg}

theorem takeBody_length_le {len : Nat} {u body r : Bytes}
    (h : takeBody cfg len [] u = .ok (some (body, r))) : r.length ≤ u.length := by
  unfold takeBody at h
  split at h
  · cases h
  · split at h
    · cases h
    · simp only [Except.ok.injEq, Option.some.injEq, Prod.mk.injEq, List.nil_append] at h
      rw [← h.2, List.length_drop]
      omega

/-! ## Bodies under prolongation -/

/-- Reading on: a failure stays, a completed reply keeps what follows it. -/
def Prolongs (f : Bytes → Except Exn Reader) : Prop :=
  ∀ u y,
    (∀ e, f u = .error e → f (u ++ y) = .error e) ∧
      ∀ a, f u = .ok a → a.isDone = true → f (u ++ y) = .ok { a with held := a.held ++ y }

theorem takeBody_append_some {len : Nat} {held u body r : Bytes}
    (h : takeBody cfg len held u = .ok (some (body, r))) (y : Bytes) :
    takeBody cfg len held (u ++ y) = .ok (some (body, r ++ y)) := by
  unfold takeBody at h ⊢
  split at h
  · cases h
  · rename_i hwait
    rw [not_or, not_lt] at hwait
    split at h
    · cases h
    · rename_i hlen
      simp only [Except.ok.injEq, Option.some.injEq, Prod.mk.injEq] at h
      have hnot : ¬ ((held ++ (u ++ y)).length < len ∨ (u ++ y = [] ∧ cfg.eager = false)) := by
        rw [not_or, not_lt, List.append_eq_nil_iff]
        exact ⟨by rw [← List.append_assoc, List.length_append]; omega,
          fun hy => hwait.2 ⟨hy.1.1, hy.2⟩⟩
      rw [if_neg hnot, if_neg hlen, ← List.append_assoc, List.take_append_of_le_length (by omega),
        List.drop_append_of_le_length hwait.1, h.1, h.2]

theorem takeBody_append_error {len : Nat} {held u : Bytes} {e : Exn}
    (h : takeBody cfg len held u = .error e) (y : Bytes) :
    takeBody cfg len held (u ++ y) = .error e := by
  unfold takeBody at h ⊢
  split at h
  · cases h
  · rename_i hwait
    rw [not_or, not_lt] at hwait
    split at h
    · rename_i hlen
      have hnot : ¬ ((held ++ (u ++ y)).length < len ∨ (u ++ y = [] ∧ cfg.eager = false)) := by
        rw [not_or, not_lt, List.append_eq_nil_iff]
        exact ⟨by rw [← List.append_assoc, List.length_append]; omega,
          fun hy => hwait.2 ⟨hy.1.1, hy.2⟩⟩
      rw [if_neg hnot, if_pos hlen, ← h]
    · cases h

theorem takeBody_append_none {len : Nat} {held u : Bytes}
    (y : Bytes) (hy : y ≠ []) :
    takeBody cfg len held (u ++ y) = takeBody cfg len (held ++ u) y := by
  simp [takeBody, hy]

theorem bulkBody_prolongs (len : Nat) (held : Bytes) : Prolongs (bulkBody cfg len held) := by
  intro u y
  unfold bulkBody
  cases hb : takeBody cfg len held u with
  | error f =>
      rw [takeBody_append_error hb]
      simp [bind, Except.bind]
  | ok out =>
      cases out with
      | none => simp [bind, Except.bind, Reader.isDone]
      | some p =>
          rw [takeBody_append_some hb]
          simp only [bind, Except.bind, reduceCtorEq, false_imp_iff, implies_true, true_and,
            Except.ok.injEq]
          rintro a rfl -
          rfl

/-- An incomplete body goes on where it stopped. -/
theorem bulkBody_append_wait {len : Nat} {held u : Bytes} {a : Reader}
    (h : bulkBody cfg len held u = .ok a) (hwait : a.isDone = false) {y : Bytes} (hy : y ≠ []) :
    a = ⟨.body len, held ++ u, []⟩ ∧
      bulkBody cfg len held (u ++ y) = bulkBody cfg len (held ++ u) y := by
  constructor
  · unfold bulkBody at h
    cases hb : takeBody cfg len held u with
    | error f => simp [hb, bind, Except.bind] at h
    | ok out =>
        cases out with
        | none =>
            simp only [hb, bind, Except.bind, Except.ok.injEq] at h
            exact h.symm
        | some p =>
            simp only [hb, bind, Except.bind, Except.ok.injEq] at h
            subst a
            simp [Reader.isDone] at hwait
  · unfold bulkBody
    rw [takeBody_append_none y hy, List.append_assoc]

variable (cfg) [LexicalCast]

/-- The number on an element line, whatever its first byte is. -/
def elementNumber (line : Bytes) : Except Exn Int := do
  lexicalCast (← substr line 1)

/-- One element: `none` when it is not complete, else its value and what follows.
An incomplete body keeps what has arrived of it, the line is gone. -/
def takeElement (held u : Bytes) : Except Exn (Bytes ⊕ (Bytes × Bytes)) :=
  match Lines.splitAfter LF u with
  | none => .ok (.inl (held ++ u))
  | some (l, r) => do
      let n ← elementNumber (rtrim (held ++ l))
      if n = -1 then .ok (.inr (cfg.missing, r))
      else
        match ← takeBody cfg (cfg.elementLen n) [] r with
        | none => .ok (.inl r)
        | some (body, r') => .ok (.inr (body, r'))

variable {cfg}

/-- The element step behind the line that ends the text. -/
theorem takeElement_of_split {held u l r : Bytes} (hsplit : Lines.splitAfter LF u = some (l, r)) :
    takeElement cfg held u =
      (do
        let n ← elementNumber (rtrim (held ++ l))
        if n = -1 then .ok (.inr (cfg.missing, r))
        else
          match ← takeBody cfg (cfg.elementLen n) [] r with
          | none => .ok (.inl r)
          | some (body, r') => .ok (.inr (body, r'))) := by
  unfold takeElement
  rewrite [hsplit]
  rfl

theorem takeElement_length_lt {held u body r : Bytes}
    (h : takeElement cfg held u = .ok (.inr (body, r))) : r.length < u.length := by
  unfold takeElement at h
  cases hsplit : Lines.splitAfter LF u with
  | none => simp [hsplit] at h
  | some lr =>
      rcases lr with ⟨l, r₀⟩
      have hlt := Lines.splitAfter_length_lt hsplit
      simp only [hsplit] at h
      cases hn : elementNumber (rtrim (held ++ l)) with
      | error e => simp [hn, bind, Except.bind] at h
      | ok n =>
          simp only [hn, bind, Except.bind] at h
          split at h
          · simp only [Except.ok.injEq, Sum.inr.injEq, Prod.mk.injEq] at h
            rw [← h.2]
            exact hlt
          · cases hb : takeBody cfg (cfg.elementLen n) [] r₀ with
            | error e => simp [hb] at h
            | ok out =>
                cases out with
                | none => simp [hb] at h
                | some p =>
                    rcases p with ⟨body', r'⟩
                    simp only [hb, Except.ok.injEq, Sum.inr.injEq, Prod.mk.injEq] at h
                    have := takeBody_length_le hb
                    rw [← h.2]
                    omega

variable (cfg)

/-- The element loop: values are collected until there are `count` of them.  The
count is tested after an element only. -/
def elements (count : Nat) (items : List Bytes) (held u : Bytes) : Except Exn Reader :=
  match _h : takeElement cfg held u with
  | .error e => .error e
  | .ok (.inl rest) => .ok ⟨.elements count, rest, items⟩
  | .ok (.inr (body, r)) =>
      if (items ++ [body]).length = count then .ok ⟨.done .multiBulkReply, r, items ++ [body]⟩
      else elements count (items ++ [body]) [] r
termination_by u.length
decreasing_by exact takeElement_length_lt ‹_›

/-- The element loop, one element at a time. -/
theorem elements_unfold (count : Nat) (items : List Bytes) (held u : Bytes) :
    elements cfg count items held u =
      match takeElement cfg held u with
      | .error e => .error e
      | .ok (.inl rest) => .ok ⟨.elements count, rest, items⟩
      | .ok (.inr (body, r)) =>
          if (items ++ [body]).length = count then
            .ok ⟨.done .multiBulkReply, r, items ++ [body]⟩
          else elements cfg count (items ++ [body]) [] r := by
  rw [elements]
  split <;> simp_all

/-- The first line of a reply, and what follows it. -/
def startLine (line u : Bytes) : Except Exn Reader :=
  match getReplyType line with
  | .noReply => .ok ⟨.done .noReply, u, []⟩
  | .statusCodeReply => do
      let value ← substr line 1
      .ok ⟨.done .statusCodeReply, u, [value]⟩
  | .errorReply => do
      let value ← substr line 4
      .ok ⟨.done .errorReply, u, [value]⟩
  | .intReply => do
      let value ← substr line 1
      if cfg.castsInteger then
        let _ ← lexicalCast value
        .ok ⟨.done .intReply, u, [value]⟩
      else .ok ⟨.done .intReply, u, [value]⟩
  | .bulkReply => do
      let n ← lexicalCast (← substr line 1)
      if n = -1 then .ok ⟨.done .bulkReply, u, [cfg.missing]⟩
      else bulkBody cfg (toSize (intAdd n 2)) [] u
  | .multiBulkReply => do
      let n ← lexicalCast (← substr line 1)
      if n = -1 then .ok ⟨.done .multiBulkReply, u, []⟩
      else elements cfg (toSize n) [] [] u

/-- One more piece of the stream. -/
def Reader.feed (a : Reader) (c : Bytes) : Except Exn Reader :=
  match a.phase with
  | .start =>
      match Lines.splitAfter LF c with
      | none => .ok { a with held := a.held ++ c }
      | some (l, r) => startLine cfg (rtrim (a.held ++ l)) r
  | .body len => bulkBody cfg len a.held c
  | .elements count => elements cfg count a.items a.held c
  | .done _ => .ok { a with held := a.held ++ c }

/-! ## Prolonging a piece -/

variable {cfg}

/-- Induction along an element loop that does not throw: it waits for more input, its last
element is complete, or it goes on behind one. -/
theorem elements_induction {count : Nat} {a : Reader} {C : List Bytes → Bytes → Bytes → Prop}
    (hwait : ∀ items held u rest, takeElement cfg held u = .ok (.inl rest) →
      a = ⟨.elements count, rest, items⟩ → C items held u)
    (hlast : ∀ items held u body r, takeElement cfg held u = .ok (.inr (body, r)) →
      (items ++ [body]).length = count → a = ⟨.done .multiBulkReply, r, items ++ [body]⟩ →
      C items held u)
    (hmore : ∀ items held u body r, takeElement cfg held u = .ok (.inr (body, r)) →
      (items ++ [body]).length ≠ count → C (items ++ [body]) [] r → C items held u)
    {items : List Bytes} {held u : Bytes} (h : elements cfg count items held u = .ok a) :
    C items held u := by
  induction hlen : u.length using Nat.strong_induction_on generalizing items held u with
  | _ n ih =>
      subst n
      rw [elements_unfold] at h
      cases helem : takeElement cfg held u with
      | error e => simp [helem] at h
      | ok out =>
          cases out with
          | inl rest =>
              simp only [helem, Except.ok.injEq] at h
              exact hwait items held u rest helem h.symm
          | inr p =>
              rcases p with ⟨body, r⟩
              simp only [helem] at h
              by_cases hcount : (items ++ [body]).length = count
              · rw [if_pos hcount, Except.ok.injEq] at h
                exact hlast items held u body r helem hcount h.symm
              · rw [if_neg hcount] at h
                have hrest := ih r.length (takeElement_length_lt helem) h rfl
                exact hmore items held u body r helem hcount hrest

theorem takeElement_append_value {held u body r : Bytes}
    (h : takeElement cfg held u = .ok (.inr (body, r))) (y : Bytes) :
    takeElement cfg held (u ++ y) = .ok (.inr (body, r ++ y)) := by
  unfold takeElement at h ⊢
  cases hsplit : Lines.splitAfter LF u with
  | none => simp [hsplit] at h
  | some lr =>
      rcases lr with ⟨l, r₀⟩
      rw [hsplit] at h
      rw [Lines.splitAfter_append_right hsplit]
      simp only at h ⊢
      cases hn : elementNumber (rtrim (held ++ l)) with
      | error e => simp [hn, bind, Except.bind] at h
      | ok n =>
          simp only [hn, bind, Except.bind] at h ⊢
          split at h
          · rename_i hnil
            simp only [Except.ok.injEq, Sum.inr.injEq, Prod.mk.injEq] at h
            rw [if_pos hnil, h.1, h.2]
          · rename_i hbulk
            rw [if_neg hbulk]
            cases hb : takeBody cfg (cfg.elementLen n) [] r₀ with
            | error e => simp [hb] at h
            | ok out =>
                cases out with
                | none => simp [hb] at h
                | some p =>
                    rcases p with ⟨body', r'⟩
                    simp only [hb, Except.ok.injEq, Sum.inr.injEq, Prod.mk.injEq] at h
                    rw [takeBody_append_some hb, h.1, h.2]

theorem takeElement_append_error {held u : Bytes} {e : Exn}
    (h : takeElement cfg held u = .error e) (y : Bytes) :
    takeElement cfg held (u ++ y) = .error e := by
  unfold takeElement at h ⊢
  cases hsplit : Lines.splitAfter LF u with
  | none => simp [hsplit] at h
  | some lr =>
      rcases lr with ⟨l, r₀⟩
      rw [hsplit] at h
      rw [Lines.splitAfter_append_right hsplit]
      simp only at h ⊢
      cases hn : elementNumber (rtrim (held ++ l)) with
      | error f => simpa [hn, bind, Except.bind] using h
      | ok n =>
          simp only [hn, bind, Except.bind] at h ⊢
          split at h
          · cases h
          · rename_i hbulk
            rw [if_neg hbulk]
            cases hb : takeBody cfg (cfg.elementLen n) [] r₀ with
            | error f =>
                rw [takeBody_append_error hb]
                simpa [hb] using h
            | ok out =>
                cases out with
                | none => simp [hb] at h
                | some p => simp [hb] at h

/-- Held bytes without a line feed may as well be still unread. -/
theorem takeElement_held {w : Bytes} (hw : LF ∉ w) (held u : Bytes) :
    takeElement cfg (held ++ w) u = takeElement cfg held (w ++ u) := by
  unfold takeElement
  rw [Lines.splitAfter_append_left hw]
  cases Lines.splitAfter LF u with
  | none => simp
  | some lr => simp

theorem elements_held {w : Bytes} (hw : LF ∉ w) (count : Nat) (items : List Bytes)
    (held u : Bytes) :
    elements cfg count items (held ++ w) u = elements cfg count items held (w ++ u) := by
  rw [elements_unfold, elements_unfold cfg count items held, takeElement_held hw]

/-- While a line is awaited, held bytes without a line feed may as well be still
unread. -/
theorem Reader.feed_held {w : Bytes} (hw : LF ∉ w) {phase : Phase}
    (hphase : phase = .start ∨ ∃ count, phase = .elements count) (held u : Bytes)
    (items : List Bytes) :
    (⟨phase, held ++ w, items⟩ : Reader).feed cfg u =
      (⟨phase, held, items⟩ : Reader).feed cfg (w ++ u) := by
  rcases hphase with rfl | ⟨count, rfl⟩
  · simp only [Reader.feed]
    rw [Lines.splitAfter_append_left hw]
    cases Lines.splitAfter LF u with
    | none => simp
    | some lr => simp
  · exact elements_held hw count items held u

theorem elements_prolongs (count : Nat) (items : List Bytes) (held : Bytes) :
    Prolongs (elements cfg count items held) := by
  intro u y
  induction hlen : u.length using Nat.strong_induction_on generalizing items held u with
  | _ n ih =>
      subst n
      rw [elements_unfold, elements_unfold cfg count items held (u ++ y)]
      cases helem : takeElement cfg held u with
      | error e => simp [takeElement_append_error helem]
      | ok out =>
          cases out with
          | inl rest => simp [Reader.isDone]
          | inr p =>
              rcases p with ⟨body, r⟩
              simp only [takeElement_append_value helem]
              by_cases hcount : (items ++ [body]).length = count
              · simp only [if_pos hcount, reduceCtorEq, false_imp_iff, implies_true, true_and,
                  Except.ok.injEq]
                rintro a rfl -
                rfl
              · simp only [if_neg hcount]
                exact ih r.length (takeElement_length_lt helem) (items ++ [body]) [] r rfl

/-- What a first line makes of the bytes behind it: it throws, completes its reply, or goes
on with the body or the elements. -/
inductive LineShape (cfg : ReaderConfig) : (Bytes → Except Exn Reader) → Prop where
  | error (e : Exn) : LineShape cfg fun _ => .error e
  | done (t : ReplyT) (items : List Bytes) : LineShape cfg fun u => .ok ⟨.done t, u, items⟩
  | body (len : Nat) : LineShape cfg (bulkBody cfg len [])
  | elements (count : Nat) : LineShape cfg (elements cfg count [] [])

theorem startLine_shape (line : Bytes) : LineShape cfg (startLine cfg line) := by
  -- the value behind the first bytes of the line, and the number there
  have hvalue : ∀ (i : Nat) (f : Bytes → Bytes → Except Exn Reader),
      (∀ v, LineShape cfg (f v)) → LineShape cfg fun u => (do let v ← substr line i; f v u) := by
    intro i f hf
    cases hs : substr line i with
    | error e => exact .error e
    | ok v => exact hf v
  have hnumber : ∀ (v : Bytes) (f : Int → Bytes → Except Exn Reader),
      (∀ n, LineShape cfg (f n)) → LineShape cfg fun u => (do let n ← lexicalCast v; f n u) := by
    intro v f hf
    cases hn : lexicalCast v with
    | error e => exact .error e
    | ok n => exact hf n
  unfold startLine
  cases getReplyType line with
  | noReply => exact .done .noReply []
  | statusCodeReply => exact hvalue _ _ fun v => .done .statusCodeReply [v]
  | errorReply => exact hvalue _ _ fun v => .done .errorReply [v]
  | intReply =>
      refine hvalue _ _ fun v => ?_
      cases cfg.castsInteger with
      | false => exact .done .intReply [v]
      | true => exact hnumber v _ fun _ => .done .intReply [v]
  | bulkReply =>
      refine hvalue _ _ fun v => hnumber v _ fun n => ?_
      by_cases hnil : n = -1
      · simp only [if_pos hnil]
        exact .done .bulkReply [cfg.missing]
      · simp only [if_neg hnil]
        exact .body _
  | multiBulkReply =>
      refine hvalue _ _ fun v => hnumber v _ fun n => ?_
      by_cases hnil : n = -1
      · simp only [if_pos hnil]
        exact .done .multiBulkReply []
      · simp only [if_neg hnil]
        exact .elements _

theorem LineShape.prolongs {f : Bytes → Except Exn Reader} (h : LineShape cfg f) : Prolongs f := by
  cases h with
  | error e =>
      intro u y
      simp
  | done t items =>
      intro u y
      refine ⟨by simp, ?_⟩
      rintro a ha -
      cases ha
      rfl
  | body len => exact bulkBody_prolongs len []
  | elements count => exact elements_prolongs count [] []

/-- A reply that is still open can be prolonged at will, and so can a failure. -/
theorem Reader.feed_prolongs {a : Reader} (ha : a.isDone = false) : Prolongs (a.feed cfg) := by
  rcases a with ⟨phase, held, items⟩
  cases phase with
  | start =>
      intro u y
      simp only [Reader.feed]
      cases hsplit : Lines.splitAfter LF u with
      | none => simp [Reader.isDone]
      | some lr =>
          rcases lr with ⟨l, r⟩
          rw [Lines.splitAfter_append_right hsplit]
          exact (startLine_shape (rtrim (held ++ l))).prolongs r y
  | body len => exact bulkBody_prolongs len held
  | elements count => exact elements_prolongs count items held
  | done t => simp [Reader.isDone] at ha

/-- The element loop never leaves its phase except by completing. -/
theorem elements_phase {count : Nat} {items : List Bytes} {held u : Bytes} {a : Reader}
    (h : elements cfg count items held u = .ok a) :
    a.phase = .elements count ∨ a.phase = .done .multiBulkReply := by
  refine elements_induction (C := fun _ _ _ => _) ?_ ?_ ?_ h
  · rintro items held u rest - rfl
    exact Or.inl rfl
  · rintro items held u body r - - rfl
    exact Or.inr rfl
  · intro items held u body r _ _ hrest
    exact hrest

/-- A first line leaves a reply open outside an array only for a bulk body. -/
theorem LineShape.append_wait {f : Bytes → Except Exn Reader} (hf : LineShape cfg f) {u : Bytes}
    {b : Reader} (h : f u = .ok b) (hb : b.phase = .start ∨ ∃ len, b.phase = .body len)
    {y : Bytes} (hy : y ≠ []) : f (u ++ y) = b.feed cfg y := by
  cases hf with
  | error e => cases h
  | done t items =>
      cases h
      simp at hb
  | body len =>
      have hopen : b.isDone = false := by
        rcases hb with hb | ⟨len, hb⟩ <;> simp [Reader.isDone, hb]
      rcases bulkBody_append_wait h hopen hy with ⟨rfl, hgo⟩
      simpa [Reader.feed] using hgo
  | elements count => rcases elements_phase h with hphase | hphase <;> simp [hphase] at hb

/-- Outside an array, an open reply goes on where it stopped. -/
theorem Reader.feed_append_wait {a b : Reader} {u y : Bytes} (h : a.feed cfg u = .ok b)
    (hb : b.phase = .start ∨ ∃ len, b.phase = .body len) (hy : y ≠ []) :
    a.feed cfg (u ++ y) = b.feed cfg y := by
  rcases a with ⟨phase, held, items⟩
  cases phase with
  | start =>
      simp only [Reader.feed] at h ⊢
      cases hsplit : Lines.splitAfter LF u with
      | none =>
          simp only [hsplit, Except.ok.injEq] at h
          subst b
          rw [Lines.splitAfter_append_left (Lines.splitAfter_eq_none_iff.mp hsplit)]
          cases Lines.splitAfter LF y <;> simp
      | some lr =>
          rcases lr with ⟨l, r⟩
          rw [Lines.splitAfter_append_right hsplit]
          simp only [hsplit] at h
          exact (startLine_shape (rtrim (held ++ l))).append_wait h hb hy
  | body len =>
      have hopen : b.isDone = false := by
        rcases hb with hb | ⟨len', hb⟩ <;> simp [Reader.isDone, hb]
      rcases bulkBody_append_wait h hopen hy with ⟨rfl, hgo⟩
      exact hgo
  | elements count =>
      simp only [Reader.feed] at h
      rcases elements_phase h with hphase | hphase <;> simp [hphase] at hb
  | done t =>
      simp only [Reader.feed, Except.ok.injEq] at h
      subst b
      simp at hb

end

end FannyNet
