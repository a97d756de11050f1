import FannyNet.ReadLoop
import FannyNet.ReplyClass

/-!
# Streams of replies

The reply reader as a decoder of a stream of replies: a completed reply is a message,
and reading starts anew behind it.  Both Redis classes decode their stream this way.

Main results:

- Definition `Reader.Open`: what a reader that waits looks like.
- Theorem `lawful_replyDecoder`: the laws of the decoder.
- Definition `ReadsReplies.decodes`: a class that reads replies decodes its stream.
-/

namespace FannyNet

open Library

/-- A reader that waits: no reply is complete, and the part of a single bulk body that
has arrived is not the whole of it. -/
def Reader.Open (cfg : ReaderConfig) (a : Reader) : Prop :=
  match a.phase with
  | .start => True
  | .body len => a.items = [] ∧ (a.held.length < len ∨ (len < 2 ∧ cfg.eager = false))
  | .elements _ => True
  | .done _ => False

theorem Reader.Open.isDone_eq {cfg : ReaderConfig} {a : Reader} (h : a.Open cfg) :
    a.isDone = false := by
  unfold Reader.Open at h
  unfold Reader.isDone
  split
  · rename_i heq
    rw [heq] at h
    exact h.elim
  · rfl

section
variable {cfg : ReaderConfig} [LexicalCast]

/-! ## What a feeding step leaves -/

omit [LexicalCast] in
/-- A body is awaited, or cut off with its terminator. -/
theorem bulkBody_ok {len : Nat} {held u : Bytes} {a : Reader}
    (h : bulkBody cfg len held u = .ok a) :
    (a = ⟨.body len, held ++ u, []⟩ ∧
        ((held ++ u).length < len ∨ (u = [] ∧ cfg.eager = false))) ∨
      (2 ≤ len ∧ len ≤ (held ++ u).length ∧ a.isDone = true ∧ a.held = (held ++ u).drop len) := by
  unfold bulkBody takeBody at h
  by_cases hwait : (held ++ u).length < len ∨ (u = [] ∧ cfg.eager = false)
  · rw [if_pos hwait, ok_bind, Except.ok.injEq] at h
    exact Or.inl ⟨h.symm, hwait⟩
  · rw [if_neg hwait] at h
    rw [not_or, not_lt] at hwait
    by_cases hlen : len < 2
    · rw [if_pos hlen, error_bind] at h
      cases h
    · rw [if_neg hlen, ok_bind, Except.ok.injEq] at h
      subst h
      exact Or.inr ⟨by omega, hwait.1, rfl, rfl⟩

/-- The element loop waits for another element, or has used up part of its input. -/
theorem elements_ok {count : Nat} {items : List Bytes} {held u : Bytes} {a : Reader}
    (h : elements cfg count items held u = .ok a) :
    a.phase = .elements count ∨ (a.isDone = true ∧ a.held.length < u.length) := by
  refine elements_induction (C := fun _ _ u => a.phase = .elements count ∨
    (a.isDone = true ∧ a.held.length < u.length)) ?_ ?_ ?_ h
  · rintro items held u rest - rfl
    exact Or.inl rfl
  · rintro items held u body r helem - rfl
    exact Or.inr ⟨rfl, takeElement_length_lt helem⟩
  · intro items held u body r helem _ hrest
    have hlt := takeElement_length_lt helem
    exact hrest.imp_right fun hdone => ⟨hdone.1, hdone.2.trans hlt⟩

/-- A first line completes its reply, or goes on with the body or the elements. -/
theorem startLine_cases {line u : Bytes} {a : Reader} (h : startLine cfg line u = .ok a) :
    (a.isDone = true ∧ a.held = u) ∨ (∃ len, bulkBody cfg len [] u = .ok a) ∨
      ∃ count, elements cfg count [] [] u = .ok a := by
  have hshape : LineShape cfg (startLine cfg line) := startLine_shape line
  generalize startLine cfg line = f at h hshape
  cases hshape with
  | error e => cases h
  | done t items =>
      cases h
      exact Or.inl ⟨rfl, rfl⟩
  | body len => exact Or.inr (Or.inl ⟨len, h⟩)
  | elements count => exact Or.inr (Or.inr ⟨count, h⟩)

/-- A first line completes its reply, or waits behind it. -/
theorem startLine_ok {line u : Bytes} {a : Reader} (h : startLine cfg line u = .ok a) :
    (a.Open cfg ∧ a.phase ≠ .start) ∨ (a.isDone = true ∧ a.held.length ≤ u.length) := by
  rcases startLine_cases h with ⟨hdone, hheld⟩ | ⟨len, hbody⟩ | ⟨count, helements⟩
  · -- a line that completes its reply leaves everything behind it
    refine Or.inr ⟨hdone, ?_⟩
    rw [hheld]
  · rcases bulkBody_ok hbody with ⟨rfl, hwait⟩ | ⟨-, -, hdone, hheld⟩
    · refine Or.inl ⟨⟨rfl, ?_⟩, by simp⟩
      rcases hwait with hlt | ⟨rfl, heager⟩
      · exact Or.inl hlt
      · by_cases hzero : len < 2
        · exact Or.inr ⟨hzero, heager⟩
        · exact Or.inl (by simp; omega)
    · refine Or.inr ⟨hdone, ?_⟩
      rw [hheld, List.nil_append, List.length_drop]
      omega
  · rcases elements_ok helements with hphase | ⟨hdone, hheld⟩
    · refine Or.inl ⟨?_, by simp [hphase]⟩
      simp [Reader.Open, hphase]
    · exact Or.inr ⟨hdone, by omega⟩

/-- A step of a reader that waits: it waits again, past the first line or with all it
was given, or it has completed a reply with some of the new bytes. -/
theorem Reader.feed_ok {a a' : Reader} (ha : a.Open cfg) {c : Bytes}
    (h : a.feed cfg c = .ok a') :
    (a'.Open cfg ∧ (a'.phase ≠ .start ∨ a' = { a with held := a.held ++ c })) ∨
      (a'.isDone = true ∧ a'.held.length < c.length) := by
  rcases a with ⟨phase, held, items⟩
  cases phase with
  | start =>
      simp only [Reader.feed] at h
      cases hsplit : Lines.splitAfter LF c with
      | none =>
          simp only [hsplit, Except.ok.injEq] at h
          subst h
          exact Or.inl ⟨trivial, Or.inr rfl⟩
      | some lr =>
          rcases lr with ⟨l, r⟩
          have hlt := Lines.splitAfter_length_lt hsplit
          simp only [hsplit] at h
          rcases startLine_ok h with ⟨hopen, hphase⟩ | ⟨hdone, hheld⟩
          · exact Or.inl ⟨hopen, Or.inl hphase⟩
          · exact Or.inr ⟨hdone, by omega⟩
  | body len =>
      simp only [Reader.feed] at h
      rcases ha with ⟨hitems, hpart⟩
      rcases bulkBody_ok h with ⟨rfl, hwait⟩ | ⟨hlen, hle, hdone, hheld⟩
      · refine Or.inl ⟨⟨rfl, ?_⟩, Or.inl (by simp)⟩
        rcases hwait with hlt | ⟨rfl, -⟩
        · exact Or.inl hlt
        · rw [List.append_nil]
          exact hpart
      · refine Or.inr ⟨hdone, ?_⟩
        simp only at hpart
        rw [List.length_append] at hle
        rw [hheld, List.length_drop, List.length_append]
        omega
  | elements count =>
      simp only [Reader.feed] at h
      rcases elements_ok h with hphase | hdone
      · refine Or.inl ⟨?_, Or.inl (by simp [hphase])⟩
        simp [Reader.Open, hphase]
      · exact Or.inr hdone
  | done t => exact ha.elim

/-- Without new bytes a reader that waits stays as it is. -/
theorem Reader.feed_nil {a : Reader} (ha : a.Open cfg) : a.feed cfg [] = .ok a := by
  rcases a with ⟨phase, held, items⟩
  cases phase with
  | start => simp [Reader.feed]
  | body len =>
      rcases ha with ⟨hitems, hpart⟩
      simp only at hitems hpart
      have hwait : (held ++ []).length < len ∨ (([] : Bytes) = [] ∧ cfg.eager = false) := by
        rcases hpart with hlt | ⟨-, heager⟩
        · rw [List.append_nil]
          exact Or.inl hlt
        · exact Or.inr ⟨rfl, heager⟩
      have hbody : takeBody cfg len held [] = .ok none := if_pos hwait
      simp [Reader.feed, bulkBody, hbody, hitems]
  | elements count =>
      simp only [Reader.feed]
      rw [elements_unfold, takeElement]
      simp
  | done t => exact ha.elim

/-! ## The decoder -/

variable (cfg)

/-- The reader as a decoder: a message is a completed reply, its type and values. -/
def replyDecoder : Decoder UInt8 Reader (ReplyT × List Bytes) Exn where
  init := Reader.fresh
  feed a c := do
    let a ← a.feed cfg c
    match a.phase with
    | .done t => .ok (.inr ((t, a.items), a.held))
    | _ => .ok (.inl a)

variable {cfg}

theorem feed_replyDecoder_of_error {a : Reader} {c : Bytes} {e : Exn}
    (h : a.feed cfg c = .error e) : (replyDecoder cfg).feed a c = .error e := by
  simp [replyDecoder, h]

theorem feed_replyDecoder_of_done {a : Reader} {c : Bytes} {t : ReplyT} {rest : Bytes}
    {items : List Bytes} (h : a.feed cfg c = .ok ⟨.done t, rest, items⟩) :
    (replyDecoder cfg).feed a c = .ok (.inr ((t, items), rest)) := by
  simp [replyDecoder, h]

theorem feed_replyDecoder_of_open {a a' : Reader} {c : Bytes} (h : a.feed cfg c = .ok a')
    (hopen : a'.isDone = false) : (replyDecoder cfg).feed a c = .ok (.inl a') := by
  rcases a' with ⟨phase, held, items⟩
  cases phase with
  | done t => cases hopen
  | start => simp [replyDecoder, h]
  | body len => simp [replyDecoder, h]
  | elements count => simp [replyDecoder, h]

variable (cfg) in
/-- The three outcomes of a step. -/
theorem feed_replyDecoder_cases (a : Reader) (c : Bytes) :
    (∃ e, a.feed cfg c = .error e ∧ (replyDecoder cfg).feed a c = .error e) ∨
      (∃ a', a.feed cfg c = .ok a' ∧ a'.isDone = false ∧
        (replyDecoder cfg).feed a c = .ok (.inl a')) ∨
      ∃ t rest items, a.feed cfg c = .ok ⟨.done t, rest, items⟩ ∧
        (replyDecoder cfg).feed a c = .ok (.inr ((t, items), rest)) := by
  cases h : a.feed cfg c with
  | error e => exact Or.inl ⟨e, rfl, feed_replyDecoder_of_error h⟩
  | ok a' =>
      cases hdone : a'.isDone with
      | false => exact Or.inr (Or.inl ⟨a', rfl, hdone, feed_replyDecoder_of_open h hdone⟩)
      | true =>
          rcases a' with ⟨phase, held, items⟩
          cases phase with
          | done t => exact Or.inr (Or.inr ⟨t, held, items, rfl, feed_replyDecoder_of_done h⟩)
          | start => cases hdone
          | body len => cases hdone
          | elements count => cases hdone

theorem lawful_replyDecoder : (replyDecoder cfg).Lawful (Reader.Open cfg) where
  init := trivial
  nil := by
    intro a ha
    exact feed_replyDecoder_of_open (Reader.feed_nil ha) ha.isDone_eq
  wait := by
    intro a c a' ha hfeed
    rcases feed_replyDecoder_cases cfg a c with ⟨e, -, h⟩ | ⟨b, hb, hopen, h⟩ | ⟨t, r, vs, -, h⟩
    · simp [h] at hfeed
    · rw [h, Except.ok.injEq, Sum.inl.injEq] at hfeed
      subst hfeed
      rcases Reader.feed_ok ha hb with ⟨hb', -⟩ | ⟨hdone, -⟩
      · exact hb'
      · simp [hdone] at hopen
    · simp [h] at hfeed
  forward := by
    intro a c a' ha hc hfeed
    rcases feed_replyDecoder_cases cfg a c with ⟨e, -, h⟩ | ⟨b, hb, hopen, h⟩ | ⟨t, r, vs, -, h⟩
    · simp [h] at hfeed
    · rw [h, Except.ok.injEq, Sum.inl.injEq] at hfeed
      subst hfeed
      rcases Reader.feed_ok ha hb with ⟨-, hphase | rfl⟩ | ⟨hdone, -⟩
      · rintro rfl
        exact hphase rfl
      · intro heq
        have hheld : a.held ++ c = [] := congrArg Reader.held heq
        exact hc (List.append_eq_nil_iff.mp hheld).2
      · simp [hdone] at hopen
    · simp [h] at hfeed
  progress := by
    intro a c m r ha hfeed
    rcases feed_replyDecoder_cases cfg a c with
      ⟨e, -, h⟩ | ⟨b, hb, hopen, h⟩ | ⟨t, rest, vs, hb, h⟩
    · simp [h] at hfeed
    · simp [h] at hfeed
    · simp only [h, Except.ok.injEq, Sum.inr.injEq, Prod.mk.injEq] at hfeed
      rcases Reader.feed_ok ha hb with ⟨hopen, -⟩ | ⟨-, hlt⟩
      · exact hopen.elim
      · rw [← hfeed.2]
        exact hlt

/-! ## Classes that read replies -/

/-- A class that reads replies decodes its stream. -/
def ReadsReplies.decodes {β : Type} {K : BlockClass β} (R : ReadsReplies K cfg) :
    Decodes K (replyDecoder cfg) where
  Open := Reader.Open cfg
  lawful := lawful_replyDecoder
  Waits a k u := R.Waits k u ∧ R.reader k u = a ∧ a.Open cfg
  Shows m k := R.type k = m.1 ∧ R.recvList k = m.2
  waits_open a k u h := h.2.2
  make_waits s := ⟨R.make_waits s 0, R.make_reader s 0, trivial⟩
  init_waits := by
    rintro k u ⟨-, hreader, -⟩
    have hheld := R.reader_held k u
    rw [hreader] at hheld
    exact List.suffix_nil.mp hheld
  recv := by
    rintro a k u c buf ⟨hwaits, rfl, hopen⟩ hbuf - hunread
    have hdone : K.bodyDone k = false := by rw [← R.isDone_reader k u hwaits, hopen.isDone_eq]
    have hrecv := R.recv_refines k u c buf hwaits hdone hbuf hunread
    rcases feed_replyDecoder_cases cfg (R.reader k u) c with
      ⟨e, hfeed, h⟩ | ⟨a', hfeed, hopen', h⟩ | ⟨t, rest, items, hfeed, h⟩
    · rw [h]
      cases hres : K.recv k buf with
      | error f =>
          rw [hres, hfeed] at hrecv
          rw [Except.error.inj hrecv]
          rfl
      | ok x =>
          rw [hres, hfeed] at hrecv
          cases hrecv.1
    · rw [h]
      cases hres : K.recv k buf with
      | error f =>
          rw [hres, hfeed] at hrecv
          cases hrecv
      | ok x =>
          rcases x with ⟨k', buf', r⟩
          rw [hres, hfeed] at hrecv
          rcases hrecv with ⟨hreader, hcomp, hwaits'⟩
          have hreader' : R.reader k' buf'.unread = a' := (Except.ok.inj hreader).symm
          have hleft : a'.Open cfg := by
            rcases Reader.feed_ok hopen hfeed with ⟨hleft, -⟩ | ⟨hisDone, -⟩
            · exact hleft
            · simp [hisDone] at hopen'
          refine ⟨k', buf', r, rfl, hcomp, ?_, hwaits', hreader', hleft⟩
          rw [← R.isDone_reader k' _ hwaits', hreader', hopen']
    · rw [h]
      cases hres : K.recv k buf with
      | error f =>
          rw [hres, hfeed] at hrecv
          cases hrecv
      | ok x =>
          rcases x with ⟨k', buf', r⟩
          rw [hres, hfeed] at hrecv
          rcases hrecv with ⟨hreader, hcomp, hwaits'⟩
          have hreader' : R.reader k' buf'.unread = ⟨.done t, rest, items⟩ :=
            (Except.ok.inj hreader).symm
          have hdone' : K.bodyDone k' = true := by
            rw [← R.isDone_reader k' _ hwaits', hreader']
            rfl
          rw [R.reader_done k' _ hwaits' hdone'] at hreader'
          simp only [Reader.mk.injEq, Phase.done.injEq] at hreader'
          exact ⟨k', buf', r, rfl, hcomp, hdone', ⟨hreader'.1, hreader'.2.2⟩, hreader'.2.1⟩

end

end FannyNet
