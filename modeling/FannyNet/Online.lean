import FannyNet.Library.Index
import FannyNet.NetService

/-!
# The two tables of connections

A connection that is online stands in `m_onlines` of its net, which keeps it, and in
`m_onlines` of the pool, which finds it by its session id.  Both change together, in front
of the callback that reports a connection and behind the one that reports its end.

Main results:

- Definition `NetService.Sound`: the pool's table is an index of the nets' sets.
- Theorem `NetService.Sound.step`: every step keeps that.
- Theorem `NetService.pool_of_run`: the pool of `TcpObj`, after any run of the service.
- Theorem `NetService.tables_agree`: the two tables after any run.
-/

namespace FannyNet

open Library Library.Transition

namespace NetService

/-- `onlines()` of the net with that name. -/
def onlines (t : NetService) (name : NetName) : Finset ConnectPtr :=
  ((t.nets.lookup name).map NetObject.onlines).getD ∅

/-- A connection that was created by the net with that name. -/
def Belongs (t : NetService) (name : NetName) (c : ConnectPtr) : Prop :=
  t.conns[c]?.map Origin.net = some name

/-- Session ids are not used twice, a net keeps connections of its own only, and the pool's
table is an index of the nets' sets. -/
structure Sound (t : NetService) : Prop where
  ids_le : ∀ o ∈ t.conns, o.session ≤ t.pool.curSessionId
  ids_nodup : (t.conns.map Origin.session).Nodup
  keeps : ∀ name net, t.nets.lookup name = some net → ∀ c, net.Keeps c → t.Belongs name c
  indexes : Indexes t.id t.pool.onlines t.onlines

theorem sound_create : create.Sound where
  ids_le := by simp [create]
  ids_nodup := by simp [create]
  keeps := by simp [create]
  indexes := by
    have hnone : create.onlines = fun _ => ∅ := by
      funext name
      simp [onlines, create]
    rw [hnone]
    exact Indexes.empty

variable {t t' : NetService} {name : NetName} {net : NetObject} {c : ConnectPtr}

theorem onlines_of_lookup (h : t.nets.lookup name = some net) : t.onlines name = net.onlines := by
  rw [onlines, h]
  rfl

theorem onlines_setNet (t : NetService) (name : NetName) (net : NetObject) :
    (t.setNet name net).onlines = Function.update t.onlines name net.onlines := by
  funext other
  by_cases hother : other = name
  · subst hother
    rw [onlines, setNet, AList.lookup_insert, Function.update_self]
    rfl
  · rw [Function.update_of_ne hother, onlines, onlines, setNet, AList.lookup_insert_ne hother]

theorem lookup_setNet (t : NetService) (name : NetName) (net : NetObject) :
    (t.setNet name net).nets.lookup name = some net :=
  AList.lookup_insert t.nets

theorem NetObject.keeps_of_mem_events {e : TcpEvent} (he : e ∈ net.events) (hc : e.conn = some c) :
    net.Keeps c :=
  Or.inr (Or.inr ⟨e, he, hc⟩)

/-- The events of a poll, run or not, are kept. -/
theorem NetObject.keeps_of_mem_poll {e : TcpEvent} {p : Polling} (hp : p ∈ net.polls)
    (he : e ∈ p.ran ++ p.todo) (hc : e.conn = some c) : net.Keeps c := by
  apply NetObject.keeps_of_mem_events (e := e) _ hc
  rw [NetObject.events, List.mem_append, List.mem_flatMap]
  exact Or.inr ⟨p, hp, he⟩

/-- What is online at a net is kept by it. -/
theorem keeps_of_mem_onlines (hc : c ∈ t.onlines name) :
    ∃ net, t.nets.lookup name = some net ∧ net.Keeps c := by
  cases hnet : t.nets.lookup name with
  | none =>
      rw [onlines, hnet] at hc
      simp at hc
  | some net =>
      rw [onlines_of_lookup hnet] at hc
      exact ⟨net, rfl, Or.inr (Or.inl hc)⟩

theorem Belongs.id_eq (h : t.Belongs name c) : ∃ o ∈ t.conns, t.conns[c]? = some o ∧
    t.id c = o.session := by
  rw [Belongs, Option.map_eq_some_iff] at h
  rcases h with ⟨o, ho, -⟩
  exact ⟨o, List.mem_of_getElem? ho, ho, by rw [NetService.id, ho]; rfl⟩

/-- A connection belongs to one net. -/
theorem Belongs.unique {name' : NetName} (h : t.Belongs name c) (h' : t.Belongs name' c) :
    name = name' := by
  rw [Belongs, h', Option.some.injEq] at h
  exact h.symm

namespace Sound

theorem belongs (h : t.Sound) (hc : c ∈ t.onlines name) : t.Belongs name c := by
  rcases keeps_of_mem_onlines hc with ⟨net, hnet, hkeeps⟩
  exact h.keeps name net hnet c hkeeps

/-- A session id belongs to one connection. -/
theorem eq_of_id {name' : NetName} {c' : ConnectPtr} (h : t.Sound) (hc : t.Belongs name c)
    (hc' : t.Belongs name' c') (hid : t.id c = t.id c') : c = c' := by
  rcases hc.id_eq with ⟨o, -, ho, hs⟩
  rcases hc'.id_eq with ⟨o', -, ho', hs'⟩
  rw [hs, hs'] at hid
  have hget : (t.conns.map Origin.session)[c]? = (t.conns.map Origin.session)[c']? := by
    rw [List.getElem?_map, List.getElem?_map, ho, ho', Option.map_some, Option.map_some, hid]
  have hlt : c < (t.conns.map Origin.session).length := by
    rw [List.length_map]
    exact (List.getElem?_eq_some_iff.mp ho).1
  exact (List.getElem?_inj hlt h.ids_nodup).mp hget

/-! ## What the operations keep -/

/-- References of handlers come and go. -/
theorem handlers (h : t.Sound) (hs : Multiset ConnectPtr) : { t with handlers := hs }.Sound :=
  ⟨h.ids_le, h.ids_nodup, h.keeps, h.indexes⟩

theorem post (h : t.Sound) (c : ConnectPtr) : (t.post c).Sound :=
  h.handlers _

/-- A net changes in anything but its set. -/
theorem setNet (h : t.Sound) (hsame : net.onlines = t.onlines name)
    (hkeeps : ∀ c, net.Keeps c → t.Belongs name c) : (t.setNet name net).Sound where
  ids_le := h.ids_le
  ids_nodup := h.ids_nodup
  keeps := by
    intro other net' hnet c hc
    by_cases hother : other = name
    · subst hother
      rw [lookup_setNet, Option.some.injEq] at hnet
      subst hnet
      exact hkeeps c hc
    · rw [NetService.setNet, AList.lookup_insert_ne hother] at hnet
      exact h.keeps other net' hnet c hc
  indexes := by
    rw [onlines_setNet, hsame, Function.update_eq_self]
    exact h.indexes

/-- A net that was there changes in anything but its set. -/
theorem replace (h : t.Sound) (net' : NetObject) (hnet : t.nets.lookup name = some net)
    (hsame : net'.onlines = net.onlines)
    (hkeeps : ∀ c, net'.Keeps c → net.Keeps c ∨ t.Belongs name c) : (t.setNet name net').Sound := by
  apply h.setNet
  · rw [hsame, onlines_of_lookup hnet]
  · intro c hc
    rcases hkeeps c hc with hold | hnew
    · exact h.keeps name net hnet c hold
    · exact hnew

/-- A net that was there changes in its events only. -/
theorem replaceEvents (h : t.Sound) (net' : NetObject) (hnet : t.nets.lookup name = some net)
    (hcur : net'.current = net.current) (hsame : net'.onlines = net.onlines)
    (hevents : ∀ e ∈ net'.events, ∀ c, e.conn = some c → net.Keeps c ∨ t.Belongs name c) :
    (t.setNet name net').Sound := by
  apply h.replace net' hnet hsame
  rintro c (hc | honline | ⟨e, he, hc⟩)
  · rw [hcur] at hc
    exact Or.inl (Or.inl hc)
  · rw [hsame] at honline
    exact Or.inl (Or.inr (Or.inl honline))
  · exact hevents e he c hc

/-- A new connection gets the next session id. -/
theorem createConnection (h : t.Sound) (name : NetName) :
    (t.createConnection name).1.Sound ∧
      (t.createConnection name).1.Belongs name (t.createConnection name).2 := by
  have hbelongs : ∀ {other c}, t.Belongs other c → (t.createConnection name).1.Belongs other c := by
    intro other c hc
    rcases hc.id_eq with ⟨o, -, ho, -⟩
    change (t.conns ++ [_])[c]?.map Origin.net = some other
    rw [List.getElem?_append_left (List.getElem?_eq_some_iff.mp ho).1]
    exact hc
  have hid : ∀ {other c}, t.Belongs other c → (t.createConnection name).1.id c = t.id c := by
    intro other c hc
    rcases hc.id_eq with ⟨o, -, ho, -⟩
    change ((t.conns ++ [_])[c]?.map Origin.session).getD 0 = _
    rw [List.getElem?_append_left (List.getElem?_eq_some_iff.mp ho).1]
    rfl
  constructor
  · refine ⟨?_, ?_, ?_, ?_⟩
    · intro o ho
      change o.session ≤ t.pool.curSessionId + 1
      rcases List.mem_append.mp ho with hold | hnew
      · exact (h.ids_le o hold).trans (Nat.le_succ _)
      · rw [List.mem_singleton] at hnew
        rw [hnew]
    · change ((t.conns ++ [_]).map Origin.session).Nodup
      rw [List.map_append, List.map_singleton, List.nodup_append']
      refine ⟨h.ids_nodup, List.nodup_singleton _, ?_⟩
      -- the next id is larger than all that were given out
      intro s hs hnew
      rcases List.mem_map.mp hs with ⟨o, ho, rfl⟩
      have hle := h.ids_le o ho
      rw [List.mem_singleton] at hnew
      change o.session = t.pool.curSessionId + 1 at hnew
      rw [hnew] at hle
      exact Nat.not_succ_le_self _ hle
    · intro other net hnet c hc
      exact hbelongs (h.keeps other net hnet c hc)
    · exact h.indexes.congr fun other c hc => hid (h.belongs hc)
  · change (t.conns ++ [_])[t.conns.length]?.map Origin.net = some name
    rw [List.getElem?_concat_length]
    rfl

theorem beginAccept (h : t.Sound) (hnet : t.nets.lookup name = some net) :
    (t.beginAccept name net).Sound := by
  unfold NetService.beginAccept
  split
  · exact h
  · rcases h.createConnection name with ⟨hsound, hnew⟩
    refine hsound.replace _ hnet rfl ?_
    rintro c (hcur | hrest)
    · rw [Option.some.injEq] at hcur
      rw [← hcur]
      exact Or.inr hnew
    · exact Or.inl (Or.inr hrest)

theorem acceptSocket (h : t.Sound) (hnet : t.nets.lookup name = some net) :
    (t.acceptSocket name net).Sound := by
  unfold NetService.acceptSocket
  split
  · exact h
  · cases net.current with
    | none => exact h
    | some c => exact (h.post c).beginAccept hnet

theorem start (h : t.Sound) (hnet : t.nets.lookup name = some net) (ok : Bool) :
    (t.start name net ok).Sound := by
  have hset : (t.setNet name { net with stopped := false }).Sound :=
    h.replace _ hnet rfl fun c hc => Or.inl hc
  have haccept := hset.beginAccept (lookup_setNet t name { net with stopped := false })
  cases htype : net.property.config.serviceType with
  | client =>
      simp only [NetService.start, htype]
      exact hset
  | server =>
      simp only [NetService.start, htype]
      split
      · exact haccept
      · exact hset

theorem stop (h : t.Sound) (hnet : t.nets.lookup name = some net)
    (hstop : t.stop name net = some t') : t'.Sound := by
  have hset : (t.setNet name { net with stopped := true }).Sound :=
    h.replace _ hnet rfl fun c hc => Or.inl hc
  have hposted := hset.handlers (net.onlines.val + t.handlers)
  unfold NetService.stop at hstop
  cases htype : net.property.config.serviceType with
  | client =>
      rw [htype, Option.some.injEq] at hstop
      rw [← hstop]
      exact hposted
  | server =>
      rw [htype, Option.map_eq_some_iff] at hstop
      rcases hstop with ⟨c, -, rfl⟩
      exact hposted.post c

theorem kick (h : t.Sound) (s : SessionId) : (t.kick s).Sound := by
  unfold NetService.kick
  cases t.session s with
  | none => exact h
  | some c => exact h.post c

/-- A new net has nothing online, and of connections its own at most. -/
theorem add [HostNames] (h : t.Sound) (p : NetProperty) : (t.add p).1.Sound := by
  have hnone : ∀ {u : NetService}, u.nets.lookup p.name = none → u.onlines p.name = ∅ := by
    intro u hu
    rw [onlines, hu]
    rfl
  unfold NetService.add
  cases hnet : t.nets.lookup p.name with
  | some net => exact h
  | none =>
      unfold createNet
      cases p.config.serviceType with
      | server =>
          refine h.setNet (hnone hnet).symm ?_
          rintro c (hcur | hmem | ⟨e, he, -⟩)
          · cases hcur
          · exact absurd hmem (Finset.notMem_empty c)
          · cases he
      | client =>
          rcases h.createConnection p.name with ⟨hsound, hnew⟩
          cases p.endpoint with
          | none => exact hsound
          | some a =>
              refine hsound.setNet (hnone hnet).symm ?_
              rintro c (hcur | hmem | ⟨e, he, -⟩)
              · rw [Option.some.injEq] at hcur
                rw [← hcur]
                exact hnew
              · exact absurd hmem (Finset.notMem_empty c)
              · cases he

/-! ## Events -/

/-- `addSession` and the insertion into `m_onlines`. -/
theorem online (h : t.Sound) (hnet : t.nets.lookup name = some net) (hc : t.Belongs name c) :
    ((t.addSession c).setNet name { net with onlines := insert c net.onlines }).Sound where
  ids_le := h.ids_le
  ids_nodup := h.ids_nodup
  keeps := by
    intro other net' hnet' c' hc'
    by_cases hother : other = name
    · subst hother
      rw [lookup_setNet, Option.some.injEq] at hnet'
      subst hnet'
      rcases hc' with hcur | hmem | hevent
      · exact h.keeps other net hnet c' (Or.inl hcur)
      · rcases Finset.mem_insert.mp hmem with rfl | hold
        · exact hc
        · exact h.keeps other net hnet c' (Or.inr (Or.inl hold))
      · exact h.keeps other net hnet c' (Or.inr (Or.inr hevent))
    · rw [NetService.setNet, AList.lookup_insert_ne hother] at hnet'
      exact h.keeps other net' hnet' c' hc'
  indexes := by
    rw [onlines_setNet, ← onlines_of_lookup hnet]
    exact h.indexes.insert fun j b hb hid => h.eq_of_id (h.belongs hb) hc hid

/-- `delSession` and the removal from `m_onlines`, of a connection that may not be there. -/
theorem offline (h : t.Sound) (hnet : t.nets.lookup name = some net) (hc : t.Belongs name c) :
    ((t.delSession c).setNet name { net with onlines := net.onlines.erase c }).Sound where
  ids_le := h.ids_le
  ids_nodup := h.ids_nodup
  keeps := by
    intro other net' hnet' c' hc'
    by_cases hother : other = name
    · subst hother
      rw [lookup_setNet, Option.some.injEq] at hnet'
      subst hnet'
      rcases hc' with hcur | hmem | hevent
      · exact h.keeps other net hnet c' (Or.inl hcur)
      · exact h.keeps other net hnet c' (Or.inr (Or.inl (Finset.mem_of_mem_erase hmem)))
      · exact h.keeps other net hnet c' (Or.inr (Or.inr hevent))
    · rw [NetService.setNet, AList.lookup_insert_ne hother] at hnet'
      exact h.keeps other net' hnet' c' hc'
  indexes := by
    rw [onlines_setNet, ← onlines_of_lookup hnet]
    apply h.indexes.erase
    · exact fun j b hb hid => h.eq_of_id (h.belongs hb) hc hid
    · exact fun j hj => (h.belongs hj).unique hc

/-- An event of a poll, up to its callback. -/
theorem event {i : Nat} (h : t.Sound) (hnet : t.nets.lookup name = some net)
    (hevent : t.event name net i = some t') : t'.Sound := by
  unfold NetService.event at hevent
  split at hevent
  · rename_i ran e todo hpoll
    rw [Option.some.injEq] at hevent
    have hmem : (⟨ran, e :: todo⟩ : Polling) ∈ net.polls := List.mem_of_getElem? hpoll
    -- the events of the poll are kept, and what is left of `e` keeps the same connection
    have hkept : ∀ e' c, e' ∈ ran ++ e :: todo → e'.conn = some c → net.Keeps c := by
      intro e' c he' hc
      exact NetObject.keeps_of_mem_poll hmem he' hc
    have hrest : ∀ e' c, e' ∈ e.rest → e'.conn = some c → net.Keeps c := by
      intro e' c he' hc
      cases e with
      | eventCloseFun d =>
          rw [TcpEvent.rest, List.mem_singleton] at he'
          rw [he'] at hc
          exact hkept (.eventCloseFun d) c (by simp) hc
      | _ => cases he'
    have hset : (t.setNet name
        { net with polls := net.polls.set i ⟨ran ++ [e], e.rest ++ todo⟩ }).Sound := by
      refine h.replaceEvents _ hnet rfl rfl ?_
      intro e' he' c hc
      left
      rw [NetObject.events, List.mem_append, List.mem_flatMap] at he'
      rcases he' with hcall | ⟨p, hp, he'⟩
      · exact NetObject.keeps_of_mem_events (List.mem_append_left _ hcall) hc
      · rcases List.mem_or_eq_of_mem_set hp with hold | rfl
        · exact NetObject.keeps_of_mem_poll hold he' hc
        · simp only [List.mem_append, List.mem_singleton] at he'
          rcases he' with (hran | rfl) | hleft | htodo
          · exact hkept e' c (List.mem_append_left _ hran) hc
          · exact hkept e' c (by simp) hc
          · exact hrest e' c hleft hc
          · exact hkept e' c (by simp [htodo]) hc
    have hnet' := lookup_setNet t name
      { net with polls := net.polls.set i ⟨ran ++ [e], e.rest ++ todo⟩ }
    rw [← hevent]
    cases e with
    | eventRecv => exact hset
    | eventConnect c =>
        have hc := h.keeps name net hnet c (hkept (.eventConnect c) c (by simp) rfl)
        exact hset.online hnet' hc
    | eventCloseFun c => exact hset
    | delSession c =>
        have hc := h.keeps name net hnet c (hkept (.delSession c) c (by simp) rfl)
        exact hset.offline hnet' hc
    | start => exact hset.start hnet' true
  · cases hevent

/-- Every step keeps the invariant. -/
theorem step [HostNames] {a : Action} (h : t.Sound) (hstep : t.step a = some t') : t'.Sound := by
  cases a with
  | add p =>
      cases hstep
      exact h.add p
  | start name ok =>
      rcases Option.map_eq_some_iff.mp hstep with ⟨net, hnet, rfl⟩
      exact h.start hnet ok
  | stop name =>
      rcases Option.bind_eq_some_iff.mp hstep with ⟨net, hnet, hstop⟩
      exact h.stop hnet hstop
  | kick s =>
      cases hstep
      exact h.kick s
  | poll name =>
      rcases Option.map_eq_some_iff.mp hstep with ⟨net, hnet, rfl⟩
      refine h.replaceEvents _ hnet rfl rfl ?_
      intro e he c hc
      exact Or.inl (NetObject.keeps_of_mem_events (by simpa [NetObject.events] using he) hc)
  | event name i =>
      rcases Option.bind_eq_some_iff.mp hstep with ⟨net, hnet, hevent⟩
      exact h.event hnet hevent
  | leave name i =>
      rcases Option.map_eq_some_iff.mp hstep with ⟨net, hnet, rfl⟩
      refine h.replaceEvents _ hnet rfl rfl ?_
      intro e he c hc
      left
      rw [NetObject.events, List.mem_append, List.mem_flatMap] at he
      rcases he with hcall | ⟨p, hp, he⟩
      · exact NetObject.keeps_of_mem_events (List.mem_append_left _ hcall) hc
      · exact NetObject.keeps_of_mem_poll (List.mem_of_mem_eraseIdx hp) he hc
  | acceptSocket name =>
      rcases Option.map_eq_some_iff.mp hstep with ⟨net, hnet, rfl⟩
      exact h.acceptSocket hnet
  | push name e =>
      simp only [NetService.step] at hstep
      split at hstep
      · rename_i hmay
        rcases Option.map_eq_some_iff.mp hstep with ⟨net, hnet, rfl⟩
        refine h.replaceEvents _ hnet rfl rfl ?_
        intro e' he' c hc
        simp only [NetObject.events, List.mem_append, List.mem_singleton] at he'
        rcases he' with (hcall | rfl) | hpolls
        · exact Or.inl (NetObject.keeps_of_mem_events (List.mem_append_left _ hcall) hc)
        · exact Or.inr (hmay c hc).2
        · exact Or.inl (NetObject.keeps_of_mem_events (List.mem_append_right _ hpolls) hc)
      · cases hstep
  | post c =>
      simp only [NetService.step] at hstep
      split at hstep
      · cases hstep
        exact h.post c
      · cases hstep
  | handled c =>
      cases hstep
      exact h.handlers _

/-- A connection that is online has not expired. -/
theorem session_eq_some_iff (h : t.Sound) {s : SessionId} :
    t.session s = some c ↔ ∃ name, c ∈ t.onlines name ∧ t.id c = s := by
  rw [NetService.session, Option.filter_eq_some_iff, h.indexes s c, decide_eq_true_iff]
  constructor
  · rintro ⟨⟨⟨name, hc⟩, hid⟩, -⟩
    exact ⟨name, hc, hid⟩
  · rintro ⟨name, hc, hid⟩
    refine ⟨⟨⟨name, hc⟩, hid⟩, Or.inr ?_⟩
    rcases keeps_of_mem_onlines hc with ⟨net, hnet, hkeeps⟩
    exact ⟨⟨name, net⟩, AList.mem_lookup_iff.mp hnet, hkeeps⟩

/-- A stop goes on polling as long as some net has a connection online. -/
theorem hasOnline_iff (h : t.Sound) : t.hasOnline = true ↔ ∃ name, t.onlines name ≠ ∅ := by
  rw [hasOnline, Bool.not_eq_true', ← Bool.not_eq_true, List.isEmpty_iff]
  constructor
  · intro hne
    rcases List.exists_mem_of_ne_nil _ hne with ⟨x, hx⟩
    rcases (h.indexes x.1 x.2).mp (AList.mem_lookup_iff.mpr hx) with ⟨⟨name, hname⟩, -⟩
    exact ⟨name, Finset.ne_empty_of_mem hname⟩
  · rintro ⟨name, hname⟩ hnil
    rcases Finset.nonempty_iff_ne_empty.mpr hname with ⟨c, hc⟩
    have hmem := AList.mem_lookup_iff.mp (h.indexes.lookup_key hc)
    rw [hnil] at hmem
    cases hmem

end Sound

/-! ## The pool as one net sees it -/

/-- What a step does to the pool. -/
inductive IoObjectPool.Move (pool : IoObjectPool) : IoObjectPool → Prop where
  | same : Move pool pool
  | nextSession : Move pool { pool with curSessionId := pool.curSessionId + 1 }
  | addSession (s : SessionId) (c : ConnectPtr) :
      Move pool { pool with onlines := pool.onlines.insert s c }
  | delSession (s : SessionId) : Move pool { pool with onlines := pool.onlines.erase s }

theorem move_beginAccept (t : NetService) (name : NetName) (net : NetObject) :
    t.pool.Move (t.beginAccept name net).pool := by
  unfold beginAccept
  split
  · exact .same
  · exact .nextSession

theorem move_acceptSocket (t : NetService) (name : NetName) (net : NetObject) :
    t.pool.Move (t.acceptSocket name net).pool := by
  unfold acceptSocket
  split
  · exact .same
  · split
    · exact .same
    · exact move_beginAccept (t.post _) name net

theorem move_start (t : NetService) (name : NetName) (net : NetObject) (ok : Bool) :
    t.pool.Move (t.start name net ok).pool := by
  unfold NetService.start
  dsimp only
  split
  · split
    · exact move_beginAccept (t.setNet name { net with stopped := false }) name
        { net with stopped := false }
    · exact .same
  · exact .same

theorem move_stop (h : t.stop name net = some t') : t.pool.Move t'.pool := by
  unfold NetService.stop at h
  dsimp only at h
  split at h
  · rcases Option.map_eq_some_iff.mp h with ⟨c, -, rfl⟩
    exact .same
  · cases h
    exact .same

theorem move_add [HostNames] (t : NetService) (p : NetProperty) :
    t.pool.Move (t.add p).1.pool := by
  unfold add
  cases t.nets.lookup p.name with
  | some net => exact .same
  | none =>
      unfold createNet
      cases p.config.serviceType with
      | server => exact .same
      | client =>
          cases p.endpoint with
          | none => exact .nextSession
          | some address => exact .nextSession

theorem move_event {i : Nat} (h : t.event name net i = some t') : t.pool.Move t'.pool := by
  unfold NetService.event at h
  split at h
  · rename_i ran e todo hpoll
    cases h
    cases e with
    | eventRecv => exact .same
    | eventConnect c => exact .addSession (t.id c) c
    | eventCloseFun c => exact .same
    | delSession c => exact .delSession (t.id c)
    | start => exact move_start (t.setNet name _) name _ true
  · cases h

/-- A step uses the pool at most once. -/
theorem move_step [HostNames] {a : Action} (h : t.step a = some t') :
    t.pool.Move t'.pool := by
  cases a with
  | add p =>
      cases h
      exact move_add t p
  | start name ok =>
      rcases Option.map_eq_some_iff.mp h with ⟨net, -, rfl⟩
      exact move_start t name net ok
  | stop name =>
      rcases Option.bind_eq_some_iff.mp h with ⟨net, -, hstop⟩
      exact move_stop hstop
  | kick s =>
      cases h
      unfold kick
      cases t.session s with
      | none => exact .same
      | some c => exact .same
  | event name i =>
      rcases Option.bind_eq_some_iff.mp h with ⟨net, -, hevent⟩
      exact move_event hevent
  | acceptSocket name =>
      rcases Option.map_eq_some_iff.mp h with ⟨net, -, rfl⟩
      exact move_acceptSocket t name net
  | poll name =>
      rcases Option.map_eq_some_iff.mp h with ⟨net, -, rfl⟩
      exact .same
  | leave name i =>
      rcases Option.map_eq_some_iff.mp h with ⟨net, -, rfl⟩
      exact .same
  | push name e =>
      simp only [NetService.step] at h
      split at h
      · rcases Option.map_eq_some_iff.mp h with ⟨net, -, rfl⟩
        exact .same
      · cases h
  | post c =>
      simp only [NetService.step] at h
      split at h
      · cases h
        exact .same
      · cases h
  | handled c =>
      cases h
      exact .same

/-- The pools that the objects of a service share. -/
inductive Shared : FannyNet.IoObjectPool → Prop where
  | create : Shared ⟨0, []⟩
  | nextSession {p : FannyNet.IoObjectPool} (h : Shared p) : Shared p.nextSession.1
  | addSession {p : FannyNet.IoObjectPool} (h : Shared p) (s : SessionId) :
      Shared (p.addSession s)
  | delSession {p : FannyNet.IoObjectPool} (h : Shared p) (s : SessionId) :
      Shared (p.delSession s)

/-- A pool without the references. -/
structure IoObjectPool.Ids (pool : IoObjectPool) (p : FannyNet.IoObjectPool) : Prop where
  curSessionId : p.curSessionId = pool.curSessionId
  onlines : ∀ s, s ∈ p.onlines ↔ s ∈ pool.onlines

/-- Each use of the pool is one of its operations on the ids. -/
theorem IoObjectPool.Move.ids {pool pool' : IoObjectPool} (h : pool.Move pool')
    {p : FannyNet.IoObjectPool} (hshared : Shared p) (hids : pool.Ids p) :
    ∃ p', Shared p' ∧ pool'.Ids p' := by
  cases h with
  | same => exact ⟨p, hshared, hids⟩
  | nextSession =>
      refine ⟨_, hshared.nextSession, ?_, hids.onlines⟩
      exact congrArg (· + 1) hids.curSessionId
  | addSession s c =>
      refine ⟨_, hshared.addSession s, hids.curSessionId, fun other => ?_⟩
      rw [FannyNet.IoObjectPool.addSession, List.mem_insert_iff, hids.onlines]
      exact (AList.mem_insert pool.onlines).symm
  | delSession s =>
      refine ⟨_, hshared.delSession s, hids.curSessionId, fun other => ?_⟩
      rw [FannyNet.IoObjectPool.delSession, List.mem_filter, decide_eq_true_iff, and_comm,
        hids.onlines]
      exact AList.mem_erase.symm

/-- A session is found without looking at its reference. -/
theorem Sound.session_ids (h : t.Sound) {p : FannyNet.IoObjectPool} (hids : t.pool.Ids p)
    (s : SessionId) : p.session s = (t.session s).isSome := by
  rw [FannyNet.IoObjectPool.session, Bool.eq_iff_iff, decide_eq_true_iff, hids.onlines,
    Option.isSome_iff_exists, ← AList.lookup_isSome, Option.isSome_iff_exists]
  simp only [h.indexes s, h.session_eq_some_iff, exists_and_right]

/-- After any run the pool is, to one of its objects, a pool of ids that was used through its
three operations, and finds the same sessions. -/
theorem pool_of_run [HostNames] {as : List Action} (h : run NetService.step create as = some t) :
    ∃ p, Shared p ∧ t.pool.Ids p ∧ ∀ s, p.session s = (t.session s).isSome := by
  have hsound : t.Sound := run_invariant (fun _ _ _ hs hstep => hs.step hstep) sound_create h
  have hpool : ∃ p, Shared p ∧ t.pool.Ids p := by
    refine run_invariant (I := fun t : NetService => ∃ p, Shared p ∧ t.pool.Ids p) ?_ ?_ h
    · rintro t₁ a t₂ ⟨p, hshared, hids⟩ hstep
      exact (move_step hstep).ids hshared hids
    · exact ⟨⟨0, []⟩, .create, rfl, fun s => Iff.rfl⟩
  rcases hpool with ⟨p, hshared, hids⟩
  exact ⟨p, hshared, hids, hsound.session_ids hids⟩

/-! ## The two tables -/

/-- After any requests, events and handlers of any nets, the session ids in the pool's table
are the disjoint union of the ids of what the nets have online, and a session is found exactly
for these, as the connection that is online. -/
theorem tables_agree [HostNames] {as : List Action} (h : run NetService.step create as = some t) :
    t.pool.onlines.keys.toFinset =
        t.nets.keys.toFinset.biUnion (fun name => (t.onlines name).image t.id) ∧
      (t.nets.keys.toFinset : Set NetName).PairwiseDisjoint
        (fun name => (t.onlines name).image t.id) ∧
      ∀ s c, t.session s = some c ↔ ∃ name, c ∈ t.onlines name ∧ t.id c = s := by
  have hsound : t.Sound := run_invariant (fun _ _ _ hs hstep => hs.step hstep) sound_create h
  have hown : ∀ name name' c, c ∈ t.onlines name → c ∈ t.onlines name' → name = name' :=
    fun name name' c hc hc' => (hsound.belongs hc).unique (hsound.belongs hc')
  refine ⟨?_, hsound.indexes.pairwiseDisjoint hown _, fun s c => hsound.session_eq_some_iff⟩
  apply hsound.indexes.keys_eq
  intro name hname
  rcases Finset.nonempty_iff_ne_empty.mpr hname with ⟨c, hc⟩
  rcases keeps_of_mem_onlines hc with ⟨net, hnet, -⟩
  rw [List.mem_toFinset, ← AList.mem_keys, ← AList.lookup_isSome, hnet]
  rfl

/-- A connection comes up, is reported closed, and the callback throws. -/
def closeThrows : List Action :=
  [.add aServer, .start (text "a") true, .acceptSocket (text "a"),
    .push (text "a") (.eventConnect 0), .push (text "a") (.eventCloseFun 0), .poll (text "a"),
    .event (text "a") 0, .event (text "a") 0, .leave (text "a") 0]

/-- It is online in both tables then. -/
theorem tables_agree_closeThrows :
    ∃ t, run (@NetService.step noHosts) create closeThrows = some t ∧ t.onlines (text "a") = {0} ∧
      t.pool.onlines.keys.toFinset =
          t.nets.keys.toFinset.biUnion (fun name => (t.onlines name).image t.id) ∧
        (t.nets.keys.toFinset : Set NetName).PairwiseDisjoint
          (fun name => (t.onlines name).image t.id) ∧
        ∀ s c, t.session s = some c ↔ ∃ name, c ∈ t.onlines name ∧ t.id c = s := by
  have hrun : (run (@NetService.step noHosts) create closeThrows).map
      (fun t => t.onlines (text "a")) = some {0} := by decide +kernel
  rcases Option.map_eq_some_iff.mp hrun with ⟨t, ht, honline⟩
  exact ⟨t, ht, honline, @tables_agree t noHosts closeThrows ht⟩

end NetService

end FannyNet
