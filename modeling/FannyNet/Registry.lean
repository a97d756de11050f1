import FannyNet.NetService

/-!
# The registry of nets as a map by name

What `add` and `remove` are for: a finite map from names, of which only the names are
looked at here.  A successful `remove` stops the net and deletes it.

Main results:

- Definition `Names.call`: a call on the abstract registry.
- Definition `NetService.Agrees`: a call of the service does what it does to the names.
- Theorem `NetService.registry_agrees_iff`: the sequences of calls that all do so.
-/

namespace FannyNet

open Library Library.Transition

/-- A call of the registry. -/
inductive RegistryCall where
  | add (p : NetProperty)
  | remove (name : NetName)
deriving DecidableEq, Repr

/-- The name that a call is about. -/
def RegistryCall.name : RegistryCall → NetName
  | .add p => p.name
  | .remove name => name

/-- The names that are registered behind a call, and what it returns. -/
def Names.call (names : Finset NetName) : RegistryCall → Finset NetName × Bool
  | .add p => (insert p.name names, decide (p.name ∉ names))
  | .remove name => (names.erase name, decide (name ∈ names))

namespace NetService

section
variable [HostNames]

/-- A call of the service; nothing is returned when it throws, and there is no service left
when it reads the end of the map. -/
def registryCall (t : NetService) : RegistryCall → Option (NetService × Option Bool)
  | .add p => some (t.add p)
  | .remove name => (t.remove name).map fun x => (x.1, some x.2)

/-- The service behind a call, whether it returned or threw. -/
def afterCall (t : NetService) (c : RegistryCall) : Option NetService :=
  (t.registryCall c).map Prod.fst

/-- The names that are registered. -/
def names (t : NetService) : Finset NetName :=
  t.nets.keys.toFinset

omit [HostNames] in
theorem mem_names {t : NetService} {name : NetName} : name ∈ t.names ↔ name ∈ t.nets := by
  rw [names, List.mem_toFinset, AList.mem_keys]

/-- A call returns, does to the names what the abstract call does and returns the same, leaves
the other nets alone, and changes nothing when it returns `false`; when it removes a net, it
has stopped it. -/
def Agrees (t : NetService) (c : RegistryCall) : Prop :=
  ∃ t' b, t.registryCall c = some (t', some b) ∧ (t'.names, b) = Names.call t.names c ∧
    (∀ name, name ≠ c.name → t'.nets.lookup name = t.nets.lookup name) ∧
    (b = false → t' = t) ∧
    (b = true → ∀ name, c = .remove name → ∃ net t₁, t.nets.lookup name = some net ∧
      t.stop name net = some t₁ ∧ t' = { t₁ with nets := t₁.nets.erase name })

/-- A call that the code gets right: it adds, and there is no address to be found, or it can
be found, or the name is taken. -/
def Registers (t : NetService) (c : RegistryCall) : Prop :=
  ∃ p, c = .add p ∧
    (p.name ∈ t.names ∨ p.config.serviceType = .server ∨ p.endpoint ≠ none)

/-! ## One call -/

/-- A net is made unless it is a client without an address. -/
theorem createNet_eq_none_iff (t : NetService) (p : NetProperty) :
    (t.createNet p).2 = none ↔ ¬ (p.config.serviceType = .server ∨ p.endpoint ≠ none) := by
  unfold createNet
  cases htype : p.config.serviceType with
  | server => simp
  | client =>
      cases hend : p.endpoint with
      | none => simp
      | some a => simp

/-- Making a net leaves the registered ones alone. -/
@[simp]
theorem nets_createNet (t : NetService) (p : NetProperty) : (t.createNet p).1.nets = t.nets := by
  unfold createNet createConnection
  cases p.config.serviceType with
  | server => rfl
  | client => cases p.endpoint <;> rfl

/-- The name is taken. -/
theorem add_of_mem {t : NetService} {p : NetProperty} (h : p.name ∈ t.names) :
    t.add p = (t, some false) := by
  rw [mem_names, ← AList.lookup_isSome, Option.isSome_iff_exists] at h
  rcases h with ⟨net, hnet⟩
  rw [add, hnet]

/-- The name is free. -/
theorem add_of_notMem {t : NetService} {p : NetProperty} (h : p.name ∉ t.names) :
    ((t.createNet p).2 = none ∧ t.add p = ((t.createNet p).1, none)) ∨
      ∃ net, (t.createNet p).2 = some net ∧
        t.add p = ((t.createNet p).1.setNet p.name net, some true) := by
  rw [mem_names, ← AList.lookup_eq_none] at h
  rw [add, h]
  cases hnet : t.createNet p with
  | mk t' o =>
      cases o with
      | none => exact Or.inl ⟨rfl, rfl⟩
      | some net => exact Or.inr ⟨net, rfl, rfl⟩

omit [HostNames] in
/-- A registered net is not removed, and the end of the map is read for any other. -/
theorem remove_eq (t : NetService) (name : NetName) :
    t.remove name = if name ∈ t.names then some (t, false) else none := by
  unfold remove
  cases hnet : t.nets.lookup name with
  | none => rw [if_neg (by rw [mem_names]; exact AList.lookup_eq_none.mp hnet)]
  | some net =>
      have hmem : name ∈ t.names := by
        rw [mem_names, ← AList.lookup_isSome, hnet]
        rfl
      rw [if_pos hmem]

theorem agrees_add_of_mem {t : NetService} {p : NetProperty} (h : p.name ∈ t.names) :
    t.Agrees (.add p) := by
  refine ⟨t, false, ?_, ?_, fun _ _ => rfl, fun _ => rfl, by simp⟩
  · rw [registryCall, add_of_mem h]
  · simp [Names.call, h]

theorem agrees_add_of_notMem {t : NetService} {p : NetProperty} (h : p.name ∉ t.names)
    (hnet : (t.createNet p).2 ≠ none) : t.Agrees (.add p) := by
  rcases add_of_notMem h with ⟨hnone, -⟩ | ⟨net, -, hadd⟩
  · exact absurd hnone hnet
  · refine ⟨_, true, by rw [registryCall, hadd], ?_, ?_, by simp, by simp⟩
    · have hnames : ((t.createNet p).1.setNet p.name net).names = insert p.name t.names := by
        ext name
        rw [Finset.mem_insert, mem_names, mem_names, setNet, nets_createNet, AList.mem_insert]
      rw [hnames, Names.call, decide_eq_true h]
    · intro name hne
      rw [setNet, nets_createNet]
      exact AList.lookup_insert_ne hne

/-- One call, in any service. -/
theorem agrees_iff (t : NetService) (c : RegistryCall) : t.Agrees c ↔ t.Registers c := by
  cases c with
  | add p =>
      by_cases hmem : p.name ∈ t.names
      · exact ⟨fun _ => ⟨p, rfl, Or.inl hmem⟩, fun _ => agrees_add_of_mem hmem⟩
      · constructor
        · rintro ⟨t', b, hcall, -⟩
          refine ⟨p, rfl, Or.inr ?_⟩
          by_contra hbad
          -- the constructor throws, so there is nothing that `add` could return
          rcases add_of_notMem hmem with ⟨-, hadd⟩ | ⟨net, hnet, -⟩
          · rw [registryCall, hadd] at hcall
            simp at hcall
          · rw [(createNet_eq_none_iff t p).mpr hbad] at hnet
            cases hnet
        · rintro ⟨q, hq, hgood⟩
          cases hq
          apply agrees_add_of_notMem hmem
          rw [ne_eq, createNet_eq_none_iff, not_not]
          exact hgood.resolve_left hmem
  | remove name =>
      constructor
      · rintro ⟨t', b, hcall, hnames, -⟩
        rw [registryCall, remove_eq] at hcall
        by_cases hmem : name ∈ t.names
        · -- it returns `false` for a name that is registered
          rw [if_pos hmem] at hcall
          simp only [Option.map_some, Option.some.injEq, Prod.mk.injEq] at hcall
          simp [Names.call, hmem, ← hcall.2] at hnames
        · rw [if_neg hmem] at hcall
          cases hcall
      · rintro ⟨p, hp, -⟩
        cases hp

/-- A sequence of calls agrees with the abstract registry throughout if and only if it never
removes, and whatever client it adds under a new name has an address. -/
theorem registry_agrees_iff (t : NetService) (calls : List RegistryCall) :
    Along afterCall Agrees t calls ↔ Along afterCall Registers t calls :=
  along_iff_along (I := fun _ => True) (fun t c _ => agrees_iff t c) (fun _ _ _ _ _ _ => trivial)
    trivial

end

/-- A server that was added cannot be removed, and removing another one reads the end of the
map. -/
theorem remove_inverted :
    ¬ @Along _ _ (@afterCall noHosts) (@Agrees noHosts) create [.add aServer, .remove (text "a")] ∧
      (@add noHosts create aServer).2 = some true ∧
      (@add noHosts create aServer).1.remove (text "a") =
        some ((@add noHosts create aServer).1, false) ∧
      (@add noHosts create aServer).1.remove (text "b") = none := by
  refine ⟨?_, rfl, rfl, rfl⟩
  rintro ⟨-, hrest⟩
  have hremove := (hrest _ rfl).1
  rcases (@agrees_iff noHosts _ _).mp hremove with ⟨p, hp, -⟩
  cases hp

end NetService

end FannyNet
