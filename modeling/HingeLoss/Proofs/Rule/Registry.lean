import HingeLoss.Proofs.Rule.Built
import HingeLoss.Proofs.Store.Rounds

/-! Stored terms follow the weights of the rule set that they were built with. -/

namespace HingeLoss

theorem RuleId.index_injective {first second : RuleId} (same : first.index = second.index) :
    first = second := by
  obtain ⟨first⟩ := first
  obtain ⟨second⟩ := second
  exact congrArg RuleId.mk (UInt32.toNat_inj.mp same)

theorem RuleId.index_ofIndex {index : Nat} (inRange : index < 4294967296) :
    (RuleId.ofIndex index).index = index := by
  simp only [RuleId.index, RuleId.ofIndex, Nat.toUInt32_eq, UInt32.toNat_ofNat']
  exact Nat.mod_eq_of_lt inRange

namespace RuleSet

variable {α : Type} {set after : RuleSet α}

theorem get_of_place {rule : RuleId} {found : Rule α}
    (filed : set.rules[rule.index]? = some found) : set.get rule = .ok found := by
  simp only [get, filed]

theorem place_of_get {rule : RuleId} {found : Rule α} (known : set.get rule = .ok found) :
    set.rules[rule.index]? = some found := by
  unfold get at known
  cases filed : set.rules[rule.index]? with
  | none =>
      rw [filed] at known
      cases known
  | some other =>
      rw [filed] at known
      cases known
      rfl

variable [Scalar α]

/-- A new rule leaves those that are registered as they are. -/
theorem register_ok {name : String} {weight : Weight α} {squared : Bool} {given : RuleId}
    (registered : set.register name weight squared = .ok (given, after)) :
    after.rules = set.rules.push ⟨.ofIndex set.size, name, weight, squared⟩ := by
  unfold register at registered
  dsimp only at registered
  cases valid : weight.validate (RuleId.ofIndex set.size) with
  | error fault =>
      rw [valid] at registered
      cases registered
  | ok _ =>
      rw [valid] at registered
      cases registered
      rfl

theorem get_register {name : String} {weight : Weight α} {squared : Bool} {given rule : RuleId}
    {found : Rule α} (registered : set.register name weight squared = .ok (given, after))
    (known : set.get rule = .ok found) : after.get rule = .ok found := by
  have filed := place_of_get known
  obtain ⟨inRange, -⟩ := Array.getElem?_eq_some_iff.mp filed
  apply get_of_place
  rw [register_ok registered, Array.getElem?_push_lt inRange, ← filed,
    Array.getElem?_eq_getElem inRange]

/-- A new weight is the rule's alone. -/
theorem setWeight_ok {rule : RuleId} {weight : Weight α}
    (reweighed : set.setWeight rule weight = .ok after) :
    weight.validate rule = .ok () ∧ rule.index < set.size ∧
      after.rules = set.rules.modify rule.index fun found => { found with weight } := by
  unfold setWeight at reweighed
  cases valid : weight.validate rule with
  | error fault =>
      rw [valid] at reweighed
      cases reweighed
  | ok _ =>
      rw [valid] at reweighed
      dsimp only at reweighed
      split at reweighed
      · rename_i known
        cases reweighed
        exact ⟨rfl, known, rfl⟩
      · cases reweighed

theorem setWeight_error {rule : RuleId} {weight : Weight α} {fault : StoreFault α}
    (refused : set.setWeight rule weight = .error fault) :
    weight.validate rule = .error fault ∨ set.size ≤ rule.index := by
  unfold setWeight at refused
  cases valid : weight.validate rule with
  | error other =>
      rw [valid] at refused
      exact .inl (congrArg Except.error (Except.error.inj refused))
  | ok _ =>
      rw [valid] at refused
      dsimp only at refused
      split at refused
      · cases refused
      · rename_i unknown
        exact .inr (Nat.le_of_not_lt unknown)

theorem get_setWeight {rule other : RuleId} {weight : Weight α} {found : Rule α}
    (reweighed : set.setWeight rule weight = .ok after) (known : set.get other = .ok found) :
    after.get other = .ok (if other = rule then { found with weight } else found) := by
  apply get_of_place
  rw [(setWeight_ok reweighed).2.2, Array.getElem?_modify, place_of_get known]
  by_cases same : other = rule
  · subst same
    simp
  · have apart : rule.index ≠ other.index := fun equal =>
      same (RuleId.index_injective equal).symm
    simp [same, apart]

end RuleSet

namespace ResidentStore

theorem setWeight_ok {α : Type} [Scalar α] {store after : ResidentStore α} {rule : RuleId}
    {weight : Weight α} {count : Nat}
    (reweighed : store.setWeight rule weight = .ok (count, after)) :
    after = { store with terms := store.terms.map (Term.reweigh rule weight) } ∧
      weight.validate rule = .ok () := by
  unfold setWeight at reweighed
  split at reweighed
  · cases reweighed
  · cases valid : weight.validate rule with
    | error fault =>
        rw [valid] at reweighed
        cases reweighed
    | ok _ =>
        rw [valid] at reweighed
        cases reweighed
        exact ⟨rfl, rfl⟩

theorem setWeight_error {α : Type} [Scalar α] {store : ResidentStore α} {rule : RuleId}
    {weight : Weight α} {fault : StoreFault α}
    (refused : store.setWeight rule weight = .error fault) :
    store.phase = .closed ∨ weight.validate rule = .error fault := by
  unfold setWeight at refused
  split at refused
  · rename_i closed
    exact .inl closed
  · cases valid : weight.validate rule with
    | error other =>
        rw [valid] at refused
        exact .inr (congrArg Except.error (Except.error.inj refused))
    | ok _ =>
        rw [valid] at refused
        cases refused

/-- What an addition changes in any store: the term is stored, or only the components differ. -/
theorem add_changes {α : Type} (store : ResidentStore α) (added : Term α) (atoms : AtomStore α) :
    ∃ components counts,
      (store.add added atoms).2.1 = { store with components } ∨
        (store.add added atoms).2.1 =
          { store with terms := store.terms.push added, components, counts } := by
  obtain ⟨terms, components, counts, phase⟩ := store
  unfold add
  cases phase with
  | ready => exact ⟨components, counts, .inl rfl⟩
  | closed => exact ⟨components, counts, .inl rfl⟩
  | grounding =>
      dsimp only
      cases atoms.checkAll added.atoms with
      | error fault => exact ⟨components, counts, .inl rfl⟩
      | ok _ =>
          dsimp only
          generalize components.insert _ added atoms = inserted
          obtain ⟨answer, filed, joined⟩ := inserted
          cases answer with
          | error fault => exact ⟨filed, counts, .inl rfl⟩
          | ok _ => exact ⟨filed, _, .inr rfl⟩

theorem mem_add {α : Type} {store : ResidentStore α} {added term : Term α}
    {atoms : AtomStore α} (member : term ∈ (store.add added atoms).2.1.terms.toList) :
    term ∈ store.terms.toList ∨ term = added := by
  obtain ⟨components, counts, same | same⟩ := store.add_changes added atoms
  · rw [same] at member
    exact .inl member
  · rw [same, Array.toList_push, List.mem_append, List.mem_singleton] at member
    exact member

theorem phase_add {α : Type} (store : ResidentStore α) (added : Term α)
    (atoms : AtomStore α) : (store.add added atoms).2.1.phase = store.phase := by
  obtain ⟨components, counts, same | same⟩ := store.add_changes added atoms <;> rw [same]

end ResidentStore

namespace GroundingSession

theorem phase_addEach {α : Type} (session : GroundingSession α)
    (items : List (Except (StoreFault α) (Term α))) :
    (session.addEach items).2.store.phase = session.store.phase := by
  induction items generalizing session with
  | nil => rfl
  | cons item later inductionHypothesis =>
      cases item with
      | error fault => exact inductionHypothesis session
      | ok term =>
          exact (inductionHypothesis (session.add term).2).trans
            (session.store.phase_add term session.atoms)

theorem store_addEach_of_closed {α : Type} {session : GroundingSession α}
    (closed : session.store.phase = .closed) (items : List (Except (StoreFault α) (Term α))) :
    (session.addEach items).2.store = session.store := by
  induction items generalizing session with
  | nil => rfl
  | cons item later inductionHypothesis =>
      cases item with
      | error fault => exact inductionHypothesis closed
      | ok term =>
          have refused : (session.add term).2.store = session.store := by
            simp only [GroundingSession.add, ResidentStore.add, closed]
          exact (inductionHypothesis ((congrArg ResidentStore.phase refused).trans closed)).trans
            refused

/-- What is stored after additions was stored before, or was added. -/
theorem mem_addEach {α : Type} {session : GroundingSession α}
    {terms : List (Term α)} {term : Term α}
    (member : term ∈ (session.addEach (terms.map .ok)).2.store.terms.toList) :
    term ∈ session.store.terms.toList ∨ term ∈ terms := by
  induction terms generalizing session with
  | nil => exact .inl member
  | cons added later inductionHypothesis =>
      rcases inductionHypothesis member with earlier | found
      · rcases ResidentStore.mem_add earlier with kept | rfl
        · exact .inl kept
        · exact .inr List.mem_cons_self
      · exact .inr (List.mem_cons_of_mem _ found)

end GroundingSession

/-- A rule set beside the grounding session that holds the terms of its rules. -/
structure Registry (α : Type) where
  rules : RuleSet α
  session : GroundingSession α

/-- What can be asked of a rule set and of the store beside it. A grounding is built with the rule
at a place of the set, and what is built is added. -/
inductive RegistryCall (α : Type) where
  | register (name : String) (weight : Weight α) (squared : Bool)
  | ground (ground : GroundRule α) (place : Nat)
  /-- The weight is told to the set and to the store. -/
  | setWeight (rule : RuleId) (weight : Weight α)
  | finish
  | clear
  | close
  | changeAtoms (change : AtomChange α)

inductive RegistryAnswer (α : Type) where
  | registered (answer : Except (StoreFault α) RuleId)
  /-- The answers to the terms, or the fault for which there are none. -/
  | grounded (answer : Except (StoreFault α) (List (Except (StoreFault α) TermId)))
  | reweighed (rules : Except (StoreFault α) Unit) (terms : Except (StoreFault α) Nat)
  | done (answer : Except (StoreFault α) Unit)
deriving DecidableEq

/-- A clause about a rule is built with a rule whose place is a rule number, and a comparison about
it with the rule of its own number. -/
def RegistryCall.Faithful {α : Type} (rule : RuleId) : RegistryCall α → Prop
  | .ground (.ofClause clause) place => clause.rule = rule → place < 4294967296
  | .ground (.ofComparison comparison) place => comparison.rule = rule → place = rule.index
  | _ => True

namespace Registry

variable {α : Type}

/-- The terms that are built with the rule at a place are added one by one. -/
def ground (registry : Registry α) (place : Nat)
    (build : Rule α → Except (StoreFault α) (List (Term α))) : RegistryAnswer α × Registry α :=
  match registry.rules.rules[place]? with
  | none => (.grounded (.error (.unknownRule (.ofIndex place))), registry)
  | some rule =>
      match build rule with
      | .error fault => (.grounded (.error fault), registry)
      | .ok terms =>
          let (answers, session) := registry.session.addEach (terms.map .ok)
          (.grounded (.ok answers), { registry with session })

/-- No rules, and a new store beside atoms. -/
def opened (atoms : AtomStore α) : Registry α := ⟨.empty, ⟨.empty, atoms⟩⟩

/-- Every rule is filed under its own number, and a closed store has no terms. -/
structure Orderly (registry : Registry α) : Prop where
  numbered : ∀ (place : Nat) (found : Rule α), registry.rules.rules[place]? = some found →
    found.id = RuleId.ofIndex place
  closed : registry.session.store.phase = .closed → registry.session.store.terms = #[]

/-- The stored terms of a rule carry the weight that the set has for it. -/
def Follows (registry : Registry α) (rule : RuleId) : Prop :=
  ∀ term ∈ registry.session.store.terms.toList, term.rule = rule →
    ∃ found, registry.rules.get rule = .ok found ∧ term.weight = found.weight

variable {registry : Registry α}

theorem orderly_opened (atoms : AtomStore α) : (opened atoms).Orderly where
  numbered := by
    intro place found filed
    cases filed
  closed := nofun

theorem follows_opened (atoms : AtomStore α) (rule : RuleId) : (opened atoms).Follows rule := by
  intro term member
  cases member

theorem follows_of_empty (empty : registry.session.store.terms = #[]) (rule : RuleId) :
    registry.Follows rule := by
  intro term member
  rw [empty] at member
  cases member

theorem Orderly.ground (orderly : registry.Orderly) (place : Nat)
    (build : Rule α → Except (StoreFault α) (List (Term α))) :
    (registry.ground place build).2.Orderly := by
  unfold Registry.ground
  cases filed : registry.rules.rules[place]? with
  | none => exact orderly
  | some found =>
      dsimp only
      cases built : build found with
      | error fault => exact orderly
      | ok terms =>
          refine ⟨orderly.numbered, fun closed => ?_⟩
          dsimp only at closed ⊢
          rw [GroundingSession.phase_addEach] at closed
          rw [GroundingSession.store_addEach_of_closed closed]
          exact orderly.closed closed

/-- Terms that carry the weight of the registered rule that they name keep the agreement. -/
theorem Follows.ground {rule : RuleId} (follows : registry.Follows rule) {place : Nat}
    {build : Rule α → Except (StoreFault α) (List (Term α))}
    (fits : ∀ found terms, registry.rules.rules[place]? = some found → build found = .ok terms →
      ∀ term ∈ terms, term.rule = rule →
        registry.rules.get rule = .ok found ∧ term.weight = found.weight) :
    (registry.ground place build).2.Follows rule := by
  unfold Registry.ground
  cases filed : registry.rules.rules[place]? with
  | none => exact follows
  | some found =>
      dsimp only
      cases built : build found with
      | error fault => exact follows
      | ok terms =>
          intro term member named
          rcases GroundingSession.mem_addEach member with kept | added
          · exact follows term kept named
          · exact ⟨found, fits found terms filed built term added named⟩

variable [Scalar α]

/-- Each of the two takes the weight, or refuses it on its own. -/
def setWeight (registry : Registry α) (rule : RuleId) (weight : Weight α) :
    RegistryAnswer α × Registry α :=
  let rules := registry.rules.setWeight rule weight
  let store := registry.session.store.setWeight rule weight
  (.reweighed (rules.map fun _ => ()) (store.map Prod.fst),
    ⟨rules.toOption.getD registry.rules,
      { registry.session with
        store := (store.map Prod.snd).toOption.getD registry.session.store }⟩)

def respond (registry : Registry α) : RegistryCall α → RegistryAnswer α × Registry α
  | .register name weight squared =>
      match registry.rules.register name weight squared with
      | .error fault => (.registered (.error fault), registry)
      | .ok (rule, rules) => (.registered (.ok rule), { registry with rules })
  | .ground ground place => registry.ground place ground.terms
  | .setWeight rule weight => registry.setWeight rule weight
  | .finish =>
      match registry.session.store.finish with
      | .error fault => (.done (.error fault), registry)
      | .ok store => (.done (.ok ()), ⟨registry.rules, { registry.session with store }⟩)
  | .clear =>
      match registry.session.store.clear with
      | .error fault => (.done (.error fault), registry)
      | .ok store => (.done (.ok ()), ⟨registry.rules, { registry.session with store }⟩)
  | .close =>
      (.done (.ok ()),
        ⟨registry.rules, { registry.session with store := registry.session.store.close }⟩)
  | .changeAtoms change =>
      (.done (.ok ()),
        ⟨registry.rules, { registry.session with atoms := registry.session.atoms.change change }⟩)

theorem Orderly.setWeight (orderly : registry.Orderly) (rule : RuleId) (weight : Weight α) :
    (registry.setWeight rule weight).2.Orderly where
  numbered := by
    intro place found filed
    simp only [Registry.setWeight] at filed
    cases outcome : registry.rules.setWeight rule weight with
    | error fault =>
        rw [outcome] at filed
        exact orderly.numbered place found filed
    | ok after =>
        rw [outcome] at filed
        simp only [Except.toOption, Option.getD_some, (RuleSet.setWeight_ok outcome).2.2,
          Array.getElem?_modify] at filed
        split at filed
        · obtain ⟨before, known, rfl⟩ := Option.map_eq_some_iff.mp filed
          exact orderly.numbered place before known
        · exact orderly.numbered place found filed
  closed := by
    simp only [Registry.setWeight]
    cases outcome : registry.session.store.setWeight rule weight with
    | error fault => exact orderly.closed
    | ok reweighed =>
        obtain ⟨count, after⟩ := reweighed
        obtain ⟨rfl, -⟩ := ResidentStore.setWeight_ok outcome
        intro closed
        have empty := orderly.closed closed
        simp only [Except.map, Except.toOption, Option.getD_some, empty, Array.map_empty]

/-- A weight that is told to both keeps the agreement. -/
theorem Follows.setWeight {rule : RuleId} (follows : registry.Follows rule)
    (orderly : registry.Orderly) (reweighed : RuleId) (weight : Weight α) :
    (registry.setWeight reweighed weight).2.Follows rule := by
  cases stored : registry.session.store.setWeight reweighed weight with
  | error fault =>
      rcases ResidentStore.setWeight_error stored with closed | invalid
      · apply follows_of_empty
        simp only [Registry.setWeight, stored]
        exact orderly.closed closed
      · have unchanged : (registry.setWeight reweighed weight).2 = registry := by
          simp only [Registry.setWeight, stored, RuleSet.setWeight, invalid]
          rfl
        rw [unchanged]
        exact follows
  | ok outcome =>
      obtain ⟨count, after⟩ := outcome
      obtain ⟨rfl, valid⟩ := ResidentStore.setWeight_ok stored
      intro term member named
      simp only [Registry.setWeight, stored, Except.map, Except.toOption, Option.getD_some,
        Array.toList_map, List.mem_map] at member
      obtain ⟨before, kept, rfl⟩ := member
      rw [Term.rule_reweigh] at named
      obtain ⟨found, known, same⟩ := follows before kept named
      rw [Term.reweigh_eq, named]
      cases told : registry.rules.setWeight reweighed weight with
      | error fault =>
          have other : rule ≠ reweighed := by
            rintro rfl
            obtain ⟨inRange, -⟩ := Array.getElem?_eq_some_iff.mp (RuleSet.place_of_get known)
            rcases RuleSet.setWeight_error told with invalid | unknown
            · rw [valid] at invalid
              cases invalid
            · exact absurd inRange (Nat.not_lt.mpr unknown)
          refine ⟨found, ?_, ?_⟩
          · simp only [Registry.setWeight, told]
            exact known
          · rw [if_neg other]
            exact same
      | ok rules =>
          refine ⟨if rule = reweighed then { found with weight } else found, ?_, ?_⟩
          · simp only [Registry.setWeight, told]
            exact RuleSet.get_setWeight told known
          · by_cases own : rule = reweighed
            · rw [if_pos own, if_pos own]
            · rw [if_neg own, if_neg own]
              exact same

/-- Whatever is asked, the registry stays orderly. -/
theorem Orderly.respond (orderly : registry.Orderly) (call : RegistryCall α) :
    (registry.respond call).2.Orderly := by
  cases call with
  | register name weight squared =>
      simp only [Registry.respond]
      cases registered : registry.rules.register name weight squared with
      | error fault => exact orderly
      | ok outcome =>
          obtain ⟨rule, rules⟩ := outcome
          refine ⟨fun place found filed => ?_, orderly.closed⟩
          dsimp only at filed
          rw [RuleSet.register_ok registered, Array.getElem?_push] at filed
          split at filed
          · rename_i last
            rw [last, ← Option.some.inj filed]
            rfl
          · exact orderly.numbered place found filed
  | ground ground place => exact orderly.ground place ground.terms
  | setWeight rule weight => exact orderly.setWeight rule weight
  | finish =>
      simp only [Registry.respond, ResidentStore.finish]
      cases phase : registry.session.store.phase with
      | closed => exact orderly
      | grounding => exact ⟨orderly.numbered, fun closed => by cases closed⟩
      | ready => exact ⟨orderly.numbered, fun closed => by cases closed⟩
  | clear =>
      simp only [Registry.respond, ResidentStore.clear]
      cases phase : registry.session.store.phase with
      | closed => exact orderly
      | grounding => exact ⟨orderly.numbered, fun closed => by cases closed⟩
      | ready => exact ⟨orderly.numbered, fun closed => by cases closed⟩
  | close => exact ⟨orderly.numbered, fun _ => rfl⟩
  | changeAtoms change => exact ⟨orderly.numbered, orderly.closed⟩

theorem Orderly.run (orderly : registry.Orderly) (calls : List (RegistryCall α)) :
    (performAll Registry.respond registry calls).2.Orderly :=
  performAll_invariant (fun _ call kept => kept.respond call) orderly calls

/-- Terms of a faithful grounding carry the weight of the registered rule that they name. -/
theorem Follows.respond {rule : RuleId} (follows : registry.Follows rule)
    (orderly : registry.Orderly) {call : RegistryCall α} (faithful : call.Faithful rule) :
    (registry.respond call).2.Follows rule := by
  cases call with
  | register name weight squared =>
      simp only [Registry.respond]
      cases registered : registry.rules.register name weight squared with
      | error fault => exact follows
      | ok outcome =>
          obtain ⟨given, rules⟩ := outcome
          intro term member named
          obtain ⟨found, known, same⟩ := follows term member named
          exact ⟨found, RuleSet.get_register registered known, same⟩
  | ground ground place =>
      refine follows.ground fun found terms filed built term member named => ?_
      obtain ⟨own, weight⟩ := GroundRule.terms_carried built term member
      have placed : place = rule.index := by
        cases ground with
        | ofClause clause =>
            obtain ⟨asked, -⟩ := GroundRule.terms_ofClause_ok built
            have number : RuleId.ofIndex place = rule :=
              (orderly.numbered place found filed).symm.trans
                (asked.trans (own.symm.trans named))
            rw [← number, RuleId.index_ofIndex (faithful (own.symm.trans named))]
        | ofComparison comparison => exact faithful (own.symm.trans named)
      exact ⟨RuleSet.get_of_place (placed ▸ filed), weight⟩
  | setWeight reweighed weight => exact follows.setWeight orderly reweighed weight
  | finish =>
      simp only [Registry.respond, ResidentStore.finish]
      cases phase : registry.session.store.phase <;> exact follows
  | clear =>
      simp only [Registry.respond, ResidentStore.clear]
      cases phase : registry.session.store.phase with
      | closed => exact follows
      | grounding => exact follows_of_empty rfl rule
      | ready => exact follows_of_empty rfl rule
  | close => exact follows_of_empty rfl rule
  | changeAtoms change => exact follows

/-- Once the set and the store have both taken a weight for a rule, they agree on it. -/
theorem follows_of_reweighed {rule : RuleId} {weight : Weight α} {count : Nat}
    (taken : (registry.respond (.setWeight rule weight)).1 = .reweighed (.ok ()) (.ok count)) :
    (registry.respond (.setWeight rule weight)).2.Follows rule := by
  simp only [Registry.respond, Registry.setWeight] at taken ⊢
  obtain ⟨ruleTaken, termsTaken⟩ := RegistryAnswer.reweighed.inj taken
  cases told : registry.rules.setWeight rule weight with
  | error fault =>
      rw [told] at ruleTaken
      cases ruleTaken
  | ok rules =>
      cases stored : registry.session.store.setWeight rule weight with
      | error fault =>
          rw [stored] at termsTaken
          cases termsTaken
      | ok outcome =>
          obtain ⟨other, after⟩ := outcome
          obtain ⟨rfl, -⟩ := ResidentStore.setWeight_ok stored
          intro term member named
          simp only [Except.map, Except.toOption, Option.getD_some, Array.toList_map,
            List.mem_map] at member
          obtain ⟨before, -, rfl⟩ := member
          rw [Term.rule_reweigh] at named
          obtain ⟨-, known, -⟩ := RuleSet.setWeight_ok told
          have filed := Array.getElem?_eq_getElem known
          refine ⟨_, RuleSet.get_setWeight told (RuleSet.get_of_place filed), ?_⟩
          rw [Term.reweigh_eq, if_pos named, if_pos rfl]

/-- What holds of an orderly registry that follows holds after any faithful calls. -/
theorem Follows.run {rule : RuleId} (follows : registry.Follows rule)
    (orderly : registry.Orderly) {calls : List (RegistryCall α)}
    (faithful : ∀ call ∈ calls, call.Faithful rule) :
    (performAll Registry.respond registry calls).2.Follows rule := by
  induction calls generalizing registry with
  | nil => exact follows
  | cons call later inductionHypothesis =>
      rw [List.forall_mem_cons] at faithful
      exact inductionHypothesis (follows.respond orderly faithful.1) (orderly.respond call)
        faithful.2

end Registry

/-- The stored terms of a rule carry the weight that the set has for it, if each comparison about
the rule is built with the rule of its own number. -/
theorem stored_weights_follow {α : Type} [Scalar α] (atoms : AtomStore α) (rule : RuleId) :
    (∀ calls : List (RegistryCall α), (∀ call ∈ calls, call.Faithful rule) →
        (performAll Registry.respond (.opened atoms) calls).2.Follows rule) ∧
      ∀ (calls later : List (RegistryCall α)) (weight : Weight α) (count : Nat),
        ((performAll Registry.respond (.opened atoms) calls).2.respond
            (.setWeight rule weight)).1 = .reweighed (.ok ()) (.ok count) →
          (∀ call ∈ later, call.Faithful rule) →
            (performAll Registry.respond (.opened atoms)
              (calls ++ .setWeight rule weight :: later)).2.Follows rule := by
  constructor
  · intro calls faithful
    exact (Registry.follows_opened atoms rule).run (Registry.orderly_opened atoms) faithful
  · intro calls later weight count taken faithful
    have orderly := (Registry.orderly_opened atoms).run calls
    rw [performAll_append, performAll_cons]
    exact (Registry.follows_of_reweighed taken).run (orderly.respond _) faithful

/-- Two rules beside an atom, and two groundings of the first rule. -/
def sampleRegistryCalls (place : Nat) : List (RegistryCall Single) :=
  [.register "first" (.soft 1) false, .register "second" (.soft 0) true,
    .changeAtoms (.register ⟨0, false⟩),
    .ground (.ofClause ⟨⟨0⟩, [⟨0⟩], []⟩) 1, .ground (.ofClause ⟨⟨0⟩, [], [⟨0⟩]⟩) 0,
    .ground (.ofComparison ⟨⟨0⟩, [⟨0⟩], [1], .atMost, 0⟩) place]

/-- A clause that is refused, a clause, a comparison and a new weight; and a comparison of another
rule that the next weight puts right. -/
theorem stored_weights_follow_sample :
    let rule : RuleId := ⟨0⟩
    let spoiled := (performAll Registry.respond (.opened .empty) (sampleRegistryCalls 1)).2
    let told : RegistryCall Single := .setWeight rule .hard
    (performAll Registry.respond (.opened .empty)
        (sampleRegistryCalls 0 ++ [told])).2.Follows rule ∧
      (spoiled.respond told).1 = .reweighed (.ok ()) (.ok 2) ∧
      (performAll Registry.respond (.opened .empty)
        (sampleRegistryCalls 1 ++ [told, .finish])).2.Follows rule := by
  intro rule spoiled told
  have taken : (spoiled.respond told).1 = .reweighed (.ok ()) (.ok 2) := by decide +kernel
  obtain ⟨follows, repaired⟩ := stored_weights_follow (.empty : AtomStore Single) rule
  refine ⟨follows _ ?_, taken, repaired _ [.finish] _ 2 taken ?_⟩
  · simp [sampleRegistryCalls, RegistryCall.Faithful, told, rule, RuleId.index]
  · simp [RegistryCall.Faithful]

/-- A comparison of the first rule that is built with the second one is stored under the number of
the first rule with the weight of the second. -/
theorem comparison_takes_foreign_weight :
    let after := (performAll Registry.respond (.opened .empty) (sampleRegistryCalls 1)).2
    after.session.store.terms.toList.map (fun term => (term.rule, term.weight)) =
        [(⟨0⟩, .soft 1), (⟨0⟩, .soft 0)] ∧
      (after.rules.get ⟨0⟩).map Rule.weight = .ok (.soft 1) ∧ ¬ after.Follows ⟨0⟩ := by
  intro after
  have weights : after.session.store.terms.toList.map (fun term => (term.rule, term.weight)) =
      [(⟨0⟩, .soft 1), (⟨0⟩, .soft 0)] := by decide +kernel
  have registered : (after.rules.get ⟨0⟩).map Rule.weight = .ok (.soft 1) := by decide +kernel
  refine ⟨weights, registered, fun follows => ?_⟩
  have stored : ((⟨0⟩, .soft 0) : RuleId × Weight Single) ∈
      after.session.store.terms.toList.map fun term => (term.rule, term.weight) := by
    rw [weights]
    decide
  obtain ⟨term, member, same⟩ := List.mem_map.mp stored
  obtain ⟨named, weight⟩ := Prod.mk.inj same
  obtain ⟨found, known, agreed⟩ := follows term member named
  rw [known] at registered
  have equal : (.soft 0 : Weight Single) = .soft 1 := by
    rw [← weight, agreed]
    exact Except.ok.inj registered
  exact absurd equal (by decide +kernel)

end HingeLoss
