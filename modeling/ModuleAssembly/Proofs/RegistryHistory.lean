import Mathlib.Data.List.Induction
import ModuleAssembly.Proofs.Memo
import ModuleAssembly.Proofs.References

/-!
# Registries by their history

A registry is followed by the calls that were made on it. What it lists is the last entity of each
type name (`Registry.get?_afterCalls`, `Registry.list_afterCalls`). What it remembers of a type name
is the symbol of one entity, the one that stood under the name at the first call that found one
(`settled?`, `Registry.lookup?_afterCalls`): calls that fail leave no mark, and neither a later
registration nor a reference that asks for a type changes what is remembered.
-/

set_option autoImplicit false

namespace ModuleAssembly

/-! ## Calls -/

/-- A call on a registry. -/
inductive RegistryCall where
  | register (e : Entity)
  | resolve (typeName : String)
  | resolveUse (ref : EntityUse)
deriving DecidableEq

namespace RegistryCall

/-- The entity that the call registers. -/
def entity? : RegistryCall → Option Entity
  | .register e => some e
  | _ => none

/-- The reference that the call asks for; a type name on its own is asked for as a value. -/
def asked? : RegistryCall → Option EntityUse
  | .register _ => none
  | .resolve typeName => some ⟨typeName, false⟩
  | .resolveUse ref => some ref

/-- The call asks for the symbol of a type name. -/
def asksFor (typeName : String) (c : RegistryCall) : Bool :=
  c.asked?.any fun ref => ref.typeName == typeName

/-- A call registers an entity or asks for a reference. -/
theorem registers_or_asks (c : RegistryCall) :
    (∃ e, c = .register e) ∨ ∃ ref, c.asked? = some ref := by
  cases c with
  | register e => exact .inl ⟨e, rfl⟩
  | resolve t => exact .inr ⟨⟨t, false⟩, rfl⟩
  | resolveUse ref => exact .inr ⟨ref, rfl⟩

theorem asksFor_iff {c : RegistryCall} {t : String} :
    c.asksFor t = true ↔ ∃ ref, c.asked? = some ref ∧ ref.typeName = t := by
  simp only [asksFor, Option.any_eq_true, beq_iff_eq]

theorem asksFor_of_asked {c : RegistryCall} {ref : EntityUse} (h : c.asked? = some ref)
    (t : String) : c.asksFor t = (ref.typeName == t) := by
  rw [asksFor, h, Option.any_some]

end RegistryCall

/-- The entities that a history registers, in order. -/
def registered (history : List RegistryCall) : List Entity :=
  history.filterMap RegistryCall.entity?

/-- The last entity that a history registers under a type name. -/
def lastRegistered? (history : List RegistryCall) (typeName : String) : Option Entity :=
  Registry.lastNamed? (registered history) typeName

/-- The entity of the first call that asks for a type name and finds one, when the history goes on
with these calls. -/
def settledFrom? (typeName : String) (before : List RegistryCall) :
    List RegistryCall → Option Entity
  | [] => none
  | c :: rest =>
    (if c.asksFor typeName then lastRegistered? before typeName else none).or
      (settledFrom? typeName (before ++ [c]) rest)

/-- The entity that settles the symbol of a type name: the one that stood under the name at the
first call that asks for it and finds one. -/
def settled? (history : List RegistryCall) (typeName : String) : Option Entity :=
  settledFrom? typeName [] history

/-- The entity that a registry answers with: the one that settled the symbol, or the last one while
nothing did. -/
def answering? (history : List RegistryCall) (typeName : String) : Option Entity :=
  (settled? history typeName).or (lastRegistered? history typeName)

/-! ## The last entity -/

theorem registered_concat (history : List RegistryCall) (c : RegistryCall) :
    registered (history ++ [c]) = registered history ++ c.entity?.toList := by
  unfold registered
  rw [List.filterMap_append, List.filterMap_cons, List.filterMap_nil]
  cases c.entity? with
  | none => rfl
  | some e => rfl

theorem lastRegistered?_register (history : List RegistryCall) (e : Entity) (t : String) :
    lastRegistered? (history ++ [.register e]) t
      = if e.typeName = t then some e else lastRegistered? history t := by
  unfold lastRegistered?
  rw [registered_concat]
  exact Registry.lastNamed?_concat (registered history) e t

/-- A call that registers nothing leaves the last entity of each name. -/
theorem lastRegistered?_of_asked {c : RegistryCall} {ref : EntityUse} (h : c.asked? = some ref)
    (history : List RegistryCall) (t : String) :
    lastRegistered? (history ++ [c]) t = lastRegistered? history t := by
  have hnone : c.entity? = none := by
    cases c with
    | register e => cases h
    | resolve t => rfl
    | resolveUse ref => rfl
  unfold lastRegistered?
  rw [registered_concat, hnone, Option.toList_none, List.append_nil]

/-- The last entity of a name has that name. -/
theorem typeName_of_lastRegistered? {history : List RegistryCall} {t : String} {e : Entity}
    (h : lastRegistered? history t = some e) : e.typeName = t :=
  Registry.typeName_of_lastNamed? h

theorem mem_registered {history : List RegistryCall} {e : Entity} :
    e ∈ registered history ↔ RegistryCall.register e ∈ history := by
  unfold registered
  rw [List.mem_filterMap]
  constructor
  · rintro ⟨c, hc, he⟩
    cases c with
    | register e' =>
        cases he
        exact hc
    | resolve t => cases he
    | resolveUse ref => cases he
  · intro h
    exact ⟨.register e, h, rfl⟩

/-- There is a last entity of a name exactly if the name was registered. -/
theorem exists_lastRegistered?_iff {history : List RegistryCall} {t : String} :
    (∃ e, lastRegistered? history t = some e)
      ↔ ∃ e, RegistryCall.register e ∈ history ∧ e.typeName = t := by
  simp only [lastRegistered?, Registry.exists_lastNamed?_iff, mem_registered]

/-! ## The entity that settles a symbol -/

/-- One more call settles a symbol that was not settled before, if it asks for the name and finds
an entity. -/
theorem settled?_concat (history : List RegistryCall) (c : RegistryCall) (t : String) :
    settled? (history ++ [c]) t = (settled? history t).or
      (if c.asksFor t then lastRegistered? history t else none) := by
  -- the history that went before grows along the recursion, so the fact is about any such history
  have hfrom : ∀ before, settledFrom? t before (history ++ [c])
      = (settledFrom? t before history).or
        (if c.asksFor t then lastRegistered? (before ++ history) t else none) := by
    induction history with
    | nil =>
        intro before
        rw [List.nil_append, List.append_nil, settledFrom?, settledFrom?, settledFrom?,
          Option.or_none, Option.none_or]
    | cons d history ih =>
        intro before
        rw [List.cons_append, settledFrom?, settledFrom?, ih, Option.or_assoc, List.append_assoc,
          List.singleton_append]
  exact hfrom []

/-- What is settled stays settled. -/
theorem settled?_append {history : List RegistryCall} {t : String} {e : Entity}
    (h : settled? history t = some e) (more : List RegistryCall) :
    settled? (history ++ more) t = some e := by
  induction more using List.reverseRecOn with
  | nil => rwa [List.append_nil]
  | append_singleton more c ih =>
      rw [← List.append_assoc, settled?_concat, ih, Option.some_or]

/-- A symbol is settled by a call that asks for the name and finds an entity. -/
theorem exists_call_of_settled? {history : List RegistryCall} {t : String} {e : Entity}
    (h : settled? history t = some e) :
    ∃ before c rest, history = before ++ c :: rest ∧ c.asksFor t = true ∧
      lastRegistered? before t = some e := by
  induction history using List.reverseRecOn with
  | nil => cases h
  | append_singleton history c ih =>
      rw [settled?_concat] at h
      rcases Option.or_eq_some_iff.mp h with h | ⟨-, h⟩
      · obtain ⟨before, d, rest, rfl, hasks, hlast⟩ := ih h
        exact ⟨before, d, rest ++ [c], by simp, hasks, hlast⟩
      · split at h
        · next hasks => exact ⟨history, c, [], rfl, hasks, h⟩
        · cases h

/-- A call that asks for a name settles its symbol by the entity that it is answered with. -/
theorem settled?_concat_of_asksFor {c : RegistryCall} {t : String} (h : c.asksFor t = true)
    (history : List RegistryCall) : settled? (history ++ [c]) t = answering? history t := by
  rw [settled?_concat, if_pos h, answering?]

theorem answering?_of_settled? {history : List RegistryCall} {t : String} {e : Entity}
    (h : settled? history t = some e) : answering? history t = some e := by
  rw [answering?, h, Option.some_or]

theorem typeName_of_answering? {history : List RegistryCall} {t : String} {e : Entity}
    (h : answering? history t = some e) : e.typeName = t := by
  rcases Option.or_eq_some_iff.mp h with h | ⟨-, h⟩
  · obtain ⟨_, _, _, -, -, hlast⟩ := exists_call_of_settled? h
    exact typeName_of_lastRegistered? hlast
  · exact typeName_of_lastRegistered? h

/-- There is an answer exactly if the name was registered. -/
theorem exists_answering?_iff {history : List RegistryCall} {t : String} :
    (∃ e, answering? history t = some e)
      ↔ ∃ e, RegistryCall.register e ∈ history ∧ e.typeName = t := by
  rw [← exists_lastRegistered?_iff, answering?]
  cases hs : settled? history t with
  | none => rw [Option.none_or]
  | some e =>
      -- an entity was under the name when it was settled, and there is one ever since
      obtain ⟨before, c, rest, rfl, -, hlast⟩ := exists_call_of_settled? hs
      obtain ⟨e', hmem, htype⟩ := exists_lastRegistered?_iff.mp ⟨e, hlast⟩
      have hlater : ∃ e', lastRegistered? (before ++ c :: rest) t = some e' :=
        exists_lastRegistered?_iff.mpr ⟨e', List.mem_append_left _ hmem, htype⟩
      exact iff_of_true ⟨e, Option.some_or⟩ hlater

/-! ## The registry after a history -/

/-- The symbol that an entity is declared as. -/
def Entity.symbol (naming : Naming) (e : Entity) : Symbol :=
  ⟨e.localName, naming.importPath e.file, false⟩

namespace Registry

/-- The answer to a call, and the registry after it. Registering is not answered. -/
def perform (r : Registry) : RegistryCall → Option (Except Error Symbol) × Registry
  | .register e => (none, r.register e)
  | .resolve typeName => (some (r.resolve typeName).1, (r.resolve typeName).2)
  | .resolveUse ref => (some (r.resolveUse ref).1, (r.resolveUse ref).2)

/-- A new registry after a history of calls. -/
def afterCalls (naming : Naming) (history : List RegistryCall) : Registry :=
  history.foldl (fun r c => (r.perform c).2) { naming }

/-- The answer to a call that follows a history. -/
def answerAfter (naming : Naming) (history : List RegistryCall) (c : RegistryCall) :
    Option (Except Error Symbol) :=
  ((afterCalls naming history).perform c).1

/-- A call that asks for a reference is answered with the symbol of its type name, and resolves
it. -/
theorem perform_of_asked (r : Registry) {c : RegistryCall} {ref : EntityUse}
    (h : c.asked? = some ref) :
    r.perform c = (some ((r.answer ref.typeName).map fun s => s.usedAs ref.typeOnly),
      (r.resolve ref.typeName).2) := by
  cases c with
  | register e => cases h
  | resolve t =>
      cases h
      have hvalue : (r.answer t).map (fun s => s.usedAs false) = r.answer t := by
        cases r.answer t with
        | error e => rfl
        | ok s => rfl
      show (some (r.answer t), _) = _
      rw [hvalue]
  | resolveUse ref' =>
      cases h
      rfl

section

variable (naming : Naming) (history : List RegistryCall)

theorem afterCalls_concat (c : RegistryCall) :
    afterCalls naming (history ++ [c]) = ((afterCalls naming history).perform c).2 := by
  unfold afterCalls
  rw [List.foldl_append, List.foldl_cons, List.foldl_nil]

theorem afterCalls_register (e : Entity) :
    afterCalls naming (history ++ [.register e]) = (afterCalls naming history).register e :=
  afterCalls_concat naming history (.register e)

theorem afterCalls_of_asked {c : RegistryCall} {ref : EntityUse} (h : c.asked? = some ref) :
    afterCalls naming (history ++ [c]) = ((afterCalls naming history).resolve ref.typeName).2 := by
  rw [afterCalls_concat, perform_of_asked _ h]

theorem naming_afterCalls : (afterCalls naming history).naming = naming := by
  induction history using List.reverseRecOn with
  | nil => rfl
  | append_singleton history c ih =>
      obtain ⟨e, rfl⟩ | ⟨ref, hc⟩ := c.registers_or_asks
      · rw [afterCalls_register]
        exact ih
      · rw [afterCalls_of_asked naming history hc, naming_resolve, ih]

theorem symbolOf_afterCalls : (afterCalls naming history).symbolOf = Entity.symbol naming := by
  funext e
  rw [symbolOf, naming_afterCalls, Entity.symbol]

/-- **The entities.** Under each type name a registry has the last entity that was registered. -/
theorem get?_afterCalls (t : String) :
    (afterCalls naming history).get? t = lastRegistered? history t := by
  induction history using List.reverseRecOn with
  | nil => rfl
  | append_singleton history c ih =>
      obtain ⟨e, rfl⟩ | ⟨ref, hc⟩ := c.registers_or_asks
      · rw [afterCalls_register, lastRegistered?_register]
        show Table.find? t (Table.insert e.typeName e (afterCalls naming history).entities) = _
        by_cases he : e.typeName = t
        · rw [if_pos he, ← he, Table.find?_insert_self]
        · rw [if_neg he, Table.find?_insert_of_ne (Ne.symm he)]
          exact ih
      · rw [afterCalls_of_asked naming history hc, get?_resolve, ih, lastRegistered?_of_asked hc]

/-- **The memory.** Of each type name a registry remembers the symbol of the entity that settled
it. -/
theorem lookup?_afterCalls (t : String) :
    (afterCalls naming history).lookup? t = (settled? history t).map (Entity.symbol naming) := by
  induction history using List.reverseRecOn with
  | nil => rfl
  | append_singleton history c ih =>
      rw [settled?_concat, Option.map_or, ← ih]
      obtain ⟨e, rfl⟩ | ⟨ref, hc⟩ := c.registers_or_asks
      · -- the memory is not cleared, although the entity under its name may be another one now
        rw [afterCalls_register]
        exact (Option.or_none).symm
      · rw [afterCalls_of_asked naming history hc, lookup?_resolve_eq, get?_afterCalls,
          symbolOf_afterCalls, RegistryCall.asksFor_of_asked hc]
        by_cases href : ref.typeName = t
        · simp [href]
        · simp [href]

/-- The answer is the symbol of the entity that settled it, or of the last one. -/
theorem answer_afterCalls (t : String) :
    (afterCalls naming history).answer t = match answering? history t with
      | none => .error (.unknownEntity t)
      | some e => .ok (e.symbol naming) := by
  rw [answer_eq, lookup?_afterCalls, get?_afterCalls, symbolOf_afterCalls, ← Option.map_or,
    answering?]
  cases (settled? history t).or (lastRegistered? history t) with
  | none => rfl
  | some e => rfl

/-- There is no answer exactly if no entity has the name. -/
theorem answer_afterCalls_eq_error_iff {t : String} {e : Error} :
    (afterCalls naming history).answer t = .error e
      ↔ (afterCalls naming history).get? t = none ∧ e = .unknownEntity t := by
  have hnone : answering? history t = none ↔ lastRegistered? history t = none := by
    rw [← not_iff_not, ← ne_eq, ← ne_eq, Option.ne_none_iff_exists', Option.ne_none_iff_exists',
      exists_answering?_iff, exists_lastRegistered?_iff]
  rw [answer_afterCalls, get?_afterCalls, ← hnone]
  cases answering? history t with
  | none => simp [eq_comm]
  | some e' => simp

/-- The answer to a call is that symbol, as a type if the reference asks for one. -/
theorem answerAfter_of_asked {c : RegistryCall} {ref : EntityUse} (h : c.asked? = some ref) :
    answerAfter naming history c = some (match answering? history ref.typeName with
      | none => .error (.unknownEntity ref.typeName)
      | some e => .ok ⟨e.localName, naming.importPath e.file, ref.typeOnly⟩) := by
  rw [answerAfter, perform_of_asked _ h, answer_afterCalls]
  cases answering? history ref.typeName with
  | none => rfl
  | some e =>
      cases ref.typeOnly with
      | false => rfl
      | true => rfl

/-- A call succeeds exactly with the symbol of the entity that it is answered with. -/
theorem answerAfter_eq_ok_iff {c : RegistryCall} {ref : EntityUse} (h : c.asked? = some ref)
    {s : Symbol} :
    answerAfter naming history c = some (.ok s)
      ↔ ∃ e, answering? history ref.typeName = some e ∧
        s = ⟨e.localName, naming.importPath e.file, ref.typeOnly⟩ := by
  rw [answerAfter_of_asked naming history h]
  cases answering? history ref.typeName with
  | none => simp
  | some e => simp [eq_comm]

/-! ### The list of entities -/

theorem ordered_entities : (afterCalls naming history).entities.Ordered := by
  induction history using List.reverseRecOn with
  | nil => exact List.Pairwise.nil
  | append_singleton history c ih =>
      obtain ⟨e, rfl⟩ | ⟨ref, hc⟩ := c.registers_or_asks
      · rw [afterCalls_register]
        exact Table.ordered_insert ih e.typeName e
      · rwa [afterCalls_of_asked naming history hc, entities_resolve]

/-- Every entity stands under its own type name, and it is the last one of that name. -/
theorem mem_entities_iff {t : String} {e : Entity} :
    (t, e) ∈ (afterCalls naming history).entities ↔ lastRegistered? history t = some e := by
  rw [← Table.find?_eq_some_iff (ordered_entities naming history), ← get?_afterCalls naming]
  rfl

/-- The list has the last entity of each type name. -/
theorem mem_list_afterCalls {e : Entity} :
    e ∈ (afterCalls naming history).list ↔ lastRegistered? history e.typeName = some e := by
  rw [list, List.mem_map]
  constructor
  · rintro ⟨⟨t, e⟩, hmem, rfl⟩
    have hlast := (mem_entities_iff naming history).mp hmem
    rwa [typeName_of_lastRegistered? hlast]
  · intro h
    exact ⟨(e.typeName, e), (mem_entities_iff naming history).mpr h, rfl⟩

/-- The list is in the order of the type names. -/
theorem list_afterCalls_ascending :
    ((afterCalls naming history).list.map Entity.typeName).Pairwise (· < ·) := by
  -- the table is ordered by its keys, and every entity stands under its own type name
  have hkeys : (afterCalls naming history).list.map Entity.typeName
      = (afterCalls naming history).entities.keys := by
    rw [list, List.map_map]
    refine List.map_congr_left fun p hp => ?_
    obtain ⟨t, e⟩ := p
    exact typeName_of_lastRegistered? ((mem_entities_iff naming history).mp hp)
  rw [hkeys]
  exact ordered_entities naming history

end

/-! ### A registry that was just filled -/

/-- Filling a registry is a history without questions. -/
theorem ofEntities_eq_afterCalls (naming : Naming) (es : List Entity) :
    ofEntities naming es = afterCalls naming (es.map RegistryCall.register) := by
  unfold afterCalls
  rw [List.foldl_map]
  rfl

theorem lastRegistered?_map_register (es : List Entity) (t : String) :
    lastRegistered? (es.map RegistryCall.register) t = lastNamed? es t := by
  have hregistered : registered (es.map RegistryCall.register) = es := by
    unfold registered
    rw [List.filterMap_map]
    exact List.filterMap_some
  rw [lastRegistered?, hregistered]

/-- It lists the last entity of each type name. -/
theorem mem_list_ofEntities {naming : Naming} {es : List Entity} {e : Entity} :
    e ∈ (ofEntities naming es).list ↔ lastNamed? es e.typeName = some e := by
  rw [ofEntities_eq_afterCalls, mem_list_afterCalls, lastRegistered?_map_register]

theorem list_ofEntities_ascending (naming : Naming) (es : List Entity) :
    ((ofEntities naming es).list.map Entity.typeName).Pairwise (· < ·) := by
  rw [ofEntities_eq_afterCalls]
  exact list_afterCalls_ascending naming _

/-- It answers a type name with the symbol of the last entity of that name. -/
theorem answer_ofEntities_eq_ok_iff {naming : Naming} {es : List Entity} {t : String}
    {s : Symbol} :
    (ofEntities naming es).answer t = .ok s
      ↔ ∃ e, lastNamed? es t = some e ∧ s = e.symbol naming := by
  rw [answer_ofEntities, find?_entityTable]
  cases lastNamed? es t with
  | none => simp
  | some e => simp [Entity.symbol, eq_comm]

/-! ## Symbols are settled once -/

/-- **A registry settles every symbol once.** What it means that a new registry that has been called
as the history says, in any order and with any repeated type names, answers the next call and
reports its entities. -/
structure SettlesOnce (naming : Naming) (history : List RegistryCall) : Prop where
  /-- A call for a type name succeeds exactly if the name was registered before. -/
  succeeds_iff : ∀ c ref, c.asked? = some ref →
    ((∃ s, answerAfter naming history c = some (.ok s)) ↔
      ∃ e, RegistryCall.register e ∈ history ∧ e.typeName = ref.typeName)
  /-- A call that does not succeed names the type name, and leaves the registry as it was. -/
  unknown : ∀ c ref, c.asked? = some ref →
    (¬ ∃ s, answerAfter naming history c = some (.ok s)) →
      answerAfter naming history c = some (.error (.unknownEntity ref.typeName)) ∧
        afterCalls naming (history ++ [c]) = afterCalls naming history
  /-- The first call for a type name that succeeds is answered with the entity that was registered
  last, and the symbol of this entity is remembered, as a value, whatever is called later. -/
  first : ∀ c ref e, c.asked? = some ref →
    (∀ before d rest earlier s, history = before ++ d :: rest → d.asked? = some earlier →
      earlier.typeName = ref.typeName → answerAfter naming before d ≠ some (.ok s)) →
    lastRegistered? history ref.typeName = some e →
      answerAfter naming history c
          = some (.ok ⟨e.localName, naming.importPath e.file, ref.typeOnly⟩) ∧
        ∀ later, (afterCalls naming (history ++ c :: later)).lookup? ref.typeName
          = some ⟨e.localName, naming.importPath e.file, false⟩
  /-- A call for a type name that was answered before is answered with the same symbol, as a type
  exactly if the reference asks for one. -/
  again : ∀ before d rest earlier s, history = before ++ d :: rest → d.asked? = some earlier →
    answerAfter naming before d = some (.ok s) →
    ∀ c ref, c.asked? = some ref → ref.typeName = earlier.typeName →
      answerAfter naming history c = some (.ok { s with typeOnly := ref.typeOnly })
  /-- Under each type name stands the entity that was registered last. -/
  get?_eq : ∀ t, (afterCalls naming history).get? t = lastRegistered? history t
  /-- The list has the entity that was registered last under each type name. -/
  mem_list_iff : ∀ e, e ∈ (afterCalls naming history).list ↔
    lastRegistered? history e.typeName = some e
  /-- The list is in strictly ascending order of the type names. -/
  list_ascending : ((afterCalls naming history).list.map Entity.typeName).Pairwise (· < ·)

section

variable {naming : Naming} {history : List RegistryCall}

theorem exists_answerAfter_iff {c : RegistryCall} {ref : EntityUse} (h : c.asked? = some ref) :
    (∃ s, answerAfter naming history c = some (.ok s)) ↔
      ∃ e, RegistryCall.register e ∈ history ∧ e.typeName = ref.typeName := by
  rw [← exists_answering?_iff]
  simp only [answerAfter_eq_ok_iff naming history h]
  constructor
  · rintro ⟨s, e, he, -⟩
    exact ⟨e, he⟩
  · rintro ⟨e, he⟩
    exact ⟨_, e, he, rfl⟩

/-- A call without an answer leaves no mark. -/
theorem answerAfter_of_not_registered {c : RegistryCall} {ref : EntityUse}
    (h : c.asked? = some ref) (hnone : ¬ ∃ s, answerAfter naming history c = some (.ok s)) :
    answerAfter naming history c = some (.error (.unknownEntity ref.typeName)) ∧
      afterCalls naming (history ++ [c]) = afterCalls naming history := by
  have hanswering : answering? history ref.typeName = none := by
    rw [exists_answerAfter_iff h, ← exists_answering?_iff] at hnone
    exact Option.eq_none_iff_forall_ne_some.mpr fun e he => hnone ⟨e, he⟩
  refine ⟨?_, ?_⟩
  · rw [answerAfter_of_asked naming history h, hanswering]
  · rw [afterCalls_of_asked naming history h]
    rcases resolve_cases (afterCalls naming history) ref.typeName with hsame | ⟨e, -, hget, -⟩
    · exact hsame
    · -- there is no entity that could be remembered
      rw [get?_afterCalls] at hget
      have hlast := (Option.or_eq_none_iff.mp hanswering).2
      rw [hget] at hlast
      cases hlast

/-- A type name whose symbol is settled was answered by some call. -/
theorem settled?_eq_none_of_not_answered {t : String}
    (h : ∀ before d rest earlier s, history = before ++ d :: rest → d.asked? = some earlier →
      earlier.typeName = t → answerAfter naming before d ≠ some (.ok s)) :
    settled? history t = none := by
  refine Option.eq_none_iff_forall_ne_some.mpr fun e he => ?_
  obtain ⟨before, d, rest, hsplit, hasks, hlast⟩ := exists_call_of_settled? he
  obtain ⟨earlier, hasked, rfl⟩ := RegistryCall.asksFor_iff.mp hasks
  obtain ⟨e', hmem, htype⟩ := exists_lastRegistered?_iff.mp ⟨e, hlast⟩
  obtain ⟨s, hanswer⟩ : ∃ s, answerAfter naming before d = some (.ok s) :=
    (exists_answerAfter_iff hasked).mpr ⟨e', hmem, htype⟩
  exact h before d rest earlier s hsplit hasked rfl hanswer

/-- The call that settles a symbol. -/
theorem answerAfter_of_first {c : RegistryCall} {ref : EntityUse} {e : Entity}
    (h : c.asked? = some ref) (hnone : settled? history ref.typeName = none)
    (hlast : lastRegistered? history ref.typeName = some e) :
    answerAfter naming history c
        = some (.ok ⟨e.localName, naming.importPath e.file, ref.typeOnly⟩) ∧
      ∀ later, (afterCalls naming (history ++ c :: later)).lookup? ref.typeName
        = some ⟨e.localName, naming.importPath e.file, false⟩ := by
  have hanswering : answering? history ref.typeName = some e := by
    rw [answering?, hnone, Option.none_or, hlast]
  refine ⟨(answerAfter_eq_ok_iff naming history h).mpr ⟨e, hanswering, rfl⟩, fun later => ?_⟩
  have hsettled : settled? (history ++ [c]) ref.typeName = some e := by
    rw [settled?_concat_of_asksFor (RegistryCall.asksFor_iff.mpr ⟨ref, h, rfl⟩), hanswering]
  rw [List.append_cons, lookup?_afterCalls, settled?_append hsettled later]
  rfl

/-- A call that was answered settled the symbol, and later calls are answered with it. -/
theorem answerAfter_of_answered {before rest : List RegistryCall} {d c : RegistryCall}
    {earlier ref : EntityUse} {s : Symbol} (hd : d.asked? = some earlier)
    (hs : answerAfter naming before d = some (.ok s)) (hc : c.asked? = some ref)
    (htype : ref.typeName = earlier.typeName) :
    answerAfter naming (before ++ d :: rest) c
      = some (.ok { s with typeOnly := ref.typeOnly }) := by
  obtain ⟨e, he, rfl⟩ := (answerAfter_eq_ok_iff naming before hd).mp hs
  have hsettled : settled? (before ++ [d]) ref.typeName = some e := by
    rw [settled?_concat_of_asksFor (RegistryCall.asksFor_iff.mpr ⟨earlier, hd, htype.symm⟩), htype,
      he]
  have hanswering : answering? (before ++ d :: rest) ref.typeName = some e := by
    rw [List.append_cons]
    exact answering?_of_settled? (settled?_append hsettled rest)
  exact (answerAfter_eq_ok_iff naming _ hc).mpr ⟨e, hanswering, rfl⟩

end

/-- Every registry settles every symbol once. -/
theorem settlesOnce (naming : Naming) (history : List RegistryCall) :
    SettlesOnce naming history where
  succeeds_iff c ref h := exists_answerAfter_iff h
  unknown c ref h hnone := answerAfter_of_not_registered h hnone
  first c ref e h hearlier hlast :=
    answerAfter_of_first h (settled?_eq_none_of_not_answered hearlier) hlast
  again before d rest earlier s hsplit hd hs c ref hc htype := by
    subst hsplit
    exact answerAfter_of_answered hd hs hc htype
  get?_eq t := get?_afterCalls naming history t
  mem_list_iff e := mem_list_afterCalls naming history
  list_ascending := list_afterCalls_ascending naming history

/-- A type name is asked for too early, then registered twice, and asked for as a type in between:
the first entity gives the symbol, and the second one is listed. -/
example :
    let old : Entity := ⟨"a.Person", .message, "person.proto", some "a"⟩
    let new : Entity := ⟨"a.Person", .enum, "people.proto", none⟩
    let history : List RegistryCall :=
      [.resolve "a.Person", .register old, .resolveUse ⟨"a.Person", true⟩, .register new]
    answerAfter ⟨"_pb", ".js"⟩ history (.resolve "a.Person")
        = some (.ok ⟨"Person", "./person_pb.js", false⟩) ∧
      (afterCalls ⟨"_pb", ".js"⟩ history).list = [new] := by
  decide +kernel

end Registry

end ModuleAssembly
