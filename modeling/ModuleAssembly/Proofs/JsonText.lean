import ModuleAssembly.Proofs.JsonLexemes

/-!
# Reading written JSON

The draft of a compact text is the draft of the value that was written, whatever its depth
(`Draft.ofText_compact`), so a decoder meets in the text what it would meet in the value. Read as
any value it gives the value with its members in order (`Json.ofText_compact`); a value whose
members are in tables at every depth (`Json.Ordered`) is in order already.
-/

set_option autoImplicit false

namespace ModuleAssembly

/-! ## From lexemes to drafts -/

namespace Draft

open Json (itemLexemes memberLexemes)

mutual

/-- The lexemes of a value are read up to its end. -/
theorem readValue_lexemes : ∀ (v : Json) (stack : List Frame) (rest : List Lexeme),
    readValue stack (v.lexemes ++ rest) = readAfter stack (ofJson v) rest
  | .null, _, _ => rfl
  | .bool _, _, _ => rfl
  | .number _, _, _ => rfl
  | .string _, _, _ => rfl
  | .array [], _, _ => rfl
  | .array (v :: more), stack, rest => by
      have hitems := readValue_itemLexemes (v :: more) (List.cons_ne_nil _ _) stack [] rest
      rw [Json.lexemes, List.cons_append, List.append_assoc, readValue, List.singleton_append,
        hitems]
      rfl
  | .object [], _, _ => rfl
  | .object (m :: more), stack, rest => by
      have hmembers := readKey_memberLexemes (m :: more) (List.cons_ne_nil _ _) stack [] rest
      rw [Json.lexemes, List.cons_append, List.append_assoc, readValue, List.singleton_append,
        hmembers]
      rfl

/-- Items are read behind the items `done`, up to the closing bracket. -/
theorem readValue_itemLexemes : ∀ (items : List Json), items ≠ [] →
    ∀ (stack : List Frame) (done : List Draft) (rest : List Lexeme),
      readValue (.array done :: stack)
          ([Lexeme.comma].intercalate (itemLexemes items) ++ .closeArray :: rest)
        = readAfter stack (.array (done.reverse ++ ofItems items) .closed) rest
  | [], hne, _, _, _ => absurd rfl hne
  | [v], _, stack, done, rest => by
      rw [itemLexemes, itemLexemes, List.intercalate_singleton, readValue_lexemes v, readAfter,
        List.reverse_cons]
      rfl
  | v :: w :: more, _, stack, done, rest => by
      have hmore := readValue_itemLexemes (w :: more) (List.cons_ne_nil _ _) stack
        (ofJson v :: done) rest
      rw [itemLexemes] at hmore ⊢
      rw [itemLexemes, List.intercalate_cons_cons, List.append_assoc, List.append_assoc,
        readValue_lexemes v, List.singleton_append, readAfter, hmore, List.reverse_cons,
        List.append_assoc]
      rfl

/-- Members are read behind the members `done`, up to the closing brace. -/
theorem readKey_memberLexemes : ∀ (members : List (String × Json)), members ≠ [] →
    ∀ (stack : List Frame) (done : List (Draft × Draft)) (rest : List Lexeme),
      readKey stack done
          ([Lexeme.comma].intercalate (memberLexemes members) ++ .closeObject :: rest)
        = readAfter stack (.object (done.reverse ++ ofMembers members) .closed) rest
  | [], hne, _, _, _ => absurd rfl hne
  | [(k, v)], _, stack, done, rest => by
      rw [memberLexemes, memberLexemes, List.intercalate_singleton, List.cons_append,
        List.cons_append, readKey, readValue_lexemes v, readAfter, List.reverse_cons]
      rfl
  | (k, v) :: m :: more, _, stack, done, rest => by
      have hmore := readKey_memberLexemes (m :: more) (List.cons_ne_nil _ _) stack
        ((.string (some k), ofJson v) :: done) rest
      obtain ⟨k', v'⟩ := m
      rw [memberLexemes] at hmore ⊢
      rw [memberLexemes, List.intercalate_cons_cons, List.append_assoc, List.append_assoc,
        List.cons_append, List.cons_append, readKey, readValue_lexemes v, List.singleton_append,
        readAfter, hmore, List.reverse_cons, List.append_assoc]
      rfl

end

/-- **The draft of a compact text is the draft of the value**, with nothing behind it. -/
theorem ofText_compact {v : Json} (h : Json.AllReadBack v.reals) :
    ofText v.compact = (ofJson v, []) := by
  have hread := readValue_lexemes v [] []
  rw [List.append_nil] at hread
  rw [ofText, Json.ofChars_compact h, hread, readAfter]

end Draft

/-! ## From drafts to values -/

namespace Decoder

/-- A decoder that is given the compact text of a value is given the value. -/
theorem ofText_compact {α : Type} (decoder : Decoder α) {v : Json}
    (h : Json.AllReadBack v.reals) :
    decoder.ofText v.compact = decoder nestingLimit (Draft.ofJson v) := by
  unfold ofText
  rw [Draft.ofText_compact h]
  dsimp only
  cases decoder nestingLimit (Draft.ofJson v) with
  | error e => rfl
  | ok a => rfl

mutual

/-- Any value is read with its members in order, as far as containers may be entered. -/
theorem json_ofJson : ∀ {depth : Nat} (v : Json), v.depth ≤ depth →
    json depth (Draft.ofJson v) = .ok v.sorted
  | _, .null, _ => rfl
  | _, .bool _, _ => rfl
  | _, .number _, _ => rfl
  | _, .string _, _ => rfl
  | 0, .array _, h => absurd h (Nat.not_succ_le_zero _)
  | depth + 1, .array items, h => by
      have hitems := jsonItems_ofItems items (Nat.le_of_succ_le_succ h)
      rw [Draft.ofJson, json, hitems]
      rfl
  | 0, .object _, h => absurd h (Nat.not_succ_le_zero _)
  | depth + 1, .object members, h => by
      have hmembers := jsonMembers_ofMembers members (Nat.le_of_succ_le_succ h)
      rw [Draft.ofJson, json, hmembers]
      rfl

theorem jsonItems_ofItems : ∀ {depth : Nat} (items : List Json), Json.depthItems items ≤ depth →
    jsonItems depth (Draft.ofItems items) = .ok (Json.sortedItems items)
  | _, [], _ => rfl
  | depth, v :: rest, h => by
      obtain ⟨hv, hrest⟩ := Nat.max_le.mp h
      rw [Draft.ofItems, jsonItems, json_ofJson v hv, jsonItems_ofItems rest hrest]
      rfl

theorem jsonMembers_ofMembers : ∀ {depth : Nat} (members : List (String × Json)),
    Json.depthMembers members ≤ depth →
      jsonMembers depth (Draft.ofMembers members) = .ok (Json.sortedMembers members)
  | _, [], _ => rfl
  | depth, (k, v) :: rest, h => by
      obtain ⟨hv, hrest⟩ := Nat.max_le.mp h
      rw [Draft.ofMembers, jsonMembers, json_ofJson v hv, jsonMembers_ofMembers rest hrest]
      rfl

end

end Decoder

/-- **Reading undoes writing**, up to the order of members. -/
theorem Json.ofText_compact {v : Json} (hdepth : v.depth ≤ nestingLimit)
    (hreals : AllReadBack v.reals) : Json.ofText v.compact = .ok v.sorted :=
  calc Json.ofText v.compact
      = Decoder.json nestingLimit (Draft.ofJson v) := Decoder.ofText_compact Decoder.json hreals
    _ = .ok v.sorted := Decoder.json_ofJson v hdepth

/-! ## Values in order -/

namespace Table

variable {α : Type}

/-- A key beyond all others goes to the end. -/
theorem insert_of_forall_lt {key : String} (value : α) :
    ∀ {t : Table α}, (∀ k ∈ t.keys, k < key) → t.insert key value = t ++ [(key, value)]
  | [], _ => rfl
  | (k, v) :: rest, h => by
      obtain ⟨hk, hrest⟩ := List.forall_mem_cons.mp h
      have hnot : ¬ key < k := fun hlt => String.lt_irrefl _ (String.lt_trans hlt hk)
      have hne : key ≠ k := by
        rintro rfl
        exact hnot hk
      rw [insert, if_neg hnot, if_neg hne, insert_of_forall_lt value hrest, List.cons_append]

/-- Pairs in ascending order of their keys make up a table as they are. -/
theorem ofPairs_of_ordered {t : Table α} (h : t.Ordered) : ofPairs t = t := by
  -- what was put so far stays in front of what is left to put
  have hfold : ∀ (rest front : Table α), Ordered (front ++ rest) →
      rest.foldl (fun t p => insert p.1 p.2 t) front = front ++ rest := by
    intro rest
    induction rest with
    | nil => intro front _; exact (List.append_nil front).symm
    | cons p rest ih =>
        intro front hordered
        obtain ⟨key, value⟩ := p
        have hlt : ∀ k ∈ front.keys, k < key := by
          unfold Ordered keys at hordered
          rw [List.map_append, List.pairwise_append] at hordered
          exact fun k hk => hordered.2.2 k hk key (List.mem_cons_self ..)
        have hassoc : front ++ (key, value) :: rest = (front ++ [(key, value)]) ++ rest := by
          rw [List.append_assoc, List.singleton_append]
        rw [hassoc] at hordered ⊢
        rw [List.foldl_cons, insert_of_forall_lt value hlt, ih _ hordered]
  exact hfold t [] h

end Table

namespace Json

mutual

/-- The members of every object at every depth are in a table. -/
def Ordered : Json → Prop
  | .array items => OrderedItems items
  | .object members => Table.Ordered members ∧ OrderedMembers members
  | _ => True

/-- Every item is in order. -/
def OrderedItems : List Json → Prop
  | [] => True
  | v :: rest => v.Ordered ∧ OrderedItems rest

/-- The value of every member is in order. -/
def OrderedMembers : List (String × Json) → Prop
  | [] => True
  | (_, v) :: rest => v.Ordered ∧ OrderedMembers rest

end

mutual

/-- A value in order stays as it is. -/
theorem sorted_of_ordered : ∀ {v : Json}, v.Ordered → v.sorted = v
  | .null, _ => rfl
  | .bool _, _ => rfl
  | .number _, _ => rfl
  | .string _, _ => rfl
  | .array items, h => by rw [sorted, sortedItems_of_ordered h]
  | .object members, h => by
      rw [sorted, sortedMembers_of_ordered h.2, Table.ofPairs_of_ordered h.1]

theorem sortedItems_of_ordered : ∀ {items : List Json}, OrderedItems items →
    sortedItems items = items
  | [], _ => rfl
  | v :: rest, h => by rw [sortedItems, sorted_of_ordered h.1, sortedItems_of_ordered h.2]

theorem sortedMembers_of_ordered : ∀ {members : List (String × Json)},
    OrderedMembers members → sortedMembers members = members
  | [], _ => rfl
  | (k, v) :: rest, h => by
      rw [sortedMembers, sorted_of_ordered h.1, sortedMembers_of_ordered h.2]

end

/-- The canonical text of a value in order is its compact text. -/
theorem canonical_of_ordered {v : Json} (h : v.Ordered) : v.canonical = v.compact := by
  rw [canonical, sorted_of_ordered h]

/-- Items are in order when each of them is. -/
theorem orderedItems_iff {items : List Json} : OrderedItems items ↔ ∀ v ∈ items, v.Ordered := by
  induction items with
  | nil => exact ⟨fun _ v hv => absurd hv List.not_mem_nil, fun _ => trivial⟩
  | cons v rest ih => rw [OrderedItems, ih, List.forall_mem_cons]

end Json

end ModuleAssembly
