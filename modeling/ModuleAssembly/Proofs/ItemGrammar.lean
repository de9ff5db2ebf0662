import ModuleAssembly.Session
import ModuleAssembly.Proofs.Results

/-!
# What JSON values stand for

A JSON value stands for an item leaf by leaf. Texts, truth values and numbers stand for themselves,
and an object for what its keys say: they are tried in a fixed order, a key that holds a name is
passed over when it holds anything but a string, and the first one that is left decides
(`Item.ofMembers_eq`) whatever the others hold. What its value gives is a matter of that key alone
(`Item.Gives`). So a value is read as the tree of what its leaves stand for, and refused as the first
leaf that stands for nothing (`Json.readByLeaves`).
-/

set_option autoImplicit false

namespace ModuleAssembly

open Number (readInt64? readDouble? toInt64?)

/-- A whole number that fits sixty-four bits is the integer with this value. -/
theorem Number.toInt64?_eq_some_iff {n : Int} {i : Int64} :
    toInt64? n = some i ↔ i.toInt = n := by
  have hmin : -(Int.pow 2 63) = -2 ^ 63 := rfl
  have hmax : Int.pow 2 63 = 2 ^ 63 := rfl
  unfold toInt64?
  rw [hmin, hmax]
  constructor
  · intro h
    split at h
    · next hrange =>
        cases h
        exact Int64.toInt_ofInt_of_le hrange.1 hrange.2
    · cases h
  · rintro rfl
    rw [if_pos ⟨i.le_toInt, i.toInt_lt⟩, Int64.ofInt_toInt]

/-! ## Keys -/

/-- The keys by which an object says what it stands for. -/
inductive ItemKey where
  | int64
  | number
  | bytes
  | entity
  | imported
  | exported
  | doc

namespace ItemKey

/-- The keys in the order in which they are tried. -/
def all : List ItemKey := [int64, number, bytes, entity, imported, exported, doc]

/-- The key as it stands in an object. -/
def text : ItemKey → String
  | int64 => "int64"
  | number => "number"
  | bytes => "bytes"
  | entity => "type"
  | imported => "import"
  | exported => "export"
  | doc => "jsdoc"

/-- The value under the key is a name; a value other than a string is passed over. -/
def isName : ItemKey → Bool
  | entity | imported | exported => true
  | _ => false

/-- The value that an object has under the key, unless it is passed over. -/
def value? (members : List (String × Json)) (k : ItemKey) : Option Json :=
  (Table.find? k.text members).filter fun v => !k.isName || v.string?.isSome

/-- The first key that an object has a value under, and the value. -/
def deciding? (members : List (String × Json)) : Option (ItemKey × Json) :=
  all.findSome? fun k => (k.value? members).map fun v => (k, v)

/-- Why a value is refused under the key that decides. -/
def refusal : ItemKey → Json → Error
  | imported, .string name => .missingSource name
  | doc, .array items =>
    .unsupported ("jsdoc " ++ ((items.find? fun v => v.string?.isNone).elim "" Json.compact))
  | k, v => .unsupported (k.text ++ " " ++ v.compact)

end ItemKey

namespace Item

section

variable (home : String) (members : List (String × Json))

/-- The object asks for a type: it says so by `true`, and by nothing else. -/
def asksForType : Bool := ((Table.find? "typeOnly" members).bind Json.bool?).getD false

/-- What the object puts in front of every line of a documentation block. -/
def docIndent : String := ((Table.find? "indent" members).bind Json.string?).getD ""

/-- What an object in the module at `home` stands for, by the key that decides and its value. -/
inductive Gives : ItemKey → Json → Item → Prop where
  | whole {n : Whole} {i : Int64} (h : i.toInt = n.value) :
      Gives .int64 (.number (.whole n)) (.int64 i)
  | wholeText {s : String} {i : Int64} (h : readInt64? s = some i) :
      Gives .int64 (.string s) (.int64 i)
  | number (n : JsonNumber) : Gives .number (.number n) (.number n.toDouble)
  | numberText {s : String} {x : Number.Double} (h : readDouble? s = some x) :
      Gives .number (.string s) (.number x)
  | bytes {s : String} {bs : List UInt8} (h : Text.Base64.decode? s = some bs) :
      Gives .bytes (.string s) (.bytes bs)
  | entity (typeName : String) :
      Gives .entity (.string typeName) (.entity ⟨typeName, asksForType members⟩)
  | imported {name source : String}
      (hfrom : Table.find? "from" members = some (.string source)) (hsource : source ≠ "") :
      Gives .imported (.string name) (.symbol ⟨name, source, asksForType members⟩)
  | exported (name : String) : Gives .exported (.string name) (.symbol ⟨name, home, false⟩)
  | doc (s : String) :
      Gives .doc (.string s) (.text ((DocBlock.ofTexts [s]).indented (docIndent members)))
  | docs (texts : List String) :
      Gives .doc (.array (texts.map .string))
        (.text ((DocBlock.ofTexts texts).indented (docIndent members)))

/-- The item that a value is read as when its key decides. -/
def readUnder : ItemKey → Json → Except Error Item
  | .int64, v =>
    match int64Of v with
    | some n => .ok (.int64 n)
    | none => .error (unfit "int64" v)
  | .number, v =>
    match numberOf v with
    | some x => .ok (.number x)
    | none => .error (unfit "number" v)
  | .bytes, v =>
    match bytesOf v with
    | some bs => .ok (.bytes bs)
    | none => .error (unfit "bytes" v)
  | .entity, .string typeName => .ok (.entity ⟨typeName, asksForType members⟩)
  | .imported, .string name =>
    (importedSymbol name (((Table.find? "from" members).bind Json.string?).getD "")).map
      fun s => .symbol (s.usedAs (asksForType members))
  | .exported, .string name => .ok (.symbol ⟨name, home, false⟩)
  | .doc, v =>
    (docTexts v).map fun texts => .text ((DocBlock.ofTexts texts).indented (docIndent members))
  | k, v => .error (unfit k.text v)

end

section

variable {home : String} {members : List (String × Json)}

theorem value?_of_isName {k : ItemKey} (h : k.isName = true) :
    k.value? members = ((Table.find? k.text members).bind Json.string?).map .string := by
  unfold ItemKey.value?
  rw [h]
  cases Table.find? k.text members with
  | none => rfl
  | some v =>
      cases v with
      | string s => rfl
      | _ => rfl

theorem value?_of_not_isName {k : ItemKey} (h : k.isName = false) :
    k.value? members = Table.find? k.text members := by
  unfold ItemKey.value?
  rw [h]
  cases Table.find? k.text members with
  | none => rfl
  | some v => rfl

/-- **An object is read by the key that decides.** -/
theorem ofMembers_eq : ofMembers home members = match ItemKey.deciding? members with
    | none => .error (.unsupported
        ("object \x7b" ++ ", ".intercalate (members.map Prod.fst) ++ "\x7d"))
    | some (k, v) => readUnder home members k v := by
  unfold ofMembers
  simp only [ItemKey.deciding?, ItemKey.all, List.findSome?_cons, List.findSome?_nil,
    value?_of_not_isName (k := .int64) rfl, value?_of_not_isName (k := .number) rfl,
    value?_of_not_isName (k := .bytes) rfl, value?_of_isName (k := .entity) rfl,
    value?_of_isName (k := .imported) rfl, value?_of_isName (k := .exported) rfl,
    value?_of_not_isName (k := .doc) rfl, ItemKey.text]
  -- each key is tried only where those before it are absent or passed over
  cases Table.find? "int64" members with
  | some v => rfl
  | none =>
  cases Table.find? "number" members with
  | some v => rfl
  | none =>
  cases Table.find? "bytes" members with
  | some v => rfl
  | none =>
  cases (Table.find? "type" members).bind Json.string? with
  | some typeName => rfl
  | none =>
  cases (Table.find? "import" members).bind Json.string? with
  | some name => rfl
  | none =>
  cases (Table.find? "export" members).bind Json.string? with
  | some name => rfl
  | none =>
  cases Table.find? "jsdoc" members with
  | some v => rfl
  | none => rfl

theorem deciding?_int64 {v : Json} (h : Table.find? "int64" members = some v) :
    ItemKey.deciding? members = some (.int64, v) := by
  have hvalue : ItemKey.int64.value? members = some v := by
    rw [value?_of_not_isName rfl]
    exact h
  rw [ItemKey.deciding?, ItemKey.all, List.findSome?_cons, hvalue]
  rfl

/-- A type that is no string is passed over, and a documentation block comes too late. -/
example : ofMembers "./m.js"
    [("export", .string "X"), ("jsdoc", .null), ("type", .bool true)]
      = .ok (.symbol ⟨"X", "./m.js", false⟩) := rfl

/-! ### The value of the key that decides -/

/-- A sixty-four bit integer is given as a whole number or as a numeral. -/
theorem int64Of_eq_some_iff {v : Json} {i : Int64} :
    int64Of v = some i ↔ (∃ n, v = .number (.whole n) ∧ i.toInt = n.value) ∨
      ∃ s, v = .string s ∧ readInt64? s = some i := by
  cases v with
  | string s => simp [int64Of]
  | number n =>
      cases n with
      | whole n => simp [int64Of, Number.toInt64?_eq_some_iff]
      | real x => simp [int64Of]
  | _ => simp [int64Of]

/-- An array is a documentation block if all its items are texts. -/
theorem docTexts_array_eq_ok_iff {items : List Json} {texts : List String} :
    docTexts (.array items) = .ok texts ↔ items = texts.map .string := by
  rw [docTexts, mapM_eq_ok_iff, ← List.forall₂_eq_eq_eq, List.forall₂_map_right_iff]
  constructor
  · refine fun h => h.imp fun v s hs => ?_
    cases v with
    | string t => exact congrArg Json.string (Except.ok.inj hs)
    | _ => cases hs
  · refine fun h => h.imp fun v s hs => ?_
    rw [hs]

/-- The first item that is no text is named. -/
theorem docTexts_array_eq_error {items : List Json} {e : Error}
    (h : docTexts (.array items) = .error e) : e = ItemKey.doc.refusal (.array items) := by
  obtain ⟨front, v, back, rfl, hfront, hv⟩ := mapM_eq_error_iff.mp h
  have htexts : ∀ w ∈ front, w.string?.isNone = false := by
    intro w hw
    obtain ⟨s, hs⟩ := hfront w hw
    cases w with
    | string t => rfl
    | _ => cases hs
  have hnot : v.string?.isNone = true ∧ e = unfit "jsdoc" v := by
    cases v with
    | string t => cases hv
    | _ => exact ⟨rfl, (Except.error.inj hv).symm⟩
  have hfind : (front ++ v :: back).find? (fun w => w.string?.isNone) = some v := by
    have hfront : front.find? (fun w => w.string?.isNone) = none :=
      List.find?_eq_none.mpr fun w hw => by rw [htexts w hw]; exact Bool.false_ne_true
    rw [List.find?_append, hfront, Option.none_or]
    exact List.find?_cons_of_pos hnot.1
  rw [ItemKey.refusal, hfind, hnot.2]
  rfl

/-- A name imported from nowhere is refused. -/
theorem importedSymbol_cases (name : String) (o : Option Json) :
    (∃ source, o = some (.string source) ∧ source ≠ "" ∧
        importedSymbol name ((o.bind Json.string?).getD "") = .ok ⟨name, source, false⟩) ∨
      importedSymbol name ((o.bind Json.string?).getD "") = .error (.missingSource name) := by
  rcases o with _ | (_ | _ | _ | source | _ | _)
  case some.string =>
    by_cases hsource : source = ""
    · subst hsource
      exact .inr rfl
    · exact .inl ⟨source, rfl, hsource, if_neg hsource⟩
  all_goals exact .inr rfl

/-- The value is read as something that it gives, or refused. -/
theorem readUnder_cases (home : String) (members : List (String × Json)) (k : ItemKey)
    (v : Json) :
    (∃ p, readUnder home members k v = .ok p ∧ Gives home members k v p) ∨
      readUnder home members k v = .error (k.refusal v) := by
  cases k with
  | int64 =>
      rw [readUnder]
      cases hv : int64Of v with
      | none => exact .inr rfl
      | some i =>
          refine .inl ⟨.int64 i, rfl, ?_⟩
          obtain ⟨n, rfl, hn⟩ | ⟨s, rfl, hs⟩ := int64Of_eq_some_iff.mp hv
          · exact .whole hn
          · exact .wholeText hs
  | number =>
      rw [readUnder]
      cases hv : numberOf v with
      | none => exact .inr rfl
      | some x =>
          refine .inl ⟨.number x, rfl, ?_⟩
          cases v with
          | string s => exact .numberText hv
          | number n =>
              cases hv
              exact .number n
          | _ => cases hv
  | bytes =>
      rw [readUnder]
      cases hv : bytesOf v with
      | none => exact .inr rfl
      | some bs =>
          refine .inl ⟨.bytes bs, rfl, ?_⟩
          cases v with
          | string s => exact .bytes hv
          | _ => cases hv
  | entity =>
      cases v with
      | string typeName => exact .inl ⟨_, rfl, .entity typeName⟩
      | _ => exact .inr rfl
  | imported =>
      cases v with
      | string name =>
          rw [readUnder]
          obtain ⟨source, hfrom, hsource, hs⟩ | hs :=
            importedSymbol_cases name (Table.find? "from" members)
          · rw [hs]
            refine .inl ⟨.symbol ⟨name, source, asksForType members⟩, ?_, .imported hfrom hsource⟩
            rw [except_map_ok, Symbol.usedAs]
            cases asksForType members <;> rfl
          · rw [hs]
            exact .inr rfl
      | _ => exact .inr rfl
  | exported =>
      cases v with
      | string name => exact .inl ⟨_, rfl, .exported name⟩
      | _ => exact .inr rfl
  | doc =>
      rw [readUnder]
      cases v with
      | string s => exact .inl ⟨_, rfl, .doc s⟩
      | array items =>
          cases htexts : docTexts (.array items) with
          | error e => exact .inr (congrArg Except.error (docTexts_array_eq_error htexts))
          | ok texts =>
              obtain rfl := docTexts_array_eq_ok_iff.mp htexts
              exact .inl ⟨_, rfl, .docs texts⟩
      | _ => exact .inr rfl

theorem readUnder_of_gives {k : ItemKey} {v : Json} {p : Item} (h : Gives home members k v p) :
    readUnder home members k v = .ok p := by
  cases h with
  | whole h => rw [readUnder, int64Of_eq_some_iff.mpr (.inl ⟨_, rfl, h⟩)]
  | wholeText h => rw [readUnder, int64Of_eq_some_iff.mpr (.inr ⟨_, rfl, h⟩)]
  | number n => rfl
  | numberText h => rw [readUnder, numberOf, h]
  | bytes h => rw [readUnder, bytesOf, h]
  | entity typeName => rfl
  | @imported name source hfrom hsource =>
      rw [readUnder, hfrom]
      show (importedSymbol name source).map _ = _
      rw [importedSymbol, if_neg hsource, except_map_ok, Symbol.usedAs]
      cases asksForType members <;> rfl
  | exported name => rfl
  | doc s => rfl
  | docs texts =>
      rw [readUnder, docTexts_array_eq_ok_iff.mpr rfl]
      rfl

/-- The value is read as what it gives. -/
theorem readUnder_eq_ok_iff {k : ItemKey} {v : Json} {p : Item} :
    readUnder home members k v = .ok p ↔ Gives home members k v p := by
  refine ⟨fun h => ?_, readUnder_of_gives⟩
  obtain ⟨q, hq, hgives⟩ | hrefused := readUnder_cases home members k v
  · rwa [← Except.ok.inj (hq.symm.trans h)]
  · cases hrefused.symm.trans h

/-- A value that gives nothing is refused. -/
theorem readUnder_eq_error {k : ItemKey} {v : Json} {e : Error}
    (h : readUnder home members k v = .error e) : e = k.refusal v := by
  obtain ⟨q, hq, -⟩ | hrefused := readUnder_cases home members k v
  · cases hq.symm.trans h
  · exact Except.error.inj (h.symm.trans hrefused)

end

end Item

/-! ## Leaves -/

namespace Json

mutual

/-- The values in a value that are no arrays, from left to right, through arrays at any depth. -/
def leaves : Json → List Json
  | .array items => leavesOfAll items
  | v => [v]

/-- The leaves of several values. -/
def leavesOfAll : List Json → List Json
  | [] => []
  | v :: rest => v.leaves ++ leavesOfAll rest

end

/-- What a value in the module at `home` stands for. An array stands for the sequence of what its
items stand for. -/
inductive StandsFor (home : String) : Json → Item → Prop where
  | text (s : String) : StandsFor home (.string s) (.text s)
  | bool (b : Bool) : StandsFor home (.bool b) (.bool b)
  | number (n : JsonNumber) : StandsFor home (.number n) (.number n.toDouble)
  | object {members : List (String × Json)} {k : ItemKey} {v : Json} {p : Item}
      (hk : ItemKey.deciding? members = some (k, v)) (hp : Item.Gives home members k v p) :
      StandsFor home (.object members) p
  | array {items : List Json} {ps : List Item} (h : List.Forall₂ (StandsFor home) items ps) :
      StandsFor home (.array items) (.seq ps)

/-- Why a leaf that stands for nothing is refused. -/
def refusal : Json → Error
  | .object members =>
    match ItemKey.deciding? members with
    | none => .unsupported ("object \x7b" ++ ", ".intercalate (members.map Prod.fst) ++ "\x7d")
    | some (k, v) => k.refusal v
  | _ => .unsupported "null"

end Json

namespace Item

mutual

/-- The items in an item that are no sequences, from left to right. -/
def leaves : Item → List Item
  | .seq items => leavesOfAll items
  | p => [p]

/-- The leaves of several items. -/
def leavesOfAll : List Item → List Item
  | [] => []
  | p :: rest => p.leaves ++ leavesOfAll rest

end

variable {home : String}

/-! ### Objects -/

/-- An object with a key that decides is read under that key. -/
theorem ofJson_of_deciding {members : List (String × Json)} {k : ItemKey} {v : Json}
    (h : ItemKey.deciding? members = some (k, v)) :
    ofJson home (.object members) = readUnder home members k v := by
  rw [ofJson, ofMembers_eq, h]

theorem ofMembers_eq_ok_iff {members : List (String × Json)} {p : Item} :
    ofMembers home members = .ok p ↔ Json.StandsFor home (.object members) p := by
  rw [ofMembers_eq]
  cases hk : ItemKey.deciding? members with
  | none =>
      constructor
      · intro h
        cases h
      · rintro (_ | _ | _ | ⟨hk', -⟩)
        cases hk.symm.trans hk'
  | some kv =>
      obtain ⟨k, v⟩ := kv
      rw [readUnder_eq_ok_iff]
      constructor
      · exact fun hp => .object hk hp
      · rintro (_ | _ | _ | ⟨hk', hp⟩)
        cases hk.symm.trans hk'
        exact hp

theorem ofMembers_eq_error {members : List (String × Json)} {e : Error}
    (h : ofMembers home members = .error e) : e = (Json.object members).refusal := by
  rw [ofMembers_eq] at h
  rw [Json.refusal]
  cases hk : ItemKey.deciding? members with
  | none =>
      rw [hk] at h
      exact (Except.error.inj h).symm
  | some kv =>
      rw [hk] at h
      exact readUnder_eq_error h

/-- Only an array stands for a sequence. -/
theorem not_seq_of_standsFor {leaf : Json} {p : Item} (hleaf : ∀ items, leaf ≠ .array items)
    (h : leaf.StandsFor home p) : ∀ ps, p ≠ .seq ps := by
  cases h with
  | array _ => exact absurd rfl (hleaf _)
  | object _ hp => cases hp <;> exact nofun
  | _ => exact nofun

theorem leaves_of_not_seq {p : Item} (hp : ∀ ps, p ≠ .seq ps) : p.leaves = [p] := by
  cases p with
  | seq ps => exact absurd rfl (hp ps)
  | _ => rfl

/-! ### Values -/

mutual

/-- **A value is read as what it stands for.** -/
theorem ofJson_eq_ok_iff : ∀ {v : Json} {p : Item}, ofJson home v = .ok p ↔ v.StandsFor home p
  | .null, p => ⟨nofun, nofun⟩
  | .bool b, p => by
      constructor
      · intro h
        cases h
        exact .bool b
      · rintro ⟨⟩
        rfl
  | .number n, p => by
      constructor
      · intro h
        cases h
        exact .number n
      · rintro ⟨⟩
        rfl
  | .string s, p => by
      constructor
      · intro h
        cases h
        exact .text s
      · rintro ⟨⟩
        rfl
  | .object members, p => ofMembers_eq_ok_iff
  | .array items, p => by
      rw [ofJson, except_map_eq_ok]
      constructor
      · rintro ⟨ps, hps, rfl⟩
        exact .array (ofJsonItems_eq_ok_iff.mp hps)
      · rintro ⟨⟩
        rename_i ps hps
        exact ⟨ps, ofJsonItems_eq_ok_iff.mpr hps, rfl⟩

theorem ofJsonItems_eq_ok_iff : ∀ {items : List Json} {ps : List Item},
    ofJsonItems home items = .ok ps ↔ List.Forall₂ (Json.StandsFor home) items ps
  | [], ps => by
      rw [ofJsonItems, List.forall₂_nil_left_iff, Except.ok.injEq, eq_comm]
  | v :: rest, ps => by
      show (ofJson home v).bind (fun p => (ofJsonItems home rest).bind fun ps => .ok (p :: ps))
        = .ok ps ↔ _
      simp only [List.forall₂_cons_left_iff, except_bind_eq_ok, ofJson_eq_ok_iff,
        ofJsonItems_eq_ok_iff, Except.ok.injEq]
      constructor
      · rintro ⟨p, hp, ps, hps, rfl⟩
        exact ⟨p, ps, hp, hps, rfl⟩
      · rintro ⟨p, ps, hp, hps, rfl⟩
        exact ⟨p, hp, ps, hps, rfl⟩

end

mutual

/-- **A value is read leaf by leaf.** The leaves of the item are what the leaves of the value are
read as, and a value is refused as the first of its leaves that is refused. -/
theorem map_leaves_ofJson (home : String) : ∀ v : Json,
    (ofJson home v).map leaves = v.leaves.mapM (ofJson home)
  | .null => rfl
  | .bool b => rfl
  | .number n => rfl
  | .string s => rfl
  | .object members => by
      show (ofMembers home members).map leaves = [Json.object members].mapM (ofJson home)
      rw [mapM_cons_eq_bind]
      show _ = (ofMembers home members).bind fun p => .ok [p]
      cases hp : ofMembers home members with
      | error e => rfl
      | ok p =>
          have hobject : ∀ items, Json.object members ≠ .array items := nofun
          have hleaf := not_seq_of_standsFor hobject (ofMembers_eq_ok_iff.mp hp)
          rw [except_map_ok, except_bind_ok, leaves_of_not_seq hleaf]
  | .array items => by
      rw [ofJson, Json.leaves, ← map_leavesOfAll_ofJsonItems home items]
      cases ofJsonItems home items with
      | error e => rfl
      | ok ps => rfl

theorem map_leavesOfAll_ofJsonItems (home : String) : ∀ items : List Json,
    (ofJsonItems home items).map leavesOfAll = (Json.leavesOfAll items).mapM (ofJson home)
  | [] => rfl
  | v :: rest => by
      rw [Json.leavesOfAll, mapM_append_eq_bind, ← map_leaves_ofJson home v,
        ← map_leavesOfAll_ofJsonItems home rest]
      show ((ofJson home v).bind fun p => (ofJsonItems home rest).bind fun ps =>
        .ok (p :: ps)).map leavesOfAll = _
      cases ofJson home v with
      | error e => rfl
      | ok p =>
          cases ofJsonItems home rest with
          | error e => rfl
          | ok ps => rfl

end

mutual

theorem not_array_of_mem_leaves : ∀ {v leaf : Json}, leaf ∈ v.leaves → ∀ items, leaf ≠ .array items
  | v, leaf, h => by
      cases v with
      | array items => exact not_array_of_mem_leavesOfAll h
      | _ =>
          obtain rfl := List.mem_singleton.mp h
          exact nofun

theorem not_array_of_mem_leavesOfAll : ∀ {items : List Json} {leaf : Json},
    leaf ∈ Json.leavesOfAll items → ∀ items', leaf ≠ .array items'
  | [], leaf, h => absurd h List.not_mem_nil
  | v :: rest, leaf, h => by
      rcases List.mem_append.mp h with h | h
      · exact not_array_of_mem_leaves h
      · exact not_array_of_mem_leavesOfAll h

end

/-- A leaf that is refused stands for nothing. -/
theorem ofJson_eq_error_iff_of_leaf {leaf : Json} (hleaf : ∀ items, leaf ≠ .array items)
    {e : Error} :
    ofJson home leaf = .error e ↔ (∀ p, ¬ leaf.StandsFor home p) ∧ e = leaf.refusal := by
  have hrefusal : ∀ e, ofJson home leaf = .error e → e = leaf.refusal := by
    intro e h
    cases leaf with
    | null => exact (Except.error.inj h).symm
    | object members => exact ofMembers_eq_error h
    | array items => exact absurd rfl (hleaf items)
    | _ => cases h
  simp only [← ofJson_eq_ok_iff]
  cases h : ofJson home leaf with
  | error e' =>
      obtain rfl := hrefusal e' h
      simp [eq_comm]
  | ok p => simp

end Item

/-! ## The grammar -/

/-- An action that is refused what it reads leaves the session as it was. -/
theorem Session.act_decode_eq_failed {s : Session} {i : Nat} {f : OutputFile}
    (hfile : s.file? i = some f) {v : Json} {e : Error}
    (h : Item.ofJson f.importPath v = .error e) : s.act (.decode i v) = (s, .failed e) := by
  show s.withFile i _ = _
  unfold Session.withFile
  rw [hfile]
  simp only [h]

/-- **What a value stands for.** What it means that the value is read in the module at `home` as its
leaves say. -/
structure Json.ReadByLeaves (home : String) (v : Json) : Prop where
  /-- It is read exactly if every leaf stands for an item. -/
  accepted_iff : (∃ p, Item.ofJson home v = .ok p) ↔
    ∀ leaf ∈ v.leaves, ∃ p, leaf.StandsFor home p
  /-- It is read as what it stands for, with sequences in the place of the arrays. -/
  read_iff : ∀ p, Item.ofJson home v = .ok p ↔ v.StandsFor home p
  /-- Otherwise it is refused as the first leaf that stands for nothing. -/
  refused_iff : ∀ e, Item.ofJson home v = .error e ↔ ∃ front leaf back,
    v.leaves = front ++ leaf :: back ∧ (∀ l ∈ front, ∃ p, l.StandsFor home p) ∧
      (∀ p, ¬ leaf.StandsFor home p) ∧ e = leaf.refusal
  /-- Whether it is read or refused, no file changes. -/
  untouched : ∀ (s : Session) (i : Nat), (s.act (.decode i v)).1 = s

/-- Every value is read so in every module. -/
theorem Json.readByLeaves (home : String) (v : Json) : v.ReadByLeaves home := by
  refine ⟨?_, fun p => Item.ofJson_eq_ok_iff, fun e => ?_, fun s i => ?_⟩
  · calc (∃ p, Item.ofJson home v = .ok p)
        ↔ ∃ ps, (Item.ofJson home v).map Item.leaves = .ok ps := by
          simp only [except_map_eq_ok]
          exact ⟨fun ⟨p, hp⟩ => ⟨p.leaves, p, hp, rfl⟩, fun ⟨_, p, hp, _⟩ => ⟨p, hp⟩⟩
      _ ↔ ∀ leaf ∈ v.leaves, ∃ p, Item.ofJson home leaf = .ok p := by
          rw [Item.map_leaves_ofJson, exists_mapM_eq_ok_iff]
      _ ↔ ∀ leaf ∈ v.leaves, ∃ p, leaf.StandsFor home p := by
          simp only [Item.ofJson_eq_ok_iff]
  · rw [← except_map_eq_error (f := Item.leaves), Item.map_leaves_ofJson, mapM_eq_error_iff]
    simp only [Item.ofJson_eq_ok_iff]
    refine exists_congr fun front => exists_congr fun leaf => exists_congr fun back =>
      and_congr_right fun hsplit => and_congr_right fun _ => ?_
    have hleaf : leaf ∈ v.leaves := hsplit ▸ List.mem_append_right front (List.mem_cons_self ..)
    exact Item.ofJson_eq_error_iff_of_leaf (Item.not_array_of_mem_leaves hleaf)
  · show (s.withFile i _).1 = s
    unfold Session.withFile
    cases s.file? i with
    | none => rfl
    | some f =>
        cases h : Item.ofJson f.importPath v with
        | error e => simp only [h]
        | ok p => simp only [h]

end ModuleAssembly
