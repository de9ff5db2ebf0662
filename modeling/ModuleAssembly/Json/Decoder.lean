import ModuleAssembly.Json.Draft

/-!
# Decoding

A decoder reads a value of a certain type from a draft. It walks the draft in the order of the
text and answers with the first fault it meets, be it a wrong shape or a flaw of the text.
Containers may nest to a limited depth; a decoder counts down and refuses to enter a container
when nothing is left of the limit.

A record is written as an object or as an array of its fields in their order. In an object,
unknown members are passed over, and a known field that comes twice is a mismatch. In an array,
fields at the end may be left out when they have a default.
-/

set_option autoImplicit false

namespace ModuleAssembly

/-! ## Faults of a draft -/

namespace Draft

/-- The fault met by a decoder that wants a value of another shape. -/
def unfit : Draft → Fault
  | .number none => .malformed
  | .string none => .malformed
  | .broken b => b.read
  | _ => .mismatch

/-- The text of a string in a place where the grammar admits nothing but a string. -/
def key : Draft → Except Fault String
  | .string (some s) => .ok s
  | .broken b => .error b.readString
  | _ => .error .malformed

/-- Passes over a string in a place where the grammar admits nothing else. -/
def skipKey : Draft → Except Fault Unit
  | .string _ => .ok ()
  | .broken b => .error b.skipString
  | _ => .error .malformed

end Draft

/-- The fault of a container that has no proper end. -/
def Close.check : Close → Except Fault Unit
  | .closed => .ok ()
  | .broken fault => .error fault

namespace Draft

mutual

/-- Passes over a value, whatever its depth. -/
def skip : Draft → Except Fault Unit
  | .array items close => do
    skipItems items
    close.check
  | .object members close => do
    skipMembers members
    close.check
  | .broken b => .error b.skip
  | _ => .ok ()

/-- Passes over the items of an array. -/
def skipItems : List Draft → Except Fault Unit
  | [] => .ok ()
  | d :: rest => do
    skip d
    skipItems rest

/-- Passes over the members of an object. -/
def skipMembers : List (Draft × Draft) → Except Fault Unit
  | [] => .ok ()
  | (k, v) :: rest => do
    skipKey k
    skip v
    skipMembers rest

end

end Draft

/-! ## Decoders -/

/-- Reads a value from a draft, with a number of nested containers that may still be entered. -/
abbrev Decoder (α : Type) := Nat → Draft → Except Fault α

namespace Decoder

variable {α : Type}

/-- Enters a container. -/
def enter {β : Type} (depth : Nat) (inner : Nat → Except Fault β) : Except Fault β :=
  match depth with
  | 0 => .error .malformed
  | depth + 1 => inner depth

/-- Reads a string. -/
def text : Decoder String := fun _ d =>
  match d with
  | .string (some s) => .ok s
  | d => .error d.unfit

/-- Reads a truth value. -/
def flag : Decoder Bool := fun _ d =>
  match d with
  | .bool b => .ok b
  | d => .error d.unfit

/-- Reads a value or null. -/
def optional (inner : Decoder α) : Decoder (Option α) := fun depth d =>
  match d with
  | .null => .ok none
  | d => (inner depth d).map some

/-- Reads each item of a list. -/
def items (inner : Decoder α) (depth : Nat) : List Draft → Except Fault (List α)
  | [] => .ok []
  | d :: rest => do
    let a ← inner depth d
    let as ← items inner depth rest
    .ok (a :: as)

/-- Reads an array. -/
def list (inner : Decoder α) : Decoder (List α) := fun depth d =>
  match d with
  | .array ds close => enter depth fun depth => do
    let as ← items inner depth ds
    close.check
    .ok as
  | d => .error d.unfit

/-- Reads one of several names. A name may also be written as an object whose only member has the
name for a key and the value null. In both places the grammar admits nothing but a string. -/
def choice (options : List (String × α)) : Decoder α := fun depth d =>
  let named (name : String) : Except Fault α :=
    match options.lookup name with
    | some a => .ok a
    | none => .error .mismatch
  match d with
  | .object members close => enter depth fun _ =>
    match members with
    | [] => .error .malformed
    | (k, v) :: more => do
      let name ← k.key
      let a ← named name
      match v with
      | .null => .ok ()
      | v => .error v.unfit
      if more.isEmpty then close.check else .error .malformed
      .ok a
  | d => do
    let name ← d.key
    named name

mutual

/-- Reads any value. Of two members with one key the later one counts. -/
def json (depth : Nat) : Draft → Except Fault Json
  | .null => .ok .null
  | .bool b => .ok (.bool b)
  | .number (some n) => .ok (.number n)
  | .string (some s) => .ok (.string s)
  | .array ds close =>
    match depth with
    | 0 => .error .malformed
    | depth + 1 => do
      let vs ← jsonItems depth ds
      close.check
      .ok (.array vs)
  | .object ms close =>
    match depth with
    | 0 => .error .malformed
    | depth + 1 => do
      let vs ← jsonMembers depth ms
      close.check
      .ok (.object (Table.ofPairs vs))
  | .number none => .error .malformed
  | .string none => .error .malformed
  | .broken b => .error b.read

/-- Reads the items of an array. -/
def jsonItems (depth : Nat) : List Draft → Except Fault (List Json)
  | [] => .ok []
  | d :: rest => do
    let v ← json depth d
    let vs ← jsonItems depth rest
    .ok (v :: vs)

/-- Reads the members of an object. -/
def jsonMembers (depth : Nat) : List (Draft × Draft) → Except Fault (List (String × Json))
  | [] => .ok []
  | (k, d) :: rest => do
    let key ← k.key
    let v ← json depth d
    let vs ← jsonMembers depth rest
    .ok ((key, v) :: vs)

end

end Decoder

/-! ## Records -/

/-- A field of a record: its name, whether it may be left out, and how its value is put into the
record. -/
structure Field (α : Type) where
  name : String
  required : Bool
  put : Decoder (α → α)

/-- A field whose value goes into the record by `set`. -/
def Field.of {α β : Type} (name : String) (required : Bool) (inner : Decoder β)
    (set : α → β → α) : Field α :=
  ⟨name, required, fun depth d => (inner depth d).map fun b a => set a b⟩

/-- A record format: the record with every field at its default, and the fields in order. -/
structure Record (α : Type) where
  blank : α
  fields : List (Field α)

namespace Record

variable {α : Type}

/-- Reads the members of an object into `a`; `seen` holds the names of the fields read so far. -/
def readMembers (r : Record α) (depth : Nat) :
    List String → α → List (Draft × Draft) → Except Fault (List String × α)
  | seen, a, [] => .ok (seen, a)
  | seen, a, (k, v) :: rest => do
    let name ← k.key
    match r.fields.find? fun f => f.name == name with
    | none => do
      v.skip
      readMembers r depth seen a rest
    | some f =>
      if name ∈ seen then .error .mismatch
      else do
        let put ← f.put depth v
        readMembers r depth (name :: seen) (put a) rest

/-- Reads the items of an array into `a`, one for each field as long as there are any. -/
def readItems (depth : Nat) : List (Field α) → α → List Draft → Close → Except Fault α
  | fields, a, [], close => do
    close.check
    if fields.any Field.required then .error .mismatch else .ok a
  | [], _, _ :: _, _ => .error .malformed
  | f :: fields, a, d :: rest, close => do
    let put ← f.put depth d
    readItems depth fields (put a) rest close

/-- Reads a record. -/
def decoder (r : Record α) : Decoder α := fun depth d =>
  match d with
  | .object members close => Decoder.enter depth fun depth => do
    let (seen, a) ← r.readMembers depth [] r.blank members
    close.check
    if r.fields.all fun f => !f.required || f.name ∈ seen then .ok a else .error .mismatch
  | .array ds close => Decoder.enter depth fun depth => readItems depth r.fields r.blank ds close
  | d => .error d.unfit

end Record

/-! ## Reading -/

/-- How deep containers may nest in a text. -/
def nestingLimit : Nat := 127

namespace Decoder

variable {α : Type}

/-- Reads a text that holds one value and nothing behind it. -/
def ofText (decoder : Decoder α) (text : String) : Except Fault α := do
  let (draft, rest) := Draft.ofText text
  let a ← decoder nestingLimit draft
  if rest.isEmpty then .ok a else .error .malformed

/-- Reads from a value that is already there. It is a mismatch when the value has another
shape. -/
def ofJson (decoder : Decoder α) (v : Json) : Option α :=
  (decoder v.depth (Draft.ofJson v)).toOption

end Decoder

/-- The value of a text. -/
def Json.ofText (text : String) : Except Fault Json := Decoder.ofText Decoder.json text

end ModuleAssembly
