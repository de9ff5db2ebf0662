import ModuleAssembly.Proofs.LineLeaves
import ModuleAssembly.Proofs.Lists

/-!
# Byte literals

The encoding of bytes as text is read back by the strict decoder, which takes nothing else
(`Text.Base64.decode?_eq_some_iff`). The literal of bytes is read back as well
(`Literal.readBytes?_bytes`). So a line that gives bytes by their encoding is printed as a literal of
just these bytes, and any other text is refused (`PlannedFile.printLine_bytes`).
-/

set_option autoImplicit false

namespace ModuleAssembly

/-! ## The encoding -/

namespace Text.Base64

theorem value?_letter {n : Nat} (h : n < 64) : value? (letter n) = some n := by
  have hall : ∀ n < 64, value? (letter n) = some n := by decide +kernel
  exact hall n h

/-- All letters are ASCII characters. -/
theorem toNat_lt_of_value? {c : Char} {n : Nat} (h : value? c = some n) : c.toNat < 128 := by
  have hle : ∀ d : Char, c ≤ d → c.toNat ≤ d.toNat := fun d hd => hd
  unfold value? at h
  split at h
  · next hc => exact Nat.lt_of_le_of_lt (hle 'Z' hc.2) (by decide)
  split at h
  · next hc => exact Nat.lt_of_le_of_lt (hle 'z' hc.2) (by decide)
  split at h
  · next hc => exact Nat.lt_of_le_of_lt (hle '9' hc.2) (by decide)
  split at h
  · next hc => rw [hc]; decide
  split at h
  · next hc => rw [hc]; decide
  · cases h

/-- A character with a value is the letter of this value. -/
theorem letter_of_value? {c : Char} {n : Nat} (h : value? c = some n) :
    n < 64 ∧ letter n = c := by
  have hall : ∀ m < 128, ((value? (Char.ofNat m)).all fun k =>
      decide (k < 64 ∧ letter k = Char.ofNat m)) = true := by
    decide +kernel
  have hc := hall c.toNat (toNat_lt_of_value? h)
  rw [Char.ofNat_toNat, h] at hc
  exact of_decide_eq_true hc

theorem letter_ne_pad {n : Nat} (h : n < 64) : letter n ≠ '=' := by
  intro heq
  have hvalue := value?_letter h
  rw [heq] at hvalue
  cases hvalue

section

variable (a b c : UInt8)

/-! ### Groups of bytes -/

theorem lastGroup?_one :
    lastGroup? (letter (a.toNat / 4)) (letter (a.toNat % 4 * 16)) '=' '=' = some [a] := by
  have ha := a.toNat_lt
  have hbyte : a.toNat / 4 * 4 + a.toNat % 4 * 16 / 16 = a.toNat := by omega
  unfold lastGroup?
  rw [value?_letter (by omega), value?_letter (by omega)]
  simp only [if_true, hbyte, UInt8.ofNat_toNat]
  rw [if_pos ⟨trivial, by omega⟩]

theorem lastGroup?_two :
    lastGroup? (letter (a.toNat / 4)) (letter (a.toNat % 4 * 16 + b.toNat / 16))
      (letter (b.toNat % 16 * 4)) '=' = some [a, b] := by
  have ha := a.toNat_lt
  have hb := b.toNat_lt
  have hfirst : a.toNat / 4 * 4 + (a.toNat % 4 * 16 + b.toNat / 16) / 16 = a.toNat := by omega
  have hsecond : (a.toNat % 4 * 16 + b.toNat / 16) % 16 * 16 + b.toNat % 16 * 4 / 4 = b.toNat := by
    omega
  have hlow : b.toNat % 16 * 4 % 4 = 0 := by omega
  unfold lastGroup?
  rw [value?_letter (by omega), value?_letter (by omega)]
  simp only [if_neg (letter_ne_pad (n := b.toNat % 16 * 4) (by omega)),
    value?_letter (n := b.toNat % 16 * 4) (by omega), if_true, hlow, hfirst, hsecond,
    UInt8.ofNat_toNat]

/-- Four letters make up three bytes. -/
theorem three_bytes :
    a.toNat / 4 * 4 + (a.toNat % 4 * 16 + b.toNat / 16) / 16 = a.toNat ∧
      (a.toNat % 4 * 16 + b.toNat / 16) % 16 * 16 + (b.toNat % 16 * 4 + c.toNat / 64) / 4
        = b.toNat ∧
      (b.toNat % 16 * 4 + c.toNat / 64) % 4 * 64 + c.toNat % 64 = c.toNat := by
  have ha := a.toNat_lt
  have hb := b.toNat_lt
  have hc := c.toNat_lt
  omega

theorem fullGroup?_three :
    fullGroup? (letter (a.toNat / 4)) (letter (a.toNat % 4 * 16 + b.toNat / 16))
      (letter (b.toNat % 16 * 4 + c.toNat / 64)) (letter (c.toNat % 64)) = some [a, b, c] := by
  have ha := a.toNat_lt
  have hb := b.toNat_lt
  have hc := c.toNat_lt
  obtain ⟨hfirst, hsecond, hthird⟩ := three_bytes a b c
  unfold fullGroup?
  rw [value?_letter (by omega), value?_letter (by omega), value?_letter (by omega),
    value?_letter (by omega)]
  simp only [hfirst, hsecond, hthird, UInt8.ofNat_toNat]

end

/-- A last group without padding is a full group. -/
theorem lastGroup?_eq_fullGroup? {a b c d : Char} (hc : c ≠ '=') (hd : d ≠ '=') :
    lastGroup? a b c d = fullGroup? a b c d := by
  unfold lastGroup? fullGroup?
  cases value? a with
  | none => rfl
  | some x =>
      cases value? b with
      | none => rfl
      | some y =>
          simp only [if_neg hc, if_neg hd]
          cases value? c with
          | none => rfl
          | some z => cases value? d <;> rfl

/-- **What was encoded is decoded.** -/
theorem decodeChars?_encodeChars (bs : List UInt8) : decodeChars? (encodeChars bs) = some bs := by
  induction bs using encodeChars.induct with
  | case1 => rfl
  | case2 a => exact lastGroup?_one a
  | case3 a b => exact lastGroup?_two a b
  | case4 a b c rest ih =>
      have hb := b.toNat_lt
      have hc := c.toNat_lt
      have hgroup := fullGroup?_three a b c
      rw [encodeChars]
      cases hrest : encodeChars rest with
      | nil =>
          -- the group is the last one
          rw [hrest] at ih
          obtain rfl : rest = [] := (Option.some.inj ih).symm
          rw [decodeChars?, lastGroup?_eq_fullGroup? (letter_ne_pad (by omega))
            (letter_ne_pad (by omega)), hgroup]
      | cons e more =>
          rw [hrest] at ih
          rw [decodeChars?, hgroup, ih]
          · rfl
          · exact List.cons_ne_nil _ _

/-! ### Groups of characters -/

theorem fullGroup?_eq_some {a b c d : Char} {bs : List UInt8} (h : fullGroup? a b c d = some bs) :
    ∃ x y z, bs = [x, y, z] ∧ [a, b, c, d] = encodeChars bs := by
  unfold fullGroup? at h
  split at h
  · next x y z w hx hy hz hw =>
      obtain ⟨hx, rfl⟩ := letter_of_value? hx
      obtain ⟨hy, rfl⟩ := letter_of_value? hy
      obtain ⟨hz, rfl⟩ := letter_of_value? hz
      obtain ⟨hw, rfl⟩ := letter_of_value? hw
      obtain rfl := Option.some.inj h
      refine ⟨_, _, _, rfl, ?_⟩
      simp only [encodeChars, UInt8.toNat_ofNat', List.cons.injEq, and_true]
      refine ⟨congrArg letter ?_, congrArg letter ?_, congrArg letter ?_, congrArg letter ?_⟩
      all_goals omega
  · cases h

/-- The last group is the encoding of its bytes. -/
theorem lastGroup?_eq_some {a b c d : Char} {bs : List UInt8} (h : lastGroup? a b c d = some bs) :
    [a, b, c, d] = encodeChars bs := by
  by_cases hc : c = '='
  · subst hc
    unfold lastGroup? at h
    split at h
    · next x y hx hy =>
        obtain ⟨hx, rfl⟩ := letter_of_value? hx
        obtain ⟨hy, rfl⟩ := letter_of_value? hy
        rw [if_pos rfl] at h
        split at h
        · next hlow =>
            obtain rfl := Option.some.inj h
            obtain ⟨rfl, hlow⟩ := hlow
            simp only [encodeChars, UInt8.toNat_ofNat', List.cons.injEq, and_true]
            refine ⟨congrArg letter ?_, congrArg letter ?_⟩
            all_goals omega
        · cases h
    · cases h
  · by_cases hd : d = '='
    · subst hd
      unfold lastGroup? at h
      split at h
      · next x y hx hy =>
          obtain ⟨hx, rfl⟩ := letter_of_value? hx
          obtain ⟨hy, rfl⟩ := letter_of_value? hy
          rw [if_neg hc] at h
          split at h
          · cases h
          · next z hz =>
              obtain ⟨hz, rfl⟩ := letter_of_value? hz
              rw [if_pos rfl] at h
              split at h
              · next hlow =>
                  obtain rfl := Option.some.inj h
                  simp only [encodeChars, UInt8.toNat_ofNat', List.cons.injEq, and_true]
                  refine ⟨congrArg letter ?_, congrArg letter ?_, congrArg letter ?_⟩
                  all_goals omega
              · cases h
      · cases h
    · rw [lastGroup?_eq_fullGroup? hc hd] at h
      obtain ⟨x, y, z, -, hencode⟩ := fullGroup?_eq_some h
      exact hencode

/-- **Only what was encoded is decoded.** -/
theorem eq_encodeChars_of_decodeChars? {cs : List Char} {bs : List UInt8}
    (h : decodeChars? cs = some bs) : cs = encodeChars bs := by
  induction cs using decodeChars?.induct generalizing bs with
  | case1 =>
      obtain rfl := Option.some.inj h
      rfl
  | case2 a b c d => exact lastGroup?_eq_some h
  | case3 a b c d rest hne group bytes hbytes hgroup ih =>
      rw [decodeChars?, hgroup, hbytes] at h
      · obtain rfl := Option.some.inj h
        obtain ⟨x, y, z, rfl, hencode⟩ := fullGroup?_eq_some hgroup
        have hrest := ih hbytes
        rw [encodeChars, encodeChars] at hencode
        rw [List.cons_append, List.cons_append, List.cons_append, List.nil_append, encodeChars,
          ← hrest]
        simpa using hencode
      · exact hne
  | case4 a b c d rest hne hnone ih =>
      rw [decodeChars?] at h
      · split at h
        · next group bytes hgroup hbytes => exact (hnone group bytes hgroup hbytes).elim
        · cases h
      · exact hne
  | case5 cs hnil hgroup hmore =>
      rw [decodeChars?] at h
      · cases h
      · exact hnil
      · exact hgroup
      · exact hmore

/-- A text is decoded exactly if it is the encoding of the bytes. -/
theorem decode?_eq_some_iff {s : String} {bs : List UInt8} :
    decode? s = some bs ↔ s = encode bs := by
  unfold decode? encode
  constructor
  · intro h
    rw [← eq_encodeChars_of_decodeChars? h, String.ofList_toList]
  · rintro rfl
    rw [String.toList_ofList]
    exact decodeChars?_encodeChars bs

end Text.Base64

/-! ## The literal -/

namespace Literal

theorem hexValue?_hexDigit {n : Nat} (h : n < 16) : hexValue? (hexDigit n) = some n := by
  have hall : ∀ n < 16, hexValue? (hexDigit n) = some n := by decide
  exact hall n h

theorem hexDigit_ne_comma {n : Nat} (h : n < 16) : hexDigit n ≠ ',' := by
  have hall : ∀ n < 16, hexDigit n ≠ ',' := by decide
  exact hall n h

theorem toList_byte (b : UInt8) :
    (byte b).toList = ['0', 'x', hexDigit (b.toNat / 16), hexDigit (b.toNat % 16)] :=
  String.toList_ofList

/-- A byte is read back. -/
theorem readByte?_byte (b : UInt8) : readByte? (byte b).toList = some b := by
  have hb := b.toNat_lt
  have hsum : 16 * (b.toNat / 16) + b.toNat % 16 = b.toNat := by omega
  rw [toList_byte, readByte?, hexValue?_hexDigit (by omega), hexValue?_hexDigit (by omega)]
  simp only [hsum, UInt8.ofNat_toNat]

theorem comma_not_mem_byte (b : UInt8) : ',' ∉ (byte b).toList := by
  have hb := b.toNat_lt
  rw [toList_byte]
  simp only [List.mem_cons, List.not_mem_nil, or_false, not_or]
  exact ⟨by decide, by decide, (hexDigit_ne_comma (by omega)).symm,
    (hexDigit_ne_comma (by omega)).symm⟩

/-- The bytes between the brackets are read back. -/
theorem readByteList?_intercalate (b : UInt8) (bs : List UInt8) :
    readByteList? (", ".intercalate ((b :: bs).map byte)).toList = some (b :: bs) := by
  have hgap : ',' ∉ [' '] := by decide
  have hparts : ∀ part ∈ (byte b).toList :: bs.map fun b => (byte b).toList, ',' ∉ part := by
    refine List.forall_mem_cons.mpr ⟨comma_not_mem_byte b, fun part hpart => ?_⟩
    obtain ⟨b', -, rfl⟩ := List.mem_map.mp hpart
    exact comma_not_mem_byte b'
  have hsplit := splitOn_intercalate_cons hgap hparts
  have htext : (", ".intercalate ((b :: bs).map byte)).toList
      = [',', ' '].intercalate ((byte b).toList :: bs.map fun b => (byte b).toList) := by
    rw [String.toList_intercalate, List.map_map]
    rfl
  -- behind the first byte, a blank stands in front of every byte
  have hrest : ∀ b' ∈ bs,
      (Text.dropFront? [' '] ([' '] ++ (byte b').toList)).bind readByte? = some b' := by
    intro b' _
    rw [Text.dropFront?_append, Option.bind_some, readByte?_byte]
  have hread := mapM_map_eq_some (f := fun part => (Text.dropFront? [' '] part).bind readByte?)
    (g := fun b => [' '] ++ (byte b).toList) hrest
  unfold readByteList?
  rw [htext, hsplit, List.map_map]
  show (readByte? (byte b).toList >>= fun b' => (bs.map fun b => [' '] ++ (byte b).toList).mapM
    (fun part => (Text.dropFront? [' '] part).bind readByte?) >>= fun bs' => some (b' :: bs')) = _
  rw [readByte?_byte, hread]
  rfl

/-- **A literal of bytes is read back.** -/
theorem readBytes?_bytes (bs : List UInt8) : readBytes? (bytes bs) = some bs := by
  cases bs with
  | nil => rfl
  | cons b bs =>
      have hchars : (bytes (b :: bs)).toList = "new Uint8Array([".toList
          ++ ((", ".intercalate ((b :: bs).map byte)).toList ++ "])".toList) := by
        rw [bytes, if_neg (by simp), String.toList_append, String.toList_append,
          List.append_assoc]
      -- the form of the empty literal has no bracket
      have hne : bytes (b :: bs) ≠ "new Uint8Array(0)" := by
        intro heq
        rw [heq] at hchars
        simp at hchars
      rw [readBytes?, if_neg hne, hchars, Text.dropFront?_append]
      show (Text.dropBack? "])".toList _).bind readByteList? = _
      rw [Text.dropBack?_append, Option.bind_some, readByteList?_intercalate]

end Literal

/-! ## Lines -/

namespace PlannedFile

open Text.Base64 (encode decode?_eq_some_iff)

/-- **Bytes survive.** What it means that the lines for which the key `bytes` decides are printed
into a file by the bytes that they give. -/
structure KeepsBytes (lib : RuntimeLibrary) (f : OutputFile) (r : Registry) : Prop where
  /-- The encoding of bytes gives one text, from which the same bytes are read. -/
  printed : ∀ (bs : List UInt8) members,
    ItemKey.deciding? members = some (.bytes, .string (encode bs)) →
      ∃ text, Literal.readBytes? text = some bs ∧
        (printLine lib f (.object members)).run r = (.ok (f.append [.text text, .text "\n"]), r)
  /-- Lines that are printed alike give the same bytes. -/
  distinct : ∀ (bs bs' : List UInt8) members members',
    ItemKey.deciding? members = some (.bytes, .string (encode bs)) →
      ItemKey.deciding? members' = some (.bytes, .string (encode bs')) →
        (printLine lib f (.object members)).run r = (printLine lib f (.object members')).run r →
          bs = bs'
  /-- What is the encoding of no bytes is refused, and no session changes. -/
  refused : ∀ (v : Json) members, (∀ bs, v ≠ .string (encode bs)) →
    ItemKey.deciding? members = some (.bytes, v) →
      (printLine lib f (.object members)).run r
          = (.error (.unsupported ("bytes " ++ v.compact)), r) ∧
        ∀ (s : Session) (i : Nat), s.file? i = some f →
          s.act (.decode i (.object members))
            = (s, .failed (.unsupported ("bytes " ++ v.compact)))

/-- A line with the encoding of bytes is printed as their literal. -/
theorem run_printLine_bytes {lib : RuntimeLibrary} {f : OutputFile} {bs : List UInt8}
    {members : List (String × Json)}
    (hmember : ItemKey.deciding? members = some (.bytes, .string (encode bs))) (r : Registry) :
    (printLine lib f (.object members)).run r
      = (.ok (f.append [.text (Literal.bytes bs), .text "\n"]), r) := by
  have hitem : Item.ofJson f.importPath (.object members) = .ok (.bytes bs) := by
    rw [Item.ofJson_of_deciding hmember]
    exact Item.readUnder_of_gives (.bytes (decode?_eq_some_iff.mpr rfl))
  exact run_printLine_of_literal hitem rfl r

/-- A line with any other value is refused. -/
theorem ofJson_bytes_eq_error {home : String} {v : Json} {members : List (String × Json)}
    (hv : ∀ bs, v ≠ .string (encode bs)) (hmember : ItemKey.deciding? members = some (.bytes, v)) :
    Item.ofJson home (.object members) = .error (.unsupported ("bytes " ++ v.compact)) := by
  have hnone : Item.bytesOf v = none := by
    rw [Option.eq_none_iff_forall_ne_some]
    intro bs hbs
    cases v with
    | string s => exact hv bs (congrArg Json.string (decode?_eq_some_iff.mp hbs))
    | _ => cases hbs
  rw [Item.ofJson_of_deciding hmember, Item.readUnder, hnone]
  rfl

/-- They are printed so into every file of every run. -/
theorem printLine_bytes (lib : RuntimeLibrary) (f : OutputFile) (r : Registry) :
    KeepsBytes lib f r := by
  refine ⟨fun bs members hmember => ?_, ?_, fun v members hv hmember => ?_⟩
  · exact ⟨_, Literal.readBytes?_bytes bs, run_printLine_bytes hmember r⟩
  · intro bs bs' members members' hmember hmember' hsame
    rw [run_printLine_bytes hmember, run_printLine_bytes hmember', Prod.mk.injEq,
      Except.ok.injEq] at hsame
    have htokens := List.append_cancel_left (congrArg OutputFile.tokens hsame.1)
    have htext : Literal.bytes bs = Literal.bytes bs' := by
      simpa using htokens
    exact Option.some.inj (calc
      some bs = Literal.readBytes? (Literal.bytes bs) := (Literal.readBytes?_bytes bs).symm
      _ = Literal.readBytes? (Literal.bytes bs') := by rw [htext]
      _ = some bs' := Literal.readBytes?_bytes bs')
  · have hrefused : ∀ home, Item.ofJson home (.object members) = _ := fun home =>
      ofJson_bytes_eq_error hv hmember
    exact ⟨run_printLine_of_refused (hrefused _) r, fun s i hfile =>
      Session.act_decode_eq_failed hfile (hrefused _)⟩

/-- A line that gives three bytes and nothing else. -/
example (lib : RuntimeLibrary) (f : OutputFile) (r : Registry) :
    (printLine lib f (.object [("bytes", .string "AP8Q")])).run r
      = (.ok (f.append [.text "new Uint8Array([0x00, 0xFF, 0x10])", .text "\n"]), r) :=
  have hdecoded : ItemKey.deciding? [("bytes", .string "AP8Q")]
      = some (.bytes, .string (encode [0, 255, 16])) := rfl
  run_printLine_bytes hdecoded r

end PlannedFile

end ModuleAssembly
