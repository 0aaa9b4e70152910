import FilterQuery.Json.Printer
import FilterQuery.Json.Reader

namespace FilterQuery.Json

variable {chars more rest : List Char} {c : Char}

theorem hexDigit_spec : ∀ n < 16, Text.isHexDigit (hexDigit n) = true ∧
    Text.hexValue (hexDigit n) = n := by
  decide

theorem naturalOfHexDigits_control {code : Nat} (control : code < 0x20) :
    Text.naturalOfHexDigits ['0', '0', hexDigit (code / 16), hexDigit (code % 16)] = code := by
  obtain ⟨-, high⟩ := hexDigit_spec (code / 16) (by omega)
  obtain ⟨-, low⟩ := hexDigit_spec (code % 16) (by omega)
  have zero : Text.hexValue '0' = 0 := by decide
  simp only [Text.naturalOfHexDigits, List.foldl_cons, List.foldl_nil, high, low, zero]
  omega

theorem decodePieces_control {pieces : List Piece} (control : c.toNat < 0x20) :
    decodePieces (.unit c.toNat :: pieces) = (decodePieces pieces).map (c :: ·) := by
  have alone : isHighSurrogate c.toNat = false ∧ isLowSurrogate c.toNat = false := by
    simp only [isHighSurrogate, isLowSurrogate, Bool.and_eq_false_iff, decide_eq_false_iff_not]
    omega
  rw [decodePieces.eq_def]
  simp only [alone, Bool.false_eq_true, if_false, Char.ofNat_toNat]

theorem pieces?_control (control : c.toNat < 0x20) :
    pieces? (['\\', 'u', '0', '0', hexDigit (c.toNat / 16), hexDigit (c.toNat % 16)] ++ rest) =
      (pieces? rest).map fun read => (.unit c.toNat :: read.1, read.2) := by
  obtain ⟨high, -⟩ := hexDigit_spec (c.toNat / 16) (by omega)
  obtain ⟨low, -⟩ := hexDigit_spec (c.toNat % 16) (by omega)
  have zero : Text.isHexDigit '0' = true := by decide
  simp only [List.cons_append, List.nil_append, pieces?, List.all_cons, List.all_nil, high, low,
    zero, naturalOfHexDigits_control control, Bool.and_self, if_true]

theorem pieces?_simple {letter : Char} (escape : simpleEscape? letter = some c) :
    pieces? (['\\', letter] ++ rest) =
      (pieces? rest).map fun read => (.char c :: read.1, read.2) := by
  have notCode : letter ≠ 'u' := by
    rintro rfl
    cases escape
  simp [pieces?, escape, notCode]

/-- An escaped character is read as one piece, and the piece stands for the character. -/
theorem exists_piece (c : Char) : ∃ piece : Piece,
    (∀ rest, pieces? (escapedChar c ++ rest) =
      (pieces? rest).map fun read => (piece :: read.1, read.2)) ∧
    ∀ pieces, decodePieces (piece :: pieces) = (decodePieces pieces).map (c :: ·) := by
  fun_cases escapedChar c with
  | case1 same | case2 _ same | case3 _ _ same | case4 _ _ _ same | case5 _ _ _ _ same
  | case6 _ _ _ _ _ same | case7 _ _ _ _ _ _ same =>
      subst same
      exact ⟨.char _, fun _ => pieces?_simple rfl, fun _ => rfl⟩
  | case8 _ _ _ _ _ _ _ control =>
      exact ⟨.unit c.toNat, fun _ => pieces?_control control, fun _ => decodePieces_control control⟩
  | case9 _ notBackslash _ _ _ _ _ notControl =>
      refine ⟨.char c, ?_, fun _ => rfl⟩
      intro rest
      simp [pieces?, notBackslash, notControl]

theorem pieces?_escapedChars (cs rest : List Char) : ∃ pieces,
    pieces? (escapedChars cs ++ '"' :: rest) = some (pieces, rest) ∧
      decodePieces pieces = some cs := by
  induction cs with
  | nil => exact ⟨[], rfl, rfl⟩
  | cons c cs ih =>
      obtain ⟨piece, reads, stands⟩ := exists_piece c
      obtain ⟨pieces, readOn, decoded⟩ := ih
      refine ⟨piece :: pieces, ?_, ?_⟩
      · rw [escapedChars, List.flatMap_cons, List.append_assoc, reads]
        change (pieces? (escapedChars cs ++ _)).map _ = _
        rw [readOn]
        rfl
      · rw [stands, decoded]
        rfl

theorem symbol?_stringChars (text : String) (rest : List Char) :
    symbol? (stringChars text ++ rest) = some (.string (some text), rest) := by
  obtain ⟨pieces, read, decoded⟩ := pieces?_escapedChars text.toList rest
  have chars : stringChars text ++ rest = '"' :: (escapedChars text.toList ++ '"' :: rest) := by
    simp [stringChars]
  rw [chars, symbol?, read, Option.map_some, decoded, Option.map_some, String.ofList_toList]

mutual

/-- Whether no number occurs in a value. -/
def Numberless : Json → Prop
  | .number _ => False
  | .array items => NumberlessItems items
  | .object members => NumberlessMembers members
  | .null | .bool _ | .string _ => True

def NumberlessItems : List Json → Prop
  | [] => True
  | item :: rest => item.Numberless ∧ NumberlessItems rest

def NumberlessMembers : List (String × Json) → Prop
  | [] => True
  | (_, value) :: rest => value.Numberless ∧ NumberlessMembers rest

end

mutual

def symbols : Json → List Symbol
  | .null => [.null]
  | .bool value => [.bool value]
  | .number value => [.number (some value)]
  | .string value => [.string (some value)]
  | .array [] => [.openArray, .closeArray]
  | .array (item :: rest) => .openArray :: (item.symbols ++ furtherItems rest ++ [.closeArray])
  | .object [] => [.openObject, .closeObject]
  | .object ((key, value) :: rest) =>
      .openObject :: .string (some key) :: .colon ::
        (value.symbols ++ furtherMembers rest ++ [.closeObject])

def furtherItems : List Json → List Symbol
  | [] => []
  | item :: rest => .comma :: (item.symbols ++ furtherItems rest)

def furtherMembers : List (String × Json) → List Symbol
  | [] => []
  | (key, value) :: rest =>
      .comma :: .string (some key) :: .colon :: (value.symbols ++ furtherMembers rest)

end

/-- Whether characters are read as symbols, whatever follows them. -/
def Lexes (chars : List Char) (symbols : List Symbol) : Prop :=
  ∀ fuel rest, ∃ left, symbolsFrom (chars.length + fuel) (chars ++ rest) =
    (symbolsFrom (left + fuel) rest).map (symbols ++ ·)

namespace Lexes

variable {symbol : Symbol} {front back : List Symbol}

theorem nil : Lexes [] [] := by
  intro fuel rest
  exact ⟨0, by simp⟩

theorem append (first : Lexes chars front) (second : Lexes more back) :
    Lexes (chars ++ more) (front ++ back) := by
  intro fuel rest
  obtain ⟨left, read⟩ := first (more.length + fuel) (more ++ rest)
  obtain ⟨leftOver, readOn⟩ := second (left + fuel) rest
  refine ⟨leftOver + left, ?_⟩
  -- The characters that the first part saved are fuel for the second.
  have fuelled : left + (more.length + fuel) = more.length + (left + fuel) := by omega
  rw [List.append_assoc, List.length_append, Nat.add_assoc, read, fuelled, readOn, Nat.add_assoc]
  cases symbolsFrom (leftOver + (left + fuel)) rest <;> simp

/-- A symbol is read if its characters are, and do not start with a space. -/
theorem ofSymbol (solid : isSpace c = false)
    (read : ∀ rest, symbol? (c :: chars ++ rest) = some (symbol, rest)) :
    Lexes (c :: chars) [symbol] := by
  intro fuel rest
  refine ⟨chars.length, ?_⟩
  have fuelled : (c :: chars).length + fuel = chars.length + fuel + 1 := by
    rw [List.length_cons]
    omega
  have first : symbol? (c :: (chars ++ rest)) = some (symbol, rest) := read rest
  rw [fuelled, List.cons_append, symbolsFrom]
  simp only [solid, Bool.false_eq_true, if_false, first, List.singleton_append]

theorem ofSpaces (spaces : ∀ c ∈ chars, isSpace c = true) : Lexes chars [] := by
  induction chars with
  | nil => exact nil
  | cons c chars ih =>
      obtain ⟨space, others⟩ := List.forall_mem_cons.mp spaces
      intro fuel rest
      obtain ⟨left, read⟩ := ih others fuel rest
      refine ⟨left, ?_⟩
      have fuelled : (c :: chars).length + fuel = chars.length + fuel + 1 := by
        rw [List.length_cons]
        omega
      rw [fuelled, List.cons_append, symbolsFrom, if_pos space, read]

theorem string (text : String) : Lexes (stringChars text) [.string (some text)] :=
  ofSymbol (by decide) (symbol?_stringChars text)

theorem lineBreak (level : Nat) : Lexes (lineBreak level) [] := by
  refine ofSpaces ?_
  intro c listed
  rcases List.mem_cons.mp listed with rfl | spaces
  · rfl
  · rw [(List.mem_replicate.mp spaces).2]
    rfl

theorem blank : Lexes [' '] [] := ofSpaces (List.forall_mem_singleton.mpr rfl)

theorem openArray : Lexes ['['] [.openArray] := ofSymbol rfl fun _ => rfl

theorem closeArray : Lexes [']'] [.closeArray] := ofSymbol rfl fun _ => rfl

theorem openObject : Lexes ['\x7b'] [.openObject] := ofSymbol rfl fun _ => rfl

theorem closeObject : Lexes ['\x7d'] [.closeObject] := ofSymbol rfl fun _ => rfl

theorem comma : Lexes [','] [.comma] := ofSymbol rfl fun _ => rfl

theorem colon : Lexes [':'] [.colon] := ofSymbol rfl fun _ => rfl

theorem symbols? (lexes : Lexes chars front) : Json.symbols? chars = some front := by
  obtain ⟨left, read⟩ := lexes 0 []
  rw [List.append_nil, Nat.add_zero] at read
  rw [Json.symbols?, read]
  cases left <;> simp [symbolsFrom]

end Lexes

mutual

theorem lexes_compact (json : Json) (numberless : json.Numberless) :
    Lexes json.compactChars json.symbols := by
  match json, numberless with
  | .null, _ => exact .ofSymbol rfl fun _ => rfl
  | .bool true, _ => exact .ofSymbol rfl fun _ => rfl
  | .bool false, _ => exact .ofSymbol rfl fun _ => rfl
  | .string value, _ => exact .string value
  | .array [], _ => exact Lexes.openArray.append .closeArray
  | .array (item :: rest), ⟨first, others⟩ =>
      have items := (lexes_compact item first).append (lexes_compactItems rest others)
      exact (Lexes.openArray.append items).append .closeArray
  | .object [], _ => exact Lexes.openObject.append .closeObject
  | .object ((key, value) :: rest), ⟨first, others⟩ =>
      have named := (Lexes.string key).append (Lexes.colon.append (lexes_compact value first))
      have members := named.append (lexes_compactMembers rest others)
      simpa [compactChars, symbols] using (Lexes.openObject.append members).append .closeObject

theorem lexes_compactItems (items : List Json) (numberless : NumberlessItems items) :
    Lexes (compactItems items) (furtherItems items) := by
  match items, numberless with
  | [], _ => exact .nil
  | item :: rest, ⟨first, others⟩ =>
      exact Lexes.comma.append ((lexes_compact item first).append (lexes_compactItems rest others))

theorem lexes_compactMembers (members : List (String × Json))
    (numberless : NumberlessMembers members) :
    Lexes (compactMembers members) (furtherMembers members) := by
  match members, numberless with
  | [], _ => exact .nil
  | (key, value) :: rest, ⟨first, others⟩ =>
      have named := (Lexes.string key).append (Lexes.colon.append (lexes_compact value first))
      have members := named.append (lexes_compactMembers rest others)
      simpa [compactMembers, furtherMembers] using Lexes.comma.append members

end

mutual

theorem lexes_pretty (level : Nat) (json : Json) (numberless : json.Numberless) :
    Lexes (json.prettyChars level) json.symbols := by
  match json, numberless with
  | .null, _ => exact .ofSymbol rfl fun _ => rfl
  | .bool true, _ => exact .ofSymbol rfl fun _ => rfl
  | .bool false, _ => exact .ofSymbol rfl fun _ => rfl
  | .string value, _ => exact .string value
  | .array [], _ => exact Lexes.openArray.append .closeArray
  | .array (item :: rest), ⟨first, others⟩ =>
      have items := (lexes_pretty (level + 1) item first).append
        (lexes_prettyItems (level + 1) rest others)
      have opened := Lexes.openArray.append ((Lexes.lineBreak (level + 1)).append items)
      simpa [prettyChars, symbols] using
        opened.append ((Lexes.lineBreak level).append .closeArray)
  | .object [], _ => exact Lexes.openObject.append .closeObject
  | .object ((key, value) :: rest), ⟨first, others⟩ =>
      have named := (Lexes.string key).append
        ((Lexes.colon.append .blank).append (lexes_pretty (level + 1) value first))
      have members := named.append (lexes_prettyMembers (level + 1) rest others)
      have opened := Lexes.openObject.append ((Lexes.lineBreak (level + 1)).append members)
      simpa [prettyChars, symbols] using
        opened.append ((Lexes.lineBreak level).append .closeObject)

theorem lexes_prettyItems (level : Nat) (items : List Json) (numberless : NumberlessItems items) :
    Lexes (prettyItems level items) (furtherItems items) := by
  match items, numberless with
  | [], _ => exact .nil
  | item :: rest, ⟨first, others⟩ =>
      have items := (lexes_pretty level item first).append (lexes_prettyItems level rest others)
      simpa [prettyItems, furtherItems] using
        Lexes.comma.append ((Lexes.lineBreak level).append items)

theorem lexes_prettyMembers (level : Nat) (members : List (String × Json))
    (numberless : NumberlessMembers members) :
    Lexes (prettyMembers level members) (furtherMembers members) := by
  match members, numberless with
  | [], _ => exact .nil
  | (key, value) :: rest, ⟨first, others⟩ =>
      have named := (Lexes.string key).append
        ((Lexes.colon.append .blank).append (lexes_pretty level value first))
      have members := named.append (lexes_prettyMembers level rest others)
      simpa [prettyMembers, furtherMembers] using
        Lexes.comma.append ((Lexes.lineBreak level).append members)

end

mutual

/-- The tree that the symbols of a value are read as. -/
def raw : Json → Raw
  | .null => .null
  | .bool value => .bool value
  | .number value => .number (some value)
  | .string value => .string (some value)
  | .array items => .array (rawItems items)
  | .object members => .object (rawMembers members)

def rawItems : List Json → List Raw
  | [] => []
  | item :: rest => item.raw :: rawItems rest

def rawMembers : List (String × Json) → List (Option String × Raw)
  | [] => []
  | (key, value) :: rest => (some key, value.raw) :: rawMembers rest

end

mutual

/-- How many arrays and objects are nested in a value, the value itself included. -/
def depth : Json → Nat
  | .array items => depthOfItems items + 1
  | .object members => depthOfMembers members + 1
  | .null | .bool _ | .number _ | .string _ => 0

def depthOfItems : List Json → Nat
  | [] => 0
  | item :: rest => max item.depth (depthOfItems rest)

def depthOfMembers : List (String × Json) → Nat
  | [] => 0
  | (_, value) :: rest => max value.depth (depthOfMembers rest)

end

/-- No value starts with the end of an array, so its first item is read like any other. -/
theorem run_firstItem (json : Json) (frames : List Frame) (rest : List Symbol) :
    State.run (.atFirstItem frames) (json.symbols ++ rest) =
      State.run (.atValue (.array [] :: frames)) (json.symbols ++ rest) := by
  match json with
  | .null | .bool _ | .number _ | .string _ => rfl
  | .array [] | .array (_ :: _) => rfl
  | .object [] | .object (_ :: _) => rfl

mutual

theorem run_symbols (json : Json) (frames : List Frame) (rest : List Symbol) :
    State.run (.atValue frames) (json.symbols ++ rest) =
      State.run (.afterValue json.raw frames) rest := by
  match json with
  | .null | .bool _ | .number _ | .string _ => rfl
  | .array [] => rfl
  | .array (item :: items) =>
      have opened : State.run (.atValue frames) ((Json.array (item :: items)).symbols ++ rest) =
          State.run (.atFirstItem frames)
            (item.symbols ++ (furtherItems items ++ .closeArray :: rest)) := by
        simp [symbols, State.run, State.step, State.startValue]
      rw [opened, run_firstItem, run_symbols item, State.afterValue, run_furtherItems]
      rfl
  | .object [] => rfl
  | .object ((key, value) :: members) =>
      have opened : State.run (.atValue frames)
          ((Json.object ((key, value) :: members)).symbols ++ rest) =
          State.run (.atValue (.object [] (some key) :: frames))
            (value.symbols ++ (furtherMembers members ++ .closeObject :: rest)) := by
        simp [symbols, State.run, State.step, State.startValue]
      rw [opened, run_symbols value, State.afterValue, run_furtherMembers]
      rfl

theorem run_furtherItems (items : List Json) (done : List Raw) (frames : List Frame)
    (rest : List Symbol) :
    State.run (.atNext (.array done) frames) (furtherItems items ++ .closeArray :: rest) =
      State.run (.afterValue (.array (done.reverse ++ rawItems items)) frames) rest := by
  match items with
  | [] =>
      rw [rawItems, List.append_nil]
      rfl
  | item :: items =>
      have next : State.run (.atNext (.array done) frames)
          (furtherItems (item :: items) ++ .closeArray :: rest) =
          State.run (.atValue (.array done :: frames))
            (item.symbols ++ (furtherItems items ++ .closeArray :: rest)) := by
        simp [furtherItems, State.run, State.step]
      rw [next, run_symbols item, State.afterValue, run_furtherItems]
      simp [rawItems]

theorem run_furtherMembers (members : List (String × Json))
    (done : List (Option String × Raw)) (key : Option String) (frames : List Frame)
    (rest : List Symbol) :
    State.run (.atNext (.object done key) frames)
        (furtherMembers members ++ .closeObject :: rest) =
      State.run (.afterValue (.object (done.reverse ++ rawMembers members)) frames) rest := by
  match members with
  | [] =>
      rw [rawMembers, List.append_nil]
      rfl
  | (name, value) :: members =>
      have next : State.run (.atNext (.object done key) frames)
          (furtherMembers ((name, value) :: members) ++ .closeObject :: rest) =
          State.run (.atValue (.object done (some name) :: frames))
            (value.symbols ++ (furtherMembers members ++ .closeObject :: rest)) := by
        simp [furtherMembers, State.run, State.step]
      rw [next, run_symbols value, State.afterValue, run_furtherMembers]
      simp [rawMembers]

end

theorem ofSymbols?_symbols (json : Json) : Raw.ofSymbols? json.symbols = some json.raw := by
  have read := run_symbols json [] []
  rw [List.append_nil] at read
  rw [Raw.ofSymbols?, read]
  rfl

mutual

/-- The value comes back from its tree as long as it is not nested too deeply. -/
theorem value?_raw (levels : Nat) (json : Json) :
    json.raw.value? levels = if json.depth ≤ levels then some json else none := by
  match json, levels with
  | .null, _ | .bool _, _ | .number _, _ | .string _, _ => simp [raw, Raw.value?, depth]
  | .array items, 0 => simp [raw, Raw.value?, depth]
  | .object members, 0 => simp [raw, Raw.value?, depth]
  | .array items, levels + 1 =>
      simp only [raw, Raw.value?, itemValues?_rawItems levels items, depth, Nat.add_le_add_iff_right]
      split <;> rfl
  | .object members, levels + 1 =>
      simp only [raw, Raw.value?, memberValues?_rawMembers levels members, depth,
        Nat.add_le_add_iff_right]
      split <;> rfl

theorem itemValues?_rawItems (levels : Nat) (items : List Json) :
    Raw.itemValues? levels (rawItems items) =
      if depthOfItems items ≤ levels then some items else none := by
  match items with
  | [] => simp [rawItems, Raw.itemValues?, depthOfItems]
  | item :: rest =>
      simp only [rawItems, Raw.itemValues?, value?_raw levels item,
        itemValues?_rawItems levels rest, depthOfItems, Nat.max_le]
      by_cases first : item.depth ≤ levels <;> by_cases others : depthOfItems rest ≤ levels <;>
        simp [first, others]

theorem memberValues?_rawMembers (levels : Nat) (members : List (String × Json)) :
    Raw.memberValues? levels (rawMembers members) =
      if depthOfMembers members ≤ levels then some members else none := by
  match members with
  | [] => simp [rawMembers, Raw.memberValues?, depthOfMembers]
  | (key, value) :: rest =>
      simp only [rawMembers, Raw.memberValues?, value?_raw levels value,
        memberValues?_rawMembers levels rest, depthOfMembers, Nat.max_le]
      by_cases first : value.depth ≤ levels <;>
        by_cases others : depthOfMembers rest ≤ levels <;> simp [first, others]

end

theorem raw_read?_compact (json : Json) (numberless : json.Numberless) :
    Raw.read? json.compact = some json.raw := by
  rw [Raw.read?, toList_compact, (lexes_compact json numberless).symbols?]
  exact ofSymbols?_symbols json

theorem raw_read?_pretty (json : Json) (numberless : json.Numberless) :
    Raw.read? json.pretty = some json.raw := by
  rw [Raw.read?, toList_pretty, (lexes_pretty 0 json numberless).symbols?]
  exact ofSymbols?_symbols json

end FilterQuery.Json
