import FilterQuery.Proofs.LastWord
import FilterQuery.Proofs.SchemaParts

namespace FilterQuery

/-! What completion offers can be typed, as far as a word by itself tells what it is.

The token of an entry may be taken behind the text for which it is offered.  So the entry can be
typed exactly if its name is cut off as one more word there and is taken for what the entry is.
Only fields that read like combinators and some names of operators fail at that.
-/

namespace Lexeme

variable {schema : Schema} {name : String}

theorem mem_of_isDate {chars : List Char} (date : isDate chars = true) : '-' ∈ chars := by
  unfold isDate at date
  split at date
  · simp
  · cases date

theorem ofText?_bracket_of_isPlain (plain : isPlain name.toList = true) :
    Bracket.ofText? name = none := by
  rw [Option.eq_none_iff_forall_ne_some]
  intro half found
  rw [← Bracket.text_of_ofText? found] at plain
  revert plain
  cases half <;> decide

theorem isQuoted_of_isPlain (plain : isPlain name.toList = true) : Text.isQuoted name = false := by
  unfold Text.isQuoted Text.isQuotedChars
  split
  next first second rest chars =>
    simp only [chars, isPlain, List.all_cons, Bool.and_eq_true, Bool.not_eq_true'] at plain
    simp [plain.1.2]
  next => rfl

theorem classify_of_isPlain (plain : isPlain name.toList = true) :
    classify schema name =
      if isDate name.toList then .value
      else if (Combinator.ofText? name).isSome then .combinator
      else if (schema.field? (Text.lower name)).isSome then .field
      else if (schema.operator? name).isSome then .operator
      else .invalid := by
  simp [classify, ofText?_bracket_of_isPlain plain, isQuoted_of_isPlain plain]

theorem unquoted_of_isPlain {chars : List Char} (plain : isPlain chars = true) :
    ∀ c ∈ chars, Text.isQuote c = false := by
  simp only [isPlain, List.all_eq_true, Bool.and_eq_true, Bool.not_eq_true'] at plain
  exact fun c listed => (plain c listed).2

theorem unquoted_bracket (half : Bracket) : ∀ c ∈ half.text.toList, Text.isQuote c = false := by
  cases half <;> exact List.forall_mem_singleton.mpr rfl

end Lexeme

namespace Schema

variable {schema : Schema} {name : String}

theorem identifier_char {c : Char} (may : (startsIdentifier c || Text.isAsciiDigit c) = true) :
    (Lexeme.isWordChar c && !Text.isQuote c) = true ∧ c ≠ '-' ∧ c.toUpper.toLower = c := by
  have all : ∀ code < 128,
      (startsIdentifier (.ofNat code) || Text.isAsciiDigit (.ofNat code)) = true →
        (Lexeme.isWordChar (.ofNat code) && !Text.isQuote (.ofNat code)) = true ∧
          Char.ofNat code ≠ '-' ∧
            (Char.ofNat code).toUpper.toLower = Char.ofNat code := by
    decide +kernel
  have own := all c.toNat (ascii_identifier may).1
  rw [Char.ofNat_toNat] at own
  exact own may

theorem isPlain_identifier (identifier : isIdentifier name = true) :
    Lexeme.isPlain name.toList = true := by
  rw [Lexeme.isPlain, List.all_eq_true]
  exact fun c listed => (identifier_char ((mem_identifier identifier).2 c listed)).1

theorem isDate_identifier (identifier : isIdentifier name = true) :
    Lexeme.isDate name.toList = false := by
  rw [← Bool.not_eq_true]
  intro date
  have hyphen := (mem_identifier identifier).2 '-' (Lexeme.mem_of_isDate date)
  exact (identifier_char hyphen).2.1 rfl

/-- The only identifiers that read like combinators are those in lower case. -/
theorem isSome_ofText?_identifier (identifier : isIdentifier name = true) :
    (Combinator.ofText? name).isSome ↔ name = "and" ∨ name = "or" := by
  constructor
  · intro reads
    obtain ⟨combinator, found⟩ := Option.isSome_iff_exists.mp reads
    have matching := List.find?_some found
    have capitals : combinator.text.toList = name.toList.map Char.toUpper := beq_iff_eq.mp matching
    have back : ∀ c ∈ name.toList, (Char.toLower ∘ Char.toUpper) c = id c :=
      fun c listed => (identifier_char ((mem_identifier identifier).2 c listed)).2.2
    have lowered : (name.toList.map Char.toUpper).map Char.toLower = name.toList := by
      rw [List.map_map, List.map_congr_left back, List.map_id]
    rw [← capitals] at lowered
    rw [← String.toList_inj, ← String.toList_inj, ← lowered]
    cases combinator <;> decide
  · rintro (rfl | rfl) <;> decide

end Schema

namespace Lexeme

variable {schema : Schema} {document : Json} {name : String} {field : Field} {operator : Operator}

theorem classify_field (loaded : Schema.ofJson document = .ok schema)
    (listed : field ∈ schema.fields) :
    classify schema field.name = .field ↔ field.name ≠ "and" ∧ field.name ≠ "or" := by
  have identifier := Schema.isIdentifier_of_loaded loaded listed
  have found : (schema.field? (Text.lower field.name)).isSome = true := by
    rw [Schema.lower_identifier identifier, Schema.field?_of_loaded loaded listed]
    rfl
  rw [classify_of_isPlain (Schema.isPlain_identifier identifier),
    Schema.isDate_identifier identifier, if_neg Bool.false_ne_true, found, if_pos rfl, ← not_or,
    ← Schema.isSome_ofText?_identifier identifier]
  split <;> simp [*]

theorem classify_operator (plain : isPlain name.toList = true)
    (found : (schema.operator? name).isSome = true) :
    classify schema name = .operator ↔ isDate name.toList = false ∧
      Combinator.ofText? name = none ∧ schema.field? (Text.lower name) = none := by
  rw [classify_of_isPlain plain, found]
  cases isDate name.toList <;> cases Combinator.ofText? name <;>
    cases schema.field? (Text.lower name) <;> simp

end Lexeme

variable {schema : Schema} {document : Json} {standing : Standing} {token : Token}
  {lexeme : Lexeme} {words : List Lexeme} {read : List Token} {text name : String}
  {behindOperator : Bool} {entry : Suggestion} {offered : List Suggestion}

theorem Lexeme.token?_of_kind (kind : lexeme.kind = token.type.lexemeKind)
    (spelled : lexeme.text = token.text) (notValue : token.type ≠ .value)
    (lowered : token.type = .field → Text.lower token.text = token.text) :
    lexeme.token? false = some token := by
  cases token with
  | field name =>
      have same : Text.lower name = name := lowered rfl
      simp [token?, kind, spelled, Token.type, TokenType.lexemeKind, Token.text, same]
  | operator name => simp [token?, kind, spelled, Token.type, TokenType.lexemeKind, Token.text]
  | value raw => exact absurd rfl notValue
  | combinator word =>
      simp only [token?, kind, spelled]
      cases word <;> rfl
  | bracket half =>
      simp only [token?, kind, spelled]
      cases half <;> rfl

theorem exists_getLast?_of_readWords (reads : readWords behindOperator words = some read)
    (last : read.getLast? = some token) : ∃ front lexeme behind,
      words = front ++ [lexeme] ∧ lexeme.token? behind = some token := by
  induction words generalizing behindOperator read with
  | nil =>
      cases reads
      cases last
  | cons lexeme rest ih =>
      unfold readWords at reads
      split at reads
      next first named =>
        obtain ⟨later, laterReads, rfl⟩ := Option.map_eq_some_iff.mp reads
        cases laterLast : later.getLast? with
        | none =>
            cases List.getLast?_eq_none_iff.mp laterLast
            cases last
            have alone := length_readWords laterReads
            cases List.length_eq_zero_iff.mp alone.symm
            exact ⟨[], lexeme, behindOperator, rfl, named⟩
        | some other =>
            rw [List.getLast?_cons, laterLast] at last
            cases last
            obtain ⟨front, final, behind, rfl, stands⟩ := ih laterReads laterLast
            exact ⟨lexeme :: front, final, behind, rfl, stands⟩
      next => cases reads

/-- Whether a name that is put behind a text is one more word there, of a kind. -/
def AddsWord (schema : Schema) (text name : String) (kind : LexemeKind) : Prop :=
  lexemes schema (text ++ name) = lexemes schema text ++
    [⟨name, text.utf8ByteSize, text.utf8ByteSize + name.utf8ByteSize, kind⟩]

theorem Lexeme.ofWord_toList (place : Nat) (name : String) :
    ofWord schema (place, name.toList) =
      ⟨name, place, place + name.utf8ByteSize, classify schema name⟩ := by
  have size := utf8ByteSize_ofList name.toList
  rw [String.ofList_toList] at size
  rw [ofWord, String.ofList_toList, ← size]

theorem addsWord_classify (ends : Lexeme.EndsBlank text.toList)
    (alone : Lexeme.StandsAlone name.toList)
    (unquoted : ∀ c ∈ name.toList, Text.isQuote c = false) :
    AddsWord schema text name (Lexeme.classify schema name) := by
  have size := Lexeme.utf8ByteSize_ofList text.toList
  rw [String.ofList_toList] at size
  rw [AddsWord, lexemes, String.toList_append, Lexeme.wordsFrom_append_word ends alone unquoted,
    List.map_append, List.map_singleton, Nat.zero_add, ← size, Lexeme.ofWord_toList]
  rfl

theorem addsWord_iff (ends : Lexeme.EndsBlank text.toList)
    (alone : Lexeme.StandsAlone name.toList)
    (unquoted : ∀ c ∈ name.toList, Text.isQuote c = false) {kind : LexemeKind} :
    AddsWord schema text name kind ↔ Lexeme.classify schema name = kind := by
  have own : AddsWord schema text name (Lexeme.classify schema name) :=
    addsWord_classify ends alone unquoted
  constructor
  · intro adds
    have same := List.append_cancel_left (own.symm.trans adds)
    exact congrArg Lexeme.kind (List.cons.inj same).1
  · intro same
    rwa [same] at own

theorem addsWord_of_getLast? {front : List Lexeme}
    (split : lexemes schema (text ++ lexeme.text) = front ++ [lexeme]) :
    AddsWord schema text lexeme.text lexeme.kind := by
  obtain ⟨words, later, whole, rfl, last⟩ := List.map_eq_append_iff.mp split
  obtain ⟨⟨place, word⟩, none, rfl, rfl, nothing⟩ := List.map_eq_cons_iff.mp last
  cases List.map_eq_nil_iff.mp nothing
  have same : (Lexeme.ofWord schema (place, word)).text.toList = word := String.toList_ofList
  rw [String.toList_append, same] at whole
  obtain ⟨rfl, rfl⟩ := Lexeme.wordsFrom_of_append whole
  have size := Lexeme.utf8ByteSize_ofList text.toList
  rw [String.ofList_toList] at size
  have wordSize := Lexeme.utf8ByteSize_ofList word
  rw [AddsWord, split, lexemes, Lexeme.ofWord, Nat.zero_add, ← size, ← wordSize]

/-- Whether an entry is taken if its name is typed behind a text. -/
def TypesAs (schema : Schema) (text : String) (entry : Suggestion) : Prop :=
  ∃ typed token, QueryText.draft schema (text ++ entry.name) = .ok typed ∧
    typed.tokens.getLast? = some token ∧ token.type = entry.type ∧ token.text = entry.name

namespace Standing.Offers

theorem exists_field (offers : standing.Offers schema (.field name)) :
    ∃ field ∈ schema.fields, field.name = name := by
  obtain ⟨field, found⟩ := Option.isSome_iff_exists.mp offers.1.2
  exact ⟨field, List.mem_of_find?_eq_some found, Schema.field?_name found⟩

theorem exists_operator (offers : standing.Offers schema (.operator name)) :
    ∃ operator, schema.operator? name = some operator := by
  obtain ⟨⟨-, -, -, -, known, -⟩, -⟩ := offers
  exact Option.isSome_iff_exists.mp known

theorem lower_text (offers : standing.Offers schema token)
    (loaded : Schema.ofJson document = .ok schema) (isField : token.type = .field) :
    Text.lower token.text = token.text := by
  cases token with
  | operator | value | combinator | bracket => cases isField
  | field name =>
      obtain ⟨field, listed, rfl⟩ := offers.exists_field
      exact Schema.lower_identifier (Schema.isIdentifier_of_loaded loaded listed)

/-- Operators apart, what is offered is cut off from the words before and behind it. -/
theorem standsAlone (offers : standing.Offers schema token)
    (loaded : Schema.ofJson document = .ok schema) (notValue : token.type ≠ .value)
    (notOperator : token.type ≠ .operator) : Lexeme.StandsAlone token.text.toList ∧
      ∀ c ∈ token.text.toList, Text.isQuote c = false := by
  cases token with
  | value raw => exact absurd rfl notValue
  | operator name => exact absurd rfl notOperator
  | field name =>
      obtain ⟨field, listed, rfl⟩ := offers.exists_field
      have identifier := Schema.isIdentifier_of_loaded loaded listed
      have plain := Schema.isPlain_identifier identifier
      exact ⟨Lexeme.standsAlone_plain plain (Schema.mem_identifier identifier).1,
        Lexeme.unquoted_of_isPlain plain⟩
  | combinator word =>
      obtain ⟨plain, nonempty⟩ := Lexeme.isPlain_combinator word
      exact ⟨Lexeme.standsAlone_plain plain nonempty, Lexeme.unquoted_of_isPlain plain⟩
  | bracket half => exact ⟨Lexeme.standsAlone_bracket half, Lexeme.unquoted_bracket half⟩

end Standing.Offers

namespace QueryText

theorem splitPartial_of_endsBlank (ends : Lexeme.EndsBlank text.toList) :
    splitPartial text (lexemes schema text) = (lexemes schema text, "") := by
  unfold splitPartial
  cases last : (lexemes schema text).getLast? with
  | none => rfl
  | some lexeme =>
      have blank : endsBlank text = true := by
        unfold endsBlank
        cases final : text.toList.getLast? with
        | none =>
            rw [lexemes, List.getLast?_eq_none_iff.mp final, Lexeme.wordsFrom] at last
            cases last
        | some c => exact ends c final
      simp [isPartial, blank]

/-- Behind a blank everything is offered that may be taken next, values apart. -/
theorem completions_eq (ends : Lexeme.EndsBlank text.toList)
    (completed : completions schema text = .ok offered) :
    ∃ typed tokens, draft schema text = .ok typed ∧ readTokens schema text = some tokens ∧
      IsRow typed tokens ∧ typed.schema = schema ∧
      offered = (LegalValues.between schema tokens []).choices.map
        (typed.suggestion tokens.length) := by
  simp only [completions, splitPartial_of_endsBlank ends] at completed
  split at completed
  next => cases completed
  next typed entered =>
    obtain ⟨tokens, reads, rfl, row⟩ := isRow_of_draft entered
    refine ⟨typed, tokens, entered, reads, row, rfl, ?_⟩
    have nothing : (Text.lower "").isEmpty = true := by decide
    rw [← length_readWords reads, Draft.suggestMatching, row.legalValues_eq] at completed
    simp only [Except.map, MatchKey.accepts, nothing, Bool.true_or] at completed
    rw [List.filter_eq_self.mpr fun _ _ => rfl] at completed
    exact (Except.ok.inj completed).symm

theorem typesAs_of_addsWord {typed : Draft} (entered : draft schema text = .ok typed)
    (reads : readTokens schema text = some read) (row : IsRow typed read)
    (offers : (Standing.start.seeAll read).Offers typed.schema token)
    (notValue : token.type ≠ .value)
    (lowered : token.type = .field → Text.lower token.text = token.text)
    (adds : AddsWord schema text token.text token.type.lexemeKind) :
    ∃ edited, draft schema (text ++ token.text) = .ok edited ∧
      edited.tokens.getLast? = some token := by
  have behind : read.getLast?.any Token.isOperator = false := by
    rwa [← Bool.not_eq_true, ← isValue_iff_behindOperator offers]
  have named : (⟨token.text, text.utf8ByteSize, text.utf8ByteSize + token.text.utf8ByteSize,
      token.type.lexemeKind⟩ : Lexeme).token? false = some token :=
    Lexeme.token?_of_kind rfl rfl notValue lowered
  have taken := row.enter_ok_iff.mpr ⟨token, behind ▸ named, offers, rfl⟩
  rw [length_readWords reads] at taken
  refine ⟨_, (draft_append rfl adds entered).trans taken, ?_⟩
  rw [(row.extended offers).tokens_eq, List.getLast?_concat]

theorem addsWord_of_typesAs {typed : Draft} (entered : draft schema (text ++ name) = .ok typed)
    (last : typed.tokens.getLast? = some token) (notValue : token.type ≠ .value)
    (spelled : token.text = name)
    (separate : token.type ≠ .operator → ∃ kind, AddsWord schema text name kind) :
    AddsWord schema text name token.type.lexemeKind := by
  obtain ⟨read, reads, -, row⟩ := isRow_of_draft entered
  rw [row.tokens_eq] at last
  obtain ⟨front, lexeme, behind, split, named⟩ := exists_getLast?_of_readWords reads last
  obtain ⟨-, kind, whole⟩ := (Lexeme.eq_of_token? named).resolve_left
    fun same => notValue (congrArg Token.type same)
  by_cases isOperator : token.type = .operator
  · have same : lexeme.text = name := (whole isOperator).trans spelled
    subst same
    rw [← kind]
    exact addsWord_of_getLast? split
  · obtain ⟨other, adds⟩ := separate isOperator
    have final := congrArg List.getLast? (split.symm.trans adds)
    rw [List.getLast?_concat, List.getLast?_concat] at final
    rw [← kind, Option.some.inj final]
    exact adds

theorem typesAs_iff_addsWord {typed : Draft} (index : Nat) (label : String)
    (loaded : Schema.ofJson document = .ok typed.schema)
    (ends : Lexeme.EndsBlank text.toList) (entered : draft typed.schema text = .ok typed)
    (reads : readTokens typed.schema text = some read) (row : IsRow typed read)
    (offers : (Standing.start.seeAll read).Offers typed.schema token)
    (notValue : token.type ≠ .value) :
    TypesAs typed.schema text (typed.suggestion index (token, label)) ↔
      AddsWord typed.schema text token.text token.type.lexemeKind := by
  constructor
  · rintro ⟨edited, last, behind, isLast, sameType, sameText⟩
    change last.type = token.type at sameType
    rw [← sameType] at notValue ⊢
    refine addsWord_of_typesAs behind isLast notValue sameText ?_
    intro notOperator
    obtain ⟨alone, unquoted⟩ := offers.standsAlone loaded (sameType ▸ notValue)
      (sameType ▸ notOperator)
    exact ⟨_, addsWord_classify ends alone unquoted⟩
  · intro adds
    obtain ⟨edited, behind, isLast⟩ := typesAs_of_addsWord entered reads row offers notValue
      (offers.lower_text loaded) adds
    exact ⟨edited, token, behind, isLast, rfl, rfl⟩

theorem addsWord_field_iff (loaded : Schema.ofJson document = .ok schema)
    (ends : Lexeme.EndsBlank text.toList) (offers : standing.Offers schema (.field name)) :
    AddsWord schema text name .field ↔ name ≠ "and" ∧ name ≠ "or" := by
  obtain ⟨alone, unquoted⟩ := offers.standsAlone loaded nofun nofun
  obtain ⟨field, listed, rfl⟩ := offers.exists_field
  exact (addsWord_iff ends alone unquoted).trans (Lexeme.classify_field loaded listed)

theorem addsWord_operator_iff (loaded : Schema.ofJson document = .ok schema)
    (ends : Lexeme.EndsBlank text.toList) (offers : standing.Offers schema (.operator name))
    (plain : Lexeme.isPlain name.toList = true) :
    AddsWord schema text name .operator ↔ Lexeme.isDate name.toList = false ∧
      Combinator.ofText? name = none ∧ schema.field? (Text.lower name) = none := by
  obtain ⟨operator, found⟩ := offers.exists_operator
  have nonempty : name.toList ≠ [] := by
    rw [← Schema.operator?_name found, ne_eq, String.toList_eq_nil_iff]
    exact Schema.operator_name_ne_of_loaded loaded (List.mem_of_find?_eq_some found)
  rw [addsWord_iff ends (Lexeme.standsAlone_plain plain nonempty)
    (Lexeme.unquoted_of_isPlain plain)]
  exact Lexeme.classify_operator plain (Option.isSome_of_eq_some found)

theorem addsWord_combinator (ends : Lexeme.EndsBlank text.toList) (word : Combinator) :
    AddsWord schema text word.text .combinator := by
  obtain ⟨plain, nonempty⟩ := Lexeme.isPlain_combinator word
  rw [addsWord_iff ends (Lexeme.standsAlone_plain plain nonempty)
    (Lexeme.unquoted_of_isPlain plain)]
  exact Lexeme.classify_combinator word

theorem addsWord_bracket (ends : Lexeme.EndsBlank text.toList) (half : Bracket) :
    AddsWord schema text half.text .bracket := by
  rw [addsWord_iff ends (Lexeme.standsAlone_bracket half) (Lexeme.unquoted_bracket half)]
  exact Lexeme.classify_bracket half

/-- What is offered behind a text that is empty or ends with a blank is taken when its name is typed
there, exactly if the name is one more word and told as what the entry is.  That is so for every
combinator and bracket, for every field that does not read like a combinator, and for every operator
with a plain name that does not read like a date, a combinator or a field. -/
theorem completions_typesAs (loaded : Schema.ofJson document = .ok schema) (text : String)
    (next : text = "" ∨ endsBlank text = true)
    (completed : completions schema text = .ok offered) (listed : entry ∈ offered) :
    (TypesAs schema text entry ↔ AddsWord schema text entry.name entry.type.lexemeKind) ∧
      entry.type ≠ .value ∧
      (entry.type = .combinator ∨ entry.type = .group → TypesAs schema text entry) ∧
      (entry.type = .field →
        (TypesAs schema text entry ↔ entry.name ≠ "and" ∧ entry.name ≠ "or")) ∧
      (entry.type = .operator → Lexeme.isPlain entry.name.toList = true →
        (TypesAs schema text entry ↔ Lexeme.isDate entry.name.toList = false ∧
          Combinator.ofText? entry.name = none ∧
          schema.field? (Text.lower entry.name) = none)) := by
  have ends : Lexeme.EndsBlank text.toList := by
    intro last isLast
    rcases next with rfl | blank
    · cases isLast
    · rwa [endsBlank, isLast] at blank
  obtain ⟨typed, tokens, entered, reads, row, rfl, rfl⟩ := completions_eq ends completed
  obtain ⟨⟨token, label⟩, among, rfl⟩ := List.mem_map.mp listed
  have notValue := LegalValues.type_ne_value_of_mem_choices among
  have offers := ((between_allows_iff row.typable.viable).mp
    (LegalValues.allows_of_mem_choices among)).1
  have types := typesAs_iff_addsWord tokens.length label loaded ends entered reads row offers
    notValue
  refine ⟨types, notValue, ?_⟩
  rw [types]
  simp only [Draft.suggestion]
  cases token with
  | value raw => exact absurd rfl notValue
  | field name => exact ⟨nofun, fun _ => addsWord_field_iff loaded ends offers, nofun⟩
  | operator name => exact ⟨nofun, nofun, fun _ => addsWord_operator_iff loaded ends offers⟩
  | combinator word => exact ⟨fun _ => addsWord_combinator ends word, nofun, nofun⟩
  | bracket half => exact ⟨fun _ => addsWord_bracket ends half, nofun, nofun⟩

/-- A document with a field that reads like a combinator, an operator of two words, and one that
reads like a field. -/
def wordDocument : Json :=
  .object [
    ("fields", .array [
      .object [("name", .string "and"), ("label", .string "And"), ("valueKind", .string "text")],
      .object [("name", .string "note"), ("label", .string "Note"),
        ("valueKind", .string "text")]]),
    ("operators", .array [
      .object [("name", .string "has"), ("label", .string "has"), ("family", .string "text")],
      .object [("name", .string "is not"), ("label", .string "is not"),
        ("family", .string "text")],
      .object [("name", .string "Note"), ("label", .string "note"), ("family", .string "text")]])]

def wordSchema : Schema :=
  .ofParts [⟨"and", "And", .text, []⟩, ⟨"note", "Note", .text, []⟩]
    [⟨"has", "has", .text⟩, ⟨"is not", "is not", .text⟩, ⟨"Note", "note", .text⟩]

theorem wordDocument_loaded : Schema.ofJson wordDocument = .ok wordSchema :=
  Schema.ofJson_of_parts (by decide +kernel) (by decide +kernel) (by decide +kernel)

def operatorEntries : List Suggestion :=
  [⟨"has", "has", .operator, .valueOnly⟩, ⟨"is not", "is not", .operator, .valueOnly⟩,
    ⟨"Note", "note", .operator, .valueOnly⟩]

theorem completions_note : completions wordSchema "note " = .ok operatorEntries := by
  have words : lexemes wordSchema "note " = [⟨"note", 0, 4, .field⟩] := by decide +kernel
  rw [completions, words]
  rfl

theorem wordDocument_typesAs : Schema.ofJson wordDocument = .ok wordSchema ∧
    completions wordSchema "note " = .ok operatorEntries ∧
    ∃ entry ∈ operatorEntries, entry.name = "has" ∧ entry.type = .operator ∧
      TypesAs wordSchema "note " entry := by
  refine ⟨wordDocument_loaded, completions_note, _, List.mem_cons_self, rfl, rfl, ?_⟩
  have types := completions_typesAs wordDocument_loaded "note " (.inr (by decide +kernel))
    completions_note List.mem_cons_self
  refine (types.2.2.2.2 rfl (by decide +kernel)).mpr ?_
  decide +kernel

theorem not_typesAs_of_error {error : TextError}
    (refused : draft schema (text ++ entry.name) = .error error) : ¬ TypesAs schema text entry := by
  rintro ⟨typed, token, entered, -⟩
  rw [refused] at entered
  cases entered

/-- The field is on offer where a query starts, but its name is read as a combinator there.  Two of
the operators are on offer behind a field, but the one is read as two words and the other as a
field. -/
theorem wordDocument_untyped : Schema.ofJson wordDocument = .ok wordSchema ∧
    (∃ offered entry, completions wordSchema "" = .ok offered ∧ entry ∈ offered ∧
      entry.name = "and" ∧ ¬ TypesAs wordSchema "" entry) ∧
    completions wordSchema "note " = .ok operatorEntries ∧
    ∀ entry ∈ operatorEntries, entry.name ≠ "has" → ¬ TypesAs wordSchema "note " entry := by
  have started : completions wordSchema "" =
      .ok [⟨"and", "And", .field, .single .operator⟩, ⟨"note", "Note", .field, .single .operator⟩,
        ⟨"(", "(", .group, .ofList [.field, .group]⟩] := by
    have words : lexemes wordSchema "" = [] := by decide +kernel
    rw [completions, words]
    rfl
  have joined : lexemes wordSchema ("" ++ "and") = [⟨"and", 0, 3, .combinator⟩] := by
    decide +kernel
  have parted : lexemes wordSchema ("note " ++ "is not") =
      [⟨"note", 0, 4, .field⟩, ⟨"is", 5, 7, .invalid⟩, ⟨"not", 8, 11, .invalid⟩] := by
    decide +kernel
  have named : lexemes wordSchema ("note " ++ "Note") =
      [⟨"note", 0, 4, .field⟩, ⟨"Note", 5, 9, .field⟩] := by
    decide +kernel
  refine ⟨wordDocument_loaded, ⟨_, _, started, List.mem_cons_self, rfl, ?_⟩, completions_note, ?_⟩
  · exact not_typesAs_of_error (by rw [draft, joined]; rfl)
  · simp only [operatorEntries, List.forall_mem_cons, List.not_mem_nil, false_imp_iff, implies_true,
      and_true]
    refine ⟨fun other => absurd rfl other, fun _ => ?_, fun _ => ?_⟩
    · exact not_typesAs_of_error (by rw [draft, parted]; rfl)
    · exact not_typesAs_of_error (by rw [draft, named]; rfl)

end QueryText
end FilterQuery
