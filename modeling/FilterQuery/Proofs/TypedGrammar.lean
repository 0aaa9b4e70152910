import FilterQuery.Proofs.Legality
import FilterQuery.Proofs.Recognition

namespace FilterQuery

inductive TypedPhrase where
  | rule
  | item
  | items (combinator : Combinator)
  /-- Items of which the first is a rule. -/
  | ruleFirst (combinator : Combinator)
deriving DecidableEq, Repr

/-- The tokens of a typed phrase with the names of a schema. -/
inductive Spells (schema : Schema) : TypedPhrase → List Token → Prop
  | rule {name raw : String} {field : Field} {operator : Operator}
      (found : schema.field? name = some field)
      (declared : operator ∈ schema.operatorsFor field) :
      Spells schema .rule [.field name, .operator operator.name, .value raw]
  | ofRule {tokens : List Token} (rule : Spells schema .rule tokens) : Spells schema .item tokens
  | emptyGroup : Spells schema .item [.bracket .opening, .bracket .closing]
  | group {combinator : Combinator} {tokens : List Token}
      (inside : Spells schema (.ruleFirst combinator) tokens) :
      Spells schema .item (.bracket .opening :: (tokens ++ [.bracket .closing]))
  | single {combinator : Combinator} {tokens : List Token} (only : Spells schema .item tokens) :
      Spells schema (.items combinator) tokens
  | join {combinator : Combinator} {tokens last : List Token}
      (front : Spells schema (.items combinator) tokens) (item : Spells schema .item last) :
      Spells schema (.items combinator) (tokens ++ .combinator combinator :: last)
  | first {combinator : Combinator} {tokens : List Token} (rule : Spells schema .rule tokens) :
      Spells schema (.ruleFirst combinator) tokens
  | further {combinator : Combinator} {tokens last : List Token}
      (front : Spells schema (.ruleFirst combinator) tokens) (item : Spells schema .item last) :
      Spells schema (.ruleFirst combinator) (tokens ++ .combinator combinator :: last)

def IsTypedQuery (schema : Schema) (tokens : List Token) : Prop :=
  tokens = [] ∨ ∃ combinator, Spells schema (.items combinator) tokens

variable {schema : Schema} {standing : Standing} {token : Token} {tokens front back : List Token}

def TypedPhrase.phrase : TypedPhrase → Phrase
  | rule | item => .member
  | items combinator | ruleFirst combinator => .members combinator

def TypedPhrase.startsWithRule : TypedPhrase → Bool
  | rule | ruleFirst _ => true
  | item | items _ => false

def Phrase.typed : Phrase → TypedPhrase
  | member => .item
  | members combinator => .items combinator

def Phrase.typedByRule : Phrase → TypedPhrase
  | member => .rule
  | members combinator => .ruleFirst combinator

theorem mem_operatorsFor_iff {field : Field} {name : String} :
    (∃ operator ∈ schema.operatorsFor field, operator.name = name) ↔
      (schema.operator? name).isSome ∧ name ∈ field.operators := by
  rw [← LegalValues.any_operatorsFor, List.any_eq_true]
  simp only [beq_iff_eq]

namespace Standing

/-- Whether a token does not open a group directly inside another one. -/
def Unnested (standing : Standing) (token : Token) : Prop :=
  token = .bracket .opening → standing.previous ≠ some (.bracket .opening)

theorem along_and {next also : Standing → Token → Prop} :
    standing.Along (fun standing token => next standing token ∧ also standing token) tokens ↔
      standing.Along next tokens ∧ standing.Along also tokens := by
  induction tokens generalizing standing with
  | nil => simp
  | cons token rest ih =>
      simp only [along_cons, ih]
      constructor
      · rintro ⟨⟨first, second⟩, later, further⟩
        exact ⟨⟨first, later⟩, second, further⟩
      · rintro ⟨⟨first, later⟩, second, further⟩
        exact ⟨⟨first, second⟩, later, further⟩

theorem typable_iff : standing.Typable schema tokens ↔
    standing.Viable schema tokens ∧ standing.Along Unnested tokens :=
  along_and

end Standing

theorem Spells.derives {phrase : TypedPhrase} (spells : Spells schema phrase tokens) :
    Derives schema phrase.phrase tokens := by
  induction spells with
  | rule found declared =>
      obtain ⟨known, listed⟩ := mem_operatorsFor_iff.mp ⟨_, declared, rfl⟩
      exact .rule found known listed
  | ofRule rule ih => exact ih
  | emptyGroup => exact .emptyGroup
  | group inside ih => exact .group ih
  | single only ih => exact .single ih
  | join front item frontIH itemIH => exact .join frontIH itemIH
  | first rule ih => exact .single ih
  | further front item frontIH itemIH => exact .join frontIH itemIH

theorem Spells.unnested {phrase : TypedPhrase} (spells : Spells schema phrase tokens)
    (may : phrase.startsWithRule = true ∨ standing.previous ≠ some (.bracket .opening)) :
    standing.Along Standing.Unnested tokens := by
  have joined : ∀ (standing : Standing) (combinator : Combinator),
      (standing.see (.combinator combinator)).previous ≠ some (.bracket .opening) := by
    intro standing combinator
    rw [Standing.see_previous]
    exact nofun
  induction spells generalizing standing with
  | rule found declared => exact ⟨nofun, nofun, nofun, trivial⟩
  | ofRule rule ih => exact ih (.inl rfl)
  | emptyGroup => exact ⟨fun _ => may.resolve_left nofun, nofun, trivial⟩
  | group inside ih =>
      exact ⟨fun _ => may.resolve_left nofun,
        Standing.along_append.mpr ⟨ih (.inl rfl), nofun, trivial⟩⟩
  | single only ih => exact ih (.inr (may.resolve_left nofun))
  | join front item frontIH itemIH =>
      exact Standing.along_append.mpr
        ⟨frontIH (.inr (may.resolve_left nofun)), nofun, itemIH (.inr (joined _ _))⟩
  | first rule ih => exact ih (.inl rfl)
  | further front item frontIH itemIH =>
      exact Standing.along_append.mpr ⟨frontIH (.inl rfl), nofun, itemIH (.inr (joined _ _))⟩

theorem Derives.spells {phrase : Phrase} (derives : Derives schema phrase tokens)
    (unnested : standing.Along Standing.Unnested tokens) :
    Spells schema phrase.typed tokens ∧
      (tokens.head? ≠ some (.bracket .opening) → Spells schema phrase.typedByRule tokens) := by
  induction derives generalizing standing with
  | @rule fieldName operatorName raw field found known declared =>
      obtain ⟨operator, listed, rfl⟩ := mem_operatorsFor_iff.mpr ⟨known, declared⟩
      have rule : Spells schema .rule
          [.field fieldName, .operator operator.name, .value raw] := .rule found listed
      exact ⟨.ofRule rule, fun _ => rule⟩
  | emptyGroup => exact ⟨.emptyGroup, fun other => absurd rfl other⟩
  | @group combinator tokens inside ih =>
      obtain ⟨-, later⟩ := unnested
      have within := (Standing.along_append.mp later).1
      have notNested : tokens.head? ≠ some (.bracket .opening) := by
        intro nested
        cases tokens with
        | nil => cases nested
        | cons token rest =>
            cases nested
            exact within.1 rfl rfl
      exact ⟨.group ((ih within).2 notNested), fun other => absurd rfl other⟩
  | single only ih =>
      obtain ⟨item, rule⟩ := ih unnested
      exact ⟨.single item, fun other => .first (rule other)⟩
  | @join combinator tokens last front member frontIH memberIH =>
      obtain ⟨before, -, after⟩ := Standing.along_append.mp unnested
      obtain ⟨items, ruleFirst⟩ := frontIH before
      have item := (memberIH after).1
      refine ⟨.join items item, ?_⟩
      intro other
      refine .further (ruleFirst ?_) item
      intro opens
      rw [List.head?_append, opens] at other
      exact other rfl

theorem typable_finished_iff :
    Standing.start.Typable schema tokens ∧ (Standing.start.seeAll tokens).Finished ↔
      IsTypedQuery schema tokens := by
  rw [Standing.typable_iff, and_right_comm, viable_finished_iff]
  constructor
  · intro finished
    obtain ⟨rfl | ⟨combinator, derives⟩, unnested⟩ := finished
    · exact .inl rfl
    · exact .inr ⟨combinator, (derives.spells unnested).1⟩
  · intro typed
    rcases typed with rfl | ⟨combinator, spells⟩
    · exact ⟨.inl rfl, trivial⟩
    · exact ⟨.inr ⟨combinator, spells.derives⟩, spells.unnested (.inr nofun)⟩

/-- Whether every field has an operator. -/
def Schema.IsUsable (schema : Schema) : Prop :=
  ∀ field ∈ schema.fields, schema.operatorsFor field ≠ []

instance : Decidable schema.IsUsable :=
  inferInstanceAs (Decidable (∀ field ∈ schema.fields, schema.operatorsFor field ≠ []))

/-- Whether a token is what its text stands for as a token of its type.  All tokens are but values
without quotes. -/
def Token.IsNamed (token : Token) : Prop :=
  Token.ofName? token.type token.text = some token

/-- Behind a field of a usable schema an operator may be taken. -/
theorem Standing.Offers.admitsOperator (offers : standing.Offers schema token)
    (usable : schema.IsUsable) (isField : token.type = .field) :
    ∃ name, (standing.see token).Admits schema (.operator name) := by
  cases token with
  | operator | value | combinator | bracket => cases isField
  | field name =>
      obtain ⟨⟨-, known⟩, -⟩ := offers
      obtain ⟨field, found⟩ := Option.isSome_iff_exists.mp known
      have listed : field ∈ schema.fields := List.mem_of_find?_eq_some found
      obtain ⟨operator, declared⟩ := List.exists_mem_of_ne_nil _ (usable field listed)
      obtain ⟨named, applies⟩ := mem_operatorsFor_iff.mp ⟨operator, declared, rfl⟩
      exact ⟨operator.name, name, field, rfl, found, named, applies⟩

/-- Behind an operator a value ends the member. -/
theorem Standing.ends_value {name : String} (last : standing.previous = some (.operator name)) :
    standing.Typable schema [.value emptyValue] ∧
      endsMember (standing.seeAll [.value emptyValue]).previous = true :=
  ⟨⟨⟨⟨name, last⟩, nofun⟩, trivial⟩, rfl⟩

/-- Behind every token the member in which it stands can be ended, unless it is a field behind which
there is no operator. -/
theorem Standing.Offers.ends (offers : standing.Offers schema token)
    (goesOn : token.type = .field → ∃ name, (standing.see token).Admits schema (.operator name)) :
    ∃ rest, (∀ later ∈ rest, later.IsNamed) ∧ (standing.see token).Typable schema rest ∧
      endsMember ((standing.see token).seeAll rest).previous = true := by
  have valueNamed : Token.IsNamed (.value emptyValue) := by
    unfold Token.IsNamed
    decide
  cases token with
  | field name =>
      obtain ⟨operator, admits⟩ := goesOn rfl
      obtain ⟨typable, ends⟩ := @ends_value schema
        ((standing.see (.field name)).see (.operator operator)) operator rfl
      refine ⟨[.operator operator, .value emptyValue], ?_, ⟨⟨admits, nofun⟩, typable⟩, ends⟩
      exact List.forall_mem_cons.mpr ⟨rfl, List.forall_mem_singleton.mpr valueNamed⟩
  | operator name =>
      exact ⟨[.value emptyValue], List.forall_mem_singleton.mpr valueNamed, ends_value rfl⟩
  | value raw => exact ⟨[], nofun, trivial, rfl⟩
  | combinator found =>
      have opens : (standing.see (.combinator found)).Offers schema (.bracket .opening) :=
        ⟨rfl, fun _ => nofun⟩
      refine ⟨[.bracket .opening, .bracket .closing], ?_,
        ⟨opens, ⟨⟨.inl rfl, ?_⟩, nofun⟩, trivial⟩, rfl⟩
      · exact List.forall_mem_cons.mpr ⟨rfl, List.forall_mem_singleton.mpr rfl⟩
      · exact List.cons_ne_nil _ _
  | bracket half =>
      cases half with
      | opening =>
          refine ⟨[.bracket .closing], List.forall_mem_singleton.mpr rfl,
            ⟨⟨⟨.inl rfl, ?_⟩, nofun⟩, trivial⟩, rfl⟩
          exact List.cons_ne_nil _ _
      | closing =>
          refine ⟨[], nofun, trivial, ?_⟩
          rw [seeAll_nil, see_previous]
          rfl

theorem Standing.closes (ends : endsMember standing.previous = true) :
    ∃ rest, (∀ later ∈ rest, later.IsNamed) ∧ standing.Typable schema rest ∧
      (standing.seeAll rest).Finished := by
  induction around : standing.outer generalizing standing with
  | nil => exact ⟨[], nofun, trivial, .inr ends, around⟩
  | cons combinator outer ih =>
      have closed := see_closing around
      obtain ⟨rest, named, typable, finished⟩ :=
        ih (congrArg (endsMember ∘ Standing.previous) closed) (congrArg Standing.outer closed)
      refine ⟨.bracket .closing :: rest, List.forall_mem_cons.mpr ⟨rfl, named⟩,
        ⟨⟨⟨.inr ends, ?_⟩, nofun⟩, typable⟩, finished⟩
      rw [around]
      exact List.cons_ne_nil _ _

/-- Behind every token the query can be finished, unless it is a field behind which there is no
operator. -/
theorem Standing.Offers.finishes (offers : standing.Offers schema token)
    (goesOn : token.type = .field → ∃ name, (standing.see token).Admits schema (.operator name)) :
    ∃ rest, (∀ later ∈ rest, later.IsNamed) ∧ (standing.see token).Typable schema rest ∧
      ((standing.see token).seeAll rest).Finished := by
  obtain ⟨ending, endingNamed, ended, ends⟩ := offers.ends goesOn
  obtain ⟨brackets, bracketsNamed, closed, finished⟩ := Standing.closes ends
  refine ⟨ending ++ brackets, List.forall_mem_append.mpr ⟨endingNamed, bracketsNamed⟩,
    Standing.along_append.mpr ⟨ended, closed⟩, ?_⟩
  rwa [Standing.seeAll_append]

/-- Tokens that may be taken one after the other are those that some typed query starts with. -/
theorem typable_iff_startsTypedQuery (usable : schema.IsUsable) :
    Standing.start.Typable schema tokens ↔ ∃ rest, IsTypedQuery schema (tokens ++ rest) := by
  constructor
  · intro typable
    rcases List.eq_nil_or_concat tokens with rfl | ⟨front, token, rfl⟩
    · exact ⟨[], .inl rfl⟩
    · rw [List.concat_eq_append] at typable ⊢
      obtain ⟨-, offers, -⟩ := Standing.along_append.mp typable
      obtain ⟨rest, -, typed, finished⟩ := offers.finishes (offers.admitsOperator usable)
      refine ⟨rest, typable_finished_iff.mp ⟨Standing.along_append.mpr ⟨typable, ?_⟩, ?_⟩⟩
      · rwa [Standing.seeAll_append]
      · rwa [Standing.seeAll_append, Standing.seeAll_append]
  · intro starts
    obtain ⟨rest, query⟩ := starts
    exact (Standing.along_append.mp (typable_finished_iff.mpr query).1).1

end FilterQuery
