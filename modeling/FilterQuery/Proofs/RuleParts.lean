import FilterQuery.Proofs.Members
import FilterQuery.RuleGroup.Builder

namespace FilterQuery

variable {tokens seen rest inner : List Token} {token added : Token} {place : Nat}
  {name operator : String} {scope : Nat → Token → Prop}

/-- Whether a token stands at a place in the bracket scope that is innermost behind some tokens. -/
def InScope (seen : List Token) (place : Nat) (token : Token) : Prop :=
  ∃ front back, seen = front ++ token :: back ∧ front.length = place ∧ token.weight = 0 ∧
    IsLevel back

theorem InScope.lt (inScope : InScope seen place token) : place < seen.length := by
  obtain ⟨front, back, rfl, rfl, -⟩ := inScope
  simp

theorem InScope.append (inScope : InScope seen place token) (level : IsLevel rest) :
    InScope (seen ++ rest) place token := by
  obtain ⟨front, back, rfl, rfl, weightless, levelBack⟩ := inScope
  exact ⟨front, back ++ rest, List.append_assoc _ _ _, rfl, weightless, levelBack.append level⟩

/-- Between two places of one scope every bracket has its partner. -/
theorem InScope.isLevel_between {other : Token} (inScope : InScope seen place token)
    (later : InScope (seen ++ rest) place other) : IsLevel rest := by
  obtain ⟨front, back, rfl, rfl, -, level⟩ := inScope
  obtain ⟨otherFront, whole, split, length, -, levelWhole⟩ := later
  rw [List.append_assoc] at split
  obtain ⟨-, same⟩ := List.append_inj split length.symm
  obtain ⟨-, rfl⟩ := List.cons.inj same
  exact (isLevel_append_iff level).mp levelWhole

theorem inScope_concat (flat : added.weight = 0) : InScope (seen ++ [added]) place token ↔
    InScope seen place token ∨ place = seen.length ∧ token = added := by
  constructor
  · rintro ⟨front, back, split, rfl, weightless, level⟩
    rcases split_append_cons split with ⟨read, rfl, rfl⟩ | ⟨rfl, rfl, rfl⟩ | ⟨read, rfl, none⟩
    · rw [append_isLevel_iff (.cons flat .nil)] at level
      exact .inl ⟨front, read, rfl, rfl, weightless, level⟩
    · exact .inr ⟨rfl, rfl⟩
    · cases read <;> cases none
  · rintro (⟨front, back, rfl, rfl, weightless, level⟩ | ⟨rfl, rfl⟩)
    · exact ⟨front, back ++ [added], by simp, rfl, weightless, level.append (.cons flat .nil)⟩
    · exact ⟨seen, [], rfl, rfl, flat, .nil⟩

theorem not_inScope_opened : ¬ InScope (seen ++ [.bracket .opening]) place token := by
  rintro ⟨front, back, split, -, weightless, level⟩
  rcases split_append_cons split with ⟨read, rfl, rfl⟩ | ⟨rfl, rfl, rfl⟩ | ⟨read, rfl, none⟩
  · exact not_isLevel_opened level
  · cases weightless
  · cases read <;> cases none

theorem inScope_group (inside : IsLevel inner) :
    InScope (seen ++ .bracket .opening :: (inner ++ [.bracket .closing])) place token ↔
      InScope seen place token := by
  have whole : IsLevel (.bracket .opening :: (inner ++ [.bracket .closing])) :=
    .group inside .nil
  constructor
  · rintro ⟨front, back, split, rfl, weightless, level⟩
    rcases split_append_cons split with ⟨read, rfl, rfl⟩ | ⟨rfl, rfl, rfl⟩ | ⟨read, rfl, later⟩
    · exact ⟨front, read, rfl, rfl, weightless, (append_isLevel_iff whole).mp level⟩
    · cases weightless
    · rcases split_append_cons later with ⟨more, rfl, rfl⟩ | ⟨rfl, rfl, rfl⟩ | ⟨more, rfl, none⟩
      · rw [← List.singleton_append, ← List.append_assoc] at inside
        exact absurd level (not_isLevel_closed inside)
      · cases weightless
      · cases more <;> cases none
  · rintro ⟨front, back, rfl, rfl, weightless, level⟩
    exact ⟨front, _, List.append_assoc _ _ _, rfl, weightless, level.append whole⟩

/-- Whether a field is the latest of its scope and no combinator of the scope stands behind it. -/
def IsLatestField (scope : Nat → Token → Prop) (place : Nat) (name : String) : Prop :=
  scope place (.field name) ∧ ∀ later token, scope later token → place < later →
    token.type ≠ .field ∧ token.type ≠ .combinator

def IsLatestOperator (scope : Nat → Token → Prop) (place : Nat) (name : String) : Prop :=
  scope place (.operator name) ∧ ∀ later token, scope later token → place < later →
    token.type ≠ .operator

/-- Whether a rule was completed from the field at a place: an operator of the scope stands behind
it, and a value behind that. -/
def IsUsed (scope : Nat → Token → Prop) (place : Nat) : Prop :=
  ∃ between name later raw, scope between (.operator name) ∧ scope later (.value raw) ∧
    place < between ∧ between < later

theorem IsLatestField.unique {other : Nat} {otherName : String}
    (latest : IsLatestField scope place name) (latestOther : IsLatestField scope other otherName) :
    place = other := by
  rcases Nat.lt_trichotomy place other with before | same | behind
  · exact absurd rfl (latest.2 other _ latestOther.1 before).1
  · exact same
  · exact absurd rfl (latestOther.2 place _ latest.1 behind).1

theorem IsLatestOperator.unique {other : Nat} {otherName : String}
    (latest : IsLatestOperator scope place name)
    (latestOther : IsLatestOperator scope other otherName) : place = other := by
  rcases Nat.lt_trichotomy place other with before | same | behind
  · exact absurd rfl (latest.2 other _ latestOther.1 before)
  · exact same
  · exact absurd rfl (latestOther.2 place _ latest.1 behind)

/-- What a partial rule tells about its scope.  It holds the latest field unless that is used up,
and the latest operator behind the field. -/
inductive Knows (scope : Nat → Token → Prop) : PartialRule → Prop
  | nothing {operator value : Option String}
      (used : ∀ place name, IsLatestField scope place name → IsUsed scope place) :
      Knows scope ⟨none, operator, value⟩
  | field {place : Nat} {name : String} {value : Option String}
      (latest : IsLatestField scope place name)
      (alone : ∀ between operator, scope between (.operator operator) → ¬ place < between) :
      Knows scope ⟨some name, none, value⟩
  | operator {place between : Nat} {name operator : String} {value : Option String}
      (latest : IsLatestField scope place name) (unused : ¬ IsUsed scope place)
      (asked : IsLatestOperator scope between operator) (behind : place < between) :
      Knows scope ⟨some name, some operator, value⟩

theorem knows_blank (empty : ∀ place token, ¬ scope place token) : Knows scope .blank :=
  .nothing fun place _ latest => absurd latest.1 (empty place _)

/-- Whether a scope is another one with a token behind all others. -/
structure Grows (scope grown : Nat → Token → Prop) (next : Nat) (added : Token) : Prop where
  holds : ∀ place token, grown place token ↔ scope place token ∨ place = next ∧ token = added
  before : ∀ place token, scope place token → place < next

theorem inScope_grows (flat : added.weight = 0) :
    Grows (InScope seen) (InScope (seen ++ [added])) seen.length added :=
  ⟨fun _ _ => inScope_concat flat, fun _ _ => InScope.lt⟩

namespace Grows

variable {grown : Nat → Token → Prop} {next : Nat} {pending : PartialRule}

theorem keeps (grows : Grows scope grown next added) (held : scope place token) :
    grown place token :=
  (grows.holds place token).mpr (.inl held)

theorem adds (grows : Grows scope grown next added) : grown next added :=
  (grows.holds next added).mpr (.inr ⟨rfl, rfl⟩)

theorem not_behind (grows : Grows scope grown next added) (held : grown place token) :
    ¬ next < place := by
  rcases (grows.holds place token).mp held with earlier | ⟨rfl, -⟩
  · exact Nat.lt_asymm (grows.before place token earlier)
  · exact Nat.lt_irrefl place

theorem isLatestField_iff (grows : Grows scope grown next added)
    (neither : added.type ≠ .field ∧ added.type ≠ .combinator) :
    IsLatestField grown place name ↔ IsLatestField scope place name := by
  grind [IsLatestField, Grows, Token.type]

theorem isUsed_iff (grows : Grows scope grown next added) (notValue : added.type ≠ .value) :
    IsUsed grown place ↔ IsUsed scope place := by
  grind [IsUsed, Grows, Token.type]

theorem knows_field (grows : Grows scope grown next (.field name)) :
    Knows grown ⟨some name, none, none⟩ := by
  refine .field ⟨grows.adds, fun later token held behind => ?_⟩
    fun between operator held => grows.not_behind held
  exact absurd behind (grows.not_behind held)

theorem knows_combinator {combinator : Combinator}
    (grows : Grows scope grown next (.combinator combinator)) : Knows grown .blank := by
  refine .nothing fun place name latest => ?_
  obtain ⟨held, since⟩ := latest
  rcases (grows.holds place _).mp held with earlier | ⟨-, same⟩
  · exact absurd rfl (since next _ grows.adds (grows.before place _ earlier)).2
  · cases same

theorem knows_operator (grows : Grows scope grown next (.operator operator))
    (knows : Knows scope pending) : Knows grown { pending with operator := some operator } := by
  have sameField : ∀ {place name},
      IsLatestField grown place name ↔ IsLatestField scope place name :=
    grows.isLatestField_iff ⟨nofun, nofun⟩
  have sameUse : ∀ {place}, IsUsed grown place ↔ IsUsed scope place :=
    grows.isUsed_iff nofun
  have asked : IsLatestOperator grown next operator :=
    ⟨grows.adds, fun later token held behind => absurd behind (grows.not_behind held)⟩
  cases knows with
  | nothing used =>
      refine .nothing fun place name latest => ?_
      exact sameUse.mpr (used place name (sameField.mp latest))
  | @field place name _ latest alone =>
      have unused : ¬ IsUsed scope place := by
        rintro ⟨between, earlier, _, _, held, -, behind, -⟩
        exact alone between earlier held behind
      exact .operator (sameField.mpr latest) (mt sameUse.mp unused) asked
        (grows.before place _ latest.1)
  | @operator place between name earlier _ latest unused _ behind =>
      exact .operator (sameField.mpr latest) (mt sameUse.mp unused) asked
        (grows.before place _ latest.1)

/-- A value that completes a rule uses up its field, and otherwise it changes nothing. -/
theorem knows_value {raw : String} (grows : Grows scope grown next (.value raw))
    (knows : Knows scope pending) (value : String) :
    Knows grown
      (if ({ pending with value := some value } : PartialRule).complete?.isSome then .blank
      else { pending with value := some value }) := by
  have sameField : ∀ {place name},
      IsLatestField grown place name ↔ IsLatestField scope place name :=
    grows.isLatestField_iff ⟨nofun, nofun⟩
  cases knows with
  | nothing used =>
      refine .nothing fun place name latest => ?_
      obtain ⟨between, earlier, later, old, asked, given, order⟩ :=
        used place name (sameField.mp latest)
      exact ⟨between, earlier, later, old, grows.keeps asked, grows.keeps given, order⟩
  | @field place name _ latest alone =>
      refine .field (sameField.mpr latest) fun between earlier held => ?_
      rcases (grows.holds between _).mp held with before | ⟨-, same⟩
      · exact alone between earlier before
      · cases same
  | @operator place between name earlier _ latest unused asked behind =>
      refine .nothing fun other otherName latestOther => ?_
      obtain rfl := latest.unique (sameField.mp latestOther)
      exact ⟨between, earlier, next, raw, grows.keeps asked.1, grows.adds, behind,
        grows.before between _ asked.1⟩

end Grows
end FilterQuery
