import FilterQuery.Proofs.DeclaredRules
import FilterQuery.Proofs.Edits
import FilterQuery.Proofs.Pairing
import FilterQuery.Proofs.RuleParts
import Mathlib.Data.List.Forall2

namespace FilterQuery

/-! Where the rules of a group come from.

Tokens in any order form a group.  Each of its rules comes from a field, an operator and a value of
one bracket scope, and no field gives more than one rule.  What is left over from an unfinished rule
is never part of another one.
-/

variable {tokens seen rest : List Token} {token : Token}

/-- The places of a field, an operator and a value. -/
structure Origin where
  field : Nat
  operator : Nat
  value : Nat
deriving DecidableEq, Repr

/-- The scope of a place, up to the place. -/
def scopeBefore (tokens : List Token) (place : Nat) : Nat → Token → Prop :=
  InScope (tokens.take place)

/-- Whether the tokens at three places form a rule.  The value may stand behind any tokens that
close only what is open.  In its scope up to there, the field is the latest one with no combinator
behind it and no rule completed from it, and the operator is the latest one and stands behind the
field. -/
structure Origin.Forms (tokens : List Token) (origin : Origin) (rule : Rule) : Prop where
  closes : ClosesOnlyOpen (tokens.take origin.value)
  value : ∃ raw, tokens[origin.value]? = some (.value raw) ∧ rule.value = Text.unquote raw
  field : ∃ name, IsLatestField (scopeBefore tokens origin.value) origin.field name ∧
    rule.field = Text.lower name
  unused : ¬ IsUsed (scopeBefore tokens origin.value) origin.field
  operator : IsLatestOperator (scopeBefore tokens origin.value) origin.operator rule.operator
  behind : origin.field < origin.operator

namespace Origin

variable {origin other : Origin} {rule otherRule : Rule}

theorem Forms.eq_of_value (forms : origin.Forms tokens rule)
    (formsOther : other.Forms tokens otherRule)
    (same : origin.value = other.value) : origin = other := by
  obtain ⟨fieldPlace, operatorPlace, value⟩ := origin
  obtain ⟨otherField, otherOperator, otherValue⟩ := other
  cases same
  obtain ⟨_, latest, -⟩ := forms.field
  obtain ⟨_, latestOther, -⟩ := formsOther.field
  cases latest.unique latestOther
  cases forms.operator.unique formsOther.operator
  rfl

/-- A field from which a rule was completed gives no other rule. -/
theorem Forms.field_ne (forms : origin.Forms tokens rule)
    (formsOther : other.Forms tokens otherRule)
    (before : origin.value < other.value) : origin.field ≠ other.field := by
  intro same
  obtain ⟨raw, held, -⟩ := forms.value
  obtain ⟨front, back, rfl, length⟩ := split_of_getElem? held
  obtain ⟨more, reached⟩ := Nat.exists_eq_add_of_lt before
  have early : (front ++ .value raw :: back).take origin.value = front := by
    rw [length, List.take_left]
  have late : (front ++ .value raw :: back).take other.value =
      front ++ .value raw :: back.take more := by
    rw [reached, length, Nat.add_assoc, List.take_length_add_append, List.take_succ_cons]
  obtain ⟨_, latest, -⟩ := forms.field
  obtain ⟨_, latestOther, -⟩ := formsOther.field
  have operator := forms.operator.1
  have unused := formsOther.unused
  rw [scopeBefore, early] at latest operator
  rw [scopeBefore, late] at latestOther unused
  rw [same] at latest
  have level := latest.1.isLevel_between latestOther.1
  have flat : IsLevel [Token.value raw] := .cons rfl .nil
  have levelBehind := (isLevel_append_iff flat).mp level
  refine unused ⟨origin.operator, _, origin.value, raw, operator.append level, ?_, ?_, ?_⟩
  · exact ⟨front, _, rfl, length.symm, rfl, levelBehind⟩
  · exact same ▸ forms.behind
  · exact Nat.lt_of_lt_of_eq operator.lt length.symm

end Origin

/-- Whether rules are those that are formed by the values from some place on, in order. -/
structure Accounts (tokens : List Token) (start : Nat) (origins : List Origin)
    (rules : List Rule) : Prop where
  forms : List.Forall₂ (Origin.Forms tokens) origins rules
  ordered : origins.Pairwise fun origin later => origin.value < later.value
  behind : ∀ origin ∈ origins, start ≤ origin.value
  complete : ∀ origin rule, origin.Forms tokens rule → start ≤ origin.value → origin ∈ origins

namespace Accounts

variable {start : Nat} {origins : List Origin} {rules : List Rule} {origin : Origin} {rule : Rule}

theorem fields_nodup (accounts : Accounts tokens start origins rules) :
    (origins.map Origin.field).Nodup := by
  have formed : ∀ origin ∈ origins, ∃ rule, origin.Forms tokens rule := by
    have each : List.Forall₂ (fun origin rule =>
        (∃ rule, origin.Forms tokens rule) ∧ origin.Forms tokens rule) origins rules :=
      accounts.forms.imp fun _ rule forms => ⟨⟨rule, forms⟩, forms⟩
    exact ((List.forall₂_and_left origins rules).mp each).1
  refine List.pairwise_map.mpr (accounts.ordered.imp_of_mem fun listed listedLater before => ?_)
  obtain ⟨rule, forms⟩ := formed _ listed
  obtain ⟨laterRule, formsLater⟩ := formed _ listedLater
  exact forms.field_ne formsLater before

theorem stop (none : ∀ (origin : Origin) rule, origin.Forms tokens rule → origin.value < start) :
    Accounts tokens start [] [] :=
  ⟨.nil, .nil, nofun, fun origin rule forms from_ =>
    absurd (none origin rule forms) (Nat.not_lt.mpr from_)⟩

theorem skip (accounts : Accounts tokens (start + 1) origins rules)
    (none : ∀ (origin : Origin) rule, origin.Forms tokens rule → origin.value ≠ start) :
    Accounts tokens start origins rules := by
  refine ⟨accounts.forms, accounts.ordered, ?_, ?_⟩
  · intro origin listed
    exact Nat.le_of_succ_le (accounts.behind origin listed)
  · intro origin rule forms reached
    exact accounts.complete origin rule forms
      (Nat.lt_of_le_of_ne reached (none origin rule forms).symm)

theorem take (accounts : Accounts tokens (start + 1) origins rules)
    (forms : origin.Forms tokens rule) (here : origin.value = start) :
    Accounts tokens start (origin :: origins) (rule :: rules) := by
  refine ⟨.cons forms accounts.forms, ?_, ?_, ?_⟩
  · refine List.pairwise_cons.mpr ⟨fun later listed => ?_, accounts.ordered⟩
    rw [here]
    exact accounts.behind later listed
  · refine List.forall_mem_cons.mpr ⟨Nat.le_of_eq here.symm, fun later listed => ?_⟩
    exact Nat.le_of_succ_le (accounts.behind later listed)
  · intro other otherRule formsOther reached
    rcases Nat.eq_or_lt_of_le reached with same | beyond
    · exact List.mem_cons.mpr (.inl (formsOther.eq_of_value forms (same.symm.trans here.symm)))
    · exact List.mem_cons_of_mem _ (accounts.complete other otherRule formsOther beyond)

end Accounts

/-- Where a rule group is being read: what is known in each open scope, the innermost first. -/
inductive Stands : List Token → PartialRule → List PartialRule → Prop
  | outermost {seen : List Token} {pending : PartialRule} (level : IsLevel seen)
      (knows : Knows (InScope seen) pending) : Stands seen pending []
  | inside {seen inner : List Token} {pending parent : PartialRule} {outer : List PartialRule}
      (around : Stands seen parent outer) (level : IsLevel inner)
      (knows : Knows (InScope (seen ++ .bracket .opening :: inner)) pending) :
      Stands (seen ++ .bracket .opening :: inner) pending (parent :: outer)

namespace Stands

variable {pending parent changed : PartialRule} {outer : List PartialRule}

theorem knows (stands : Stands seen pending outer) : Knows (InScope seen) pending := by
  cases stands with
  | outermost level knows => exact knows
  | inside around level knows => exact knows

theorem closes (stands : Stands seen pending outer) : ClosesOnlyOpen seen := by
  induction stands with
  | outermost level knows => exact level.closes_behind closesOnlyOpen_nil
  | @inside seen inner _ _ _ around level knows ih =>
      have behind := level.closes_behind ih.opened
      rwa [List.append_assoc] at behind

theorem append (stands : Stands seen pending outer) (level : IsLevel rest)
    (knows : Knows (InScope (seen ++ rest)) changed) : Stands (seen ++ rest) changed outer := by
  cases stands with
  | outermost levelSeen _ => exact .outermost (levelSeen.append level) knows
  | @inside front inner _ parent outer around levelInner _ =>
      rw [List.append_assoc] at knows ⊢
      exact .inside around (levelInner.append level) knows

theorem not_closes (stands : Stands seen pending []) :
    ¬ ClosesOnlyOpen (seen ++ .bracket .closing :: rest) := by
  cases stands with
  | outermost level knows => exact level.not_closesOnlyOpen

theorem opened (stands : Stands seen pending outer) :
    Stands (seen ++ [.bracket .opening]) .blank (pending :: outer) :=
  .inside stands .nil (knows_blank fun _ _ => not_inScope_opened)

theorem closed (stands : Stands seen pending (parent :: outer)) :
    Stands (seen ++ [.bracket .closing]) parent outer := by
  cases stands with
  | @inside front inner _ _ _ around level _ =>
      have same : InScope (front ++ .bracket .opening :: (inner ++ [.bracket .closing])) =
          InScope front := by
        funext place token
        exact propext (inScope_group level)
      rw [List.append_assoc]
      exact around.append (.group level .nil) (same ▸ around.knows)

end Stands

namespace OpenGroup

variable {current : OpenGroup} {outer : List PartialRule} {rule : Rule}

def leaves (group : OpenGroup) : List Rule :=
  group.finish.leaves

def completes (group : OpenGroup) : Token → Option Rule
  | .value raw => { group.pending with value := some (Text.unquote raw) : PartialRule }.complete?
  | _ => none

theorem leaves_see (current : OpenGroup) (token : Token) :
    (current.see token).leaves = current.leaves ++ (current.completes token).toList := by
  cases token with
  | field | operator | combinator | bracket => exact (List.append_nil _).symm
  | value raw =>
      simp only [see, addValue, completes]
      split
      next rule completed =>
        simp [completed, leaves, finish, RuleGroup.leaves, RuleNode.leavesOfAll, RuleNode.leaves]
      next incomplete => simp [incomplete, leaves, finish]

theorem leaves_addGroup (current : OpenGroup) (inner : RuleGroup) :
    (current.addGroup inner).leaves = current.leaves ++ inner.leaves := by
  obtain ⟨combinator, members⟩ := inner
  rw [addGroup_eq]
  simp [leaves, finish, RuleGroup.leaves, leavesOfAll_groupOf]

theorem pending_addGroup (current : OpenGroup) (inner : RuleGroup) :
    (current.addGroup inner).pending = current.pending := by
  unfold addGroup
  split <;> rfl

theorem knows_see (flat : token.weight = 0) (knows : Knows (InScope seen) current.pending) :
    Knows (InScope (seen ++ [token])) (current.see token).pending := by
  cases token with
  | field name => exact (inScope_grows flat).knows_field
  | operator name => exact (inScope_grows flat).knows_operator knows
  | combinator combinator => exact (inScope_grows flat).knows_combinator
  | value raw =>
      have after := (inScope_grows flat).knows_value knows (Text.unquote raw)
      simp only [see, addValue]
      split
      next rule completed => simpa [completed] using after
      next incomplete => simpa [incomplete] using after
  | bracket half => cases half <;> cases flat

end OpenGroup

namespace Origin

variable {origin : Origin} {rule : Rule} {current : OpenGroup}

theorem Forms.is_value (forms : origin.Forms (seen ++ token :: rest) rule)
    (here : origin.value = seen.length) : ∃ raw, token = .value raw := by
  obtain ⟨raw, held, -⟩ := forms.value
  rw [here] at held
  simp at held
  exact ⟨raw, held⟩

theorem forms_of_completes (closes : ClosesOnlyOpen seen)
    (knows : Knows (InScope seen) current.pending)
    (completed : current.completes token = some rule) :
    ∃ origin : Origin, origin.value = seen.length ∧ origin.Forms (seen ++ token :: rest) rule := by
  obtain ⟨combinator, members, pending⟩ := current
  cases token with
  | field | operator | combinator | bracket => cases completed
  | value raw =>
      have scope : scopeBefore (seen ++ .value raw :: rest) seen.length = InScope seen := by
        rw [scopeBefore, List.take_left]
      cases knows with
      | nothing used => cases completed
      | field latest alone => cases completed
      | @operator place between name operator _ latest unused asked behind =>
          cases completed
          refine ⟨⟨place, between, seen.length⟩, rfl, ?_, ⟨raw, ?_, rfl⟩, ⟨name, ?_, rfl⟩, ?_, ?_,
            behind⟩
          · rwa [List.take_left]
          · simp
          · rwa [scope]
          · rwa [scope]
          · rwa [scope]

theorem not_forms_of_incomplete (knows : Knows (InScope seen) current.pending)
    (incomplete : current.completes token = none) (origin : Origin) (rule : Rule)
    (forms : origin.Forms (seen ++ token :: rest) rule) : origin.value ≠ seen.length := by
  intro here
  obtain ⟨raw, rfl⟩ := forms.is_value here
  have scope : scopeBefore (seen ++ .value raw :: rest) origin.value = InScope seen := by
    rw [scopeBefore, here, List.take_left]
  obtain ⟨_, latest, -⟩ := forms.field
  have asked := forms.operator
  have unused := forms.unused
  rw [scope] at latest asked unused
  obtain ⟨combinator, members, pending⟩ := current
  cases knows with
  | nothing used => exact unused (used _ _ latest)
  | field known alone =>
      cases known.unique latest
      exact alone _ _ asked.1 forms.behind
  | operator => cases incomplete

end Origin

theorem Stands.see {current : OpenGroup} {outer : List PartialRule}
    (stands : Stands seen current.pending outer) (flat : token.weight = 0) :
    Stands (seen ++ [token]) (current.see token).pending outer :=
  stands.append (.cons flat .nil) (OpenGroup.knows_see flat stands.knows)

namespace Accounts

variable {current : OpenGroup} {outer : List PartialRule} {pending : PartialRule}
  {origins : List Origin} {rules : List Rule}

theorem atEnd : Accounts (seen ++ []) seen.length [] [] := by
  refine .stop fun origin rule forms => ?_
  obtain ⟨raw, held, -⟩ := forms.value
  obtain ⟨within, -⟩ := List.getElem?_eq_some_iff.mp held
  rwa [List.append_nil] at within

theorem unpaired (stands : Stands seen pending []) :
    Accounts (seen ++ .bracket .closing :: rest) seen.length [] [] := by
  refine .stop fun origin rule forms => ?_
  rcases Nat.lt_trichotomy origin.value seen.length with before | here | behind
  · exact before
  · obtain ⟨raw, same⟩ := forms.is_value here
    cases same
  · obtain ⟨more, place⟩ := Nat.exists_eq_add_of_lt behind
    have closes := forms.closes
    rw [place, Nat.add_assoc, List.take_length_add_append, List.take_succ_cons] at closes
    exact absurd closes stands.not_closes

theorem behind_token (accounts : Accounts (seen ++ [token] ++ rest) (seen ++ [token]).length
    origins rules) : Accounts (seen ++ token :: rest) (seen.length + 1) origins rules := by
  rwa [List.append_assoc, List.length_append] at accounts

theorem bracket {half : Bracket} (accounts : Accounts (seen ++ [.bracket half] ++ rest)
    (seen ++ [Token.bracket half]).length origins rules) :
    Accounts (seen ++ .bracket half :: rest) seen.length origins rules := by
  refine accounts.behind_token.skip fun origin rule forms here => ?_
  obtain ⟨raw, same⟩ := forms.is_value here
  cases same

/-- One more token gives an origin exactly if it completes a rule. -/
theorem see (accounts : Accounts (seen ++ [token] ++ rest) (seen ++ [token]).length origins rules)
    (stands : Stands seen current.pending outer) : ∃ origins,
      Accounts (seen ++ token :: rest) seen.length origins
        ((current.completes token).toList ++ rules) := by
  cases completed : current.completes token with
  | none =>
      exact ⟨origins, accounts.behind_token.skip
        (Origin.not_forms_of_incomplete stands.knows completed)⟩
  | some rule =>
      obtain ⟨origin, here, forms⟩ :=
        Origin.forms_of_completes stands.closes stands.knows completed
      exact ⟨origin :: origins, accounts.behind_token.take forms here⟩

end Accounts

namespace RuleGroup

def leavesOfOpen : List OpenGroup → List Rule
  | [] => []
  | group :: outer => leavesOfOpen outer ++ group.leaves

theorem leavesOfOpen_blank (outer : List OpenGroup) :
    leavesOfOpen (.blank :: outer) = leavesOfOpen outer :=
  List.append_nil _

theorem leavesOfOpen_addGroup (current parent : OpenGroup) (outer : List OpenGroup) :
    leavesOfOpen (parent.addGroup current.finish :: outer) =
      leavesOfOpen (current :: parent :: outer) := by
  rw [leavesOfOpen, leavesOfOpen, leavesOfOpen, OpenGroup.leaves_addGroup, List.append_assoc]
  rfl

theorem leaves_closeAll (current : OpenGroup) (outer : List OpenGroup) :
    (closeAll current outer).leaves = leavesOfOpen (current :: outer) := by
  induction outer generalizing current with
  | nil => rfl
  | cons parent outer ih => rw [closeAll, ih, leavesOfOpen_addGroup]

/-- What is read from the rest of some tokens accounts for the values in it. -/
theorem build_accounts (rest : List Token) {current : OpenGroup} {outer : List OpenGroup}
    (stands : Stands seen current.pending (outer.map OpenGroup.pending)) :
    ∃ origins rules,
      (build current outer rest).1.leaves = leavesOfOpen (current :: outer) ++ rules ∧
      Accounts (seen ++ rest) seen.length origins rules := by
  induction rest generalizing seen current outer with
  | nil => exact ⟨[], [], (leaves_closeAll current outer).trans (List.append_nil _).symm, .atEnd⟩
  | cons token rest ih =>
      by_cases flat : token.weight = 0
      · obtain ⟨origins, rules, leaves, accounts⟩ := ih (stands.see flat)
        obtain ⟨origins, accounts⟩ := accounts.see stands
        refine ⟨origins, _, ?_, accounts⟩
        rw [build_flat flat, leaves, leavesOfOpen, OpenGroup.leaves_see, leavesOfOpen]
        simp only [List.append_assoc]
      cases token with
      | field | operator | value | combinator => exact absurd rfl flat
      | bracket half =>
          cases half with
          | opening =>
              obtain ⟨origins, rules, leaves, accounts⟩ :=
                @ih _ .blank (current :: outer) stands.opened
              rw [leavesOfOpen_blank] at leaves
              exact ⟨origins, rules, leaves, accounts.bracket⟩
          | closing =>
              cases outer with
              | nil => exact ⟨[], [], (List.append_nil _).symm, .unpaired stands⟩
              | cons parent outer =>
                  have closed : Stands (seen ++ [.bracket .closing])
                      (parent.addGroup current.finish).pending (outer.map OpenGroup.pending) := by
                    rw [OpenGroup.pending_addGroup]
                    exact stands.closed
                  obtain ⟨origins, rules, leaves, accounts⟩ := ih closed
                  rw [leavesOfOpen_addGroup] at leaves
                  exact ⟨origins, rules, leaves, accounts.bracket⟩

/-- Any tokens form a group in which no group is without members, and its rules are exactly those
that a field, an operator and a value of one scope form, in the order of the values.  No two of them
have a field or a value in common. -/
theorem ofTokens_origins (tokens : List Token) :
    (∀ inner ∈ RuleNode.groupsOfAll (ofTokens tokens).members, inner.members ≠ []) ∧
    ∃ origins : List Origin,
      List.Forall₂ (Origin.Forms tokens) origins (ofTokens tokens).leaves ∧
      origins.Pairwise (fun origin later => origin.value < later.value) ∧
      (origins.map Origin.field).Nodup ∧
      ∀ origin rule, Origin.Forms tokens origin rule → origin ∈ origins := by
  refine ⟨isFilled_ofTokens tokens, ?_⟩
  have start : Stands [] OpenGroup.blank.pending [] :=
    .outermost .nil (knows_blank fun _ _ inScope => Nat.not_lt_zero _ inScope.lt)
  obtain ⟨origins, rules, leaves, accounts⟩ := @build_accounts [] tokens .blank [] start
  have same : (ofTokens tokens).leaves = rules := leaves
  rw [same]
  exact ⟨origins, accounts.forms, accounts.ordered, accounts.fields_nodup,
    fun origin rule forms => accounts.complete origin rule forms (Nat.zero_le _)⟩

/-- An operator without a field, a rule around a group, and values too many. -/
example : (ofTokens [.operator "is", .field "text", .value "a", .operator "in",
    .bracket .opening, .operator "has", .value "b", .bracket .closing, .value "c",
    .value "d"]).leaves = [⟨"text", "in", "c"⟩] := by
  decide +kernel

end RuleGroup
end FilterQuery
