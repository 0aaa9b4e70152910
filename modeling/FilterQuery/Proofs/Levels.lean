import FilterQuery.SlotContext

namespace FilterQuery

variable {tokens rest front back : List Token} {token : Token}

theorem split_append_cons {α : Type} {front back before after : List α} {mark item : α}
    (split : front ++ mark :: back = before ++ item :: after) :
    (∃ rest, front = before ++ item :: rest ∧ after = rest ++ mark :: back) ∨
      (before = front ∧ item = mark ∧ after = back) ∨
      ∃ rest, before = front ++ mark :: rest ∧ back = rest ++ item :: after := by
  rcases List.append_eq_append_iff.mp split with ⟨rest, rfl, later⟩ | ⟨rest, rfl, later⟩
  · cases rest with
    | nil =>
        cases later
        exact .inr (.inl ⟨List.append_nil _, rfl, rfl⟩)
    | cons first rest =>
        cases later
        exact .inr (.inr ⟨rest, rfl, rfl⟩)
  · cases rest with
    | nil =>
        cases later
        exact .inr (.inl ⟨(List.append_nil _).symm, rfl, rfl⟩)
    | cons first rest =>
        cases later
        exact .inl ⟨rest, rfl, rfl⟩

/-- Tokens in which every bracket has its partner. -/
inductive IsLevel : List Token → Prop
  | nil : IsLevel []
  | cons {token : Token} {rest : List Token} (flat : token.weight = 0) (later : IsLevel rest) :
      IsLevel (token :: rest)
  | group {inner rest : List Token} (inside : IsLevel inner) (later : IsLevel rest) :
      IsLevel (.bracket .opening :: (inner ++ .bracket .closing :: rest))

namespace IsLevel

theorem append (level : IsLevel front) (levelBack : IsLevel back) : IsLevel (front ++ back) := by
  induction level with
  | nil => exact levelBack
  | cons flat later ih => exact .cons flat ih
  | group inside later insideIH laterIH =>
      rw [List.cons_append, List.append_assoc]
      exact .group inside laterIH

theorem combinatorAhead_inside (level : IsLevel tokens) (depth : Nat) (rest : List Token) :
    combinatorAhead (depth + 1) (tokens ++ rest) = combinatorAhead (depth + 1) rest := by
  induction level generalizing depth rest with
  | nil => rfl
  | @cons token _ flat later ih =>
      cases token with
      | field | operator | value | combinator => exact ih depth rest
      | bracket half => cases half <;> cases flat
  | group inside later insideIH laterIH =>
      rw [List.cons_append, List.append_assoc, combinatorAhead, insideIH]
      exact laterIH depth rest

theorem combinatorAhead_append (level : IsLevel tokens) (rest : List Token) :
    combinatorAhead 0 (tokens ++ rest) =
      (combinatorAhead 0 tokens).or (combinatorAhead 0 rest) := by
  induction level with
  | nil => rfl
  | @cons token _ flat later ih =>
      cases token with
      | field | operator | value => exact ih
      | combinator => rfl
      | bracket half => cases half <;> cases flat
  | @group inner _ inside later insideIH laterIH =>
      have skipped : ∀ tokens, combinatorAhead 0
          (.bracket .opening :: (inner ++ .bracket .closing :: tokens)) =
            combinatorAhead 0 tokens := by
        intro tokens
        rw [combinatorAhead, inside.combinatorAhead_inside]
        rfl
      rw [List.cons_append, List.append_assoc, List.cons_append, skipped, skipped, laterIH]

end IsLevel

/-- Whether no prefix of the tokens closes more brackets than it opens. -/
def ClosesOnlyOpen (tokens : List Token) : Prop :=
  ∀ front, front <+: tokens → front.countP Token.isClosing ≤ front.countP Token.isOpening

theorem closesOnlyOpen_iff :
    ClosesOnlyOpen tokens ↔ ∀ front, front <+: tokens → 0 ≤ balance front := by
  apply forall_congr'
  intro front
  apply imp_congr_right
  intro begins
  rw [balance_eq]
  omega

theorem closesOnlyOpen_nil : ClosesOnlyOpen [] := by
  intro front begins
  rw [List.prefix_nil.mp begins]
  exact Nat.le_refl 0

theorem closesOnlyOpen_append : ClosesOnlyOpen (front ++ back) ↔
    ClosesOnlyOpen front ∧ ∀ read, read <+: back → 0 ≤ balance front + balance read := by
  rw [closesOnlyOpen_iff, closesOnlyOpen_iff]
  constructor
  · intro closes
    refine ⟨fun read begins => closes read (begins.trans (List.prefix_append front back)), ?_⟩
    intro read begins
    rw [← balance_append]
    exact closes _ ((List.prefix_append_right_inj front).mpr begins)
  · intro closes read begins
    obtain ⟨inFront, behind⟩ := closes
    rcases List.prefix_or_prefix_of_prefix begins (List.prefix_append front back) with short | long
    · exact inFront read short
    · obtain ⟨beyond, rfl⟩ := long
      rw [balance_append]
      exact behind beyond ((List.prefix_append_right_inj front).mp begins)

theorem closesOnlyOpen_cons : ClosesOnlyOpen (front ++ token :: back) ↔
    ClosesOnlyOpen front ∧
      ∀ read, read <+: back → 0 ≤ balance front + token.weight + balance read := by
  rw [closesOnlyOpen_append]
  apply and_congr_right
  intro inFront
  constructor
  · intro behind read begins
    have more := behind (token :: read) ((List.prefix_append_right_inj [token]).mpr begins)
    rwa [balance, ← Int.add_assoc] at more
  · intro behind read begins
    rcases List.prefix_cons_iff.mp begins with rfl | ⟨read, rfl, shorter⟩
    · have whole := closesOnlyOpen_iff.mp inFront front (List.prefix_refl front)
      exact Int.add_nonneg whole (Int.le_refl 0)
    · rw [balance, ← Int.add_assoc]
      exact behind read shorter

theorem ClosesOnlyOpen.group (closes : ClosesOnlyOpen (front ++ back)) :
    ClosesOnlyOpen (front ++ .bracket .opening :: .bracket .closing :: back) := by
  obtain ⟨inFront, behind⟩ := closesOnlyOpen_append.mp closes
  refine closesOnlyOpen_cons.mpr ⟨inFront, ?_⟩
  intro read begins
  have whole := behind [] List.nil_prefix
  rcases List.prefix_cons_iff.mp begins with rfl | ⟨read, rfl, shorter⟩
  · simp only [balance, Token.weight] at whole ⊢
    omega
  · have later := behind read shorter
    simp only [balance, Token.weight] at later ⊢
    omega

theorem closesOnlyOpen_concat : ClosesOnlyOpen (front ++ [token]) ↔
    ClosesOnlyOpen front ∧ 0 ≤ balance front + token.weight := by
  rw [closesOnlyOpen_cons]
  simp [List.prefix_nil, balance]

theorem ClosesOnlyOpen.balance_nonneg (closes : ClosesOnlyOpen tokens) : 0 ≤ balance tokens :=
  closesOnlyOpen_iff.mp closes tokens (List.prefix_refl tokens)

theorem ClosesOnlyOpen.opened (closes : ClosesOnlyOpen front) :
    ClosesOnlyOpen (front ++ [.bracket .opening]) :=
  closesOnlyOpen_concat.mpr ⟨closes, Int.add_nonneg closes.balance_nonneg (by decide)⟩

theorem IsLevel.balance_eq (level : IsLevel tokens) : balance tokens = 0 := by
  induction level with
  | nil => rfl
  | cons flat later ih => rw [balance, flat, ih, Int.add_zero]
  | group inside later insideIH laterIH =>
      rw [balance, balance_append, balance, insideIH, laterIH]
      rfl

/-- Tokens whose brackets are all paired may stand wherever nothing is closed that is not open. -/
theorem IsLevel.closes_behind (level : IsLevel tokens) (closes : ClosesOnlyOpen front) :
    ClosesOnlyOpen (front ++ tokens) := by
  induction level generalizing front with
  | nil => rwa [List.append_nil]
  | @cons token rest flat later ih =>
      have next : ClosesOnlyOpen (front ++ [token]) := by
        rw [closesOnlyOpen_concat, flat, Int.add_zero]
        exact ⟨closes, closes.balance_nonneg⟩
      have behind := ih next
      rwa [List.append_assoc] at behind
  | @group inner rest inside later insideIH laterIH =>
      have count : balance (front ++ [.bracket .opening] ++ inner) = balance front + 1 := by
        rw [balance_append, balance_append, inside.balance_eq, Int.add_zero]
        rfl
      have closed :
          ClosesOnlyOpen (front ++ [.bracket .opening] ++ inner ++ [.bracket .closing]) := by
        refine closesOnlyOpen_concat.mpr ⟨insideIH closes.opened, ?_⟩
        have whole := closes.balance_nonneg
        rw [count, Token.weight]
        omega
      have behind := laterIH closed
      simpa only [List.append_assoc, List.cons_append, List.nil_append] using behind

/-- Behind tokens whose brackets are all paired there is nothing to close. -/
theorem IsLevel.not_closesOnlyOpen (level : IsLevel front) :
    ¬ ClosesOnlyOpen (front ++ .bracket .closing :: back) := by
  intro closes
  have behind := (closesOnlyOpen_cons.mp closes).2 [] List.nil_prefix
  rw [level.balance_eq] at behind
  exact absurd behind (by decide)

/-- Where more brackets are closed than opened, one has no partner although all in front of it have
theirs. -/
theorem exists_unpaired (short : balance tokens < 0) :
    ∃ inner later, tokens = inner ++ .bracket .closing :: later ∧ IsLevel inner := by
  induction size : tokens.length using Nat.strongRecOn generalizing tokens with
  | ind size shorter =>
      cases tokens with
      | nil => exact absurd short (by decide)
      | cons token rest =>
          subst size
          by_cases flat : token.weight = 0
          · rw [balance, flat, Int.zero_add] at short
            obtain ⟨inner, later, rfl, level⟩ := shorter _ (Nat.lt_succ_self _) short rfl
            exact ⟨token :: inner, later, rfl, .cons flat level⟩
          cases token with
          | field | operator | value | combinator => exact absurd rfl flat
          | bracket half =>
              cases half with
              | closing => exact ⟨[], rest, rfl, .nil⟩
              | opening =>
                  have inside : balance rest < 0 := by
                    simp only [balance, Token.weight] at short
                    omega
                  obtain ⟨inner, later, rfl, level⟩ := shorter _ (Nat.lt_succ_self _) inside rfl
                  have behind : balance later < 0 := by
                    simp only [balance, balance_append, Token.weight, level.balance_eq] at short
                    omega
                  have fewer : later.length < (Token.bracket .opening ::
                      (inner ++ Token.bracket .closing :: later)).length := by
                    simp only [List.length_cons, List.length_append]
                    omega
                  obtain ⟨next, last, rfl, levelNext⟩ := shorter _ fewer behind rfl
                  refine ⟨.bracket .opening :: (inner ++ .bracket .closing :: next), last, ?_,
                    .group level levelNext⟩
                  simp only [List.cons_append, List.append_assoc]

/-- Something is closed that is not open exactly if a closing bracket comes behind tokens whose
brackets are all paired. -/
theorem not_closesOnlyOpen_iff : ¬ ClosesOnlyOpen tokens ↔
    ∃ inner later, tokens = inner ++ .bracket .closing :: later ∧ IsLevel inner := by
  constructor
  · intro uncovered
    simp only [closesOnlyOpen_iff, Classical.not_forall, Int.not_le] at uncovered
    obtain ⟨read, ⟨unread, rfl⟩, short⟩ := uncovered
    obtain ⟨inner, later, rfl, level⟩ := exists_unpaired short
    exact ⟨inner, later ++ unread, List.append_assoc _ _ _, level⟩
  · intro unpaired
    obtain ⟨inner, later, rfl, level⟩ := unpaired
    exact level.not_closesOnlyOpen

/-- Every bracket has its partner exactly if nothing is closed that is not open, and everything that
is opened is closed. -/
theorem isLevel_iff : IsLevel tokens ↔ ClosesOnlyOpen tokens ∧ balance tokens = 0 := by
  constructor
  · intro level
    exact ⟨level.closes_behind closesOnlyOpen_nil, level.balance_eq⟩
  rintro ⟨closes, even⟩
  -- One more closing bracket leaves the tokens short of a partner, and it can only be its own.
  have short : balance (tokens ++ [.bracket .closing]) < 0 := by
    rw [balance_append, even]
    decide
  obtain ⟨inner, later, split, level⟩ := exists_unpaired short
  rcases List.eq_nil_or_concat later with rfl | ⟨before, last, rfl⟩
  · obtain ⟨rfl, -⟩ := List.append_inj' split rfl
    exact level
  · have same : tokens ++ [.bracket .closing] =
        (inner ++ .bracket .closing :: before) ++ [last] := by
      rw [split, List.concat_eq_append, List.append_assoc]
      rfl
    obtain ⟨rfl, -⟩ := List.append_inj' same rfl
    exact absurd closes level.not_closesOnlyOpen

theorem isLevel_append_iff (level : IsLevel front) : IsLevel (front ++ back) ↔ IsLevel back := by
  refine ⟨fun whole => ?_, level.append⟩
  obtain ⟨closes, even⟩ := isLevel_iff.mp whole
  rw [closesOnlyOpen_append] at closes
  rw [balance_append, level.balance_eq, Int.zero_add] at even
  refine isLevel_iff.mpr ⟨closesOnlyOpen_iff.mpr fun read begins => ?_, even⟩
  have inside := closes.2 read begins
  rwa [level.balance_eq, Int.zero_add] at inside

theorem append_isLevel_iff (level : IsLevel back) : IsLevel (front ++ back) ↔ IsLevel front := by
  refine ⟨fun whole => ?_, fun before => before.append level⟩
  obtain ⟨closes, even⟩ := isLevel_iff.mp whole
  rw [balance_append, level.balance_eq, Int.add_zero] at even
  exact isLevel_iff.mpr ⟨(closesOnlyOpen_append.mp closes).1, even⟩

theorem not_isLevel_opened : ¬ IsLevel (front ++ [.bracket .opening]) := by
  intro level
  obtain ⟨closes, even⟩ := isLevel_iff.mp level
  have before := closesOnlyOpen_iff.mp closes front (List.prefix_append _ _)
  rw [balance_append] at even
  simp only [balance, Token.weight] at even
  omega

theorem IsLevel.not_isLevel_opening (level : IsLevel back) :
    ¬ IsLevel (front ++ .bracket .opening :: back) := by
  intro whole
  rw [List.append_cons, append_isLevel_iff level] at whole
  exact not_isLevel_opened whole

/-- No end of tokens whose brackets are all paired leaves one open for a bracket behind them. -/
theorem not_isLevel_closed (level : IsLevel (front ++ back)) :
    ¬ IsLevel (back ++ [.bracket .closing]) := by
  intro closed
  obtain ⟨closes, even⟩ := isLevel_iff.mp level
  have before := closesOnlyOpen_iff.mp closes front (List.prefix_append _ _)
  have behind := closed.balance_eq
  simp only [balance_append, balance, Token.weight] at even behind
  omega

end FilterQuery
