import FilterQuery.Proofs.Seeding
import Mathlib.Data.List.Forall2

namespace FilterQuery

variable {slots front back behind : List Slot} {slot other : Slot} {token : Token}
  {candidates : TypeSet} {draft edited : Draft} {edit : Edit}

/-- Whether a slot has become another one that holds the same: its token, or what was typed into
it. -/
inductive Slot.Kept : Slot → Slot → Prop
  | resolved (token : Token) : Kept (.resolved token) (.resolved token)
  | pending {candidates others : TypeSet} {text typed : String}
      (same : (candidates = .valueOnly ↔ others = .valueOnly) → typed = text) :
      Kept (.pending candidates text) (.pending others typed)

def tokensBefore (slots : List Slot) (index : Nat) : Nat :=
  (resolvedTokens (slots.take index)).length

def isPendingAt (slots : List Slot) (index : Nat) : Bool :=
  slots[index]?.any Slot.isPending

/-- The tokens with one more at the place of a slot, if the slot is pending, and otherwise with
another one for that of the slot. -/
def withToken (slots : List Slot) (index : Nat) (token : Token) : List Token :=
  if isPendingAt slots index then
    (resolvedTokens slots).insertIdx (tokensBefore slots index) token
  else (resolvedTokens slots).set (tokensBefore slots index) token

namespace Edit

/-- The number of slots that an edit addresses.  A group is put in between two. -/
def width : Edit → Nat
  | .resolve _ _ _ => 1
  | .commitValue _ => 1
  | .editValue _ _ => 1
  | .insertGroup _ => 0
  | .deleteSlot _ => 1

/-- What an edit makes of the tokens of some slots. -/
def Rewrites (slots : List Slot) (edit : Edit) (after : List Token) : Prop :=
  match edit with
  | .resolve index _ _ | .commitValue index =>
      ∃ token, edit.Names slots token ∧ after = withToken slots index token
  | .editValue index text =>
      after =
        if isPendingAt slots index then resolvedTokens slots
        else withToken slots index (.value text)
  | .insertGroup index =>
      after = (resolvedTokens slots).take (tokensBefore slots index) ++
        .bracket .opening :: .bracket .closing ::
          (resolvedTokens slots).drop (tokensBefore slots index)
  | .deleteSlot index =>
      after =
        if isPendingAt slots index then resolvedTokens slots
        else (resolvedTokens slots).eraseIdx (tokensBefore slots index)

/-- What an edit puts in the place of the slots that it addresses. -/
def Places (slots : List Slot) (edit : Edit) (here : List Slot) : Prop :=
  match edit with
  | .resolve _ _ _ | .commitValue _ =>
      ∃ token, edit.Names slots token ∧
        (here = [.resolved token] ∨ here = [.resolved token, .fresh token.type.follow])
  | .editValue index text =>
      ∃ slot, slots[index]? = some slot ∧ slot.isValueSlot = true ∧
        here = [Draft.withText text slot]
  | .insertGroup _ =>
      here = [.resolved (.bracket .opening), .fresh .initial, .resolved (.bracket .closing)]
  | .deleteSlot _ => here = [] ∨ slots.length = 1 ∧ here = [.fresh .initial]

theorem Names.width (names : edit.Names slots token) : edit.width = 1 := by
  cases edit with
  | resolve | commitValue => rfl
  | editValue | insertGroup | deleteSlot => exact names.elim

theorem Names.rewrites (names : edit.Names slots token) :
    edit.Rewrites slots (withToken slots edit.index token) := by
  cases edit with
  | resolve | commitValue => exact ⟨token, names, rfl⟩
  | editValue | insertGroup | deleteSlot => exact names.elim

theorem Names.places {here : List Slot} (names : edit.Names slots token)
    (put : here = [.resolved token] ∨ here = [.resolved token, .fresh token.type.follow]) :
    edit.Places slots here := by
  cases edit with
  | resolve | commitValue => exact ⟨token, names, put⟩
  | editValue | insertGroup | deleteSlot => exact names.elim

end Edit

/-- Whether a draft differs from an earlier one by what an edit does at its place. -/
structure Draft.Amends (draft : Draft) (edit : Edit) (edited : Draft) : Prop where
  schema : edited.schema = draft.schema
  tokens : edit.Rewrites draft.slots edited.tokens
  slots : ∃ here behind,
    edited.slots = draft.slots.take edit.index ++ (here ++ behind) ∧
    edit.Places draft.slots here ∧
    List.Forall₂ Slot.Kept (draft.slots.drop (edit.index + edit.width)) behind

@[refl] theorem Slot.kept_refl (slot : Slot) : slot.Kept slot := by
  cases slot with
  | resolved token => exact .resolved token
  | pending candidates text => exact .pending fun _ => rfl

theorem kept_refl (slots : List Slot) : List.Forall₂ Slot.Kept slots slots :=
  List.forall₂_same.mpr fun slot _ => slot.kept_refl

theorem Slot.kept_reseed (slot : Slot) (candidates : TypeSet) :
    slot.Kept (slot.reseed candidates) := by
  cases slot with
  | resolved token => exact .resolved token
  | pending current text =>
      simp only [reseed]
      split
      next => exact .pending fun _ => rfl
      next switches =>
        refine .pending fun same => absurd ?_ switches
        rw [beq_iff_eq, Bool.eq_iff_iff, beq_iff_eq, beq_iff_eq]
        exact same

theorem kept_reseedFirst (candidates : TypeSet) (slots : List Slot) :
    List.Forall₂ Slot.Kept slots (reseedFirst candidates slots) := by
  cases slots with
  | nil => exact .nil
  | cons next rest => exact .cons (next.kept_reseed candidates) (kept_refl rest)

/-- Behind a token that is taken, a slot is opened or the next one is made to fit. -/
theorem kept_refit {schema : Schema} {before : List Token} {wasPending : Bool}
    (refits : refit schema before token wasPending back = some behind) :
    ∃ opened kept, behind = opened ++ kept ∧ List.Forall₂ Slot.Kept back kept ∧
      (opened = [] ∨ opened = [.fresh token.type.follow]) := by
  unfold refit at refits
  split at refits
  next =>
    cases refits
    exact ⟨_, [], rfl, .nil, .inr rfl⟩
  next current text rest =>
    cases refits
    exact ⟨[], _, rfl, kept_reseedFirst _ (.pending current text :: rest), .inl rfl⟩
  next following rest =>
    split at refits
    · cases refits
      exact ⟨[], _, rfl, kept_refl _, .inl rfl⟩
    · split at refits
      · cases refits
        exact ⟨_, _, rfl, kept_refl _, .inr rfl⟩
      · cases refits

@[simp] theorem tokensBefore_split :
    tokensBefore (front ++ back) front.length = (resolvedTokens front).length := by
  rw [tokensBefore, List.take_left]

@[simp] theorem isPendingAt_split :
    isPendingAt (front ++ slot :: back) front.length = slot.isPending := by
  simp [isPendingAt]

@[simp] theorem withToken_split : withToken (front ++ slot :: back) front.length token =
    resolvedTokens front ++ token :: resolvedTokens back := by
  rw [withToken, isPendingAt_split, tokensBefore_split, resolvedTokens_append, resolvedTokens_cons]
  cases slot with
  | pending candidates text => exact insertIdx_length_append
  | resolved old => exact set_length_append

namespace Draft

theorem withoutSlot_tokens :
    resolvedTokens (withoutSlot (front ++ slot :: back) front.length) =
      resolvedTokens front ++ resolvedTokens back := by
  rw [withoutSlot_append]
  split
  next alone =>
    obtain ⟨rfl, rfl⟩ := alone
    rfl
  next => rw [resolvedTokens_append, resolvedTokens_reseedFirst]

theorem Performs.rewrites (performs : draft.Performs edit edited) :
    edit.Rewrites draft.slots edited.tokens := by
  cases performs with
  | @takes _ front back behind slot token taken split legal refits =>
      obtain ⟨place, names⟩ := names_of_taken taken
      have rewrites := names.rewrites
      rw [place, split, withToken_split] at rewrites
      rwa [split, Draft.tokens, taken_tokens refits]
  | @rewords front back slot text split isValue quoted =>
      rw [Edit.Rewrites, split, isPendingAt_split, withToken_split, Draft.tokens]
      cases slot <;> simp [withText, Slot.isPending, Slot.token?]
  | @groups front back split fits =>
      rw [Edit.Rewrites, Draft.tokens, split, withGroup_tokens, tokensBefore_split,
        resolvedTokens_append, List.take_left, List.drop_left]
  | @removes front back slot split unprotected =>
      rw [Edit.Rewrites, Draft.tokens, split, withoutSlot_tokens, isPendingAt_split,
        tokensBefore_split, resolvedTokens_append, resolvedTokens_cons]
      cases slot <;> simp [Slot.isPending, Slot.token?, List.eraseIdx_append_of_length_le]

theorem Performs.keepsSlots (performs : draft.Performs edit edited) : ∃ here behind,
    edited.slots = draft.slots.take edit.index ++ (here ++ behind) ∧
    edit.Places draft.slots here ∧
    List.Forall₂ Slot.Kept (draft.slots.drop (edit.index + edit.width)) behind := by
  cases performs with
  | @takes _ front back behind slot token taken split legal refits =>
      obtain ⟨place, names⟩ := names_of_taken taken
      obtain ⟨opened, kept, rfl, keeps, fresh⟩ := kept_refit refits
      rw [split] at names
      rw [place, names.width, split, List.take_left, drop_succ_length_append]
      refine ⟨.resolved token :: opened, kept, rfl, names.places ?_, keeps⟩
      rcases fresh with rfl | rfl
      · exact .inl rfl
      · exact .inr rfl
  | @rewords front back slot text split isValue quoted =>
      rw [Edit.index, Edit.width, split, List.take_left, drop_succ_length_append]
      exact ⟨[withText text slot], back, rfl, ⟨slot, getElem?_length_append, isValue, rfl⟩,
        kept_refl back⟩
  | @groups front back split fits =>
      rw [Edit.index, Edit.width, split, Nat.add_zero, List.take_left, List.drop_left,
        withGroup_append]
      exact ⟨_, reseedFirst TokenType.group.follow back, rfl, rfl, kept_reseedFirst _ _⟩
  | @removes front back slot split unprotected =>
      rw [Edit.index, Edit.width, split, List.take_left, drop_succ_length_append,
        withoutSlot_append]
      split
      next alone =>
        obtain ⟨rfl, rfl⟩ := alone
        exact ⟨_, [], rfl, .inr ⟨rfl, rfl⟩, .nil⟩
      next => exact ⟨[], _, rfl, .inl rfl, kept_reseedFirst _ _⟩

/-- Whatever the slots of a draft are, an edit that succeeds does to the tokens what it is for and
nothing else.  The slots in front of its place stay as they are.  Those behind stay in order, each
with its token or with what was typed into it. -/
theorem perform_amends (draft edited : Draft) (edit : Edit)
    (performed : draft.perform edit = .ok edited) :
    draft.Amends edit edited :=
  ⟨(performs performed).schema, (performs performed).rewrites, (performs performed).keepsSlots⟩

end Draft

/-- Slots that no edits lead to, with typed text on both sides of a value. -/
def strewnDraft : Draft :=
  ⟨.builtin,
    [.pending .initial "te", .resolved (.bracket .closing), .pending TokenType.group.follow "an",
      .resolved (.value "a"), .pending TokenType.value.follow "or"]⟩

theorem strewnDraft_amends : ∃ edited,
    strewnDraft.perform (.resolve 2 "AND" .combinator) = .ok edited ∧
      strewnDraft.Amends (.resolve 2 "AND" .combinator) edited ∧
      edited.tokens = [.bracket .closing, .combinator .and, .value "a"] ∧
      edited.slots.map Slot.text = ["te", ")", "AND", "", "a", "or"] :=
  ⟨_, rfl, strewnDraft.perform_amends _ _ rfl, rfl, rfl⟩

end FilterQuery
