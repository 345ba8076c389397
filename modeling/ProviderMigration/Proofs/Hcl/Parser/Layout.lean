import ProviderMigration.Proofs.Hcl.Parser.Comment

/-!
# Where the parser stops

Inside brackets the parser looks past newlines and comments for the next token that counts. It
passes over them only where it then reads such a token, so an expression ends right behind one, and
the cursor knows where that is.

* `Behind` — the cursor stands right behind a token that counts;
* `StopsBehind` — every function for expressions stops there, by induction on the fuel; the loops
  over operators and steps do, or have read nothing.
-/

namespace ProviderMigration
namespace Hcl
namespace Parser

/-- The cursor stands right behind one of the tokens, which is neither a newline nor a comment. -/
def Behind (tokens : List Located) (c : Cursor) : Prop :=
  ∃ front t, tokens = front ++ t :: c.tokens ∧ t.token.isTrivia = false ∧ c.last = t.span.stop

/-! ## Single tokens -/

section
variable {c after : Cursor} {r : Region} {t : Located} {s : Symbol} {tokens tokens' : List Located}

theorem Behind.mono (h : Behind tokens c) (htokens : tokens <:+ tokens') : Behind tokens' c := by
  obtain ⟨front, t, rfl, ht, hlast⟩ := h
  obtain ⟨more, rfl⟩ := htokens
  exact ⟨more ++ front, t, (List.append_assoc ..).symm, ht, hlast⟩

theorem Behind.suffix (h : Behind tokens c) : c.tokens <:+ tokens := by
  obtain ⟨front, t, rfl, -⟩ := h
  exact (List.suffix_cons t c.tokens).trans (List.suffix_append front _)

/-- Comments that are put aside leave the cursor where it is. -/
theorem Behind.addStray (h : Behind tokens c) (comments : List String) :
    Behind tokens (c.addStray comments) :=
  h

theorem behind_tail {ts : List Located} (htokens : c.tokens = t :: ts)
    (ht : t.token.isTrivia = false) (stray : List String) :
    Behind c.tokens ⟨ts, stray, t.span.stop⟩ :=
  ⟨[], t, htokens, ht, rfl⟩

theorem behind_next (h : c.next r = .ok (t, after)) (ht : t.token.isTrivia = false) :
    Behind c.tokens after := by
  obtain ⟨ts, htokens, rfl⟩ := Cursor.next_ok_iff.1 h
  exact (behind_tail htokens ht _).mono (keeps_settle r c).suffix

theorem behind_nextIf? {α : Type} {f : Token → Option α} {x : α}
    (h : c.nextIf? r f = some (x, after))
    (hf : ∀ token y, f token = some y → token.isTrivia = false) : Behind c.tokens after := by
  obtain ⟨t, hnext, hx⟩ := Cursor.nextIf?_eq_some_iff.1 h
  exact behind_next hnext (hf _ _ hx)

theorem behind_eat? (h : c.eat? r s = some after) : Behind c.tokens after := by
  obtain ⟨t, hnext, ht⟩ := Cursor.eat?_eq_some_iff.1 h
  exact behind_next hnext (by rw [ht]; rfl)

theorem behind_expect {span : Span} (h : c.expect r s = .ok (span, after)) :
    Behind c.tokens after := by
  obtain ⟨t, hnext, ht, -⟩ := Cursor.expect_ok_iff.1 h
  exact behind_next hnext (by rw [ht]; rfl)

theorem behind_fullSplat? (h : fullSplat? r c = some after) : Behind c.tokens after := by
  obtain ⟨star, hstar, hclose⟩ := fullSplat?_eq_some_iff.1 h
  exact (behind_eat? hclose).mono (keeps_eat? hstar).suffix

end

/-! ## Expressions -/

/-- Where the functions of the expression parser stop, with some fuel. -/
structure StopsBehind (fuel : Nat) : Prop where
  expression : ∀ {r c e after}, expression fuel r c = .ok (e, after) → Behind c.tokens after
  binary : ∀ {r floor c e after}, binary fuel r floor c = .ok (e, after) → Behind c.tokens after
  operators : ∀ {r floor lhs c e after}, operators fuel r floor lhs c = .ok (e, after) →
    after = c ∨ Behind c.tokens after
  unary : ∀ {r c e after}, unary fuel r c = .ok (e, after) → Behind c.tokens after
  traversal : ∀ {r c e after}, traversal fuel r c = .ok (e, after) → Behind c.tokens after
  steps : ∀ {r c ss after}, steps fuel r c = .ok (ss, after) → after = c ∨ Behind c.tokens after
  primary : ∀ {r c e after}, primary fuel r c = .ok (e, after) → Behind c.tokens after
  arguments : ∀ {r c args expand after}, arguments fuel r c = .ok (args, expand, after) →
    Behind c.tokens after
  tupleItems : ∀ {r first c items after}, tupleItems fuel r first c = .ok (items, after) →
    Behind c.tokens after
  objectItems : ∀ {r first c items after}, objectItems fuel r first c = .ok (items, after) →
    Behind c.tokens after
  comprehension : ∀ {r asObject c loop after},
    comprehension fuel r asObject c = .ok (loop, after) → Behind c.tokens after

namespace StopsBehind

theorem zero : StopsBehind 0 := by
  constructor <;> intros <;> rename_i h <;>
    first
      | simp [Parser.expression] at h
      | simp [Parser.binary] at h
      | simp [Parser.operators] at h
      | simp [Parser.unary] at h
      | simp [Parser.traversal] at h
      | simp [Parser.steps] at h
      | simp [Parser.primary] at h
      | simp [Parser.arguments] at h
      | simp [Parser.tupleItems] at h
      | simp [Parser.objectItems] at h
      | simp [Parser.comprehension] at h

variable {fuel : Nat} {r : Region} {c c₁ after : Cursor} {e : Expr}

/-- What comes after a token that was read stops there, or behind a later one. -/
theorem of_loop {tokens : List Located} (hread : Behind tokens c) (hsuffix : c.tokens <:+ tokens)
    (hloop : after = c ∨ Behind c.tokens after) : Behind tokens after := by
  rcases hloop with rfl | hloop
  · exact hread
  · exact hloop.mono hsuffix

theorem expression_succ (k : StopsBehind fuel)
    (h : Parser.expression (fuel + 1) r c = .ok (e, after)) : Behind c.tokens after := by
  cases expression_ok_iff.1 h with
  | plain hbinary => exact k.binary hbinary
  | conditional hcondition hquestion htrue hcolon hfalse =>
      have hfront := ((keeping fuel).binary hcondition).thenSkip (keeps_eat? hquestion)
      have hbranch := ((keeping fuel).expression htrue).thenSkip (keeps_expect hcolon)
      exact (k.expression hfalse).mono (hfront.trans hbranch).suffix

theorem binary_succ (k : StopsBehind fuel) {floor : Nat}
    (h : Parser.binary (fuel + 1) r floor c = .ok (e, after)) : Behind c.tokens after := by
  obtain ⟨lhs, c₁, hlhs, h⟩ := binary_ok_iff.1 h
  exact of_loop (k.unary hlhs) ((keeping fuel).unary hlhs).suffix (k.operators h)

theorem operators_succ (k : StopsBehind fuel) {floor : Nat} {lhs : Expr}
    (h : Parser.operators (fuel + 1) r floor lhs c = .ok (e, after)) :
    after = c ∨ Behind c.tokens after := by
  cases operators_ok_iff.1 h with
  | done => exact .inl rfl
  -- An operator that binds too loosely is left where it is.
  | looser => exact .inl rfl
  | goesOn hop _ hrhs hrest =>
      have hop' := keeps_nextIf? hop fun _ _ => isTrivia_of_binaryOp?
      have hoperand := hop'.skip ((keeping fuel).binary hrhs)
      exact .inr (of_loop ((k.binary hrhs).mono hop'.suffix) hoperand.suffix (k.operators hrest))

theorem unary_succ (k : StopsBehind fuel)
    (h : Parser.unary (fuel + 1) r c = .ok (e, after)) : Behind c.tokens after := by
  cases unary_ok_iff.1 h with
  | plain _ htraversal => exact k.traversal htraversal
  | operator hop hoperand =>
      exact (k.unary hoperand).mono (keeps_nextIf? hop fun _ _ => isTrivia_of_unaryOp?).suffix

theorem traversal_succ (k : StopsBehind fuel)
    (h : Parser.traversal (fuel + 1) r c = .ok (e, after)) : Behind c.tokens after := by
  obtain ⟨root, c₁, ss, hroot, hsteps, -⟩ := traversal_ok_iff.1 h
  exact of_loop (k.primary hroot) ((keeping fuel).primary hroot).suffix (k.steps hsteps)

theorem steps_succ (k : StopsBehind fuel) {ss : List Step}
    (h : Parser.steps (fuel + 1) r c = .ok (ss, after)) : after = c ∨ Behind c.tokens after := by
  cases steps_ok_iff.1 h with
  | done => exact .inl rfl
  | point hdot hnext hfirst hrest =>
      have hdotKept := keeps_eat? hdot
      have hstep := (behind_next hnext (isTrivia_of_pointSteps hfirst)).mono hdotKept.suffix
      have hsuffix := (keeps_next hnext).suffix.trans hdotKept.suffix
      exact .inr (of_loop hstep hsuffix (k.steps hrest))
  | splat _ hopen hsplat hrest =>
      have hopenKept := keeps_eat? hopen
      have hstep := (behind_fullSplat? hsplat).mono hopenKept.suffix
      have hsuffix := (keeps_fullSplat? hsplat).suffix.trans hopenKept.suffix
      exact .inr (of_loop hstep hsuffix (k.steps hrest))
  | index _ hopen _ hindex hclose hrest =>
      have hindexKept := (keeps_eat? hopen).skip ((keeping fuel).expression hindex)
      have hstep := (behind_expect hclose).mono hindexKept.suffix
      have hsuffix := (hindexKept.thenSkip (keeps_expect hclose)).suffix
      exact .inr (of_loop hstep hsuffix (k.steps hrest))

theorem primary_succ (k : StopsBehind fuel)
    (h : Parser.primary (fuel + 1) r c = .ok (e, after)) : Behind c.tokens after := by
  obtain ⟨found, c₁, hnext, h⟩ := primary_ok_iff.1 h
  have hsuffix := (keeps_next hnext).suffix
  cases h with
  | number htoken | quoted htoken | heredoc htoken | bool htoken | null htoken | var htoken =>
      exact behind_next hnext (by rw [htoken]; rfl)
  | call _ _ _ hopen hargs =>
      exact (k.arguments hargs).mono ((keeps_expect hopen).suffix.trans hsuffix)
  | tupleFor _ _ hloop => exact (k.comprehension hloop).mono hsuffix
  | tuple _ _ hitems => exact (k.tupleItems hitems).mono hsuffix
  | objectFor _ _ hloop => exact (k.comprehension hloop).mono hsuffix
  | object _ _ hitems => exact (k.objectItems hitems).mono hsuffix
  | paren _ hinner hclose =>
      exact (behind_expect hclose).mono (((keeping fuel).expression hinner).suffix.trans hsuffix)

/-! ### Between brackets -/

theorem arguments_succ (k : StopsBehind fuel) {args : List Expr} {expand : Bool}
    (h : Parser.arguments (fuel + 1) r c = .ok (args, expand, after)) :
    Behind c.tokens after := by
  cases arguments_ok_iff.1 h with
  | done hclose => exact behind_eat? hclose
  | spread _ harg hdots hclose =>
      have hfront := ((keeping fuel).expression harg).thenSkip (keeps_eat? hdots)
      exact (behind_expect hclose).mono hfront.suffix
  | cons _ harg _ hcomma hrest =>
      have hfront := ((keeping fuel).expression harg).thenSkip (keeps_eat? hcomma)
      exact (k.arguments hrest).mono hfront.suffix
  | last _ harg _ _ hclose =>
      exact (behind_expect hclose).mono ((keeping fuel).expression harg).suffix

theorem tupleItems_succ (k : StopsBehind fuel) {first : Bool} {items : List TupleItem}
    (h : Parser.tupleItems (fuel + 1) r first c = .ok (items, after)) :
    Behind c.tokens after := by
  cases tupleItems_ok_iff.1 h with
  | done hdecor hclose =>
      exact ((behind_eat? hclose).mono (keeps_elementDecor hdecor).suffix).addStray _
  | cons hdecor _ hvalue hcomma htrailing hrest =>
      have hfront := (keeps_elementDecor hdecor).trans ((keeping fuel).expression hvalue)
      have hnote := (keeps_eat? hcomma).skip (keeps_sameLineComment htrailing)
      exact (k.tupleItems hrest).mono (hfront.trans hnote).suffix
  | last hdecor _ hvalue _ htrailing hbelow hclose =>
      have hfront := (keeps_elementDecor hdecor).trans ((keeping fuel).expression hvalue)
      have hnote := (keeps_sameLineComment htrailing).trans (keeps_elementDecor hbelow)
      exact (behind_expect hclose).mono (hfront.trans hnote).suffix

theorem objectItems_succ (k : StopsBehind fuel) {first : Bool} {items : List ObjectItem}
    (h : Parser.objectItems (fuel + 1) r first c = .ok (items, after)) :
    Behind c.tokens after := by
  cases objectItems_ok_iff.1 h with
  | done hdecor hclose =>
      exact ((behind_eat? hclose).mono (keeps_elementDecor hdecor).suffix).addStray _
  | cons hdecor _ hkey hseparator hvalue htrailing hrest =>
      have hentry := (keeps_elementDecor hdecor).trans
        (((keeping fuel).keeps_entryKey hkey).thenSkip (keeps_expectKeySeparator hseparator))
      have hnote := (keeps_optional r .comma _).skip (keeps_sameLineComment htrailing)
      exact (k.objectItems hrest).mono
        ((hentry.trans ((keeping fuel).expression hvalue)).trans hnote).suffix

theorem comprehension_succ {asObject : Bool} {loop : Comprehension}
    (h : Parser.comprehension (fuel + 1) r asObject c = .ok (loop, after)) :
    Behind c.tokens after := by
  have k := keeping fuel
  cases comprehension_ok_iff.1 h with
  | parts hfor hvariables hin hcollection hcolon hkey hvalue hdots hcondition hclose =>
      have hhead := (keeps_expectKeyword hfor).skip
        ((keeps_loopVariables hvariables).skip (keeps_expectKeyword hin))
      have hcollectionKept := (k.expression hcollection).thenSkip (keeps_expect hcolon)
      have hvalueKept := (k.expression hvalue).thenSkip (Keeping.keeps_loopDots hdots)
      have hfront := hhead.trans (hcollectionKept.trans (k.keeps_loopKey hkey))
      have hback := hvalueKept.trans (k.keeps_loopFilter hcondition)
      -- The bracket that closes the loop is read last.
      exact (behind_expect hclose).mono (hfront.trans hback).suffix

theorem succ (k : StopsBehind fuel) : StopsBehind (fuel + 1) where
  expression := k.expression_succ
  binary := k.binary_succ
  operators := k.operators_succ
  unary := k.unary_succ
  traversal := k.traversal_succ
  steps := k.steps_succ
  primary := k.primary_succ
  arguments := k.arguments_succ
  tupleItems := k.tupleItems_succ
  objectItems := k.objectItems_succ
  comprehension := comprehension_succ

end StopsBehind

theorem stopsBehind (fuel : Nat) : StopsBehind fuel := by
  induction fuel with
  | zero => exact .zero
  | succ fuel ih => exact ih.succ

end Parser
end Hcl
end ProviderMigration
