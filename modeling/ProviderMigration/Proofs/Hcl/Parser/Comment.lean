import ProviderMigration.Hcl.Parser.Body
import ProviderMigration.Proofs.Data.Except
import ProviderMigration.Proofs.Hcl.Comment
import ProviderMigration.Proofs.Hcl.Parser.Reading
import Mathlib.Data.List.Basic

/-!
# The parser keeps every comment

A comment is read in six places: before an item of a body, after it, before an element of a
collection, after it, at the end of a tuple, and wherever else a newline may stand inside brackets.
In the last two it becomes a stray comment, which goes to the attribute around.

* `Keeps` — the comments put into the tree and those still to be read or to be placed are those
  there were before;
* `Keeping`, `KeepingItems` — what each function of the parser keeps, by induction on the fuel;
* `parseBody_keeps_comments` — the comments of a body are the comments among the tokens.
-/

namespace ProviderMigration

namespace Hcl
namespace Parser

/-! ## Cursors -/

/-- The comments that are to be placed and those that are to be read. -/
def Cursor.comments (c : Cursor) : List String :=
  c.stray ++ commentTexts c.tokens

/-- From one cursor to a later one no comment was lost: each was kept, or the later cursor has it.
The tokens still to be read are the last of those there were. -/
structure Keeps (before : Cursor) (kept : List String) (after : Cursor) : Prop where
  perm : (kept ++ after.comments).Perm before.comments
  suffix : after.tokens <:+ before.tokens

namespace Keeps

variable {a b c : Cursor} {kept more : List String}

theorem refl (c : Cursor) : Keeps c [] c :=
  ⟨List.Perm.refl _, List.suffix_rfl⟩

theorem trans (h : Keeps a kept b) (h' : Keeps b more c) : Keeps a (kept ++ more) c := by
  refine ⟨?_, h'.suffix.trans h.suffix⟩
  rw [List.append_assoc]
  exact (h'.perm.append_left kept).trans h.perm

/-- A step that keeps nothing, before another one. -/
theorem skip (h : Keeps a [] b) (h' : Keeps b kept c) : Keeps a kept c :=
  h.trans h'

/-- A step that keeps nothing, after another one. -/
theorem thenSkip (h : Keeps a kept b) (h' : Keeps b [] c) : Keeps a kept c := by
  simpa using h.trans h'

theorem perm_strayFirst (c : Cursor) (kept : List String) :
    (c.stray ++ kept ++ commentTexts c.tokens).Perm (kept ++ c.comments) := by
  rw [Cursor.comments, ← List.append_assoc]
  exact List.perm_append_comm.append_right _

/-- Comments that were kept are put aside. -/
theorem putAside (h : Keeps a kept b) : Keeps a [] (b.addStray kept) :=
  ⟨(perm_strayFirst b kept).trans h.perm, h.suffix⟩

/-- The comments that were put aside are taken, along with those kept before. -/
theorem collect (h : Keeps a kept b) : Keeps a (b.stray ++ kept) { b with stray := [] } :=
  ⟨(perm_strayFirst b kept).trans h.perm, h.suffix⟩

end Keeps

section
variable {c after : Cursor} {r : Region} {t : Located} {s : Symbol}

theorem comments_skipTrivia (tokens : List Located) :
    (Cursor.skipTrivia tokens).1 ++ commentTexts (Cursor.skipTrivia tokens).2 =
      commentTexts tokens := by
  induction tokens with
  | nil => rfl
  | cons t ts ih =>
      by_cases ht : t.token.isTrivia = true
      · rw [Cursor.skipTrivia, if_pos ht]
        simp only [List.append_assoc, ih]
        cases hcomment : t.token.comment? <;> simp [commentTexts, hcomment]
      · rw [Cursor.skipTrivia, if_neg ht]
        rfl

theorem skipTrivia_suffix (tokens : List Located) :
    (Cursor.skipTrivia tokens).2 <:+ tokens := by
  induction tokens with
  | nil => exact List.suffix_rfl
  | cons t ts ih =>
      rw [Cursor.skipTrivia]
      split
      · exact ih.trans (List.suffix_cons t ts)
      · exact List.suffix_rfl

theorem keeps_settle (r : Region) (c : Cursor) : Keeps c [] (c.settle r) := by
  unfold Cursor.settle
  split
  · refine ⟨?_, skipTrivia_suffix c.tokens⟩
    simp [Cursor.comments, List.append_assoc, comments_skipTrivia]
  · exact .refl c

/-- Reading the first token keeps its text if it is a comment. -/
theorem keeps_tail {t : Located} {ts : List Located} (htokens : c.tokens = t :: ts) (last : Nat) :
    Keeps c t.token.comment?.toList { c with tokens := ts, last := last } := by
  have hfront : commentTexts c.tokens = t.token.comment?.toList ++ commentTexts ts := by
    rw [htokens]
    cases hcomment : t.token.comment? <;> simp [commentTexts, hcomment]
  refine ⟨?_, by rw [htokens]; exact List.suffix_cons t ts⟩
  rw [Cursor.comments, Cursor.comments, hfront, ← List.append_assoc, ← List.append_assoc]
  exact List.perm_append_comm.append_right _

theorem keeps_next (h : c.next r = .ok (t, after)) : Keeps c t.token.comment?.toList after := by
  obtain ⟨ts, htokens, rfl⟩ := Cursor.next_ok_iff.1 h
  exact (keeps_settle r c).skip (keeps_tail htokens _)

/-- Reading a token that is no comment keeps nothing. -/
theorem keeps_next_other (h : c.next r = .ok (t, after)) (ht : t.token.isTrivia = false) :
    Keeps c [] after := by
  simpa [comment?_eq_none ht] using keeps_next h

theorem keeps_nextIf? {α : Type} {f : Token → Option α} {x : α}
    (h : c.nextIf? r f = some (x, after))
    (hf : ∀ token y, f token = some y → token.isTrivia = false) : Keeps c [] after := by
  obtain ⟨t, hnext, hx⟩ := Cursor.nextIf?_eq_some_iff.1 h
  exact keeps_next_other hnext (hf _ _ hx)

theorem keeps_eat? (h : c.eat? r s = some after) : Keeps c [] after := by
  obtain ⟨t, hnext, ht⟩ := Cursor.eat?_eq_some_iff.1 h
  exact keeps_next_other hnext (by rw [ht]; rfl)

/-- A symbol that may be missing. -/
theorem keeps_optional (r : Region) (s : Symbol) (c : Cursor) :
    Keeps c [] ((c.eat? r s).getD c) := by
  cases hread : c.eat? r s with
  | none => exact .refl c
  | some after => exact keeps_eat? hread

theorem keeps_expect {span : Span} (h : c.expect r s = .ok (span, after)) : Keeps c [] after := by
  obtain ⟨t, hnext, ht, -⟩ := Cursor.expect_ok_iff.1 h
  exact keeps_next_other hnext (by rw [ht]; rfl)

theorem keeps_expectKeyword {keyword : String} (h : c.expectKeyword r keyword = .ok after) :
    Keeps c [] after := by
  obtain ⟨t, hnext, ht⟩ := Cursor.expectKeyword_ok_iff.1 h
  exact keeps_next_other hnext (by rw [ht]; rfl)

theorem keeps_expectIdent {name : String} (h : c.expectIdent r = .ok (name, after)) :
    Keeps c [] after := by
  obtain ⟨t, hnext, ht⟩ := Cursor.expectIdent_ok_iff.1 h
  exact keeps_next_other hnext (by rw [ht]; rfl)

theorem keeps_expectKeySeparator (h : expectKeySeparator r c = .ok after) : Keeps c [] after := by
  obtain ⟨t, hnext, ht⟩ := expectKeySeparator_ok_iff.1 h
  refine keeps_next_other hnext ?_
  cases htoken : t.token <;> simp_all [isKeySeparator, Token.isTrivia]

theorem keeps_fullSplat? (h : fullSplat? r c = some after) : Keeps c [] after := by
  obtain ⟨star, hstar, hclose⟩ := fullSplat?_eq_some_iff.1 h
  exact (keeps_eat? hstar).skip (keeps_eat? hclose)

theorem keeps_loopVariables {key : Option String} {value : String}
    (h : loopVariables r c = .ok (key, value, after)) : Keeps c [] after := by
  cases loopVariables_ok_iff.1 h with
  | value hname => exact keeps_expectIdent hname
  | keyAndValue hfirst hcomma hsecond =>
      exact (keeps_expectIdent hfirst).skip ((keeps_eat? hcomma).skip (keeps_expectIdent hsecond))

/-! ## Comments of elements -/

theorem keeps_elementDecor {decor : Decor} (h : c.elementDecor = (decor, after)) :
    Keeps c decor.leading after := by
  obtain ⟨rfl, rfl⟩ := Prod.mk.inj h
  have hsplit : commentTexts c.tokens =
      commentTexts (c.tokens.takeWhile (·.token.isTrivia)) ++
        commentTexts (c.tokens.dropWhile (·.token.isTrivia)) := by
    rw [commentTexts, commentTexts, commentTexts, ← List.filterMap_append,
      List.takeWhile_append_dropWhile]
  refine ⟨?_, List.dropWhile_suffix _⟩
  rw [Cursor.comments, Cursor.comments, hsplit, ← List.append_assoc, ← List.append_assoc]
  exact List.perm_append_comm.append_right _

theorem keeps_sameLineComment {trailing : Option String}
    (h : c.sameLineComment = (trailing, after)) : Keeps c trailing.toList after := by
  unfold Cursor.sameLineComment at h
  split at h
  · obtain ⟨rfl, rfl⟩ := Prod.mk.inj h
    exact .refl c
  · rename_i t ts htokens
    split at h
    · rename_i comment hcomment
      obtain ⟨rfl, rfl⟩ := Prod.mk.inj h
      have htail := keeps_tail htokens c.last
      rwa [hcomment] at htail
    · obtain ⟨rfl, rfl⟩ := Prod.mk.inj h
      exact .refl c

end

/-! ## Expressions -/

/-- What the functions of the expression parser keep, with some fuel: the comments of what they
read. -/
structure Keeping (fuel : Nat) : Prop where
  expression : ∀ {r c e after}, expression fuel r c = .ok (e, after) → Keeps c e.comments after
  binary : ∀ {r floor c e after},
    binary fuel r floor c = .ok (e, after) → Keeps c e.comments after
  operators : ∀ {r floor lhs c e after}, operators fuel r floor lhs c = .ok (e, after) →
    ∃ more, e.comments = lhs.comments ++ more ∧ Keeps c more after
  unary : ∀ {r c e after}, unary fuel r c = .ok (e, after) → Keeps c e.comments after
  traversal : ∀ {r c e after}, traversal fuel r c = .ok (e, after) → Keeps c e.comments after
  steps : ∀ {r c ss after}, steps fuel r c = .ok (ss, after) → Keeps c (stepComments ss) after
  primary : ∀ {r c e after}, primary fuel r c = .ok (e, after) → Keeps c e.comments after
  arguments : ∀ {r c args expand after}, arguments fuel r c = .ok (args, expand, after) →
    Keeps c (argumentComments args) after
  tupleItems : ∀ {r first c items after}, tupleItems fuel r first c = .ok (items, after) →
    Keeps c (tupleComments items) after
  objectItems : ∀ {r first c items after}, objectItems fuel r first c = .ok (items, after) →
    Keeps c (objectComments items) after
  comprehension : ∀ {r asObject c loop after},
    comprehension fuel r asObject c = .ok (loop, after) → Keeps c loop.comments after

namespace Keeping

theorem zero : Keeping 0 := by
  constructor <;> intros <;> rename_i h <;>
    first
      | simp [Parser.expression] at h
      | simp [Parser.binary] at h
      | simp [Parser.operators] at h
      | simp [Parser.unary] at h
      | simp [Parser.traversal] at h
      | simp [Parser.steps] at h
      | simp [Parser.primary] at h
      | simp [Parser.arguments] at h
      | simp [Parser.tupleItems] at h
      | simp [Parser.objectItems] at h
      | simp [Parser.comprehension] at h

variable {fuel : Nat} {r : Region} {c after : Cursor}

theorem expression_succ (k : Keeping fuel) {e : Expr}
    (h : Parser.expression (fuel + 1) r c = .ok (e, after)) : Keeps c e.comments after := by
  cases expression_ok_iff.1 h with
  | plain hbinary => exact k.binary hbinary
  | conditional hcondition hquestion htrue hcolon hfalse =>
      have hfront := (k.binary hcondition).thenSkip (keeps_eat? hquestion)
      exact (hfront.trans ((k.expression htrue).thenSkip (keeps_expect hcolon))).trans
        (k.expression hfalse)

theorem binary_succ (k : Keeping fuel) {floor : Nat} {e : Expr}
    (h : Parser.binary (fuel + 1) r floor c = .ok (e, after)) : Keeps c e.comments after := by
  obtain ⟨lhs, c₁, hlhs, h⟩ := binary_ok_iff.1 h
  obtain ⟨more, hcomments, hmore⟩ := k.operators h
  rw [hcomments]
  exact (k.unary hlhs).trans hmore

theorem operators_succ (k : Keeping fuel) {floor : Nat} {lhs e : Expr}
    (h : Parser.operators (fuel + 1) r floor lhs c = .ok (e, after)) :
    ∃ more, e.comments = lhs.comments ++ more ∧ Keeps c more after := by
  cases operators_ok_iff.1 h with
  | done => exact ⟨[], by simp, .refl c⟩
  | looser => exact ⟨[], by simp, .refl c⟩
  | goesOn hop _ hrhs hrest =>
      obtain ⟨more, hcomments, hmore⟩ := k.operators hrest
      rw [Expr.comments, List.append_assoc] at hcomments
      have hop' := keeps_nextIf? hop fun _ _ => isTrivia_of_binaryOp?
      exact ⟨_, hcomments, hop'.skip ((k.binary hrhs).trans hmore)⟩

theorem unary_succ (k : Keeping fuel) {e : Expr}
    (h : Parser.unary (fuel + 1) r c = .ok (e, after)) : Keeps c e.comments after := by
  cases unary_ok_iff.1 h with
  | plain _ htraversal => exact k.traversal htraversal
  | operator hop hoperand =>
      have hkept := k.unary hoperand
      exact (keeps_nextIf? hop fun _ _ => isTrivia_of_unaryOp?).skip hkept

theorem traversal_succ (k : Keeping fuel) {e : Expr}
    (h : Parser.traversal (fuel + 1) r c = .ok (e, after)) : Keeps c e.comments after := by
  obtain ⟨root, c₁, ss, hroot, hsteps, rfl⟩ := traversal_ok_iff.1 h
  have hboth := (k.primary hroot).trans (k.steps hsteps)
  cases ss with
  | nil => simpa [stepComments] using hboth
  | cons step ss => exact hboth

theorem stepComments_legacyIndex (indexes : List Nat) :
    stepComments (indexes.map .legacyIndex) = [] := by
  induction indexes with
  | nil => rfl
  | cons n indexes ih =>
      rw [List.map_cons, stepComments, Step.comments, ih]
      rfl

/-- The steps after a point hold no comments. -/
theorem stepComments_pointSteps {found : Located} {ss : List Step}
    (h : pointSteps found = .ok ss) : stepComments ss = [] := by
  unfold pointSteps at h
  split at h
  · obtain rfl := Except.ok.inj h
    rfl
  · obtain rfl := Except.ok.inj h
    rfl
  · split at h
    · rename_i hindexes
      obtain rfl := Except.ok.inj h
      obtain ⟨indexes, rfl⟩ := exists_of_legacySteps? hindexes
      exact stepComments_legacyIndex indexes
    · cases h
  · cases h

theorem steps_succ (k : Keeping fuel) {ss : List Step}
    (h : Parser.steps (fuel + 1) r c = .ok (ss, after)) : Keeps c (stepComments ss) after := by
  cases steps_ok_iff.1 h with
  | done => exact .refl c
  | point hdot hnext hfirst hrest =>
      have hfound := keeps_next_other hnext (isTrivia_of_pointSteps hfirst)
      rw [stepComments_append, stepComments_pointSteps hfirst]
      exact (keeps_eat? hdot).skip (hfound.skip (k.steps hrest))
  | splat _ hopen hsplat hrest =>
      have hkept := k.steps hrest
      exact (keeps_eat? hopen).skip ((keeps_fullSplat? hsplat).skip hkept)
  | index _ hopen _ hindex hclose hrest =>
      have hfront := (k.expression hindex).thenSkip (keeps_expect hclose)
      exact (keeps_eat? hopen).skip (hfront.trans (k.steps hrest))

theorem primary_succ (k : Keeping fuel) {e : Expr}
    (h : Parser.primary (fuel + 1) r c = .ok (e, after)) : Keeps c e.comments after := by
  obtain ⟨found, c₁, hnext, h⟩ := primary_ok_iff.1 h
  -- The first token of a value is no comment.
  have hfront : Keeps c [] c₁ := keeps_next_other hnext h.isTrivia_eq_false
  cases h with
  | number | quoted | heredoc | bool | null | var => exact hfront
  | call _ _ _ hopen hargs => exact hfront.skip ((keeps_expect hopen).skip (k.arguments hargs))
  | tupleFor _ _ hloop => exact hfront.skip (k.comprehension hloop)
  | tuple _ _ hitems => exact hfront.skip (k.tupleItems hitems)
  | objectFor _ _ hloop => exact hfront.skip (k.comprehension hloop)
  | object _ _ hitems => exact hfront.skip (k.objectItems hitems)
  | paren _ hinner hclose =>
      exact hfront.skip ((k.expression hinner).thenSkip (keeps_expect hclose))

theorem arguments_succ (k : Keeping fuel) {args : List Expr} {expand : Bool}
    (h : Parser.arguments (fuel + 1) r c = .ok (args, expand, after)) :
    Keeps c (argumentComments args) after := by
  have hlast {arg : Expr} {c₁ : Cursor} (harg : Parser.expression fuel r c = .ok (arg, c₁)) :
      Keeps c (argumentComments [arg]) c₁ := by
    simpa [argumentComments] using k.expression harg
  cases arguments_ok_iff.1 h with
  | done hclose => exact keeps_eat? hclose
  | spread _ harg hdots hclose =>
      exact ((hlast harg).thenSkip (keeps_eat? hdots)).thenSkip (keeps_expect hclose)
  | cons _ harg _ hcomma hrest =>
      exact ((k.expression harg).thenSkip (keeps_eat? hcomma)).trans (k.arguments hrest)
  | last _ harg _ _ hclose => exact (hlast harg).thenSkip (keeps_expect hclose)

theorem tupleItems_succ (k : Keeping fuel) {first : Bool} {items : List TupleItem}
    (h : Parser.tupleItems (fuel + 1) r first c = .ok (items, after)) :
    Keeps c (tupleComments items) after := by
  cases tupleItems_ok_iff.1 h with
  | done hdecor hclose =>
      exact ((keeps_elementDecor hdecor).thenSkip (keeps_eat? hclose)).putAside
  | cons hdecor _ hvalue hcomma htrailing hrest =>
      have hfront := (keeps_elementDecor hdecor).trans (k.expression hvalue)
      exact ((hfront.thenSkip (keeps_eat? hcomma)).trans (keeps_sameLineComment htrailing)).trans
        (k.tupleItems hrest)
  | last hdecor _ hvalue _ htrailing hbelow hclose =>
      have hfront := (keeps_elementDecor hdecor).trans (k.expression hvalue)
      have hitem := hfront.trans (keeps_sameLineComment htrailing)
      have hend := (keeps_elementDecor hbelow).putAside.skip (keeps_expect hclose)
      simpa [tupleComments, Decor.around] using hitem.thenSkip hend

theorem keeps_entryKey (k : Keeping fuel) {key : ObjectKey}
    (h : entryKey fuel r c = .ok (key, after)) : Keeps c key.comments after := by
  cases entryKey_ok_iff.1 h with
  | name _ hname => exact keeps_expectIdent hname
  | expr _ hkey => exact k.expression hkey

theorem objectItems_succ (k : Keeping fuel) {first : Bool} {items : List ObjectItem}
    (h : Parser.objectItems (fuel + 1) r first c = .ok (items, after)) :
    Keeps c (objectComments items) after := by
  cases objectItems_ok_iff.1 h with
  | done hdecor hclose =>
      exact ((keeps_elementDecor hdecor).thenSkip (keeps_eat? hclose)).putAside
  | cons hdecor _ hkey hseparator hvalue htrailing hrest =>
      have hpair := ((k.keeps_entryKey hkey).thenSkip (keeps_expectKeySeparator hseparator)).trans
        ((k.expression hvalue).thenSkip (keeps_optional r .comma _))
      exact (((keeps_elementDecor hdecor).trans hpair).trans (keeps_sameLineComment htrailing)).trans
        (k.objectItems hrest)

theorem keeps_loopKey (k : Keeping fuel) {asObject : Bool} {key : Option Expr}
    (h : loopKey fuel r asObject c = .ok (key, after)) : Keeps c (optionalComments key) after := by
  cases loopKey_ok_iff.1 h with
  | none => exact .refl c
  | some _ hkey harrow => exact (k.expression hkey).thenSkip (keeps_expect harrow)

theorem keeps_loopDots {asObject grouping : Bool} (h : loopDots r asObject c = (grouping, after)) :
    Keeps c [] after := by
  obtain ⟨-, rfl⟩ := Prod.ext_iff.1 h
  cases asObject with
  | false => exact .refl c
  | true => exact keeps_optional r .ellipsis c

theorem keeps_loopFilter (k : Keeping fuel) {condition : Option Expr}
    (h : loopFilter fuel r c = .ok (condition, after)) :
    Keeps c (optionalComments condition) after := by
  cases loopFilter_ok_iff.1 h with
  | none => exact .refl c
  | some hword hcondition => 
      exact (keeps_nextIf? hword fun _ _ => isTrivia_of_accepted rfl).skip (k.expression hcondition)

theorem comprehension_succ (k : Keeping fuel) {asObject : Bool} {loop : Comprehension}
    (h : Parser.comprehension (fuel + 1) r asObject c = .ok (loop, after)) :
    Keeps c loop.comments after := by
  cases comprehension_ok_iff.1 h with
  | parts hfor hvariables hin hcollection hcolon hkey hvalue hdots hcondition hclose =>
      have hhead := (keeps_expectKeyword hfor).skip
        ((keeps_loopVariables hvariables).skip (keeps_expectKeyword hin))
      have hcollectionKept := (k.expression hcollection).thenSkip (keeps_expect hcolon)
      have hvalueKept := (k.expression hvalue).thenSkip (keeps_loopDots hdots)
      have hconditionKept := (keeps_loopFilter k hcondition).thenSkip (keeps_expect hclose)
      exact hhead.skip (((hcollectionKept.trans (keeps_loopKey k hkey)).trans hvalueKept).trans
        hconditionKept)

theorem succ (k : Keeping fuel) : Keeping (fuel + 1) where
  expression := expression_succ k
  binary := binary_succ k
  operators := operators_succ k
  unary := unary_succ k
  traversal := traversal_succ k
  steps := steps_succ k
  primary := primary_succ k
  arguments := arguments_succ k
  tupleItems := tupleItems_succ k
  objectItems := objectItems_succ k
  comprehension := comprehension_succ k

end Keeping

theorem keeping (fuel : Nat) : Keeping fuel := by
  induction fuel with
  | zero => exact .zero
  | succ fuel ih => exact ih.succ

/-! ## Bodies -/

theorem labels_comment {fuel : Nat} {r : Region} {type : String} {tokens rest : List Located}
    {ls : List Label} (h : labels fuel r type tokens = .ok (ls, rest)) :
    commentTexts rest = commentTexts tokens ∧ rest <:+ tokens := by
  -- A label stands before the others and is no comment.
  have hbehind {t : Located} {ts rest : List Located} (ht : t.token.comment? = none)
      (hrest : commentTexts rest = commentTexts ts ∧ rest <:+ ts) :
      commentTexts rest = commentTexts (t :: ts) ∧ rest <:+ t :: ts := by
    refine ⟨?_, hrest.2.trans (List.suffix_cons t ts)⟩
    rw [hrest.1]
    simp [commentTexts, ht]
  rw [labels_ok_iff] at h
  induction h with
  | done => exact ⟨rfl, List.suffix_rfl⟩
  | quoted htoken _ _ _ ih => exact hbehind (by rw [htoken]; rfl) ih
  | bare htoken _ ih => exact hbehind (by rw [htoken]; rfl) ih

theorem comments_withDecor {item : Item} (h : item.decor = {}) (d : Decor) :
    (item.withDecor d).comments = d.around item.comments := by
  cases item with
  | attr a =>
      obtain ⟨key, value, decor, span⟩ := a
      obtain rfl : decor = {} := h
      simp [Item.withDecor, Item.comments, Decor.around]
  | block b =>
      obtain ⟨type, ls, content, decor, span⟩ := b
      obtain rfl : decor = {} := h
      simp [Item.withDecor, Item.comments, Block.comments, Decor.around]

/-- The cursor as it was before the comments of the gap were read. -/
def Cursor.before (c : Cursor) (gap : Gap) : Cursor :=
  { c with stray := gap.comments ++ c.stray }

theorem comments_before (c : Cursor) (gap : Gap) :
    (c.before gap).comments = gap.comments ++ c.comments :=
  List.append_assoc ..

/-- What the functions for bodies keep, with some fuel. The gap before an item holds comments that
have been read and are not yet placed. -/
structure KeepingItems (fuel : Nat) : Prop where
  body : ∀ {r inBlock first gap c b after}, body fuel r inBlock first gap c = .ok (b, after) →
    Keeps (c.before gap) b.comments after
  item : ∀ {r name span c it after}, item fuel r name span c = .ok (it, after) →
    it.decor = {} ∧ Keeps c it.comments after

namespace KeepingItems

variable {fuel : Nat} {r : Region} {c after : Cursor}

/-- Reading on from the gap keeps what is in it. -/
theorem keeps_before (gap : Gap) {kept : List String} (h : Keeps c kept after) :
    Keeps (c.before gap) (gap.comments ++ kept) after := by
  refine ⟨?_, h.suffix⟩
  rw [comments_before, List.append_assoc]
  exact h.perm.append_left _

theorem body_succ (k : KeepingItems fuel) {inBlock first : Bool} {gap : Gap} {b : Body}
    (h : Parser.body (fuel + 1) r inBlock first gap c = .ok (b, after)) :
    Keeps (c.before gap) b.comments after := by
  -- A newline or a comment moves to the gap.
  have hgap {t : Located} {ts : List Located} {gap' : Gap} (htokens : c.tokens = t :: ts)
      (hcomments : gap'.comments = gap.comments ++ t.token.comment?.toList)
      (h : Parser.body fuel r inBlock first gap'
        { c with tokens := ts, last := t.span.stop } = .ok (b, after)) :
      Keeps (c.before gap) b.comments after := by
    have hfront := keeps_tail htokens t.span.stop
    obtain ⟨hperm, hsuffix⟩ := k.body h
    refine ⟨?_, hsuffix.trans hfront.suffix⟩
    rw [comments_before, hcomments, List.append_assoc] at hperm
    rw [comments_before]
    exact hperm.trans (hfront.perm.append_left _)
  cases body_ok_iff.1 h with
  | ended | closed =>
      simpa [Body.comments, itemComments] using keeps_before gap (.refl c)
  | newline htokens htoken hrest =>
      exact hgap htokens (by simp [htoken, Gap.addNewline]) hrest
  | comment htokens htoken hrest =>
      exact hgap htokens (by rw [htoken]; rfl) hrest
  | item htokens htoken hitem htrailing _ hrest =>
      obtain ⟨hdecor, hkept⟩ := k.item hitem
      have hread := (keeps_tail htokens _).trans hkept
      rw [htoken] at hread
      have hplaced := (hread.trans (keeps_sameLineComment htrailing)).collect
      have hall := keeps_before gap (hplaced.trans (k.body hrest))
      simpa [Body.comments_cons, comments_withDecor hdecor, Decor.around, Token.comment?] using hall

theorem item_succ (k : KeepingItems fuel) {name : String} {span : Span} {it : Item}
    (h : Parser.item (fuel + 1) r name span c = .ok (it, after)) :
    it.decor = {} ∧ Keeps c it.comments after := by
  cases item_ok_iff.1 h with
  | attr hequals hvalue =>
      refine ⟨rfl, ?_⟩
      simpa [Item.comments, Decor.around] using
        (keeps_eat? hequals).skip ((keeping fuel).expression hvalue)
  | @block ls ts content c₁ _ _ _ _ _ hlabels hopen hcontent hclose =>
      refine ⟨rfl, ?_⟩
      obtain ⟨hcomments, hsuffix⟩ := labels_comment hlabels
      have hheader : Keeps c [] { c with tokens := ts } := by
        refine ⟨?_, hsuffix⟩
        rw [Cursor.comments, Cursor.comments, hcomments]
        exact List.Perm.refl _
      have hbody : Keeps c₁ content.comments _ := k.body hcontent
      simpa [Item.comments, Block.comments, Decor.around] using
        hheader.skip ((keeps_expect hopen).skip (hbody.thenSkip (keeps_expect hclose)))

theorem zero : KeepingItems 0 where
  body h := by simp [Parser.body] at h
  item h := by simp [Parser.item] at h

end KeepingItems

theorem keepingItems (fuel : Nat) : KeepingItems fuel := by
  induction fuel with
  | zero => exact .zero
  | succ fuel ih => exact ⟨ih.body_succ, ih.item_succ⟩

/-- A body that is not in a block ends with the input, with no comments put aside. -/
theorem body_end {fuel : Nat} {r : Region} {first : Bool} {gap : Gap} {c after : Cursor} {b : Body}
    (h : body fuel r false first gap c = .ok (b, after)) (hstray : c.stray = []) :
    after.comments = [] := by
  induction fuel generalizing first gap c b with
  | zero => simp [body] at h
  | succ fuel ih =>
      cases body_ok_iff.1 h with
      | ended htokens => simp [Cursor.comments, hstray, htokens, commentTexts]
      | closed _ hblock => cases hblock
      | newline _ _ hrest => exact ih hrest hstray
      | comment _ _ hrest => exact ih hrest hstray
      | item _ _ _ _ _ hrest => exact ih hrest rfl

end Parser

/-- Every comment of a source text is in its body exactly once. -/
theorem parseBody_keeps_comments {source : String} {b : Body} (h : parseBody source = .ok b) :
    ∃ tokens, tokenize source = .ok tokens ∧ b.comments.Perm (commentTexts tokens) := by
  obtain ⟨tokens, after, htokens, hbody⟩ := parseBody_ok_iff.1 h
  refine ⟨tokens, htokens, ?_⟩
  have hkept := ((Parser.keepingItems _).body hbody).perm
  rw [Parser.comments_before, Parser.body_end hbody rfl] at hkept
  simpa [Parser.Cursor.comments, Parser.Cursor.ofTokens] using hkept

/-- Comments before, in and after an attribute, in a call and at the end of a body. -/
theorem parseBody_keeps_comments_everywhere :
    let source := "# a\nb \x7b\n  c = [ // d\n    f(1, /* e */ 2), # g\n    # h\n  ] # i\n  # j\n\x7d\n# k\n"
    ∃ b, parseBody source = .ok b ∧
      ∃ tokens, tokenize source = .ok tokens ∧ b.comments.Perm (commentTexts tokens) := by
  intro source
  have hparse : (parseBody source).toOption.isSome = true := by decide +kernel
  have hbody := eq_ok_of_isSome hparse
  exact ⟨_, hbody, parseBody_keeps_comments hbody⟩

end Hcl
end ProviderMigration
