import ProviderMigration.Hcl.Parser.Expr
import ProviderMigration.Proofs.Data.Except
import ProviderMigration.Proofs.Hcl.Respelling.Tree

/-!
# Reading side by side

Where a word is respelled, the parser stands before a token of the same kind, and before the same
symbol or keyword. So each operation of the cursor does the same on both sides, and leaves the two
cursors alike again (`CursorRespelt`).

* `NameRespelt.eq_iff`, `TokenRespelt.eq_symbol_iff`, … — no decision is taken differently;
* `next_respelt`, `nextIf?_respelt`, … — one operation of the cursor each.
-/

namespace ProviderMigration
namespace Hcl
namespace Respelling

open Hcl.Parser (Cursor Region)

variable {s : Respelling}

/-! ## Tokens -/

/-- A keyword has no underscore, as opposed to both words. -/
theorem NameRespelt.eq_iff {name name' keyword : String} (h : s.NameRespelt name name')
    (hkeyword : '_' ∉ keyword.toList) : name' = keyword ↔ name = keyword := by
  constructor
  · rintro rfl
    rcases h.new with heq | hwithin
    · exact heq.symm
    · exact absurd (hwithin.subset s.underscore_new) hkeyword
  · rintro rfl
    rcases h.keeps with hstands | heq
    · exact absurd (hstands.isInfix.subset s.underscore_old) hkeyword
    · exact String.toList_injective heq

namespace TokenRespelt

variable {t t' : Token}

theorem eq_symbol_iff (h : s.TokenRespelt t t') (x : Symbol) : t' = .symbol x ↔ t = .symbol x := by
  cases h <;> simp

theorem eq_newline_iff (h : s.TokenRespelt t t') : t' = .newline ↔ t = .newline := by
  cases h <;> simp

theorem eq_ident_iff {keyword : String} (h : s.TokenRespelt t t')
    (hkeyword : '_' ∉ keyword.toList) : t' = .ident keyword ↔ t = .ident keyword := by
  cases h with
  | ident hname => simpa using hname.eq_iff hkeyword
  | _ => simp

theorem isTrivia_eq (h : s.TokenRespelt t t') : t'.isTrivia = t.isTrivia := by
  cases h <;> rfl

theorem comment?_rel (h : s.TokenRespelt t t') : Option.Rel s.KeepsText t.comment? t'.comment? := by
  cases h with
  | lineComment htext => exact .some htext
  | blockComment htext => exact .some htext
  | _ => exact .none

theorem isIdent_eq : s.TokenRespelt t t' → (t' matches .ident _) = (t matches .ident _) := by
  rintro (_ | _ | _ | _ | _ | _ | _ | _) <;> rfl

theorem binaryOp?_eq (h : s.TokenRespelt t t') : Parser.binaryOp? t' = Parser.binaryOp? t := by
  cases h <;> rfl

theorem unaryOp?_eq (h : s.TokenRespelt t t') : Parser.unaryOp? t' = Parser.unaryOp? t := by
  cases h <;> rfl

theorem isKeySeparator_eq (h : s.TokenRespelt t t') :
    Parser.isKeySeparator t' = Parser.isKeySeparator t := by
  rw [Parser.isKeySeparator, Parser.isKeySeparator, Bool.eq_iff_iff]
  simp only [Bool.or_eq_true, beq_iff_eq, h.eq_symbol_iff]

end TokenRespelt

def LocatedRespelt (s : Respelling) (t t' : Located) : Prop :=
  s.TokenRespelt t.token t'.token

/-! ## Cursors -/

/-- The tokens to be read, and the comments passed over. -/
structure CursorRespelt (s : Respelling) (c c' : Cursor) : Prop where
  tokens : List.Forall₂ s.LocatedRespelt c.tokens c'.tokens
  stray : List.Forall₂ s.KeepsText c.stray c'.stray

/-- What is read, and where the parser stands after it. -/
def WithCursor (s : Respelling) {α β : Type} (R : α → β → Prop) (x : α × Cursor) (y : β × Cursor) :
    Prop :=
  R x.1 y.1 ∧ s.CursorRespelt x.2 y.2

/-! ## Single tokens -/

theorem skipTrivia_respelt {ts ts' : List Located} (h : List.Forall₂ s.LocatedRespelt ts ts') :
    List.Forall₂ s.KeepsText (Cursor.skipTrivia ts).1 (Cursor.skipTrivia ts').1 ∧
      List.Forall₂ s.LocatedRespelt (Cursor.skipTrivia ts).2 (Cursor.skipTrivia ts').2 := by
  induction h with
  | nil => exact ⟨.nil, .nil⟩
  | cons ht hrest ih =>
      rw [Cursor.skipTrivia, Cursor.skipTrivia, ht.isTrivia_eq]
      split
      · exact ⟨List.rel_append (forall₂_toList ht.comment?_rel) ih.1, ih.2⟩
      · exact ⟨.nil, .cons ht hrest⟩

section
variable {c c' : Cursor} {r r' : Region}

theorem CursorRespelt.withTokens {ts ts' : List Located} (h : s.CursorRespelt c c')
    (hts : List.Forall₂ s.LocatedRespelt ts ts') (last last' : Nat) :
    s.CursorRespelt { c with tokens := ts, last := last }
      { c' with tokens := ts', last := last' } :=
  ⟨hts, h.stray⟩

theorem CursorRespelt.addStray {comments comments' : List String} (h : s.CursorRespelt c c')
    (hcomments : List.Forall₂ s.KeepsText comments comments') :
    s.CursorRespelt (c.addStray comments) (c'.addStray comments') :=
  ⟨h.tokens, List.rel_append h.stray hcomments⟩

theorem settle_respelt (h : s.CursorRespelt c c') (hr : r'.nested = r.nested) :
    s.CursorRespelt (c.settle r) (c'.settle r') := by
  obtain ⟨hcomments, htokens⟩ := skipTrivia_respelt h.tokens
  rw [Cursor.settle, Cursor.settle, hr]
  split
  · exact ⟨htokens, List.rel_append h.stray hcomments⟩
  · exact h

theorem head?_respelt {ts ts' : List Located} (h : List.Forall₂ s.LocatedRespelt ts ts') :
    Option.Rel s.LocatedRespelt ts.head? ts'.head? := by
  cases h with
  | nil => exact .none
  | cons ht _ => exact .some ht

theorem tail_respelt {ts ts' : List Located} (h : List.Forall₂ s.LocatedRespelt ts ts') :
    List.Forall₂ s.LocatedRespelt ts.tail ts'.tail := by
  cases h with
  | nil => exact .nil
  | cons _ hrest => exact hrest

theorem peek?_respelt (h : s.CursorRespelt c c') (hr : r'.nested = r.nested) :
    Option.Rel s.LocatedRespelt (c.peek? r) (c'.peek? r') :=
  head?_respelt (settle_respelt h hr).tokens

theorem peekSecond?_respelt (h : s.CursorRespelt c c') (hr : r'.nested = r.nested) :
    Option.Rel s.LocatedRespelt (c.peekSecond? r) (c'.peekSecond? r') := by
  refine peek?_respelt ⟨?_, h.stray⟩ hr
  exact tail_respelt (settle_respelt h hr).tokens

theorem next_respelt (h : s.CursorRespelt c c') (hr : r'.nested = r.nested) :
    Agree (s.WithCursor s.LocatedRespelt) (c.next r) (c'.next r') := by
  have hsettled := settle_respelt h hr
  have htokens := hsettled.tokens
  rw [Cursor.next, Cursor.next]
  cases hts : (c.settle r).tokens with
  | nil => exact .error_left _ _
  | cons t ts =>
      cases hts' : (c'.settle r').tokens with
      | nil => exact .error_right _ _
      | cons t' ts' =>
          rw [hts, hts', List.forall₂_cons] at htokens
          exact .ok ⟨htokens.1, hsettled.withTokens htokens.2 ..⟩

theorem nextIf?_respelt {α : Type} {f : Token → Option α}
    (hf : ∀ t t', s.TokenRespelt t t' → f t' = f t) (h : s.CursorRespelt c c')
    (hr : r'.nested = r.nested) :
    Option.Rel (s.WithCursor Eq) (c.nextIf? r f) (c'.nextIf? r' f) := by
  have hsettled := settle_respelt h hr
  have htokens := hsettled.tokens
  rw [Cursor.nextIf?, Cursor.nextIf?]
  cases hts : (c.settle r).tokens with
  | nil =>
      rw [hts, List.forall₂_nil_left_iff] at htokens
      rw [htokens]
      exact .none
  | cons t ts =>
      rw [hts, List.forall₂_cons_left_iff] at htokens
      obtain ⟨t', ts', ht, hrest, hts'⟩ := htokens
      rw [hts']
      dsimp only
      rw [hf _ _ ht]
      cases f t.token with
      | none => exact .none
      | some a => exact .some ⟨rfl, hsettled.withTokens hrest ..⟩

theorem eat?_respelt (h : s.CursorRespelt c c') (hr : r'.nested = r.nested) (x : Symbol) :
    Option.Rel s.CursorRespelt (c.eat? r x) (c'.eat? r' x) := by
  have hnext := nextIf?_respelt (s := s)
    (f := fun token => if token = .symbol x then some () else none)
    (fun t t' ht => by simp only [ht.eq_symbol_iff]) h hr
  rw [Cursor.eat?, Cursor.eat?]
  rcases optionRel_cases hnext with ⟨hleft, hright⟩ | ⟨a, b, hleft, hright, hab⟩
  · rw [hleft, hright]
    exact .none
  · rw [hleft, hright]
    exact .some hab.2

theorem expect_respelt (h : s.CursorRespelt c c') (hr : r'.nested = r.nested) (x : Symbol) :
    Agree (s.WithCursor fun _ _ => True) (c.expect r x) (c'.expect r' x) := by
  refine (next_respelt h hr).bind ?_
  rintro ⟨found, d⟩ ⟨found', d'⟩ ⟨hfound, hd⟩
  dsimp only at hfound ⊢
  simp only [TokenRespelt.eq_symbol_iff hfound]
  split
  · exact .ok ⟨trivial, hd⟩
  · exact .error_left _ _

theorem expectKeyword_respelt {keyword : String} (h : s.CursorRespelt c c')
    (hr : r'.nested = r.nested) (hkeyword : '_' ∉ keyword.toList) :
    Agree s.CursorRespelt (c.expectKeyword r keyword) (c'.expectKeyword r' keyword) := by
  refine (next_respelt h hr).bind ?_
  rintro ⟨found, d⟩ ⟨found', d'⟩ ⟨hfound, hd⟩
  dsimp only at hfound ⊢
  simp only [TokenRespelt.eq_ident_iff hfound hkeyword]
  split
  · exact .ok hd
  · exact .error_left _ _

theorem expectIdent_respelt (h : s.CursorRespelt c c') (hr : r'.nested = r.nested) :
    Agree (s.WithCursor s.NameRespelt) (c.expectIdent r) (c'.expectIdent r') := by
  refine (next_respelt h hr).bind ?_
  rintro ⟨⟨token, span⟩, d⟩ ⟨⟨token', span'⟩, d'⟩ ⟨hfound, hd⟩
  cases hfound with
  | ident hname => exact .ok ⟨hname, hd⟩
  | _ => exact .error_left _ _

theorem expectKeySeparator_respelt (h : s.CursorRespelt c c') (hr : r'.nested = r.nested) :
    Agree s.CursorRespelt (Parser.expectKeySeparator r c) (Parser.expectKeySeparator r' c') := by
  refine (next_respelt h hr).bind ?_
  rintro ⟨found, d⟩ ⟨found', d'⟩ ⟨hfound, hd⟩
  dsimp only at hfound ⊢
  rw [TokenRespelt.isKeySeparator_eq hfound]
  split
  · exact .ok hd
  · exact .error_left _ _

/-! ## Several tokens -/

theorem fullSplat?_respelt (h : s.CursorRespelt c c') (hr : r'.nested = r.nested) :
    Option.Rel s.CursorRespelt (Parser.fullSplat? r c) (Parser.fullSplat? r' c') := by
  rw [Parser.fullSplat?, Parser.fullSplat?]
  rcases optionRel_cases (eat?_respelt h hr .star) with
    ⟨hleft, hright⟩ | ⟨d, d', hleft, hright, hd⟩
  · rw [hleft, hright]
    exact .none
  · rw [hleft, hright]
    exact eat?_respelt hd hr .rightBracket

/-- A decision on the next token. -/
theorem any_respelt {p q : Located → Bool} {t t' : Option Located}
    (h : Option.Rel s.LocatedRespelt t t') (hp : ∀ a b, s.LocatedRespelt a b → q b = p a) :
    t'.any q = t.any p := by
  cases h with
  | none => rfl
  | some ht => exact hp _ _ ht

theorem isIdent_respelt {t t' : Option Located} (h : Option.Rel s.LocatedRespelt t t') :
    (t'.any fun t => t.token matches .ident _) = t.any fun t => t.token matches .ident _ :=
  any_respelt h fun _ _ ht => TokenRespelt.isIdent_eq ht

theorem atComprehension_respelt (h : s.CursorRespelt c c') (hr : r'.nested = r.nested) :
    Parser.atComprehension r' c' = Parser.atComprehension r c := by
  have hfor : (c'.peek? r').any (·.token == .ident "for") =
      (c.peek? r).any (·.token == .ident "for") := by
    refine any_respelt (peek?_respelt h hr) fun t t' ht => ?_
    rw [Bool.eq_iff_iff, beq_iff_eq, beq_iff_eq, TokenRespelt.eq_ident_iff ht (by decide)]
  exact congrArg₂ and hfor (isIdent_respelt (peekSecond?_respelt h hr))

theorem atBareKey_respelt (h : s.CursorRespelt c c') (hr : r'.nested = r.nested) :
    Parser.atBareKey r' c' = Parser.atBareKey r c :=
  congrArg₂ and (isIdent_respelt (peek?_respelt h hr))
    (any_respelt (peekSecond?_respelt h hr) fun _ _ ht => TokenRespelt.isKeySeparator_eq ht)

/-- The variables of a `for`. -/
theorem loopVariables_respelt (h : s.CursorRespelt c c') (hr : r'.nested = r.nested) :
    Agree (fun x y => Option.Rel s.KeepsText x.1 y.1 ∧ s.WithCursor s.KeepsText x.2 y.2)
      (Parser.loopVariables r c) (Parser.loopVariables r' c') := by
  refine (expectIdent_respelt h hr).bind ?_
  rintro ⟨first, d⟩ ⟨first', d'⟩ ⟨hfirst, hd⟩
  dsimp only at hfirst hd ⊢
  rcases optionRel_cases (eat?_respelt hd hr .comma) with
    ⟨hleft, hright⟩ | ⟨e, e', hleft, hright, he⟩
  · rw [hleft, hright]
    exact .ok ⟨.none, hfirst.keeps, hd⟩
  · rw [hleft, hright]
    refine (expectIdent_respelt he hr).bind ?_
    rintro ⟨second, f⟩ ⟨second', f'⟩ ⟨hsecond, hf⟩
    exact .ok ⟨.some hfirst.keeps, hsecond.keeps, hf⟩

/-! ## Comments of elements -/

theorem elementDecor_respelt (h : s.CursorRespelt c c') :
    s.WithCursor s.DecorRespelt c.elementDecor c'.elementDecor := by
  have htrivia : ∀ t t' : Located, s.LocatedRespelt t t' → t'.token.isTrivia = t.token.isTrivia :=
    fun _ _ ht => TokenRespelt.isTrivia_eq ht
  have hlines := forall₂_takeWhile h.tokens htrivia
  have hnewlines := forall₂_takeWhile (p := (·.token == .newline)) (q := (·.token == .newline))
    hlines fun t t' ht => by
      rw [Bool.eq_iff_iff, beq_iff_eq, beq_iff_eq, TokenRespelt.eq_newline_iff ht]
  have hcomments : List.Forall₂ s.KeepsText
      ((c.tokens.takeWhile (·.token.isTrivia)).filterMap (·.token.comment?))
      ((c'.tokens.takeWhile (·.token.isTrivia)).filterMap (·.token.comment?)) :=
    List.rel_filterMap (fun _ _ ht => TokenRespelt.comment?_rel ht) hlines
  refine ⟨⟨hcomments, .none, ?_⟩, forall₂_dropWhile h.tokens htrivia, h.stray⟩
  rw [Cursor.elementDecor, Cursor.elementDecor]
  dsimp only
  rw [hnewlines.length_eq]

theorem sameLineComment_respelt (h : s.CursorRespelt c c') :
    s.WithCursor (Option.Rel s.KeepsText) c.sameLineComment c'.sameLineComment := by
  have htokens := h.tokens
  rw [Cursor.sameLineComment, Cursor.sameLineComment]
  cases hts : c.tokens with
  | nil =>
      rw [hts, List.forall₂_nil_left_iff] at htokens
      rw [htokens]
      exact ⟨.none, h⟩
  | cons t ts =>
      rw [hts, List.forall₂_cons_left_iff] at htokens
      obtain ⟨t', ts', ht, hrest, hts'⟩ := htokens
      rw [hts']
      dsimp only
      rcases optionRel_cases (TokenRespelt.comment?_rel ht) with
        ⟨hleft, hright⟩ | ⟨text, text', hleft, hright, htext⟩
      · rw [hleft, hright]
        exact ⟨.none, h⟩
      · rw [hleft, hright]
        exact ⟨.some htext, hrest, h.stray⟩

end

end Respelling

end Hcl
end ProviderMigration
