import ProviderMigration.Migration.Config
import ProviderMigration.Proofs.Hcl.Body
import ProviderMigration.Proofs.Hcl.Parser.Layout
import ProviderMigration.Proofs.Hcl.Token.Place

/-!
# Spans mirror the layout of the source

The items of a body stand in the source one after the other, with newlines and comments between
them. An attribute is its key, an equals sign and the tokens of its value; a block is its type, its
labels and its body between braces.

* `LaidOut` — the items of a body and the tokens that they were read from;
* `laysOut` — a body that was read is laid out so, by induction on the fuel;
* `parseBody_spans` — the spans of all items of a file, and the lines on which its blocks start.
-/

namespace ProviderMigration
namespace Hcl

open Text (byteLength)

/-! ## Layout -/

/-- Newlines and comments. -/
def IsTrivia (tokens : List Located) : Prop :=
  ∀ t ∈ tokens, t.token.isTrivia = true

/-- The parser reads the tokens as the expression, and stops behind them. -/
def ReadAs (e : Expr) (tokens : List Located) : Prop :=
  ∃ fuel limit c after, c.tokens = tokens ++ after.tokens ∧
    Parser.expression fuel ⟨false, limit⟩ c = .ok (e, after)

mutual

/-- The tokens of a body: those of its items, with newlines and comments around them. -/
inductive LaidOut : List Item → List Located → Prop where
  | nil {gap : List Located} (hgap : IsTrivia gap) : LaidOut [] gap
  | cons {gap own rest : List Located} {item : Item} {items : List Item} (hgap : IsTrivia gap)
      (hitem : LiesOn item own) (hrest : LaidOut items rest) :
      LaidOut (item :: items) (gap ++ (own ++ rest))

/-- The tokens of an item. Its span is from the first of them to the last. -/
inductive LiesOn : Item → List Located → Prop where
  | attr {value : List Located} {key equals last : Located} {a : Attribute}
      (hkey : key.token = .ident a.key) (hequals : equals.token = .symbol .equals)
      (hvalue : ReadAs a.value (value ++ [last])) (hlast : last.token.isTrivia = false)
      (hspan : a.span = ⟨key.span.start, last.span.stop⟩) :
      LiesOn (.attr a) (key :: equals :: (value ++ [last]))
  | block {header content : List Located} {type opener closer : Located} {b : Block}
      (htype : type.token = .ident b.type) (hheader : header.length = b.labels.length)
      (hopener : opener.token = .symbol .leftBrace) (hcontent : LaidOut b.body.items content)
      (hcloser : closer.token = .symbol .rightBrace)
      (hspan : b.span = type.span.merge closer.span) :
      LiesOn (.block b) (type :: (header ++ opener :: (content ++ [closer])))

end

/-- Newlines and comments before a body may stand before its first item. -/
theorem LaidOut.behindTrivia {items : List Item} {tokens front : List Located}
    (h : LaidOut items tokens) (hfront : IsTrivia front) : LaidOut items (front ++ tokens) := by
  cases h with
  | nil hgap => exact .nil (List.forall_mem_append.2 ⟨hfront, hgap⟩)
  | cons hgap hitem hrest =>
      rw [← List.append_assoc]
      exact .cons (List.forall_mem_append.2 ⟨hfront, hgap⟩) hitem hrest

namespace Parser

/-! ## Reading -/

section
variable {c after : Cursor} {limit : Nat} {s : Symbol}

/-- Outside brackets the next token is read as it stands. -/
theorem tokens_of_next {t : Located} (h : c.next ⟨false, limit⟩ = .ok (t, after)) :
    c.tokens = t :: after.tokens := by
  obtain ⟨ts, htokens, rfl⟩ := Cursor.next_ok_iff.1 h
  exact htokens

theorem exists_of_eat? (h : c.eat? ⟨false, limit⟩ s = some after) :
    ∃ t, c.tokens = t :: after.tokens ∧ t.token = .symbol s := by
  obtain ⟨t, hnext, ht⟩ := Cursor.eat?_eq_some_iff.1 h
  exact ⟨t, tokens_of_next hnext, ht⟩

theorem exists_of_expect {span : Span} (h : c.expect ⟨false, limit⟩ s = .ok (span, after)) :
    ∃ t, c.tokens = t :: after.tokens ∧ t.token = .symbol s ∧ t.span = span := by
  obtain ⟨t, hnext, ht, hspan⟩ := Cursor.expect_ok_iff.1 h
  exact ⟨t, tokens_of_next hnext, ht, hspan⟩

/-- Every label is one token. -/
theorem exists_of_labels {fuel : Nat} {r : Region} {tokens rest : List Located} {ls : List Label}
    (h : LabelsRule fuel r tokens ls rest) :
    ∃ header, tokens = header ++ rest ∧ header.length = ls.length := by
  induction h with
  | done => exact ⟨[], rfl, rfl⟩
  | @quoted t _ _ _ _ _ _ _ _ _ _ ih =>
      obtain ⟨header, rfl, hlength⟩ := ih
      exact ⟨t :: header, rfl, congrArg (· + 1) hlength⟩
  | @bare t _ _ _ _ _ _ ih =>
      obtain ⟨header, rfl, hlength⟩ := ih
      exact ⟨t :: header, rfl, congrArg (· + 1) hlength⟩

/-- The comment after an item stands before what comes next. -/
theorem exists_of_sameLineComment {trailing : Option String}
    (h : c.sameLineComment = (trailing, after)) :
    ∃ note, c.tokens = note ++ after.tokens ∧ IsTrivia note := by
  unfold Cursor.sameLineComment at h
  split at h
  · obtain ⟨-, rfl⟩ := Prod.mk.inj h
    exact ⟨[], rfl, List.forall_mem_nil _⟩
  · rename_i t ts htokens
    split at h
    · rename_i comment hcomment
      obtain ⟨-, rfl⟩ := Prod.mk.inj h
      exact ⟨[t], htokens, List.forall_mem_singleton.2 (isTrivia_of_comment? hcomment)⟩
    · obtain ⟨-, rfl⟩ := Prod.mk.inj h
      exact ⟨[], rfl, List.forall_mem_nil _⟩

end

/-- What the functions for bodies read, with some fuel. An item goes on from the identifier that
begins it, which has been read already. -/
structure LaysOut (fuel : Nat) : Prop where
  body : ∀ {limit inBlock first gap c b after},
    body fuel ⟨false, limit⟩ inBlock first gap c = .ok (b, after) →
      ∃ read, c.tokens = read ++ after.tokens ∧ LaidOut b.items read
  item : ∀ {limit name c it after} {start : Located}, start.token = .ident name →
    item fuel ⟨false, limit⟩ name start.span c = .ok (it, after) →
      ∃ read, c.tokens = read ++ after.tokens ∧ ∀ d, LiesOn (it.withDecor d) (start :: read)

namespace LaysOut

variable {fuel limit : Nat} {c after : Cursor}

theorem zero : LaysOut 0 where
  body h := by simp [Parser.body] at h
  item _ h := by simp [Parser.item] at h

theorem body_succ (k : LaysOut fuel) {inBlock first : Bool} {gap : Gap} {b : Body}
    (h : Parser.body (fuel + 1) ⟨false, limit⟩ inBlock first gap c = .ok (b, after)) :
    ∃ read, c.tokens = read ++ after.tokens ∧ LaidOut b.items read := by
  -- A newline or comment stands before the rest of the body.
  have htrivia {t : Located} {ts : List Located} {gap' : Gap} (htokens : c.tokens = t :: ts)
      (ht : t.token.isTrivia = true)
      (hrest : Parser.body fuel ⟨false, limit⟩ inBlock first gap'
        { c with tokens := ts, last := t.span.stop } = .ok (b, after)) :
      ∃ read, c.tokens = read ++ after.tokens ∧ LaidOut b.items read := by
    obtain ⟨read, hread, hlaid⟩ := k.body hrest
    obtain rfl : ts = read ++ after.tokens := hread
    exact ⟨t :: read, htokens, hlaid.behindTrivia (List.forall_mem_singleton.2 ht)⟩
  cases body_ok_iff.1 h with
  | ended => exact ⟨[], rfl, .nil (List.forall_mem_nil _)⟩
  | closed => exact ⟨[], rfl, .nil (List.forall_mem_nil _)⟩
  | newline htokens htoken hrest => exact htrivia htokens (by rw [htoken]; rfl) hrest
  | comment htokens htoken hrest => exact htrivia htokens (isTrivia_of_comment? htoken) hrest
  | @item t ts _ _ _ _ c₁ c₂ _ htokens htoken hitem htrailing _ hrest =>
      obtain ⟨read, hread, hlies⟩ := k.item htoken hitem
      obtain ⟨note, hnote, hnoteTrivia⟩ := exists_of_sameLineComment htrailing
      obtain ⟨more, hmore, hmoreLaid⟩ := k.body hrest
      obtain rfl : ts = read ++ c₁.tokens := hread
      have hmore' : c₂.tokens = more ++ after.tokens := hmore
      refine ⟨[] ++ ((t :: read) ++ (note ++ more)), ?_,
        .cons (List.forall_mem_nil _) (hlies _) (hmoreLaid.behindTrivia hnoteTrivia)⟩
      rw [htokens, hnote, hmore']
      simp only [List.nil_append, List.cons_append, List.append_assoc]

theorem item_succ (k : LaysOut fuel) {name : String} {it : Item} {start : Located}
    (hstart : start.token = .ident name)
    (h : Parser.item (fuel + 1) ⟨false, limit⟩ name start.span c = .ok (it, after)) :
    ∃ read, c.tokens = read ++ after.tokens ∧ ∀ d, LiesOn (it.withDecor d) (start :: read) := by
  cases item_ok_iff.1 h with
  | attr hequals hvalue =>
      obtain ⟨equals, htokens, hequals⟩ := exists_of_eat? hequals
      -- The value ends behind a token that counts, and the cursor knows where that ends.
      obtain ⟨front, last, hfront, hlast, hstop⟩ := (stopsBehind fuel).expression hvalue
      refine ⟨equals :: (front ++ [last]), ?_, fun d => ?_⟩
      · rw [htokens, hfront, List.cons_append, List.append_assoc, List.singleton_append]
      · refine .attr hstart hequals ⟨_, _, _, _, ?_, hvalue⟩ hlast
          (congrArg (Span.mk start.span.start) hstop)
        rw [hfront, List.append_assoc, List.singleton_append]
  | @block _ ts _ c₁ _ _ _ _ hequals hlabels hopen hcontent hclose =>
      obtain ⟨header, hheader, hlength⟩ := exists_of_labels (labels_ok_iff.1 hlabels)
      obtain ⟨opener, hopener, hopenerToken, -⟩ := exists_of_expect hopen
      obtain ⟨read, hread, hlaid⟩ := k.body hcontent
      obtain ⟨closer, hcloser, hcloserToken, rfl⟩ := exists_of_expect hclose
      obtain rfl : ts = opener :: c₁.tokens := hopener
      refine ⟨header ++ opener :: (read ++ [closer]), ?_, fun d => ?_⟩
      · rw [hheader, hread, hcloser]
        simp only [List.cons_append, List.append_assoc, List.nil_append]
      · exact .block hstart hlength hopenerToken hlaid hcloserToken rfl

end LaysOut

theorem laysOut (fuel : Nat) : LaysOut fuel := by
  induction fuel with
  | zero => exact .zero
  | succ fuel ih => exact ⟨ih.body_succ, ih.item_succ⟩

end Parser

/-! ## Bodies in bodies -/

/-- The bytes of an item. -/
def Item.span : Item → Span
  | .attr a => a.span
  | .block b => b.span

section
variable {items : List Item} {item : Item} {b inner : Body} {c : Block}
  {tokens own part : List Located} {t : Located}

theorem LaidOut.exists_liesOn (h : LaidOut items tokens) (hitem : item ∈ items) :
    ∃ own, own <:+: tokens ∧ LiesOn item own := by
  induction items generalizing tokens with
  | nil => cases hitem
  | cons first items ih =>
      cases h with
      | cons hgap hfirst hrest =>
          rename_i gap own rest
          rcases List.mem_cons.1 hitem with rfl | hitem
          · exact ⟨own, ⟨gap, rest, List.append_assoc ..⟩, hfirst⟩
          · obtain ⟨own', hown', hlies⟩ := ih hrest hitem
            have hbehind : rest <:+: gap ++ (own ++ rest) :=
              ((List.suffix_append own rest).trans (List.suffix_append gap _)).isInfix
            exact ⟨own', hown'.trans hbehind, hlies⟩

/-- The body of a block stands between the braces of the block. -/
theorem LiesOn.exists_content (h : LiesOn (.block c) own) :
    ∃ type header opener content closer,
      own = type :: (header ++ opener :: (content ++ [closer])) ∧
        c.span = type.span.merge closer.span ∧ LaidOut c.body.items content := by
  cases h with
  | block _ _ _ hcontent _ hspan => exact ⟨_, _, _, _, _, rfl, hspan, hcontent⟩

theorem LaidOut.of_within (h : LaidOut b.items tokens) (hwithin : Within b inner) :
    ∃ part, part <:+: tokens ∧ LaidOut inner.items part := by
  induction hwithin with
  | whole => exact ⟨tokens, List.infix_rfl, h⟩
  | block _ hc ih =>
      obtain ⟨part, hpart, hlaid⟩ := ih
      obtain ⟨own, hown, hlies⟩ := hlaid.exists_liesOn hc
      obtain ⟨type, header, opener, content, closer, rfl, -, hcontent⟩ := hlies.exists_content
      have hinside : content <:+: type :: (header ++ opener :: (content ++ [closer])) :=
        ⟨type :: (header ++ [opener]), [closer], by simp⟩
      exact ⟨content, hinside.trans (hown.trans hpart), hcontent⟩

/-! ## Order -/

/-- The span of an item starts with its first token and ends with its last one. -/
theorem LiesOn.exists_ends (h : LiesOn item own) (horder : InOrder own) :
    ∃ first ∈ own.head?, ∃ last ∈ own.getLast?,
      item.span = ⟨first.span.start, last.span.stop⟩ := by
  cases h with
  | attr hkey hequals hvalue hlast hspan =>
      rename_i value key equals last a
      exact ⟨key, rfl, last, List.getLast?_eq_some_iff.2 ⟨key :: equals :: value, rfl⟩, hspan⟩
  | block htype hheader hopener hcontent hcloser hspan =>
      rename_i header content type opener closer b
      have hbehind : closer ∈ header ++ opener :: (content ++ [closer]) := by simp
      have hstart := Nat.le_of_lt (horder.start_lt hbehind)
      have hstop := (List.pairwise_cons.1 horder.apart).1 closer hbehind
      have hcloser := Nat.le_of_lt (horder.nonempty closer (List.mem_cons_of_mem _ hbehind))
      refine ⟨type, rfl, closer,
        List.getLast?_eq_some_iff.2 ⟨type :: (header ++ opener :: content), by simp⟩, ?_⟩
      rw [Item.span, hspan, Span.merge, Nat.min_eq_left hstart,
        Nat.max_eq_right (hstop.trans hcloser)]

/-- The items of a body stand in the source one after the other. -/
theorem LaidOut.pairwise (h : LaidOut items tokens) (horder : InOrder tokens) :
    items.Pairwise fun i j => i.span.stop ≤ j.span.start := by
  induction items generalizing tokens with
  | nil => exact .nil
  | cons first items ih =>
      cases h with
      | cons hgap hfirst hrest =>
          rename_i gap own rest
          have hinner : InOrder (own ++ rest) :=
            horder.of_part (List.suffix_append gap _).isInfix
          have hown : InOrder own := hinner.of_part (List.prefix_append own rest).isInfix
          have hrestOrder : InOrder rest := hinner.of_part (List.suffix_append own rest).isInfix
          refine List.pairwise_cons.2 ⟨fun later hlater => ?_, ih hrest hrestOrder⟩
          obtain ⟨own', hown', hlies⟩ := hrest.exists_liesOn hlater
          obtain ⟨_, _, last, hlast, hspan⟩ := hfirst.exists_ends hown
          obtain ⟨first', hfirst', _, _, hspan'⟩ := hlies.exists_ends (hrestOrder.of_part hown')
          rw [hspan, hspan']
          exact (List.pairwise_append.1 hinner.apart).2.2 last (List.mem_of_getLast? hlast) first'
            (hown'.subset (List.mem_of_head? hfirst'))

/-- The items of the body of a block lie between the ends of the block. -/
theorem LiesOn.inside (h : LiesOn (.block c) own) (horder : InOrder own)
    (hitem : item ∈ c.body.items) :
    c.span.start < item.span.start ∧ item.span.stop < c.span.stop := by
  obtain ⟨type, header, opener, content, closer, rfl, hspan, hlaid⟩ := h.exists_content
  obtain ⟨own', hown', hlies⟩ := hlaid.exists_liesOn hitem
  have hinside : content <:+: type :: (header ++ opener :: (content ++ [closer])) :=
    ⟨type :: (header ++ [opener]), [closer], by simp⟩
  obtain ⟨first, hfirst, last, hlast, hspan'⟩ :=
    hlies.exists_ends (horder.of_part (hown'.trans hinside))
  have hstart : type.span.start < first.span.start :=
    horder.start_lt (by simp [hown'.subset (List.mem_of_head? hfirst)])
  -- The closing brace comes after the content.
  have hstop : last.span.stop ≤ closer.span.start := by
    have hparts := horder.of_part
      (⟨type :: (header ++ [opener]), [], by simp⟩ :
        content ++ [closer] <:+: type :: (header ++ opener :: (content ++ [closer])))
    exact (List.pairwise_append.1 hparts.apart).2.2 last
      (hown'.subset (List.mem_of_getLast? hlast)) closer (.head _)
  have hcloser : closer.span.start < closer.span.stop := horder.nonempty closer (by simp)
  rw [hspan', hspan, Span.merge]
  exact ⟨Nat.lt_of_le_of_lt (Nat.min_le_left _ _) hstart,
    Nat.lt_of_le_of_lt hstop (Nat.lt_of_lt_of_le hcloser (Nat.le_max_right _ _))⟩

end

/-! ## The file -/

/-- The token stands in the source where its span says. -/
def IsIn (source : String) (t : Located) : Prop :=
  ∃ l : Lexeme, l.token = t.token ∧ l.Spelt ∧ StandsAt source t.span.start l.chars ∧
    t.span.stop = t.span.start + byteLength l.chars

theorem isIn_of_tokenize {source : String} {tokens : List Located}
    (h : tokenize source = .ok tokens) : ∀ t ∈ tokens, IsIn source t := by
  intro t ht
  obtain ⟨before, l, hread⟩ := exists_readAt h t ht
  refine ⟨l, hread.token.symm, hread.spelt, hread.standsAt (.whole source), ?_⟩
  rw [hread.span]

/-- An error about a block names the line on which the block starts. -/
theorem line_of_migrateBlock {e : Engine} {ctx : Context} {source file : String} {c : Block}
    {error : MigrationError} (h : e.migrateBlock ctx source file c = .failed error) :
    error.line = some (Position.ofOffset source c.span.start).line := by
  unfold Engine.migrateBlock at h
  dsimp only at h
  split at h
  · split at h
    · cases h
    · split at h
      · obtain rfl := Engine.BlockOutcome.failed.inj h
        rfl
      · split at h
        · cases h
        · split at h
          · obtain rfl := Engine.BlockOutcome.failed.inj h
            rfl
          · cases h
  · obtain rfl := Engine.BlockOutcome.failed.inj h
    rfl

/-- The spans of a file that was read, in every body in it. An item lies on tokens of its own, from
the key to the end of the value or from the type to the closing brace, and its span is from the
first byte of the first one to the end of the last one. The items of a body follow one another, and
those of the body of a block lie inside the block. The line of a block is that of its type. -/
theorem parseBody_spans {source : String} {b inner : Body} (h : parseBody source = .ok b)
    (hwithin : Within b inner) :
    ∃ tokens, tokenize source = .ok tokens ∧ (∀ t ∈ tokens, IsIn source t) ∧
      (∀ item ∈ inner.items, ∃ own, own <:+: tokens ∧ LiesOn item own ∧
        ∃ first ∈ own.head?, ∃ last ∈ own.getLast?,
          item.span = ⟨first.span.start, last.span.stop⟩) ∧
      inner.items.Pairwise (fun i j => i.span.stop ≤ j.span.start) ∧
      ∀ c, .block c ∈ inner.items →
        (∀ item ∈ c.body.items,
          c.span.start < item.span.start ∧ item.span.stop < c.span.stop) ∧
        ∃ before after, source.toList = before ++ (c.type.toList ++ after) ∧
          byteLength before = c.span.start ∧
          (Position.ofOffset source c.span.start).line = 1 + before.count '\n' ∧
          ∀ (e : Engine) (ctx : Context) file error,
            e.migrateBlock ctx source file c = .failed error →
              error.line = some (1 + before.count '\n') := by
  obtain ⟨tokens, after, htokens, hbody⟩ := parseBody_ok_iff.1 h
  obtain ⟨read, hread, hlaid⟩ := (Parser.laysOut _).body hbody
  have hprefix : read <:+: tokens := ⟨[], after.tokens, hread.symm⟩
  obtain ⟨part, hpart, hinner⟩ := hlaid.of_within hwithin
  have hpartOrder := (inOrder_of_tokenizeAt htokens).of_part (hpart.trans hprefix)
  have hin := isIn_of_tokenize htokens
  refine ⟨tokens, htokens, hin, fun item hitem => ?_, hinner.pairwise hpartOrder, fun c hc => ?_⟩
  · obtain ⟨own, hown, hlies⟩ := hinner.exists_liesOn hitem
    exact ⟨own, hown.trans (hpart.trans hprefix), hlies,
      hlies.exists_ends (hpartOrder.of_part hown)⟩
  · obtain ⟨own, hown, hlies⟩ := hinner.exists_liesOn hc
    have hownOrder := hpartOrder.of_part hown
    refine ⟨fun item hitem => hlies.inside hownOrder hitem, ?_⟩
    obtain ⟨first, hfirst, last, hlast, hspan⟩ := hlies.exists_ends hownOrder
    -- The first token of a block is the identifier that is its type.
    have htype : first.token = .ident c.type := by
      cases hlies with
      | block htype => exact Option.some.inj hfirst ▸ htype
    obtain ⟨l, hl, hspelt, hstands, -⟩ :=
      hin first ((hown.trans (hpart.trans hprefix)).subset (List.mem_of_head? hfirst))
    rw [Lexeme.Spelt, hl, htype] at hspelt
    have hstart : c.span.start = first.span.start := by rw [show c.span = _ from hspan]
    rw [hspelt, ← hstart] at hstands
    obtain ⟨before, after, hsource, hbefore, hline⟩ := exists_line hstands
    refine ⟨before, after, hsource, hbefore, hline, fun e ctx file error herror => ?_⟩
    rw [line_of_migrateBlock herror, hline]

/-- A block behind a comment of two-byte characters. The value of its attribute goes on over line
feeds and comments between brackets, and a comment comes after it. -/
theorem parseBody_spans_nested :
    let source := "# éé\n\nt \"l\" \x7b\n  a = [ 1, # b\n    2 // c\n  ] # d\n\x7d\n"
    ∃ b c, parseBody source = .ok b ∧ .block c ∈ b.items ∧
      (∃ tokens, tokenize source = .ok tokens ∧ ∀ item ∈ c.body.items,
        ∃ own, own <:+: tokens ∧ LiesOn item own) ∧
      (∀ item ∈ c.body.items, c.span.start < item.span.start ∧ item.span.stop < c.span.stop) ∧
      ∃ before after, source.toList = before ++ (c.type.toList ++ after) ∧
        (Position.ofOffset source c.span.start).line = 1 + before.count '\n' := by
  intro source
  have hparse : ((parseBody source).toOption.bind fun b => b.blocks.head?).isSome = true := by
    decide +kernel
  obtain ⟨c, hc⟩ := Option.isSome_iff_exists.1 hparse
  obtain ⟨b, hb, hhead⟩ := Option.bind_eq_some_iff.1 hc
  have hbody := toOption_eq_some.1 hb
  have hblock : Item.block c ∈ b.items := by
    obtain ⟨item, hitem, hfound⟩ := List.mem_filterMap.1 (List.mem_of_head? hhead)
    cases item with
    | attr a => cases hfound
    | block d =>
        obtain rfl := Option.some.inj hfound
        exact hitem
  obtain ⟨-, -, -, -, -, hblocks⟩ := parseBody_spans hbody .whole
  obtain ⟨tokens, htokens, -, hitems, -, -⟩ := parseBody_spans hbody (.block .whole hblock)
  obtain ⟨hinside, before, after, hsource, -, hline, -⟩ := hblocks c hblock
  refine ⟨b, c, hbody, hblock, ⟨tokens, htokens, fun item hitem => ?_⟩, hinside, before, after,
    hsource, hline⟩
  obtain ⟨own, hown, hlies, -⟩ := hitems item hitem
  exact ⟨own, hown, hlies⟩

end Hcl
end ProviderMigration
