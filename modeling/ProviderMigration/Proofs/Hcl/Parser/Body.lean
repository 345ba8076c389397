import ProviderMigration.Hcl.Parser.Body
import ProviderMigration.Proofs.Hcl.Parser.Expr
import ProviderMigration.Proofs.Hcl.Passage

/-!
# The parser reads the bodies that the grammar spells

As for expressions, `ReadsPassage` says what the parser does with the tokens of a passage, and
`reads_of_spellsPassage` that it holds of all that the grammar spells. What is read are the items
that were printed, with the blank lines noted that were printed.

The parser carries a gap from one item to the next. `Gap.Ready` is what the gap is where the lines
of an item begin.
-/

namespace ProviderMigration
namespace Hcl
namespace Parser

variable {ls rest : List Located} {t line : Located} {fuel limit last : Nat}
  {inBlock first : Bool} {gap : Gap}

/-! ## Between items -/

/-- Before the first item at most one line has ended, after another item exactly one. -/
def Gap.Ready (previous : Option Item) (first : Bool) (gap : Gap) : Prop :=
  gap.comments = [] ∧
    match previous with
    | none => gap.newlines ≤ 1
    | some _ => gap.newlines = 1 ∧ first = false

theorem body_newline {r : Region} {stray : List String} (hline : line.token = .newline) :
    body (fuel + 1) r inBlock first gap ⟨line :: rest, stray, last⟩ =
      body fuel r inBlock first gap.addNewline ⟨rest, stray, line.span.stop⟩ := by
  rw [body]
  simp only [hline]

theorem body_comment {r : Region} {stray : List String} {text : String}
    (ht : t.token.comment? = some text) :
    body (fuel + 1) r inBlock first gap ⟨t :: rest, stray, last⟩ =
      body fuel r inBlock first (gap.addComment text) ⟨rest, stray, t.span.stop⟩ := by
  rw [body]
  cases htoken : t.token with
  | lineComment found =>
      obtain rfl : found = text := by simpa [htoken, Token.comment?] using ht
      simp only [htoken]
  | blockComment found =>
      obtain rfl : found = text := by simpa [htoken, Token.comment?] using ht
      simp only [htoken]
  | _ => simp [htoken, Token.comment?] at ht

/-- Comments move to the gap, which separates as it did before them. -/
theorem body_comments {texts : List String} (h : SpellsComments texts ls)
    (hfuel : ls.length < fuel) (r : Region) (inBlock first : Bool) (gap : Gap)
    (rest : List Located) (stray : List String) (last : Nat) :
    ∃ fuel' gap' last', fuel ≤ fuel' + ls.length ∧ gap'.comments = gap.comments ++ texts ∧
      gap'.separates = gap.separates ∧
      body fuel r inBlock first gap ⟨ls ++ rest, stray, last⟩ =
        body fuel' r inBlock first gap' ⟨rest, stray, last'⟩ := by
  induction h generalizing fuel gap last with
  | nil => exact ⟨fuel, gap, last, Nat.le_refl _, by simp, rfl, rfl⟩
  | @cons text texts t line ls ht hline _ ih =>
      simp only [List.length_cons] at hfuel
      obtain ⟨fuel, rfl⟩ : ∃ less, fuel = less + 2 := ⟨fuel - 2, by omega⟩
      rcases ih (by omega : ls.length < fuel) (gap.addComment text).addNewline line.span.stop with
        ⟨fuel', gap', last', hless, hcomments, hseparates, hbody⟩
      refine ⟨fuel', gap', last', ?_, ?_, ?_, ?_⟩
      · simp only [List.length_cons]
        omega
      · rw [hcomments]
        simp [Gap.addComment, Gap.addNewline]
      · rw [hseparates]
        simp [Gap.separates, Gap.addComment, Gap.addNewline]
      · rw [List.cons_append, List.cons_append, body_comment ht, body_newline hline, hbody]

theorem body_blank {blank : Bool} (h : SpellsBlank blank ls) (hfuel : ls.length < fuel)
    (r : Region) (inBlock first : Bool) (gap : Gap) (rest : List Located) (stray : List String)
    (last : Nat) :
    ∃ fuel' last', fuel ≤ fuel' + ls.length ∧
      body fuel r inBlock first gap ⟨ls ++ rest, stray, last⟩ =
        body fuel' r inBlock first (if blank then gap.addNewline else gap)
          ⟨rest, stray, last'⟩ := by
  cases h with
  | none => exact ⟨fuel, last, Nat.le_refl _, rfl⟩
  | line hline =>
      rcases exists_fuel (by omega : 0 < fuel) with ⟨fuel, rfl⟩
      exact ⟨fuel, _, Nat.le_refl _, body_newline hline⟩

/-- The gap before an item separates it where a blank line is printed. -/
theorem separates_of_ready {previous : Option Item} {depth : Nat} {item : Item}
    (h : gap.Ready previous first) :
    ((if blankAfter depth previous item then gap.addNewline else gap).separates && !first) =
      blankAfter depth previous item := by
  rcases gap with ⟨comments, before, newlines⟩
  obtain ⟨rfl : comments = [], h⟩ := h
  cases previous with
  | none =>
      have hnewlines : newlines ≤ 1 := h
      simp only [blankAfter, Option.any_none, Bool.false_eq_true, if_false]
      simp [Gap.separates]
      omega
  | some previous =>
      obtain ⟨rfl : newlines = 1, rfl⟩ := h
      cases blankAfter depth (some previous) item <;> rfl

/-! ## Items -/

theorem follows_trailing {trailing : Option String} (h : SpellsTrailing trailing ls)
    (hline : line.token = .newline) : Follows false EndsWhole (ls ++ line :: rest) := by
  have hends {t : Token} (ht : t.isTrivia = true) : EndsWhole t := by
    cases t <;> simp_all [Token.isTrivia, EndsWhole, EndsValue, EndsPrimary, binaryOp?]
  cases h with
  | none => simpa [Follows, upcoming, hline] using hends rfl
  | @some text t ht =>
      have htrivia := isTrivia_of_comment? ht
      simpa [Follows, upcoming] using hends htrivia

theorem sameLineComment_trailing {stray : List String} {trailing : Option String}
    (h : SpellsTrailing trailing ls) (hline : line.token = .newline) :
    Cursor.sameLineComment ⟨ls ++ line :: rest, stray, last⟩ =
      (trailing, ⟨line :: rest, stray, last⟩) := by
  cases h with
  | none => simp [Cursor.sameLineComment, hline]
  | some ht => simp [Cursor.sameLineComment, ht]

theorem literalText?_literalParts (text : String) :
    literalText? (literalParts text) = some text := by
  unfold literalParts
  split
  · rename_i hempty
    simpa [literalText?] using hempty.symm
  · rfl

theorem labels_eq {r : Region} {type : String} {opener : Located} {found : List Label}
    (h : List.Forall₂ SpellsLabel found ls) (hopener : opener.token = .symbol .leftBrace)
    (hfuel : 0 < fuel) :
    labels fuel r type (ls ++ opener :: rest) = .ok (found, opener :: rest) := by
  refine labels_ok_iff.2 ?_
  induction h with
  | nil => exact .done hopener
  | @cons label t found ls hlabel _ ih =>
      cases hlabel with
      | @quoted text _ ht =>
          refine .quoted ht ?_ (literalText?_literalParts text) ih
          rw [Template.split_escapeQuoted, template_literalSegments hfuel, String.ofList_toList]
      | bare ht => exact .bare ht ih

/-- No equals sign comes after the type of a block, but a label or the brace. -/
theorem follows_labels {opener : Located} {found : List Label}
    (h : List.Forall₂ SpellsLabel found ls) (hopener : opener.token = .symbol .leftBrace) :
    Follows false (· ≠ .symbol .equals) (ls ++ opener :: rest) := by
  cases h with
  | nil => exact follows_symbol hopener (by simp)
  | cons hlabel _ =>
      cases hlabel with
      | quoted ht => exact follows_cons (by rw [ht]; rfl) (by rw [ht]; nofun)
      | bare ht => exact follows_cons (by rw [ht]; rfl) (by rw [ht]; nofun)

theorem item_attr {a : Attribute} {equals : Located} {span : Span}
    (hequals : equals.token = .symbol .equals) (hvalue : Spells (.whole a.value) ls)
    (hfuel : 8 * ls.length + 2 ≤ fuel) (hrest : Follows false EndsWhole rest) (depth : Nat) :
    ∃ read last', item (fuel + 1) ⟨false, limit⟩ a.key span ⟨equals :: (ls ++ rest), [], last⟩ =
      .ok (read, ⟨rest, [], last'⟩) ∧ (Item.attr a).Reread depth read := by
  rcases reads_of_spells hvalue false fuel limit hfuel [] equals.span.stop rest hrest with
    ⟨last', hread⟩
  refine ⟨_, last', ?_, .attr ⟨span.start, last'⟩⟩
  exact item_ok_iff.2 (.attr (Cursor.eat?_cons hequals) hread)

/-! ## Passages -/

/-- What comes after the items of a body: its closing brace, or the end of the input. -/
def Closes (inBlock : Bool) (rest : List Located) : Prop :=
  if inBlock then ∃ t ∈ rest.head?, t.token = .symbol .rightBrace else rest = []

/-- The parser reads the tokens as the passage, with eight units of fuel for each of them. -/
def ReadsPassage : Passage → List Located → Prop
  | .item depth printed, ls => ∃ name start tail, ls = start :: tail ∧ start.token = .ident name ∧
      ∀ fuel limit last rest, 8 * ls.length ≤ fuel → Follows false EndsWhole rest →
        ∃ read last', item fuel ⟨false, limit⟩ name start.span ⟨tail ++ rest, [], last⟩ =
          .ok (read, ⟨rest, [], last'⟩) ∧ printed.Reread depth read
  | .lines depth previous items trailing, ls => ∀ fuel limit inBlock first gap last rest,
      8 * ls.length + 1 ≤ fuel → gap.Ready previous first → Closes inBlock rest →
        ∃ items' last', body fuel ⟨false, limit⟩ inBlock first gap ⟨ls ++ rest, [], last⟩ =
          .ok (⟨items', trailing⟩, ⟨rest, [], last'⟩) ∧ Reread depth previous items items'

theorem reads_block {depth : Nat} {b : Block} {type opener closer : Located}
    {labels gap content : List Located} (htype : type.token = .ident b.type)
    (hlabels : List.Forall₂ SpellsLabel b.labels labels)
    (hopener : opener.token = .symbol .leftBrace) (hgap : IsGap gap)
    (hcontent : ReadsPassage (.lines (depth + 1) none b.body.items b.body.trailing) content)
    (hcloser : closer.token = .symbol .rightBrace) :
    ReadsPassage (.item depth (.block b))
      (type :: (labels ++ opener :: (gap ++ (content ++ [closer])))) := by
  refine ⟨b.type, type, _, rfl, htype, ?_⟩
  intro fuel limit last rest hfuel _
  simp only [List.length_cons, List.length_append, List.length_nil] at hfuel
  obtain ⟨fuel, rfl⟩ : ∃ less, fuel = less + 2 := ⟨fuel - 2, by omega⟩
  have hequals : Follows false (· ≠ .symbol .equals)
      (labels ++ opener :: (gap ++ (content ++ closer :: rest))) := follows_labels hlabels hopener
  have hcloses : Closes true (closer :: rest) := ⟨closer, rfl, hcloser⟩
  -- The first line of the content may have ended right after the brace.
  have hbody : ∃ items' last', body (fuel + 1) ⟨false, limit⟩ true true {}
      ⟨gap ++ (content ++ closer :: rest), [], opener.span.stop⟩ =
        .ok (⟨items', b.body.trailing⟩, ⟨closer :: rest, [], last'⟩) ∧
      Reread (depth + 1) none b.body.items items' := by
    cases hgap with
    | none =>
        exact hcontent (fuel + 1) limit true true {} opener.span.stop (closer :: rest) (by omega)
          ⟨rfl, Nat.zero_le _⟩ hcloses
    | newline hline =>
        rw [List.singleton_append, body_newline hline]
        exact hcontent fuel limit true true _ _ (closer :: rest)
          (by simp only [List.length_singleton] at hfuel; omega) ⟨rfl, Nat.le_refl _⟩ hcloses
  rcases hbody with ⟨items', last', hbody, hreread⟩
  refine ⟨_, closer.span.stop, ?_, .block (type.span.merge closer.span) hreread⟩
  simp only [List.append_assoc, List.cons_append, List.nil_append]
  exact item_ok_iff.2 (.block (Cursor.eat?_eq_none hequals)
    (labels_eq hlabels hopener (Nat.succ_pos fuel)) (Cursor.expect_cons hopener) hbody
    (Cursor.expect_cons hcloser))

theorem body_closes {fuel : Nat} (hcloses : Closes inBlock rest) (hfuel : 0 < fuel) :
    body fuel ⟨false, limit⟩ inBlock first gap ⟨rest, [], last⟩ =
      .ok (⟨[], gap.comments⟩, ⟨rest, [], last⟩) := by
  rcases exists_fuel hfuel with ⟨fuel, rfl⟩
  refine body_ok_iff.2 ?_
  cases inBlock with
  | false =>
      obtain rfl : rest = [] := hcloses
      exact .ended rfl rfl
  | true =>
      obtain ⟨t, hhead, ht⟩ : ∃ t ∈ rest.head?, t.token = .symbol .rightBrace := hcloses
      obtain ⟨tail, rfl⟩ := List.head?_eq_some_iff.1 hhead
      exact .closed rfl rfl ht

theorem reads_nil {depth : Nat} {previous : Option Item} {trailing : List String}
    (htrailing : SpellsComments trailing ls) :
    ReadsPassage (.lines depth previous [] trailing) ls := by
  intro fuel limit inBlock first gap last rest hfuel hready hcloses
  rcases body_comments htrailing (by omega : ls.length < fuel) ⟨false, limit⟩ inBlock first gap rest
    [] last with ⟨fuel', gap', last', hless, hcomments, -, hbody⟩
  rw [hready.1, List.nil_append] at hcomments
  refine ⟨[], last', ?_, .nil⟩
  rw [hbody, body_closes hcloses (by omega), hcomments]

theorem reads_cons {depth : Nat} {previous : Option Item} {printed : Item} {items : List Item}
    {trailing : List String} {blank leading after lines : List Located}
    (hblank : SpellsBlank (blankAfter depth previous printed) blank)
    (hleading : SpellsComments printed.decor.leading leading)
    (hitem : ReadsPassage (.item depth printed) ls)
    (hafter : SpellsTrailing printed.decor.trailing after) (hline : line.token = .newline)
    (hlines : ReadsPassage (.lines depth (some printed) items trailing) lines) :
    ReadsPassage (.lines depth previous (printed :: items) trailing)
      (blank ++ (leading ++ (ls ++ (after ++ line :: lines)))) := by
  intro fuel limit inBlock first gap last rest hfuel hready hcloses
  obtain ⟨name, start, tail, rfl, hstart, hitem⟩ := hitem
  simp only [List.length_append, List.length_cons] at hfuel
  -- First what stands before the item, which the gap takes.
  rcases body_blank hblank (by omega : blank.length < fuel) ⟨false, limit⟩ inBlock first gap
    (leading ++ (start :: tail ++ (after ++ line :: (lines ++ rest)))) [] last with
    ⟨fuel₁, last₁, hless₁, hbody₁⟩
  rcases body_comments hleading (by omega : leading.length < fuel₁) ⟨false, limit⟩ inBlock first
    (if blankAfter depth previous printed then gap.addNewline else gap)
    (start :: tail ++ (after ++ line :: (lines ++ rest))) [] last₁ with
    ⟨fuel₂, gap₂, last₂, hless₂, hcomments, hseparates, hbody₂⟩
  obtain ⟨fuel₂, rfl⟩ : ∃ less, fuel₂ = less + 2 := ⟨fuel₂ - 2, by omega⟩
  -- Then the item, up to the comment at the end of its line.
  rcases hitem (fuel₂ + 1) limit start.span.stop (after ++ line :: (lines ++ rest))
    (by simp only [List.length_cons]; omega) (follows_trailing hafter hline) with
    ⟨read, last₃, hread, hreread⟩
  -- Then the other items.
  rcases hlines fuel₂ limit inBlock false (Gap.addNewline {}) line.span.stop rest (by omega)
    ⟨rfl, rfl, rfl⟩ hcloses with ⟨items', last', hrest, hitems⟩
  refine ⟨_, last', ?_, .cons hreread hitems⟩
  have hgap : gap₂.comments ++ [] = printed.decor.leading := by
    rw [List.append_nil, hcomments]
    split
    · exact congrArg (· ++ _) hready.1
    · exact congrArg (· ++ _) hready.1
  have hseparated : (gap₂.separates && !first) = blankAfter depth previous printed := by
    rw [hseparates, separates_of_ready hready]
  simp only [List.append_assoc, List.cons_append] at hbody₁ hbody₂ ⊢
  have hend : checkItemEnd inBlock ⟨line :: (lines ++ rest), [], last₃⟩ = .ok () := by
    simp [checkItemEnd, hline]
  rw [hbody₁, hbody₂]
  refine body_ok_iff.2 ?_
  rw [Item.noted, ← hgap, ← hseparated]
  exact .item rfl hstart hread (sameLineComment_trailing hafter hline) hend
    ((body_newline hline).trans hrest)

/-- What the grammar spells is read as what it spells. -/
theorem reads_of_spellsPassage {p : Passage} (h : SpellsPassage p ls) : ReadsPassage p ls := by
  induction h with
  | @attr depth a key equals value hkey hequals hvalue =>
      refine ⟨a.key, key, _, rfl, hkey, ?_⟩
      intro fuel limit last rest hfuel hrest
      simp only [List.length_cons] at hfuel
      rcases exists_fuel (by omega : 0 < fuel) with ⟨fuel, rfl⟩
      exact item_attr hequals hvalue (by omega) hrest depth
  | block htype hlabels hopener hgap _ hcloser ih =>
      exact reads_block htype hlabels hopener hgap ih hcloser
  | nil htrailing => exact reads_nil htrailing
  | cons hblank hleading _ hafter hline _ ihitem ihrest =>
      exact reads_cons hblank hleading ihitem hafter hline ihrest

end Parser
end Hcl
end ProviderMigration
