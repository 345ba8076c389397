import ProviderMigration.Proofs.Hcl.Content
import ProviderMigration.Proofs.Hcl.Parser.Body
import ProviderMigration.Proofs.Hcl.Parser.WellFormed
import ProviderMigration.Proofs.Hcl.Printer.Body

/-!
# Reading back what was printed

The printer writes tokens that spell an expression (`Printable.prints`), and the parser reads what
tokens spell (`Parser.reads_of_spells`). What is left is the fuel: a text has at least as many
characters as tokens, and `fuelFor` allows eight units for each character. So a printable expression
is read back as it is (`parseExpr_formatExpr`).

A file whose values are printable is read back after it was formatted, and formatting what is read
gives the same text (`formatBody_parseBody_formatBody`). What is read is the body that was printed
but for positions and blank lines (`Reread`), and neither the alignment nor the gaps between items
depend on those.

For other values this may fail: a heredoc in parentheses is printed as a text that cannot be read
(`parseBody_formatBody_heredoc`).

What a body is after it was formatted and read: the same items with the same comments at every
depth, and a blank line noted wherever formatting puts one (`parseBody_formatBody_laidOut`).

* `Item.setApart` — whether formatting puts a blank line before an item;
* `Body.laidOut` — a body whose blank lines are those that formatting puts.

`Reread` relates the two bodies item by item. `Body.laidOut` computes the body that is read from the
one that was printed, up to spans, which no printed text can keep.
-/

namespace ProviderMigration
namespace Hcl

/-! ## Expressions -/

/-- Every token takes at least one character. -/
theorem length_le_of_tokenizeAt {cs : List Char} {offset : Nat} {ls : List Located}
    (h : tokenizeAt offset cs = .ok ls) : ls.length ≤ cs.length := by
  rw [tokenizeAt_ok_iff] at h
  induction h with
  | nil => exact Nat.le_refl _
  | separator _ _ ih => exact Nat.le_succ_of_le ih
  | lexeme _ hread _ ih =>
      have hrest := (Lexeme.read_readFrom hread).rest_length_lt
      simp only [List.length_cons] at hrest ⊢
      omega

/-- A text whose tokens spell one expression is read as that expression. -/
theorem Cuts.embedded_eq {e : Expr} {cs : List Char} (h : Cuts cs (Spells (.whole e)))
    (offset : Nat) : Parser.embedded (Parser.fuelFor cs.length) offset cs = .ok e := by
  rcases h offset with ⟨ls, hls, hspells⟩
  have hlength : ls.length ≤ cs.length := length_le_of_tokenizeAt hls
  have hfuel : 8 * ls.length + 2 ≤ 8 * cs.length + 7 := by omega
  rcases Parser.reads_of_spells hspells true _ (offset + Text.byteLength cs) hfuel [] 0 []
    Parser.follows_nil with ⟨last, hread⟩
  rw [List.append_nil] at hread
  exact Parser.embedded_ok_iff.2 ⟨ls, _, hls, hread, rfl⟩

theorem Printable.readsBack {e : Expr} (h : Printable e) : parseExpr (formatExpr e) = .ok e := by
  have hnil : Cuts [] (· = []) := fun _ => ⟨[], by rw [tokenizeAt], rfl⟩
  have hcuts := h.prints.whole 0 [] _ NumberEnds.nil hnil
  rw [List.append_nil] at hcuts
  refine Cuts.embedded_eq (hcuts.mono ?_) 0
  rintro _ ⟨ls, _, rfl, hspells, rfl⟩
  rwa [List.append_nil]

/-- Printing and then parsing gives the expression back, whatever layout the printer chooses. -/
theorem parseExpr_formatExpr {e : Expr} (h : Printable e) : parseExpr (formatExpr e) = .ok e :=
  h.readsBack

/-- A conditional on `!a && f("x\"y"...).0.1`, where the two indexes are read as one number. -/
theorem parseExpr_formatExpr_conditional :
    let root := Expr.call "f" [Expr.string "x\"y"] true
    let condition := Expr.binary (.unary .not (.var "a")) .and
      (.traversal root [.legacyIndex 0, .legacyIndex 1])
    let e := Expr.conditional condition (Expr.tupleOf [.number "1.5"]) .null
    parseExpr (formatExpr e) = .ok e := by
  intro root condition e
  have ha : Printable (.var "a") := .var (by decide) (by decide)
  have hroot : Printable root :=
    .call (by decide) (by decide) (by decide) (List.forall_mem_singleton.2 (.string _))
  have hsteps : Printable (.traversal root [.legacyIndex 0, .legacyIndex 1]) :=
    .traversal rfl (by decide) (by simp) (by simp; decide) hroot (by simp)
  have hcondition : Printable condition :=
    .binary (by decide) (by decide) (.unary rfl ha) hsteps
  have htuple : Printable (Expr.tupleOf [.number "1.5"]) :=
    .tuple (List.forall_mem_singleton.2 (.number (by decide)))
  exact parseExpr_formatExpr (.conditional (by decide) hcondition htuple .null)

section

open Printer (shape runWidth alignRuns alignmentWidths separated)

variable {depth : Nat} {previous : Option Item} {items items' : List Item}

/-! ## Alignment -/

/-- Between two attributes a blank line is printed where one is noted. -/
theorem shape_noted (p a : Attribute) (span : Span) :
    shape depth (.attr ⟨a.key, a.value, (Item.attr a).noted depth (some (.attr p)), span⟩) =
      shape depth (.attr a) := by
  simp [shape, Item.noted, blankAfter, separated, Item.isBlock, Item.decor]

/-- A run that goes on after an attribute is as wide as it was. -/
theorem Reread.runWidth_eq (h : Reread depth previous items items') {p : Attribute}
    (hprevious : previous = some (.attr p)) :
    runWidth (items'.map (shape depth)) = runWidth (items.map (shape depth)) := by
  induction h generalizing p with
  | nil => rfl
  | @attr depth previous a items items' span _ ih =>
      subst hprevious
      rw [List.map_cons, List.map_cons, shape_noted]
      have hrest := ih rfl
      cases shape depth (.attr a) with
      | alone => rfl
      | inline width separated =>
          cases separated with
          | false => rw [runWidth, runWidth, hrest]
          | true => rfl
  | block => rfl

/-- The runs are the same. Only after an attribute does a run go on, and there the blank lines are
the same too. -/
theorem Reread.alignRuns_eq (h : Reread depth previous items items') {current : Option Nat}
    (hcurrent : (∀ p, previous ≠ some (.attr p)) → current = none) :
    alignRuns current (items'.map (shape depth)) = alignRuns current (items.map (shape depth)) := by
  induction h generalizing current with
  | nil => rfl
  | @attr depth previous a items items' span hitems ih =>
      have hwidth := hitems.runWidth_eq rfl
      have hrest (current : Option Nat) := @ih current fun h => absurd rfl (h a)
      rw [List.map_cons, List.map_cons]
      by_cases hattr : ∃ p, previous = some (.attr p)
      · obtain ⟨p, rfl⟩ := hattr
        rw [shape_noted]
        cases shape depth (.attr a) with
        | alone => rw [alignRuns, alignRuns, hrest]
        | inline width separated => simp only [alignRuns, hwidth, hrest]
      · -- Where a run starts, it does not matter whether a blank line stands before it.
        obtain rfl : current = none := hcurrent fun p hp => hattr ⟨p, hp⟩
        simp only [shape]
        split
        · rw [alignRuns, alignRuns, hrest]
        · simp only [alignRuns, hwidth, hrest]
  | block span _ _ _ ih =>
      rw [List.map_cons, List.map_cons]
      exact congrArg (0 :: ·) (ih fun _ => rfl)

theorem Reread.alignmentWidths_eq (h : Reread depth none items items') :
    alignmentWidths items' depth = alignmentWidths items depth :=
  h.alignRuns_eq fun _ => rfl

/-! ## Printing -/

/-- The blank line that is noted is the one that is printed. -/
theorem blankAfter_noted {previous' : Option Item} {item item' : Item}
    (hprevious : previous'.map Item.isBlock = previous.map Item.isBlock)
    (hdecor : item'.decor = item.noted depth previous) (hblock : item'.isBlock = item.isBlock) :
    blankAfter depth previous' item' = blankAfter depth previous item := by
  cases previous with
  | none =>
      obtain rfl : previous' = none := by simpa using hprevious
      rfl
  | some p =>
      obtain ⟨p', rfl, hp⟩ : ∃ p', previous' = some p' ∧ p'.isBlock = p.isBlock := by
        simpa using hprevious
      simp only [blankAfter, Option.any_some, separated, hdecor, hblock, hp, Item.noted]
      cases item.decor.blankBefore <;> simp

theorem renderItems_congr {previous' : Option Item} {item item' : Item} {widths : List Nat}
    (hprevious : previous'.map Item.isBlock = previous.map Item.isBlock)
    (hdecor : item'.decor = item.noted depth previous) (hblock : item'.isBlock = item.isBlock)
    (hrender : item'.render (widths.headD 0) depth = item.render (widths.headD 0) depth)
    (hrest : renderItems depth (some item') items' widths.tail =
      renderItems depth (some item) items widths.tail) :
    renderItems depth previous' (item' :: items') widths =
      renderItems depth previous (item :: items) widths := by
  have hblank := blankAfter_noted hprevious hdecor hblock
  rw [blankAfter, blankAfter] at hblank
  rw [renderItems, renderItems, hblank, hrender, hrest, hdecor]
  rfl

theorem Reread.isEmpty_eq (h : Reread depth previous items items') :
    items'.isEmpty = items.isEmpty := by
  cases h <;> rfl

/-- The items that are read are printed as the ones that were printed. -/
theorem Reread.renderItems_eq (h : Reread depth previous items items') {previous' : Option Item}
    (hprevious : previous'.map Item.isBlock = previous.map Item.isBlock) (widths : List Nat) :
    renderItems depth previous' items' widths = renderItems depth previous items widths := by
  induction h generalizing previous' widths with
  | nil => rw [renderItems, renderItems]
  | attr span _ ih =>
      refine renderItems_congr hprevious rfl rfl ?_ ?_
      · rw [Item.render, Item.render]
        rfl
      · refine ih ?_ widths.tail
        rfl
  | @block depth previous b content items items' span hcontent _ ihcontent ih =>
      refine renderItems_congr hprevious rfl rfl ?_ ?_
      · rcases b with ⟨type, labels, ⟨inside, trailing⟩, decor, span⟩
        have hbody : Body.render (depth + 1) ⟨content, trailing⟩ =
            Body.render (depth + 1) ⟨inside, trailing⟩ := by
          rw [Body.render, Body.render, hcontent.alignmentWidths_eq, ihcontent rfl]
        rw [Item.render, Item.render, Block.render, Block.render, hbody]
        simp only [Body.isEmpty, hcontent.isEmpty_eq]
        rfl
      · refine ih ?_ widths.tail
        rfl

theorem Reread.render_eq {b : Body} (h : Reread depth none b.items items') :
    Body.render depth ⟨items', b.trailing⟩ = b.render depth := by
  rcases b with ⟨items, trailing⟩
  rw [Body.render, Body.render, h.alignmentWidths_eq, h.renderItems_eq rfl]

/-! ## Files -/

/-- A text whose tokens spell the items of a body is read as that body. -/
theorem Cuts.parseBody_eq {source : String} {trailing : List String}
    (h : Cuts source.toList (SpellsPassage (.lines 0 none items trailing))) :
    ∃ items', parseBody source = .ok ⟨items', trailing⟩ ∧ Reread 0 none items items' := by
  rcases h 0 with ⟨ls, hls, hspells⟩
  have hlength : ls.length ≤ source.toList.length := length_le_of_tokenizeAt hls
  have hfuel : 8 * ls.length + 1 ≤ Parser.fuelFor source.toList.length := by
    unfold Parser.fuelFor
    omega
  rcases Parser.reads_of_spellsPassage hspells _ (Text.byteLength source.toList) false true {} 0 []
    hfuel ⟨rfl, Nat.zero_le _⟩ rfl with ⟨items', last, hread, hreread⟩
  rw [List.append_nil] at hread
  exact ⟨items', parseBody_ok_iff.2 ⟨ls, _, hls, hread⟩, hreread⟩

/-- A well-formed body of printable values is read back from the file it is written to. -/
theorem Body.WellFormed.parseBody_formatBody {b : Body} (h : b.WellFormed Printable) :
    ∃ items', parseBody (formatBody b) = .ok ⟨items', b.trailing⟩ ∧
      Reread 0 none b.items items' := by
  have hnil : Cuts [] (· = []) := fun _ => ⟨[], by rw [tokenizeAt], rfl⟩
  have hcuts := h.lexes 0 [] _ trivial hnil
  rw [List.append_nil] at hcuts
  rw [h.formatBody_eq]
  refine Cuts.parseBody_eq (hcuts.mono ?_)
  rintro _ ⟨ls, _, rfl, hspells, rfl⟩
  rwa [List.append_nil]

/-- Formatting is idempotent on the files whose values are printable: the formatted file can be
read, and formatting what is read gives the same text again. -/
theorem formatBody_parseBody_formatBody {source : String} {b : Body}
    (hread : parseBody source = .ok b) (hvalues : ∀ e ∈ b.values, Printable e) :
    ∃ again, parseBody (formatBody b) = .ok again ∧ formatBody again = formatBody b := by
  have hb : b.WellFormed Printable := (wellFormed_parseBody hread).of_values hvalues
  rcases hb.parseBody_formatBody with ⟨items', hagain, hreread⟩
  refine ⟨⟨items', b.trailing⟩, hagain, ?_⟩
  rw [formatBody, formatBody, hreread.render_eq]

/-- A number, a truth value or `null`. -/
def Expr.isAtom : Expr → Bool
  | .number text => IsNumeral text
  | .bool _ | .null => true
  | _ => false

theorem printable_of_isAtom {e : Expr} (h : e.isAtom = true) : Printable e := by
  cases e with
  | number text => exact .number (of_decide_eq_true h)
  | bool value => exact .bool value
  | null => exact .null
  | _ => exact absurd h Bool.false_ne_true

/-- Comments, gaps and labels that are not where formatting puts them. -/
theorem formatBody_parseBody_formatBody_file :
    let source :=
      "a =1 # b\nlong=  2\n\n\n/* c\n */ d \"e\" f \x7b\n\n# g\nh=\tnull // i\n\n\nj=true\x7d\nk=3e4\n#l"
    ∃ b, parseBody source = .ok b ∧
      ∃ again, parseBody (formatBody b) = .ok again ∧ formatBody again = formatBody b := by
  intro source
  have hparse : (parseBody source).toOption.isSome = true := by decide +kernel
  have hliteral : (parseBody source).toOption.all (·.values.all Expr.isAtom) = true := by
    decide +kernel
  have hread := eq_ok_of_isSome hparse
  rw [hread] at hliteral
  refine ⟨_, hread, formatBody_parseBody_formatBody hread fun e he => ?_⟩
  exact printable_of_isAtom (List.all_eq_true.1 hliteral e he)

/-! ## Heredocs -/

/-- A heredoc in parentheses: formatted, its closing marker no longer stands alone. -/
theorem parseBody_formatBody_heredoc :
    ∃ b, parseBody "x = (<<EOT\na\nEOT\n)\n" = .ok b ∧ formatBody b = "x = (<<EOT\na\nEOT)\n" ∧
      ∀ again, parseBody (formatBody b) ≠ .ok again := by
  have htext : (parseBody "x = (<<EOT\na\nEOT\n)\n").toOption.map formatBody =
      some "x = (<<EOT\na\nEOT)\n" := by decide +kernel
  have hfail : (parseBody "x = (<<EOT\na\nEOT)\n").toOption.isSome = false := by decide +kernel
  cases hread : parseBody "x = (<<EOT\na\nEOT\n)\n" with
  | error error => simp [hread, Except.toOption] at htext
  | ok b =>
      have hformat : formatBody b = "x = (<<EOT\na\nEOT)\n" := by
        rw [hread] at htext
        exact Option.some.inj htext
      refine ⟨b, rfl, hformat, fun again hagain => ?_⟩
      rw [hformat] at hagain
      simp [hagain, Except.toOption] at hfail

end

/-! ## Blank lines -/

/-- Formatting sets an item apart from the one before it if it was set apart before, and at top
level if one of the two is a block. -/
def Item.setApart (depth : Nat) : Option Item → Item → Bool
  | none, _ => false
  | some previous, item =>
    item.decor.blankBefore || (depth == 0 && (previous.isBlock || item.isBlock))

/-- The decoration of an item whose blank line is `blank`. -/
def Decor.withBlank (blank : Bool) (d : Decor) : Decor :=
  { d with blankBefore := blank }

mutual

/-- The body with the blank lines that formatting puts at this depth and below. -/
def Body.laidOut (depth : Nat) : Body → Body
  | ⟨items, trailing⟩ => ⟨laidOutItems depth none items, trailing⟩

def laidOutItems (depth : Nat) (previous : Option Item) : List Item → List Item
  | [] => []
  | item :: items =>
    item.laidOut depth (item.setApart depth previous) :: laidOutItems depth (some item) items

def Item.laidOut (depth : Nat) (blank : Bool) : Item → Item
  | .attr a => .attr { a with decor := a.decor.withBlank blank }
  | .block b => .block (b.laidOut depth blank)

def Block.laidOut (depth : Nat) (blank : Bool) : Block → Block
  | ⟨type, labels, body, decor, span⟩ =>
    ⟨type, labels, body.laidOut (depth + 1), decor.withBlank blank, span⟩

end

variable {depth : Nat} {previous : Option Item} {items items' : List Item}

theorem noted_eq (depth : Nat) (previous : Option Item) (item : Item) :
    item.noted depth previous = item.decor.withBlank (item.setApart depth previous) := by
  cases previous <;> rfl

/-- The items that are read are the printed ones with the blank lines that were put. -/
theorem Reread.bareItems_eq (h : Reread depth previous items items') :
    bareItems items' = bareItems (laidOutItems depth previous items) := by
  induction h with
  | nil => rfl
  | attr span _ ih =>
      rw [laidOutItems, bareItems, bareItems, ih, noted_eq]
      rfl
  | @block depth previous b content items items' span _ _ ihcontent ih =>
      rcases b with ⟨type, labels, ⟨inside, trailing⟩, decor, place⟩
      have hbody : Body.bare ⟨content, trailing⟩ =
          (Body.laidOut (depth + 1) ⟨inside, trailing⟩).bare := by
        rw [Body.laidOut, Body.bare, Body.bare, ihcontent]
      rw [laidOutItems, bareItems, bareItems, ih, noted_eq, Item.laidOut, Block.laidOut, Item.bare,
        Item.bare, Block.bare, Block.bare, hbody]
      rfl

/-! ## Files -/

/-- A well-formed body of printable values can be formatted and read back. The body that is read
has its items in the same order, with their labels, values and comments, and the blank lines that
formatting put. -/
theorem parseBody_formatBody_laidOut {b : Body} (h : b.WellFormed Printable) :
    ∃ read, parseBody (formatBody b) = .ok read ∧ read.bare = (b.laidOut 0).bare := by
  obtain ⟨items', hparse, hreread⟩ := h.parseBody_formatBody
  refine ⟨_, hparse, ?_⟩
  rcases b with ⟨items, trailing⟩
  rw [Body.laidOut, Body.bare, Body.bare, hreread.bareItems_eq]

/-- A reference is printable if its segments are identifiers and its root is not a word that
stands for a value. -/
theorem printable_reference {root : String} {names : List String} (hroot : IsName root)
    (hreserved : ¬ IsReserved root) (hnames : ∀ name ∈ names, IsName name) :
    Printable (Expr.reference (root :: names)) := by
  have hvar : Printable (.var root) := .var hroot hreserved
  cases names with
  | nil => exact hvar
  | cons name names =>
      refine .traversal rfl (by simp) ?_ (by simp) hvar (by simp)
      intro name' hname'
      exact hnames name' (by simpa using hname')

/-- A block between two attributes, with labels and values of every plain kind, and comments of
every kind in every place. No blank line is noted around the block; where it is read, one stands on
either side. -/
theorem parseBody_formatBody_laidOut_block :
    let inner : Body :=
      ⟨[.attr ⟨"null", .null, ⟨["// a"], some "/* b\n */", true⟩, ⟨0, 0⟩⟩,
        .attr ⟨"k", Expr.string "$\x7b\"\n", {}, ⟨0, 0⟩⟩,
        .attr ⟨"r", Expr.reference ["x", "y", "null"], {}, ⟨0, 0⟩⟩], ["#"]⟩
    let b : Body :=
      ⟨[.attr ⟨"a", .number "1.5", {}, ⟨0, 0⟩⟩,
        .block ⟨"t", [.bare "l-1", .quoted "é\t%\x7b"], inner, {}, ⟨0, 0⟩⟩,
        .attr ⟨"z", .bool true, {}, ⟨0, 0⟩⟩], ["// a"]⟩
    ∃ read, parseBody (formatBody b) = .ok read ∧ read.bare = (b.laidOut 0).bare := by
  intro inner b
  have hslashes : IsComment "// a" := .inl ⟨.inr ⟨_, rfl⟩, by simp, by decide⟩
  have hhash : IsComment "#" := .inl ⟨.inl ⟨_, rfl⟩, by simp, by decide⟩
  have hblock : IsComment "/* b\n */" := .inr ⟨_, rfl, by decide⟩
  have hreference : Printable (Expr.reference ["x", "y", "null"]) :=
    printable_reference (by decide) (by decide) (by decide)
  have hinner : ∀ item ∈ inner.items, item.WellFormed Printable := by
    simp only [inner, List.forall_mem_cons, List.not_mem_nil, false_imp_iff, implies_true, and_true]
    exact ⟨.attr (by decide) .null ⟨by simpa using hslashes, by simpa using hblock⟩,
      .attr (by decide) (.string _) .empty, .attr (by decide) hreference .empty⟩
  refine parseBody_formatBody_laidOut ⟨?_, by simpa [b] using hslashes⟩
  simp only [b, List.forall_mem_cons, List.not_mem_nil, false_imp_iff, implies_true, and_true]
  refine ⟨.attr (by decide) (.number (by decide)) .empty, ?_,
    .attr (by decide) (.bool true) .empty⟩
  exact .block (by decide) (by simp; decide) hinner (by simpa [inner] using hhash) .empty

end Hcl
end ProviderMigration
