import ProviderMigration.Proofs.Hcl.ReadBack

/-!
# Written strings survive

A string is written in two layers: its characters are escaped one by one, and the sequence openers
of the result are doubled. Reading takes both layers off at once, in the search for the closing
quote and again in the split into segments, and both keep the string (`quote_survives`):

* `closingQuote?_escapeQuoted` — the closing quote is the one that was written;
* `template_escapeQuoted` — what stands before it is one literal, or nothing for the empty string;
* `tokenizeAt_quote` — so a written string is one token wherever it stands;
* `parseExpr_quote`, `labels_escapeQuoted` — which is read as a value and as a label;
* `parseBody_stringFile` — in a file as well;
* `quote_injective` — no two strings are written alike.
-/

namespace ProviderMigration
namespace Hcl

open Template (escapeQuoted quotedText?)

/-! ## Scanning -/

/-- How many bytes of quoted text stand before its closing quote. -/
def Template.closingQuote? (cs : List Char) : Option Nat :=
  (quotedText? cs).map fun found => Text.byteLength found.1

theorem Template.closingQuote?_escapeQuoted (cs after : List Char) :
    closingQuote? (escapeQuoted cs ++ '"' :: after) = some (Text.byteLength (escapeQuoted cs)) := by
  rw [closingQuote?, quotedText?_escapeQuoted]
  rfl

theorem toList_quote (text : String) :
    (quote text).toList = '"' :: (escapeQuoted text.toList ++ ['"']) := by
  rw [quote, String.toList_ofList, List.cons_append]

/-- A written string is one token, whatever comes after it. -/
theorem tokenizeAt_quote (offset : Nat) (text : String) (after : List Char) :
    tokenizeAt offset ((quote text).toList ++ after) = (do
      let stop := offset + Text.byteLength (quote text).toList
      let tokens ← tokenizeAt stop after
      return ⟨.quoted (escapeQuoted text.toList), offset, stop⟩ :: tokens) := by
  have htext : (quote text).toList ++ after =
      '"' :: (escapeQuoted text.toList ++ '"' :: after) := by
    rw [toList_quote, List.cons_append, List.append_assoc, List.singleton_append]
  rw [htext, tokenizeAt_lexeme (by decide) (read_escapeQuoted _ after), toList_quote]

/-! ## Decoding -/

namespace Parser

variable {fuel : Nat} {r : Region} {t : Located}

theorem template_escapeQuoted (hfuel : 0 < fuel) (r : Region) (offset : Nat) (text : String) :
    template fuel r (Template.split true offset (escapeQuoted text.toList)) =
      .ok (if text = "" then [] else [.literal text]) := by
  rw [Template.split_escapeQuoted, template_literalSegments hfuel, String.ofList_toList]
  by_cases htext : text = ""
  · simp [literalParts, htext]
  · simp [literalParts, htext]

theorem labels_escapeQuoted {text : String} (ht : t.token = .quoted (escapeQuoted text.toList))
    (hfuel : 0 < fuel) (r : Region) (type : String) (rest : List Located) :
    labels fuel r type (t :: rest) = (do
      let (found, rest) ← labels fuel r type rest
      return (.quoted text :: found, rest)) := by
  rw [labels]
  by_cases htext : text = ""
  · simp only [ht, template_escapeQuoted hfuel, bind, Except.bind, htext, if_true, literalText?]
  · simp only [ht, template_escapeQuoted hfuel, bind, Except.bind, htext, if_false, literalText?]

end Parser

/-! ## Values and labels -/

theorem render_string_eq_quote (depth : Nat) (text : String) :
    (Expr.string text).render depth = quote text := by
  rw [← String.toList_inj, render_string, toList_quote]

theorem parseExpr_quote (text : String) : parseExpr (quote text) = .ok (Expr.string text) := by
  rw [← render_string_eq_quote 0]
  exact (Printable.string text).readsBack

/-- No two strings are written alike. -/
theorem quote_injective : Function.Injective quote := by
  intro text other heq
  -- One text is read as one value.
  have hvalue : Expr.string text = Expr.string other := by
    have hread := parseExpr_quote text
    rw [heq, parseExpr_quote] at hread
    exact (Except.ok.inj hread).symm
  have htext : literalText? (literalParts text) = literalText? (literalParts other) :=
    congrArg Expr.string? hvalue
  rw [Parser.literalText?_literalParts, Parser.literalText?_literalParts] at htext
  exact Option.some.inj htext

/-! ## Files -/

/-- A block where a string stands as the label and as the value of an attribute. -/
def stringBlock (type key text : String) : Block :=
  ⟨type, [.quoted text], ⟨[.attr ⟨key, Expr.string text, {}, ⟨0, 0⟩⟩], []⟩, {}, ⟨0, 0⟩⟩

/-- A file with such a block. -/
def stringFile (type key text : String) : String :=
  type ++ " " ++ quote text ++ " \x7b\n  " ++ key ++ " = " ++ quote text ++ "\n\x7d\n"

section
variable {type key text : String}

/-- The key of an attribute that is alone is not padded. -/
theorem attributeLine_alone (key text : String) :
    Printer.attributeLine ⟨key, Expr.string text, {}, ⟨0, 0⟩⟩
        ((Printer.alignmentWidths [.attr ⟨key, Expr.string text, {}, ⟨0, 0⟩⟩] 1).headD 0) 1 =
      "  " ++ key ++ " = " ++ quote text := by
  have hwidth : (Printer.alignmentWidths
      [.attr ⟨key, Expr.string text, {}, ⟨0, 0⟩⟩] 1).headD 0 - key.length = 0 := by
    by_cases hlines : Text.isMultiline ((Expr.string text).render 1) = true
    · simp [Printer.alignmentWidths, Printer.shape, Printer.alignRuns, hlines]
    · simp [Printer.alignmentWidths, Printer.shape, Printer.alignRuns, Printer.runWidth, hlines]
  rw [Printer.attributeLine, Text.padRight, hwidth, render_string_eq_quote]
  simp [Printer.trailingDecor, Printer.indent, Text.times]

/-- The file is what formatting makes of the block. -/
theorem render_stringBlock (type key text : String) :
    Body.render 0 ⟨[.block (stringBlock type key text)], []⟩ = stringFile type key text := by
  simp only [Body.render, renderItems, Item.render, stringBlock, Block.render, Body.isEmpty,
    Nat.zero_add, attributeLine_alone]
  -- The pieces are put together in another order, which the characters do not show.
  refine String.toList_inj.1 ?_
  simp [stringFile, Printer.comments, Printer.label, Printer.trailingDecor, Printer.indent,
    Text.times, Text.concat, Item.decor]

theorem wellFormed_stringBlock (htype : IsName type) (hkey : IsName key) (text : String) :
    Body.WellFormed Printable ⟨[.block (stringBlock type key text)], []⟩ := by
  have hattr : Item.WellFormed Printable (.attr ⟨key, Expr.string text, {}, ⟨0, 0⟩⟩) :=
    .attr hkey (.string text) .empty
  have hblock : Item.WellFormed Printable (.block (stringBlock type key text)) :=
    .block htype (by simp [stringBlock]) (by simpa [stringBlock] using hattr)
      (by simp [stringBlock]) .empty
  exact ⟨by simpa using hblock, by simp⟩

theorem parseBody_stringFile (htype : IsName type) (hkey : IsName key) (text : String) :
    ∃ b decor span, parseBody (stringFile type key text) = .ok ⟨[.block b], []⟩ ∧
      b.type = type ∧ b.labels = [.quoted text] ∧
        b.body = ⟨[.attr ⟨key, Expr.string text, decor, span⟩], []⟩ := by
  have hfile := wellFormed_stringBlock htype hkey text
  rcases hfile.parseBody_formatBody with ⟨items, hparse, hreread⟩
  rw [hfile.formatBody_eq, render_stringBlock] at hparse
  -- What is read has the items of the block, with spans and decorations of their own.
  cases hreread with
  | block span hcontent hitems =>
      cases hitems
      cases hcontent with
      | attr span' hitems =>
          cases hitems
          exact ⟨_, _, _, hparse, rfl, rfl, rfl⟩

end

/-- Every string survives being written and read, wherever it is written: the scanner finds
the closing quote, and the decoder finds the string. -/
theorem quote_survives (text : String) :
    (∀ after, Template.closingQuote? (escapeQuoted text.toList ++ '"' :: after) =
      some (Text.byteLength (escapeQuoted text.toList))) ∧
    (∀ offset after, tokenizeAt offset ((quote text).toList ++ after) = (do
      let stop := offset + Text.byteLength (quote text).toList
      let tokens ← tokenizeAt stop after
      return ⟨.quoted (escapeQuoted text.toList), offset, stop⟩ :: tokens)) ∧
    (∀ fuel r offset,
      Parser.template (fuel + 1) r (Template.split true offset (escapeQuoted text.toList)) =
        .ok (if text = "" then [] else [.literal text])) ∧
    parseExpr (quote text) = .ok (Expr.string text) ∧
    (∀ fuel r type t rest, t.token = .quoted (escapeQuoted text.toList) →
      Parser.labels (fuel + 1) r type (t :: rest) = (do
        let (found, rest) ← Parser.labels (fuel + 1) r type rest
        return (.quoted text :: found, rest))) ∧
    ∀ type key, IsName type → IsName key →
      ∃ b decor span, parseBody (stringFile type key text) = .ok ⟨[.block b], []⟩ ∧
        b.type = type ∧ b.labels = [.quoted text] ∧
          b.body = ⟨[.attr ⟨key, Expr.string text, decor, span⟩], []⟩ := by
  refine ⟨Template.closingQuote?_escapeQuoted _, ?_, ?_, parseExpr_quote text, ?_, ?_⟩
  · intro offset after
    exact tokenizeAt_quote offset text after
  · intro fuel r offset
    exact Parser.template_escapeQuoted (Nat.succ_pos fuel) r offset text
  · intro fuel r type t rest ht
    exact Parser.labels_escapeQuoted ht (Nat.succ_pos fuel) r type rest
  · intro type key htype hkey
    exact parseBody_stringFile htype hkey text

/-- Runs of markers before a brace, a backslash, a quote and control characters. -/
example : quote "$$$\x7b %$\x7b \\ \" \n\u0085" =
    "\"$$$$\x7b %$$\x7b \\\\ \\\" \\n\\u0085\"" := by
  decide

end Hcl
end ProviderMigration
