import ProviderMigration.Proofs.Hcl.Passage
import ProviderMigration.Proofs.Hcl.Printer.Expr
import ProviderMigration.Proofs.Hcl.Parser.WellFormed

/-!
# Printed bodies are spelled

What the printer writes for a body is cut into tokens that spell it, in every alignment.

* `PrintsItem` — an item is spelled wherever its line ends after it;
* `Body.WellFormed.lexes` — a well-formed body of printable values is spelled where it is printed.
-/

namespace ProviderMigration
namespace Hcl

open Printer (trailingDecor indent)
open Lexeme (isSeparator)

/-! ## Comments -/

theorem lexes_comments {texts : List String} (h : ∀ text ∈ texts, IsComment text) (depth : Nat) :
    Lexes (Printer.comments depth texts).toList (SpellsComments texts) Anything := by
  induction texts with
  | nil => exact Lexes.nil.mono fun ls hls => by rw [hls]; exact .nil
  | cons text texts ih =>
      have hcomment := lexes_comment (h text (by simp))
      have hrest := lexes_newline.append (ih fun c hc => h c (by simp [hc])) fun _ _ => trivial
      have hends : ∀ rest, Anything rest →
          LineEnds ('\n' :: (Printer.comments depth texts).toList ++ rest) := fun _ _ => rfl
      have hline := (lexes_indent depth).append (hcomment.append hrest hends) fun _ _ => trivial
      have htext : (Printer.comments depth (text :: texts)).toList = (indent depth).toList ++
          (text.toList ++ (['\n'] ++ (Printer.comments depth texts).toList)) := by
        simp [Printer.comments, Text.concat]
      rw [htext]
      refine hline.mono ?_
      rintro _ ⟨_, _, rfl, rfl, _, _, rfl, ⟨t, rfl, ht⟩, _, ls, rfl, ⟨line, rfl, hline⟩, hls⟩
      exact .cons ht hline hls

theorem lexes_trailing {d : Decor} (h : d.WellFormed) (depth : Nat) :
    Lexes (trailingDecor d false depth).toList (SpellsTrailing d.trailing) LineEnds := by
  rcases d with ⟨leading, trailing, blank⟩
  cases trailing with
  | none => exact Lexes.nil.mono fun ls hls => by rw [hls]; exact .none
  | some text =>
      have hblank : Lexes [' '] (· = []) Anything := .blank rfl
      have hcomment := lexes_comment (h.trailing text rfl)
      have htext : (trailingDecor ⟨leading, some text, blank⟩ false depth).toList =
          [' '] ++ text.toList := by
        simp [trailingDecor]
      rw [htext]
      refine (hblank.append hcomment fun _ _ => trivial).mono ?_
      rintro _ ⟨_, _, rfl, rfl, t, rfl, ht⟩
      exact .some ht

/-- Neither a word nor a number runs on into the end of its line. -/
theorem numberEnds_trailing {d : Decor} {depth : Nat} {rest : List Char} (hrest : LineEnds rest) :
    NumberEnds ((trailingDecor d false depth).toList ++ rest) := by
  rcases d with ⟨leading, trailing, blank⟩
  cases trailing with
  | none =>
      cases rest with
      | nil => exact .nil
      | cons c rest =>
          obtain rfl : c = '\n' := Option.some.inj hrest
          exact numberEnds_cons (by decide)
  | some text => simpa [trailingDecor] using numberEnds_cons (by decide)

/-! ## Items -/

/-- Printed in any alignment, the item is cut into tokens that spell it and the comment after it. -/
def PrintsItem (item : Item) : Prop :=
  ∀ width depth, Lexes (item.render width depth).toList
    (Seq (SpellsPassage (.item depth item)) (SpellsTrailing item.decor.trailing)) LineEnds

theorem prints_attribute {a : Attribute} (hkey : IsName a.key) (hvalue : Printable a.value)
    (hdecor : a.decor.WellFormed) : PrintsItem (.attr a) := by
  intro width depth
  have hblanks : (Text.times " " (width - a.key.length)).toList.all isSeparator = true :=
    all_isSeparator_times (by decide) _
  have hentry := lexes_entry (.name hkey) hvalue.prints _ hblanks depth
  have hline := hentry.append (lexes_trailing hdecor depth) fun _ h => numberEnds_trailing h
  have htext : ((Item.attr a).render width depth).toList = (indent depth).toList ++
      ((((ObjectKey.name a.key).render depth).toList ++
        ((Text.times " " (width - a.key.length)).toList ++ [' '] ++ ['=', ' '] ++
          (a.value.render depth).toList)) ++ (trailingDecor a.decor false depth).toList) := by
    simp [Item.render, Printer.attributeLine, Text.padRight, ObjectKey.render, hvalue.isHeredoc]
  rw [htext]
  refine ((lexes_indent depth).append hline fun _ _ => trivial).mono ?_
  rintro _ ⟨_, _, rfl, rfl, _, after, rfl, ⟨k, equals, ls, rfl, hk, hequals, hls⟩, hafter⟩
  cases hk with
  | name hk => exact ⟨k :: equals :: ls, after, rfl, .attr hk hequals hls, hafter⟩

theorem lexes_label {l : Label} (hname : ∀ name, l = .bare name → IsName name) :
    Lexes (Printer.label l).toList (fun ls => ∃ t, ls = [t] ∧ SpellsLabel l t) WordEnds := by
  cases l with
  | quoted text =>
      have htext : (Printer.label (.quoted text)).toList =
          '"' :: (Template.escapeQuoted text.toList ++ ['"']) := by
        simp [Printer.label, quote]
      rw [htext]
      refine ((lexes_quoted text.toList).mono ?_).weaken fun _ _ => trivial
      rintro _ ⟨t, rfl, ht⟩
      exact ⟨t, rfl, .quoted ht⟩
  | bare name =>
      refine (lexes_word (hname name rfl)).mono ?_
      rintro _ ⟨t, rfl, ht⟩
      exact ⟨t, rfl, .bare ht⟩

/-- The text of the labels of a block, each after a blank. -/
def labelTexts (labels : List Label) : String :=
  Text.concat (labels.map fun l => " " ++ Printer.label l)

theorem wordEnds_labelTexts (labels : List Label) {rest : List Char} (hrest : WordEnds rest) :
    WordEnds ((labelTexts labels).toList ++ rest) := by
  cases labels with
  | nil => exact hrest
  | cons l labels => simpa [labelTexts, Text.concat] using wordEnds_cons (by decide)

theorem lexes_labels {labels : List Label} (hnames : ∀ name, .bare name ∈ labels → IsName name) :
    Lexes (labelTexts labels).toList (List.Forall₂ SpellsLabel labels) WordEnds := by
  induction labels with
  | nil => exact Lexes.nil.mono fun ls hls => by rw [hls]; exact .nil
  | cons l labels ih =>
      have hblank : Lexes [' '] (· = []) Anything := .blank rfl
      have hlabel := lexes_label (l := l) fun name hname => hnames name (by simp [hname])
      have hrest := ih fun name hname => hnames name (by simp [hname])
      have htext : (labelTexts (l :: labels)).toList =
          [' '] ++ ((Printer.label l).toList ++ (labelTexts labels).toList) := by
        simp [labelTexts, Text.concat]
      rw [htext]
      refine (hblank.append (hlabel.append hrest fun _ => wordEnds_labelTexts labels)
        fun _ _ => trivial).mono ?_
      rintro _ ⟨_, _, rfl, rfl, _, ls, rfl, ⟨t, rfl, ht⟩, hls⟩
      exact .cons ht hls

/-- The brace after a blank. -/
theorem lexes_opener : Lexes [' ', '\x7b'] (Single (.symbol .leftBrace)) Anything :=
  .spaced [' '] '\x7b' [] [] rfl rfl rfl fun _ _ => rfl

/-- The text of a body from its opening to its closing brace. -/
def contentText (depth : Nat) (b : Body) : String :=
  if b.isEmpty then " \x7b\x7d"
  else " \x7b\n" ++ b.render (depth + 1) ++ indent depth ++ "\x7d"

/-- The braces of a body and the lines between them. -/
def SpellsContent (depth : Nat) (b : Body) (ls : List Located) : Prop :=
  ∃ opener gap content closer, ls = opener :: (gap ++ (content ++ [closer])) ∧
    opener.token = .symbol .leftBrace ∧ IsGap gap ∧
    SpellsPassage (.lines (depth + 1) none b.items b.trailing) content ∧
    closer.token = .symbol .rightBrace

theorem lexes_content {b : Body} {depth : Nat}
    (hlines : Lexes (b.render (depth + 1)).toList
      (SpellsPassage (.lines (depth + 1) none b.items b.trailing)) Anything) :
    Lexes (contentText depth b).toList (SpellsContent depth b) Anything := by
  unfold contentText
  split
  · rename_i hempty
    obtain ⟨hitems, htrailing⟩ : b.items = [] ∧ b.trailing = [] := by
      simpa [Body.isEmpty] using hempty
    have htext : (" \x7b\x7d" : String).toList = [' ', '\x7b'] ++ ['\x7d'] := rfl
    rw [htext]
    refine (lexes_opener.append lexes_rightBrace fun _ _ => trivial).mono ?_
    rintro _ ⟨_, _, rfl, ⟨opener, rfl, hopener⟩, closer, rfl, hcloser⟩
    refine ⟨opener, [], [], closer, rfl, hopener, .none, ?_, hcloser⟩
    rw [hitems, htrailing]
    exact .nil .nil
  · have hclose := (lexes_indent depth).append lexes_rightBrace fun _ _ => trivial
    have hclosed := hlines.append hclose fun _ _ => trivial
    have hinside := lexes_newline.append hclosed fun _ _ => trivial
    have htext : (" \x7b\n" ++ b.render (depth + 1) ++ indent depth ++ "\x7d").toList =
        [' ', '\x7b'] ++ (['\n'] ++ ((b.render (depth + 1)).toList ++
          ((indent depth).toList ++ ['\x7d']))) := by
      simp
    rw [htext]
    refine (lexes_opener.append hinside fun _ _ => trivial).mono ?_
    rintro _ ⟨_, _, rfl, ⟨opener, rfl, hopener⟩, _, _, rfl, ⟨line, rfl, hline⟩, content, _, rfl,
      hcontent, _, _, rfl, rfl, closer, rfl, hcloser⟩
    exact ⟨opener, [line], content, closer, rfl, hopener, .newline hline, hcontent, hcloser⟩

theorem toList_renderBlock (depth : Nat) (b : Block) :
    (b.render depth).toList = (indent depth).toList ++
      (b.type.toList ++ ((labelTexts b.labels).toList ++ ((contentText depth b.body).toList ++
        (trailingDecor b.decor false depth).toList))) := by
  rcases b with ⟨type, labels, body, decor, span⟩
  simp [Block.render, labelTexts, contentText]

theorem prints_block {b : Block} (htype : IsName b.type)
    (hlabels : ∀ name, .bare name ∈ b.labels → IsName name) (hdecor : b.decor.WellFormed)
    (hlines : ∀ depth, Lexes (b.body.render depth).toList
      (SpellsPassage (.lines depth none b.body.items b.body.trailing)) Anything) :
    PrintsItem (.block b) := by
  intro width depth
  have hcontent := (lexes_content (hlines (depth + 1))).append (lexes_trailing hdecor depth)
    fun _ _ => trivial
  have hblank (rest : List Char) : WordEnds ((contentText depth b.body).toList ++ rest) := by
    unfold contentText
    split
    · exact wordEnds_cons (by decide)
    · simpa using wordEnds_cons (by decide)
  have hlabelled := (lexes_labels hlabels).append hcontent fun rest _ => by
    rw [List.append_assoc]
    exact hblank _
  have hhead := (lexes_word htype).append hlabelled fun rest _ => by
    rw [List.append_assoc, List.append_assoc]
    exact wordEnds_labelTexts _ (hblank _)
  rw [Item.render, toList_renderBlock]
  refine ((lexes_indent depth).append hhead fun _ _ => trivial).mono ?_
  rintro _ ⟨_, _, rfl, rfl, _, _, rfl, ⟨type, rfl, htype⟩, labels, _, rfl, hlabels, _, after, rfl,
    ⟨opener, gap, content, closer, rfl, hopener, hgap, hcontent, hcloser⟩, hafter⟩
  exact ⟨_, after, by simp, .block htype hlabels hopener hgap hcontent hcloser, hafter⟩

/-! ## Lines -/

theorem lexes_blank (blank : Bool) :
    Lexes (if blank then "\n" else "").toList (SpellsBlank blank) Anything := by
  cases blank with
  | false => exact Lexes.nil.mono fun ls hls => by rw [hls]; exact .none
  | true =>
      refine lexes_newline.mono ?_
      rintro _ ⟨line, rfl, hline⟩
      exact .line hline

/-- The items of a body, each up to the end of its line, and the comments after them. -/
theorem lexes_items {items : List Item} {trailing : List String}
    (hitems : ∀ item ∈ items, PrintsItem item) (hdecor : ∀ item ∈ items, item.decor.WellFormed)
    (htrailing : ∀ text ∈ trailing, IsComment text) (depth : Nat) (previous : Option Item)
    (widths : List Nat) :
    Lexes ((renderItems depth previous items widths).toList ++
        (Printer.comments depth trailing).toList)
      (SpellsPassage (.lines depth previous items trailing)) Anything := by
  induction items generalizing previous widths with
  | nil => exact (lexes_comments htrailing depth).mono fun ls hls => .nil hls
  | cons item items ih =>
      have hrest := lexes_newline.append (ih (fun d hd => hitems d (by simp [hd]))
        (fun d hd => hdecor d (by simp [hd])) (some item) widths.tail) fun _ _ => trivial
      -- Each item is ended by a newline, whatever comes behind it.
      have hends : ∀ rest, Anything rest → LineEnds (['\n'] ++
          ((renderItems depth (some item) items widths.tail).toList ++
            (Printer.comments depth trailing).toList) ++ rest) := fun _ _ => rfl
      have hitem := (hitems item (by simp) (widths.headD 0) depth).append hrest hends
      have hleading := lexes_comments (hdecor item (by simp)).leading depth
      have hline := (lexes_blank (blankAfter depth previous item)).append
        (hleading.append hitem fun _ _ => trivial) fun _ _ => trivial
      have htext : (renderItems depth previous (item :: items) widths).toList ++
          (Printer.comments depth trailing).toList =
          (if blankAfter depth previous item then "\n" else "").toList ++
            ((Printer.comments depth item.decor.leading).toList ++
              ((item.render (widths.headD 0) depth).toList ++ (['\n'] ++
                ((renderItems depth (some item) items widths.tail).toList ++
                  (Printer.comments depth trailing).toList)))) := by
        rw [renderItems]
        simp only [String.toList_append, List.append_assoc]
        rfl
      rw [htext]
      refine hline.mono ?_
      rintro _ ⟨blank, _, rfl, hblank, leading, _, rfl, hleading, _, _, rfl,
        ⟨ls, after, rfl, hls, hafter⟩, _, rest, rfl, ⟨line, rfl, hline⟩, hrest⟩
      rw [List.append_assoc]
      exact .cons hblank hleading hls hafter hline hrest

theorem lexes_body {b : Body} (hitems : ∀ item ∈ b.items, PrintsItem item)
    (hdecor : ∀ item ∈ b.items, item.decor.WellFormed)
    (htrailing : ∀ text ∈ b.trailing, IsComment text) (depth : Nat) :
    Lexes (b.render depth).toList (SpellsPassage (.lines depth none b.items b.trailing))
      Anything := by
  rcases b with ⟨items, trailing⟩
  rw [Body.render, String.toList_append]
  exact lexes_items hitems hdecor htrailing depth none _

theorem Item.WellFormed.prints {item : Item} (h : item.WellFormed Printable) :
    PrintsItem item := by
  induction h with
  | attr hkey hvalue hdecor => exact prints_attribute hkey hvalue hdecor
  | block htype hlabels hitems htrailing hdecor ih =>
      exact prints_block htype hlabels hdecor
        (lexes_body ih (fun item hitem => (hitems item hitem).decor) htrailing)

/-- A well-formed body of printable values is cut into tokens that spell it, where it is printed. -/
theorem Body.WellFormed.lexes {b : Body} (h : b.WellFormed Printable) (depth : Nat) :
    Lexes (b.render depth).toList (SpellsPassage (.lines depth none b.items b.trailing))
      Anything :=
  lexes_body (fun item hitem => (h.items item hitem).prints)
    (fun item hitem => (h.items item hitem).decor) h.trailing depth

/-! ## The ends of lines -/

/-- The text ends with a single line break. -/
def EndsLine (text : List Char) : Prop :=
  ∃ front c, text = front ++ [c, '\n'] ∧ c ≠ '\n'

theorem EndsLine.append {text' : List Char} (text : List Char) (h : EndsLine text') :
    EndsLine (text ++ text') := by
  rcases h with ⟨front, c, rfl, hc⟩
  exact ⟨text ++ front, c, (List.append_assoc ..).symm, hc⟩

/-- The text does not end with a line break. -/
def EndsInline (text : List Char) : Prop :=
  ∃ front c, text = front ++ [c] ∧ c ≠ '\n'

theorem EndsInline.append {text' : List Char} (text : List Char) (h : EndsInline text') :
    EndsInline (text ++ text') := by
  rcases h with ⟨front, c, rfl, hc⟩
  exact ⟨text ++ front, c, (List.append_assoc ..).symm, hc⟩

theorem EndsInline.endsLine {text : List Char} (h : EndsInline text) :
    EndsLine (text ++ ['\n']) := by
  rcases h with ⟨front, c, rfl, hc⟩
  exact ⟨front, c, by simp, hc⟩

theorem EndsPlain.endsInline {text : List Char} (h : EndsPlain text) : EndsInline text := by
  rcases h with ⟨front, c, rfl, hc⟩
  refine ⟨front, c, rfl, ?_⟩
  rintro rfl
  exact absurd hc (by decide)

theorem throughCommentEnd?_endsInline {cs inside after : List Char}
    (h : Lexeme.throughCommentEnd? cs = some (inside, after)) : EndsInline inside := by
  fun_induction Lexeme.throughCommentEnd? cs generalizing inside with
  | case1 cs =>
      obtain ⟨rfl, rfl⟩ := Prod.mk.inj (Option.some.inj h)
      exact ⟨['*'], '/', rfl, by decide⟩
  | case2 c cs _ ih =>
      obtain ⟨⟨front, after'⟩, hfront, hpair⟩ := Option.map_eq_some_iff.1 h
      obtain ⟨rfl, rfl⟩ := Prod.mk.inj hpair
      exact (ih hfront).append [c]
  | case3 => simp at h

theorem IsComment.endsInline {text : String} (h : IsComment text) : EndsInline text.toList := by
  rcases h with h | ⟨inside, htext, hinside⟩
  · have hne : text.toList ≠ [] := by
      rcases h.opener with ⟨cs, htext⟩ | ⟨cs, htext⟩ <;> simp [htext]
    exact ⟨_, _, (List.dropLast_append_getLast hne).symm, h.inline _ (List.getLast_mem hne)⟩
  · rw [htext]
    exact (throughCommentEnd?_endsInline hinside).append ['/', '*']

theorem endsInline_trailing {text : List Char} {d : Decor} (htext : EndsInline text)
    (hd : d.WellFormed) (depth : Nat) :
    EndsInline (text ++ (trailingDecor d false depth).toList) := by
  rcases d with ⟨leading, trailing, blank⟩
  cases trailing with
  | none => simpa [trailingDecor] using htext
  | some comment =>
      have hcomment := (hd.trailing comment rfl).endsInline
      simpa [trailingDecor] using (hcomment.append [' ']).append text

theorem endsInline_content (depth : Nat) (b : Body) :
    EndsInline (contentText depth b).toList := by
  have hclose : EndsInline ['\x7d'] := ⟨[], '\x7d', rfl, by decide⟩
  unfold contentText
  split
  · exact hclose.append [' ', '\x7b']
  · rw [String.toList_append]
    exact hclose.append _

theorem Item.WellFormed.endsInline {item : Item} (h : item.WellFormed Printable)
    (width depth : Nat) : EndsInline (item.render width depth).toList := by
  cases h with
  | @attr a _ hvalue hdecor =>
      have hline := endsInline_trailing (hvalue.plain depth).2.endsInline hdecor depth
      simp only [Item.render, Printer.attributeLine, hvalue.isHeredoc, String.toList_append,
        List.append_assoc]
      exact .append _ (.append _ (.append _ hline))
  | @block b _ _ _ _ hdecor =>
      have hline := endsInline_trailing (endsInline_content depth b.body) hdecor depth
      have htext : (Block.render depth b).toList =
          ((indent depth).toList ++ (b.type.toList ++ (labelTexts b.labels).toList)) ++
            ((contentText depth b.body).toList ++ (trailingDecor b.decor false depth).toList) := by
        rw [toList_renderBlock]
        simp only [List.append_assoc]
      rw [Item.render, htext]
      exact hline.append _

theorem endsLine_comments {texts : List String} (hne : texts ≠ [])
    (h : ∀ text ∈ texts, IsComment text) (depth : Nat) :
    EndsLine (Printer.comments depth texts).toList := by
  induction texts with
  | nil => exact absurd rfl hne
  | cons text texts ih =>
      have htext : (Printer.comments depth (text :: texts)).toList = (indent depth).toList ++
          (text.toList ++ ['\n'] ++ (Printer.comments depth texts).toList) := by
        simp [Printer.comments, Text.concat]
      rw [htext]
      -- Only the last comment matters.
      by_cases hnil : texts = []
      · subst hnil
        rw [show (Printer.comments depth []).toList = [] from rfl, List.append_nil]
        exact (h text (by simp)).endsInline.endsLine.append _
      · exact ((ih hnil fun c hc => h c (by simp [hc])).append _).append _

theorem endsLine_items {items : List Item} (hne : items ≠ [])
    (h : ∀ item ∈ items, item.WellFormed Printable) (depth : Nat) (previous : Option Item)
    (widths : List Nat) : EndsLine (renderItems depth previous items widths).toList := by
  induction items generalizing previous widths with
  | nil => exact absurd rfl hne
  | cons item items ih =>
      rw [renderItems, String.toList_append, String.toList_append]
      by_cases hnil : items = []
      · subst hnil
        rw [renderItems, String.toList_append, String.toList_empty, List.append_nil]
        exact (((h item (by simp)).endsInline _ depth).append _).endsLine
      · exact (ih hnil (fun d hd => h d (by simp [hd])) (some item) widths.tail).append _

/-- A body that is not empty is printed with one line break at its end. -/
theorem Body.WellFormed.endsLine {b : Body} (h : b.WellFormed Printable) (depth : Nat) :
    b.isEmpty = true ∨ EndsLine (b.render depth).toList := by
  rcases b with ⟨items, trailing⟩
  rw [Body.render, String.toList_append]
  by_cases htrailing : trailing = []
  · by_cases hitems : items = []
    · exact .inl (by simp [Body.isEmpty, hitems, htrailing])
    · subst htrailing
      rw [show (Printer.comments depth []).toList = [] from rfl, List.append_nil]
      exact .inr (endsLine_items hitems h.items depth none _)
  · exact .inr ((endsLine_comments htrailing h.trailing depth).append _)

/-- Such a body is written to a file as it is printed. -/
theorem Body.WellFormed.formatBody_eq {b : Body} (h : b.WellFormed Printable) :
    formatBody b = b.render 0 := by
  rcases h.endsLine 0 with hempty | ⟨front, c, htext, hc⟩
  · obtain ⟨hitems, htrailing⟩ : b.items = [] ∧ b.trailing = [] := by
      simpa [Body.isEmpty] using hempty
    rcases b with ⟨items, trailing⟩
    subst hitems htrailing
    rfl
  · have hdrop : (Text.dropEnd (· == '\n') (b.render 0)).toList = front ++ [c] := by
      have hplain : (c == '\n') = false := beq_eq_false_iff_ne.2 hc
      rw [toList_dropEnd, htext, List.append_cons, dropEndWhile_append_of_all rfl,
        dropEndWhile_append_singleton (p := (· == '\n')) hplain]
    have hne : (Text.dropEnd (· == '\n') (b.render 0)).isEmpty = false := by
      rw [String.isEmpty_eq_false_iff, ne_eq, ← String.toList_eq_nil_iff, hdrop]
      simp
    simp only [formatBody, hne, Bool.false_eq_true, if_false]
    rw [← String.toList_inj, String.toList_append, hdrop, htext]
    simp

end Hcl
end ProviderMigration
