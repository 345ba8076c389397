import ProviderMigration.Hcl.Printer.Expr
import ProviderMigration.Proofs.Hcl.Parser.Reading
import ProviderMigration.Proofs.Hcl.Template.Sequence
import ProviderMigration.Proofs.Hcl.Token.Tiling

/-!
# Printing a heredoc that was read

The parser takes the content of a heredoc apart and the printer puts it together again. Doubled
openers are decoded on the way in and doubled again on the way out, once for each literal part; that
this gives the same text depends on where literal parts begin and end.

* `escapeMarkers_eq` — the two markers are doubled one after the other or both at once;
* `Sequence.Reprinted` — what is printed for a sequence;
* `Reprint` — the content as it is printed: what belongs to no sequence is copied;
* `reprint_of_template` — the parts of a content are printed so;
* `HeredocText.render_reprints` — a heredoc is printed with that content between its opening line
  and its marker, and no line break is added.
-/

namespace ProviderMigration
namespace Hcl
namespace Template

open Text (byteLength)

variable {offset fuel place : Nat} {c : Char} {cs front text raw printed chars : List Char}
  {segment : Segment} {segments : List Segment} {q : Sequence} {r : Parser.Region}
  {part : TemplatePart} {parts : List TemplatePart}

/-! ## Markers -/

theorem escapeMarkers_opener (hc : c = '$' ∨ c = '%') (cs : List Char) :
    escapeMarkers (c :: '\x7b' :: cs) = c :: c :: '\x7b' :: escapeMarkers cs := by
  rcases hc with rfl | rfl <;> rfl

theorem escapeMarkers_cons (h : opener? (c :: cs) = none) :
    escapeMarkers (c :: cs) = c :: escapeMarkers cs := by
  refine escapeMarkers.eq_3 c cs ?_ ?_
  · rintro rest rfl rfl
    cases h
  · rintro rest rfl rfl
    cases h

/-- Doubles one marker where it opens a sequence. -/
def doubleMarker (marker : Char) : List Char → List Char
  | [] => []
  | c :: cs =>
    if c = marker ∧ cs.head? = some '\x7b' then c :: c :: doubleMarker marker cs
    else c :: doubleMarker marker cs

theorem head?_doubleMarker (marker : Char) (cs : List Char) :
    (doubleMarker marker cs).head? = cs.head? := by
  cases cs with
  | nil => rfl
  | cons c cs =>
      rw [doubleMarker]
      split <;> rfl

/-- The markers may be doubled one after the other: a dollar sign that was added opens no sequence
of the other kind, and takes no brace away from one. -/
theorem escapeMarkers_eq (cs : List Char) :
    escapeMarkers cs = doubleMarker '%' (doubleMarker '$' cs) := by
  induction cs using escapeMarkers.induct with
  | case1 cs ih =>
      rw [escapeMarkers_opener (.inl rfl), ih]
      rfl
  | case2 cs ih =>
      rw [escapeMarkers_opener (.inr rfl), ih]
      rfl
  | case3 c cs hdollar hpercent ih =>
      have hnone (marker : Char) (h : ∀ rest, c = marker → cs = '\x7b' :: rest → False) :
          ¬ (c = marker ∧ cs.head? = some '\x7b') := by
        rintro ⟨hc, hhead⟩
        obtain ⟨rest, hrest⟩ := List.head?_eq_some_iff.1 hhead
        exact h rest hc hrest
      rw [escapeMarkers.eq_3 c cs hdollar hpercent, ih, doubleMarker, if_neg (hnone '$' hdollar),
        doubleMarker, head?_doubleMarker, if_neg (hnone '%' hpercent)]
  | case4 => rfl

/-- Whether an opener starts depends on the next character only. -/
theorem opener?_cons_congr (hhead : cs.head? = raw.head?) (h : opener? (c :: raw) = none) :
    opener? (c :: cs) = none := by
  rw [Option.eq_none_iff_forall_not_mem]
  rintro ⟨d, rest⟩ hopener
  obtain ⟨hd, heq⟩ := opener?_eq_some_iff.1 hopener
  obtain ⟨rfl, rfl⟩ := List.cons.inj heq
  obtain ⟨rest', rfl⟩ := List.head?_eq_some_iff.1 hhead.symm
  rw [opener?_eq_some_iff.2 ⟨hd, rfl⟩] at h
  cases h

/-! ## What is printed -/

/-- The parts of a heredoc as they are printed. -/
def written (parts : List TemplatePart) : List Char :=
  (renderParts escapeMarkers parts).toList

theorem written_nil : written [] = [] := by
  rw [written, renderParts]
  rfl

theorem written_cons (part : TemplatePart) (parts : List TemplatePart) :
    written (part :: parts) = (part.render escapeMarkers).toList ++ written parts := by
  rw [written, renderParts, String.toList_append, written]

theorem written_literal (text : List Char) (parts : List TemplatePart) :
    written (.literal (String.ofList text) :: parts) = escapeMarkers text ++ written parts := by
  rw [written_cons, TemplatePart.render, String.toList_ofList, String.toList_ofList]

/-- What is printed for a sequence: the expression that was read between its braces is formatted,
the strip markers of an interpolation and the text around the expression of a directive stay. A
directive without an expression stays as it is. -/
inductive Sequence.Reprinted (q : Sequence) : List Char → Prop
  | interpolation {stripLeft stripRight : Bool} {place fuel : Nat} {expr : List Char} {e : Expr}
      (hcut : q.CutAs (.interpolation stripLeft stripRight place expr))
      (hread : Parser.embedded fuel place expr = .ok e) :
      q.Reprinted ('$' :: '\x7b' :: (tilde stripLeft ++
        ((formatExpr e).toList ++ (tilde stripRight ++ ['\x7d']))))
  | directive {place fuel : Nat} {head expr tail : List Char} {e : Expr}
      (hcut : q.CutAs (.directive head place expr tail))
      (hread : Parser.embedded fuel place expr = .ok e) :
      q.Reprinted (head ++ ((formatExpr e).toList ++ tail))
  | verbatim (hcut : q.CutAs (.verbatim q.chars)) : q.Reprinted q.chars

/-- The raw text that stands `offset` bytes into its source, and that text as it is printed: all
that belongs to no sequence is copied, doubled openers among it. -/
inductive Reprint : Nat → List Char → List Char → Prop
  | nil (offset : Nat) : Reprint offset [] []
  | doubled {offset : Nat} {c : Char} {raw printed : List Char} (hc : c = '$' ∨ c = '%')
      (hrest : Reprint (offset + 3) raw printed) :
      Reprint offset (c :: c :: '\x7b' :: raw) (c :: c :: '\x7b' :: printed)
  | sequence {offset : Nat} {q : Sequence} {raw chars printed : List Char}
      (hmarker : q.marker = '$' ∨ q.marker = '%') (hoffset : q.offset = offset)
      (hclosed : bracedText? (q.inside ++ '\x7d' :: raw) = some (q.inside, raw))
      (hchars : q.Reprinted chars) (hrest : Reprint (offset + byteLength q.chars) raw printed) :
      Reprint offset (q.chars ++ raw) (chars ++ printed)
  | plain {offset : Nat} {c : Char} {raw printed : List Char}
      (hdoubled : doubledOpener? (c :: raw) = none) (hopener : opener? (c :: raw) = none)
      (hrest : Reprint (offset + c.utf8Size) raw printed) :
      Reprint offset (c :: raw) (c :: printed)

theorem Reprint.eq_nil (h : Reprint offset [] printed) : printed = [] := by
  generalize hraw : ([] : List Char) = raw at h
  cases h with
  | nil => rfl
  | doubled => cases hraw
  | sequence => cases hraw
  | plain => cases hraw

/-- A line break at the end is printed at the end: no sequence ends with one. -/
theorem Reprint.getLast?_eq (h : Reprint offset raw printed) (hend : raw.getLast? = some '\n') :
    printed.getLast? = some '\n' := by
  -- What is not the last piece leaves the line break to the pieces behind it.
  have hbehind {front raw front' printed : List Char} (hfront : front.getLast? ≠ some '\n')
      (ih : raw.getLast? = some '\n' → printed.getLast? = some '\n')
      (hend : (front ++ raw).getLast? = some '\n') : (front' ++ printed).getLast? = some '\n' := by
    rw [List.getLast?_append] at hend ⊢
    rcases Option.or_eq_some_iff.1 hend with hraw | ⟨-, hlast⟩
    · rw [ih hraw, Option.some_or]
    · exact absurd hlast hfront
  induction h with
  | nil => exact hend
  | @doubled offset c raw printed hc hrest ih =>
      exact @hbehind [c, c, '\x7b'] raw [c, c, '\x7b'] printed (by simp) ih hend
  | sequence hmarker hoffset hclosed hchars hrest ih =>
      refine hbehind ?_ ih hend
      simp [Sequence.chars, List.getLast?_cons]
  | @plain offset c raw printed hdoubled hopener hrest ih =>
      cases raw with
      | nil =>
          rw [hrest.eq_nil]
          exact hend
      | cons d raw =>
          rw [List.getLast?_cons_cons] at hend
          rw [List.getLast?_cons, ih hend]
          rfl

/-! ## Reading and printing -/

theorem template_cons_eq_ok :
    Parser.template fuel r (segment :: segments) = .ok parts ↔
      ∃ less part later, fuel = less + 1 ∧ Parser.segmentPart less segment = .ok part ∧
        Parser.template less r segments = .ok later ∧ parts = part :: later := by
  cases fuel with
  | zero => simp [Parser.template]
  | succ fuel =>
      rw [Parser.template_cons, bind_eq_ok]
      constructor
      · rintro ⟨part, hpart, h⟩
        obtain ⟨later, hlater, h⟩ := bind_eq_ok.1 h
        exact ⟨fuel, part, later, rfl, hpart, hlater, (Except.ok.inj h).symm⟩
      · rintro ⟨less, part, later, hless, hpart, hlater, rfl⟩
        obtain rfl := Nat.succ.inj hless
        exact ⟨part, hpart, bind_eq_ok.2 ⟨later, hlater, rfl⟩⟩

/-- Literal text that was put in front is printed in front. It may have become one literal part with
the text behind it, so it must be written there as it is written alone. -/
theorem written_pushLiteral {spelling : List Char} (halone : escapeMarkers front = spelling)
    (hmerged : ∀ text rest, segments = .literal text :: rest →
      escapeMarkers (front ++ text) = spelling ++ escapeMarkers text)
    (h : Parser.template fuel r (pushLiteral front segments) = .ok parts) :
    ∃ fuel' later, Parser.template fuel' r segments = .ok later ∧
      written parts = spelling ++ written later := by
  rcases pushLiteral_cases front segments with ⟨text, rest, rfl, heq⟩ | heq
  · rw [heq] at h
    obtain ⟨less, part, later, rfl, hpart, hlater, rfl⟩ := template_cons_eq_ok.1 h
    obtain rfl := Except.ok.inj hpart
    refine ⟨less + 1, _, template_cons_eq_ok.2 ⟨less, _, later, rfl, rfl, hlater, rfl⟩, ?_⟩
    rw [written_literal, written_literal, hmerged text rest rfl, List.append_assoc]
  · rw [heq] at h
    obtain ⟨less, part, later, rfl, hpart, hlater, rfl⟩ := template_cons_eq_ok.1 h
    obtain rfl := Except.ok.inj hpart
    refine ⟨less, later, hlater, ?_⟩
    rw [written_literal, halone]

theorem toList_tilde (strip : Bool) : (if strip then "~" else "").toList = tilde strip := by
  cases strip <;> rfl

theorem reprinted_of_segmentPart (hcut : q.CutAs segment)
    (h : Parser.segmentPart fuel segment = .ok part) :
    q.Reprinted (part.render escapeMarkers).toList := by
  cases hcut with
  | interpolation stripLeft stripRight expr hmarker hinside hleft hright =>
      obtain ⟨e, hread, rfl⟩ := map_eq_ok.1 h
      have hprinted := Sequence.Reprinted.interpolation
        (.interpolation stripLeft stripRight expr hmarker hinside hleft hright) hread
      rw [TemplatePart.render]
      simp only [String.toList_append, toList_tilde, List.append_assoc]
      exact hprinted
  | directive head expr tail controlled hmarker hchars hcontrolled hexpr =>
      obtain ⟨e, hread, rfl⟩ := map_eq_ok.1 h
      have hprinted := Sequence.Reprinted.directive
        (.directive head expr tail controlled hmarker hchars hcontrolled hexpr) hread
      rw [TemplatePart.render, renderOptional]
      simp only [String.toList_append, String.toList_ofList, List.append_assoc]
      exact hprinted
  | verbatim hmarker hnone =>
      obtain rfl := Except.ok.inj h
      rw [TemplatePart.render, renderOptional]
      simpa using Sequence.Reprinted.verbatim (.verbatim hmarker hnone)

/-- The parts that are read from a raw text are printed as that text, but for its sequences. -/
theorem reprint_of_template (h : Parser.template fuel r (split false offset raw) = .ok parts) :
    Reprint offset raw (written parts) := by
  have hsplits := splits false offset raw
  generalize split false offset raw = segments at h hsplits
  induction hsplits generalizing fuel parts with
  | nil offset =>
      rw [Parser.template_nil] at h
      obtain rfl := Except.ok.inj h
      rw [written_nil]
      exact .nil offset
  | doubled hc _ ih =>
      obtain ⟨fuel', later, hlater, hwritten⟩ := written_pushLiteral (escapeMarkers_opener hc [])
        (fun text _ _ => escapeMarkers_opener hc text) h
      rw [hwritten]
      exact .doubled hc (ih hlater)
  | unclosed =>
      obtain ⟨less, part, later, -, hpart, -⟩ := template_cons_eq_ok.1 h
      cases hpart
  | @sequence offset c inside after segments hc hbraced _ ih =>
      obtain ⟨less, part, later, rfl, hpart, hlater, rfl⟩ := template_cons_eq_ok.1 h
      let q : Sequence := ⟨c, offset, inside⟩
      have hchars : byteLength q.chars = 3 + byteLength inside := byteLength_sequence hc inside
      have hrest := ih hlater
      rw [Nat.add_assoc, ← hchars] at hrest
      have hraw : c :: '\x7b' :: (inside ++ '\x7d' :: after) = q.chars ++ after := by
        simp only [Sequence.chars, q, List.cons_append, List.append_assoc, List.nil_append]
      rw [hraw, written_cons]
      exact .sequence hc rfl hbraced (reprinted_of_segmentPart (cutAs_segment hc) hpart) hrest
  | invalidEscape hescapes => cases hescapes
  | escape hescapes => cases hescapes
  | @plain offset c cs segments _ hdoubled hopener hrest ih =>
      have halone : escapeMarkers [c] = [c] := escapeMarkers_cons (by simp [opener?])
      -- Merged with the text behind it, it is still followed by what follows it in the raw text.
      have hmerged : ∀ text later, segments = .literal text :: later →
          escapeMarkers (c :: text) = c :: escapeMarkers text := by
        rintro text later rfl
        rcases hrest.head?_literal with hhead | ⟨_, _, _, hescapes, -⟩
        · exact escapeMarkers_cons (opener?_cons_congr hhead hopener)
        · cases hescapes
      obtain ⟨fuel', later, hlater, hwritten⟩ := written_pushLiteral halone hmerged h
      rw [hwritten]
      exact .plain hdoubled hopener (ih hlater)

end Template

/-! ## The content of a heredoc -/

variable {offset fuel : Nat} {cs chars after : List Char} {tokens : List Located} {t : Located}
  {text : HeredocText} {lines more : List (List Char)} {line : List Char}

theorem getLast?_firstLine (h : '\n' ∈ cs) : (firstLine cs).getLast? = some '\n' := by
  induction cs with
  | nil => cases h
  | cons c cs ih =>
      by_cases hc : c = '\n'
      · subst hc
        rfl
      · rw [(firstLine_cons hc cs).1, List.getLast?_cons,
          ih ((List.mem_cons.1 h).resolve_left (Ne.symm hc)), Option.getD_some]

/-- Every line but the last one ends with its line break. -/
theorem getLast?_of_splitLines (h : splitLines cs = lines ++ line :: more) :
    ∀ l ∈ lines, l.getLast? = some '\n' := by
  induction lines generalizing cs with
  | nil => exact List.forall_mem_nil _
  | cons first lines ih =>
      have hne : cs ≠ [] := by
        rintro rfl
        cases h
      rw [splitLines_of_ne_nil hne] at h
      obtain ⟨rfl, hrest⟩ := List.cons.inj h
      refine List.forall_mem_cons.2 ⟨getLast?_firstLine ?_, ih hrest⟩
      -- There is a line behind the first one.
      by_contra hbreak
      rw [(firstLine_of_not_mem hbreak).2] at hrest
      cases lines <;> cases hrest

/-- Lines with their line breaks are no text, or end with a line break. -/
theorem getLast?_flatten (h : ∀ l ∈ lines, l.getLast? = some '\n') :
    lines.flatten = [] ∨ lines.flatten.getLast? = some '\n' := by
  rcases List.eq_nil_or_concat' lines with rfl | ⟨front, last, rfl⟩
  · exact .inl rfl
  · right
    rw [List.flatten_append, List.flatten_singleton, List.getLast?_append,
      h last (List.mem_append_right _ (.head _)), Option.some_or]

theorem HeredocText.Written.content_eq_nil_or (h : text.Written chars after) :
    text.content = [] ∨ text.content.getLast? = some '\n' := by
  obtain ⟨lineBreak, lines, line, marker, more, -, -, hlines, hcontent, -⟩ := h
  rw [hcontent]
  exact getLast?_flatten (getLast?_of_splitLines hlines)

/-- A content that ends with its last line is printed between the opening line and the marker. -/
theorem Printer.toList_heredoc (h : Heredoc) {content : String}
    (hend : content = "" ∨ content.toList.getLast? = some '\n') :
    (Printer.heredoc h content).toList =
      '<' :: '<' :: ((if h.indented then ['-'] else []) ++ h.delimiter.toList) ++ ['\n'] ++
        (content.toList ++ (h.closingIndent.toList ++ h.delimiter.toList)) := by
  have hlineEnd : (content.isEmpty || content.toList.getLast? = some '\n') = true := by
    rcases hend with rfl | hend
    · rfl
    · rw [decide_eq_true hend, Bool.or_true]
  have hopener : (if h.indented then "<<-" else "<<").toList =
      '<' :: '<' :: (if h.indented then ['-'] else []) := by
    cases h.indented <;> rfl
  simp only [Printer.heredoc, hlineEnd, if_true, String.toList_append, hopener, List.append_assoc,
    List.cons_append]
  rfl

/-- A heredoc whose content the parser accepts is printed with that content, in which only the
sequences are replaced, and with nothing between it and the closing marker. -/
theorem HeredocText.render_reprints {r : Parser.Region} {parts : List TemplatePart}
    (htokens : tokenizeAt offset cs = .ok tokens) (ht : t ∈ tokens)
    (htext : t.token = .heredoc text)
    (hparts : Parser.template fuel r
      (Template.split false (t.span.start + text.openerWidth) text.content) = .ok parts) :
    ∃ content, Template.Reprint (t.span.start + text.openerWidth) text.content content ∧
      (Heredoc.render ⟨text.delimiter, text.indented, parts, text.closingIndent⟩).toList =
        text.opening ['\n'] ++
          (content ++ (text.closingIndent.toList ++ text.delimiter.toList)) := by
  have hreprint := Template.reprint_of_template hparts
  refine ⟨_, hreprint, ?_⟩
  obtain ⟨before, l, hread⟩ := exists_readAt htokens t ht
  obtain ⟨c, rest, -, hlexeme⟩ := hread.read
  have hwritten := Lexeme.written_of_read hlexeme
  rw [Lexeme.Written, ← hread.token, htext] at hwritten
  rw [Heredoc.render]
  refine Printer.toList_heredoc _ ?_
  rcases HeredocText.Written.content_eq_nil_or hwritten with hcontent | hend
  · rw [hcontent] at hreprint
    exact .inl (String.toList_eq_nil_iff.1 hreprint.eq_nil)
  · exact .inr (hreprint.getLast?_eq hend)

/-- Doubled openers behind a single marker and before a backslash, an interpolation with strip
markers before a brace, a directive, a carriage return and an empty line. -/
theorem HeredocText.render_reprints_strip :
    let raw := "\t$$$\x7bx\x7d%%\x7b\\n$\x7b~ a[ 0 ]~\x7d\x7b\n%\x7b if  a==b ~\x7d\r\n\n".toList
    let printed := "\t$$$\x7bx\x7d%%\x7b\\n$\x7b~a[0]~\x7d\x7b\n%\x7b if  a == b ~\x7d\r\n\n".toList
    let text : HeredocText := ⟨"E", true, raw, "  ", 6⟩
    ∃ t parts, tokenizeAt 0 ("<<-E\r\n".toList ++ (raw ++ "  E".toList)) = .ok [t] ∧
      t.token = .heredoc text ∧
      Parser.template 64 ⟨false, 52⟩ (Template.split false (t.span.start + 6) raw) = .ok parts ∧
      Template.Reprint (t.span.start + 6) raw printed ∧
      (Heredoc.render ⟨"E", true, parts, "  "⟩).toList =
        "<<-E\n".toList ++ (printed ++ "  E".toList) := by
  intro raw printed text
  have htokens : tokenizeAt 0 ("<<-E\r\n".toList ++ (raw ++ "  E".toList)) =
      .ok [⟨.heredoc text, ⟨0, 52⟩⟩] := by decide +kernel
  have hrendered : (Parser.template 64 ⟨false, 52⟩ (Template.split false 6 raw)).toOption.map
      (fun parts => (Heredoc.render ⟨"E", true, parts, "  "⟩).toList) =
      some ("<<-E\n".toList ++ (printed ++ "  E".toList)) := by decide +kernel
  obtain ⟨parts, hparts, hrendered⟩ := Option.map_eq_some_iff.1 hrendered
  have hparts := toOption_eq_some.1 hparts
  obtain ⟨content, hreprint, hrender⟩ :=
    HeredocText.render_reprints htokens (.head _) rfl hparts
  have hopening : text.opening ['\n'] = "<<-E\n".toList := by decide +kernel
  have hclosing : text.closingIndent.toList ++ text.delimiter.toList = "  E".toList := by
    decide +kernel
  rw [hopening, hclosing] at hrender
  obtain rfl : content = printed := List.append_cancel_right
    (List.append_cancel_left (hrender.symm.trans hrendered))
  exact ⟨_, parts, htokens, rfl, hparts, hreprint, hrender⟩

end Hcl
end ProviderMigration
