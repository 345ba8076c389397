import ProviderMigration.Proofs.Hcl.Token.Place

/-!
# Tokens tile their text

Each byte of a text belongs to one token or to a separator between two tokens, and each token says
what it is written with. Three kinds of tokens search for an end of their own: a quoted text ends
with its quote, a block comment with `*/`, and a heredoc with the first line that is its delimiter
between blanks.

* `HeredocText.Written` — the opening line, the content and the marker line of a heredoc;
* `Token.Written`, `written_of_read` — a token is written with the characters it was read from;
* `isSeparator_of_outside` — what belongs to no token separates tokens;
* `tokenize_tiles` — the tokens of a source with the separators between them make up the source.
-/

namespace ProviderMigration
namespace Hcl

open Text (byteLength)
open Lexeme (isSeparator)

/-! ## What tokens are written with -/

/-- The opening line of a heredoc with the line break at its end. -/
def HeredocText.opening (text : HeredocText) (lineBreak : List Char) : List Char :=
  '<' :: '<' :: ((if text.indented then ['-'] else []) ++ text.delimiter.toList) ++ lineBreak

/-- The heredoc is written with the characters, before the text behind them: its opening line, the
lines of its content, and the first line from there on that is its delimiter between blanks, which
is left without its line break. -/
def HeredocText.Written (text : HeredocText) (chars after : List Char) : Prop :=
  ∃ lineBreak lines line marker more,
    lineBreak ∈ [['\n'], ['\r', '\n']] ∧
    chars = text.opening lineBreak ++ (text.content ++ marker) ∧
    splitLines (text.content ++ marker ++ after) = lines ++ line :: more ∧
    text.content = lines.flatten ∧
    (∀ l ∈ lines, Text.trim l ≠ text.delimiter.toList) ∧
    Text.trim line = text.delimiter.toList ∧
    marker = Text.dropEndWhile (fun c => c == '\n' || c == '\r') line ∧
    text.closingIndent.toList = marker.takeWhile fun c => c == ' ' || c == '\t'

/-- The token is written with the characters, before the text behind them. -/
def Token.Written (chars after : List Char) : Token → Prop
  | .newline => chars = ['\n']
  | .lineComment text => text.toList = Text.trimEnd chars
  | .blockComment text => text.toList = chars
  | .ident name => name.toList = chars
  | .number text => text.toList = chars
  | .quoted raw => chars = '"' :: (raw ++ ['"'])
  | .heredoc text => text.Written chars after
  | .symbol s => chars = s.chars

namespace Lexeme

/-- The characters of the lexeme are what its token is written with. -/
def Written (l : Lexeme) : Prop :=
  l.token.Written l.chars l.rest

variable {c : Char} {cs : List Char} {l : Lexeme}

theorem written_lineComment (cs : List Char) : (lineComment cs).Written :=
  String.toList_ofList

/-! ### Heredocs -/

/-- The marker line is the first one that is the delimiter between blanks. -/
theorem untilMarker?_eq_some {delimiter content marker after : List Char}
    {lines : List (List Char)} (h : untilMarker? delimiter lines = some (content, marker, after)) :
    ∃ before line more, lines = before ++ line :: more ∧
      (∀ l ∈ before, Text.trim l ≠ delimiter) ∧ Text.trim line = delimiter ∧
      content = before.flatten ∧
      marker = Text.dropEndWhile (fun c => c == '\n' || c == '\r') line := by
  induction lines generalizing content with
  | nil => cases h
  | cons line lines ih =>
      rw [untilMarker?] at h
      split at h
      · rename_i htrim
        obtain ⟨rfl, rfl, rfl⟩ := Option.some.inj h
        exact ⟨[], line, lines, rfl, List.forall_mem_nil _, htrim, rfl, rfl⟩
      · rename_i htrim
        obtain ⟨⟨inside, found⟩, hfound, heq⟩ := Option.map_eq_some_iff.1 h
        obtain ⟨rfl, rfl⟩ := Prod.mk.inj heq
        obtain ⟨before, last, more, rfl, hbefore, hlast, rfl, hmarker⟩ := ih hfound
        exact ⟨line :: before, last, more, rfl, List.forall_mem_cons.2 ⟨htrim, hbefore⟩, hlast,
          rfl, hmarker⟩

theorem takeLineBreak_mem {cs : List Char} (h : (takeLineBreak cs).1 ≠ []) :
    (takeLineBreak cs).1 ∈ [['\n'], ['\r', '\n']] := by
  revert h
  unfold takeLineBreak
  split
  · exact fun _ => .head _
  · exact fun _ => .tail _ (.head _)
  · exact fun h => absurd rfl h

/-- What stands between the start of a heredoc and its delimiter is a dash, if it is indented. -/
theorem takeOne_dash (cs : List Char) :
    (takeOne (· == '-') cs).1 = if (takeOne (· == '-') cs).1 ≠ [] then ['-'] else [] := by
  cases cs with
  | nil => rfl
  | cons c cs =>
      by_cases hc : c = '-'
      · simp [takeOne, hc]
      · simp [takeOne, hc]

theorem HeredocRule.written (h : HeredocRule cs l) : l.Written := by
  cases h with
  | marked hdash hname hline hbreak hmarker =>
      rename_i dash name lineBreak lines content marker after
      have happend := untilMarker?_eq_append hmarker
      obtain ⟨before, line, more, hlines, hfirst, htrim, hcontent, hmarker⟩ :=
        untilMarker?_eq_some hmarker
      rw [splitLines_flatten] at happend
      have hbreak' : (takeLineBreak (name.dropWhile isIdentChar)).1 ≠ [] := by rwa [hline]
      have hnewline := takeLineBreak_mem hbreak'
      have hdash' := takeOne_dash cs
      rw [hline] at hnewline
      rw [hdash] at hdash'
      refine ⟨_, before, line, marker, more, hnewline, ?_, ?_, hcontent, ?_, ?_, hmarker,
        String.toList_ofList⟩
      · rw [HeredocText.opening, String.toList_ofList, List.append_assoc]
        simpa using hdash'
      · rw [happend, hlines]
      · rwa [String.toList_ofList]
      · rwa [String.toList_ofList]

theorem written_of_read (h : read c cs = .ok l) : l.Written := by
  cases read_ok_iff.1 h with
  | ident | number => exact String.toList_ofList
  | hashComment | slashComment => exact written_lineComment _
  | blockComment => exact String.toList_ofList
  | heredoc hheredoc => exact hheredoc.written
  | newline | quoted | symbol => rfl

end Lexeme

/-! ## Between tokens -/

/-- The byte belongs to none of the tokens. -/
def Outside (tokens : List Located) (byte : Nat) : Prop :=
  ∀ t ∈ tokens, byte < t.span.start ∨ t.span.stop ≤ byte

/-- A character with a byte that belongs to no token separates tokens. -/
theorem isSeparator_of_outside {offset : Nat} {cs : List Char} {tokens : List Located}
    (h : tokenizeAt offset cs = .ok tokens) {before after : List Char} {c : Char}
    (hcs : cs = before ++ c :: after) {byte : Nat} (hstart : offset + byteLength before ≤ byte)
    (hstop : byte < offset + byteLength before + c.utf8Size) (houtside : Outside tokens byte) :
    isSeparator c = true := by
  rw [tokenizeAt_ok_iff] at h
  induction h generalizing before with
  | nil => simp at hcs
  | separator hd _ ih =>
      cases before with
      | nil =>
          obtain ⟨rfl, -⟩ := List.cons.inj hcs
          exact hd
      | cons b before =>
          obtain ⟨rfl, rfl⟩ := List.cons.inj hcs
          rw [byteLength, ← Nat.add_assoc] at hstart hstop
          exact ih rfl hstart hstop houtside
  | @lexeme offset _ _ lexeme _ _ hread _ ih =>
      obtain ⟨hfirst, hlater⟩ := List.forall_mem_cons.1 houtside
      rw [← (Lexeme.read_readFrom hread).eq_append] at hcs
      -- The character is one of the lexeme or comes behind it.
      rcases List.append_eq_append_iff.1 hcs with ⟨front, rfl, hback⟩ | ⟨front, hchars, hback⟩
      · rw [Text.byteLength_append, ← Nat.add_assoc] at hstart hstop
        exact ih hback hstart hstop hlater
      · cases front with
        | nil =>
            obtain rfl : lexeme.chars = before := by simpa using hchars
            have hnext : lexeme.rest = [] ++ c :: after := hback.symm
            exact ih hnext hstart hstop hlater
        | cons b front =>
            obtain ⟨rfl, rfl⟩ := List.cons.inj hback
            -- Its bytes are bytes of the token.
            have hwidth : offset + byteLength lexeme.chars =
                offset + byteLength before + c.utf8Size + byteLength front := by
              simp only [hchars, Text.byteLength_append, byteLength]
              omega
            dsimp only at hfirst
            omega

/-! ## Sources -/

/-- The tokens of a source are not empty, lie within it and follow one another, every byte that
belongs to none of them is a space, a tab or a carriage return, and each is written with the
characters at its span. -/
theorem tokenize_tiles {source : String} {tokens : List Located}
    (h : tokenize source = .ok tokens) :
    (∀ t ∈ tokens, t.span.start < t.span.stop ∧ t.span.stop ≤ byteLength source.toList) ∧
    tokens.Pairwise (fun t u => t.span.stop ≤ u.span.start) ∧
    (∀ before c after, source.toList = before ++ c :: after →
      ∀ byte, byteLength before ≤ byte → byte < byteLength before + c.utf8Size →
        Outside tokens byte → c = ' ' ∨ c = '\t' ∨ c = '\r') ∧
    ∀ t ∈ tokens, ∃ before chars after, source.toList = before ++ (chars ++ after) ∧
      t.span = ⟨byteLength before, byteLength before + byteLength chars⟩ ∧
      t.token.Written chars after := by
  have hread := exists_readAt h
  refine ⟨fun t ht => ?_, apart_of_tokenizeAt h, ?_, fun t ht => ?_⟩
  · obtain ⟨before, l, hl⟩ := hread t ht
    exact ⟨hl.start_lt_stop, by simpa using hl.stop_le⟩
  · intro before c after hsource byte hstart hstop houtside
    have hc := isSeparator_of_outside h hsource (by rwa [Nat.zero_add]) (by rwa [Nat.zero_add])
      houtside
    simpa [isSeparator, or_assoc] using hc
  · obtain ⟨before, l, hl⟩ := hread t ht
    obtain ⟨c, rest, -, hlexeme⟩ := hl.read
    refine ⟨before, l.chars, l.rest, hl.text, by rw [hl.span, Nat.zero_add], ?_⟩
    rw [hl.token]
    exact Lexeme.written_of_read hlexeme

/-- Comments, characters of two bytes, a text with a text in it, and an indented heredoc. -/
theorem tokenize_tiles_heredoc :
    let source := "# é \r\na = \"ä$\x7bf(\"\x7d\")\x7dy\" /* ü */\nh=<<-E\r\n  é\r\n\tE \r\n"
    ∃ tokens, tokenize source = .ok tokens ∧
      tokens.map (·.span) = [⟨0, 6⟩, ⟨6, 7⟩, ⟨7, 8⟩, ⟨9, 10⟩, ⟨11, 25⟩, ⟨26, 34⟩, ⟨34, 35⟩,
        ⟨35, 36⟩, ⟨36, 37⟩, ⟨37, 52⟩, ⟨53, 54⟩] ∧
      (∀ t ∈ tokens, t.span.start < t.span.stop ∧ t.span.stop ≤ byteLength source.toList) ∧
      tokens.Pairwise (fun t u => t.span.stop ≤ u.span.start) ∧
      (∀ before c after, source.toList = before ++ c :: after →
        ∀ byte, byteLength before ≤ byte → byte < byteLength before + c.utf8Size →
          Outside tokens byte → c = ' ' ∨ c = '\t' ∨ c = '\r') ∧
      ∀ t ∈ tokens, ∃ before chars after, source.toList = before ++ (chars ++ after) ∧
        t.span = ⟨byteLength before, byteLength before + byteLength chars⟩ ∧
        t.token.Written chars after := by
  intro source
  have hspans : (tokenize source).toOption.map (·.map (·.span)) =
      some [⟨0, 6⟩, ⟨6, 7⟩, ⟨7, 8⟩, ⟨9, 10⟩, ⟨11, 25⟩, ⟨26, 34⟩, ⟨34, 35⟩, ⟨35, 36⟩, ⟨36, 37⟩,
        ⟨37, 52⟩, ⟨53, 54⟩] := by decide +kernel
  obtain ⟨tokens, htokens, hspans⟩ := Option.map_eq_some_iff.1 hspans
  have hread := toOption_eq_some.1 htokens
  exact ⟨tokens, hread, hspans, tokenize_tiles hread⟩

end Hcl
end ProviderMigration
