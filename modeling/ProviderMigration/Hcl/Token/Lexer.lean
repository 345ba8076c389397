import ProviderMigration.Hcl.SyntaxError
import ProviderMigration.Hcl.Template.Enclosure
import ProviderMigration.Text.Blank

/-!
# Reading tokens

`tokenize` cuts a source text into located tokens. Spaces, tabs and carriage returns separate
tokens; everything else belongs to one. Where several tokens could start, the longest wins.

A `Lexeme` is one token together with the characters it was read from, so that a token's span is
the width of these characters. Each reader below keeps the text whole: the characters of the
lexeme and the rest are the input, and a lexeme is never empty (`read_readFrom`).
-/

namespace ProviderMigration
namespace Hcl

open SyntaxError (Cause)

/-- A token, the characters it stands for, and the text after them. -/
structure Lexeme where
  token : Token
  chars : List Char
  rest : List Char
deriving Repr, DecidableEq

/-- Why no token starts here, and the characters that show it. -/
structure LexicalFailure where
  cause : Cause
  chars : List Char
deriving Repr, DecidableEq

namespace Lexeme

/-! ## Character classes -/

def isSeparator (c : Char) : Bool :=
  c == ' ' || c == '\t' || c == '\r'

def isIdentStart (c : Char) : Bool :=
  c.isAlpha || c == '_'

def isIdentChar (c : Char) : Bool :=
  c.isAlphanum || c == '_' || c == '-'

/-! ## Words -/

/-- An identifier: a letter or underscore, then letters, digits, underscores and dashes. -/
def ident (cs : List Char) : Lexeme :=
  let name := cs.takeWhile isIdentChar
  ⟨.ident (String.ofList name), name, cs.dropWhile isIdentChar⟩

/-- Splits a text after its first character if that is of class `p`. -/
def takeOne (p : Char → Bool) : List Char → List Char × List Char
  | [] => ([], [])
  | c :: cs => if p c then ([c], cs) else ([], c :: cs)

/-- An exponent: `e` or `E`, an optional sign, and at least one digit. -/
def exponent? (cs : List Char) : Option (List Char × List Char) :=
  let (letter, cs) := takeOne (fun c => c == 'e' || c == 'E') cs
  let (sign, cs) := takeOne (fun c => c == '+' || c == '-') cs
  if letter ≠ [] && cs.head?.any Char.isDigit then
    some (letter ++ sign ++ cs.takeWhile Char.isDigit, cs.dropWhile Char.isDigit)
  else
    none

/-- A fraction: a point and at least one digit. -/
def fraction? : List Char → Option (List Char × List Char)
  | '.' :: cs =>
    if cs.head?.any Char.isDigit then
      some ('.' :: cs.takeWhile Char.isDigit, cs.dropWhile Char.isDigit)
    else
      none
  | _ => none

/-- A number: digits, then a fraction and an exponent if they are complete. -/
def number (cs : List Char) : Lexeme :=
  let digits := cs.takeWhile Char.isDigit
  let (fraction, cs) := (fraction? (cs.dropWhile Char.isDigit)).getD ([], cs.dropWhile Char.isDigit)
  let (exponent, cs) := (exponent? cs).getD ([], cs)
  let text := digits ++ fraction ++ exponent
  ⟨.number (String.ofList text), text, cs⟩

/-! ## Comments -/

/-- A line comment extends to the end of the line; blanks at its end are not part of its text. -/
def lineComment (cs : List Char) : Lexeme :=
  let line := cs.takeWhile (· != '\n')
  ⟨.lineComment (String.ofList (Text.trimEnd line)), line, cs.dropWhile (· != '\n')⟩

/-- The text up to and with the first `*/`, and the text after it. -/
def throughCommentEnd? : List Char → Option (List Char × List Char)
  | '*' :: '/' :: cs => some (['*', '/'], cs)
  | c :: cs => (throughCommentEnd? cs).map fun (inside, after) => (c :: inside, after)
  | [] => none

/-- A block comment, given the text after its opener. -/
def blockComment (cs : List Char) : Except LexicalFailure Lexeme :=
  match throughCommentEnd? cs with
  | some (inside, after) =>
      .ok ⟨.blockComment (String.ofList ('/' :: '*' :: inside)), '/' :: '*' :: inside, after⟩
  | none => .error ⟨.unterminatedBlockComment, ['/', '*']⟩

/-! ## Strings and heredocs -/

/-- A quoted template, given the text after the opening quote. -/
def quoted (cs : List Char) : Except LexicalFailure Lexeme :=
  match Template.quotedText? cs with
  | some (raw, after) => .ok ⟨.quoted raw, '"' :: raw ++ ['"'], after⟩
  | none => .error ⟨.unterminatedString, ['"']⟩

/-- The lines before the first one that is the marker `delimiter` between blanks, the marker line
without its line break, and the text from that line break on. -/
def untilMarker? (delimiter : List Char) : List (List Char) → Option (List Char × List Char × List Char)
  | [] => none
  | line :: lines =>
    if Text.trim line = delimiter then
      let marker := Text.dropEndWhile (fun c => c == '\n' || c == '\r') line
      some ([], marker, line.drop marker.length ++ lines.flatten)
    else
      (untilMarker? delimiter lines).map fun (content, found) => (line ++ content, found)

/-- Splits a text after the line break at its start, if there is one. -/
def takeLineBreak : List Char → List Char × List Char
  | '\n' :: cs => (['\n'], cs)
  | '\r' :: '\n' :: cs => (['\r', '\n'], cs)
  | cs => ([], cs)

/-- The content and marker of a heredoc, given its opening line and the text after it. -/
def heredocBody (opener delimiter : List Char) (indented : Bool) (cs : List Char) :
    Except LexicalFailure Lexeme :=
  match untilMarker? delimiter (splitLines cs) with
  | some (content, marker, after) =>
      let indent := marker.takeWhile fun c => c == ' ' || c == '\t'
      let text : HeredocText :=
        ⟨String.ofList delimiter, indented, content, String.ofList indent, Text.byteLength opener⟩
      .ok ⟨.heredoc text, opener ++ content ++ marker, after⟩
  | none => .error ⟨.unterminatedHeredoc, opener⟩

/-- A heredoc, given the text after `<<`; nothing if no heredoc starts here. -/
def heredoc? (cs : List Char) : Option (Except LexicalFailure Lexeme) :=
  let (dash, cs) := takeOne (· == '-') cs
  if cs.head?.any isIdentStart then
    let delimiter := cs.takeWhile isIdentChar
    let opener := '<' :: '<' :: dash ++ delimiter
    let (lineBreak, cs) := takeLineBreak (cs.dropWhile isIdentChar)
    if lineBreak = [] then
      some (.error ⟨.unterminatedHeredoc, opener⟩)
    else
      some (heredocBody (opener ++ lineBreak) delimiter (dash ≠ []) cs)
  else
    none

/-! ## One token -/

/-- The punctuation at the start of a text. -/
def symbol (c : Char) (cs : List Char) : Except LexicalFailure Lexeme :=
  match Symbol.read? (c :: cs) with
  | some (s, rest) => .ok ⟨.symbol s, s.chars, rest⟩
  | none => .error ⟨.unexpectedCharacter c, [c]⟩

/-- The token at the start of the text `c :: cs`. -/
def read (c : Char) (cs : List Char) : Except LexicalFailure Lexeme :=
  if c == '\n' then
    .ok ⟨.newline, ['\n'], cs⟩
  else if isIdentStart c then
    .ok (ident (c :: cs))
  else if c.isDigit then
    .ok (number (c :: cs))
  else
    match c, cs with
    | '#', cs => .ok (lineComment ('#' :: cs))
    | '/', '/' :: cs => .ok (lineComment ('/' :: '/' :: cs))
    | '/', '*' :: cs => blockComment cs
    | '"', cs => quoted cs
    | '<', '<' :: cs => (heredoc? cs).getD (symbol '<' ('<' :: cs))
    | c, cs => symbol c cs

/-! ## Nothing is lost -/

/-- The lexeme is a non-empty start of the text. -/
structure ReadFrom (l : Lexeme) (cs : List Char) : Prop where
  eq_append : l.chars ++ l.rest = cs
  chars_ne_nil : l.chars ≠ []

theorem takeOne_append (p : Char → Bool) (cs : List Char) :
    (takeOne p cs).1 ++ (takeOne p cs).2 = cs := by
  cases cs with
  | nil => rfl
  | cons c cs =>
    simp only [takeOne]
    split <;> rfl

theorem takeLineBreak_append (cs : List Char) :
    (takeLineBreak cs).1 ++ (takeLineBreak cs).2 = cs := by
  unfold takeLineBreak
  split <;> rfl

theorem exponent?_eq_append {cs front rest : List Char} (h : exponent? cs = some (front, rest)) :
    front ++ rest = cs := by
  simp only [exponent?] at h
  split at h
  · simp only [Option.some.injEq, Prod.mk.injEq] at h
    obtain ⟨rfl, rfl⟩ := h
    simp only [List.append_assoc, List.takeWhile_append_dropWhile, takeOne_append]
  · simp at h

theorem fraction?_eq_append {cs front rest : List Char} (h : fraction? cs = some (front, rest)) :
    front ++ rest = cs := by
  unfold fraction? at h
  split at h
  · split at h
    · simp only [Option.some.injEq, Prod.mk.injEq] at h
      obtain ⟨rfl, rfl⟩ := h
      simp [List.takeWhile_append_dropWhile]
    · simp at h
  · simp at h

theorem ident_readFrom {c : Char} {cs : List Char} (h : isIdentStart c = true) :
    (ident (c :: cs)).ReadFrom (c :: cs) := by
  have hc : isIdentChar c = true := by
    rcases Bool.or_eq_true_iff.1 h with h | h <;> simp [isIdentChar, Char.isAlphanum, h]
  exact ⟨List.takeWhile_append_dropWhile, by simp [ident, hc]⟩

theorem number_readFrom {c : Char} {cs : List Char} (h : c.isDigit = true) :
    (number (c :: cs)).ReadFrom (c :: cs) := by
  refine ⟨?_, by simp [number, h]⟩
  have getD_append (found : Option (List Char × List Char)) (text : List Char)
      (hfound : ∀ front rest, found = some (front, rest) → front ++ rest = text) :
      (found.getD ([], text)).1 ++ (found.getD ([], text)).2 = text := by
    cases found with
    | none => rfl
    | some p => exact hfound p.1 p.2 rfl
  simp only [number, List.append_assoc]
  rw [getD_append _ _ fun _ _ => exponent?_eq_append,
    getD_append _ _ fun _ _ => fraction?_eq_append, List.takeWhile_append_dropWhile]

theorem lineComment_readFrom {c : Char} {cs : List Char} (h : c ≠ '\n') :
    (lineComment (c :: cs)).ReadFrom (c :: cs) :=
  ⟨List.takeWhile_append_dropWhile, by simp [lineComment, h]⟩

theorem throughCommentEnd?_eq_append {cs inside after : List Char}
    (h : throughCommentEnd? cs = some (inside, after)) : inside ++ after = cs := by
  fun_induction throughCommentEnd? cs generalizing inside with
  | case1 =>
    obtain ⟨rfl, rfl⟩ := Prod.mk.inj (Option.some.inj h)
    rfl
  | case2 c cs _ ih =>
    obtain ⟨⟨tail, _⟩, found, heq⟩ := Option.map_eq_some_iff.1 h
    obtain ⟨rfl, rfl⟩ := Prod.mk.inj heq
    simp [ih found]
  | case3 => simp at h

theorem blockComment_readFrom {cs : List Char} {l : Lexeme} (h : blockComment cs = .ok l) :
    l.ReadFrom ('/' :: '*' :: cs) := by
  unfold blockComment at h
  split at h
  · rename_i inside after found
    obtain rfl := Except.ok.inj h
    exact ⟨by simp [throughCommentEnd?_eq_append found], by simp⟩
  · simp at h

theorem quoted_readFrom {cs : List Char} {l : Lexeme} (h : quoted cs = .ok l) :
    l.ReadFrom ('"' :: cs) := by
  unfold quoted at h
  split at h
  · rename_i raw after found
    obtain rfl := Except.ok.inj h
    exact ⟨by simp [Template.closing?_eq_append found, Template.outermost,
      Template.Enclosure.closer], by simp⟩
  · simp at h

theorem splitLines_flatten (cs : List Char) : (splitLines cs).flatten = cs := by
  induction cs with
  | nil => rfl
  | cons c cs ih =>
    simp only [splitLines]
    split
    · simp [ih]
    · split <;> simp_all

theorem dropEndWhile_append_drop (p : Char → Bool) (cs : List Char) :
    Text.dropEndWhile p cs ++ cs.drop (Text.dropEndWhile p cs).length = cs := by
  have start : Text.dropEndWhile p cs <+: cs := by
    have := List.reverse_prefix.2 (List.dropWhile_suffix p (l := cs.reverse))
    simpa [Text.dropEndWhile] using this
  exact List.prefix_iff_eq_append.1 start

theorem untilMarker?_eq_append {delimiter content marker after : List Char}
    {lines : List (List Char)}
    (h : untilMarker? delimiter lines = some (content, marker, after)) :
    content ++ marker ++ after = lines.flatten := by
  induction lines generalizing content with
  | nil => simp [untilMarker?] at h
  | cons line lines ih =>
    simp only [untilMarker?] at h
    split at h
    · simp only [Option.some.injEq, Prod.mk.injEq] at h
      obtain ⟨rfl, rfl, rfl⟩ := h
      simp only [List.nil_append, List.flatten_cons, ← List.append_assoc,
        dropEndWhile_append_drop]
    · obtain ⟨⟨tail, found⟩, hfound, heq⟩ := Option.map_eq_some_iff.1 h
      obtain ⟨rfl, rfl⟩ := Prod.mk.inj heq
      have := ih hfound
      simp_all

theorem heredocBody_eq_append {opener delimiter cs : List Char} {indented : Bool} {l : Lexeme}
    (h : heredocBody opener delimiter indented cs = .ok l) :
    l.chars ++ l.rest = opener ++ cs ∧ opener <+: l.chars := by
  unfold heredocBody at h
  split at h
  · rename_i content marker after found
    obtain rfl := Except.ok.inj h
    have hcs := untilMarker?_eq_append found
    rw [splitLines_flatten] at hcs
    exact ⟨by simp [← hcs], by simp [List.append_assoc]⟩
  · simp at h

theorem heredoc?_readFrom {cs : List Char} {l : Lexeme} (h : heredoc? cs = some (.ok l)) :
    l.ReadFrom ('<' :: '<' :: cs) := by
  simp only [heredoc?] at h
  split at h
  · split at h
    · simp at h
    · obtain ⟨eq, start⟩ := heredocBody_eq_append (Option.some.inj h)
      refine ⟨?_, fun nil => by simp [nil] at start⟩
      rw [eq]
      simp only [List.cons_append, List.append_assoc, takeLineBreak_append,
        List.takeWhile_append_dropWhile, takeOne_append]
  · simp at h

theorem symbol_readFrom {c : Char} {cs : List Char} {l : Lexeme} (h : symbol c cs = .ok l) :
    l.ReadFrom (c :: cs) := by
  unfold symbol at h
  split at h
  · rename_i s rest found
    obtain rfl := Except.ok.inj h
    exact ⟨(Symbol.eq_append_of_read? found).symm, s.chars_ne_nil⟩
  · simp at h

/-- The lexeme at the start of a text is a non-empty start of it. -/
theorem read_readFrom {c : Char} {cs : List Char} {l : Lexeme} (h : read c cs = .ok l) :
    l.ReadFrom (c :: cs) := by
  unfold read at h
  split at h
  · rename_i hc
    obtain rfl := Except.ok.inj h
    obtain rfl : c = '\n' := by simpa using hc
    exact ⟨rfl, by simp⟩
  split at h
  · rename_i hc
    obtain rfl := Except.ok.inj h
    exact ident_readFrom hc
  split at h
  · rename_i hc
    obtain rfl := Except.ok.inj h
    exact number_readFrom hc
  split at h
  · obtain rfl := Except.ok.inj h
    exact lineComment_readFrom (by decide)
  · obtain rfl := Except.ok.inj h
    exact lineComment_readFrom (by decide)
  · exact blockComment_readFrom h
  · exact quoted_readFrom h
  · rename_i cs _ _ _
    cases found : heredoc? cs with
    | none => exact symbol_readFrom (by simpa [found] using h)
    | some result => exact heredoc?_readFrom (found.trans (by simpa [found] using h))
  · exact symbol_readFrom h

theorem ReadFrom.rest_length_lt {l : Lexeme} {cs : List Char} (h : l.ReadFrom cs) :
    l.rest.length < cs.length := by
  have := List.length_pos_iff.2 h.chars_ne_nil
  simp only [← h.eq_append, List.length_append]
  omega

end Lexeme

/-! ## All tokens -/

/-- The tokens of a text that starts `offset` bytes into the source. -/
def tokenizeAt (offset : Nat) (cs : List Char) : Except SyntaxError (List Located) :=
  match cs with
  | [] => .ok []
  | c :: cs =>
    if Lexeme.isSeparator c then
      tokenizeAt (offset + c.utf8Size) cs
    else
      match _read : Lexeme.read c cs with
      | .error failure =>
          .error ⟨failure.cause, offset, offset + Text.byteLength failure.chars⟩
      | .ok lexeme => do
          let stop := offset + Text.byteLength lexeme.chars
          let tokens ← tokenizeAt stop lexeme.rest
          return ⟨lexeme.token, offset, stop⟩ :: tokens
termination_by cs.length
decreasing_by
  · simp
  · exact (Lexeme.read_readFrom _read).rest_length_lt

/-- The tokens of a source text. -/
def tokenize (source : String) : Except SyntaxError (List Located) :=
  tokenizeAt 0 source.toList

end Hcl
end ProviderMigration
