import Mathlib.Data.List.DropRight
import ProviderMigration.Proofs.Hcl.Token.Lexer

/-!
# Names and comments among the tokens

`IsComment` describes the texts of comment tokens, as `IsName` describes those of identifiers.

* `lexes_comment` — such a text, up to the end of its line, is cut as one comment;
* `wellFormed_of_tokenizeAt` — whatever a text is cut into, its names and comments are such texts.
-/

namespace ProviderMigration
namespace Hcl

open Lexeme (isIdentStart isIdentChar throughCommentEnd?)

/-! ## Comments -/

/-- The text of a comment that the end of the line ends. -/
structure IsLineComment (text : String) : Prop where
  opener : (∃ cs, text.toList = '#' :: cs) ∨ ∃ cs, text.toList = '/' :: '/' :: cs
  inline : ∀ c ∈ text.toList, c ≠ '\n'
  trimmed : Text.trimEnd text.toList = text.toList

/-- The text of a comment that ends with the first `*/`. -/
def IsBlockComment (text : String) : Prop :=
  ∃ inside, text.toList = '/' :: '*' :: inside ∧ throughCommentEnd? inside = some (inside, [])

def IsComment (text : String) : Prop :=
  IsLineComment text ∨ IsBlockComment text

/-- The line ends where the text goes on. -/
def LineEnds (rest : List Char) : Prop :=
  rest.head? = some '\n'

section
variable {text : String} {cs inside after rest : List Char}

theorem lineComment_append (h : IsLineComment text) (hrest : LineEnds rest) :
    Lexeme.lineComment (text.toList ++ rest) = ⟨.lineComment text, text.toList, rest⟩ := by
  have hinline : ∀ c ∈ text.toList, (c != '\n') = true := fun c hc => bne_iff_ne.2 (h.inline c hc)
  have hend : ∀ c ∈ rest.head?, (c != '\n') = false := by
    intro c hc
    obtain rfl : '\n' = c := Option.some.inj (hrest.symm.trans hc)
    rfl
  rw [Lexeme.lineComment, takeWhile_append hend, dropWhile_append hend,
    List.takeWhile_eq_self_iff.2 hinline, List.dropWhile_eq_nil_iff.2 hinline, h.trimmed,
    String.ofList_toList, List.nil_append]

theorem lexes_lineComment (h : IsLineComment text) :
    Lexes text.toList (Single (.lineComment text)) LineEnds := by
  have happend {rest : List Char} (hrest : LineEnds rest) := lineComment_append h hrest
  rcases h.opener with ⟨cs, htext⟩ | ⟨cs, htext⟩
  all_goals
    rw [htext] at happend ⊢
    exact .token rfl fun rest hrest => congrArg Except.ok (happend hrest)

theorem throughCommentEnd?_append (h : throughCommentEnd? cs = some (inside, after))
    (rest : List Char) : throughCommentEnd? (cs ++ rest) = some (inside, after ++ rest) := by
  fun_induction throughCommentEnd? cs generalizing inside with
  | case1 cs =>
      obtain ⟨rfl, rfl⟩ := Prod.mk.inj (Option.some.inj h)
      rfl
  | case2 c cs hclose ih =>
      obtain ⟨⟨front, _⟩, hfront, hpair⟩ := Option.map_eq_some_iff.1 h
      obtain ⟨rfl, rfl⟩ := Prod.mk.inj hpair
      -- The end is not here, and what comes after the text does not bring it here.
      have hclose' : ∀ tail, c = '*' → cs ++ rest = '/' :: tail → False := by
        intro tail hc htail
        cases cs with
        | nil => simp [throughCommentEnd?] at hfront
        | cons d cs => exact hclose cs hc (by rw [(List.cons.inj htail).1])
      rw [List.cons_append, throughCommentEnd?, ih hfront]
      · rfl
      · exact hclose'
  | case3 => simp at h

/-- The text up to the end of a comment ends with it. -/
theorem throughCommentEnd?_inside (h : throughCommentEnd? cs = some (inside, after)) :
    throughCommentEnd? inside = some (inside, []) := by
  fun_induction throughCommentEnd? cs generalizing inside with
  | case1 cs =>
      obtain ⟨rfl, rfl⟩ := Prod.mk.inj (Option.some.inj h)
      rfl
  | case2 c cs hclose ih =>
      obtain ⟨⟨front, after⟩, hfront, hpair⟩ := Option.map_eq_some_iff.1 h
      obtain ⟨rfl, rfl⟩ := Prod.mk.inj hpair
      have hcs := Lexeme.throughCommentEnd?_eq_append hfront
      have hclose' : ∀ tail, c = '*' → front = '/' :: tail → False := by
        intro tail hc htail
        exact hclose (tail ++ after) hc (by rw [← hcs, htail]; rfl)
      rw [throughCommentEnd?, ih hfront]
      · rfl
      · exact hclose'
  | case3 => simp at h

theorem lexes_blockComment (h : IsBlockComment text) :
    Lexes text.toList (Single (.blockComment text)) Anything := by
  obtain ⟨inside, htext, hinside⟩ := h
  have hlexeme (rest : List Char) : Lexeme.blockComment (inside ++ rest) =
      .ok ⟨.blockComment text, '/' :: '*' :: inside, rest⟩ := by
    rw [Lexeme.blockComment, throughCommentEnd?_append hinside]
    simp only [List.nil_append, ← htext, String.ofList_toList]
  rw [htext]
  exact .token rfl fun rest _ => hlexeme rest

/-- A comment is one token, where its line ends after it. -/
theorem lexes_comment (h : IsComment text) :
    Lexes text.toList (fun ls => ∃ t, ls = [t] ∧ t.token.comment? = some text) LineEnds := by
  rcases h with h | h
  · refine (lexes_lineComment h).mono ?_
    rintro _ ⟨t, rfl, ht⟩
    exact ⟨t, rfl, by rw [ht]; rfl⟩
  · refine ((lexes_blockComment h).mono ?_).weaken fun _ _ => trivial
    rintro _ ⟨t, rfl, ht⟩
    exact ⟨t, rfl, by rw [ht]; rfl⟩

end

/-! ## What is read -/

/-- A name is a word and a comment the text of one. -/
def Token.WellFormed : Token → Prop
  | .ident name => IsName name
  | .lineComment text => IsLineComment text
  | .blockComment text => IsBlockComment text
  | _ => True

theorem Token.WellFormed.isComment {t : Token} {text : String} (h : t.WellFormed)
    (ht : t.comment? = some text) : IsComment text := by
  cases t with
  | lineComment found =>
      obtain rfl : found = text := Option.some.inj ht
      exact .inl h
  | blockComment found =>
      obtain rfl : found = text := Option.some.inj ht
      exact .inr h
  | _ => simp [Token.comment?] at ht

theorem trimEnd_cons {c : Char} (hc : Text.isBlank c = false) (cs : List Char) :
    Text.trimEnd (c :: cs) = c :: Text.trimEnd cs := by
  rw [Text.trimEnd, Text.trimEnd, List.reverse_cons, List.dropWhile_append]
  split
  · rename_i hempty
    simp [List.isEmpty_iff.1 hempty, hc]
  · simp

theorem isLineComment_of_line {line : List Char} (hinline : ∀ c ∈ line, c ≠ '\n')
    (hopener : (∃ cs, line = '#' :: cs) ∨ ∃ cs, line = '/' :: '/' :: cs) :
    IsLineComment (String.ofList (Text.trimEnd line)) := by
  refine ⟨?_, ?_, ?_⟩
  · rw [String.toList_ofList]
    -- What is trimmed comes after the opener.
    rcases hopener with ⟨cs, rfl⟩ | ⟨cs, rfl⟩
    · exact .inl ⟨_, trimEnd_cons rfl cs⟩
    · exact .inr ⟨_, by rw [trimEnd_cons rfl, trimEnd_cons rfl]⟩
  · intro c hc
    rw [String.toList_ofList] at hc
    exact hinline c ((List.rdropWhile_prefix _ line).subset hc)
  · rw [String.toList_ofList]
    exact List.rdropWhile_idempotent _ line

theorem wellFormed_lineComment {cs : List Char}
    (hopener : (∃ tail, cs = '#' :: tail) ∨ ∃ tail, cs = '/' :: '/' :: tail) :
    (Lexeme.lineComment cs).token.WellFormed := by
  refine isLineComment_of_line ?_ ?_
  · intro c hc
    simpa using List.mem_takeWhile_imp hc
  · rcases hopener with ⟨tail, rfl⟩ | ⟨tail, rfl⟩
    · exact .inl ⟨_, rfl⟩
    · exact .inr ⟨_, rfl⟩

theorem isName_ident {c : Char} (cs : List Char) (hc : isIdentStart c = true) :
    (Lexeme.ident (c :: cs)).token.WellFormed := by
  have hall : ∀ d ∈ (c :: cs).takeWhile isIdentChar, isIdentChar d = true :=
    fun _ hd => List.mem_takeWhile_imp hd
  refine ⟨?_, ?_⟩
  · simp [isIdentChar_of_isIdentStart hc, hc]
  · rw [String.toList_ofList]
    exact List.all_eq_true.2 hall

theorem wellFormed_of_read {c : Char} {cs : List Char} {l : Lexeme}
    (h : Lexeme.read c cs = .ok l) : l.token.WellFormed := by
  cases Lexeme.read_ok_iff.1 h with
  | ident hident => exact isName_ident cs hident
  | hashComment => exact wellFormed_lineComment (.inl ⟨_, rfl⟩)
  | slashComment => exact wellFormed_lineComment (.inr ⟨_, rfl⟩)
  | blockComment hend => exact ⟨_, String.toList_ofList, throughCommentEnd?_inside hend⟩
  | heredoc hheredoc =>
      cases hheredoc with
      | marked => trivial
  | newline | number | quoted | symbol => trivial

/-- The names and comments of a text are words and the texts of comments. -/
theorem wellFormed_of_tokenizeAt {cs : List Char} {offset : Nat} {ls : List Located}
    (h : tokenizeAt offset cs = .ok ls) : ∀ t ∈ ls, t.token.WellFormed := by
  rw [tokenizeAt_ok_iff] at h
  induction h with
  | nil => exact List.forall_mem_nil _
  | separator _ _ ih => exact ih
  | lexeme _ hread _ ih => exact List.forall_mem_cons.2 ⟨wellFormed_of_read hread, ih⟩

end Hcl
end ProviderMigration
