import Mathlib.Data.List.Basic
import Mathlib.Data.List.TakeWhile
import Mathlib.Tactic.ByContra
import ProviderMigration.Hcl.Token.Lexer
import ProviderMigration.Proofs.Data.Except
import ProviderMigration.Proofs.Hcl.Template.Quote

/-!
# Texts cut into tokens

A token is read by one of the rules for its first characters (`Lexeme.read_ok_iff`), and a text is
cut into tokens one by one (`tokenizeAt_ok_iff`).

`Lexes text P ends` says that a text is cut into tokens with property `P` wherever it stands in a
source, if the text after it does not run on from it (`ends rest`). Such facts are put together
along concatenation (`Lexes.append`).

* `lexes_word`, `lexes_number`, `lexes_quoted`, `lexes_dot` — the texts of single tokens;
* `WordEnds`, `NumberEnds` — what keeps a word or a number from running on.
-/

namespace ProviderMigration
namespace Hcl

open Lexeme (isSeparator isIdentStart isIdentChar)

/-! ## The rules of the lexer -/

theorem not_isIdentStart_of_isDigit {c : Char} (h : c.isDigit = true) :
    ¬ isIdentStart c = true := by
  intro hc
  -- All digits come before all letters.
  have hdigit : c.toNat ≤ '9'.toNat := of_decide_eq_true (Bool.and_eq_true_iff.1 h).2
  rcases Bool.or_eq_true_iff.1 hc with hletter | hunderscore
  · have hfirst : 'A'.toNat ≤ c.toNat := by
      rcases Bool.or_eq_true_iff.1 hletter with hupper | hlower
      · exact (of_decide_eq_true hupper).1
      · exact Nat.le_trans (by decide) (of_decide_eq_true (Bool.and_eq_true_iff.1 hlower).1)
    exact absurd (Nat.le_trans hfirst hdigit) (by decide)
  · rw [beq_iff_eq.1 hunderscore] at h
    exact absurd h (by decide)

theorem read_of_isIdentStart {c : Char} (h : isIdentStart c = true) (cs : List Char) :
    Lexeme.read c cs = .ok (Lexeme.ident (c :: cs)) := by
  have hline : ¬ (c == '\n') = true := by
    intro hc
    rw [beq_iff_eq.1 hc] at h
    exact absurd h (by decide)
  unfold Lexeme.read
  rw [if_neg hline, if_pos h]

theorem read_of_isDigit {c : Char} (h : c.isDigit = true) (cs : List Char) :
    Lexeme.read c cs = .ok (Lexeme.number (c :: cs)) := by
  have hline : ¬ (c == '\n') = true := by
    intro hc
    rw [beq_iff_eq.1 hc] at h
    exact absurd h (by decide)
  unfold Lexeme.read
  rw [if_neg hline, if_neg (not_isIdentStart_of_isDigit h), if_pos h]

namespace Lexeme

variable {c : Char} {cs : List Char} {l : Lexeme}

inductive HeredocRule (cs : List Char) : Lexeme → Prop
  | marked {dash name lineBreak lines content marker after : List Char}
      (hdash : takeOne (· == '-') cs = (dash, name)) (hname : name.head?.any isIdentStart = true)
      (hline : takeLineBreak (name.dropWhile isIdentChar) = (lineBreak, lines))
      (hbreak : lineBreak ≠ [])
      (hmarker : untilMarker? (name.takeWhile isIdentChar) (splitLines lines) =
        some (content, marker, after)) :
      HeredocRule cs
        ⟨.heredoc ⟨String.ofList (name.takeWhile isIdentChar), dash ≠ [], content,
            String.ofList (marker.takeWhile fun c => c == ' ' || c == '\t'),
            Text.byteLength ('<' :: '<' :: dash ++ name.takeWhile isIdentChar ++ lineBreak)⟩,
          '<' :: '<' :: dash ++ name.takeWhile isIdentChar ++ lineBreak ++ content ++ marker,
          after⟩

theorem heredoc?_ok_iff : heredoc? cs = some (.ok l) ↔ HeredocRule cs l := by
  simp only [heredoc?, heredocBody]
  constructor
  · intro h
    split at h
    · rename_i hname
      split at h
      · cases h
      · rename_i hbreak
        split at h
        · rename_i content marker after hmarker
          obtain rfl := Except.ok.inj (Option.some.inj h)
          exact .marked rfl hname rfl hbreak hmarker
        · cases h
    · cases h
  · intro h
    cases h with
    | marked hdash hname hline hbreak hmarker =>
        simp only [hdash, hline]
        rw [if_pos hname, if_neg hbreak, hmarker]

/-- Only punctuation begins with the character. -/
structure Punctuates (c : Char) (cs : List Char) : Prop where
  notNewline : c ≠ '\n'
  notIdent : ¬ isIdentStart c = true
  notDigit : ¬ c.isDigit = true
  notHash : c ≠ '#'
  notQuote : c ≠ '"'
  notComment : c = '/' → cs.head? ≠ some '/' ∧ cs.head? ≠ some '*'
  notHeredoc : ∀ rest, c = '<' → cs = '<' :: rest → heredoc? rest = none

theorem Punctuates.read_eq (h : Punctuates c cs) : read c cs = symbol c cs := by
  unfold read
  rw [if_neg (by simpa using h.notNewline), if_neg h.notIdent, if_neg h.notDigit]
  split
  · exact absurd rfl h.notHash
  · exact absurd rfl (h.notComment rfl).1
  · exact absurd rfl (h.notComment rfl).2
  · exact absurd rfl h.notQuote
  · rw [h.notHeredoc _ rfl rfl, Option.getD_none]
  · rfl

inductive ReadRule : Char → List Char → Lexeme → Prop
  | newline {cs : List Char} : ReadRule '\n' cs ⟨.newline, ['\n'], cs⟩
  | ident {c : Char} {cs : List Char} (hident : isIdentStart c = true) :
      ReadRule c cs (ident (c :: cs))
  | number {c : Char} {cs : List Char} (hdigit : c.isDigit = true) :
      ReadRule c cs (number (c :: cs))
  | hashComment {cs : List Char} : ReadRule '#' cs (lineComment ('#' :: cs))
  | slashComment {cs : List Char} : ReadRule '/' ('/' :: cs) (lineComment ('/' :: '/' :: cs))
  | blockComment {cs inside after : List Char}
      (hend : throughCommentEnd? cs = some (inside, after)) :
      ReadRule '/' ('*' :: cs)
        ⟨.blockComment (String.ofList ('/' :: '*' :: inside)), '/' :: '*' :: inside, after⟩
  | quoted {cs raw after : List Char} (hend : Template.quotedText? cs = some (raw, after)) :
      ReadRule '"' cs ⟨.quoted raw, '"' :: raw ++ ['"'], after⟩
  | heredoc {cs : List Char} {l : Lexeme} (h : HeredocRule cs l) : ReadRule '<' ('<' :: cs) l
  | symbol {c : Char} {cs rest : List Char} {s : Symbol} (hplain : Punctuates c cs)
      (hread : Symbol.read? (c :: cs) = some (s, rest)) :
      ReadRule c cs ⟨.symbol s, s.chars, rest⟩

theorem symbol_ok_iff : symbol c cs = .ok l ↔
    ∃ s rest, Symbol.read? (c :: cs) = some (s, rest) ∧ l = ⟨.symbol s, s.chars, rest⟩ := by
  unfold symbol
  cases Symbol.read? (c :: cs) with
  | none => simp
  | some found => simp [Prod.ext_iff, eq_comm]

/-- What was read was read by one of the rules. -/
theorem read_sound (h : read c cs = .ok l) : ReadRule c cs l := by
  -- Two ways lead to punctuation: a `<` that opens no heredoc, and any character left over.
  have hpunctuation (hplain : Punctuates c cs) : ReadRule c cs l := by
    rw [hplain.read_eq] at h
    obtain ⟨s, rest, hread, rfl⟩ := symbol_ok_iff.1 h
    exact .symbol hplain hread
  unfold read at h
  split at h
  · rename_i hline
    obtain rfl := eq_of_beq hline
    obtain rfl := Except.ok.inj h
    exact .newline
  rename_i hline
  split at h
  · rename_i hident
    obtain rfl := Except.ok.inj h
    exact .ident hident
  rename_i hident
  split at h
  · rename_i hdigit
    obtain rfl := Except.ok.inj h
    exact .number hdigit
  rename_i hdigit
  split at h
  · obtain rfl := Except.ok.inj h
    exact .hashComment
  · obtain rfl := Except.ok.inj h
    exact .slashComment
  · unfold blockComment at h
    split at h
    · rename_i hend
      obtain rfl := Except.ok.inj h
      exact .blockComment hend
    · cases h
  · unfold quoted at h
    split at h
    · rename_i hend
      obtain rfl := Except.ok.inj h
      exact .quoted hend
    · cases h
  · rename_i rest
    cases hheredoc : heredoc? rest with
    | some result =>
        rw [hheredoc, Option.getD_some] at h
        exact .heredoc (heredoc?_ok_iff.1 (hheredoc.trans (congrArg some h)))
    | none =>
        refine hpunctuation ⟨by decide, by decide, by decide, by decide, by decide, nofun, ?_⟩
        rintro _ - heq
        rwa [← (List.cons.inj heq).2]
  · rename_i hhash hquote hslashes hopens hless
    have hhead {d : Char} (hne : ∀ rest, cs = d :: rest → False) : cs.head? ≠ some d :=
      fun hd => hne cs.tail (List.eq_cons_of_mem_head? hd)
    exact hpunctuation ⟨by simpa using hline, hident, hdigit, hhash, hquote,
      fun hc => ⟨hhead fun rest => hslashes rest hc, hhead fun rest => hopens rest hc⟩,
      fun rest hc hcs => absurd hcs (hless rest hc)⟩

/-- By each of the rules something is read. -/
theorem read_complete (h : ReadRule c cs l) : read c cs = .ok l := by
  cases h with
  | newline => rfl
  | ident hident => exact read_of_isIdentStart hident _
  | number hdigit => exact read_of_isDigit hdigit _
  | hashComment => rfl
  | slashComment => rfl
  | @blockComment cs _ _ hend =>
      change Lexeme.blockComment cs = _
      rw [Lexeme.blockComment, hend]
  | quoted hend =>
      change Lexeme.quoted cs = _
      rw [Lexeme.quoted, hend]
  | @heredoc rest _ hheredoc =>
      change (heredoc? rest).getD (Lexeme.symbol '<' ('<' :: rest)) = _
      rw [heredoc?_ok_iff.2 hheredoc, Option.getD_some]
  | symbol hplain hread => rw [hplain.read_eq, symbol_ok_iff.2 ⟨_, _, hread, rfl⟩]

theorem read_ok_iff : read c cs = .ok l ↔ ReadRule c cs l :=
  ⟨read_sound, read_complete⟩

end Lexeme

theorem tokenizeAt_separator {c : Char} (h : isSeparator c = true) (offset : Nat)
    (cs : List Char) : tokenizeAt offset (c :: cs) = tokenizeAt (offset + c.utf8Size) cs := by
  rw [tokenizeAt, if_pos h]

theorem tokenizeAt_lexeme {c : Char} {cs : List Char} {l : Lexeme} (hc : isSeparator c = false)
    (h : Lexeme.read c cs = .ok l) (offset : Nat) :
    tokenizeAt offset (c :: cs) = (do
      let tokens ← tokenizeAt (offset + Text.byteLength l.chars) l.rest
      return ⟨l.token, offset, offset + Text.byteLength l.chars⟩ :: tokens) := by
  rw [tokenizeAt, if_neg (by simp [hc])]
  -- The recursion holds on to the equation of its lexeme, from which it is seen to end.
  split
  · rename_i heq
    simp [h] at heq
  · rename_i heq
    rcases Except.ok.inj (h.symm.trans heq) with rfl
    rfl

/-- How a text is cut into tokens, from its first character on. -/
inductive CutRule : Nat → List Char → List Located → Prop
  | nil {offset : Nat} : CutRule offset [] []
  | separator {offset : Nat} {c : Char} {cs : List Char} {ts : List Located}
      (hc : isSeparator c = true) (hrest : CutRule (offset + c.utf8Size) cs ts) :
      CutRule offset (c :: cs) ts
  | lexeme {offset : Nat} {c : Char} {cs : List Char} {l : Lexeme} {ts : List Located}
      (hc : isSeparator c = false) (hread : Lexeme.read c cs = .ok l)
      (hrest : CutRule (offset + Text.byteLength l.chars) l.rest ts) :
      CutRule offset (c :: cs) (⟨l.token, offset, offset + Text.byteLength l.chars⟩ :: ts)

theorem tokenizeAt_ok_iff {offset : Nat} {cs : List Char} {ts : List Located} :
    tokenizeAt offset cs = .ok ts ↔ CutRule offset cs ts := by
  constructor
  · intro h
    fun_induction tokenizeAt offset cs generalizing ts with
    | case1 offset =>
        obtain rfl := Except.ok.inj h
        exact .nil
    | case2 offset c cs hc ih => exact .separator hc (ih h)
    | case3 => cases h
    | case4 offset c cs hc l hread stop =>
        rename_i ih
        obtain ⟨rest, hrest, h⟩ := bind_eq_ok.1 h
        obtain rfl := Except.ok.inj h
        exact .lexeme (Bool.eq_false_iff.2 hc) hread (ih hrest)
  · intro h
    induction h with
    | nil => rw [tokenizeAt]
    | separator hc _ ih => rw [tokenizeAt_separator hc, ih]
    | lexeme hc hread _ ih =>
        rw [tokenizeAt_lexeme hc hread, ih]
        rfl

/-! ## Tokens of a concatenation -/

/-- The text is cut into tokens with the property, wherever it stands in a source. -/
def Cuts (cs : List Char) (P : List Located → Prop) : Prop :=
  ∀ offset, ∃ ls, tokenizeAt offset cs = .ok ls ∧ P ls

/-- A list of tokens in two parts. -/
def Seq (P Q : List Located → Prop) (ls : List Located) : Prop :=
  ∃ l₁ l₂, ls = l₁ ++ l₂ ∧ P l₁ ∧ Q l₂

/-- The text is cut into tokens with property `P`, unless the text after it runs on from it. -/
def Lexes (text : List Char) (P : List Located → Prop) (ends : List Char → Prop) : Prop :=
  ∀ rest Q, ends rest → Cuts rest Q → Cuts (text ++ rest) (Seq P Q)

/-- The tokens are a single one. -/
def Single (token : Token) (ls : List Located) : Prop :=
  ∃ t, ls = [t] ∧ t.token = token

/-- Any text may come after. -/
def Anything (_ : List Char) : Prop := True

section
variable {text text' : List Char} {P P' : List Located → Prop} {ends ends' : List Char → Prop}

theorem Cuts.mono (h : Cuts text P) (hP : ∀ ls, P ls → P' ls) : Cuts text P' := by
  intro offset
  rcases h offset with ⟨ls, hls, hp⟩
  exact ⟨ls, hls, hP ls hp⟩

namespace Lexes

theorem mono (h : Lexes text P ends) (hP : ∀ ls, P ls → P' ls) : Lexes text P' ends := by
  intro rest Q hrest hQ
  refine (h rest Q hrest hQ).mono ?_
  rintro _ ⟨l₁, l₂, rfl, h₁, h₂⟩
  exact ⟨l₁, l₂, rfl, hP l₁ h₁, h₂⟩

theorem weaken (h : Lexes text P ends) (hends : ∀ rest, ends' rest → ends rest) :
    Lexes text P ends' :=
  fun rest Q hrest => h rest Q (hends rest hrest)

theorem nil : Lexes [] (· = []) ends := by
  intro rest Q _ hQ
  exact hQ.mono fun ls h => ⟨[], ls, rfl, rfl, h⟩

theorem append (h : Lexes text P ends) (h' : Lexes text' P' ends')
    (hends : ∀ rest, ends' rest → ends (text' ++ rest)) :
    Lexes (text ++ text') (Seq P P') ends' := by
  intro rest Q hrest hQ
  rw [List.append_assoc]
  refine (h _ _ (hends rest hrest) (h' rest Q hrest hQ)).mono ?_
  rintro _ ⟨l₁, _, rfl, h₁, l₂, l₃, rfl, h₂, h₃⟩
  exact ⟨l₁ ++ l₂, l₃, (List.append_assoc l₁ l₂ l₃).symm, ⟨l₁, l₂, rfl, h₁, h₂⟩, h₃⟩

/-- Separators around a text leave no trace. -/
theorem blank (h : text.all isSeparator = true) : Lexes text (· = []) ends := by
  intro rest Q _ hQ
  induction text with
  | nil => exact (nil : Lexes [] _ Anything) rest Q trivial hQ
  | cons c text ih =>
      simp only [List.all_cons, Bool.and_eq_true] at h
      intro offset
      rw [List.cons_append, tokenizeAt_separator h.1]
      exact ih h.2 (offset + c.utf8Size)

theorem token {c : Char} {cs : List Char} {t : Token} (hc : isSeparator c = false)
    (hread : ∀ rest, ends rest → Lexeme.read c (cs ++ rest) = .ok ⟨t, c :: cs, rest⟩) :
    Lexes (c :: cs) (Single t) ends := by
  intro rest Q hrest hQ offset
  rcases hQ (offset + Text.byteLength (c :: cs)) with ⟨ls, hls, hQ⟩
  refine ⟨⟨t, offset, offset + Text.byteLength (c :: cs)⟩ :: ls, ?_, [_], ls, rfl,
    ⟨_, rfl, rfl⟩, hQ⟩
  rw [List.cons_append, tokenizeAt_lexeme hc (hread rest hrest)]
  simp only [hls]
  rfl

/-- A token between separators. -/
theorem spaced (before : List Char) (c : Char) (cs after : List Char) {t : Token}
    (hbefore : before.all isSeparator = true) (hafter : after.all isSeparator = true)
    (hc : isSeparator c = false)
    (hread : ∀ rest, ends rest →
      Lexeme.read c (cs ++ (after ++ rest)) = .ok ⟨t, c :: cs, after ++ rest⟩) :
    Lexes (before ++ (c :: cs ++ after)) (Single t) ends := by
  have hends : ∀ rest, ends rest →
      (fun tail => Lexeme.read c (cs ++ tail) = .ok ⟨t, c :: cs, tail⟩) (after ++ rest) := hread
  have htoken := (token hc fun _ h => h).append (blank hafter) hends
  have hblank : Lexes before (· = []) Anything := blank hbefore
  refine (hblank.append htoken fun _ _ => trivial).mono ?_
  rintro _ ⟨_, _, rfl, rfl, _, _, rfl, hsingle, rfl⟩
  simpa using hsingle

end Lexes

end

/-! ## Words -/

/-- The name is an identifier. -/
def IsName (name : String) : Prop :=
  name.toList.head?.any isIdentStart = true ∧ name.toList.all isIdentChar = true

instance : DecidablePred IsName := fun _ => inferInstanceAs (Decidable (_ ∧ _))

/-- A word before the text ends there. -/
def WordEnds (rest : List Char) : Prop :=
  ∀ c ∈ rest.head?, isIdentChar c = false

theorem wordEnds_cons {c : Char} {rest : List Char} (h : isIdentChar c = false) :
    WordEnds (c :: rest) := by
  simpa [WordEnds] using h

section
variable {α : Type} {p : α → Bool} {cs rest : List α}

theorem takeWhile_append (h : ∀ c ∈ rest.head?, p c = false) :
    (cs ++ rest).takeWhile p = cs.takeWhile p := by
  induction cs with
  | nil =>
      -- The run must not go on into the text after it.
      cases rest with
      | nil => rfl
      | cons c rest => simp [h c rfl]
  | cons c cs ih =>
      by_cases hc : p c = true
      · simp [hc, ih]
      · simp [hc]

theorem dropWhile_append (h : ∀ c ∈ rest.head?, p c = false) :
    (cs ++ rest).dropWhile p = cs.dropWhile p ++ rest := by
  induction cs with
  | nil =>
      cases rest with
      | nil => rfl
      | cons c rest => simp [h c rfl]
  | cons c cs ih =>
      by_cases hc : p c = true
      · simp [hc, ih]
      · simp [hc]

end

theorem isSeparator_of_isIdentChar {c : Char} (h : isIdentChar c = true) :
    isSeparator c = false := by
  by_contra hc
  simp only [isSeparator, Bool.not_eq_false, Bool.or_eq_true, beq_iff_eq] at hc
  rcases hc with (rfl | rfl) | rfl
  all_goals exact absurd h (by decide)

theorem isIdentChar_of_isIdentStart {c : Char} (h : isIdentStart c = true) :
    isIdentChar c = true := by
  rcases Bool.or_eq_true_iff.1 h with h | h
  all_goals simp [isIdentChar, Char.isAlphanum, h]

theorem isIdentChar_of_isDigit {c : Char} (h : c.isDigit = true) : isIdentChar c = true := by
  simp [isIdentChar, Char.isAlphanum, h]

theorem IsName.exists_cons {name : String} (h : IsName name) :
    ∃ c cs, name.toList = c :: cs ∧ isIdentStart c = true := by
  cases htext : name.toList with
  | nil => simp [IsName, htext] at h
  | cons c cs => exact ⟨c, cs, rfl, by simpa [htext] using h.1⟩

theorem lexes_word {name : String} (h : IsName name) :
    Lexes name.toList (Single (.ident name)) WordEnds := by
  rcases h.exists_cons with ⟨c, cs, htext, hc⟩
  have hall := List.all_eq_true.1 h.2
  have htake : name.toList.takeWhile isIdentChar = name.toList :=
    List.takeWhile_eq_self_iff.2 hall
  have hdrop : name.toList.dropWhile isIdentChar = [] := List.dropWhile_eq_nil_iff.2 hall
  rw [htext] at htake hdrop ⊢
  refine .token (isSeparator_of_isIdentChar (isIdentChar_of_isIdentStart hc)) ?_
  intro rest hrest
  rw [read_of_isIdentStart hc, ← List.cons_append, Lexeme.ident, takeWhile_append hrest,
    dropWhile_append hrest, htake, hdrop, ← htext, String.ofList_toList]
  rfl

/-! ## Numbers -/

/-- The text is one number. -/
def IsNumeral (text : String) : Prop :=
  text.toList.head?.any Char.isDigit = true ∧ (Lexeme.number text.toList).rest = []

instance : DecidablePred IsNumeral := fun _ => inferInstanceAs (Decidable (_ ∧ _))

/-- A number before the text ends there: neither a word nor a fraction follows. -/
def NumberEnds (rest : List Char) : Prop :=
  WordEnds rest ∧ Lexeme.fraction? rest = none

theorem numberEnds_cons {c : Char} {rest : List Char} (h : isIdentChar c = false ∧ c ≠ '.') :
    NumberEnds (c :: rest) := by
  refine ⟨wordEnds_cons h.1, ?_⟩
  unfold Lexeme.fraction?
  split
  · exact absurd (List.cons.inj ‹_›).1 h.2
  · rfl

theorem NumberEnds.nil : NumberEnds [] :=
  ⟨nofun, rfl⟩

theorem WordEnds.not_digit {rest : List Char} (h : WordEnds rest) :
    ∀ c ∈ rest.head?, c.isDigit = false := by
  intro c hc
  by_contra hdigit
  rw [Bool.not_eq_false] at hdigit
  exact absurd (isIdentChar_of_isDigit hdigit) (by simp [h c hc])

theorem takeOne_append {p : Char → Bool} {cs : List Char} (hcs : cs ≠ []) (rest : List Char) :
    Lexeme.takeOne p (cs ++ rest) =
      ((Lexeme.takeOne p cs).1, (Lexeme.takeOne p cs).2 ++ rest) := by
  cases cs with
  | nil => exact absurd rfl hcs
  | cons c cs =>
      by_cases hc : p c = true
      · simp [Lexeme.takeOne, hc]
      · simp [Lexeme.takeOne, hc]

theorem exponent?_of_wordEnds {rest : List Char} (h : WordEnds rest) :
    Lexeme.exponent? rest = none := by
  cases rest with
  | nil => rfl
  | cons c rest =>
      have hc : (c == 'e' || c == 'E') = false := by
        by_contra hletter
        rw [Bool.not_eq_false, Bool.or_eq_true, beq_iff_eq, beq_iff_eq] at hletter
        have hend := h c rfl
        rcases hletter with rfl | rfl
        all_goals exact absurd hend (by decide)
      simp [Lexeme.exponent?, Lexeme.takeOne, hc]

/-- A complete exponent is read the same before a text that ends it. -/
theorem exponent?_append {cs front rest : List Char} (hrest : WordEnds rest)
    (h : Lexeme.exponent? cs = some (front, [])) :
    Lexeme.exponent? (cs ++ rest) = some (front, rest) := by
  simp only [Lexeme.exponent?] at h ⊢
  generalize hletter : Lexeme.takeOne (fun c => c == 'e' || c == 'E') cs = letter at h
  generalize hsign : Lexeme.takeOne (fun c => c == '+' || c == '-') letter.2 = sign at h
  split at h
  · rename_i hcond
    rcases Prod.mk.inj (Option.some.inj h) with ⟨rfl, hdrop⟩
    -- A digit comes after the sign, so neither part has reached the end of the text.
    have hne : sign.2 ≠ [] := by
      intro hnil
      simp [hnil] at hcond
    have hne' : letter.2 ≠ [] := by
      intro hnil
      rw [hnil] at hsign
      exact hne (by rw [← hsign]; rfl)
    have hne'' : cs ≠ [] := by
      intro hnil
      rw [hnil] at hletter
      exact hne' (by rw [← hletter]; rfl)
    have hhead : (sign.2 ++ rest).head? = sign.2.head? := List.head?_append_of_ne_nil _ hne
    rw [takeOne_append hne'', hletter, takeOne_append hne', hsign]
    simp only [hhead, if_pos hcond, takeWhile_append hrest.not_digit,
      dropWhile_append hrest.not_digit, hdrop, List.nil_append]
  · simp at h

/-- A fraction is read the same before a text that ends it. -/
theorem fraction?_append {rest : List Char} (hrest : NumberEnds rest) (cs : List Char) :
    Lexeme.fraction? (cs ++ rest) = (Lexeme.fraction? cs).map fun p => (p.1, p.2 ++ rest) := by
  cases cs with
  | nil => exact hrest.2
  | cons c cs =>
      by_cases hc : c = '.'
      · subst hc
        -- A point may be the last character. Then no digit follows in the rest either.
        have hhead : (cs ++ rest).head?.any Char.isDigit = cs.head?.any Char.isDigit := by
          cases cs with
          | cons c cs => rfl
          | nil =>
              cases rest with
              | nil => rfl
              | cons d rest => simpa using hrest.1.not_digit d rfl
        simp only [List.cons_append, Lexeme.fraction?, hhead, takeWhile_append hrest.1.not_digit,
          dropWhile_append hrest.1.not_digit]
        split <;> rfl
      · simp [Lexeme.fraction?, hc]

/-- A number that is a whole text is read the same before a text that ends it. -/
theorem number_append {cs rest : List Char} (h : (Lexeme.number cs).rest = [])
    (hrest : NumberEnds rest) :
    Lexeme.number (cs ++ rest) = ⟨(Lexeme.number cs).token, (Lexeme.number cs).chars, rest⟩ := by
  simp only [Lexeme.number] at h
  simp only [Lexeme.number, takeWhile_append hrest.1.not_digit,
    dropWhile_append hrest.1.not_digit, fraction?_append hrest]
  generalize cs.dropWhile Char.isDigit = tail at h ⊢
  have hfraction : ((Lexeme.fraction? tail).map fun p => (p.1, p.2 ++ rest)).getD
      ([], tail ++ rest) = (((Lexeme.fraction? tail).getD ([], tail)).1,
        ((Lexeme.fraction? tail).getD ([], tail)).2 ++ rest) := by
    cases Lexeme.fraction? tail <;> rfl
  rw [hfraction]
  generalize (Lexeme.fraction? tail).getD ([], tail) = fraction at h ⊢
  -- The text is used up, by the fraction or by the exponent after it.
  cases hexponent : Lexeme.exponent? fraction.2 with
  | none =>
      have hnil : fraction.2 = [] := by simpa [hexponent] using h
      simp [hnil, exponent?_of_wordEnds hrest.1]
  | some found =>
      rcases found with ⟨front, after⟩
      obtain rfl : after = [] := by simpa [hexponent] using h
      simp [exponent?_append hrest.1 hexponent]

theorem lexes_number {text : String} (h : IsNumeral text) :
    Lexes text.toList (Single (.number text)) NumberEnds := by
  rcases h with ⟨hstart, hwhole⟩
  cases htext : text.toList with
  | nil => simp [htext] at hstart
  | cons c cs =>
      rw [htext] at hstart hwhole
      have hc : c.isDigit = true := by simpa using hstart
      refine .token (isSeparator_of_isIdentChar (isIdentChar_of_isDigit hc)) ?_
      intro rest hrest
      -- Nothing is left over, so the characters that were read are the whole text.
      have hchars : (Lexeme.number (c :: cs)).chars ++ (Lexeme.number (c :: cs)).rest = c :: cs :=
        (Lexeme.number_readFrom hc).eq_append
      rw [hwhole, List.append_nil] at hchars
      have htoken : (Lexeme.number (c :: cs)).token =
          .number (String.ofList (Lexeme.number (c :: cs)).chars) := rfl
      rw [read_of_isDigit hc, ← List.cons_append, number_append hwhole hrest, htoken, hchars,
        ← htext, String.ofList_toList]

theorem isNumeral_of_digits {text : String} (hne : text.toList ≠ [])
    (hdigits : ∀ c ∈ text.toList, c.isDigit = true) : IsNumeral text := by
  refine ⟨?_, ?_⟩
  · cases htext : text.toList with
    | nil => exact absurd htext hne
    | cons c cs => simpa using hdigits c (by simp [htext])
  · rw [Lexeme.number, List.dropWhile_eq_nil_iff.2 hdigits]
    rfl

/-- Digits, a point and digits are one number, even before a point. -/
theorem lexes_decimal {whole fraction : List Char} (hwhole : whole ≠ [])
    (hdigits : ∀ c ∈ whole, c.isDigit = true) (hfraction : fraction ≠ [])
    (hdigits' : ∀ c ∈ fraction, c.isDigit = true) :
    Lexes (whole ++ '.' :: fraction) (Single (.number (String.ofList (whole ++ '.' :: fraction))))
      WordEnds := by
  cases whole with
  | nil => exact absurd rfl hwhole
  | cons c cs =>
      have hc := hdigits c (by simp)
      refine .token (isSeparator_of_isIdentChar (isIdentChar_of_isDigit hc)) ?_
      intro rest hrest
      have htake : (c :: cs ++ '.' :: (fraction ++ rest)).takeWhile Char.isDigit = c :: cs := by
        rw [takeWhile_append (by simp)]
        exact List.takeWhile_eq_self_iff.2 hdigits
      have hdrop : (c :: cs ++ '.' :: (fraction ++ rest)).dropWhile Char.isDigit =
          '.' :: (fraction ++ rest) := by
        rw [dropWhile_append (by simp), List.dropWhile_eq_nil_iff.2 hdigits, List.nil_append]
      have hhead : (fraction ++ rest).head?.any Char.isDigit = true := by
        cases fraction with
        | nil => exact absurd rfl hfraction
        | cons d fraction => simpa using hdigits' d (by simp)
      -- The fraction takes all its digits. A point after it is not read as a second fraction.
      have hpoint : Lexeme.fraction? ('.' :: (fraction ++ rest)) =
          some ('.' :: fraction, rest) := by
        rw [Lexeme.fraction?, if_pos hhead, takeWhile_append hrest.not_digit,
          dropWhile_append hrest.not_digit, List.takeWhile_eq_self_iff.2 hdigits',
          List.dropWhile_eq_nil_iff.2 hdigits', List.nil_append]
      have hwhole' : c :: (cs ++ '.' :: fraction ++ rest) =
          c :: cs ++ '.' :: (fraction ++ rest) := by
        simp
      rw [read_of_isDigit hc]
      change Except.ok (Lexeme.number (c :: (cs ++ '.' :: fraction ++ rest))) = _
      rw [hwhole', Lexeme.number, htake, hdrop]
      simp only [hpoint, Option.getD_some, exponent?_of_wordEnds hrest, Option.getD_none,
        List.append_nil]
      rfl

/-! ## Symbols and strings -/

theorem read_escapeQuoted (cs rest : List Char) :
    Lexeme.read '"' (Template.escapeQuoted cs ++ '"' :: rest) =
      .ok ⟨.quoted (Template.escapeQuoted cs), '"' :: (Template.escapeQuoted cs ++ ['"']), rest⟩ := by
  change Lexeme.quoted _ = _
  rw [Lexeme.quoted, Template.quotedText?_escapeQuoted]
  rfl

theorem lexes_quoted (cs : List Char) :
    Lexes ('"' :: (Template.escapeQuoted cs ++ ['"']))
      (Single (.quoted (Template.escapeQuoted cs))) Anything := by
  refine .token (by decide) ?_
  intro rest _
  rw [List.append_assoc, List.singleton_append, read_escapeQuoted]

/-- Where one symbol starts but is not complete, a later one of the list is read. -/
theorem read?_of_incomplete {cs : List Char} {s t : Symbol} (before after : List Symbol)
    (hall : Symbol.all = before ++ t :: after)
    (hbefore : before.find? (fun u => u.chars.isPrefixOf cs) = none)
    (ht : t.chars.isPrefixOf cs = false)
    (hafter : after.find? (fun u => u.chars.isPrefixOf cs) = some s) :
    Symbol.read? cs = some (s, cs.drop s.chars.length) := by
  rw [Symbol.read?, hall, List.find?_append, hbefore, List.find?_cons_of_neg (by simp [ht]), hafter]
  rfl

/-- A symbol of one character, before a text that does not make a longer one of it. -/
theorem lexes_short {c d : Char} {more : List Char} {s t : Symbol} (before after : List Symbol)
    (hall : Symbol.all = before ++ t :: after) (hs : s.chars = [c]) (ht : t.chars = c :: d :: more)
    (hbefore : ∀ rest, before.find? (fun u => u.chars.isPrefixOf (c :: rest)) = none)
    (hafter : ∀ rest, after.find? (fun u => u.chars.isPrefixOf (c :: rest)) = some s)
    (hc : isSeparator c = false) (hlexeme : ∀ rest, Lexeme.read c rest = Lexeme.symbol c rest) :
    Lexes [c] (Single (.symbol s)) fun rest => rest.head? ≠ some d := by
  refine .token hc ?_
  intro rest hrest
  have hincomplete : t.chars.isPrefixOf (c :: rest) = false := by
    rw [ht]
    cases rest with
    | nil => simp
    | cons e rest =>
        have hne : ¬ d = e := fun h => hrest (by rw [h]; rfl)
        simp [List.isPrefixOf, hne]
  have hread : Symbol.read? (c :: rest) = some (s, rest) := by
    rw [read?_of_incomplete before after hall (hbefore rest) hincomplete (hafter rest), hs]
    rfl
  rw [List.nil_append, hlexeme, Lexeme.symbol, hread]
  simp [hs]

/-- A point that no other one follows. -/
theorem lexes_dot : Lexes ['.'] (Single (.symbol .dot)) fun rest => rest.head? ≠ some '.' :=
  lexes_short [] _ rfl rfl rfl (fun _ => rfl) (fun _ => rfl) rfl fun _ => rfl

/-- An exclamation mark that no equals sign follows. -/
theorem lexes_bang : Lexes ['!'] (Single (.symbol .bang)) fun rest => rest.head? ≠ some '=' :=
  lexes_short [.ellipsis, .fatArrow, .equalTo] _ rfl rfl rfl (fun _ => rfl) (fun _ => rfl) rfl
    fun _ => rfl

end Hcl
end ProviderMigration
