import Mathlib.Data.List.DropRight
import Mathlib.Data.Prod.Lex
import Mathlib.Order.Bounds.Basic
import Mathlib.Tactic.Common
import ProviderMigration.Hcl.Span

/-!
# Texts at byte offsets

Spans count bytes and texts are lists of characters. What stands before a text tells the offset of
the text, so a text is where its span says if it is cut out of the source behind as many bytes.

* `StandsAt` — a text in a source, and the byte offset of its first character;
* `StandsAt.slice?_eq` — its span lies on character boundaries and covers it;
* `exists_line` — the line of an offset counts the line feeds before it.

A position leads back to its place (`Position.ofOffset_faithful`): the line tells how many line
feeds to skip, and the column how many characters of that line.

* `Position.char?_ofOffset` — the character that a position leads to;
* `Position.key_ofOffset_lt` — later boundaries have later positions;
* `Position.exists_boundary` — the boundary whose position an offset has.
-/

namespace ProviderMigration

/-! ## Bytes -/

namespace Text

theorem byteLength_pos {cs : List Char} (h : cs ≠ []) : 0 < byteLength cs := by
  cases cs with
  | nil => exact absurd rfl h
  | cons c cs => exact Nat.add_pos_left c.utf8Size_pos _

theorem splitAtByte?_append (before after : List Char) :
    splitAtByte? (before ++ after) (byteLength before) = some (before, after) := by
  induction before with
  | nil => cases after <;> rfl
  | cons c before ih =>
      -- A character takes at least one byte, so the offset is not zero.
      obtain ⟨n, hn⟩ : ∃ n, byteLength (c :: before) = n + 1 :=
        Nat.exists_eq_add_one.2 (byteLength_pos (List.cons_ne_nil c before))
      have hrest : n + 1 - c.utf8Size = byteLength before := by
        rw [← hn, byteLength, Nat.add_sub_cancel_left]
      have hfits : c.utf8Size ≤ n + 1 := by
        rw [← hn, byteLength]
        exact Nat.le_add_right _ _
      rw [hn, List.cons_append, splitAtByte?, if_pos hfits, hrest, ih]
      rfl

theorem sliceBytes?_append (before text after : List Char) :
    sliceBytes? (before ++ (text ++ after)) (byteLength before)
      (byteLength before + byteLength text) = some text := by
  rw [sliceBytes?, if_pos (Nat.le_add_right _ _), splitAtByte?_append, Nat.add_sub_cancel_left]
  simp only [Option.bind_eq_bind, Option.bind_some, splitAtByte?_append, Option.pure_def]

/-! ## Places in a text -/

/-- The offset cuts no character in two. -/
def IsBoundary (cs : List Char) (offset : Nat) : Prop :=
  ∃ before after, cs = before ++ after ∧ byteLength before = offset

/-- What a text has in its last line. -/
def lastLine (cs : List Char) : List Char :=
  cs.rtakeWhile (· ≠ '\n')

/-- The text behind the first line feed. -/
def nextLine (cs : List Char) : List Char :=
  (cs.dropWhile (· ≠ '\n')).drop 1

/-- The text from the start of a line on. Lines are counted from one. -/
def fromLine (line : Nat) (cs : List Char) : List Char :=
  nextLine^[line - 1] cs

variable {cs before before' after after' : List Char}

theorem IsBoundary.le_byteLength {offset : Nat} (h : IsBoundary cs offset) :
    offset ≤ byteLength cs := by
  rcases h with ⟨before, after, rfl, rfl⟩
  rw [byteLength_append]
  exact Nat.le_add_right _ _

/-- Of two splits of a text, the one with fewer bytes in front comes first. -/
theorem exists_between (h : before ++ after = before' ++ after')
    (hlt : byteLength before < byteLength before') :
    ∃ c middle, before' = before ++ c :: middle ∧ after = c :: (middle ++ after') := by
  rcases List.append_eq_append_iff.1 h with ⟨middle, hbefore, hafter⟩ | ⟨middle, hbefore, -⟩
  · cases middle with
    | nil =>
        rw [List.append_nil] at hbefore
        exact absurd hlt (by rw [hbefore]; exact Nat.lt_irrefl _)
    | cons c middle => exact ⟨c, middle, hbefore, hafter⟩
  · -- The split with fewer bytes in front cannot be the longer one.
    rw [hbefore, byteLength_append] at hlt
    omega

theorem lastLine_concat (cs : List Char) (c : Char) :
    lastLine (cs ++ [c]) = if c = '\n' then [] else lastLine cs ++ [c] := by
  unfold lastLine
  rw [List.rtakeWhile_concat]
  by_cases hc : c = '\n' <;> simp [hc]

theorem nextLine_lastLine (cs after : List Char) :
    nextLine (lastLine cs ++ '\n' :: after) = after := by
  have hline : ∀ c ∈ lastLine cs, decide (c ≠ '\n') = true := by
    intro c hc
    have hmem : c ∈ cs.rtakeWhile (· ≠ '\n') := hc
    simpa using List.mem_rtakeWhile_imp hmem
  rw [nextLine, List.dropWhile_append_of_pos hline]
  rfl

/-- Behind the line feeds of its front, a text goes on with the last line of the front. -/
theorem iterate_nextLine (before after : List Char) :
    nextLine^[before.count '\n'] (before ++ after) = lastLine before ++ after := by
  induction before using List.reverseRecOn generalizing after with
  | nil => rfl
  | append_singleton before c ih =>
      rw [lastLine_concat, List.count_append, List.append_assoc, List.singleton_append]
      by_cases hc : c = '\n'
      · subst hc
        calc nextLine^[before.count '\n' + 1] (before ++ '\n' :: after)
            = nextLine (nextLine^[before.count '\n'] (before ++ '\n' :: after)) :=
              Function.iterate_succ_apply' ..
          _ = nextLine (lastLine before ++ '\n' :: after) := by rw [ih]
          _ = after := nextLine_lastLine before after
      · have hcount : List.count '\n' [c] = 0 := by simp [hc]
        rw [hcount, Nat.add_zero, ih, if_neg hc, List.append_assoc, List.singleton_append]

end Text

namespace Hcl

open Text (byteLength)

/-! ## Texts -/

/-- The text stands in the source, `offset` bytes after its start. -/
def StandsAt (source : String) (offset : Nat) (text : List Char) : Prop :=
  ∃ before after, source.toList = before ++ (text ++ after) ∧ byteLength before = offset

namespace StandsAt

variable {source : String} {offset : Nat} {text : List Char}

theorem whole (source : String) : StandsAt source 0 source.toList :=
  ⟨[], [], by simp, rfl⟩

/-- The span of the text lies on character boundaries, and the text is what it covers. -/
theorem slice?_eq (h : StandsAt source offset text) :
    Span.slice? ⟨offset, offset + byteLength text⟩ source = some (String.ofList text) := by
  obtain ⟨before, after, hsource, rfl⟩ := h
  rw [Span.slice?, hsource, Text.sliceBytes?_append, Option.map_some]

theorem stop_le (h : StandsAt source offset text) :
    offset + byteLength text ≤ byteLength source.toList := by
  obtain ⟨before, after, hsource, rfl⟩ := h
  rw [hsource, Text.byteLength_append, Text.byteLength_append]
  omega

/-- A part of the text stands as many bytes further on as the text before it has. -/
theorem part {front middle back : List Char} (h : StandsAt source offset text)
    (htext : text = front ++ (middle ++ back)) :
    StandsAt source (offset + byteLength front) middle := by
  obtain ⟨before, after, hsource, rfl⟩ := h
  refine ⟨before ++ front, back ++ after, ?_, Text.byteLength_append _ _⟩
  rw [hsource, htext]
  simp only [List.append_assoc]

end StandsAt

/-! ## Lines -/

/-- At the offset of a text, the characters before it have been stepped over. -/
theorem advance_append (p : Position) (before after : List Char) :
    p.advance (before ++ after) (byteLength before) = before.foldl Position.next p := by
  induction before generalizing p with
  | nil =>
      -- No character has no bytes, so the position is that of the first one.
      cases after with
      | nil => rfl
      | cons c after =>
          have hbytes : ¬ c.utf8Size ≤ 0 := Nat.not_le_of_gt c.utf8Size_pos
          rw [List.nil_append, byteLength, Position.advance, if_neg hbytes]
          rfl
  | cons c before ih =>
      have hfits : c.utf8Size ≤ byteLength (c :: before) := Nat.le_add_right _ _
      have hrest : byteLength (c :: before) - c.utf8Size = byteLength before := by
        rw [byteLength, Nat.add_sub_cancel_left]
      rw [List.cons_append, Position.advance, if_pos hfits, hrest, ih, List.foldl_cons]

theorem line_next (p : Position) (c : Char) :
    (p.next c).line = p.line + List.count '\n' [c] := by
  by_cases hc : c = '\n' <;> simp [Position.next, hc]

theorem line_advance (p : Position) (before after : List Char) :
    (p.advance (before ++ after) (byteLength before)).line = p.line + before.count '\n' := by
  rw [advance_append]
  induction before generalizing p with
  | nil => rfl
  | cons c before ih =>
      rw [List.foldl_cons, ih, line_next, Nat.add_assoc, ← List.count_append]
      rfl

theorem Position.line_ofOffset {source : String} {before after : List Char}
    (hsource : source.toList = before ++ after) :
    (ofOffset source (byteLength before)).line = 1 + before.count '\n' := by
  rw [ofOffset, hsource, line_advance]
  rfl

/-- The line of a text is one more than the number of line feeds before it. -/
theorem exists_line {source : String} {offset : Nat} {text : List Char}
    (h : StandsAt source offset text) :
    ∃ before after, source.toList = before ++ (text ++ after) ∧ byteLength before = offset ∧
      (Position.ofOffset source offset).line = 1 + before.count '\n' := by
  obtain ⟨before, after, hsource, rfl⟩ := h
  exact ⟨before, after, hsource, rfl, Position.line_ofOffset hsource⟩

/-! ## Positions -/

namespace Position

open Text (byteLength lastLine IsBoundary)

/-- The character that a position leads to: its column is counted in the text from the start of its
line on. -/
def char? (p : Position) (source : String) : Option Char :=
  (Text.fromLine p.line source.toList)[p.column - 1]?

variable {source : String} {before after : List Char}

theorem ofOffset_append (hsource : source.toList = before ++ after) :
    ofOffset source (byteLength before) = before.foldl next origin := by
  rw [ofOffset, hsource, advance_append]

theorem column_foldl (before : List Char) :
    (before.foldl next origin).column = 1 + (lastLine before).length := by
  induction before using List.reverseRecOn with
  | nil => rfl
  | append_singleton before c ih =>
      rw [List.foldl_append, List.foldl_cons, List.foldl_nil, Text.lastLine_concat]
      by_cases hc : c = '\n'
      · simp [next, hc]
      · simp [next, hc, ih, Nat.add_assoc]

theorem column_ofOffset (hsource : source.toList = before ++ after) :
    (ofOffset source (byteLength before)).column = 1 + (lastLine before).length := by
  rw [ofOffset_append hsource, column_foldl]

/-- The position leads back to the character at the offset, if there is one. -/
theorem char?_ofOffset (hsource : source.toList = before ++ after) :
    (ofOffset source (byteLength before)).char? source = after.head? := by
  have hline : Text.fromLine (1 + before.count '\n') source.toList = lastLine before ++ after := by
    rw [Text.fromLine, Nat.add_sub_cancel_left, hsource, Text.iterate_nextLine]
  rw [char?, line_ofOffset hsource, column_ofOffset hsource, hline, Nat.add_sub_cancel_left,
    List.getElem?_append_right (Nat.le_refl _), Nat.sub_self, List.head?_eq_getElem?]

/-! ## Order -/

/-- Positions in the order of lines, then of columns. -/
def key (p : Position) : ℕ ×ₗ ℕ :=
  toLex (p.line, p.column)

theorem key_lt_next (p : Position) (c : Char) : p.key < (p.next c).key := by
  unfold key next
  rw [Prod.Lex.toLex_lt_toLex]
  by_cases hc : c = '\n'
  · left
    simp [hc]
  · right
    simp [hc]

theorem key_le_foldl (p : Position) (cs : List Char) : p.key ≤ (cs.foldl next p).key := by
  induction cs generalizing p with
  | nil => exact le_refl _
  | cons c cs ih => exact (key_lt_next p c).le.trans (ih (p.next c))

theorem key_ofOffset_lt {a b : Nat} (ha : IsBoundary source.toList a)
    (hb : IsBoundary source.toList b) (h : a < b) :
    (ofOffset source a).key < (ofOffset source b).key := by
  rcases ha with ⟨before, after, hsource, rfl⟩
  rcases hb with ⟨before', after', hsource', rfl⟩
  rcases Text.exists_between (hsource.symm.trans hsource') h with ⟨c, middle, rfl, -⟩
  rw [ofOffset_append hsource, ofOffset_append hsource', List.foldl_append, List.foldl_cons]
  exact (key_lt_next _ c).trans_le (key_le_foldl _ middle)

/-! ## Offsets that are no boundaries -/

/-- An offset has the position of a boundary that it does not reach beyond, and the character at
that boundary reaches beyond the offset. -/
theorem exists_advance (p : Position) (cs : List Char) (offset : Nat) :
    ∃ before after, cs = before ++ after ∧ p.advance cs offset = before.foldl next p ∧
      byteLength before ≤ offset ∧
        ∀ c rest, after = c :: rest → offset < byteLength before + c.utf8Size := by
  induction cs generalizing p offset with
  | nil => exact ⟨[], [], rfl, rfl, Nat.zero_le _, nofun⟩
  | cons c cs ih =>
      by_cases hfits : c.utf8Size ≤ offset
      · rcases ih (p.next c) (offset - c.utf8Size) with
          ⟨before, after, rfl, hadvance, hle, hlt⟩
        refine ⟨c :: before, after, rfl, ?_, ?_, ?_⟩
        · rw [advance, if_pos hfits, hadvance, List.foldl_cons]
        · rw [byteLength]
          omega
        · intro d rest hafter
          have hbeyond := hlt d rest hafter
          rw [byteLength]
          omega
      · refine ⟨[], c :: cs, rfl, ?_, Nat.zero_le _, ?_⟩
        · rw [advance, if_neg hfits]
          rfl
        · intro d rest hafter
          rw [← (List.cons.inj hafter).1, byteLength]
          omega

/-- The boundary whose position an offset has is the last one that is not beyond it. -/
theorem exists_boundary (source : String) (offset : Nat) :
    ∃ k, IsGreatest {k | IsBoundary source.toList k ∧ k ≤ offset} k ∧
      ofOffset source offset = ofOffset source k := by
  rcases exists_advance origin source.toList offset with
    ⟨before, after, hsource, hadvance, hle, hlt⟩
  refine ⟨byteLength before, ⟨⟨⟨before, after, hsource, rfl⟩, hle⟩, ?_⟩, ?_⟩
  · -- A boundary further on has the character that reaches beyond the offset before it.
    rintro k ⟨⟨before', after', hsource', rfl⟩, hle'⟩
    by_contra hbeyond
    rcases Text.exists_between (hsource.symm.trans hsource') (Nat.lt_of_not_le hbeyond) with
      ⟨c, middle, rfl, hafter⟩
    have hlong := hlt c _ hafter
    rw [Text.byteLength_append, byteLength] at hle'
    omega
  · calc ofOffset source offset = before.foldl next origin := hadvance
      _ = ofOffset source (byteLength before) := (ofOffset_append hsource).symm

/-- Positions are faithful. -/
theorem ofOffset_faithful (source : String) :
    (∀ a b, IsBoundary source.toList a → IsBoundary source.toList b → a < b →
      (ofOffset source a).key < (ofOffset source b).key) ∧
    Set.InjOn (ofOffset source) {k | IsBoundary source.toList k} ∧
    (∀ before after, source.toList = before ++ after →
      (ofOffset source (byteLength before)).line = 1 + before.count '\n' ∧
      (ofOffset source (byteLength before)).column = 1 + (lastLine before).length ∧
      (ofOffset source (byteLength before)).char? source = after.head?) ∧
    ∀ offset, ∃ k,
      IsGreatest {k | IsBoundary source.toList k ∧ k ≤ min offset (byteLength source.toList)} k ∧
        ofOffset source offset = ofOffset source k := by
  refine ⟨fun a b => key_ofOffset_lt, ?_, ?_, ?_⟩
  · intro a ha b hb heq
    rcases Nat.lt_trichotomy a b with hlt | rfl | hlt
    · exact absurd (key_ofOffset_lt ha hb hlt) (by rw [heq]; exact lt_irrefl _)
    · rfl
    · exact absurd (key_ofOffset_lt hb ha hlt) (by rw [heq]; exact lt_irrefl _)
  · intro before after hsource
    exact ⟨line_ofOffset hsource, column_ofOffset hsource, char?_ofOffset hsource⟩
  · intro offset
    rcases exists_boundary source offset with ⟨k, ⟨⟨hk, hle⟩, hgreatest⟩, heq⟩
    refine ⟨k, ⟨⟨hk, Nat.le_min.2 ⟨hle, hk.le_byteLength⟩⟩, ?_⟩, heq⟩
    rintro k' ⟨hk', hle'⟩
    exact hgreatest ⟨hk', hle'.trans (Nat.min_le_left _ _)⟩

/-- Offsets inside a character, at an empty line, at the last character and past the end. -/
example : [1, 3, 4, 9].map (ofOffset "é\n\nz") = [⟨1, 1⟩, ⟨2, 1⟩, ⟨3, 1⟩, ⟨3, 2⟩] := by
  decide

end Position

end Hcl
end ProviderMigration
