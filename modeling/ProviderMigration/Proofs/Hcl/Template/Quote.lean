import Mathlib.Tactic.SplitIfs
import ProviderMigration.Hcl.Template.Quote
import ProviderMigration.Hcl.Template.Segment

/-!
# Quoted text reads back

What `escapeQuoted` writes between quotes is read as the text it was made from:

* the closing quote is the one that was written (`quotedText?_escapeQuoted`);
* the raw text is one literal segment (`split_escapeQuoted`).

Both are inductions along `escapeMarkers`, which steps over a whole sequence opener at a time.
-/

namespace ProviderMigration
namespace Hcl
namespace Template

/-! ## Escapes -/

/-- The character neither ends quoted text nor starts an escape or a sequence in it. -/
def IsPlain (c : Char) : Prop :=
  c ≠ '"' ∧ c ≠ '\n' ∧ c ≠ '\\' ∧ c ≠ '$' ∧ c ≠ '%'

theorem hexDigit?_upperHexDigit : ∀ d < 16, hexDigit? (upperHexDigit d) = some d := by
  decide

theorem isPlain_upperHexDigit : ∀ d < 16, IsPlain (upperHexDigit d) := by
  unfold IsPlain
  decide

theorem upperHexDigit_ne_plus : ∀ d < 16, upperHexDigit d ≠ '+' := by
  decide

theorem exists_digit_of_mem_fourHexDigits {n : Nat} {c : Char} (h : c ∈ fourHexDigits n) :
    ∃ d < 16, c = upperHexDigit d := by
  simp only [fourHexDigits, List.mem_cons, List.not_mem_nil, or_false] at h
  rcases h with rfl | rfl | rfl | rfl
  all_goals exact ⟨_, Nat.mod_lt _ (by decide), rfl⟩

theorem isPlain_of_mem_fourHexDigits {n : Nat} {c : Char} (h : c ∈ fourHexDigits n) :
    IsPlain c := by
  rcases exists_digit_of_mem_fourHexDigits h with ⟨d, hd, rfl⟩
  exact isPlain_upperHexDigit d hd

theorem head?_fourHexDigits (n : Nat) : (fourHexDigits n).head? ≠ some '+' := by
  intro h
  rcases exists_digit_of_mem_fourHexDigits (List.mem_of_head? h) with ⟨d, hd, hplus⟩
  exact upperHexDigit_ne_plus d hd hplus.symm

/-- Four digits are enough for a code unit. -/
theorem hexValue?_fourHexDigits {n : Nat} (h : n < 65536) :
    hexValue? (fourHexDigits n) = some n := by
  have hdigit : ∀ m, hexDigit? (upperHexDigit (m % 16)) = some (m % 16) := fun m =>
    hexDigit?_upperHexDigit _ (Nat.mod_lt m (by decide))
  simp only [hexValue?, fourHexDigits, List.foldlM_cons, List.foldlM_nil, hdigit, Option.map_some,
    Option.bind_eq_bind, Option.bind_some, Option.pure_def, Option.some.injEq]
  omega

theorem charOfNat?_toNat (c : Char) : charOfNat? c.toNat = some c := by
  have valid : c.toNat.isValidChar := c.valid
  rw [charOfNat?, dif_pos valid]
  exact congrArg some (Char.ext rfl)

theorem toNat_lt_of_isControlCode {c : Char} (h : Text.isControlCode c = true) :
    c.toNat < 160 := by
  simp only [Text.isControlCode, Bool.or_eq_true, Bool.and_eq_true, decide_eq_true_eq] at h
  omega

theorem decodeEscape?_fourHexDigits {c : Char} (h : Text.isControlCode c = true)
    (cs : List Char) :
    decodeEscape? ('u' :: (fourHexDigits c.toNat ++ cs)) = some (c, cs) := by
  have small : c.toNat < 65536 := by
    have := toNat_lt_of_isControlCode h
    omega
  have digits : (fourHexDigits c.toNat ++ cs).take 4 = fourHexDigits c.toNat :=
    List.take_left' rfl
  have after : (fourHexDigits c.toNat ++ cs).drop 4 = cs := List.drop_left' rfl
  simp only [decodeEscape?, codePoint?, digits, after, if_neg (head?_fourHexDigits _),
    hexValue?_fourHexDigits small]
  simp [charOfNat?_toNat, fourHexDigits]

/-- How a character is written: as an escape that stands for it, or as itself. -/
inductive Escaping (c : Char) : List Char → Prop
  | escape (d : Char) (tail : List Char)
      (hd : d ≠ '$' ∧ d ≠ '%')
      (plain : ∀ t ∈ tail, IsPlain t)
      (decode : ∀ cs, decodeEscape? (d :: (tail ++ cs)) = some (c, cs)) :
      Escaping c ('\\' :: d :: tail)
  | self (hc : c ≠ '"' ∧ c ≠ '\n' ∧ c ≠ '\\') : Escaping c [c]

theorem escaping_escapeChar (c : Char) : Escaping c (escapeChar c) := by
  unfold escapeChar
  split_ifs with backslash quote lineFeed carriage tab control
  · subst backslash
    exact .escape '\\' [] (by decide) (by simp) fun _ => rfl
  · subst quote
    exact .escape '"' [] (by decide) (by simp) fun _ => rfl
  · subst lineFeed
    exact .escape 'n' [] (by decide) (by simp) fun _ => rfl
  · subst carriage
    exact .escape 'r' [] (by decide) (by simp) fun _ => rfl
  · subst tab
    exact .escape 't' [] (by decide) (by simp) fun _ => rfl
  · exact .escape 'u' (fourHexDigits c.toNat) (by decide) (fun _ => isPlain_of_mem_fourHexDigits)
      (decodeEscape?_fourHexDigits control)
  · exact .self ⟨quote, lineFeed, backslash⟩

/-! ## Written text -/

theorem escapeMarkers_append {written : List Char} (h : ∀ c ∈ written, c ≠ '$' ∧ c ≠ '%')
    (cs : List Char) : escapeMarkers (written ++ cs) = written ++ escapeMarkers cs := by
  induction written with
  | nil => rfl
  | cons c written ih =>
      have hc := h c (by simp)
      rw [List.cons_append, escapeMarkers.eq_3, ih fun d hd => h d (by simp [hd]), List.cons_append]
      · exact fun _ hdollar => absurd hdollar hc.1
      · exact fun _ hpercent => absurd hpercent hc.2

/-- A `{` at the start of written text was one before. -/
theorem head?_escaping_append {c : Char} {written rest : List Char} (hc : Escaping c written)
    (h : (written ++ rest).head? = some '\x7b') : c = '\x7b' := by
  cases hc with
  | escape => simp at h
  | self => simpa using h

section
variable {c : Char} {cs : List Char}

theorem head?_flatMap_escapeChar (h : (cs.flatMap escapeChar).head? = some '\x7b') :
    cs.head? = some '\x7b' := by
  cases cs with
  | nil => simp at h
  | cons d cs =>
      rw [List.flatMap_cons] at h
      simp [head?_escaping_append (escaping_escapeChar d) h]

theorem escapeQuoted_cons (hdollar : ∀ tail, c = '$' → cs = '\x7b' :: tail → False)
    (hpercent : ∀ tail, c = '%' → cs = '\x7b' :: tail → False) :
    escapeQuoted (c :: cs) = escapeChar c ++ escapeQuoted cs := by
  -- The markers are escaped in the text that is already escaped, so a brace after this character
  -- there has to be traced back to a brace after it in the text itself.
  have brace : ∀ tail, cs.flatMap escapeChar = '\x7b' :: tail → ∃ rest, cs = '\x7b' :: rest := by
    intro tail htail
    exact List.head?_eq_some_iff.1 (head?_flatMap_escapeChar (by simp [htail]))
  rw [escapeQuoted, List.flatMap_cons, escapeQuoted]
  have hc := escaping_escapeChar c
  generalize escapeChar c = written at hc ⊢
  cases hc with
  | escape d tail hd plain =>
      refine escapeMarkers_append ?_ _
      intro t ht
      rcases List.mem_cons.1 ht with rfl | ht
      · decide
      rcases List.mem_cons.1 ht with rfl | ht
      · exact hd
      · exact (plain t ht).2.2.2
  | self =>
      rw [List.singleton_append, escapeMarkers.eq_3, List.singleton_append]
      · intro tail hc htail
        rcases brace tail htail with ⟨rest, hrest⟩
        exact hdollar rest hc hrest
      · intro tail hc htail
        rcases brace tail htail with ⟨rest, hrest⟩
        exact hpercent rest hc hrest

theorem escapeQuoted_dollar :
    escapeQuoted ('$' :: '\x7b' :: cs) = '$' :: '$' :: '\x7b' :: escapeQuoted cs := by
  rfl

theorem escapeQuoted_percent :
    escapeQuoted ('%' :: '\x7b' :: cs) = '%' :: '%' :: '\x7b' :: escapeQuoted cs := by
  rfl

/-- A brace at the start of written text was one before, if no brace comes after it. -/
theorem head?_escapeQuoted_append {rest : List Char} (hrest : rest.head? ≠ some '\x7b')
    (h : (escapeQuoted cs ++ rest).head? = some '\x7b') : cs.head? = some '\x7b' := by
  induction cs using escapeMarkers.induct with
  | case1 cs => simp [escapeQuoted_dollar] at h
  | case2 cs => simp [escapeQuoted_percent] at h
  | case3 c cs hdollar hpercent =>
      rw [escapeQuoted_cons hdollar hpercent, List.append_assoc] at h
      simp [head?_escaping_append (escaping_escapeChar c) h]
  | case4 => exact absurd h hrest

/-- Written text starts no sequence. -/
theorem opener?_escapeQuoted_append (cs rest : List Char)
    (hbrace : rest.head? ≠ some '\x7b') (hrest : opener? rest = none) :
    opener? (escapeQuoted cs ++ rest) = none := by
  induction cs using escapeMarkers.induct with
  | case1 cs => simp [escapeQuoted_dollar, opener?]
  | case2 cs => simp [escapeQuoted_percent, opener?]
  | case3 c cs hdollar hpercent =>
      rw [escapeQuoted_cons hdollar hpercent, List.append_assoc]
      have hc := escaping_escapeChar c
      generalize escapeChar c = written at hc ⊢
      cases hc with
      -- A backslash starts no sequence.
      | escape => rfl
      | self =>
          -- A character that stands for itself starts one only with a brace after it, and then it
          -- would have been doubled.
          have brace : ∀ tail, escapeQuoted cs ++ rest = '\x7b' :: tail →
              ∃ front, cs = '\x7b' :: front := by
            intro tail htail
            exact List.head?_eq_some_iff.1 (head?_escapeQuoted_append hbrace (by simp [htail]))
          unfold opener?
          split
          · rename_i tail heq
            rcases List.cons.inj heq with ⟨hc, htail⟩
            rcases brace tail htail with ⟨front, hfront⟩
            exact (hdollar front hc hfront).elim
          · rename_i tail heq
            rcases List.cons.inj heq with ⟨hc, htail⟩
            rcases brace tail htail with ⟨front, hfront⟩
            exact (hpercent front hc hfront).elim
          · rfl
  | case4 => exact hrest

/-- Before text that starts no sequence, no character starts a doubled opener. -/
theorem doubledOpener?_cons {c : Char} {rest : List Char} (h : opener? rest = none) :
    doubledOpener? (c :: rest) = none := by
  unfold doubledOpener?
  split
  · rename_i heq
    rw [(List.cons.inj heq).2] at h
    simp [opener?] at h
  · rename_i heq
    rw [(List.cons.inj heq).2] at h
    simp [opener?] at h
  · rfl

/-! ## The closing quote -/

theorem prepend_nil (found : Option (List Char × List Char)) : prepend [] found = found := by
  cases found <;> rfl

theorem prepend_prepend (front middle : List Char) (found : Option (List Char × List Char)) :
    prepend front (prepend middle found) = prepend (front ++ middle) found := by
  cases found <;> simp [prepend]

theorem closing?_quotes_cons {c : Char} {rest : List Char}
    (hc : c ≠ '"' ∧ c ≠ '\n' ∧ c ≠ '\\') (hopener : opener? (c :: rest) = none)
    (hdoubled : doubledOpener? (c :: rest) = none) :
    closing? .quotes [] (c :: rest) = prepend [c] (closing? .quotes [] rest) := by
  rcases hc with ⟨hquote, hline, hbackslash⟩
  -- The equation for any other character, with what rules out the equations before it.
  rw [closing?.eq_7, if_neg (by simpa using hquote), if_neg (by simpa using hline)]
  · exact fun _ _ h _ => hbackslash h
  · rintro _ rfl rfl
    simp [doubledOpener?] at hdoubled
  · rintro _ rfl rfl
    simp [doubledOpener?] at hdoubled
  · rintro _ rfl rfl
    simp [opener?] at hopener
  · rintro _ rfl rfl
    simp [opener?] at hopener

theorem opener?_eq_none {c : Char} (hdollar : c ≠ '$') (hpercent : c ≠ '%') (rest : List Char) :
    opener? (c :: rest) = none := by
  unfold opener?
  split
  · exact absurd (List.cons.inj ‹_›).1 hdollar
  · exact absurd (List.cons.inj ‹_›).1 hpercent
  · rfl

theorem doubledOpener?_eq_none {c : Char} (hdollar : c ≠ '$') (hpercent : c ≠ '%')
    (rest : List Char) : doubledOpener? (c :: rest) = none := by
  unfold doubledOpener?
  split
  · exact absurd (List.cons.inj ‹_›).1 hdollar
  · exact absurd (List.cons.inj ‹_›).1 hpercent
  · rfl

theorem closing?_quotes_append {plain : List Char} (h : ∀ c ∈ plain, IsPlain c)
    (rest : List Char) :
    closing? .quotes [] (plain ++ rest) = prepend plain (closing? .quotes [] rest) := by
  induction plain with
  | nil => rw [List.nil_append, prepend_nil]
  | cons c plain ih =>
      rcases h c (by simp) with ⟨hquote, hline, hbackslash, hdollar, hpercent⟩
      rw [List.cons_append, closing?_quotes_cons ⟨hquote, hline, hbackslash⟩,
        ih fun d hd => h d (by simp [hd]), prepend_prepend]
      · rfl
      · exact opener?_eq_none hdollar hpercent _
      · exact doubledOpener?_eq_none hdollar hpercent _

/-- Written text extends to the quote that was written after it. -/
theorem quotedText?_escapeQuoted (cs after : List Char) :
    quotedText? (escapeQuoted cs ++ '"' :: after) = some (escapeQuoted cs, after) := by
  unfold quotedText?
  -- The induction follows the escaping of the markers: a doubled one, or a single character.
  induction cs using escapeMarkers.induct with
  | case1 cs ih =>
      change prepend _ (closing? .quotes [] (escapeQuoted cs ++ '"' :: after)) = _
      rw [ih]
      rfl
  | case2 cs ih =>
      change prepend _ (closing? .quotes [] (escapeQuoted cs ++ '"' :: after)) = _
      rw [ih]
      rfl
  | case3 c cs hdollar hpercent ih =>
      have hopener := opener?_escapeQuoted_append (c :: cs) ('"' :: after) (by simp) rfl
      have hrest := opener?_escapeQuoted_append cs ('"' :: after) (by simp) rfl
      rw [escapeQuoted_cons hdollar hpercent, List.append_assoc] at hopener ⊢
      have hc := escaping_escapeChar c
      generalize escapeChar c = written at hc hopener ⊢
      cases hc with
      | escape d tail hd plain =>
          -- The escape and its first character are passed over, the rest of it is plain.
          change prepend ['\\', d] (closing? .quotes [] (tail ++ (escapeQuoted cs ++ _))) = _
          rw [closing?_quotes_append plain, ih]
          rfl
      | self hc =>
          rw [List.singleton_append] at hopener ⊢
          rw [closing?_quotes_cons hc hopener (doubledOpener?_cons hrest), ih]
          rfl
  | case4 => rfl

/-! ## The segments -/

/-- The segments of a text without sequences. -/
def literalSegments (cs : List Char) : List Segment :=
  if cs = [] then [] else [.literal cs]

theorem pushLiteral_literalSegments {front : List Char} (hfront : front ≠ []) (cs : List Char) :
    pushLiteral front (literalSegments cs) = literalSegments (front ++ cs) := by
  unfold literalSegments
  by_cases hcs : cs = []
  · simp [hcs, hfront, pushLiteral]
  · simp [hcs, pushLiteral]

variable {escapes : Bool}

theorem split_nil (offset : Nat) : split escapes offset [] = [] := by
  rw [split]
  rfl

theorem split_of_doubledOpener? {raw rest : List Char} (offset : Nat)
    (h : doubledOpener? raw = some (c, rest)) :
    split escapes offset raw = pushLiteral [c, '\x7b'] (split escapes (offset + 3) rest) := by
  rw [split]
  split
  · rename_i heq
    rcases Prod.mk.inj (Option.some.inj (h.symm.trans heq)) with ⟨rfl, rfl⟩
    rfl
  · rename_i heq
    simp [h] at heq

theorem split_of_decodeEscape? {rest : List Char} (offset : Nat)
    (h : decodeEscape? cs = some (c, rest)) :
    split true offset ('\\' :: cs) =
      pushLiteral [c] (split true (offset + 1 + (cs.length - rest.length)) rest) := by
  have hdoubled : doubledOpener? ('\\' :: cs) = none := rfl
  have hopener : opener? ('\\' :: cs) = none := rfl
  rw [split]
  split
  · simp_all
  split
  · simp_all
  -- What is left of the branches is the one of an escape in quotes.
  simp only [Bool.true_and, decide_true, if_true]
  split
  · simp_all
  · rename_i heq
    rcases Prod.mk.inj (Option.some.inj (h.symm.trans heq)) with ⟨rfl, rfl⟩
    rfl

theorem split_cons (offset : Nat) (hc : escapes = true → c ≠ '\\')
    (hdoubled : doubledOpener? (c :: cs) = none) (hopener : opener? (c :: cs) = none) :
    split escapes offset (c :: cs) = pushLiteral [c] (split escapes (offset + c.utf8Size) cs) := by
  have hplain : ¬ (escapes && decide (c = '\\')) = true := by
    rw [Bool.and_eq_true, decide_eq_true_eq]
    exact fun h => hc h.1 h.2
  rw [split]
  split
  · simp_all
  split
  · simp_all
  exact if_neg hplain

theorem split_of_opener? {raw rest : List Char} (hdoubled : doubledOpener? raw = none)
    (h : opener? raw = some (c, rest)) {inside after : List Char}
    (hbraced : bracedText? rest = some (inside, after)) :
    split escapes offset raw =
      (if c = '%' then directive offset inside
        else interpolation offset inside) ::
        split escapes (offset + 3 + Text.byteLength inside) after := by
  rw [split]
  split
  · simp_all
  split
  · rename_i heq
    obtain ⟨rfl, rfl⟩ := Prod.mk.inj (Option.some.inj (h.symm.trans heq))
    split
    · simp_all
    · rename_i heq
      obtain ⟨rfl, rfl⟩ := Prod.mk.inj (Option.some.inj (hbraced.symm.trans heq))
      rfl
  · simp_all

theorem split_unclosed (escapes : Bool) (offset : Nat) {raw rest : List Char}
    (hdoubled : doubledOpener? raw = none) (h : opener? raw = some (c, rest))
    (hbraced : bracedText? rest = none) :
    ∃ error, split escapes offset raw = [.malformed error] := by
  rw [split]
  split
  · simp_all
  split
  · rename_i heq
    obtain ⟨rfl, rfl⟩ := Prod.mk.inj (Option.some.inj (h.symm.trans heq))
    split
    · exact ⟨_, rfl⟩
    · simp_all
  · simp_all

theorem split_invalidEscape (offset : Nat) (h : decodeEscape? cs = none) :
    split true offset ('\\' :: cs) =
      [.malformed ⟨.invalidEscape, ⟨offset, offset + 2⟩⟩] := by
  have hdoubled : doubledOpener? ('\\' :: cs) = none := rfl
  have hopener : opener? ('\\' :: cs) = none := rfl
  rw [split]
  split
  · simp_all
  split
  · simp_all
  simp only [Bool.true_and, decide_true, if_true]
  split
  · rfl
  · simp_all

/-- Written text is one literal, the text it was made from. -/
theorem split_escapeQuoted (offset : Nat) (cs : List Char) :
    split true offset (escapeQuoted cs) = literalSegments cs := by
  induction cs using escapeMarkers.induct generalizing offset with
  | case1 cs ih =>
      rw [escapeQuoted_dollar, split_of_doubledOpener? offset rfl, ih,
        pushLiteral_literalSegments (by simp)]
      rfl
  | case2 cs ih =>
      rw [escapeQuoted_percent, split_of_doubledOpener? offset rfl, ih,
        pushLiteral_literalSegments (by simp)]
      rfl
  | case3 c cs hdollar hpercent ih =>
      have hopener := opener?_escapeQuoted_append (c :: cs) [] (by simp) rfl
      have hrest := opener?_escapeQuoted_append cs [] (by simp) rfl
      rw [List.append_nil] at hopener hrest
      rw [escapeQuoted_cons hdollar hpercent] at hopener ⊢
      have hc := escaping_escapeChar c
      generalize escapeChar c = written at hc hopener ⊢
      cases hc with
      | escape d tail hd plain decode =>
          rw [List.cons_append, List.cons_append, split_of_decodeEscape? offset (decode _), ih,
            pushLiteral_literalSegments (by simp)]
          rfl
      | self hc =>
          rw [List.singleton_append] at hopener ⊢
          rw [split_cons offset (fun _ => hc.2.2) (doubledOpener?_cons hrest) hopener, ih,
            pushLiteral_literalSegments (by simp)]
          rfl
  | case4 => exact split_nil offset

end

end Template
end Hcl
end ProviderMigration
