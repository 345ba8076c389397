import ProviderMigration.Proofs.Hcl.Respelling.Directive
import ProviderMigration.Proofs.Hcl.Respelling.Enclosure
import Mathlib.Data.List.Forall2

/-!
# Respelling inside a template

Where a word is respelled in the raw text of a template, the segments stay in their places: each
expression is respelled, and each text in which the word does not stand is as it was.

* `Keeps` — texts that are the same unless the word stands in the first;
* `keepsSegments` — the segments of a respelled raw text.
-/

namespace ProviderMigration
namespace Hcl

open Text (isWordChar startsWord)
open Template (Segment split pushLiteral doubledOpener? opener? decodeEscape? codePoint? hexDigit?
  hexValue? bracedText? stripMarkers controlling? split_of_opener? split_unclosed
  split_invalidEscape opener?_eq_some_iff doubledOpener?_eq_some_iff stripMarkers_of_head?)

namespace Respelling

/-! ## Texts -/

/-- The texts are the same, unless the word stands alone in the first. -/
def Keeps (s : Respelling) (inWord : Bool) (text text' : List Char) : Prop :=
  StandsIn s.old inWord text ∨ text' = text

section
variable {s : Respelling} {inWord : Bool} {text text' : List Char}

theorem Keeps.refl (s : Respelling) (inWord : Bool) (text : List Char) : s.Keeps inWord text text :=
  .inr rfl

theorem Keeps.prepend {front : List Char} (h : s.Keeps (endsWord inWord front) text text') :
    s.Keeps inWord (front ++ text) (front ++ text') := by
  rcases h with h | rfl
  · exact .inl h.prepend
  · exact .inr rfl

theorem Keeps.append (h : s.Keeps inWord text text') {back : List Char}
    (hback : startsWord back = false) : s.Keeps inWord (text ++ back) (text' ++ back) := by
  rcases h with h | rfl
  · exact .inl (h.append hback)
  · exact .inr rfl

theorem Keeps.free (h : s.Keeps inWord text text') : s.Keeps false text text' :=
  h.imp_left StandsIn.free

theorem keeps_apply (s : Respelling) (inWord : Bool) (cs : List Char) :
    s.Keeps inWord cs (s.apply inWord cs) := by
  by_cases h : StandsIn s.old inWord cs
  · exact .inl h
  · exact .inr (apply_of_not_standsIn h)

end

/-! ## Segments -/

/-- A segment of a template and what it becomes where a word is respelled; `inWord` says whether a
word character stands before it. -/
inductive SegmentRespelt (s : Respelling) (inWord : Bool) : Segment → Segment → Prop
  | literal {text text' : List Char} (h : s.Keeps inWord text text') :
      SegmentRespelt s inWord (.literal text) (.literal text')
  | interpolation (stripLeft stripRight : Bool) (offset offset' : Nat) (expr : List Char) :
      SegmentRespelt s inWord (.interpolation stripLeft stripRight offset expr)
        (.interpolation stripLeft stripRight offset' (s.apply false expr))
  | directive {head head' tail tail' : List Char} (hhead : s.Keeps false head head')
      (htail : s.Keeps false tail tail') (offset offset' : Nat) (expr : List Char) :
      SegmentRespelt s inWord (.directive head offset expr tail)
        (.directive head' offset' (s.apply false expr) tail')
  | verbatim {text text' : List Char} (h : s.Keeps false text text') :
      SegmentRespelt s inWord (.verbatim text) (.verbatim text')

/-- The segments of a template and what they become, unless the template is malformed. No segment
but the first comes after a word character: a brace stands before it. -/
inductive SegmentsRespelt (s : Respelling) : Bool → List Segment → List Segment → Prop
  | malformed {inWord : Bool} {segments segments' : List Segment} {error : SyntaxError}
      (h : .malformed error ∈ segments) : SegmentsRespelt s inWord segments segments'
  | nil (inWord : Bool) : SegmentsRespelt s inWord [] []
  | cons {inWord : Bool} {segment segment' : Segment} {segments segments' : List Segment}
      (h : s.SegmentRespelt inWord segment segment')
      (hrest : SegmentsRespelt s false segments segments') :
      SegmentsRespelt s inWord (segment :: segments) (segment' :: segments')

variable {s : Respelling} {inWord escapes : Bool} {c : Char} {cs ds text text' : List Char}
  {offset offset' : Nat}

/-- Unless a template is malformed, its segments are respelled one by one. -/
theorem SegmentsRespelt.forall₂ {segments segments' : List Segment}
    (h : s.SegmentsRespelt false segments segments') :
    (∃ error, .malformed error ∈ segments) ∨
      List.Forall₂ (s.SegmentRespelt false) segments segments' := by
  generalize hfree : false = inWord at h
  induction h with
  | malformed h => exact .inl ⟨_, h⟩
  | nil => exact .inr .nil
  | cons h _ ih =>
      subst hfree
      rcases ih rfl with ⟨error, herror⟩ | hrest
      · exact .inl ⟨error, List.mem_cons_of_mem _ herror⟩
      · exact .inr (.cons h hrest)

/-- The word stands there where no word character comes before, too. -/
theorem SegmentsRespelt.free {segments segments' : List Segment}
    (h : s.SegmentsRespelt inWord segments segments') :
    s.SegmentsRespelt false segments segments' := by
  cases h with
  | malformed h => exact .malformed h
  | nil => exact .nil false
  | cons hsegment hrest =>
      refine .cons ?_ hrest
      cases hsegment with
      | literal h => exact .literal h.free
      | interpolation => exact .interpolation ..
      | directive hhead htail => exact .directive hhead htail ..
      | verbatim h => exact .verbatim h

theorem mem_pushLiteral_of_malformed {segments : List Segment} {error : SyntaxError}
    (h : .malformed error ∈ segments) (front : List Char) :
    .malformed error ∈ pushLiteral front segments := by
  cases segments with
  | nil => simp at h
  | cons segment segments => cases segment <;> simp_all [Template.pushLiteral]

/-- Text that comes before stays. -/
theorem SegmentsRespelt.pushLiteral {front : List Char} {segments segments' : List Segment}
    (h : s.SegmentsRespelt (endsWord inWord front) segments segments') :
    s.SegmentsRespelt inWord (pushLiteral front segments) (pushLiteral front segments') := by
  have hfront : s.SegmentRespelt inWord (.literal front) (.literal front) := .literal (.refl s ..)
  cases h with
  | malformed h => exact .malformed (mem_pushLiteral_of_malformed h front)
  | nil => exact .cons hfront (.nil false)
  | cons hsegment hrest =>
      cases hsegment with
      | literal h => exact .cons (.literal h.prepend) hrest
      | interpolation => exact .cons hfront (.cons (.interpolation ..) hrest)
      | directive hhead htail => exact .cons hfront (.cons (.directive hhead htail ..) hrest)
      | verbatim h => exact .cons hfront (.cons (.verbatim h) hrest)

theorem interpolation_respelt (offset offset' : Nat) (inside : List Char) :
    s.SegmentRespelt inWord (Template.interpolation offset inside)
      (Template.interpolation offset' (s.apply false inside)) := by
  simp only [Template.interpolation, stripMarkers_apply]
  exact .interpolation ..

theorem endsWord_opener (inside : List Char) :
    endsWord false ('%' :: '\x7b' :: (stripMarkers inside).1) = false := by
  by_cases h : inside.head? = some '~'
  · obtain ⟨rest, rfl⟩ := List.head?_eq_some_iff.1 h
    exact (by decide : isWordChar '~' = false)
  · rw [stripMarkers_of_head? h]
    exact (by decide : isWordChar '\x7b' = false)

theorem directive_respelt (offset offset' : Nat) (inside : List Char) :
    s.SegmentRespelt inWord (Template.directive offset inside)
      (Template.directive offset' (s.apply false inside)) := by
  simp only [Template.directive, stripMarkers_apply, controlling?_apply]
  cases controlling? (stripMarkers inside).2.1 with
  | none =>
      refine .verbatim ?_
      have hinside : s.Keeps (endsWord false ['%', '\x7b']) inside (s.apply false inside) :=
        keeps_apply s false inside
      exact hinside.prepend.append (by decide)
  | some found =>
      have hbefore : s.Keeps (endsWord false ('%' :: '\x7b' :: (stripMarkers inside).1)) found.1
          (s.apply false found.1) := by
        rw [endsWord_opener]
        exact keeps_apply s false found.1
      exact .directive hbefore.prepend (.refl s ..) ..

/-! ## Escapes -/

theorem isWordChar_of_hexDigit? {n : Nat} (h : hexDigit? c = some n) : isWordChar c = true := by
  apply isWordChar_of_isAlphanum
  rw [hexDigit?] at h
  split_ifs at h with hdigit hlower hupper
  · simp [Char.isAlphanum, hdigit]
  · have hc : c.isLower = true := Bool.and_eq_true_iff.2
      ⟨decide_eq_true hlower.1, decide_eq_true (UInt32.le_trans hlower.2 (by decide))⟩
    have halpha : c.isAlpha = true := Bool.or_eq_true_iff.2 (.inr hc)
    simp [Char.isAlphanum, halpha]
  · have hc : c.isUpper = true :=
      decide_eq_true ⟨hupper.1, UInt32.le_trans hupper.2 (by decide)⟩
    have halpha : c.isAlpha = true := Bool.or_eq_true_iff.2 (.inl hc)
    simp [Char.isAlphanum, halpha]

/-- After a word character, digits are not respelled. -/
theorem apply_hexDigits {digits : List Char} (h : ∀ d ∈ digits, ∃ n, hexDigit? d = some n)
    (cs : List Char) : s.apply true (digits ++ cs) = digits ++ s.apply true cs := by
  induction digits with
  | nil => rfl
  | cons d digits ih =>
      rw [List.forall_mem_cons] at h
      obtain ⟨n, hn⟩ := h.1
      rw [List.cons_append, apply_true_cons, isWordChar_of_hexDigit? hn, ih h.2, List.cons_append]

theorem hexDigit?_of_hexValue? {digits : List Char} {value : Nat}
    (h : hexValue? digits = some value) : ∀ d ∈ digits, ∃ n, hexDigit? d = some n := by
  rw [hexValue?] at h
  generalize 0 = start at h
  induction digits generalizing start with
  | nil => simp
  | cons d digits ih =>
      rw [List.foldlM_cons] at h
      obtain ⟨next, hnext, hrest⟩ := Option.bind_eq_some_iff.1 h
      obtain ⟨n, hn, -⟩ := Option.map_eq_some_iff.1 hnext
      rw [List.forall_mem_cons]
      exact ⟨⟨n, hn⟩, ih next hrest⟩

/-- The word does not begin among the digits of an escape: its second letter is no digit. -/
theorem apply_digits {digits : List Char} {value : Nat} (hlength : 3 ≤ digits.length)
    (h : hexValue? (if digits.head? = some '+' then digits.tail else digits) = some value)
    (cs : List Char) : s.apply true (digits ++ cs) = digits ++ s.apply true cs := by
  have hdigits := hexDigit?_of_hexValue? h
  split at hdigits
  · rename_i hplus
    obtain ⟨digits, rfl⟩ := List.head?_eq_some_iff.1 hplus
    match digits, hlength with
    | first :: second :: rest, _ =>
      rw [List.tail_cons, List.forall_mem_cons] at hdigits
      obtain ⟨⟨n, hfirst⟩, hrest⟩ := hdigits
      have hword : ¬ s.OccursAt false (first :: (second :: rest ++ cs)) := by
        rintro ⟨-, text, htext, -⟩
        obtain ⟨c, d, tail, hold, hd⟩ := s.second
        obtain ⟨n, hn⟩ := hrest second (by simp)
        rw [hold] at htext
        simp only [List.cons_append, List.cons.injEq] at htext
        rw [htext.2.1, hd] at hn
        cases hn
      rw [List.cons_append, s.apply_cons_of_nonword _ _ (by decide), List.cons_append,
        apply_cons hword, isWordChar_of_hexDigit? hfirst, apply_hexDigits hrest]
      rfl
  · exact apply_hexDigits hdigits cs

theorem codePoint?_apply {count : Nat} (hcount : 3 ≤ count) {rest : List Char}
    (h : codePoint? count cs = some (c, rest)) :
    codePoint? count (s.apply true cs) = some (c, s.apply true rest) := by
  simp only [codePoint?] at h ⊢
  split at h
  · rename_i hlength
    obtain ⟨value, hvalue, hchar⟩ := Option.bind_eq_some_iff.1 h
    obtain ⟨d, hd, heq⟩ := Option.bind_eq_some_iff.1 hchar
    obtain ⟨rfl, rfl⟩ := Prod.mk.inj (Option.some.inj heq)
    have hcs := apply_digits (s := s) (by omega) hvalue (cs.drop count)
    rw [List.take_append_drop] at hcs
    have htake : (s.apply true cs).take count = cs.take count := by
      rw [hcs, List.take_left' hlength]
    have hdrop : (s.apply true cs).drop count = s.apply true (cs.drop count) := by
      rw [hcs, List.drop_left' hlength]
    rw [htake, hdrop, if_pos hlength, hvalue, Option.bind_eq_bind, Option.bind_some, hd]
    rfl
  · simp at h

/-- What an escape stands for stays. -/
theorem decodeEscape?_apply {rest : List Char} (h : decodeEscape? cs = some (c, rest)) :
    ∃ inWord, (isWordChar c = true → inWord = true) ∧
      decodeEscape? (s.apply false cs) = some (c, s.apply inWord rest) := by
  have hletter {d : Char} (hd : d ∈ ['n', 'r', 't', 'u', 'U']) (cs : List Char) :
      s.apply false (d :: cs) = d :: s.apply true cs := by
    have hne : s.old.head? ≠ some d :=
      s.head_ne d (List.mem_append_left ['e', 'E', 'i', 'f'] hd)
    have hword : ∀ d ∈ ['n', 'r', 't', 'u', 'U'], isWordChar d = true :=
      List.all_eq_true.1 (by decide)
    rw [apply_cons (not_occursAt_of_head_ne hne), hword d hd]
  unfold decodeEscape? at h
  split at h
  · obtain ⟨rfl, rfl⟩ := Prod.mk.inj (Option.some.inj h)
    exact ⟨true, fun _ => rfl, by rw [hletter (by decide)]; rfl⟩
  · obtain ⟨rfl, rfl⟩ := Prod.mk.inj (Option.some.inj h)
    exact ⟨true, fun _ => rfl, by rw [hletter (by decide)]; rfl⟩
  · obtain ⟨rfl, rfl⟩ := Prod.mk.inj (Option.some.inj h)
    exact ⟨true, fun _ => rfl, by rw [hletter (by decide)]; rfl⟩
  · obtain ⟨rfl, rfl⟩ := Prod.mk.inj (Option.some.inj h)
    exact ⟨false, by decide, by rw [s.apply_cons_of_nonword _ _ (by decide)]; rfl⟩
  · obtain ⟨rfl, rfl⟩ := Prod.mk.inj (Option.some.inj h)
    exact ⟨false, by decide, by rw [s.apply_cons_of_nonword _ _ (by decide)]; rfl⟩
  · exact ⟨true, fun _ => rfl, by rw [hletter (by decide)]; exact codePoint?_apply (by decide) h⟩
  · exact ⟨true, fun _ => rfl, by rw [hletter (by decide)]; exact codePoint?_apply (by decide) h⟩
  · simp at h

/-! ## Openers -/

theorem opener?_apply (s : Respelling) (inWord : Bool) (cs : List Char) :
    opener? (s.apply inWord cs) = (opener? cs).map fun (c, rest) => (c, s.apply false rest) := by
  cases h : opener? cs with
  | some found =>
      obtain ⟨c, rest⟩ := found
      obtain ⟨hc, rfl⟩ := opener?_eq_some_iff.1 h
      have hnonword : isWordChar c = false := by rcases hc with rfl | rfl <;> decide
      rw [s.apply_cons_of_nonword _ _ hnonword, s.apply_cons_of_nonword _ _ (by decide)]
      exact opener?_eq_some_iff.2 ⟨hc, rfl⟩
  | none =>
      rw [Option.map_none, Option.eq_none_iff_forall_ne_some]
      rintro ⟨c, rest⟩ hopener
      obtain ⟨hc, hcs⟩ := opener?_eq_some_iff.1 hopener
      have hnonword : isWordChar c = false := by rcases hc with rfl | rfl <;> decide
      obtain ⟨tail, rfl, hbrace⟩ := apply_eq_cons hcs hnonword
      obtain ⟨after, rfl, -⟩ := apply_eq_cons hbrace.symm (by decide)
      rw [opener?_eq_some_iff.2 ⟨hc, rfl⟩] at h
      cases h

theorem doubledOpener?_apply (s : Respelling) (inWord : Bool) (cs : List Char) :
    doubledOpener? (s.apply inWord cs) =
      (doubledOpener? cs).map fun (c, rest) => (c, s.apply false rest) := by
  cases h : doubledOpener? cs with
  | some found =>
      obtain ⟨c, rest⟩ := found
      obtain ⟨hc, rfl⟩ := doubledOpener?_eq_some_iff.1 h
      have hnonword : isWordChar c = false := by rcases hc with rfl | rfl <;> decide
      rw [s.apply_cons_of_nonword _ _ hnonword, s.apply_cons_of_nonword _ _ hnonword,
        s.apply_cons_of_nonword _ _ (by decide)]
      exact doubledOpener?_eq_some_iff.2 ⟨hc, rfl⟩
  | none =>
      rw [Option.map_none, Option.eq_none_iff_forall_ne_some]
      rintro ⟨c, rest⟩ hopener
      obtain ⟨hc, hcs⟩ := doubledOpener?_eq_some_iff.1 hopener
      have hnonword : isWordChar c = false := by rcases hc with rfl | rfl <;> decide
      obtain ⟨tail, rfl, hsecond⟩ := apply_eq_cons hcs hnonword
      obtain ⟨more, rfl, hbrace⟩ := apply_eq_cons hsecond.symm hnonword
      obtain ⟨after, rfl, -⟩ := apply_eq_cons hbrace.symm (by decide)
      rw [doubledOpener?_eq_some_iff.2 ⟨hc, rfl⟩] at h
      cases h

/-! ## Templates -/

theorem pushLiteral_pushLiteral (segments : List Segment) :
    pushLiteral cs (pushLiteral ds segments) = pushLiteral (cs ++ ds) segments := by
  cases segments with
  | nil => rfl
  | cons segment segments => cases segment <;> simp [pushLiteral]

/-- Letters are text. -/
theorem split_letters (escapes : Bool) (offset : Nat) {letters : List Char} (hne : letters ≠ [])
    (h : ∀ c ∈ letters, Lexeme.isIdentStart c = true) (cs : List Char) :
    ∃ offset', split escapes offset (letters ++ cs) =
      pushLiteral letters (split escapes offset' cs) := by
  induction letters generalizing offset with
  | nil => exact absurd rfl hne
  | cons c letters ih =>
      rw [List.forall_mem_cons] at h
      have hother : ∀ d, Lexeme.isIdentStart d = false → c ≠ d := by
        rintro d hd rfl
        rw [h.1] at hd
        exact Bool.noConfusion hd
      have hdollar := hother '$' (by decide)
      have hpercent := hother '%' (by decide)
      rw [List.cons_append, Template.split_cons offset (fun _ => hother '\\' (by decide))
        (Template.doubledOpener?_eq_none hdollar hpercent _)
        (Template.opener?_eq_none hdollar hpercent _)]
      cases letters with
      | nil => exact ⟨_, rfl⟩
      | cons d letters =>
          obtain ⟨offset', hrest⟩ := ih (offset + c.utf8Size) (by simp) h.2
          exact ⟨offset', by rw [hrest, pushLiteral_pushLiteral]; rfl⟩

/-- A character without a code point in its escape is no word character. -/
theorem isWordChar_of_decodeEscape? {rest : List Char} (h : decodeEscape? cs = some (c, rest))
    (hplain : ∀ d ∈ ['u', 'U'], cs.head? ≠ some d) : isWordChar c = false := by
  unfold decodeEscape? at h
  split at h
  case h_6 => exact absurd rfl (hplain 'u' (by decide))
  case h_7 => exact absurd rfl (hplain 'U' (by decide))
  case h_8 => simp at h
  all_goals
    obtain ⟨rfl, -⟩ := Prod.mk.inj (Option.some.inj h)
    decide

/-- Where a raw text goes on outside a word, so does the text that it stands for. -/
theorem startsWord_of_split {raw : List Char} {segments : List Segment}
    (hstart : startsWord raw = false) (hescape : ∀ d ∈ ['u', 'U'], ¬ ['\\', d] <+: raw)
    (h : split escapes offset raw = .literal text :: segments) : startsWord text = false := by
  have hsplits := Template.splits escapes offset raw
  rw [h] at hsplits
  rcases hsplits.head?_literal with hhead | ⟨c, rest, spelling, -, rfl, hdecode, hhead⟩
  · rwa [startsWord, hhead]
  · rw [startsWord, hhead, Option.any_some]
    refine isWordChar_of_decodeEscape? hdecode fun d hd hspelling => ?_
    obtain ⟨tail, rfl⟩ := List.head?_eq_some_iff.1 hspelling
    exact hescape d hd (List.prefix_append ['\\', d] tail)

/-! ## Respelling -/

/-- No escape with a code point stands right after the word. What it stands for could be a word
character, though the backslash is none. -/
def EscapeFree (s : Respelling) (raw : List Char) : Prop :=
  ∀ c ∈ ['u', 'U'], ¬ s.old ++ ['\\', c] <:+: raw

theorem EscapeFree.within {raw part : List Char} (h : s.EscapeFree raw) (hpart : part <:+: raw) :
    s.EscapeFree part :=
  fun c hc hwithin => h c hc (hwithin.trans hpart)

/-- The segments of a raw text are respelled one by one. -/
def KeepsSegments (s : Respelling) (escapes : Bool) (raw : List Char) : Prop :=
  ∀ inWord offset offset', s.SegmentsRespelt inWord (split escapes offset raw)
    (split escapes offset' (s.apply inWord raw))

/-- The word itself, which stands alone in the text that the raw text stands for, too. -/
theorem segmentsRespelt_word (hfree : s.EscapeFree (s.old ++ text))
    (hstart : startsWord text = false) (h : s.KeepsSegments escapes text) :
    s.SegmentsRespelt false (split escapes offset (s.old ++ text))
      (split escapes offset' (s.apply false (s.old ++ text))) := by
  obtain ⟨after, hold⟩ := split_letters escapes offset s.old_ne_nil
    (fun _ => s.isIdentStart_of_mem_old) text
  obtain ⟨after', hnew⟩ := split_letters escapes offset' s.new_ne_nil
    (fun _ => s.isIdentStart_of_mem_new) (s.apply true text)
  have hescape : ∀ d ∈ ['u', 'U'], ¬ ['\\', d] <+: text := by
    rintro d hd ⟨rest, rfl⟩
    refine hfree d hd ⟨[], rest, ?_⟩
    simp
  have hstands {found : List Char} (hfound : startsWord found = false) :
      StandsIn s.old false (s.old ++ found) := ⟨[], found, rfl, rfl, hfound⟩
  have hsplit {found : List Char} {rest : List Segment} :
      split escapes after text = .literal found :: rest → startsWord found = false :=
    startsWord_of_split hstart hescape
  have hrest := h true after after'
  rw [apply_occurrence s hstart, hold, hnew]
  generalize split escapes after text = segments at hrest hsplit
  generalize split escapes after' (s.apply true text) = segments' at hrest
  have halone : StandsIn s.old false s.old := ⟨[], [], by simp, rfl, rfl⟩
  have hword : s.SegmentRespelt false (.literal s.old) (.literal s.new) := .literal (.inl halone)
  cases hrest with
  | malformed h => exact .malformed (mem_pushLiteral_of_malformed h s.old)
  | nil => exact .cons hword (.nil false)
  | cons hsegment hrest =>
      cases hsegment with
      | literal h => exact .cons (.literal (.inl (hstands (hsplit rfl)))) hrest
      | interpolation => exact .cons hword (.cons (.interpolation ..) hrest)
      | directive hhead htail => exact .cons hword (.cons (.directive hhead htail ..) hrest)
      | verbatim h => exact .cons hword (.cons (.verbatim h) hrest)

theorem segmentsRespelt_doubled {raw rest : List Char}
    (hdoubled : doubledOpener? raw = some (c, rest)) (h : s.KeepsSegments escapes rest) :
    s.SegmentsRespelt inWord (split escapes offset raw)
      (split escapes offset' (s.apply inWord raw)) := by
  have hdoubled' := s.doubledOpener?_apply inWord raw
  rw [hdoubled] at hdoubled'
  rw [Template.split_of_doubledOpener? offset hdoubled,
    Template.split_of_doubledOpener? offset' hdoubled']
  have hbrace : endsWord inWord [c, '\x7b'] = false := (by decide : isWordChar '\x7b' = false)
  refine .pushLiteral ?_
  rw [hbrace]
  exact h ..

theorem segmentsRespelt_opener {raw rest : List Char} (hdoubled : doubledOpener? raw = none)
    (hopener : opener? raw = some (c, rest))
    (h : ∀ after, after <:+: raw → after.length < raw.length → s.KeepsSegments escapes after) :
    s.SegmentsRespelt inWord (split escapes offset raw)
      (split escapes offset' (s.apply inWord raw)) := by
  have hdoubled' := s.doubledOpener?_apply inWord raw
  have hopener' := s.opener?_apply inWord raw
  have hbraced' : bracedText? (s.apply false rest) = _ := s.closing?_apply .braces [] false rest
  rw [hdoubled] at hdoubled'
  rw [hopener] at hopener'
  cases hbraced : bracedText? rest with
  | none =>
      obtain ⟨error, herror⟩ := split_unclosed escapes offset hdoubled hopener hbraced
      exact .malformed (herror ▸ List.mem_singleton_self (Segment.malformed error))
  | some parts =>
      rw [show Template.closing? .braces [] rest = some parts from hbraced] at hbraced'
      have hlength : parts.2.length < raw.length := by
        have hinside := Template.length_lt_of_bracedText? hbraced
        have hrest := Template.opener?_length hopener
        omega
      have hafter : parts.2 <:+: raw := by
        obtain ⟨-, rfl⟩ := opener?_eq_some_iff.1 hopener
        rw [Template.closing?_eq_append hbraced]
        exact ((List.suffix_cons _ parts.2).trans
          ((List.suffix_append parts.1 _).trans (List.suffix_append [c, '\x7b'] _))).isInfix
      rw [split_of_opener? hdoubled hopener hbraced, split_of_opener? hdoubled' hopener' hbraced']
      refine .cons ?_ (h _ hafter hlength ..)
      split
      · exact directive_respelt ..
      · exact interpolation_respelt ..

/-- A character that begins neither the word nor a sequence. -/
theorem segmentsRespelt_char (hword : ¬ s.OccursAt inWord (c :: cs))
    (hdoubled : doubledOpener? (c :: cs) = none) (hopener : opener? (c :: cs) = none)
    (h : ∀ text, text <:+ cs → s.KeepsSegments escapes text) :
    s.SegmentsRespelt inWord (split escapes offset (c :: cs))
      (split escapes offset' (s.apply inWord (c :: cs))) := by
  by_cases hescape : escapes = true ∧ c = '\\'
  · obtain ⟨rfl, rfl⟩ := hescape
    cases hdecode : decodeEscape? cs with
    | none =>
        exact .malformed (split_invalidEscape offset hdecode ▸ List.mem_singleton_self _)
    | some found =>
        obtain ⟨d, rest⟩ := found
        obtain ⟨inWord', hinWord, hdecode'⟩ := decodeEscape?_apply (s := s) hdecode
        rw [s.apply_cons_of_nonword _ _ (by decide),
          Template.split_of_decodeEscape? offset hdecode,
          Template.split_of_decodeEscape? offset' hdecode']
        refine .pushLiteral ?_
        have hrest := h rest (Template.decodeEscape?_suffix hdecode) inWord'
        -- The character may end a word only if the last one of its escape does.
        cases hd : isWordChar d with
        | true =>
            obtain rfl := hinWord hd
            rw [endsWord, endsWord, hd]
            exact hrest ..
        | false =>
            rw [endsWord, endsWord, hd]
            exact (hrest ..).free
  · have hplain : escapes = true → c ≠ '\\' := fun he hc => hescape ⟨he, hc⟩
    have hdoubled' := s.doubledOpener?_apply inWord (c :: cs)
    have hopener' := s.opener?_apply inWord (c :: cs)
    rw [hdoubled, apply_cons hword] at hdoubled'
    rw [hopener, apply_cons hword] at hopener'
    rw [apply_cons hword, Template.split_cons offset hplain hdoubled hopener,
      Template.split_cons offset' hplain hdoubled' hopener']
    exact .pushLiteral (h cs List.suffix_rfl ..)

/-- A template in which a word is respelled. -/
theorem keepsSegments (escapes : Bool) {raw : List Char} (hfree : s.EscapeFree raw) :
    s.KeepsSegments escapes raw := by
  induction h : raw.length using Nat.strongRecOn generalizing raw with
  | ind n ih =>
      subst h
      intro inWord offset offset'
      cases hdoubled : doubledOpener? raw with
      | some found =>
          have hlength := Template.doubledOpener?_length hdoubled
          obtain ⟨-, rfl⟩ := doubledOpener?_eq_some_iff.1 hdoubled
          have hrest := hfree.within (List.suffix_append [_, _, '\x7b'] found.2).isInfix
          exact segmentsRespelt_doubled hdoubled (ih _ hlength hrest rfl)
      | none =>
      cases hopener : opener? raw with
      | some found =>
          exact segmentsRespelt_opener hdoubled hopener fun after hafter hlength =>
            ih _ hlength (hfree.within hafter) rfl
      | none =>
      by_cases hword : s.OccursAt inWord raw
      · obtain ⟨rfl, text, rfl, hstart⟩ := hword
        have htext := hfree.within (List.suffix_append s.old text).isInfix
        exact segmentsRespelt_word hfree hstart (ih _ (s.length_lt_old_append text) htext rfl)
      cases raw with
      | nil =>
          rw [apply_nil, Template.split_nil, Template.split_nil]
          exact .nil inWord
      | cons c cs =>
          exact segmentsRespelt_char hword hdoubled hopener fun text htext =>
            ih _ (Nat.lt_succ_of_le htext.length_le)
              (hfree.within (htext.trans (List.suffix_cons c cs)).isInfix) rfl

end Respelling

/-! ## Parts of templates -/

namespace Template

/-- The text of the expression of an interpolation or directive. -/
def Segment.expr? : Segment → Option (List Char)
  | .interpolation _ _ _ expr => some expr
  | .directive _ _ expr _ => some expr
  | _ => none

theorem Segment.exists_embedded?_of_expr? {segment : Segment} {expr : List Char}
    (h : segment.expr? = some expr) : ∃ place, segment.embedded? = some (place, expr) := by
  cases segment <;> simp_all [Segment.expr?, Segment.embedded?]

end Template

end Hcl
end ProviderMigration
