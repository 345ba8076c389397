import ProviderMigration.Number.Word
import ProviderMigration.Proofs.Hcl.Printer.Operator

/-!
# Printed steps

Steps are written one after the other, without blanks. Two indices in a row that are written as
attributes are read as one number, so they are taken in pairs (`prints_steps`).

The digits of an index, read as an integer that has to fit a word, give the index back
(`natUpTo?_toDigits`, `signed?_toDigits`).
-/

namespace ProviderMigration

/-! ## Decimal digits -/

namespace Number

theorem digitChar_toNat : ∀ n < 10, (Nat.digitChar n).toNat - '0'.toNat = n := by
  decide

theorem digitsValue_append_singleton (digits : List Char) (c : Char) :
    Binary64.digitsValue (digits ++ [c]) =
      10 * Binary64.digitsValue digits + (c.toNat - '0'.toNat) := by
  simp [Binary64.digitsValue, List.foldl_append]

theorem digitsValue_toDigits (n : Nat) : Binary64.digitsValue (Nat.toDigits 10 n) = n := by
  induction n using Nat.strongRecOn with
  | ind n ih =>
      -- The last digit is split off, as the value is computed from the front.
      rw [Nat.toDigits_eq_if (by decide)]
      by_cases hn : n < 10
      · rw [if_pos hn]
        simpa [Binary64.digitsValue] using digitChar_toNat n hn
      · rw [if_neg hn, digitsValue_append_singleton, ih (n / 10) (by omega),
          digitChar_toNat _ (Nat.mod_lt n (by decide))]
        omega

theorem isDigit_of_mem_toDigits {n : Nat} {c : Char} (h : c ∈ Nat.toDigits 10 n) :
    c.isDigit = true :=
  Nat.isDigit_of_mem_toDigits (by decide) (by decide) h

theorem digits?_toDigits (n : Nat) : digits? (Nat.toDigits 10 n) = some n := by
  have hall : (Nat.toDigits 10 n).all Char.isDigit = true :=
    List.all_eq_true.2 fun _ => isDigit_of_mem_toDigits
  rw [digits?, hall, digitsValue_toDigits]
  simp [Nat.toDigits_ne_nil]

/-- A sign in front would be skipped, but digits have none. -/
theorem head?_toDigits_ne (n : Nat) {c : Char} (hc : c.isDigit = false) :
    (Nat.toDigits 10 n).head? ≠ some c := by
  intro hhead
  have hdigit := isDigit_of_mem_toDigits (List.mem_of_head? hhead)
  rw [hc] at hdigit
  exact Bool.false_ne_true hdigit

theorem natUpTo?_toDigits {n limit : Nat} (h : n ≤ limit) :
    natUpTo? limit (Nat.toDigits 10 n) = some n := by
  have hplus : (Nat.toDigits 10 n).head? ≠ some '+' := head?_toDigits_ne n (by decide)
  rw [natUpTo?, if_neg hplus, digits?_toDigits]
  simp [h]

theorem signed?_toDigits {n : Nat} (h : n ≤ maxSigned) :
    signed? (Nat.toDigits 10 n) = some (n : Int) := by
  have hplus : (Nat.toDigits 10 n).head? ≠ some '+' := head?_toDigits_ne n (by decide)
  have hminus : (Nat.toDigits 10 n).head? ≠ some '-' := head?_toDigits_ne n (by decide)
  have hsign : Binary64.takeSign (Nat.toDigits 10 n) = (false, Nat.toDigits 10 n) := by
    unfold Binary64.takeSign
    split <;> simp_all
  rw [signed?, hsign]
  simp [digits?_toDigits, h]

end Number
namespace Hcl

/-! ## Steps -/

section
variable {ss : List Step} {depth : Nat}

theorem lexes_leftBracket : Lexes ['['] (Single (.symbol .leftBracket)) Anything :=
  .token rfl fun _ _ => rfl

theorem lexes_rightBracket : Lexes [']'] (Single (.symbol .rightBracket)) Anything :=
  .token rfl fun _ _ => rfl

theorem lexes_star : Lexes ['*'] (Single (.symbol .star)) Anything :=
  .token rfl fun _ _ => rfl

/-- The word before a step ends there. -/
theorem wordEnds_steps {rest : List Char} (hrest : WordEnds rest) :
    WordEnds ((renderSteps depth ss).toList ++ rest) := by
  cases ss with
  | nil => simpa using hrest
  | cons step ss =>
      cases step with
      | _ =>
          simp
          exact wordEnds_cons (by decide)

/-- So does the number, if the step is not an index written as an attribute. -/
theorem numberEnds_steps {rest : List Char} (hrest : NumberEnds rest)
    (hnames : ∀ name, .attr name ∈ ss → IsName name)
    (hss : ∀ n ss', ss ≠ .legacyIndex n :: ss') :
    NumberEnds ((renderSteps depth ss).toList ++ rest) := by
  cases ss with
  | nil => simpa using hrest
  | cons step ss =>
      refine ⟨wordEnds_steps hrest.1, ?_⟩
      cases step with
      | attr name =>
          rcases (hnames name (by simp)).exists_cons with ⟨c, cs, htext, hc⟩
          -- A point before a name is no decimal point.
          have hdigit : ¬ c.isDigit = true := fun h => not_isIdentStart_of_isDigit h hc
          simp [htext, Lexeme.fraction?, hdigit]
      | legacyIndex n => exact absurd rfl (hss n ss)
      | _ =>
          simp
          rfl

/-- A step is written before the steps after it. -/
def PrintsSteps (depth : Nat) (ss : List Step) : Prop :=
  Lexes (renderSteps depth ss).toList (Spells (.steps ss)) NumberEnds

theorem prints_done : PrintsSteps depth [] := by
  refine Lexes.nil.mono ?_
  rintro _ rfl
  exact .done

theorem prints_attr {name : String} (hname : IsName name) (hss : PrintsSteps depth ss) :
    PrintsSteps depth (.attr name :: ss) := by
  have htext : (renderSteps depth (.attr name :: ss)).toList =
      ['.'] ++ (name.toList ++ (renderSteps depth ss).toList) := by simp
  have hword := (lexes_word hname).append hss fun _ h => wordEnds_steps h.1
  rw [PrintsSteps, htext]
  refine (lexes_dot.append hword ?_).mono ?_
  · intro rest _
    rcases hname.exists_cons with ⟨c, cs, hcs, hc⟩
    rw [hcs]
    intro hdot
    rw [Option.some.inj hdot] at hc
    exact absurd hc (by decide)
  · rintro _ ⟨_, _, rfl, ⟨dot, rfl, hdot⟩, _, ls, rfl, ⟨t, rfl, ht⟩, hls⟩
    exact .attr hdot ht hls

theorem prints_attrSplat (hss : PrintsSteps depth ss) : PrintsSteps depth (.attrSplat :: ss) := by
  have htext : (renderSteps depth (.attrSplat :: ss)).toList =
      ['.'] ++ (['*'] ++ (renderSteps depth ss).toList) := by simp
  have hstar := lexes_star.append hss fun _ _ => trivial
  rw [PrintsSteps, htext]
  refine (lexes_dot.append hstar ?_).mono ?_
  · exact fun _ _ => by simp
  · rintro _ ⟨_, _, rfl, ⟨dot, rfl, hdot⟩, _, ls, rfl, ⟨t, rfl, ht⟩, hls⟩
    exact .attrSplat hdot ht hls

theorem prints_fullSplat (hss : PrintsSteps depth ss) : PrintsSteps depth (.fullSplat :: ss) := by
  have htext : (renderSteps depth (.fullSplat :: ss)).toList =
      ['['] ++ (['*'] ++ ([']'] ++ (renderSteps depth ss).toList)) := by simp
  have hclose := lexes_rightBracket.append hss fun _ _ => trivial
  have hstar := lexes_star.append hclose fun _ _ => trivial
  rw [PrintsSteps, htext]
  refine (lexes_leftBracket.append hstar fun _ _ => trivial).mono ?_
  rintro _ ⟨_, _, rfl, ⟨o, rfl, ho⟩, _, _, rfl, ⟨t, rfl, ht⟩, _, ls, rfl, ⟨c, rfl, hc⟩, hls⟩
  exact .fullSplat ho ht hc hls

theorem prints_index {e : Expr} (he : Prints e) (hss : PrintsSteps depth ss) :
    PrintsSteps depth (.index e :: ss) := by
  have htext : (renderSteps depth (.index e :: ss)).toList =
      ['['] ++ ((e.render depth).toList ++ ([']'] ++ (renderSteps depth ss).toList)) := by simp
  have hclose := lexes_rightBracket.append hss fun _ _ => trivial
  have hinside := (he.whole depth).append hclose fun _ _ => numberEnds_cons (by decide)
  rw [PrintsSteps, htext]
  refine (lexes_leftBracket.append hinside fun _ _ => trivial).mono ?_
  rintro _ ⟨_, _, rfl, ⟨o, rfl, ho⟩, ls, _, rfl, hls, _, ls', rfl, ⟨c, rfl, hc⟩, hls'⟩
  exact .index ho hls hc hls'

theorem isDigit_of_mem_repr {n : Nat} {c : Char} (h : c ∈ n.repr.toList) : c.isDigit = true := by
  rw [Nat.toList_repr] at h
  exact Number.isDigit_of_mem_toDigits h

theorem repr_ne_nil (n : Nat) : n.repr.toList ≠ [] := by
  rw [Nat.toList_repr]
  exact Nat.toDigits_ne_nil

theorem ne_point_of_mem_repr {n : Nat} {c : Char} (h : c ∈ n.repr.toList) : c ≠ '.' := by
  rintro rfl
  exact absurd (isDigit_of_mem_repr h) (by decide)

/-- The point before an index is not one of several. -/
theorem head?_repr_append_ne_point (n : Nat) (rest : List Char) :
    (n.repr.toList ++ rest).head? ≠ some '.' := by
  rcases List.exists_cons_of_ne_nil (repr_ne_nil n) with ⟨c, cs, hcs⟩
  have hc : c ≠ '.' := ne_point_of_mem_repr (n := n) (by simp [hcs])
  simpa [hcs] using hc

theorem splitAtPoints_ne_nil (cs : List Char) : Parser.splitAtPoints cs ≠ [] := by
  cases cs with
  | nil => exact List.cons_ne_nil _ _
  | cons c cs =>
      rw [Parser.splitAtPoints]
      split
      · exact List.cons_ne_nil _ _
      · split <;> exact List.cons_ne_nil _ _

theorem splitAtPoints_append_point {cs : List Char} (h : ∀ c ∈ cs, c ≠ '.') (rest : List Char) :
    Parser.splitAtPoints (cs ++ '.' :: rest) = cs :: Parser.splitAtPoints rest := by
  induction cs with
  | nil =>
      rcases List.exists_cons_of_ne_nil (splitAtPoints_ne_nil rest) with ⟨piece, pieces, hrest⟩
      simp [Parser.splitAtPoints, hrest]
  | cons c cs ih =>
      have hc := h c (by simp)
      simp [Parser.splitAtPoints, ih fun d hd => h d (by simp [hd]), hc]

theorem splitAtPoints_of_no_point {cs : List Char} (h : ∀ c ∈ cs, c ≠ '.') :
    Parser.splitAtPoints cs = [cs] := by
  induction cs with
  | nil => rfl
  | cons c cs ih =>
      have hc := h c (by simp)
      simp [Parser.splitAtPoints, ih fun d hd => h d (by simp [hd]), hc]

/-- An index whose number ends before the next step. -/
theorem prints_legacy {n : Nat} (hn : n ≤ Number.maxUnsigned)
    (hnames : ∀ name, .attr name ∈ ss → IsName name)
    (hnext : ∀ n ss', ss ≠ .legacyIndex n :: ss') (hss : PrintsSteps depth ss) :
    PrintsSteps depth (.legacyIndex n :: ss) := by
  have htext : (renderSteps depth (.legacyIndex n :: ss)).toList =
      ['.'] ++ (n.repr.toList ++ (renderSteps depth ss).toList) := by simp
  -- Read as a number, the index has no point in it and stands for one step.
  have hindices : Parser.legacySteps? n.repr = some [.legacyIndex n] := by
    rw [Parser.legacySteps?, splitAtPoints_of_no_point fun _ => ne_point_of_mem_repr]
    simp [Number.natUpTo?_toDigits hn]
  have hnumeral := isNumeral_of_digits (repr_ne_nil n) fun _ => isDigit_of_mem_repr
  have hnumber := (lexes_number hnumeral).append hss
    fun _ h => numberEnds_steps h hnames hnext
  rw [PrintsSteps, htext]
  refine (lexes_dot.append hnumber ?_).mono ?_
  · intro rest _
    rw [List.append_assoc]
    exact head?_repr_append_ne_point n _
  · rintro _ ⟨_, _, rfl, ⟨dot, rfl, hdot⟩, _, ls, rfl, ⟨t, rfl, ht⟩, hls⟩
    exact .legacy hdot ht hindices hls

/-- Two indices, which are read as one number. -/
theorem prints_legacyPair {m n : Nat} (hm : m ≤ Number.maxUnsigned) (hn : n ≤ Number.maxUnsigned)
    (hss : PrintsSteps depth ss) : PrintsSteps depth (.legacyIndex m :: .legacyIndex n :: ss) := by
  have htext : (renderSteps depth (.legacyIndex m :: .legacyIndex n :: ss)).toList =
      ['.'] ++ ((m.repr.toList ++ '.' :: n.repr.toList) ++ (renderSteps depth ss).toList) := by simp
  -- The number has one point, which cuts it into both indices.
  have hindices : Parser.legacySteps? (String.ofList (m.repr.toList ++ '.' :: n.repr.toList)) =
      some [.legacyIndex m, .legacyIndex n] := by
    rw [Parser.legacySteps?, String.toList_ofList,
      splitAtPoints_append_point fun _ => ne_point_of_mem_repr,
      splitAtPoints_of_no_point fun _ => ne_point_of_mem_repr]
    simp [Number.natUpTo?_toDigits hm, Number.natUpTo?_toDigits hn]
  have hdecimal := lexes_decimal (repr_ne_nil m) (fun _ => isDigit_of_mem_repr) (repr_ne_nil n)
    fun _ => isDigit_of_mem_repr
  -- Even a third index may follow: after its fraction the number takes no further point.
  have hnumber := hdecimal.append hss fun _ h => wordEnds_steps h.1
  rw [PrintsSteps, htext]
  refine (lexes_dot.append hnumber ?_).mono ?_
  · intro rest _
    rw [List.append_assoc, List.append_assoc]
    exact head?_repr_append_ne_point m _
  · rintro _ ⟨_, _, rfl, ⟨dot, rfl, hdot⟩, _, ls, rfl, ⟨t, rfl, ht⟩, hls⟩
    exact .legacy hdot ht hindices hls

/-- All steps. Indices written as attributes are taken in pairs, as they are read. -/
theorem prints_steps (depth : Nat) (ss : List Step) (hnames : ∀ name, .attr name ∈ ss → IsName name)
    (hlegacy : ∀ n, .legacyIndex n ∈ ss → n ≤ Number.maxUnsigned)
    (hindices : ∀ e, .index e ∈ ss → Prints e) : PrintsSteps depth ss := by
  -- Strong induction on the number of steps, since a pair of indices takes two of them.
  induction hlength : ss.length using Nat.strongRecOn generalizing ss with
  | ind length ih =>
      have later (ss' : List Step) (hshorter : ss'.length < length) (hss' : ss' ⊆ ss) :
          PrintsSteps depth ss' :=
        ih ss'.length hshorter ss' (fun name h => hnames name (hss' h))
          (fun n h => hlegacy n (hss' h)) (fun e h => hindices e (hss' h)) rfl
      cases ss with
      | nil => exact prints_done
      | cons step ss =>
          rw [List.length_cons] at hlength
          have hss := later ss (by omega) (List.subset_cons_self step ss)
          cases step with
          | attr name => exact prints_attr (hnames name (by simp)) hss
          | index e => exact prints_index (hindices e (by simp)) hss
          | attrSplat => exact prints_attrSplat hss
          | fullSplat => exact prints_fullSplat hss
          | legacyIndex m =>
              -- The next step decides whether the index is read alone or as half of a pair.
              by_cases hnext : ∃ n ss', ss = .legacyIndex n :: ss'
              · rcases hnext with ⟨n, ss', rfl⟩
                rw [List.length_cons] at hlength
                exact prints_legacyPair (hlegacy m (by simp)) (hlegacy n (by simp))
                  (later ss' (by omega) fun _ h => by simp [h])
              · exact prints_legacy (hlegacy m (by simp)) (fun name h => hnames name (by simp [h]))
                  (fun n ss' h => hnext ⟨n, ss', h⟩) hss

end

theorem primary_of_phrase {e : Expr} {ls : List Located} (h : Spells e.phrase ls)
    (hroot : e.isRoot = true) : Spells (.primary e) ls := by
  cases e with
  | conditional | binary | unary | traversal => simp [Expr.isRoot] at hroot
  | _ => exact h

theorem prints_traversal {root : Expr} {ss : List Step} (hroot : root.isRoot = true)
    (hss : ss ≠ []) (hprints : Prints root) (hsteps : ∀ depth, PrintsSteps depth ss) :
    Prints (.traversal root ss) := by
  intro depth
  have htext : ((Expr.traversal root ss).render depth).toList =
      (root.render depth).toList ++ (renderSteps depth ss).toList := by simp
  rw [htext]
  refine ((hprints depth).append (hsteps depth) ?_).mono ?_
  · intro rest hrest
    -- A root is never a number, so a point may come right after it.
    rw [Expr.Ends, if_pos hroot]
    exact wordEnds_steps hrest.1
  · rintro _ ⟨ls, ls', rfl, hls, hls'⟩
    exact .traversal hss (primary_of_phrase hls hroot) hls'

end Hcl
end ProviderMigration
