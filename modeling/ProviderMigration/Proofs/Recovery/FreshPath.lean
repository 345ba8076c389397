import Mathlib.Data.List.Nodup
import Mathlib.Data.List.Perm.Subperm
import Mathlib.Data.Nat.Find
import Mathlib.Order.Bounds.Basic
import ProviderMigration.Proofs.File.Tree
import ProviderMigration.Recovery.Backup

/-!
# Fresh paths

The candidates for the path of a backup lead to different places. A candidate that is taken takes up
a place where there is something, or an earlier backup; so there are no more of them in a row than
there are of these, and the search ends.

* `eq_of_destination` — different candidates lead to different places;
* `le_of_taken` — the number of candidates that are taken;
* `exists_isLeast_free` — the first candidate that is free;
* `freshPath_eq` — the search ends there.
-/

namespace ProviderMigration

namespace Backups

variable (b : Backups) (t : FileTree) (dir : Path) (base : String)

/-! ## Numbers in names -/

theorem isDigit_of_mem_toString {n : Nat} {c : Char} (h : c ∈ (toString n).toList) :
    c.isDigit = true := by
  rw [Nat.toString_eq_repr, Nat.toList_repr] at h
  exact Nat.isDigit_of_mem_toDigits (by decide) (by decide) h

theorem eq_of_toString_eq {m n : Nat} (h : toString m = toString n) : m = n := by
  have hdigits : Nat.toDigits 10 m = Nat.toDigits 10 n := by
    rw [← Nat.toList_repr, ← Nat.toList_repr, ← Nat.toString_eq_repr, ← Nat.toString_eq_repr, h]
  have hread := congrArg (Nat.ofDigitChars 10 · 0) hdigits
  simpa only [Nat.ofDigitChars_toDigits (b := 10) (by decide) (by decide)] using hread

theorem partOfSegment?_numbered (stem : String) (n : Nat) :
    Path.partOfSegment? (stem ++ ("." ++ toString n)) =
      some (.name (stem ++ ("." ++ toString n))) := by
  have hdigits : (toString n).toList ≠ [] := by
    rw [Nat.toString_eq_repr, Nat.toList_repr]
    exact Nat.toDigits_ne_nil
  -- The last character is a digit, so the segment is neither empty nor made of dots.
  have hne : ∀ s : String, (∀ c ∈ s.toList, c = '.') → stem ++ ("." ++ toString n) ≠ s := by
    rintro s hs rfl
    obtain ⟨c, hc⟩ := List.exists_mem_of_ne_nil _ hdigits
    have hdot := hs c (by simp only [String.toList_append, List.mem_append, hc, or_true])
    have := isDigit_of_mem_toString hc
    rw [hdot] at this
    exact absurd this (by decide)
  have hidle : Path.isIdle (stem ++ ("." ++ toString n)) = false := by
    simp only [Path.isIdle, Bool.or_eq_false_iff, beq_eq_false_iff_ne]
    exact ⟨hne "" (by simp), hne "." (by simp)⟩
  rw [Path.partOfSegment?, hidle]
  simp only [Bool.false_eq_true, if_false, beq_iff_eq, hne ".." (by simp)]

/-! ## Where candidates lead -/

/-- The candidates with a number have one name with their numbers after it, in one directory; the
first candidate has that name, or leads to that directory or the one above. -/
theorem exists_parts_candidate :
    ∃ front stem last, Path.IsGrowing stem last ∧
      (candidate dir base 0).parts = front ++ last.toList ∧
        ∀ n, (candidate dir base (n + 1)).parts =
          front ++ [.name (stem ++ ("." ++ toString (n + 1)))] := by
  rcases Path.exists_parts_join dir base with ⟨front, stem, last, hlast, hparts, hlonger⟩
  refine ⟨front, stem, last, hlast, hparts, ?_⟩
  intro n
  have hcandidate : candidate dir base (n + 1) = dir.join (base ++ ("." ++ toString (n + 1))) := by
    rw [← String.append_assoc]
    rfl
  rw [hcandidate]
  refine hlonger _ ?_ (partOfSegment?_numbered stem (n + 1))
  rw [String.toList_append, List.mem_append, not_or]
  exact ⟨by decide, fun h => absurd (isDigit_of_mem_toString h) (by decide)⟩

/-- Where the numbered candidates lead, and that the first one leads elsewhere. -/
theorem exists_destination (loc : Location) :
    ∃ (place : Location) (stem : String),
      (∀ n, (candidate dir base (n + 1)).parts.foldl FileTree.follow loc =
        place ++ [stem ++ ("." ++ toString (n + 1))]) ∧
      ∀ n, (candidate dir base 0).parts.foldl FileTree.follow loc ≠
        place ++ [stem ++ ("." ++ toString (n + 1))] := by
  rcases exists_parts_candidate dir base with ⟨front, stem, last, hlast, hfirst, hnumbered⟩
  refine ⟨front.foldl FileTree.follow loc, stem, ?_, ?_⟩
  · intro n
    rw [hnumbered, List.foldl_append]
    rfl
  · intro n heq
    rw [hfirst, List.foldl_append] at heq
    have hlength := congrArg List.length heq
    rw [List.length_append, List.length_singleton] at hlength
    rcases hlast with rfl | rfl | rfl | rfl
    -- The directory, or the one above, is not so deep.
    · exact absurd hlength (by simp)
    · exact absurd hlength (by simp [FileTree.follow])
    · exact absurd hlength (by simp [FileTree.follow])
    -- The name without a number is shorter.
    · have hname : stem = stem ++ ("." ++ toString (n + 1)) := by
        simpa [FileTree.follow] using heq
      exact absurd (congrArg String.length hname) (by simp)

variable {dir base}

/-- Different candidates lead to different places. -/
theorem eq_of_destination (loc : Location) {m n : Nat}
    (h : (candidate dir base m).parts.foldl FileTree.follow loc =
      (candidate dir base n).parts.foldl FileTree.follow loc) : m = n := by
  rcases exists_destination dir base loc with ⟨place, stem, hnumbered, hfirst⟩
  cases m with
  | zero =>
      cases n with
      | zero => rfl
      | succ n => exact absurd (h.trans (hnumbered n)) (hfirst n)
  | succ m =>
      cases n with
      | zero => exact absurd (h.symm.trans (hnumbered m)) (hfirst m)
      | succ n =>
          rw [hnumbered, hnumbered] at h
          have hnumber : toString (m + 1) = toString (n + 1) := by simpa using h
          exact eq_of_toString_eq hnumber

variable (dir base) in
theorem injective_parts_candidate : Function.Injective fun n => (candidate dir base n).parts := by
  intro m n h
  exact eq_of_destination [] (congrArg (List.foldl FileTree.follow []) h)

variable {t}

theorem eq_of_locate_candidate {loc : Location} {m n : Nat}
    (hm : t.locate (candidate dir base m) = .ok loc)
    (hn : t.locate (candidate dir base n) = .ok loc) : m = n := by
  have hsame := (FileTree.locate_eq hm).symm.trans (FileTree.locate_eq hn)
  exact eq_of_destination t.workingDirectory hsame

/-- Only the first candidate can lead to the root. -/
theorem ne_nil_of_locate_candidate {loc : Location} {n : Nat}
    (hfirst : t.locate (candidate dir base 0) ≠ .ok [])
    (hloc : t.locate (candidate dir base n) = .ok loc) : loc ≠ [] := by
  rintro rfl
  cases n with
  | zero => exact hfirst hloc
  | succ n =>
      rcases exists_destination dir base t.workingDirectory with ⟨place, stem, hnumbered, -⟩
      have hdestination := FileTree.locate_eq hloc
      rw [hnumbered] at hdestination
      simp at hdestination

/-! ## Candidates that are taken -/

variable {b}

theorem isTaken_eq_false {p : Path} : b.isTaken t p = false ↔
    t.at? p = none ∧ ∀ q ∈ b.created, q.parts ≠ p.parts := by
  simp [isTaken, FileTree.has]

/-- Each candidate that is taken takes up a place or an earlier backup of its own. -/
theorem le_of_taken {places : List Location} {n : Nat}
    (htaken : ∀ m < n, b.isTaken t (candidate dir base m) = true)
    (hplaces : ∀ m < n, ∀ loc node, t.locate (candidate dir base m) = .ok loc →
      t.node? loc = some node → loc ∈ places) :
    n ≤ places.length + b.created.length := by
  -- A candidate that is taken stands in the tree or is the path of a backup.
  let there := (List.range n).filter fun m => t.has (candidate dir base m)
  let rest := (List.range n).filter fun m => !t.has (candidate dir base m)
  have hlocated : ∀ m ∈ there, ∃ loc ∈ places, t.locate (candidate dir base m) = .ok loc := by
    intro m hm
    rcases List.mem_filter.1 hm with ⟨hlt, hhas⟩
    rcases Option.isSome_iff_exists.1 hhas with ⟨node, hnode⟩
    rcases FileTree.at?_eq_some.1 hnode with ⟨loc, hloc, hnode⟩
    exact ⟨loc, hplaces m (List.mem_range.1 hlt) loc node hloc hnode, hloc⟩
  have hthere : there.length ≤ places.length := by
    have hnodup : (there.map fun m => t.locate (candidate dir base m)).Nodup := by
      refine List.Nodup.map_on ?_ (List.nodup_range.filter _)
      intro m hm n hn heq
      rcases hlocated m hm with ⟨loc, -, hloc⟩
      exact eq_of_locate_candidate hloc (heq ▸ hloc)
    have hsubset : (there.map fun m => t.locate (candidate dir base m)) ⊆ places.map .ok := by
      intro result hresult
      rcases List.mem_map.1 hresult with ⟨m, hm, rfl⟩
      rcases hlocated m hm with ⟨loc, hmem, hloc⟩
      exact hloc ▸ List.mem_map_of_mem hmem
    simpa using (hnodup.subperm hsubset).length_le
  have hrest : rest.length ≤ b.created.length := by
    have hnodup : (rest.map fun m => (candidate dir base m).parts).Nodup :=
      (List.nodup_range.filter _).map (injective_parts_candidate dir base)
    have hsubset : (rest.map fun m => (candidate dir base m).parts) ⊆
        b.created.map Path.parts := by
      intro parts hparts
      rcases List.mem_map.1 hparts with ⟨m, hm, rfl⟩
      rcases List.mem_filter.1 hm with ⟨hlt, hhas⟩
      have htaken := htaken m (List.mem_range.1 hlt)
      rw [isTaken, Bool.not_eq_eq_eq_not.1 hhas, Bool.not_true, Bool.false_or] at htaken
      rcases List.any_eq_true.1 htaken with ⟨q, hq, heq⟩
      exact List.mem_map.2 ⟨q, hq, beq_iff_eq.1 heq⟩
    simpa using (hnodup.subperm hsubset).length_le
  calc n = (List.range n).length := List.length_range.symm
    _ = there.length + rest.length := List.length_eq_length_filter_add _
    _ ≤ places.length + b.created.length := Nat.add_le_add hthere hrest

theorem le_of_taken_occupied {n : Nat}
    (htaken : ∀ m < n, b.isTaken t (candidate dir base m) = true) :
    n ≤ t.occupied.length + b.created.length :=
  le_of_taken htaken fun _ _ _ _ _ hnode => FileTree.mem_occupied_of_node? hnode

theorem le_of_taken_entries {n : Nat} (hfirst : t.locate (candidate dir base 0) ≠ .ok [])
    (htaken : ∀ m < n, b.isTaken t (candidate dir base m) = true) :
    n ≤ t.entries.length + b.created.length := by
  have hbound : n ≤ (t.entries.map Prod.fst).length + b.created.length :=
    le_of_taken htaken fun _ _ _ _ hloc hnode =>
      FileTree.mem_entries_of_node? (ne_nil_of_locate_candidate hfirst hloc) hnode
  rwa [List.length_map] at hbound

/-! ## The search -/

variable (b t dir base) in
/-- Some candidate is the first one that is free. -/
theorem exists_isLeast_free :
    ∃ n, IsLeast {n | b.isTaken t (candidate dir base n) = false} n := by
  have hexists : ∃ n, b.isTaken t (candidate dir base n) = false := by
    by_contra hnone
    have htaken : ∀ n, b.isTaken t (candidate dir base n) = true := by
      intro n
      exact Bool.eq_true_of_not_eq_false fun hfree => hnone ⟨n, hfree⟩
    have hbound := le_of_taken_occupied (n := t.occupied.length + b.created.length + 1)
      fun n _ => htaken n
    omega
  exact ⟨Nat.find hexists, Nat.find_spec hexists, fun n hn => Nat.find_min' hexists hn⟩

section

variable {n : Nat} (h : IsLeast {n | b.isTaken t (candidate dir base n) = false} n)

include h

theorem taken_of_lt {m : Nat} (hlt : m < n) : b.isTaken t (candidate dir base m) = true := by
  by_contra hfree
  exact absurd (h.2 (Bool.eq_false_of_not_eq_true hfree)) (Nat.not_le_of_lt hlt)

/-- The search goes through the candidates that are taken. -/
theorem freeFrom_eq {steps m : Nat} (hm : m ≤ n) (hsteps : n ≤ m + steps) :
    b.freeFrom t dir base steps m = candidate dir base n := by
  induction steps generalizing m with
  | zero =>
      obtain rfl : m = n := by omega
      rfl
  | succ steps ih =>
      rw [freeFrom]
      by_cases hlt : m < n
      · simp only [taken_of_lt h hlt, if_true]
        exact ih hlt (by omega)
      · obtain rfl : m = n := by omega
        simp only [show b.isTaken t (candidate dir base m) = false from h.1, Bool.false_eq_true,
          if_false]

theorem freshPath_eq : b.freshPath t dir base = candidate dir base n := by
  have hbound := le_of_taken_occupied fun m => taken_of_lt h
  refine freeFrom_eq h (Nat.zero_le n) ?_
  simp only [FileTree.occupied, List.length_cons, List.length_map] at hbound
  omega

end

/-- There is nothing at a fresh path, and no backup has it. -/
theorem freshPath_not_taken : b.isTaken t (b.freshPath t dir base) = false := by
  rcases exists_isLeast_free b t dir base with ⟨n, hn⟩
  rw [freshPath_eq hn]
  exact hn.1

/-- The search among the candidates goes through `n` of them and ends at the next. -/
structure EndsAfter (b : Backups) (t : FileTree) (dir : Path) (base : String) (n : Nat) : Prop where
  /-- It ends at the first one where there is nothing and which is no earlier backup. -/
  first : IsLeast {m | t.at? (candidate dir base m) = none ∧
    ∀ q ∈ b.created, q.parts ≠ (candidate dir base m).parts} n
  /-- However many more it may go through, it does not. -/
  ends : ∀ steps, n ≤ steps → b.freeFrom t dir base steps 0 = candidate dir base n
  distinct : Function.Injective fun m => (candidate dir base m).parts
  bounded : n ≤ t.occupied.length + b.created.length
  /-- The root counts only if the first candidate leads there. -/
  bounded_entries : t.locate (candidate dir base 0) ≠ .ok [] →
    n ≤ t.entries.length + b.created.length

theorem endsAfter {n : Nat} (h : IsLeast {n | b.isTaken t (candidate dir base n) = false} n) :
    b.EndsAfter t dir base n where
  first := by simpa only [isTaken_eq_false] using h
  ends steps hsteps := freeFrom_eq h (Nat.zero_le n) (by omega)
  distinct := injective_parts_candidate dir base
  bounded := le_of_taken_occupied fun m => taken_of_lt h
  bounded_entries hfirst := le_of_taken_entries hfirst fun m => taken_of_lt h

end Backups
end ProviderMigration
