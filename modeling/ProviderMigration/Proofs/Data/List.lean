import Mathlib.Algebra.GroupWithZero.Nat
import Mathlib.Data.List.Forall2
import Mathlib.Data.List.Nodup

/-!
# Lists

What the proofs about the model need to know of lists and the library does not say.

* `getElem?_foldl_modify` — changes at distinct indexes are one pass;
* `find?_eq_some_of_nodup`, `find?_eq_some_of_nodup_filterMap` — finding by a key that no two
  elements share;
* `flatMap_filter_perm`, `sum_countP_of_disjoint` — a list falls into the parts that disjoint
  predicates select;
* `eq_map_of_forall₂`, `forall₂_takeWhile`, … — lists that are related element by element.
-/

namespace ProviderMigration

/-! ## Indexes -/

theorem nodup_snd_zipIdx {α : Type} (xs : List α) : (xs.zipIdx.map Prod.snd).Nodup := by
  rw [List.zipIdx_map_snd]
  exact List.nodup_range'

theorem pairwise_snd_zipIdx {α : Type} (xs : List α) :
    xs.zipIdx.Pairwise fun p q => p.2 < q.2 := by
  have hindexes : (xs.zipIdx.map Prod.snd).Pairwise (· < ·) := by
    rw [List.zipIdx_map_snd]
    exact List.pairwise_lt_range'
  exact List.pairwise_map.1 hindexes

theorem modify_self {α : Type} (xs : List α) (i : Nat) : xs.modify i (fun x => x) = xs :=
  List.modify_id i xs

theorem set_eq_modify {α : Type} {xs : List α} {i : Nat} {x y : α} {f : α → α}
    (hx : xs[i]? = some x) (hy : f x = y) : xs.set i y = xs.modify i f := by
  apply List.ext_getElem?
  intro j
  by_cases hij : i = j
  · subst hij
    have hlt : i < xs.length := (List.getElem?_eq_some_iff.1 hx).1
    rw [List.getElem?_set_self hlt, List.getElem?_modify_eq, hx, Option.map_eq_map,
      Option.map_some, hy]
  · simp [hij]

/-- With distinct indexes every change meets what stood there before, so that changes which agree
with one function there are a pass of that function. -/
theorem getElem?_foldl_modify {α ι : Type} (index : ι → Nat) (change : ι → α → α) (f : α → α)
    {is : List ι} (distinct : (is.map index).Nodup) (xs : List α)
    (agree : ∀ i ∈ is, xs[index i]?.map (change i) = xs[index i]?.map f) {j : Nat} :
    (is.foldl (fun ys i => ys.modify (index i) (change i)) xs)[j]? =
      if j ∈ is.map index then xs[j]?.map f else xs[j]? := by
  induction is generalizing xs with
  | nil => simp
  | cons i is ih =>
      rw [List.map_cons, List.nodup_cons] at distinct
      -- The first change is at another index, so the later ones meet what stood there before.
      have hrest : ∀ k ∈ is, (xs.modify (index i) (change i))[index k]? = xs[index k]? := by
        intro k hk
        have hne : index i ≠ index k := fun h => distinct.1 (h ▸ List.mem_map_of_mem hk)
        simp [hne]
      have htail := ih distinct.2 (xs.modify (index i) (change i)) (by
        intro k hk
        rw [hrest k hk]
        exact agree k (by simp [hk]))
      rw [List.foldl_cons, htail, List.map_cons]
      by_cases hij : index i = j
      · subst hij
        have hchange := agree i (by simp)
        simp [distinct.1, hchange]
      · have hji : ¬ j = index i := fun h => hij h.symm
        simp [hij, hji]

theorem exists_insertIdx {α : Type} (x : α) (xs : List α) {i : Nat} (hi : i ≤ xs.length) :
    ∃ before after, xs = before ++ after ∧ xs.insertIdx i x = before ++ x :: after := by
  induction xs generalizing i with
  | nil =>
      obtain rfl : i = 0 := by simpa using hi
      exact ⟨[], [], rfl, rfl⟩
  | cons y ys ih =>
      cases i with
      | zero => exact ⟨[], y :: ys, rfl, rfl⟩
      | succ i =>
          rcases ih (Nat.le_of_succ_le_succ hi) with ⟨before, after, hsplit, hinsert⟩
          exact ⟨y :: before, after, by rw [hsplit]; rfl,
            by rw [List.insertIdx_succ_cons, hinsert]; rfl⟩

/-! ## Selection -/

theorem map_filterMap_sublist {α β γ : Type} {f : α → Option β} {g : β → γ} {h : α → γ}
    (agree : ∀ a b, f a = some b → g b = h a) (as : List α) :
    ((as.filterMap f).map g).Sublist (as.map h) := by
  induction as with
  | nil => simp
  | cons a as ih =>
      cases hfa : f a with
      | none => simpa [hfa] using ih.cons (h a)
      | some b => simpa [hfa, agree a b hfa] using ih

theorem filter_filterMap_of_agree {α β : Type} {f : α → Option β} {p : α → Bool} {q : β → Bool}
    (agree : ∀ a b, f a = some b → q b = p a) (as : List α) :
    (as.filterMap f).filter q = (as.filter p).filterMap f := by
  rw [List.filter_filterMap, List.filterMap_filter]
  apply List.filterMap_congr
  intro a _
  cases hfa : f a with
  | none => simp
  | some b => by_cases hp : p a = true <;> simp [agree a b hfa, hp]

theorem flatten_eq_head?_append {α : Type} (lists : List (List α)) :
    lists.flatten = lists.head?.getD [] ++ lists.tail.flatten := by
  cases lists <;> rfl

theorem flatMap_ite_nil {α β : Type} (p : α → Bool) (f : α → List β) (xs : List α) :
    (xs.flatMap fun x => if p x then f x else []) = (xs.filter p).flatMap f := by
  induction xs with
  | nil => rfl
  | cons x xs ih => by_cases hx : p x = true <;> simp [hx, ih]

/-- Where no two elements share a key, the one that has it is found. -/
theorem find?_eq_some_of_nodup {α κ : Type} [BEq κ] [LawfulBEq κ] {key : α → κ} {xs : List α}
    (distinct : (xs.map key).Nodup) {x : α} (hx : x ∈ xs) :
    xs.find? (fun y => key y == key x) = some x := by
  -- Something is found, and what is found has the key of `x`.
  cases hfind : xs.find? (fun y => key y == key x) with
  | none =>
      have := List.find?_eq_none.1 hfind x hx
      simp at this
  | some y =>
      have hkey : key y = key x := by simpa using List.find?_some hfind
      rw [List.inj_on_of_nodup_map distinct (List.mem_of_find?_eq_some hfind) hx hkey]

/-- The same for a key that not every element has. -/
theorem find?_eq_some_of_nodup_filterMap {α κ : Type} [BEq κ] [LawfulBEq κ] {key : α → Option κ}
    {xs : List α} (distinct : (xs.filterMap key).Nodup) {x : α} (hx : x ∈ xs) {k : κ}
    (hkey : key x = some k) : xs.find? (fun y => key y == some k) = some x := by
  induction xs with
  | nil => simp at hx
  | cons y ys ih =>
      by_cases hy : key y = some k
      · rw [List.find?_cons_of_pos (by simp [hy])]
        rw [List.filterMap_cons_some hy, List.nodup_cons] at distinct
        -- The key stands nowhere else, so `x` is the first element.
        rcases List.mem_cons.1 hx with rfl | hrest
        · rfl
        · exact absurd (List.mem_filterMap.2 ⟨x, hrest, hkey⟩) distinct.1
      · rw [List.find?_cons_of_neg (by simp [hy])]
        rcases List.mem_cons.1 hx with rfl | hrest
        · exact absurd hkey hy
        · refine ih (distinct.sublist ?_) hrest
          exact (List.sublist_cons_self y ys).filterMap key

theorem nodup_filterMap_of_map {α κ : Type} {key : α → Option κ} {xs : List α}
    (distinct : (xs.map key).Nodup) : (xs.filterMap key).Nodup := by
  rw [← Function.id_comp key, ← List.filterMap_map]
  exact distinct.filterMap fun a b c ha hb => ha.trans hb.symm

theorem forall₂_of_map_eq {α β γ : Type} {R : α → β → Prop} {g : α → γ} {h : β → γ} {xs : List α}
    {ys : List β} (heq : ys.map h = xs.map g) (hR : ∀ x ∈ xs, ∀ y, h y = g x → R x y) :
    List.Forall₂ R xs ys := by
  induction xs generalizing ys with
  | nil =>
      obtain rfl : ys = [] := by simpa using heq
      exact .nil
  | cons x xs ih =>
      cases ys with
      | nil => simp at heq
      | cons y ys =>
          rw [List.map_cons, List.map_cons, List.cons.injEq] at heq
          rw [List.forall_mem_cons] at hR
          exact .cons (hR.1 y heq.1) (ih heq.2 hR.2)

theorem forall₂_comp {α β γ : Type} {R : α → β → Prop} {S : β → γ → Prop} {T : α → γ → Prop}
    (step : ∀ a b c, R a b → S b c → T a c) {xs : List α} {ys : List β} {zs : List γ}
    (hR : List.Forall₂ R xs ys) (hS : List.Forall₂ S ys zs) : List.Forall₂ T xs zs := by
  induction hR generalizing zs with
  | nil =>
      cases hS
      exact .nil
  | cons hab _ ih =>
      cases hS with
      | cons hbc hrest => exact .cons (step _ _ _ hab hbc) (ih hrest)

/-! ## Parts -/

theorem exists_of_forall₂ {α β : Type} {R : α → β → Prop} {xs : List α} {ys : List β}
    (h : List.Forall₂ R xs ys) {x : α} (hx : x ∈ xs) : ∃ y ∈ ys, R x y := by
  induction h with
  | nil => cases hx
  | cons hxy _ ih =>
      rcases List.mem_cons.1 hx with rfl | hx
      · exact ⟨_, List.mem_cons_self, hxy⟩
      · obtain ⟨y, hy, hR⟩ := ih hx
        exact ⟨y, List.mem_cons_of_mem _ hy, hR⟩

/-- The parts and the rest together hold every element once. -/
theorem flatMap_filter_perm {α β : Type} (r : β → α → Bool) {ps : List β} {xs : List α}
    (disjoint : ps.Pairwise fun p q => ∀ x ∈ xs, r p x = true → r q x = false) :
    (ps.flatMap (fun p => xs.filter (r p)) ++
      xs.filter fun x => !ps.any fun p => r p x).Perm xs := by
  induction ps generalizing xs with
  | nil => simp
  | cons p ps ih =>
      rw [List.pairwise_cons] at disjoint
      -- The other parts lie among the elements that are not in the first one.
      let others := xs.filter fun x => !r p x
      have hrest := @ih others
        (disjoint.2.imp fun h x hx => h x (List.mem_filter.1 hx).1)
      have hparts : ps.flatMap (fun q => xs.filter (r q)) =
          ps.flatMap fun q => others.filter (r q) := by
        apply List.flatMap_congr
        intro q hq
        rw [List.filter_filter]
        apply List.filter_congr
        intro x hx
        cases hp : r p x with
        | true => simp [disjoint.1 q hq x hx hp]
        | false => simp
      have hleft : (xs.filter fun x => !(p :: ps).any fun q => r q x) =
          others.filter fun x => !ps.any fun q => r q x := by
        rw [List.filter_filter]
        apply List.filter_congr
        intro x _
        simp [Bool.and_comm]
      rw [List.flatMap_cons, hparts, hleft, List.append_assoc]
      exact (hrest.append_left _).trans (List.filter_append_perm (r p) xs)

theorem sum_countP_of_disjoint {α β : Type} (r : β → α → Bool) {ps : List β} {xs : List α}
    (disjoint : ps.Pairwise fun p q => ∀ x ∈ xs, r p x = true → r q x = false) :
    (ps.map fun p => xs.countP (r p)).sum = xs.countP fun x => ps.any fun p => r p x := by
  have hlength := (flatMap_filter_perm r disjoint).length_eq
  have hall := xs.length_eq_countP_add_countP fun x => ps.any fun p => r p x
  simp only [List.length_append, List.length_flatMap, ← List.countP_eq_length_filter] at hlength
  have hnot : (xs.countP fun x => !ps.any fun p => r p x) =
      xs.countP fun x => ¬ (ps.any fun p => r p x) = true := by
    apply List.countP_congr
    intro x _
    simp
  omega

/-! ## Related lists -/

section
variable {α β γ : Type} {R : α → β → Prop} {as : List α} {bs : List β}

/-- Related lists have the same images if the members of the first have the same images as those
they are related to. -/
theorem map_eq_map_of_forall₂ {f : α → γ} {g : β → γ} (h : List.Forall₂ R as bs)
    (hfg : ∀ a ∈ as, ∀ b, R a b → g b = f a) : bs.map g = as.map f := by
  induction h with
  | nil => rfl
  | cons hab _ ih =>
      rw [List.forall_mem_cons] at hfg
      rw [List.map_cons, List.map_cons, hfg.1 _ hab, ih hfg.2]

theorem eq_map_of_forall₂ {f : α → β} (h : List.Forall₂ R as bs)
    (hf : ∀ a ∈ as, ∀ b, R a b → b = f a) : bs = as.map f := by
  rw [← map_eq_map_of_forall₂ h hf, List.map_id']

theorem forall₂_toList {a : Option α} {b : Option β} (h : Option.Rel R a b) :
    List.Forall₂ R a.toList b.toList := by
  cases h with
  | none => exact .nil
  | some hab => exact .cons hab .nil

theorem exists_sublist_of_forall₂ (h : List.Forall₂ R as bs) {part : List α}
    (hpart : part.Sublist as) : ∃ found : List β, found.Sublist bs ∧ List.Forall₂ R part found := by
  induction hpart generalizing bs with
  | slnil => exact ⟨[], List.nil_sublist bs, .nil⟩
  | cons a _ ih =>
      cases h with
      | cons _ hrest =>
          obtain ⟨found, hfound, hrelated⟩ := ih hrest
          exact ⟨found, hfound.cons _, hrelated⟩
  | cons_cons a _ ih =>
      cases h with
      | cons hab hrest =>
          obtain ⟨found, hfound, hrelated⟩ := ih hrest
          exact ⟨_, hfound.cons_cons _, .cons hab hrelated⟩

variable {p : α → Bool} {q : β → Bool}

theorem forall₂_takeWhile (h : List.Forall₂ R as bs) (hp : ∀ a b, R a b → q b = p a) :
    List.Forall₂ R (as.takeWhile p) (bs.takeWhile q) := by
  induction h with
  | nil => exact .nil
  | cons hab _ ih =>
      rw [List.takeWhile_cons, List.takeWhile_cons, hp _ _ hab]
      split
      · exact .cons hab ih
      · exact .nil

theorem forall₂_dropWhile (h : List.Forall₂ R as bs) (hp : ∀ a b, R a b → q b = p a) :
    List.Forall₂ R (as.dropWhile p) (bs.dropWhile q) := by
  induction h with
  | nil => exact .nil
  | cons hab hrest ih =>
      rw [List.dropWhile_cons, List.dropWhile_cons, hp _ _ hab]
      split
      · exact ih
      · exact .cons hab hrest

end

/-! ## Related options -/

section
variable {α β : Type} {R : α → β → Prop} {x : Option α} {y : Option β}

theorem optionRel_cases (h : Option.Rel R x y) :
    (x = none ∧ y = none) ∨ ∃ a b, x = some a ∧ y = some b ∧ R a b := by
  cases h with
  | none => exact .inl ⟨rfl, rfl⟩
  | some hab => exact .inr ⟨_, _, rfl, rfl, hab⟩

theorem eq_map_of_optionRel {f : α → β} (h : Option.Rel R x y)
    (hf : ∀ a ∈ x, ∀ b, R a b → b = f a) : y = x.map f := by
  cases h with
  | none => rfl
  | some hab => rw [Option.map_some, hf _ rfl _ hab]

end

/-! ## Sublists -/

/-- The members of a class are found again among what is made of all. -/
theorem filter_map_sublist_filterMap {α β γ : Type} {p : α → Bool} {f : α → Option β} {g : α → γ}
    {h : β → γ} (agree : ∀ a, p a = true → ∃ b, f a = some b ∧ h b = g a) (as : List α) :
    ((as.filter p).map g).Sublist ((as.filterMap f).map h) := by
  induction as with
  | nil => exact List.Sublist.refl _
  | cons a as ih =>
      by_cases ha : p a = true
      · obtain ⟨b, hb, hgb⟩ := agree a ha
        rw [List.filter_cons_of_pos ha, List.filterMap_cons_some hb, List.map_cons, List.map_cons,
          hgb]
        exact ih.cons_cons _
      · rw [List.filter_cons_of_neg ha]
        refine ih.trans (List.Sublist.map h ?_)
        cases hfa : f a with
        | none => rw [List.filterMap_cons_none hfa]
        | some b =>
            rw [List.filterMap_cons_some hfa]
            exact List.sublist_cons_self _ _

/-- Where every member of a class makes something, the first things that the members make stand in
their order among what is made of all. -/
theorem exists_sublist_flatMap {α β : Type} {R : α → β → Prop} {p : α → Bool} {f : α → List β}
    {as : List α} (h : ∀ a ∈ as, p a = true → ∃ b rest, f a = b :: rest ∧ R a b) :
    ∃ found : List β, found.Sublist (as.flatMap f) ∧ List.Forall₂ R (as.filter p) found := by
  induction as with
  | nil => exact ⟨[], List.Sublist.refl _, .nil⟩
  | cons a as ih =>
      obtain ⟨found, hfound, hR⟩ := ih fun x hx => h x (.tail _ hx)
      rw [List.flatMap_cons]
      by_cases ha : p a = true
      · obtain ⟨b, rest, hb, hab⟩ := h a (.head _) ha
        rw [List.filter_cons_of_pos ha, hb, List.cons_append]
        exact ⟨b :: found, (hfound.trans (List.sublist_append_right rest _)).cons_cons b,
          .cons hab hR⟩
      · rw [List.filter_cons_of_neg ha]
        exact ⟨found, hfound.trans (List.sublist_append_right _ _), hR⟩

end ProviderMigration
