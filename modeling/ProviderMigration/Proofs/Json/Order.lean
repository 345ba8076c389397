import ProviderMigration.Proofs.Json.Field

/-!
# The order of keys

A removal moves the last key into the place of the removed one, so keys can change their order. All
but the last keys, as many as are removed, keep their places; and so do those before which nothing
is removed.

* `takeOut` — the keys an object has after a removal;
* `sublist_takeOut_iff` — which of two keys stands first then;
* `Takes` — removals and additions one after the other, and `Takes.sublist`, what they leave in
  order;
* `Value.Edits` — operations on an object with the fields they touch and the keys they take out.
-/

namespace ProviderMigration
namespace Json

/-! ## One removal -/

/-- The keys without one of them, whose place the last one takes. -/
def takeOut : List String → String → List String
  | [], _ => []
  | k :: ks, gone =>
    if k = gone then ks.getLast?.toList ++ ks.dropLast else k :: takeOut ks gone

section
variable {ks : List String} {gone k l x : String}

theorem takeOut_of_not_mem (h : gone ∉ ks) : takeOut ks gone = ks := by
  induction ks with
  | nil => rfl
  | cons x ks ih =>
      obtain ⟨hne, hrest⟩ := not_or.1 (List.mem_cons.not.1 h)
      rw [takeOut, if_neg (Ne.symm hne), ih hrest]

/-- A removal behind the first keys leaves them alone. -/
theorem takeOut_append {front : List String} (h : gone ∉ front) (ks : List String) :
    takeOut (front ++ ks) gone = front ++ takeOut ks gone := by
  induction front with
  | nil => rfl
  | cons x front ih =>
      obtain ⟨hne, hrest⟩ := not_or.1 (List.mem_cons.not.1 h)
      rw [List.cons_append, takeOut, if_neg (Ne.symm hne), ih hrest, List.cons_append]

theorem takeOut_concat (init : List String) (last : String) :
    takeOut (gone :: (init ++ [last])) gone = last :: init := by
  simp [takeOut]

theorem takeOut_perm (h : gone ∈ ks) : (gone :: takeOut ks gone).Perm ks := by
  induction ks with
  | nil => simp at h
  | cons x ks ih =>
      rw [takeOut]
      split
      · rename_i heq
        subst heq
        rcases List.eq_nil_or_concat ks with rfl | ⟨init, last, rfl⟩
        · exact .refl _
        · simpa using (List.perm_append_singleton last init).symm
      · rename_i hne
        have hrest : gone ∈ ks := (List.mem_cons.1 h).resolve_left (Ne.symm hne)
        exact (List.Perm.swap x gone _).trans ((ih hrest).cons x)

theorem nodup_takeOut (hks : ks.Nodup) (gone : String) : (takeOut ks gone).Nodup := by
  by_cases h : gone ∈ ks
  · exact (List.nodup_cons.1 ((takeOut_perm h).nodup_iff.2 hks)).2
  · rwa [takeOut_of_not_mem h]

theorem mem_takeOut (hks : ks.Nodup) : x ∈ takeOut ks gone ↔ x ∈ ks ∧ x ≠ gone := by
  by_cases h : gone ∈ ks
  · have hnodup := (takeOut_perm h).nodup_iff.2 hks
    rw [← (takeOut_perm h).mem_iff, List.mem_cons]
    constructor
    · intro hx
      exact ⟨.inr hx, fun heq => (List.nodup_cons.1 hnodup).1 (heq ▸ hx)⟩
    · rintro ⟨heq | hx, hne⟩
      · exact absurd heq hne
      · exact hx
  · rw [takeOut_of_not_mem h]
    exact ⟨fun hx => ⟨hx, fun heq => h (heq ▸ hx)⟩, And.left⟩

theorem pair_sublist_append (ks ks' : List String) :
    [k, l].Sublist (ks ++ ks') ↔
      [k, l].Sublist ks ∨ k ∈ ks ∧ l ∈ ks' ∨ [k, l].Sublist ks' := by
  induction ks with
  | nil => simp
  | cons x ks ih =>
      simp only [List.cons_append, List.cons_sublist_cons', List.singleton_sublist, ih,
        List.mem_append, List.mem_cons]
      tauto

theorem pair_sublist_cons : [k, l].Sublist (x :: ks) ↔ k = x ∧ l ∈ ks ∨ [k, l].Sublist ks := by
  simpa using pair_sublist_append [x] ks

theorem pair_sublist_concat : [k, l].Sublist (ks ++ [x]) ↔ [k, l].Sublist ks ∨ k ∈ ks ∧ l = x := by
  simpa using pair_sublist_append ks [x]

theorem not_sublist_left (h : k ∉ ks) (l : String) : ¬ [k, l].Sublist ks :=
  fun hpair => h (hpair.subset List.mem_cons_self)

theorem not_sublist_right (h : l ∉ ks) (k : String) : ¬ [k, l].Sublist ks :=
  fun hpair => h (hpair.subset (List.mem_cons_of_mem k List.mem_cons_self))

theorem not_sublist_of_last (hks : ks.Nodup) (h : ks.getLast? = some k) (l : String) :
    ¬ [k, l].Sublist ks := by
  rcases List.eq_nil_or_concat ks with rfl | ⟨init, last, rfl⟩
  · simp at h
  · rw [List.concat_eq_append] at *
    obtain rfl : last = k := by simpa using h
    have hlast : last ∉ init := fun hmem =>
      (List.nodup_append.1 hks).2.2 last hmem last List.mem_cons_self rfl
    intro hsub
    rcases pair_sublist_concat.1 hsub with hsub | ⟨hmem, -⟩
    · exact not_sublist_left hlast l hsub
    · exact hlast hmem

/-- After a removal one key stands before another if it stood there and the other one was not put
in the place of a key before it, or if it was itself put in the place of a key before the other. -/
theorem sublist_takeOut_iff (hks : ks.Nodup) (hk : k ≠ gone) (hl : l ≠ gone) (hne : k ≠ l) :
    [k, l].Sublist (takeOut ks gone) ↔
      [k, l].Sublist ks ∧ ¬ ([gone, k].Sublist ks ∧ ks.getLast? = some l) ∨
        [gone, l].Sublist ks ∧ ks.getLast? = some k := by
  by_cases hgone : gone ∈ ks
  · obtain ⟨front, rest, rfl⟩ := List.append_of_mem hgone
    obtain ⟨-, ⟨hrest, hrest'⟩, hfront⟩ := by
      simpa only [List.nodup_append, List.nodup_cons] using hks
    have hgone' : gone ∉ front := fun h => hfront gone h gone List.mem_cons_self rfl
    rw [takeOut_append hgone']
    rcases List.eq_nil_or_concat rest with rfl | ⟨init, last, rfl⟩
    · simp [takeOut, pair_sublist_concat, hk.symm, hl.symm, hl]
    · rw [List.concat_eq_append] at *
      obtain ⟨hinit, -⟩ := not_or.1 (List.mem_append.not.1 hrest)
      have hlast : last ∉ init := fun h =>
        (List.nodup_append.1 hrest').2.2 last h last List.mem_cons_self rfl
      have hlast' : last ∉ front := fun h => hfront last h last (by simp) rfl
      have hboth : k ∈ init → k ∉ front := fun h h' => hfront k h' k (by simp [h]) rfl
      rw [takeOut_concat, List.getLast?_append_cons, List.getLast?_cons, List.getLast?_concat]
      simp only [pair_sublist_append, pair_sublist_cons, List.mem_append, List.mem_cons,
        List.not_mem_nil, or_false, hk, hl, hgone', hinit, not_sublist_left hgone',
        not_sublist_left hinit, false_and, false_or, true_and, Option.getD_some,
        Option.some.injEq]
      -- Only a pair with the last key can change its order.
      by_cases hk' : last = k
      · subst hk'
        simp [hne, hlast, hlast', not_sublist_left hlast, not_sublist_left hlast', Ne.symm hne]
      · by_cases hl' : last = l
        · subst hl'
          simp [hne, hlast, not_sublist_right hlast, not_sublist_right hlast']
          tauto
        · simp [hk', hl', Ne.symm hk', Ne.symm hl']
  · simp [takeOut_of_not_mem hgone, not_sublist_left hgone]

/-! ## Pairs that keep their order -/

/-- Nothing that goes stands before the first key, or behind the second one there are at least as
many keys as go. -/
def Undisturbed (goes : String → Prop) [DecidablePred goes] (ks : List String) (k l : String) :
    Prop :=
  (∀ g, goes g → ¬ [g, k].Sublist ks) ∨
    ∃ front back, ks = front ++ l :: back ∧ ks.countP goes ≤ back.length

variable {goes : String → Prop} [DecidablePred goes]

theorem countP_takeOut (hgone : gone ∈ ks) (hgoes : goes gone) :
    (takeOut ks gone).countP goes + 1 = ks.countP goes := by
  rw [← (takeOut_perm hgone).countP_eq, List.countP_cons_of_pos (by simpa using hgoes)]

/-- A removal leaves one key less behind a key that stays, if there is one. -/
theorem exists_takeOut {front back : List String} (hgone : gone ∈ front ++ l :: back)
    (hl : l ≠ gone) (hback : back ≠ []) :
    ∃ front' back', takeOut (front ++ l :: back) gone = front' ++ l :: back' ∧
      back'.length + 1 = back.length := by
  by_cases hfront : gone ∈ front
  · obtain ⟨before, between, rfl, hbefore⟩ := List.eq_append_cons_of_mem hfront
    obtain ⟨init, last, rfl⟩ := (List.eq_nil_or_concat back).resolve_left hback
    refine ⟨before ++ last :: between, init, ?_, by simp⟩
    have hsplit : (before ++ gone :: between) ++ l :: (init.concat last) =
        before ++ gone :: (between ++ l :: init ++ [last]) := by simp
    rw [hsplit, takeOut_append hbefore, takeOut_concat]
    simp
  · have hback : gone ∈ back := by simpa [hfront, hl.symm] using hgone
    refine ⟨front, takeOut back gone, ?_, (takeOut_perm hback).length_eq⟩
    rw [takeOut_append hfront, takeOut, if_neg hl]

/-- A removal keeps the order of a pair that is undisturbed, and leaves it undisturbed. -/
theorem Undisturbed.takeOut (h : Undisturbed goes ks k l) (hks : ks.Nodup) (hgoes : goes gone)
    (hk : ¬ goes k) (hl : ¬ goes l) (hpair : [k, l].Sublist ks) :
    [k, l].Sublist (takeOut ks gone) ∧ Undisturbed goes (Json.takeOut ks gone) k l := by
  by_cases hgone : gone ∈ ks
  · have hk' : k ≠ gone := fun heq => hk (heq ▸ hgoes)
    have hl' : l ≠ gone := fun heq => hl (heq ▸ hgoes)
    have hne : k ≠ l := by simpa using hpair.nodup hks
    have hcount := countP_takeOut hgone hgoes
    rcases h with hbefore | ⟨front, back, rfl, hback⟩
    · refine ⟨?_, .inl fun g hg hsub => ?_⟩
      · exact (sublist_takeOut_iff hks hk' hl' hne).2 (.inl ⟨hpair, fun h => hbefore _ hgoes h.1⟩)
      · have hgk : g ≠ k := fun heq => hk (heq ▸ hg)
        have hgg : g ≠ gone := ((mem_takeOut hks).1 (hsub.subset List.mem_cons_self)).2
        rcases (sublist_takeOut_iff hks hgg hk' hgk).1 hsub with ⟨hsub, -⟩ | ⟨hsub, -⟩
        · exact hbefore g hg hsub
        · exact hbefore gone hgoes hsub
    · have hne' : back ≠ [] := by
        rintro rfl
        rw [List.length_nil] at hback
        omega
      refine ⟨(sublist_takeOut_iff hks hk' hl' hne).2 (.inl ⟨hpair, ?_⟩), ?_⟩
      · -- The last key stands behind the second one, and only once.
        rintro ⟨-, hlast⟩
        obtain ⟨init, last, rfl⟩ := (List.eq_nil_or_concat back).resolve_left hne'
        obtain rfl : last = l := by simpa [List.getLast?_append, List.getLast?_cons] using hlast
        simp [List.nodup_append] at hks
      · obtain ⟨front', back', heq, hlength⟩ := exists_takeOut hgone hl' hne'
        rw [heq] at hcount ⊢
        exact .inr ⟨front', back', rfl, by omega⟩
  · rw [takeOut_of_not_mem hgone]
    exact ⟨hpair, h⟩

/-- An addition does so, too. -/
theorem Undisturbed.add (h : Undisturbed goes ks k l) (hx : ¬ goes x) (hxks : x ∉ ks)
    (hk : k ∈ ks) : Undisturbed goes (ks ++ [x]) k l := by
  rcases h with hbefore | ⟨front, back, rfl, hback⟩
  · refine .inl fun g hg hsub => ?_
    rcases pair_sublist_concat.1 hsub with hsub | ⟨-, rfl⟩
    · exact hbefore g hg hsub
    · exact hxks hk
  · refine .inr ⟨front, back ++ [x], by simp, ?_⟩
    rw [List.countP_append, List.countP_singleton, if_neg (by simpa using hx), List.length_append]
    omega

/-- Keys under new names, of which no other ones go. -/
theorem Undisturbed.map {f : String → String} (h : Undisturbed goes ks k l)
    (hnodup : (ks.map f).Nodup) (hk : k ∈ ks) {goes' : String → Prop} [DecidablePred goes']
    (hgoes : ∀ g ∈ ks, goes' (f g) → goes g) : Undisturbed goes' (ks.map f) (f k) (f l) := by
  rcases h with hbefore | ⟨front, back, rfl, hback⟩
  · refine .inl fun g' hg' hsub => ?_
    obtain ⟨pair, hpair, heq⟩ := List.sublist_map_iff.1 hsub
    obtain ⟨g, k', rfl⟩ := List.length_eq_two.1 (by simpa using (congrArg List.length heq).symm)
    obtain ⟨rfl, hname⟩ : g' = f g ∧ f k = f k' := by simpa using heq
    obtain rfl : k = k' := List.inj_on_of_nodup_map hnodup hk (hpair.subset (by simp)) hname
    exact hbefore g (hgoes g (hpair.subset List.mem_cons_self) hg') hpair
  · refine .inr ⟨front.map f, back.map f, by simp, ?_⟩
    rw [List.countP_map, List.length_map]
    refine Nat.le_trans (List.countP_mono_left fun g hg h => ?_) hback
    simpa using hgoes g hg (by simpa using h)

/-! ## Removals and additions -/

/-- The keys after removals and additions one after the other. What is taken out and what is added
are different keys. -/
inductive Takes (new : List String) : List String → List String → List String → Prop where
  | done (ks : List String) : Takes new [] ks ks
  | takeOut {gone : List String} {g : String} {ks ks' : List String} (hg : g ∉ new)
      (h : Takes new gone (takeOut ks g) ks') : Takes new (g :: gone) ks ks'
  | add {gone : List String} {key : String} {ks ks' : List String} (hnew : key ∈ new)
      (hkey : key ∉ ks) (h : Takes new gone (ks ++ [key]) ks') : Takes new gone ks ks'

namespace Takes

variable {new gone gone' : List String} {ks ks' ks'' : List String} {k l x : String}

theorem trans (h : Takes new gone ks ks') (h' : Takes new gone' ks' ks'') :
    Takes new (gone ++ gone') ks ks'' := by
  induction h with
  | done ks => exact h'
  | takeOut hg _ ih => exact .takeOut hg (ih h')
  | add hnew hkey _ ih => exact .add hnew hkey (ih h')

theorem not_mem_new (h : Takes new gone ks ks') : ∀ g ∈ gone, g ∉ new := by
  induction h with
  | done ks => exact nofun
  | takeOut hg _ ih => exact List.forall_mem_cons.2 ⟨hg, ih⟩
  | add _ _ _ ih => exact ih

/-- A key that is not there stays away, unless it is one of those that are added. -/
theorem not_mem (h : Takes new gone ks ks') (hks : ks.Nodup) (hnew : x ∉ new) (hx : x ∉ ks) :
    x ∉ ks' := by
  induction h with
  | done ks => exact hx
  | takeOut _ _ ih =>
      exact ih (nodup_takeOut hks _) fun hmem => hx ((mem_takeOut hks).1 hmem).1
  | add hkey hfresh _ ih =>
      refine ih (List.concat_eq_append ▸ hks.concat hfresh) fun hmem => ?_
      rcases List.mem_append.1 hmem with hmem | hmem
      · exact hx hmem
      · exact hnew (List.mem_singleton.1 hmem ▸ hkey)

/-- A key stays unless it is taken out. -/
theorem mem_iff (h : Takes new gone ks ks') (hks : ks.Nodup) (hx : x ∈ ks) :
    x ∈ ks' ↔ x ∉ gone := by
  induction h with
  | done ks => simpa using hx
  | @takeOut gone g ks ks' hg h ih =>
      rw [List.mem_cons, not_or]
      by_cases heq : x = g
      · have hout : x ∉ Json.takeOut ks g := fun hmem => ((mem_takeOut hks).1 hmem).2 heq
        simpa [heq] using not_mem h (nodup_takeOut hks g) hg (heq ▸ hout)
      · simpa [heq] using ih (nodup_takeOut hks g) ((mem_takeOut hks).2 ⟨hx, heq⟩)
  | add _ hfresh _ ih =>
      exact ih (List.concat_eq_append ▸ hks.concat hfresh) (List.mem_append_left _ hx)

/-- An undisturbed pair of keys that stay keeps its order. -/
theorem sublist (h : Takes new gone ks ks') (hks : ks.Nodup) {goes : String → Prop}
    [DecidablePred goes] (hgone : ∀ g ∈ gone, goes g) (hnew : ∀ n ∈ new, ¬ goes n)
    (hk : ¬ goes k) (hl : ¬ goes l) (hund : Undisturbed goes ks k l)
    (hpair : [k, l].Sublist ks) : [k, l].Sublist ks' := by
  induction h with
  | done ks => exact hpair
  | takeOut hg _ ih =>
      obtain ⟨hg, hgone⟩ := List.forall_mem_cons.1 hgone
      obtain ⟨hpair', hund'⟩ := hund.takeOut hks hg hk hl hpair
      exact ih (nodup_takeOut hks _) hgone hund' hpair'
  | add hadd hfresh _ ih =>
      have hund' := hund.add (hnew _ hadd) hfresh (hpair.subset List.mem_cons_self)
      exact ih (List.concat_eq_append ▸ hks.concat hfresh) hgone hund'
        (hpair.trans (List.sublist_append_left _ _))

end Takes

/-! ## Pairs that stay -/

/-- The first key stands before the second one, and both stay, perhaps under new names. -/
structure Kept (f : String → String) (ks ks' : List String) (k l : String) : Prop where
  inOrder : [k, l].Sublist ks
  first : f k ∈ ks'
  second : f l ∈ ks'

theorem Kept.mem {f : String → String} {ks' : List String} (h : Kept f ks ks' k l) :
    k ∈ ks ∧ l ∈ ks :=
  ⟨h.inOrder.subset (by simp), h.inOrder.subset (by simp)⟩

/-- Removals and additions keep the order of keys that are undisturbed, be they renamed first. -/
theorem Takes.keeps_order {f : String → String} {new gone ks' : List String}
    (h : Takes new gone (ks.map f) ks') (hnodup : (ks.map f).Nodup) (hkept : Kept f ks ks' k l)
    (hund : Undisturbed (fun g => f g ∉ ks') ks k l) : [f k, f l].Sublist ks' := by
  obtain ⟨hk, hl⟩ := hkept.mem
  have hmem : ∀ x ∈ ks, f x ∈ ks' ↔ f x ∉ gone := fun x hx =>
    h.mem_iff hnodup (List.mem_map_of_mem hx)
  have hund' : Undisturbed (· ∈ gone) (ks.map f) (f k) (f l) :=
    hund.map hnodup hk fun g hg hgone hstays => (hmem g hg).1 hstays hgone
  exact h.sublist hnodup (fun _ hg => hg) (fun n hn hgone => h.not_mem_new n hgone hn)
    ((hmem k hk).1 hkept.first) ((hmem l hl).1 hkept.second) hund' (hkept.inOrder.map f)

/-- A single removal keeps the order of those pairs only. -/
theorem sublist_iff_undisturbed {more : List String} (hks : ks.Nodup)
    (hnodup : (takeOut ks gone ++ more).Nodup) (hgone : gone ∉ more)
    (hkept : Kept id ks (takeOut ks gone ++ more) k l) :
    [k, l].Sublist (takeOut ks gone ++ more) ↔
      Undisturbed (fun x => x ∉ takeOut ks gone ++ more) ks k l := by
  obtain ⟨hk, hl⟩ := hkept.mem
  have hgoes : gone ∉ takeOut ks gone ++ more := fun hmem =>
    (List.mem_append.1 hmem).elim (fun h => ((mem_takeOut hks).1 h).2 rfl) hgone
  have hgoes' : ∀ x ∈ ks, x ∉ takeOut ks gone ++ more → x = gone := fun x hx hout =>
    by_contra fun hne => hout (List.mem_append_left _ ((mem_takeOut hks).2 ⟨hx, hne⟩))
  have hk' : k ≠ gone := fun heq => hgoes (heq ▸ hkept.first)
  have hl' : l ≠ gone := fun heq => hgoes (heq ▸ hkept.second)
  constructor
  · intro hsub
    have hmore : l ∉ more := fun hmem => (List.nodup_append.1 hnodup).2.2 l
      ((mem_takeOut hks).2 ⟨hl, hl'⟩) l hmem rfl
    have hsub' : [k, l].Sublist (takeOut ks gone) := by
      simpa [pair_sublist_append, hmore, not_sublist_right hmore] using hsub
    have hne : k ≠ l := by simpa using hkept.inOrder.nodup hks
    -- The last member takes the place of `gone`. That matters only where `gone` stands before
    -- `k`, and then `l` is not the last.
    by_cases hbefore : [gone, k].Sublist ks
    · have hlast : ks.getLast? ≠ some l := by
        rcases (sublist_takeOut_iff hks hk' hl' hne).1 hsub' with ⟨-, hlast⟩ | ⟨-, hlast⟩
        · exact fun h => hlast ⟨hbefore, h⟩
        · exact absurd hkept.inOrder (not_sublist_of_last hks hlast l)
      obtain ⟨front, back, heq⟩ := List.append_of_mem hl
      have hback : back ≠ [] := fun hnil => by simp [heq, hnil] at hlast
      refine .inr ⟨front, back, heq, ?_⟩
      calc
        ks.countP (fun x => x ∉ takeOut ks gone ++ more)
            ≤ ks.count gone := List.countP_mono_left fun x hx h =>
              beq_iff_eq.2 (hgoes' x hx (of_decide_eq_true h))
        _ ≤ 1 := List.nodup_iff_count_le_one.1 hks gone
        _ ≤ back.length := List.length_pos_iff.2 hback
    · exact .inl fun g hg hsub => hbefore (hgoes' g (hsub.subset List.mem_cons_self) hg ▸ hsub)
  · intro hund
    have hstays := (hund.takeOut hks hgoes (fun h => h hkept.first) (fun h => h hkept.second)
      hkept.inOrder).1
    exact hstays.trans (List.sublist_append_left _ _)

end

/-! ## Operations on objects -/

namespace Members

variable {ms : Members} {key : String} {value : Value}

theorem map_fst_erase (ms : Members) (key : String) :
    (erase ms key).map Prod.fst = takeOut (ms.map Prod.fst) key := by
  induction ms with
  | nil => rfl
  | cons m ms ih =>
      rw [List.map_cons, takeOut]
      split
      · rename_i hkey
        have hindex : (m :: ms).findIdx? (·.1 == key) = some 0 := by simp [List.findIdx?_cons, hkey]
        rw [erase, hindex]
        rcases List.eq_nil_or_concat ms with rfl | ⟨init, last, rfl⟩
        · rfl
        · rw [List.concat_eq_append, ← List.cons_append, List.getLast?_concat,
            List.dropLast_concat]
          simp
      · rename_i hkey
        rw [← ih, erase, erase, List.findIdx?_cons, if_neg (by simpa using hkey)]
        rcases List.eq_nil_or_concat ms with rfl | ⟨init, last, rfl⟩
        · rfl
        · rw [List.concat_eq_append, ← List.cons_append, List.getLast?_concat,
            List.getLast?_concat, List.dropLast_concat, List.dropLast_concat]
          cases (init ++ [last]).findIdx? (·.1 == key) <;> simp

theorem map_fst_insert_of_absent (h : get? ms key = none) :
    (insert ms key value).map Prod.fst = ms.map Prod.fst ++ [key] := by
  induction ms with
  | nil => rfl
  | cons m ms ih =>
      obtain ⟨hne, hrest⟩ := List.forall_mem_cons.1 (get?_eq_none_iff.1 h)
      rw [insert, if_neg (by simpa using hne), List.map_cons, ih (get?_eq_none_iff.2 hrest)]
      rfl

end Members

namespace Value

variable {new touched more : List String} {u v w : Value} {key : String}

theorem WellFormed.nodup_keys (hv : v.WellFormed) {ks : List String} (hks : v.keys? = some ks) :
    ks.Nodup := by
  cases v with
  | object ms => exact Option.some.inj hks ▸ (wellFormed_object_iff.1 hv).1
  | _ => simp [keys?, object?] at hks

theorem keys_eraseField {ks : List String} (hks : v.keys? = some ks) (key : String) :
    (v.eraseField key).keys? = some (takeOut ks key) := by
  cases v with
  | object ms => exact Option.some.inj hks ▸ congrArg some (Members.map_fst_erase ms key)
  | _ => simp [keys?, object?] at hks

theorem mem_keys_iff {ks : List String} (hks : v.keys? = some ks) :
    key ∈ ks ↔ v.get? key ≠ none := by
  cases v with
  | object ms => exact Option.some.inj hks ▸ Members.mem_map_fst_iff
  | _ => simp [keys?, object?] at hks

/-- A new key goes to the end. -/
theorem keys_setField {ks : List String} (hks : v.keys? = some ks) (key : String) (w : Value) :
    key ∈ ks ∧ (v.setField key w).keys? = some ks ∨
      key ∉ ks ∧ (v.setField key w).keys? = some (ks ++ [key]) := by
  cases v with
  | object ms =>
      obtain rfl := Option.some.inj hks
      by_cases hkey : Members.get? ms key = none
      · exact .inr ⟨fun hmem => Members.mem_map_fst_iff.1 hmem hkey,
          congrArg some (Members.map_fst_insert_of_absent hkey)⟩
      · exact .inl ⟨Members.mem_map_fst_iff.2 hkey,
          congrArg some (Members.map_fst_insert (Option.isSome_iff_ne_none.2 hkey))⟩
  | _ => simp [keys?, object?] at hks

/-- One value becomes another by operations that touch only some of its fields, add only some new
ones, and move others only by removals. -/
structure Edits (new touched : List String) (v w : Value) : Prop where
  wellFormed : w.WellFormed
  agrees : AgreesOff touched v w
  takes : ∀ ks, v.keys? = some ks → ∃ gone ks', w.keys? = some ks' ∧ Takes new gone ks ks'

namespace Edits

theorem trans (h : Edits new touched u v) (h' : Edits new more v w) :
    Edits new (touched ++ more) u w := by
  refine ⟨h'.wellFormed, h.agrees.trans h'.agrees, fun ks hks => ?_⟩
  obtain ⟨gone, ks', hks', htakes⟩ := h.takes ks hks
  obtain ⟨gone', ks'', hks'', htakes'⟩ := h'.takes ks' hks'
  exact ⟨gone ++ gone', ks'', hks'', htakes.trans htakes'⟩

/-- Fields change in their places. -/
theorem of_rewrites (hw : w.WellFormed) (hobject : w.object?.isSome = v.object?.isSome)
    (h : Rewrites touched v w) : Edits new touched v w :=
  ⟨hw, ⟨hobject, h.field⟩, fun ks hks => ⟨[], ks, h.order.trans hks, .done ks⟩⟩

end Edits

theorem WellFormed.edits_eraseField (hv : v.WellFormed) (hkey : key ∉ new) :
    Edits new [key] v (v.eraseField key) := by
  refine ⟨hv.eraseField key, hv.agreesOff_eraseField key, fun ks hks => ?_⟩
  exact ⟨[key], _, keys_eraseField hks key, .takeOut hkey (.done _)⟩

theorem WellFormed.edits_setField (hv : v.WellFormed) (hw : w.WellFormed)
    (hkey : key ∈ new ∨ (v.get? key).isSome = true) : Edits new [key] v (v.setField key w) := by
  refine ⟨hv.setField hw key, agreesOff_setField v key w, fun ks hks => ?_⟩
  rcases keys_setField hks key w with ⟨-, hsame⟩ | ⟨hfresh, hadded⟩
  · exact ⟨[], ks, hsame, .done ks⟩
  · have habsent : ¬ (v.get? key).isSome = true := fun hget =>
      hfresh ((mem_keys_iff hks).2 (Option.isSome_iff_ne_none.1 hget))
    exact ⟨[], _, hadded, .add (hkey.resolve_right habsent) hfresh (.done _)⟩

theorem WellFormed.edits_modifyField (hv : v.WellFormed) (key : String) {f : Value → Value}
    (hf : ∀ w, w.WellFormed → (f w).WellFormed) : Edits new [key] v (v.modifyField key f) := by
  have hagrees := agreesOff_modifyField v key f
  refine .of_rewrites (hv.modifyField key fun w hw => hf w (hv.get? hw)) hagrees.isObject
    ⟨?_, hagrees.field⟩
  cases v with
  | object ms => exact congrArg some (Members.map_fst_modify ms key f)
  | _ => rfl

theorem WellFormed.edits_coerceField (hv : v.WellFormed) (key : String) {coerce : Value → Value}
    (hcoerce : ∀ w, w.WellFormed → (coerce w).WellFormed) :
    Edits new [key] v ((v.coerceField? key coerce).getD v) := by
  cases hresult : v.coerceField? key coerce with
  | none => exact .of_rewrites hv rfl (.refl [key] v)
  | some w =>
      obtain ⟨old, hold, rfl⟩ := coerceField?_eq_some hresult
      exact hv.edits_setField (hcoerce old (hv.get? hold)) (.inr (by simp [hold]))

theorem WellFormed.edits_ensureField (hv : v.WellFormed) (hw : w.WellFormed) (hkey : key ∈ new) :
    Edits new [key] v ((v.ensureField? key w).getD v) := by
  cases hresult : v.ensureField? key w with
  | none => exact .of_rewrites hv rfl (.refl [key] v)
  | some u =>
      obtain rfl := ensureField?_eq_some hresult
      exact hv.edits_setField hw (.inl hkey)

theorem WellFormed.edits_flattenField (hv : v.WellFormed) (hkey : key ∉ new) :
    Edits new [key] v (v.flattenField {} key).value := by
  cases hget : v.get? key with
  | none =>
      have hsame : (v.flattenField {} key).value = v := hv.flattenField_of_flat (by simp [hget])
      rw [hsame]
      exact .of_rewrites hv rfl (.refl [key] v)
  | some w =>
      rcases hv.value_flattenField key with h | h | ⟨ms, hms, h⟩ <;> rw [h]
      · exact .of_rewrites hv rfl (.refl [key] v)
      · exact hv.edits_eraseField hkey
      · exact hv.edits_setField hms (.inr (by simp [hget]))

end Value

end Json
end ProviderMigration
