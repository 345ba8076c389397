import Mathlib.Data.List.Perm.Basic
import ProviderMigration.Builtin.Table
import ProviderMigration.Proofs.Data.Except

/-!
# The claims of registered migrators

Registration compares two migrators by their types only: it refuses one that handles the type of a
registered migrator, or whose type such a migrator handles. So every registered type has one
migrator. But two that are accepted may both handle a third type, and then the first of them is
found.

* `offerAll` — registration that goes on after a refusal;
* `pairwise_offerAll` — what it keeps, and `registerAll_of_pairwise`, what is accepted as a whole;
* `find?_perm_iff` — a type whose migrator does not depend on the order;
* `claims_offerAll` — all of this for any sequence of registrations.
-/

namespace ProviderMigration
namespace Registry

variable {r after : Registry} {m n : Migrator} {ms order : List Migrator} {type : String}

/-! ## Registration -/

theorem overlap_comm (m n : Migrator) : overlap m n = overlap n m :=
  Bool.or_comm _ _

/-- Neither of two migrators handles the type of the other. -/
def Apart (m n : Migrator) : Prop :=
  overlap m n = false

theorem Apart.symm (h : Apart m n) : Apart n m :=
  (overlap_comm n m).trans h

/-- A migrator that handles its own type is another one than those it is apart from. -/
theorem Apart.ne (h : Apart m n) (hown : m.handles m.type = true) : m ≠ n := by
  rintro rfl
  simp [Apart, overlap, hown] at h

theorem register_of_apart (h : ∀ n ∈ r.migrators, Apart n m) :
    r.register m = .ok { r with migrators := r.migrators ++ [m] } := by
  have hnone : r.migrators.find? (overlap · m) = none := by
    rw [List.find?_eq_none]
    intro n hn
    exact ne_true_of_eq_false (h n hn)
  rw [register, hnone]

theorem apart_of_register (h : r.register m = .ok after) :
    (∀ n ∈ r.migrators, Apart n m) ∧ after = { r with migrators := r.migrators ++ [m] } := by
  unfold register at h
  split at h
  · cases h
  · rename_i hnone
    refine ⟨fun n hn => ?_, (Except.ok.inj h).symm⟩
    exact Bool.eq_false_iff.2 (List.find?_eq_none.1 hnone n hn)

/-- Registers a migrator. If it is refused, the registry stays as it is. -/
def offer (r : Registry) (m : Migrator) : Registry :=
  match r.register m with
  | .ok added => added
  | .error _ => r

/-- Registers one migrator after the other. -/
def offerAll (r : Registry) (ms : List Migrator) : Registry :=
  ms.foldl offer r

theorem offerAll_cons (r : Registry) (m : Migrator) (ms : List Migrator) :
    r.offerAll (m :: ms) = (r.offer m).offerAll ms :=
  rfl

theorem offerAll_append (r : Registry) (front back : List Migrator) :
    r.offerAll (front ++ back) = (r.offerAll front).offerAll back :=
  List.foldl_append

theorem offer_of_error {error : MigrationError} (h : r.register m = .error error) :
    r.offer m = r := by
  rw [offer, h]

/-- One registration: the migrator is added at the end, apart from all others, or refused. -/
theorem offer_cases (r : Registry) (m : Migrator) :
    (∀ n ∈ r.migrators, Apart n m) ∧ r.offer m = { r with migrators := r.migrators ++ [m] } ∨
      r.offer m = r := by
  cases h : r.register m with
  | error error => exact .inr (offer_of_error h)
  | ok added =>
      obtain ⟨hapart, rfl⟩ := apart_of_register h
      exact .inl ⟨hapart, by rw [offer, h]⟩

/-- The registered migrators are apart from each other, and were offered. -/
theorem pairwise_offerAll (ms : List Migrator) (h : r.migrators.Pairwise Apart) :
    (r.offerAll ms).migrators.Pairwise Apart ∧
      ∀ m ∈ (r.offerAll ms).migrators, m ∈ r.migrators ∨ m ∈ ms := by
  induction ms generalizing r with
  | nil => exact ⟨h, fun m hm => .inl hm⟩
  | cons m ms ih =>
      rw [offerAll_cons]
      rcases offer_cases r m with ⟨hapart, heq⟩ | heq
      · have hadded : (r.offer m).migrators.Pairwise Apart := by
          rw [heq, List.pairwise_append]
          exact ⟨h, List.pairwise_singleton _ _, fun n hn k hk => by
            rw [List.mem_singleton.1 hk]
            exact hapart n hn⟩
        obtain ⟨hpairwise, hmem⟩ := ih hadded
        refine ⟨hpairwise, fun k hk => ?_⟩
        rcases hmem k hk with hold | hnew
        · rw [heq, List.mem_append, List.mem_singleton] at hold
          rcases hold with hold | rfl
          · exact .inl hold
          · exact .inr (by simp)
        · exact .inr (List.mem_cons_of_mem _ hnew)
      · rw [heq]
        obtain ⟨hpairwise, hmem⟩ := ih h
        exact ⟨hpairwise, fun k hk => (hmem k hk).imp_right (List.mem_cons_of_mem _)⟩

/-- Migrators that are apart from each other are all accepted. -/
theorem registerAll_of_pairwise (r : Registry) (h : (r.migrators ++ ms).Pairwise Apart) :
    r.registerAll ms = .ok { r with migrators := r.migrators ++ ms } := by
  induction ms generalizing r with
  | nil => rw [List.append_nil]; rfl
  | cons m ms ih =>
      have hsplit : r.migrators ++ m :: ms = (r.migrators ++ [m]) ++ ms := by simp
      have hapart : ∀ n ∈ r.migrators, Apart n m := fun n hn =>
        (List.pairwise_append.1 h).2.2 n hn m List.mem_cons_self
      rw [hsplit] at h ⊢
      exact bind_eq_ok.2 ⟨_, register_of_apart hapart, ih _ h⟩

/-- Migrators that are all accepted are apart from each other. -/
theorem pairwise_of_registerAll (hr : r.migrators.Pairwise Apart)
    (h : r.registerAll ms = .ok after) : (r.migrators ++ ms).Pairwise Apart := by
  induction ms generalizing r with
  | nil => rwa [List.append_nil]
  | cons m ms ih =>
      obtain ⟨added, hadded, hrest⟩ := bind_eq_ok.1 h
      obtain ⟨hapart, rfl⟩ := apart_of_register hadded
      have hpairwise : (r.migrators ++ [m]).Pairwise Apart :=
        List.pairwise_append.2 ⟨hr, List.pairwise_singleton _ _, fun n hn k hk => by
          rw [List.mem_singleton.1 hk]
          exact hapart n hn⟩
      have hall := ih hpairwise hrest
      rwa [List.append_assoc] at hall

/-- What is accepted as a whole is added behind the migrators there were. -/
theorem registerAll_eq_ok (h : r.registerAll ms = .ok after) :
    after.migrators = r.migrators ++ ms ∧ after.rules = r.rules := by
  induction ms generalizing r with
  | nil =>
      obtain rfl : r = after := Except.ok.inj h
      exact ⟨(List.append_nil _).symm, rfl⟩
  | cons m ms ih =>
      obtain ⟨added, hadded, hrest⟩ := bind_eq_ok.1 h
      obtain ⟨-, rfl⟩ := apart_of_register hadded
      obtain ⟨hmigrators, hrules⟩ := ih hrest
      exact ⟨by rw [hmigrators, List.append_assoc]; rfl, hrules⟩

theorem foldl_addRule (r : Registry) (rules : List MergeRule) :
    rules.foldl addRule r = { r with rules := r.rules ++ rules } := by
  induction rules generalizing r with
  | nil => rw [List.append_nil]; rfl
  | cons rule rules ih => rw [List.foldl_cons, ih, addRule, List.append_assoc]; rfl

/-! ## Lookup -/

theorem find?_eq_head? (r : Registry) (type : String) :
    r.find? type = (r.migrators.filter (·.handles type)).head? :=
  (List.head?_filter ..).symm

/-- The migrator of a type is the same for every order of registration if and only if no two
migrators handle the type. -/
theorem find?_perm_iff (hown : ∀ m ∈ r.migrators, m.handles m.type = true)
    (h : r.migrators.Pairwise Apart) (type : String) :
    (∀ order, order.Perm r.migrators →
        find? { r with migrators := order } type = r.find? type) ↔
      (r.migrators.filter (·.handles type)).length ≤ 1 := by
  constructor
  · intro hsame
    by_contra hmany
    -- The order that has the handlers of the type in front, the last of them first.
    let order := (r.migrators.filter (·.handles type)).reverse ++
      r.migrators.filter (fun m => !m.handles type)
    have hperm : order.Perm r.migrators :=
      ((List.reverse_perm _).append_right _).trans (List.filter_append_perm _ _)
    have hfound := hsame order hperm
    have hhandlers : order.filter (·.handles type) =
        (r.migrators.filter (·.handles type)).reverse := by
      simp [order, List.filter_reverse, List.filter_filter]
    rw [find?_eq_head?, find?_eq_head?, hhandlers, List.head?_reverse] at hfound
    have hpairwise := h.sublist (List.filter_sublist (p := (·.handles type)))
    cases hlist : r.migrators.filter (·.handles type) with
    | nil => simp [hlist] at hmany
    | cons first others =>
        rw [hlist] at hmany hfound hpairwise
        have hne : others ≠ [] := by
          rintro rfl
          simp at hmany
        rw [List.getLast?_cons, List.head?_cons, List.getLast?_eq_some_getLast hne,
          Option.getD_some, Option.some.injEq] at hfound
        have hfirst : first ∈ r.migrators :=
          (List.mem_filter.1 (hlist ▸ List.mem_cons_self : first ∈ _)).1
        have hapart := (List.pairwise_cons.1 hpairwise).1 _ (List.getLast_mem hne)
        exact hapart.ne (hown first hfirst) hfound.symm
  · intro hone order hperm
    have hhandlers := hperm.filter (·.handles type)
    rw [find?_eq_head?, find?_eq_head?]
    cases hlist : r.migrators.filter (·.handles type) with
    | nil => rw [hlist] at hhandlers; rw [hhandlers.eq_nil]
    | cons first others =>
        rw [hlist] at hone hhandlers
        obtain rfl : others = [] := by simpa using hone
        rw [hhandlers.eq_singleton]

/-- The type of a registered migrator is handled by no other one. -/
theorem filter_handles_type (hown : ∀ m ∈ r.migrators, m.handles m.type = true)
    (h : r.migrators.Pairwise Apart) (hm : m ∈ r.migrators) :
    r.migrators.filter (·.handles m.type) = [m] := by
  have hforeign : ∀ n, Apart n m → n.handles m.type = false := fun n hapart =>
    (Bool.or_eq_false_iff.1 hapart).1
  obtain ⟨front, back, hsplit⟩ := List.append_of_mem hm
  rw [hsplit, List.pairwise_append, List.pairwise_cons] at h
  obtain ⟨-, ⟨hback, -⟩, hfront⟩ := h
  have hnoFront : front.filter (·.handles m.type) = [] := by
    rw [List.filter_eq_nil_iff]
    exact fun n hn => ne_true_of_eq_false (hforeign n (hfront n hn m List.mem_cons_self))
  have hnoBack : back.filter (·.handles m.type) = [] := by
    rw [List.filter_eq_nil_iff]
    exact fun n hn => ne_true_of_eq_false (hforeign n (hback n hn).symm)
  rw [hsplit, List.filter_append, List.filter_cons, if_pos (hown m hm), hnoFront, hnoBack,
    List.nil_append]

/-- Of migrators that are apart, at most one is among some that overlap each other. -/
theorem length_le_one_of_overlap (h : ms.Pairwise Apart)
    (hall : ∀ m ∈ ms, ∀ n ∈ ms, overlap m n = true) : ms.length ≤ 1 := by
  cases h with
  | nil => simp
  | @cons first others hapart _ =>
      cases others with
      | nil => simp
      | cons second others =>
          have hoverlap := hall first (by simp) second (by simp)
          rw [hapart second (by simp)] at hoverlap
          cases hoverlap

/-! ## Sequences of registrations -/

/-- After any sequence of registrations: what was refused left no trace; the accepted migrators are
accepted in every order; each has the type it is registered for to itself. Which migrator is found
for a type depends on the order just if two of them handle it. None do if any two that share a type
overlap, that is, one of them handles the type of the other. -/
theorem claims_offerAll (hown : ∀ m ∈ ms, m.handles m.type = true) :
    let r := offerAll {} ms
    (∀ front m back, ms = front ++ m :: back →
        (∃ error, (offerAll {} front).register m = .error error) →
        r = offerAll {} (front ++ back)) ∧
      (∀ order, order.Perm r.migrators → registerAll {} order = .ok { migrators := order }) ∧
      (∀ m ∈ r.migrators, r.migrators.filter (·.handles m.type) = [m]) ∧
      ∀ type,
        ((∀ order, order.Perm r.migrators → find? { migrators := order } type = r.find? type) ↔
          (r.migrators.filter (·.handles type)).length ≤ 1) ∧
        ((∀ m ∈ r.migrators, ∀ n ∈ r.migrators, m.handles type = true → n.handles type = true →
            overlap m n = true) →
          (r.migrators.filter (·.handles type)).length ≤ 1) := by
  intro r
  obtain ⟨hpairwise, hoffered⟩ := pairwise_offerAll (r := {}) ms List.Pairwise.nil
  have hownAll : ∀ m ∈ r.migrators, m.handles m.type = true := fun m hm =>
    hown m ((hoffered m hm).resolve_left List.not_mem_nil)
  refine ⟨?_, ?_, fun m hm => filter_handles_type hownAll hpairwise hm, fun type => ⟨?_, ?_⟩⟩
  · rintro front m back hsplit ⟨error, herror⟩
    have hrefused : (offerAll {} front).offer m = offerAll {} front := offer_of_error herror
    calc r = offerAll {} (front ++ m :: back) := by rw [← hsplit]
      _ = ((offerAll {} front).offer m).offerAll back := by
        rw [offerAll_append, offerAll_cons]
      _ = offerAll {} (front ++ back) := by rw [hrefused, offerAll_append]
  · intro order hperm
    exact registerAll_of_pairwise {} (hperm.symm.pairwise hpairwise Apart.symm)
  · exact find?_perm_iff hownAll hpairwise type
  · intro hshared
    refine length_le_one_of_overlap (hpairwise.sublist List.filter_sublist) ?_
    intro m hm n hn
    obtain ⟨hmem, hhandles⟩ := List.mem_filter.1 hm
    obtain ⟨hmem', hhandles'⟩ := List.mem_filter.1 hn
    exact hshared m hmem n hmem' hhandles hhandles'

/-- No type has two builtin migrators. -/
theorem length_builtinMigrators_le_one (type : String) :
    (builtinMigrators.filter (·.handles type)).length ≤ 1 := by
  by_cases hcache : type = TieredCache.type
  · subst hcache
    decide
  · by_cases hlist : type = CloudflareList.type
    · subst hlist
      decide
    · have hcache' : TieredCache.migrator.handles type = false := beq_false_of_ne hcache
      have hlist' : CloudflareList.migrator.handles type = false := beq_false_of_ne hlist
      simp only [builtinMigrators, List.filter_cons, hcache', hlist', List.filter_nil]
      split <;> simp

/-- The builtin migrators are found alike in any order. -/
theorem claims_offerAll_builtin :
    (∀ m ∈ builtinMigrators, m.handles m.type = true) ∧
      ∀ order, order.Perm (offerAll {} builtinMigrators).migrators →
        registerAll {} order = .ok { migrators := order } ∧
          ∀ type,
            find? { migrators := order } type = (offerAll {} builtinMigrators).find? type := by
  have hown : ∀ m ∈ builtinMigrators, m.handles m.type = true := by decide
  obtain ⟨-, haccepted, -, hlookup⟩ := claims_offerAll hown
  exact ⟨hown, fun order hperm => ⟨haccepted order hperm, fun type =>
    (hlookup type).1.2 (length_builtinMigrators_le_one type) order hperm⟩⟩

/-! ## A shared type -/

/-- Handles its own type and one more. -/
def sharing (type : String) : Migrator where
  type := type
  handles name := name == type || name == "shared"
  migrateBlock _ b := .ok (.inPlace b)
  migrateInstance _ inst _ := .ok inst

/-- Two migrators that are both accepted and handle one type: the order decides which is found. -/
theorem find?_depends_on_order :
    (∀ m ∈ [sharing "a", sharing "b"], m.handles m.type = true) ∧
      (offerAll {} [sharing "a", sharing "b"]).migrators = [sharing "a", sharing "b"] ∧
      (offerAll {} [sharing "b", sharing "a"]).migrators = [sharing "b", sharing "a"] ∧
      (∀ m ∈ [sharing "a", sharing "b"], m.handles "shared" = true) ∧
      ((offerAll {} [sharing "a", sharing "b"]).find? "shared").map Migrator.type = some "a" ∧
      ((offerAll {} [sharing "b", sharing "a"]).find? "shared").map Migrator.type = some "b" := by
  refine ⟨by decide, rfl, rfl, by decide, rfl, rfl⟩

end Registry
end ProviderMigration
