import Mathlib

/-! # Inheritance chains of the legacy CPU

`CPU::inheritanceChainOf` of `src/src/cpu/cpu.cpp` starts `ichain` from the type's own
ancestors and walks it with an index while it grows, appending each element's chain: the
bound `ichain.size()` is read again after every iteration, so the elements appended are
walked too, and their chains appended again. It then builds `linearised_inheritance_chain`,
where each ancestor stands once (`linearise`, `nodup_linearise`), and returns `ichain`.

A prototype's ancestors are `typesystem.at(name)->getAncestors()`; a type system is the map
from a name to those ancestors (`TypeSystem`), and `at` throws for a name it does not have.
The recursion and the loop are given fuel, whose exhaustion is its own outcome; more fuel
gives the same chain (`inheritanceChainOf_succ`).

Every chain returned holds exactly the type's transitive ancestors
(`mem_inheritanceChainOf`), and on an acyclic type system one is returned
(`inheritanceChainOf_ancestors`): each iteration of the loop takes off the weight of the
elements still to walk more than the chain it appends adds.

On the acyclic four-level hierarchy `A : B : C : D` the function returns `[B, C, D, D]`,
with `D` twice (`inheritanceChainOf_duplicates`).
-/
namespace ViuaVm.Legacy.Inheritance

/-- A type's ancestors, as its prototype lists them, for the types the CPU has a prototype
of. -/
abbrev TypeSystem := String → Option (List String)

/-- How the model stops without a chain: the `std::out_of_range` of `at`, or out of fuel. -/
inductive ChainStop
  | outOfRange
  | outOfFuel
  deriving DecidableEq, Repr

/-- The first loop of `inheritanceChainOf`, from index `i`: while `i < ichain.size()`, it
appends the chain of `ichain[i]` (`chainOf`) to `ichain`. -/
def extendChain (chainOf : String → Except ChainStop (List String)) :
    Nat → List String → Nat → Except ChainStop (List String)
  | 0, _, _ => .error .outOfFuel
  | fuel + 1, ichain, i =>
    if h : i < ichain.length then
      match chainOf ichain[i] with
      | .error e => .error e
      | .ok sub => extendChain chainOf fuel (ichain ++ sub) (i + 1)
    else .ok ichain

/-- `CPU::inheritanceChainOf`: what it returns is `ichain`. -/
def inheritanceChainOf (typesystem : TypeSystem) : Nat → String → Except ChainStop (List String)
  | 0, _ => .error .outOfFuel
  | fuel + 1, typeName =>
    match typesystem typeName with
    | none => .error .outOfRange
    | some ancestors => extendChain (inheritanceChainOf typesystem fuel) fuel ancestors 0

/-! ## More fuel, the same chain -/

section Fuel
variable {typesystem : TypeSystem}

theorem extendChain_succ {chainOf chainOf' : String → Except ChainStop (List String)}
    (hc : ∀ t l, chainOf t = .ok l → chainOf' t = .ok l) {fuel : Nat} {ichain : List String}
    {i : Nat} {r : List String} (h : extendChain chainOf fuel ichain i = .ok r) :
    extendChain chainOf' (fuel + 1) ichain i = .ok r := by
  induction fuel generalizing ichain i with
  | zero => cases h
  | succ fuel ih =>
    rw [extendChain] at h ⊢
    split at h
    · next hi =>
      rw [dif_pos hi]
      split at h
      · cases h
      · next sub hsub => rw [hc _ _ hsub]; exact ih h
    · next hi => rw [dif_neg hi]; exact h

/-- A chain found with some fuel is found with one more. -/
theorem inheritanceChainOf_succ {fuel : Nat} {typeName : String} {l : List String}
    (h : inheritanceChainOf typesystem fuel typeName = .ok l) :
    inheritanceChainOf typesystem (fuel + 1) typeName = .ok l := by
  induction fuel generalizing typeName l with
  | zero => cases h
  | succ fuel ih =>
    rw [inheritanceChainOf] at h ⊢
    split at h
    · cases h
    · exact extendChain_succ (fun _ _ => ih) h

theorem inheritanceChainOf_le {fuel fuel' : Nat} (hle : fuel ≤ fuel') {typeName : String}
    {l : List String} (h : inheritanceChainOf typesystem fuel typeName = .ok l) :
    inheritanceChainOf typesystem fuel' typeName = .ok l := by
  induction hle with
  | refl => exact h
  | step _ ih => exact inheritanceChainOf_succ ih

end Fuel

/-! ## What the chain holds -/

/-- `a` is among the ancestors the prototype of `t` lists. -/
def DirectAncestor (typesystem : TypeSystem) (t a : String) : Prop :=
  ∃ ancestors, typesystem t = some ancestors ∧ a ∈ ancestors

/-- The transitive ancestors of a type. -/
def Ancestor (typesystem : TypeSystem) : String → String → Prop :=
  Relation.TransGen (DirectAncestor typesystem)

/-- Every ancestor a prototype lists has a prototype: `at` finds it. -/
def Complete (typesystem : TypeSystem) : Prop :=
  ∀ t a, DirectAncestor typesystem t a → (typesystem a).isSome

/-- An acyclic type system: some rank decreases from each type to each of its ancestors. -/
def Acyclic (typesystem : TypeSystem) : Prop :=
  ∃ rank : String → Nat, ∀ t ancestors, typesystem t = some ancestors →
    ∀ a ∈ ancestors, rank a < rank t

theorem directAncestor_iff {typesystem : TypeSystem} {t : String} {ancestors : List String}
    (hts : typesystem t = some ancestors) (a : String) :
    DirectAncestor typesystem t a ↔ a ∈ ancestors := by
  simp [DirectAncestor, hts]

/-- What the first loop returns, for a `chainOf` whose chains hold what `R` relates, from a
state where the chains of the elements before `i` are in `ichain`: a chain that holds
`ichain`, the chains of its elements and nothing else, closed under `R`. -/
theorem extendChain_spec {chainOf : String → Except ChainStop (List String)}
    {R : String → String → Prop} (hchain : ∀ x l, chainOf x = .ok l → ∀ y, y ∈ l ↔ R x y)
    (htrans : ∀ {x y z}, R x y → R y z → R x z) {fuel : Nat} {ichain : List String} {i : Nat}
    {r : List String} (hdone : ∀ j (hj : j < ichain.length), j < i → ∀ y, R ichain[j] y → y ∈ ichain)
    (h : extendChain chainOf fuel ichain i = .ok r) :
    (∀ y ∈ ichain, y ∈ r) ∧ (∀ y ∈ r, y ∈ ichain ∨ ∃ x ∈ ichain, R x y) ∧
      ∀ x ∈ r, ∀ y, R x y → y ∈ r := by
  induction fuel generalizing ichain i with
  | zero => cases h
  | succ fuel ih =>
    rw [extendChain] at h
    split at h
    · next hi =>
      split at h
      · cases h
      · next sub hsub =>
        have hsubR := hchain _ _ hsub
        -- the chains of the elements up to `i` are now in `ichain ++ sub`
        have hdone' : ∀ j (hj : j < (ichain ++ sub).length), j < i + 1 →
            ∀ y, R (ichain ++ sub)[j] y → y ∈ ichain ++ sub := by
          intro j hj hji y hy
          rcases Nat.lt_succ_iff_lt_or_eq.mp hji with hji | rfl
          · rw [List.getElem_append_left (by omega)] at hy
            exact List.mem_append_left _ (hdone j (by omega) hji y hy)
          · rw [List.getElem_append_left hi] at hy
            exact List.mem_append_right _ ((hsubR y).mpr hy)
        obtain ⟨h1, h2, h3⟩ := ih hdone' h
        refine ⟨fun y hy => h1 y (List.mem_append_left _ hy), fun y hy => ?_, h3⟩
        rcases h2 y hy with hy | ⟨x, hx, hxy⟩
        · rcases List.mem_append.mp hy with hy | hy
          · exact .inl hy
          · exact .inr ⟨_, List.getElem_mem hi, (hsubR y).mp hy⟩
        · rcases List.mem_append.mp hx with hx | hx
          · exact .inr ⟨x, hx, hxy⟩
          · exact .inr ⟨_, List.getElem_mem hi, htrans ((hsubR x).mp hx) hxy⟩
    · next hi =>
      cases h
      refine ⟨fun y hy => hy, fun y hy => .inl hy, fun x hx y hxy => ?_⟩
      obtain ⟨j, hj, rfl⟩ := List.getElem_of_mem hx
      exact hdone j hj (by omega) y hxy

/-- Whatever fuel gives a chain, its elements are the type's transitive ancestors. -/
theorem mem_inheritanceChainOf {typesystem : TypeSystem} {fuel : Nat} {t : String}
    {l : List String} (h : inheritanceChainOf typesystem fuel t = .ok l) :
    ∀ x, x ∈ l ↔ Ancestor typesystem t x := by
  induction fuel generalizing t l with
  | zero => cases h
  | succ fuel ih =>
    rw [inheritanceChainOf] at h
    split at h
    · cases h
    · next ancestors hts =>
      obtain ⟨h1, h2, h3⟩ := extendChain_spec (fun _ _ hx => ih hx) Relation.TransGen.trans
        (fun _ _ hj => absurd hj (Nat.not_lt_zero _)) h
      have hdirect := directAncestor_iff hts
      intro x
      constructor
      · intro hx
        rcases h2 x hx with hx | ⟨a, ha, hax⟩
        · exact .single ((hdirect x).mpr hx)
        · exact .head ((hdirect a).mpr ha) hax
      · intro hx
        induction hx with
        | single hd => exact h1 _ ((hdirect _).mp hd)
        | tail _ hd ihx => exact h3 _ ihx _ (.single hd)

/-! ## A four-level hierarchy -/

/-- `A` derives from `B`, `B` from `C`, and `C` from `D`. -/
def linearHierarchy : TypeSystem := fun name =>
  if name = "A" then some ["B"]
  else if name = "B" then some ["C"]
  else if name = "C" then some ["D"]
  else if name = "D" then some []
  else none

theorem acyclic_linearHierarchy : Acyclic linearHierarchy := by
  refine ⟨fun t => if t = "A" then 3 else if t = "B" then 2 else if t = "C" then 1 else 0, ?_⟩
  intro t ancestors ht a ha
  simp only [linearHierarchy] at ht
  split_ifs at ht <;> obtain rfl := Option.some.inj ht <;>
    simp only [List.mem_singleton, List.not_mem_nil] at ha <;> subst_vars <;> decide

theorem complete_linearHierarchy : Complete linearHierarchy := by
  rintro t a ⟨ancestors, ht, ha⟩
  simp only [linearHierarchy] at ht
  split_ifs at ht <;> obtain rfl := Option.some.inj ht <;>
    simp only [List.mem_singleton, List.not_mem_nil] at ha <;> subst_vars <;> rfl

/-! ## On an acyclic type system the chain is returned -/

/-- The rank decreases from a type to every transitive ancestor. -/
theorem rank_lt_of_ancestor {typesystem : TypeSystem} {rank : String → Nat}
    (hrank : ∀ t ancestors, typesystem t = some ancestors → ∀ a ∈ ancestors, rank a < rank t)
    {t a : String} (h : Ancestor typesystem t a) : rank a < rank t := by
  induction h with
  | single hd => obtain ⟨_, hts, ha⟩ := hd; exact hrank _ _ hts _ ha
  | tail _ hd ih => obtain ⟨_, hts, ha⟩ := hd; exact (hrank _ _ hts _ ha).trans ih

/-- Chains shorter than `B` of elements of lower rank weigh less than their type, each element
`y` weighing `B ^ rank y`. -/
theorem sum_pow_rank_lt {rank : String → Nat} {B r : Nat} {l : List String}
    (hlen : l.length < B) (hl : ∀ y ∈ l, rank y < r) : (l.map (B ^ rank ·)).sum < B ^ r := by
  cases r with
  | zero => cases l with
    | nil => simp
    | cons y l => exact absurd (hl y (List.mem_cons_self _ _)) (Nat.not_lt_zero _)
  | succ r =>
    have hle : (l.map (B ^ rank ·)).sum ≤ l.length * B ^ r := by
      simpa using List.sum_le_card_nsmul (l.map (B ^ rank ·)) (B ^ r) (by
        simp only [List.mem_map]
        rintro _ ⟨y, hy, rfl⟩
        exact Nat.pow_le_pow_right (by omega) (by have := hl y hy; omega))
    calc (l.map (B ^ rank ·)).sum ≤ l.length * B ^ r := hle
      _ < B * B ^ r := Nat.mul_lt_mul_of_pos_right hlen (Nat.pos_pow_of_pos _ (by omega))
      _ = B ^ (r + 1) := by rw [Nat.pow_succ, Nat.mul_comm]

/-- The first loop ends when every element it walks has a chain shorter than `B` of elements
of lower rank: each iteration takes `B ^ rank x` off the weight of the elements still to
walk, and adds less. -/
theorem extendChain_ok {chainOf : String → Except ChainStop (List String)} {S : String → Prop}
    {rank : String → Nat} {B : Nat}
    (hchain : ∀ x, S x → ∃ l, chainOf x = .ok l ∧ l.length < B ∧ ∀ y ∈ l, S y ∧ rank y < rank x)
    {fuel : Nat} {ichain : List String} {i : Nat} (hS : ∀ y ∈ ichain.drop i, S y)
    (hfuel : ((ichain.drop i).map (B ^ rank ·)).sum < fuel) :
    ∃ r, extendChain chainOf fuel ichain i = .ok r := by
  induction fuel generalizing ichain i with
  | zero => omega
  | succ fuel ih =>
    rw [extendChain]
    split
    · next hi =>
      have hdrop := List.drop_eq_getElem_cons hi
      obtain ⟨l, hl, hlen, hly⟩ := hchain _ (hS _ (by rw [hdrop]; exact List.mem_cons_self _ _))
      have hrest : (ichain ++ l).drop (i + 1) = ichain.drop (i + 1) ++ l :=
        List.drop_append_of_le_length hi
      rw [hl]
      refine ih (fun y hy => ?_) ?_
      · rw [hrest, List.mem_append] at hy
        rcases hy with hy | hy
        · exact hS y (by rw [hdrop]; exact List.mem_cons_of_mem _ hy)
        · exact (hly y hy).1
      · have hlt := sum_pow_rank_lt hlen fun y hy => (hly y hy).2
        rw [hdrop, List.map_cons, List.sum_cons] at hfuel
        rw [hrest, List.map_append, List.sum_append]
        omega
    · exact ⟨_, rfl⟩

/-- For finitely many types each with a chain from some fuel on, one fuel gives all of them,
each shorter than one bound. -/
theorem exists_fuel_of_forall {typesystem : TypeSystem} {L : List String}
    (h : ∀ x ∈ L, ∃ n l, inheritanceChainOf typesystem n x = .ok l) :
    ∃ N B, ∀ x ∈ L, ∃ l, inheritanceChainOf typesystem N x = .ok l ∧ l.length < B := by
  induction L with
  | nil => exact ⟨0, 0, by simp⟩
  | cons x L ih =>
    obtain ⟨N, B, hL⟩ := ih fun y hy => h y (List.mem_cons_of_mem _ hy)
    obtain ⟨n, l, hx⟩ := h x (List.mem_cons_self _ _)
    refine ⟨max N n, max B (l.length + 1), fun y hy => ?_⟩
    rcases List.mem_cons.mp hy with rfl | hy
    · exact ⟨l, inheritanceChainOf_le (le_max_right _ _) hx, by omega⟩
    · obtain ⟨l', hl', hlen⟩ := hL y hy
      exact ⟨l', inheritanceChainOf_le (le_max_left _ _) hl', by omega⟩

/-- The types reachable from a list of types, each with a chain, are finitely many. -/
theorem exists_list_reflTransGen {typesystem : TypeSystem} {types : List String}
    (h : ∀ a ∈ types, ∃ n l, inheritanceChainOf typesystem n a = .ok l) :
    ∃ L : List String, ∀ x, x ∈ L ↔ ∃ a ∈ types, Relation.ReflTransGen (DirectAncestor typesystem) a x := by
  induction types with
  | nil => exact ⟨[], by simp⟩
  | cons a types ih =>
    obtain ⟨L, hL⟩ := ih fun b hb => h b (List.mem_cons_of_mem _ hb)
    obtain ⟨n, l, hl⟩ := h a (List.mem_cons_self _ _)
    refine ⟨a :: l ++ L, fun x => ?_⟩
    simp only [List.cons_append, List.mem_cons, List.mem_append, hL, mem_inheritanceChainOf hl,
      or_and_right, exists_or, exists_eq_left, Relation.reflTransGen_iff_eq_or_transGen, Ancestor,
      or_assoc]

/-- **On every acyclic type system the chain is returned, with every transitive ancestor.**
For every acyclic type system in which the ancestors each prototype lists have prototypes,
and every type with a prototype, some fuel gives a chain (and every larger fuel the same),
and its elements are the type's transitive ancestors: each at least once, not only once
(`inheritanceChainOf_duplicates`). -/
theorem inheritanceChainOf_ancestors {typesystem : TypeSystem} (hacyclic : Acyclic typesystem)
    (hcomplete : Complete typesystem) {t : String} (ht : (typesystem t).isSome) :
    ∃ fuel l, inheritanceChainOf typesystem fuel t = .ok l ∧
      ∀ x, x ∈ l ↔ Ancestor typesystem t x := by
  obtain ⟨rank, hrank⟩ := hacyclic
  suffices hok : ∀ k t, rank t < k → (typesystem t).isSome →
      ∃ fuel l, inheritanceChainOf typesystem fuel t = .ok l by
    obtain ⟨fuel, l, h⟩ := hok _ t (Nat.lt_succ_self _) ht
    exact ⟨fuel, l, h, mem_inheritanceChainOf h⟩
  intro k
  induction k with
  | zero => intro t h; omega
  | succ k ih =>
    intro t htk ht
    obtain ⟨ancestors, hts⟩ := Option.isSome_iff_exists.mp ht
    -- every transitive ancestor has a chain
    have hanc : ∀ x, Ancestor typesystem t x → ∃ n l, inheritanceChainOf typesystem n x = .ok l := by
      intro x hx
      refine ih x (by have := rank_lt_of_ancestor hrank hx; omega) ?_
      cases hx with
      | single hd => exact hcomplete _ _ hd
      | tail _ hd => exact hcomplete _ _ hd
    -- the transitive ancestors are finitely many
    obtain ⟨L, hL⟩ := exists_list_reflTransGen fun a ha => hanc a (.single ⟨_, hts, ha⟩)
    have hmemL : ∀ x, x ∈ L ↔ Ancestor typesystem t x := fun x => by
      simp only [hL, Ancestor, Relation.TransGen.head'_iff, directAncestor_iff hts]
    obtain ⟨N, B, hN⟩ := exists_fuel_of_forall fun x hx => hanc x ((hmemL x).mp hx)
    -- the loop walks only transitive ancestors, whose chains have lower ranks
    obtain ⟨fuel, hfuelN, hfuel⟩ : ∃ fuel, N ≤ fuel ∧ (ancestors.map (B ^ rank ·)).sum < fuel :=
      ⟨max N ((ancestors.map (B ^ rank ·)).sum + 1), le_max_left _ _, by omega⟩
    obtain ⟨r, hr⟩ := @extendChain_ok (inheritanceChainOf typesystem fuel)
      (Ancestor typesystem t) rank B (fun x hx => by
        obtain ⟨l, hl, hlen⟩ := hN x ((hmemL x).mpr hx)
        refine ⟨l, inheritanceChainOf_le hfuelN hl, hlen, fun y hy => ?_⟩
        have hxy := (mem_inheritanceChainOf hl y).mp hy
        exact ⟨hx.trans hxy, rank_lt_of_ancestor hrank hxy⟩)
      fuel ancestors 0 (fun y hy => .single ⟨_, hts, hy⟩) hfuel
    exact ⟨fuel + 1, r, by rw [inheritanceChainOf, hts]; exact hr⟩

theorem inheritanceChainOf_ancestors_linearHierarchy :
    (Acyclic linearHierarchy ∧ Complete linearHierarchy ∧ (linearHierarchy "A").isSome) ∧
      ∃ fuel l, inheritanceChainOf linearHierarchy fuel "A" = .ok l ∧
        ∀ x, x ∈ l ↔ Ancestor linearHierarchy "A" x :=
  ⟨⟨acyclic_linearHierarchy, complete_linearHierarchy, rfl⟩,
    inheritanceChainOf_ancestors acyclic_linearHierarchy complete_linearHierarchy rfl⟩

/-! ## The chain it builds and does not return -/

/-- One iteration of the second loop of `inheritanceChainOf`, on
`(linearised_inheritance_chain, pushed)`: an element seen before is erased from the chain,
and the element is pushed at its end. -/
def lineariseStep (acc : List String × List String) (element : String) :
    List String × List String :=
  ((if element ∈ acc.2 then acc.1.filter (· ≠ element) else acc.1) ++ [element],
    element :: acc.2)

/-- `linearised_inheritance_chain`, which `inheritanceChainOf` builds and does not return. -/
def linearise (ichain : List String) : List String :=
  (ichain.foldl lineariseStep ([], [])).1

/-- One iteration keeps the chain free of duplicates, with the elements seen so far. -/
theorem lineariseStep_spec {acc : List String × List String} (hnodup : acc.1.Nodup)
    (hseen : ∀ x, x ∈ acc.2 ↔ x ∈ acc.1) (element : String) :
    (lineariseStep acc element).1.Nodup ∧
      ∀ x, (x ∈ (lineariseStep acc element).2 ↔ x ∈ (lineariseStep acc element).1) ∧
        (x ∈ (lineariseStep acc element).1 ↔ x ∈ acc.1 ∨ x = element) := by
  unfold lineariseStep
  split_ifs with h
  · refine ⟨(hnodup.filter _).append (List.nodup_singleton _) (by simp), fun x => ?_⟩
    by_cases hx : x = element <;> simp [hx, hseen, (hseen element).mp h]
  · refine ⟨hnodup.append (List.nodup_singleton _) (by simpa [hseen] using h), fun x => ?_⟩
    simp [hseen, or_comm]

theorem foldl_lineariseStep (ichain : List String) {acc : List String × List String}
    (hnodup : acc.1.Nodup) (hseen : ∀ x, x ∈ acc.2 ↔ x ∈ acc.1) :
    (ichain.foldl lineariseStep acc).1.Nodup ∧
      ∀ x, x ∈ (ichain.foldl lineariseStep acc).1 ↔ x ∈ acc.1 ∨ x ∈ ichain := by
  induction ichain generalizing acc with
  | nil => simpa using hnodup
  | cons element ichain ih =>
    obtain ⟨hnodup', hstep⟩ := lineariseStep_spec hnodup hseen element
    obtain ⟨hn, hmem⟩ := ih hnodup' fun x => (hstep x).1
    refine ⟨hn, fun x => ?_⟩
    rw [List.foldl_cons, hmem, (hstep x).2, List.mem_cons]
    tauto

/-- **The linearised chain has each element of `ichain` once.** -/
theorem nodup_linearise (ichain : List String) :
    (linearise ichain).Nodup ∧ ∀ x, x ∈ linearise ichain ↔ x ∈ ichain := by
  obtain ⟨hn, hmem⟩ := @foldl_lineariseStep ichain ([], []) List.nodup_nil (by simp)
  exact ⟨hn, fun x => by simpa using hmem x⟩

/-- **The chain lists an ancestor twice.** The hierarchy `A : B : C : D` is acyclic, and with
any fuel from 10 on `inheritanceChainOf` of `A` is `[B, C, D, D]`: `D`, appended with the
chain of `B`, is appended again with the chain of `C`, which the loop walks because it was
appended too. The linearised chain, which is not returned, is `[B, C, D]`. -/
theorem inheritanceChainOf_duplicates :
    Acyclic linearHierarchy ∧
      (∀ fuel ≥ 10, inheritanceChainOf linearHierarchy fuel "A" = .ok ["B", "C", "D", "D"]) ∧
      linearise ["B", "C", "D", "D"] = ["B", "C", "D"] :=
  ⟨acyclic_linearHierarchy, fun _ h => inheritanceChainOf_le h (by rfl), by decide⟩

end ViuaVm.Legacy.Inheritance
