import Mathlib.Logic.Function.Iterate
import Mathlib.Data.List.Basic
import Mathlib.Tactic

/-!
# Merkle trees that duplicate the last element of an odd level

A list of leaves is folded level by level: neighbours are hashed together, and
a last element without a neighbour is hashed with itself.  The duplication
makes different leaf lists share a root, so the fold also reports whether some
level contained two equal neighbours.

The hash is an arbitrary binary operation.  Nothing is assumed about it
globally; the two results ask for injectivity on the pairs that the trees in
question really hash.

* `eq_of_root_eq`: two trees of the same height with one root, neither of
  which has two equal neighbours, have the same leaves;
* `eq_of_root_eq_of_length`: for lists of one length the neighbours do not
  matter;
* `height_eq_of_root_eq`: two trees with one root have the same height as soon
  as no leaf of one is an inner node of the other.
-/

namespace MerkleTree

open List

variable {α : Type*} (hash : α → α → α)

/-- The next level of the tree. -/
def parents : List α → List α
  | [] => []
  | [a] => [hash a a]
  | a :: b :: rest => hash a b :: parents rest

/-- The pairs that are hashed to get from a level to the next one. -/
def pairs : List α → List (α × α)
  | [] => []
  | [a] => [(a, a)]
  | a :: b :: rest => (a, b) :: pairs rest

/-- Whether two neighbours that are hashed together are equal.  A last element
without a neighbour does not count. -/
def hasEqualPair [DecidableEq α] : List α → Bool
  | a :: b :: rest => a == b || hasEqualPair rest
  | _ => false

/-- The level `i` steps above the leaves. -/
def level (leaves : List α) (i : ℕ) : List α := (parents hash)^[i] leaves

/-- Fold the levels until one element is left, and remember equal neighbours. -/
def foldLevels [DecidableEq α] : ℕ → List α → Bool → List α × Bool
  | 0, current, mutated => (current, mutated)
  | fuel + 1, current, mutated =>
    if current.length ≤ 1 then (current, mutated)
    else foldLevels fuel (parents hash current) (mutated || hasEqualPair current)

/-- The pairs that the fold hashes. -/
def hashedPairs : ℕ → List α → List (α × α)
  | 0, _ => []
  | fuel + 1, current =>
    if current.length ≤ 1 then []
    else pairs current ++ hashedPairs fuel (parents hash current)

/-- `root` is reached from the leaves in exactly `height` steps. -/
structure Climbs (leaves : List α) (height : ℕ) (root : α) : Prop where
  top : level hash leaves height = [root]
  wide : ∀ i < height, 1 < (level hash leaves i).length

/-- No level below the root has two equal neighbours. -/
def Clean [DecidableEq α] (leaves : List α) (height : ℕ) : Prop :=
  ∀ i < height, hasEqualPair (level hash leaves i) = false

/-- The pair `(a, b)` is hashed somewhere below the root. -/
def Hashed (leaves : List α) (height : ℕ) (a b : α) : Prop :=
  ∃ i < height, (a, b) ∈ pairs (level hash leaves i)

variable {hash}

/-! ## Levels -/

@[simp] theorem level_zero (leaves : List α) : level hash leaves 0 = leaves := rfl

theorem level_succ (leaves : List α) (i : ℕ) :
    level hash leaves (i + 1) = level hash (parents hash leaves) i :=
  Function.iterate_succ_apply _ _ _

theorem level_succ_outer (leaves : List α) (i : ℕ) :
    level hash leaves (i + 1) = parents hash (level hash leaves i) :=
  Function.iterate_succ_apply' _ _ _

theorem level_add (leaves : List α) (i j : ℕ) :
    level hash leaves (i + j) = level hash (level hash leaves j) i :=
  Function.iterate_add_apply _ _ _ _

theorem parents_eq_map_pairs (current : List α) :
    parents hash current = (pairs current).map fun pair => hash pair.1 pair.2 := by
  fun_induction parents hash current with
  | case1 => rfl
  | case2 a => rfl
  | case3 a b rest ih => simp [pairs, ih]

theorem length_parents (current : List α) :
    (parents hash current).length = (current.length + 1) / 2 := by
  fun_induction parents hash current with
  | case1 => simp
  | case2 a => simp
  | case3 a b rest ih => simp only [length_cons, ih]; omega

theorem length_level_congr {first second : List α} (hlength : first.length = second.length)
    (i : ℕ) : (level hash first i).length = (level hash second i).length := by
  induction i with
  | zero => exact hlength
  | succ i ih => rw [level_succ_outer, level_succ_outer, length_parents, length_parents, ih]

/-! ## The fold -/

/-- The fold ends at a root, and an untouched flag says that the levels it passed
were free of equal neighbours. -/
theorem exists_climbs_of_foldLevels [DecidableEq α] {fuel : ℕ} {leaves : List α} {mutated : Bool}
    (hne : leaves ≠ []) (hfuel : leaves.length ≤ fuel) :
    ∃ height root, (foldLevels hash fuel leaves mutated).1 = [root] ∧
      Climbs hash leaves height root ∧
      ((foldLevels hash fuel leaves mutated).2 = false → mutated = false ∧
        Clean hash leaves height) := by
  induction fuel generalizing leaves mutated with
  | zero => exact absurd (length_eq_zero_iff.mp (Nat.le_zero.mp hfuel)) hne
  | succ fuel ih =>
    by_cases hshort : leaves.length ≤ 1
    · -- one element is left: it is the root
      have hone : leaves.length = 1 := le_antisymm hshort (length_pos_of_ne_nil hne)
      obtain ⟨root, rfl⟩ := length_eq_one_iff.mp hone
      refine ⟨0, root, by simp [foldLevels], ⟨rfl, by simp⟩, fun hflag => ⟨?_, by simp [Clean]⟩⟩
      simpa [foldLevels] using hflag
    · have hlength := @length_parents _ hash leaves
      have hnext : parents hash leaves ≠ [] := by
        intro hnil
        rw [hnil, length_nil] at hlength
        omega
      obtain ⟨height, root, htop, hclimbs, hclean⟩ :=
        @ih _ (mutated || hasEqualPair leaves) hnext (by omega)
      simp only [foldLevels, if_neg hshort]
      refine ⟨height + 1, root, htop, ⟨by rw [level_succ]; exact hclimbs.top, ?_⟩, ?_⟩
      · rintro (_ | i) hi
        · rw [level_zero]; omega
        · rw [level_succ]; exact hclimbs.wide i (by omega)
      · intro hflag
        obtain ⟨hmutated, hrest⟩ := hclean hflag
        rw [Bool.or_eq_false_iff] at hmutated
        refine ⟨hmutated.1, ?_⟩
        rintro (_ | i) hi
        · exact hmutated.2
        · rw [level_succ]; exact hrest i (by omega)

/-- The list of the pairs has every pair that is hashed below the root. -/
theorem mem_hashedPairs {fuel height : ℕ} {leaves : List α} {root a b : α}
    (hclimbs : Climbs hash leaves height root) (hfuel : leaves.length ≤ fuel)
    (h : Hashed hash leaves height a b) : (a, b) ∈ hashedPairs hash fuel leaves := by
  induction height generalizing fuel leaves with
  | zero =>
    obtain ⟨i, hi, -⟩ := h
    omega
  | succ height ih =>
    have hwide : 1 < leaves.length := hclimbs.wide 0 (by omega)
    obtain ⟨fuel, rfl⟩ : ∃ smaller, fuel = smaller + 1 := ⟨fuel - 1, by omega⟩
    have hlength := @length_parents _ hash leaves
    rw [hashedPairs, if_neg (by omega), mem_append]
    obtain ⟨i, hi, hpair⟩ := h
    cases i with
    | zero => exact .inl hpair
    | succ i =>
      rw [level_succ] at hpair
      refine .inr (ih ⟨by rw [← level_succ]; exact hclimbs.top, fun j hj => ?_⟩ (by omega)
        ⟨i, by omega, hpair⟩)
      rw [← level_succ]
      exact hclimbs.wide (j + 1) (by omega)

/-! ## Going back down -/

/-- What makes one step of the tree injective on two levels. -/
structure StepInjective (hash : α → α → α) (first second : List α) : Prop where
  pairs_inj : ∀ p ∈ pairs first, ∀ q ∈ pairs second,
    hash p.1 p.2 = hash q.1 q.2 → p = q

theorem StepInjective.tail {a b c d : α} {first second : List α}
    (hstep : StepInjective hash (a :: b :: first) (c :: d :: second)) :
    StepInjective hash first second :=
  ⟨fun p hp q hq => hstep.pairs_inj p (.tail _ hp) q (.tail _ hq)⟩

private theorem eq_nil_of_parents_eq_nil {rest : List α} (h : parents hash rest = []) :
    rest = [] := by
  have hlength := @length_parents _ hash rest
  rw [h, length_nil] at hlength
  exact length_eq_zero_iff.mp (by omega)

/-- Two levels with the same parents are equal, unless one of them pairs equal
neighbours: that is the case of a duplicated last element. -/
theorem eq_of_parents_eq [DecidableEq α] :
    ∀ {first second : List α}, StepInjective hash first second →
      (first.length = second.length ∨
        hasEqualPair first = false ∧ hasEqualPair second = false) →
      parents hash first = parents hash second → first = second
  | [], second, _, _, h => (eq_nil_of_parents_eq_nil h.symm).symm
  | first, [], _, _, h => eq_nil_of_parents_eq_nil h
  | [a], [c], hstep, _, h => by
      have hpair := hstep.pairs_inj (a, a) (by simp [pairs]) (c, c) (by simp [pairs])
        (cons.inj h).1
      rw [(Prod.mk.inj hpair).1]
  | [a], c :: d :: rest, hstep, hclean, h => by
      have hpair := hstep.pairs_inj (a, a) (by simp [pairs]) (c, d) (by simp [pairs])
        (cons.inj h).1
      obtain ⟨rfl, rfl⟩ := Prod.mk.inj hpair
      exact absurd hclean (by simp [hasEqualPair])
  | a :: b :: rest, [c], hstep, hclean, h => by
      have hpair := hstep.pairs_inj (a, b) (by simp [pairs]) (c, c) (by simp [pairs])
        (cons.inj h).1
      obtain ⟨rfl, rfl⟩ := Prod.mk.inj hpair
      exact absurd hclean (by simp [hasEqualPair])
  | a :: b :: first, c :: d :: second, hstep, hclean, h => by
      have hpair := hstep.pairs_inj (a, b) (by simp [pairs]) (c, d) (by simp [pairs])
        (cons.inj h).1
      obtain ⟨rfl, rfl⟩ := Prod.mk.inj hpair
      have hrest : first.length = second.length ∨
          hasEqualPair first = false ∧ hasEqualPair second = false := by
        simp only [length_cons, hasEqualPair, Bool.or_eq_false_iff] at hclean
        exact hclean.imp (by omega) fun hboth => ⟨hboth.1.2, hboth.2.2⟩
      rw [eq_of_parents_eq hstep.tail hrest (cons.inj h).2]

section Injectivity

variable {first second : List α} {height height' : ℕ} {root : α}
variable {leaves : List α}

/-- The hash is injective on the pairs that occur in the two trees. -/
def InjectiveOn (hash : α → α → α) (first : List α) (height : ℕ) (second : List α)
    (height' : ℕ) : Prop :=
  ∀ a b c d, Hashed hash first height a b → Hashed hash second height' c d →
    hash a b = hash c d → a = c ∧ b = d

theorem Hashed.of_level {d k : ℕ} {a b : α} (h : Hashed hash (level hash leaves d) k a b) :
    Hashed hash leaves (k + d) a b := by
  obtain ⟨i, hi, hmem⟩ := h
  exact ⟨i + d, by omega, by rwa [level_add]⟩

theorem Climbs.of_level {d k : ℕ} (h : Climbs hash leaves (k + d) root) :
    Climbs hash (level hash leaves d) k root := by
  refine ⟨by rw [← level_add]; exact h.top, fun i hi => ?_⟩
  rw [← level_add]
  exact h.wide (i + d) (by omega)

section

variable (hinj : InjectiveOn hash first height second height)
include hinj

/-- One induction serves both uniqueness results: from the root downwards each
level is determined by the one above it. -/
private theorem level_eq_of_root_eq [DecidableEq α]
    (hlevels : ∀ i < height, (level hash first i).length = (level hash second i).length ∨
      hasEqualPair (level hash first i) = false ∧ hasEqualPair (level hash second i) = false)
    (hfirst : level hash first height = [root]) (hsecond : level hash second height = [root])
    (below : ℕ) (hbelow : below ≤ height) :
    level hash first (height - below) = level hash second (height - below) := by
  induction below with
  | zero => exact hfirst.trans hsecond.symm
  | succ below ih =>
    obtain ⟨i, hi⟩ : ∃ i, height = i + (below + 1) := ⟨height - (below + 1), by omega⟩
    have hup : height - below = i + 1 := by omega
    have hdown : height - (below + 1) = i := by omega
    have hparents := ih (by omega)
    rw [hup, level_succ_outer, level_succ_outer] at hparents
    rw [hdown]
    refine eq_of_parents_eq ⟨?_⟩ (hlevels i (by omega)) hparents
    rintro ⟨a, b⟩ hp ⟨c, d⟩ hq heq
    obtain ⟨rfl, rfl⟩ := hinj a b c d ⟨i, by omega, hp⟩ ⟨i, by omega, hq⟩ heq
    rfl

section

variable (hfirst : Climbs hash first height root) (hsecond : Climbs hash second height root)
include hfirst hsecond

/-- Two trees of one height with one root and no equal neighbours have the same
leaves. -/
theorem eq_of_root_eq [DecidableEq α]
    (hclean : Clean hash first height) (hclean' : Clean hash second height) : first = second := by
  have h := level_eq_of_root_eq hinj (fun i hi => .inr ⟨hclean i hi, hclean' i hi⟩)
    hfirst.top hsecond.top height le_rfl
  simpa using h

/-- Lists of one length and with one root are equal, whatever their levels repeat. -/
theorem eq_of_root_eq_of_length [DecidableEq α]
    (hlength : first.length = second.length) : first = second := by
  have h := level_eq_of_root_eq hinj (fun i _ => .inl (length_level_congr hlength i))
    hfirst.top hsecond.top height le_rfl
  simpa using h

end

end

/-- The height is a function of the number of leaves. -/
theorem Climbs.height_eq_clog (h : Climbs hash first height root) :
    height = Nat.clog 2 first.length := by
  induction height generalizing first with
  | zero =>
    have htop : first = [root] := h.top
    rw [htop, length_singleton, Nat.clog_one_right]
  | succ height ih =>
    have hwide : 1 < first.length := h.wide 0 (by omega)
    have hnext : height = Nat.clog 2 (parents hash first).length := ih (@of_level _ _ _ _ 1 _ h)
    rw [Nat.clog_of_one_lt Nat.one_lt_two hwide, hnext, length_parents]
    rfl

section

variable [DecidableEq α] (hinj : InjectiveOn hash first height second height')
  (hfirst : Climbs hash first height root) (hsecond : Climbs hash second height' root)
  (hclean : Clean hash first height) (hclean' : Clean hash second height')
  (hleaf : ∀ leaf ∈ first, ∀ a b, Hashed hash second height' a b → leaf ≠ hash a b)
include hinj hfirst hsecond hclean hclean' hleaf

/-- A leaf of the lower tree would be an inner node of the higher one. -/
private theorem height_le_of_root_eq : height' ≤ height := by
  by_contra hlt
  obtain ⟨d, rfl⟩ : ∃ d, height' = height + (d + 1) := ⟨height' - height - 1, by omega⟩
  -- the level of the higher tree that is as high as the lower one
  have hcut : first = level hash second (d + 1) := by
    refine eq_of_root_eq ?_ hfirst hsecond.of_level hclean ?_
    · intro a b c e hab hce
      exact hinj a b c e hab hce.of_level
    · intro i hi
      rw [← level_add]
      exact hclean' _ (by omega)
  have hne : first ≠ [] := by
    intro hnil
    have hlength : (level hash first height).length = (level hash ([] : List α) height).length :=
      length_level_congr (by rw [hnil]) height
    have hempty : ∀ i, level hash ([] : List α) i = [] := fun i => by
      induction i with
      | zero => rfl
      | succ i ih => rw [level_succ]; exact ih
    rw [hfirst.top, hempty] at hlength
    exact absurd hlength (by simp)
  obtain ⟨leaf, hmem⟩ := exists_mem_of_ne_nil first hne
  have hinner := hmem
  rw [hcut, level_succ_outer, parents_eq_map_pairs, mem_map] at hinner
  obtain ⟨⟨a, b⟩, hpair, heq⟩ := hinner
  exact hleaf leaf hmem a b ⟨d, by omega, hpair⟩ heq.symm

/-- Two trees with one root have the same height when no leaf of either is an
inner node of the other. -/
theorem height_eq_of_root_eq
    (hleaf' : ∀ leaf ∈ second, ∀ a b, Hashed hash first height a b → leaf ≠ hash a b) :
    height = height' := by
  refine le_antisymm ?_ (height_le_of_root_eq hinj hfirst hsecond hclean hclean' hleaf)
  refine height_le_of_root_eq ?_ hsecond hfirst hclean' hclean hleaf'
  intro a b c d hab hcd heq
  obtain ⟨rfl, rfl⟩ := hinj c d a b hcd hab heq.symm
  exact ⟨rfl, rfl⟩

end

end Injectivity

end MerkleTree
