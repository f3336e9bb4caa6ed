import Mathlib.Data.Nat.Bitwise
import Mathlib.Data.Fintype.Basic
import Mathlib.Tactic

/-!
# Skip pointers of the block index

An entry of the block index points to its parent and, once `BuildSkip` was called for it,
to an ancestor further back.  `GetAncestor` follows whichever of the two pointers is
better, and `BuildSkip` calls `GetAncestor` for the parent.

The circle is broken by an invariant that needs no order of the calls: a skip pointer that
is set leads to the ancestor at the height that `GetSkipHeight` names.  Under it
`GetAncestor` is right, whatever pointers it prefers, and so `BuildSkip` keeps it.
-/

namespace Patchcoin

/-- `InvertLowestOne`. -/
def invertLowestOne (n : ℕ) : ℕ := n &&& (n - 1)

/-- `GetSkipHeight`. -/
def getSkipHeight (height : ℕ) : ℕ :=
  if height < 2 then 0
  else if height % 2 = 1 then invertLowestOne (invertLowestOne (height - 1)) + 1
  else invertLowestOne height

theorem invertLowestOne_le (n : ℕ) : invertLowestOne n ≤ n - 1 := Nat.and_le_right

theorem getSkipHeight_lt {height : ℕ} (h : 0 < height) : getSkipHeight height < height := by
  have hone := invertLowestOne_le height
  have htwo := invertLowestOne_le (height - 1)
  have hthree := invertLowestOne_le (invertLowestOne (height - 1))
  unfold getSkipHeight
  split_ifs <;> omega

/-- The entries of a block index, with their pointers. -/
structure SkipIndex (α : Type*) where
  nHeight : α → ℕ
  pprev : α → Option α
  pskip : α → Option α
  /-- an entry is one higher than its parent -/
  height : ∀ p, nHeight p = ((pprev p).map fun q => nHeight q + 1).getD 0

namespace SkipIndex

variable {α : Type*} (index : SkipIndex α)

/-! ## The functions -/

/-- The loop of `GetAncestor`; `none` where its assertion fails. -/
def walkTo (height : ℕ) : ℕ → α → ℕ → Option α
  | 0, pindexWalk, heightWalk => if height < heightWalk then none else some pindexWalk
  | fuel + 1, pindexWalk, heightWalk =>
    if height < heightWalk then
      let heightSkip := getSkipHeight heightWalk
      let heightSkipPrev := getSkipHeight (heightWalk - 1)
      let follows := heightSkip = height ∨
        height < heightSkip ∧ ¬(heightSkipPrev + 2 < heightSkip ∧ height ≤ heightSkipPrev)
      match index.pskip pindexWalk, index.pprev pindexWalk with
      | some skip, prev =>
        if follows then walkTo height fuel skip heightSkip
        else prev.bind fun prev => walkTo height fuel prev (heightWalk - 1)
      | none, prev => prev.bind fun prev => walkTo height fuel prev (heightWalk - 1)
    else some pindexWalk

def getAncestor (p : α) (height : ℤ) : Option α :=
  if height < 0 ∨ (index.nHeight p : ℤ) < height then none
  else index.walkTo height.toNat (index.nHeight p) p (index.nHeight p)

section

variable [DecidableEq α]

def buildSkip (p : α) : SkipIndex α :=
  match index.pprev p with
  | none => index
  | some prev => { index with
      pskip := Function.update index.pskip p
        (index.getAncestor prev (getSkipHeight (index.nHeight p))) }

/-- The loop of `LastCommonAncestor`; `none` where its assertion fails. -/
def meet : ℕ → Option α → Option α → Option α
  | 0, _, _ => none
  | fuel + 1, pa, pb =>
    match pa, pb with
    | some a, some b => if a = b then some a else meet fuel (index.pprev a) (index.pprev b)
    | _, _ => none

def lastCommonAncestor (pa pb : α) : Option α :=
  let ha := index.nHeight pa
  let hb := index.nHeight pb
  index.meet (min ha hb + 1) (if hb < ha then index.getAncestor pa hb else some pa)
    (if ha < hb then index.getAncestor pb ha else some pb)

end

/-! ## Ancestors -/

/-- The entry reached by following `pprev` so many times. -/
def up : ℕ → α → Option α
  | 0, p => some p
  | k + 1, p => (index.pprev p).bind (up k)

/-- Skip pointers lead to the ancestors at their heights. -/
def Sound : Prop :=
  ∀ p skip, index.pskip p = some skip →
    index.up (index.nHeight p - getSkipHeight (index.nHeight p)) p = some skip

variable {index} {p q : α} {k : ℕ}

theorem nHeight_of_pprev (h : index.pprev p = some q) : index.nHeight p = index.nHeight q + 1 := by
  rw [index.height, h]
  rfl

theorem up_add (j k : ℕ) (p : α) : index.up (j + k) p = (index.up j p).bind (index.up k) := by
  induction j generalizing p with
  | zero => rw [Nat.zero_add, up, Option.bind_some]
  | succ j ih =>
    rw [Nat.add_right_comm, up, up, Option.bind_assoc]
    exact congrArg _ (funext ih)

theorem nHeight_of_up (h : index.up k p = some q) : index.nHeight q + k = index.nHeight p := by
  induction k generalizing p with
  | zero =>
    cases h
    rfl
  | succ k ih =>
    obtain ⟨prev, hprev, hup⟩ := Option.bind_eq_some_iff.mp h
    rw [nHeight_of_pprev hprev, ← ih hup]
    rfl

theorem exists_up (h : k ≤ index.nHeight p) : ∃ q, index.up k p = some q := by
  induction k generalizing p with
  | zero => exact ⟨p, rfl⟩
  | succ k ih =>
    cases hprev : index.pprev p with
    | none =>
      rw [index.height, hprev] at h
      cases h
    | some prev =>
      rw [nHeight_of_pprev hprev] at h
      obtain ⟨q, hq⟩ := @ih prev (by omega)
      exact ⟨q, by rw [up, hprev]; exact hq⟩

/-! ## The walk -/

theorem walkTo_eq (hsound : index.Sound) {height fuel : ℕ} (hle : height ≤ index.nHeight p)
    (hfuel : index.nHeight p ≤ height + fuel) :
    index.walkTo height fuel p (index.nHeight p) = index.up (index.nHeight p - height) p := by
  induction fuel generalizing p with
  | zero =>
    rw [walkTo, if_neg (by omega), show index.nHeight p - height = 0 by omega]
    rfl
  | succ fuel ih =>
    rw [walkTo]
    split_ifs with hlt
    · -- the parent is one step further up
      have hprev : ((index.pprev p).bind fun prev =>
          index.walkTo height fuel prev (index.nHeight p - 1)) =
          index.up (index.nHeight p - height) p := by
        rw [show index.nHeight p - height = index.nHeight p - 1 - height + 1 by omega, up]
        cases hp : index.pprev p with
        | none => rfl
        | some prev =>
          have hheight := nHeight_of_pprev hp
          rw [Option.bind_some, Option.bind_some, hheight, Nat.add_sub_cancel,
            ih (by omega) (by omega)]
      dsimp only
      split
      · next skip hskip =>
        split_ifs with hfollows
        · have hup := hsound p skip hskip
          have hheight := nHeight_of_up hup
          have hlower := getSkipHeight_lt (show 0 < index.nHeight p by omega)
          have hskipHeight : index.nHeight skip = getSkipHeight (index.nHeight p) := by omega
          rw [← hskipHeight] at hfollows hup ⊢
          rw [ih (by omega) (by omega), show index.nHeight p - height =
            index.nHeight p - index.nHeight skip + (index.nHeight skip - height) by omega, up_add,
            hup, Option.bind_some]
        · exact hprev
      · exact hprev
    · rw [show index.nHeight p - height = 0 by omega]
      rfl

theorem getAncestor_eq (hsound : index.Sound) (p : α) (height : ℤ) :
    index.getAncestor p height = if 0 ≤ height ∧ height ≤ index.nHeight p then
      index.up (index.nHeight p - height.toNat) p else none := by
  unfold getAncestor
  by_cases hrange : 0 ≤ height ∧ height ≤ index.nHeight p
  · rw [if_neg (by omega), if_pos hrange, walkTo_eq hsound (by omega) (by omega)]
  · rw [if_pos (by omega), if_neg hrange]

/-- Chains of parents do not depend on skip pointers. -/
theorem up_congr {index' : SkipIndex α} (h : index'.pprev = index.pprev) (k : ℕ) (q : α) :
    index'.up k q = index.up k q := by
  induction k generalizing q with
  | zero => rfl
  | succ k ih =>
    rw [up, up, h]
    exact congrArg _ (funext ih)

section

variable [DecidableEq α]

theorem buildSkip_fields (index : SkipIndex α) (p : α) :
    (index.buildSkip p).pprev = index.pprev ∧ (index.buildSkip p).nHeight = index.nHeight := by
  unfold buildSkip
  split
  · exact ⟨rfl, rfl⟩
  · exact ⟨rfl, rfl⟩

theorem Sound.buildSkip (hsound : index.Sound) (p : α) : (index.buildSkip p).Sound := by
  intro q skip hskip
  rw [up_congr (buildSkip_fields index p).1, (buildSkip_fields index p).2]
  unfold SkipIndex.buildSkip at hskip
  split at hskip
  · exact hsound q skip hskip
  · next prev hprev =>
    dsimp only at hskip
    by_cases hq : q = p
    · subst hq
      have hheight := nHeight_of_pprev hprev
      have hlower := getSkipHeight_lt (show 0 < index.nHeight q by omega)
      rw [Function.update_self, getAncestor_eq hsound, if_pos (by omega),
        Int.toNat_natCast] at hskip
      rw [show index.nHeight q - getSkipHeight (index.nHeight q) =
        index.nHeight prev - getSkipHeight (index.nHeight q) + 1 by omega, up, hprev]
      exact hskip
    · exact hsound q skip (by rwa [Function.update_of_ne hq] at hskip)

/-- The entries after calls of `BuildSkip`. -/
def built (index : SkipIndex α) (calls : List α) : SkipIndex α :=
  calls.foldl (fun index p => index.buildSkip p) index

theorem sound_built (hnull : ∀ p, index.pskip p = none) (calls : List α) :
    (index.built calls).Sound := by
  have hstart : index.Sound := fun p skip hskip => by
    rw [hnull] at hskip
    cases hskip
  clear hnull
  induction calls generalizing index with
  | nil => exact hstart
  | cons p rest ih => exact ih (hstart.buildSkip p)

end

/-! ## Common ancestors -/

/-- One entry is an ancestor of another, or the same. -/
def IsAncestor (index : SkipIndex α) (q p : α) : Prop := ∃ k, index.up k p = some q

/-- The highest common ancestor. -/
structure HighestCommon (index : SkipIndex α) (a b c : α) : Prop where
  first : index.IsAncestor c a
  second : index.IsAncestor c b
  highest : ∀ d, index.IsAncestor d a → index.IsAncestor d b → index.IsAncestor d c

/-- Ancestors that are not above a given ancestor are its ancestors. -/
theorem IsAncestor.of_up {d : α} (hq : index.up k p = some q) (hd : index.IsAncestor d p)
    (hle : index.nHeight d ≤ index.nHeight q) : index.IsAncestor d q := by
  obtain ⟨j, hj⟩ := hd
  have hheight := nHeight_of_up hq
  have hheight' := nHeight_of_up hj
  refine ⟨j - k, ?_⟩
  rw [show j = k + (j - k) by omega, up_add, hq] at hj
  exact hj

theorem IsAncestor.trans_up {d : α} (h : index.IsAncestor d q) (hq : index.up k p = some q) :
    index.IsAncestor d p := by
  obtain ⟨j, hj⟩ := h
  exact ⟨k + j, by rw [up_add, hq]; exact hj⟩

/-- Of two different entries of one height neither is an ancestor of the other. -/
theorem IsAncestor.eq_or_lt (h : index.IsAncestor q p) :
    q = p ∨ index.nHeight q < index.nHeight p := by
  obtain ⟨k, hk⟩ := h
  have hheight := nHeight_of_up hk
  cases k with
  | zero =>
    cases hk
    exact .inl rfl
  | succ k => exact .inr (by omega)

theorem IsAncestor.nHeight_le (h : index.IsAncestor q p) : index.nHeight q ≤ index.nHeight p := by
  rcases h.eq_or_lt with rfl | hlt
  · rfl
  · exact hlt.le

section

variable [DecidableEq α] {a b : α}

section

variable (hroot : ∀ p q, index.pprev p = none → index.pprev q = none → p = q)
include hroot

/-- Entries of one height meet at their highest common ancestor. -/
theorem meet_eq {n : ℕ} (ha : index.nHeight a = n) (hb : index.nHeight b = n) :
    ∃ c, index.meet (n + 1) (some a) (some b) = some c ∧ index.HighestCommon a b c := by
  induction n generalizing a b with
  | zero =>
    have hnone (p : α) (hp : index.nHeight p = 0) : index.pprev p = none := by
      cases hprev : index.pprev p with
      | none => rfl
      | some q =>
        rw [nHeight_of_pprev hprev] at hp
        cases hp
    obtain rfl := hroot a b (hnone a ha) (hnone b hb)
    exact ⟨a, if_pos rfl, ⟨0, rfl⟩, ⟨0, rfl⟩, fun _ h _ => h⟩
  | succ n ih =>
    rw [meet]
    by_cases hab : a = b
    · subst hab
      exact ⟨a, if_pos rfl, ⟨0, rfl⟩, ⟨0, rfl⟩, fun _ h _ => h⟩
    · have hparent (p : α) (hp : index.nHeight p = n + 1) :
          ∃ q, index.pprev p = some q ∧ index.up 1 p = some q ∧ index.nHeight q = n := by
        obtain ⟨q, hq⟩ := @exists_up α index p 1 (by omega)
        have hheight := nHeight_of_up hq
        obtain ⟨prev, hprev, hsame⟩ := Option.bind_eq_some_iff.mp hq
        cases hsame
        exact ⟨q, hprev, hq, by omega⟩
      obtain ⟨a', hprev, hup, ha'⟩ := hparent a ha
      obtain ⟨b', hprev', hup', hb'⟩ := hparent b hb
      obtain ⟨c, hmeet, ⟨j, hj⟩, ⟨k, hk⟩, hhighest⟩ := ih ha' hb'
      refine ⟨c, ?_, ⟨j + 1, ?_⟩, ⟨k + 1, ?_⟩, fun d hd hd' => ?_⟩
      · rw [if_neg hab, hprev, hprev']
        exact hmeet
      · rw [up, hprev]
        exact hj
      · rw [up, hprev']
        exact hk
      · -- an ancestor of both is none of them
        have hlower : index.nHeight d ≤ n := by
          rcases hd.eq_or_lt with rfl | hlt
          · rcases hd'.eq_or_lt with rfl | hlt
            · exact absurd rfl hab
            · omega
          · omega
        exact hhighest d (hd.of_up hup (by omega)) (hd'.of_up hup' (by omega))

theorem lastCommonAncestor_eq (hsound : index.Sound) (a b : α) :
    ∃ c, index.lastCommonAncestor a b = some c ∧ index.HighestCommon a b c := by
  -- the higher entry is replaced by its ancestor at the height of the other
  have hlevel (p q : α) : ∃ p', (if index.nHeight q < index.nHeight p then
        index.getAncestor p (index.nHeight q) else some p) = some p' ∧
      index.up (index.nHeight p - index.nHeight q) p = some p' := by
    obtain ⟨p', hp'⟩ := @exists_up α index p (index.nHeight p - index.nHeight q) (by omega)
    refine ⟨p', ?_, hp'⟩
    split_ifs with hlt
    · rw [getAncestor_eq hsound, if_pos (by omega), Int.toNat_natCast]
      exact hp'
    · rwa [show index.nHeight p - index.nHeight q = 0 by omega] at hp'
  obtain ⟨a', ha', hup⟩ := hlevel a b
  obtain ⟨b', hb', hup'⟩ := hlevel b a
  have hheight := nHeight_of_up hup
  have hheight' := nHeight_of_up hup'
  obtain ⟨c, hmeet, hfirst, hsecond, hhighest⟩ := @meet_eq α index _ a' b' hroot
    (min (index.nHeight a) (index.nHeight b)) (by omega) (by omega)
  refine ⟨c, ?_, hfirst.trans_up hup, hsecond.trans_up hup', fun d hd hd' => ?_⟩
  · rw [lastCommonAncestor, ha', hb']
    exact hmeet
  · have hlow := hd.nHeight_le
    have hlow' := hd'.nHeight_le
    exact hhighest d (hd.of_up hup (by omega)) (hd'.of_up hup' (by omega))

end

/-- Skip pointers that `BuildSkip` has set, in whatever order, lead `GetAncestor` to the
ancestor at the height, and `LastCommonAncestor` finds the highest common one. -/
theorem skip_ancestors (hnull : ∀ p, index.pskip p = none) (calls : List α) :
    (∀ (p : α) (height : ℤ), (index.built calls).getAncestor p height =
      if 0 ≤ height ∧ height ≤ (index.built calls).nHeight p then
        (index.built calls).up ((index.built calls).nHeight p - height.toNat) p else none) ∧
    ((∀ p q, (index.built calls).pprev p = none → (index.built calls).pprev q = none → p = q) →
      ∀ a b, ∃ c, (index.built calls).lastCommonAncestor a b = some c ∧
        (index.built calls).HighestCommon a b c) :=
  ⟨getAncestor_eq (sound_built hnull calls),
    fun hroot => lastCommonAncestor_eq hroot (sound_built hnull calls)⟩

end

/-- Three blocks in a row and a branch at the second. -/
def branch : SkipIndex (Fin 4) where
  nHeight p := if p = 3 then 2 else p
  pprev p := if p = 0 then none else if p = 3 then some 1 else some (p - 1)
  pskip _ := none
  height := by decide

theorem branch_ancestors : (branch.built [0, 1, 2, 3]).getAncestor 3 1 = some 1 ∧
      ∃ c, (branch.built [0, 1, 2, 3]).lastCommonAncestor 2 3 = some c ∧
        (branch.built [0, 1, 2, 3]).HighestCommon 2 3 c :=
  ⟨(skip_ancestors (fun _ => rfl) [0, 1, 2, 3]).1 3 1,
    (skip_ancestors (fun _ => rfl) [0, 1, 2, 3]).2 (by decide) 2 3⟩

end SkipIndex

end Patchcoin
