import Mathlib.Algebra.Order.Quantale
import Mathlib.Data.Finmap
import Mathlib.Order.CompletePartialOrder

/-!
# Assertions on heaps

A heap maps the addresses of the live blocks to their contents.  An assertion
is a set of heaps; the product of two assertions holds of the heaps that split
into a part for each.  Assertions form a commutative quantale: `1` is the empty
heap, suprema are existential quantifiers, and products distribute over them.
-/

namespace Conveyor.Separation

abbrev Addr := ℕ

/-- A pointer; `none` is NULL. -/
abbrev Ptr := Option Addr

/-- The live blocks and their contents. -/
abbrev Heap (Cell : Type*) := Finmap fun _ : Addr => Cell

variable {Cell : Type*}

/-- A set of heaps. -/
def Assertion (Cell : Type*) := Heap Cell → Prop

namespace Assertion

instance : CompleteLattice (Assertion Cell) :=
  inferInstanceAs (CompleteLattice (Heap Cell → Prop))

@[ext]
theorem ext {left right : Assertion Cell}
    (heq : ∀ heap, left heap ↔ right heap) : left = right :=
  funext fun heap => propext (heq heap)

theorem iSup_apply {Index : Sort*} {family : Index → Assertion Cell}
    {heap : Heap Cell} : (⨆ index, family index) heap ↔
      ∃ index, family index heap := by
  constructor
  · have hle : (⨆ index, family index) ≤ fun heap => ∃ index, family index heap :=
      iSup_le fun index _ hheap => ⟨index, hheap⟩
    exact hle heap
  · rintro ⟨index, hheap⟩
    exact le_iSup family index heap hheap

/-- The heap splits into a part for each of the two. -/
instance : Mul (Assertion Cell) where
  mul left right := fun heap => ∃ first second, left first ∧ right second ∧
    first.Disjoint second ∧ heap = first ∪ second

/-- The heap is empty. -/
instance : One (Assertion Cell) where
  one := fun heap => heap = ∅

theorem mul_apply {left right : Assertion Cell} {heap : Heap Cell} :
    (left * right) heap ↔ ∃ first second, left first ∧ right second ∧
      first.Disjoint second ∧ heap = first ∪ second := .rfl

private theorem mul_le_comm (left right : Assertion Cell) :
    left * right ≤ right * left := by
  rintro heap ⟨first, second, hleft, hright, hdisjoint, rfl⟩
  exact ⟨second, first, hright, hleft, hdisjoint.symm,
    Finmap.union_comm_of_disjoint hdisjoint⟩

private theorem mul_assoc_le (left middle right : Assertion Cell) :
    left * middle * right ≤ left * (middle * right) := by
  rintro heap ⟨-, third, ⟨first, second, hleft, hmiddle, hdisjoint, rfl⟩, hright,
    hrest, rfl⟩
  obtain ⟨hfirst, hsecond⟩ := (Finmap.disjoint_union_left _ _ _).mp hrest
  exact ⟨first, second ∪ third, hleft,
    ⟨second, third, hmiddle, hright, hsecond, rfl⟩,
    (Finmap.disjoint_union_right _ _ _).mpr ⟨hdisjoint, hfirst⟩,
    Finmap.union_assoc⟩

instance : CommMonoid (Assertion Cell) where
  mul_comm left right :=
    le_antisymm (mul_le_comm left right) (mul_le_comm right left)
  mul_assoc left middle right := by
    refine le_antisymm (mul_assoc_le left middle right) ?_
    rintro heap ⟨first, -, hleft, ⟨second, third, hmiddle, hright, hdisjoint, rfl⟩,
      hrest, rfl⟩
    obtain ⟨hsecond, hthird⟩ := (Finmap.disjoint_union_right _ _ _).mp hrest
    exact ⟨first ∪ second, third,
      ⟨first, second, hleft, hmiddle, hsecond, rfl⟩, hright,
      (Finmap.disjoint_union_left _ _ _).mpr ⟨hthird, hdisjoint⟩,
      Finmap.union_assoc.symm⟩
  one_mul assertion := by
    ext heap
    constructor
    · rintro ⟨-, second, rfl, hsecond, -, rfl⟩
      rwa [Finmap.empty_union]
    · intro hheap
      exact ⟨∅, heap, rfl, hheap, Finmap.disjoint_empty heap,
        Finmap.empty_union.symm⟩
  mul_one assertion := by
    ext heap
    constructor
    · rintro ⟨first, -, hfirst, rfl, -, rfl⟩
      rwa [Finmap.union_empty]
    · intro hheap
      exact ⟨heap, ∅, hheap, rfl, (Finmap.disjoint_empty heap).symm,
        Finmap.union_empty.symm⟩

private theorem mul_sSup_eq (assertion : Assertion Cell)
    (family : Set (Assertion Cell)) :
    assertion * sSup family = ⨆ member ∈ family, assertion * member := by
  ext heap
  simp only [iSup_apply, mul_apply, sSup_eq_iSup]
  constructor
  · rintro ⟨first, second, hfirst, ⟨member, hmember, hsecond⟩, hrest⟩
    exact ⟨member, hmember, first, second, hfirst, hsecond, hrest⟩
  · rintro ⟨member, hmember, first, second, hfirst, hsecond, hrest⟩
    exact ⟨first, second, hfirst, ⟨member, hmember, hsecond⟩, hrest⟩

instance : IsQuantale (Assertion Cell) where
  mul_sSup_distrib := mul_sSup_eq
  sSup_mul_distrib family assertion := by
    rw [mul_comm, mul_sSup_eq]
    simp only [mul_comm]

theorem iSup_mul {Index : Sort*} {family : Index → Assertion Cell}
    {assertion : Assertion Cell} : (⨆ index, family index) * assertion =
      ⨆ index, family index * assertion := by
  rw [← iSup_plift_down, Quantale.iSup_mul_distrib,
    ← iSup_plift_down (fun index => family index * assertion)]

theorem mul_iSup {Index : Sort*} {family : Index → Assertion Cell}
    {assertion : Assertion Cell} : assertion * (⨆ index, family index) =
      ⨆ index, assertion * family index := by
  rw [mul_comm, iSup_mul]
  simp only [mul_comm]

/-! ## Single blocks -/

/-- One block with this content. -/
def cell (addr : Addr) (content : Cell) : Assertion Cell :=
  fun heap => heap = Finmap.singleton addr content

/-- This heap and no other. -/
def exactly (heap : Heap Cell) : Assertion Cell := fun other => other = heap

theorem one_mul_exactly_apply {heap other : Heap Cell} :
    ((1 : Assertion Cell) * exactly heap) other ↔ other = heap := by
  rw [one_mul]
  rfl

/-- Some case of the first factor holds. -/
theorem iSup_mul_apply {Index : Sort*} {family : Index → Assertion Cell}
    {assertion : Assertion Cell} {heap : Heap Cell} :
    ((⨆ index, family index) * assertion) heap ↔
      ∃ index, (family index * assertion) heap := by
  rw [iSup_mul, iSup_apply]

theorem cell_mul_apply {addr : Addr} {content : Cell} {rest : Assertion Cell}
    {heap : Heap Cell} :
    (cell addr content * rest) heap ↔ heap.lookup addr = some content ∧
      rest (heap.erase addr) := by
  constructor
  · rintro ⟨-, second, rfl, hrest, hdisjoint, rfl⟩
    have hnone : addr ∉ second := hdisjoint addr (by simp)
    refine ⟨?_, ?_⟩
    · rw [Finmap.lookup_union_left (by simp), Finmap.lookup_singleton_eq]
    · have herase : (Finmap.singleton addr content ∪ second).erase addr =
          second := by
        refine Finmap.ext_lookup fun other => ?_
        by_cases hother : other = addr
        · rw [hother, Finmap.lookup_erase, Finmap.lookup_eq_none.mpr hnone]
        · rw [Finmap.lookup_erase_ne hother,
            Finmap.lookup_union_right (by simpa using hother)]
      rwa [herase]
  · rintro ⟨hlookup, hrest⟩
    refine ⟨_, _, rfl, hrest, ?_, ?_⟩
    · intro other hother
      obtain rfl := (Finmap.mem_singleton _ _ _).mp hother
      exact Finmap.notMem_erase_self
    · have hdisjoint : (heap.erase addr).Disjoint
          (Finmap.singleton addr content) := by
        intro other hother hmem
        obtain rfl := (Finmap.mem_singleton _ _ _).mp hmem
        exact Finmap.notMem_erase_self hother
      rw [← Finmap.union_comm_of_disjoint hdisjoint]
      exact (Finmap.erase_union_singleton _ _ _ hlookup).symm

/-! ## Counting blocks -/

/-- There are this many blocks or more. -/
def atLeast (count : ℕ) : Assertion Cell := fun heap => count ≤ heap.keys.card

private theorem card_union {first second : Heap Cell}
    (hdisjoint : first.Disjoint second) :
    (first ∪ second).keys.card = first.keys.card + second.keys.card := by
  rw [Finmap.keys_union, Finset.card_union_of_disjoint]
  refine Finset.disjoint_left.mpr fun addr hfirst hsecond => ?_
  exact hdisjoint addr (Finmap.mem_keys.mp hfirst) (Finmap.mem_keys.mp hsecond)

theorem mul_le_atLeast {left right : Assertion Cell} {fewer more : ℕ}
    (hleft : left ≤ atLeast fewer) (hright : right ≤ atLeast more) :
    left * right ≤ atLeast (fewer + more) := by
  rintro heap ⟨first, second, hfirst, hsecond, hdisjoint, rfl⟩
  have hfewer : fewer ≤ first.keys.card := hleft first hfirst
  have hmore : more ≤ second.keys.card := hright second hsecond
  change _ ≤ (first ∪ second).keys.card
  rw [card_union hdisjoint]
  omega

theorem le_atLeast_zero {assertion : Assertion Cell} :
    assertion ≤ atLeast 0 := fun _ _ => Nat.zero_le _

theorem cell_le_atLeast {addr : Addr} {content : Cell} :
    cell addr content ≤ atLeast 1 := by
  rintro heap rfl
  change 1 ≤ (Finmap.singleton addr content).keys.card
  rw [Finmap.keys_singleton, Finset.card_singleton]

end Assertion

end Conveyor.Separation
