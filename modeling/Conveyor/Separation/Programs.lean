import Mathlib.Order.Lattice.Nat
import Conveyor.Separation.Assertions

/-!
# Programs on a heap

A program reads, writes, allocates and frees blocks.  Which allocations succeed,
and where, is up to the allocator.  A triple says that on a heap with a part as
its precondition says the program ends without misusing a pointer, turns that
part into one as its postcondition says, and leaves the rest alone.
-/

namespace Conveyor.Separation

/-- What ends the defined behaviour of a program. -/
inductive Misuse
  /-- A NULL pointer was followed. -/
  | null
  /-- A pointer to no live block, or to one of another kind, was followed or
  freed. -/
  | dangling
  /-- More was written than the block holds. -/
  | overflow
  /-- A list that should end does not. -/
  | endless
  deriving DecidableEq, Repr

/-- Where `malloc` puts a block, if anywhere: its choice may depend on the heap
and on how often it was called before. -/
structure Allocator (Cell : Type) where
  place : ℕ → Heap Cell → Ptr
  fresh : ∀ calls heap addr, place calls heap = some addr → addr ∉ heap

/-- Some allocation fails. -/
def Allocator.Fails {Cell : Type} (allocator : Allocator Cell) : Prop :=
  ∃ calls heap, allocator.place calls heap = none

/-- The allocator that always finds room behind the blocks that are live. -/
def Allocator.behind (Cell : Type) : Allocator Cell where
  place _ heap := some (heap.keys.sup id + 1)
  fresh _ heap addr haddr hmem := by
    have hle : addr ≤ heap.keys.sup id :=
      Finset.le_sup (f := id) (Finmap.mem_keys.mpr hmem)
    have heq : heap.keys.sup id + 1 = addr := Option.some.inj haddr
    exact Nat.not_succ_le_self _ (heq ▸ hle)

theorem Allocator.not_fails_behind {Cell : Type} :
    ¬ (Allocator.behind Cell).Fails := by
  rintro ⟨calls, heap, hnone⟩
  cases hnone

structure Memory (Cell : Type) where
  heap : Heap Cell
  /-- How often `malloc` was called. -/
  calls : ℕ

/-- A program that may allocate, misuse pointers and return a value. -/
abbrev Prog (Cell : Type) :=
  ReaderT (Allocator Cell) (StateT (Memory Cell) (Except Misuse))

variable {Cell Result Other : Type}

namespace Prog

def fail (misuse : Misuse) : Prog Cell Result := fun _ _ => .error misuse

def malloc (content : Cell) : Prog Cell Ptr := fun allocator memory =>
  match allocator.place memory.calls memory.heap with
  | none => .ok (none, { memory with calls := memory.calls + 1 })
  | some addr =>
      .ok (some addr,
        { heap := memory.heap.insert addr content
          calls := memory.calls + 1 })

def load (ptr : Ptr) : Prog Cell Cell := fun _ memory =>
  match ptr with
  | none => .error .null
  | some addr =>
      match memory.heap.lookup addr with
      | none => .error .dangling
      | some content => .ok (content, memory)

def store (ptr : Ptr) (content : Cell) : Prog Cell Unit := fun _ memory =>
  match ptr with
  | none => .error .null
  | some addr =>
      match memory.heap.lookup addr with
      | none => .error .dangling
      | some _ =>
          .ok ((), { memory with heap := memory.heap.insert addr content })

/-- Freeing NULL does nothing. -/
def free (ptr : Ptr) : Prog Cell Unit := fun _ memory =>
  match ptr with
  | none => .ok ((), memory)
  | some addr =>
      match memory.heap.lookup addr with
      | none => .error .dangling
      | some _ => .ok ((), { memory with heap := memory.heap.erase addr })

/-- How many blocks are live. -/
def liveBlocks : Prog Cell ℕ := fun _ memory =>
  .ok (memory.heap.keys.card, memory)

end Prog

/-- From any heap with a part as in `pre` the program ends without misuse, with
that part as in `post` and the rest as it was. -/
def Triple (allocator : Allocator Cell) (pre : Assertion Cell)
    (program : Prog Cell Result) (post : Result → Assertion Cell) : Prop :=
  ∀ (rest : Assertion Cell) (memory : Memory Cell), (pre * rest) memory.heap →
    ∃ result final, program allocator memory = .ok (result, final) ∧
      (post result * rest) final.heap

theorem Prog.bind_ok {allocator : Allocator Cell} {memory middle : Memory Cell}
    {first : Prog Cell Result} {result : Result}
    (hfirst : first allocator memory = .ok (result, middle))
    (next : Result → Prog Cell Other) :
    (first >>= next) allocator memory = next result allocator middle := by
  change Except.bind (first allocator memory) _ = _
  rw [hfirst]
  rfl

theorem Prog.bind_error {allocator : Allocator Cell} {memory : Memory Cell}
    {first : Prog Cell Result} {misuse : Misuse}
    (hfirst : first allocator memory = .error misuse)
    (next : Result → Prog Cell Other) :
    (first >>= next) allocator memory = .error misuse := by
  change Except.bind (first allocator memory) _ = _
  rw [hfirst]
  rfl

/-! ## Programs that only read -/

/-- The program leaves the memory as it was. -/
def Prog.ReadOnly (program : Prog Cell Result) : Prop :=
  ∀ allocator memory result final,
    program allocator memory = .ok (result, final) → final = memory

theorem Prog.ReadOnly.pure (value : Result) :
    (pure value : Prog Cell Result).ReadOnly := by
  rintro allocator memory result final hrun
  cases hrun
  rfl

theorem Prog.ReadOnly.fail (misuse : Misuse) :
    (Prog.fail misuse : Prog Cell Result).ReadOnly := by
  rintro allocator memory result final hrun
  cases hrun

theorem Prog.ReadOnly.load (ptr : Ptr) :
    (Prog.load ptr : Prog Cell Cell).ReadOnly := by
  intro allocator memory result final hrun
  cases ptr with
  | none => cases hrun
  | some addr =>
      unfold Prog.load at hrun
      cases hlookup : memory.heap.lookup addr with
      | none => simp [hlookup] at hrun
      | some content =>
          simp only [hlookup, Except.ok.injEq, Prod.mk.injEq] at hrun
          exact hrun.2.symm

theorem Prog.ReadOnly.liveBlocks : (Prog.liveBlocks : Prog Cell ℕ).ReadOnly := by
  rintro allocator memory result final hrun
  cases hrun
  rfl

theorem Prog.ReadOnly.bind {first : Prog Cell Result}
    {next : Result → Prog Cell Other} (hfirst : first.ReadOnly)
    (hnext : ∀ result, (next result).ReadOnly) :
    (first >>= next).ReadOnly := by
  intro allocator memory value final hrun
  cases hmiddle : first allocator memory with
  | error misuse =>
      rw [Prog.bind_error hmiddle] at hrun
      cases hrun
  | ok middle =>
      obtain ⟨result, middle⟩ := middle
      rw [Prog.bind_ok hmiddle] at hrun
      obtain rfl := hfirst _ _ _ _ hmiddle
      exact hnext result _ _ _ _ hrun

/-! ## Structural rules -/

variable {allocator : Allocator Cell} {pre pre' rest : Assertion Cell}
variable {program : Prog Cell Result} {post post' : Result → Assertion Cell}

theorem Triple.frame (htriple : Triple allocator pre program post)
    (rest : Assertion Cell) :
    Triple allocator (pre * rest) program (fun result => post result * rest) := by
  intro others memory hpre
  rw [mul_assoc] at hpre
  obtain ⟨result, final, hrun, hpost⟩ := htriple _ memory hpre
  exact ⟨result, final, hrun, by rwa [mul_assoc]⟩

theorem Triple.consequence (htriple : Triple allocator pre program post)
    (hpre : pre' ≤ pre) (hpost : ∀ result, post result ≤ post' result) :
    Triple allocator pre' program post' := by
  intro others memory hheap
  obtain ⟨result, final, hrun, hfinal⟩ :=
    htriple others memory (mul_le_mul' hpre le_rfl memory.heap hheap)
  exact ⟨result, final, hrun,
    mul_le_mul' (hpost result) le_rfl final.heap hfinal⟩

theorem Triple.weaken (htriple : Triple allocator pre program post)
    (hpost : ∀ result, post result ≤ post' result) :
    Triple allocator pre program post' :=
  htriple.consequence le_rfl hpost

/-- The factors of a precondition may be taken in any order. -/
theorem Triple.rearrange (pre' : Assertion Cell) (heq : pre = pre')
    (htriple : Triple allocator pre' program post) :
    Triple allocator pre program post :=
  heq ▸ htriple

theorem Triple.of_pure {value : Result} (hpre : pre ≤ post value) :
    Triple allocator pre (pure value) post := by
  intro others memory hheap
  exact ⟨value, memory, rfl, mul_le_mul' hpre le_rfl memory.heap hheap⟩

theorem Triple.bind {next : Result → Prog Cell Other}
    {last : Other → Assertion Cell}
    (hfirst : Triple allocator pre program post)
    (hnext : ∀ result, Triple allocator (post result) (next result) last) :
    Triple allocator pre (program >>= next) last := by
  intro others memory hheap
  obtain ⟨result, middle, hrun, hmiddle⟩ := hfirst others memory hheap
  obtain ⟨value, final, hrest, hfinal⟩ := hnext result others middle hmiddle
  exact ⟨value, final, (Prog.bind_ok hrun next).trans hrest, hfinal⟩

/-- A precondition may be split into its cases. -/
theorem Triple.of_iSup {Index : Sort*} {family : Index → Assertion Cell}
    (htriple : ∀ index, Triple allocator (family index) program post) :
    Triple allocator (⨆ index, family index) program post := by
  intro others memory hheap
  rw [Assertion.iSup_mul] at hheap
  obtain ⟨index, hindex⟩ := Assertion.iSup_apply.mp hheap
  exact htriple index others memory hindex

theorem Triple.of_iSup_mul {Index : Sort*} {family : Index → Assertion Cell}
    (htriple : ∀ index, Triple allocator (family index * rest) program post) :
    Triple allocator ((⨆ index, family index) * rest) program post := by
  rw [Assertion.iSup_mul]
  exact .of_iSup htriple

/-- A program that needs nothing and keeps nothing leaves the heap as it was. -/
theorem Triple.run_closed {returned : Result → Prop}
    (htriple : Triple allocator 1 program fun result => ⨆ _ : returned result, 1)
    (memory : Memory Cell) :
    ∃ result final, program allocator memory = .ok (result, final) ∧
      returned result ∧ final.heap = memory.heap := by
  obtain ⟨result, final, hrun, hfinal⟩ :=
    htriple (.exactly memory.heap) memory
      (Assertion.one_mul_exactly_apply.mpr rfl)
  obtain ⟨hresult, hheap⟩ := Assertion.iSup_mul_apply.mp hfinal
  exact ⟨result, final, hrun, hresult,
    Assertion.one_mul_exactly_apply.mp hheap⟩

/-- A call that needs a part of the heap, and what follows it. -/
theorem Triple.call (rest : Assertion Cell) {whole : Assertion Cell}
    {next : Result → Prog Cell Other} {last : Other → Assertion Cell}
    (hfirst : Triple allocator pre program post) (hwhole : whole = pre * rest)
    (hnext : ∀ result, Triple allocator (post result * rest) (next result) last) :
    Triple allocator whole (program >>= next) last :=
  hwhole ▸ (hfirst.frame rest).bind hnext

/-- The last call, which needs a part of the heap. -/
theorem Triple.within (rest : Assertion Cell) {whole : Assertion Cell}
    (htriple : Triple allocator pre program post) (hwhole : whole = pre * rest)
    (hpost : ∀ result, post result * rest ≤ post' result) :
    Triple allocator whole program post' :=
  hwhole ▸ (htriple.frame rest).weaken hpost

/-! ## Rules for the operations -/

open Assertion

variable {next : Result → Prog Cell Other} {last : Result → Assertion Cell}

/-- A load, and what follows it. -/
theorem Triple.load {addr : Addr} {content : Cell} (rest : Assertion Cell)
    {next : Cell → Prog Cell Result} (hpre : pre = cell addr content * rest)
    (hnext : Triple allocator pre (next content) last) :
    Triple allocator pre (Prog.load (some addr) >>= next) last := by
  intro others memory hheap
  have hcell := hheap
  rw [hpre, mul_assoc] at hcell
  obtain ⟨result, final, hrun, hfinal⟩ := hnext others memory hheap
  have hload : Prog.load (some addr) allocator memory =
      .ok (content, memory) := by
    simp only [Prog.load, (cell_mul_apply.mp hcell).1]
  exact ⟨result, final, (Prog.bind_ok hload next).trans hrun, hfinal⟩

/-- A block that is not live cannot be read. -/
theorem load_bind_dangling {memory : Memory Cell} {addr : Addr}
    (hgone : addr ∉ memory.heap) (next : Cell → Prog Cell Result) :
    (Prog.load (some addr) >>= next) allocator memory = .error .dangling := by
  refine Prog.bind_error ?_ next
  simp only [Prog.load, Finmap.lookup_eq_none.mpr hgone]

private theorem erase_insert (heap : Heap Cell) (addr : Addr) (content : Cell) :
    (heap.insert addr content).erase addr = heap.erase addr := by
  refine Finmap.ext_lookup fun other => ?_
  by_cases hother : other = addr
  · rw [hother, Finmap.lookup_erase, Finmap.lookup_erase]
  · rw [Finmap.lookup_erase_ne hother, Finmap.lookup_erase_ne hother,
      Finmap.lookup_insert_of_ne _ hother]

private theorem erase_of_notMem {heap : Heap Cell} {addr : Addr}
    (hfresh : addr ∉ heap) : heap.erase addr = heap := by
  refine Finmap.ext_lookup fun other => ?_
  by_cases hother : other = addr
  · rw [hother, Finmap.lookup_erase, Finmap.lookup_eq_none.mpr hfresh]
  · rw [Finmap.lookup_erase_ne hother]

theorem Triple.of_store {addr : Addr} {old content : Cell} :
    Triple allocator (cell addr old) (Prog.store (some addr) content)
      (fun _ => cell addr content) := by
  intro others memory hheap
  obtain ⟨hlookup, hrest⟩ := cell_mul_apply.mp hheap
  refine ⟨(), { memory with heap := memory.heap.insert addr content },
    by simp only [Prog.store, hlookup], ?_⟩
  refine cell_mul_apply.mpr ⟨Finmap.lookup_insert _, ?_⟩
  rwa [erase_insert]

theorem Triple.store {addr : Addr} {old content : Cell} (rest : Assertion Cell)
    {next : Unit → Prog Cell Result} (hpre : pre = cell addr old * rest)
    (hnext : Triple allocator (cell addr content * rest) (next ()) last) :
    Triple allocator pre (Prog.store (some addr) content >>= next) last :=
  of_store.call rest hpre fun _ => hnext

theorem Triple.of_free {addr : Addr} {content : Cell} :
    Triple allocator (cell addr content) (Prog.free (some addr))
      (fun _ => 1) := by
  intro others memory hheap
  obtain ⟨hlookup, hrest⟩ := cell_mul_apply.mp hheap
  refine ⟨(), { memory with heap := memory.heap.erase addr },
    by simp only [Prog.free, hlookup], ?_⟩
  rwa [one_mul]

theorem Triple.free {addr : Addr} {content : Cell} (rest : Assertion Cell)
    {next : Unit → Prog Cell Result} (hpre : pre = cell addr content * rest)
    (hnext : Triple allocator rest (next ()) last) :
    Triple allocator pre (Prog.free (some addr) >>= next) last :=
  of_free.call rest hpre fun _ => by rwa [one_mul]

/-- An allocation, and what follows it in both outcomes. -/
theorem Triple.malloc {content : Cell} {next : Ptr → Prog Cell Result}
    (hnone : allocator.Fails → Triple allocator pre (next none) last)
    (hsome : ∀ addr, Triple allocator (cell addr content * pre)
      (next (some addr)) last) :
    Triple allocator pre (Prog.malloc content >>= next) last := by
  intro others memory hheap
  cases hplace : allocator.place memory.calls memory.heap with
  | none =>
      obtain ⟨result, final, hrun, hfinal⟩ := hnone ⟨_, _, hplace⟩ others
        { memory with calls := memory.calls + 1 } hheap
      refine ⟨result, final, (Prog.bind_ok ?_ next).trans hrun, hfinal⟩
      simp only [Prog.malloc, hplace]
  | some addr =>
      have hcell : (cell addr content * pre * others)
          (memory.heap.insert addr content) := by
        rw [mul_assoc]
        refine cell_mul_apply.mpr ⟨Finmap.lookup_insert _, ?_⟩
        rwa [erase_insert, erase_of_notMem (allocator.fresh _ _ _ hplace)]
      obtain ⟨result, final, hrun, hfinal⟩ := hsome addr others
        ⟨memory.heap.insert addr content, memory.calls + 1⟩ hcell
      refine ⟨result, final, (Prog.bind_ok ?_ next).trans hrun, hfinal⟩
      simp only [Prog.malloc, hplace]

/-- There are at least as many live blocks as the precondition speaks of. -/
theorem Triple.liveBlocks {count : ℕ} {next : ℕ → Prog Cell Result}
    (hpre : pre ≤ atLeast count)
    (hnext : ∀ bound, count ≤ bound → Triple allocator pre (next bound) last) :
    Triple allocator pre (Prog.liveBlocks >>= next) last := by
  intro others memory hheap
  have hcount : count + 0 ≤ memory.heap.keys.card :=
    mul_le_atLeast hpre le_atLeast_zero memory.heap hheap
  exact hnext _ hcount others memory hheap

end Conveyor.Separation
