import Mathlib.Data.List.Chain
import Mathlib.Order.Bounds.Basic
import MarkedValues.Proofs.Net.Containment

/-!
Blocks handed out one behind the other. The block after another of whatever length begins at
the first place behind it that is a multiple of its own size; a walk from block to block that
never leaves an outer block therefore leaves no more room between its blocks than their
alignment asks for, and it gets stuck exactly where the blocks, put down in that way, would
reach beyond the outer one.
-/
namespace MarkedValues.Net

def alignUp (n size : Nat) : Nat := (n + size - 1) / size * size

section

variable {n m size : Nat}

theorem dvd_alignUp (n size : Nat) : size ∣ alignUp n size := Nat.dvd_mul_left ..

theorem le_alignUp (positive : 0 < size) : n ≤ alignUp n size := by
  have rest := Nat.mod_lt (n + size - 1) positive
  have whole := Nat.div_add_mod' (n + size - 1) size
  rw [alignUp]
  omega

theorem alignUp_le (positive : 0 < size) (le : n ≤ m) (aligned : size ∣ m) : alignUp n size ≤ m := by
  obtain ⟨k, rfl⟩ := aligned
  rw [alignUp, Nat.mul_comm size]
  refine Nat.mul_le_mul_right _ (Nat.lt_succ_iff.1 ?_)
  rw [Nat.div_lt_iff_lt_mul positive, Nat.succ_mul, Nat.mul_comm]
  omega

theorem isLeast_alignUp (positive : 0 < size) (n : Nat) :
    IsLeast {m | n ≤ m ∧ size ∣ m} (alignUp n size) :=
  ⟨⟨le_alignUp positive, dvd_alignUp n size⟩, fun _ h => alignUp_le positive h.1 h.2⟩

theorem alignUp_of_dvd (positive : 0 < size) (aligned : size ∣ n) : alignUp n size = n :=
  Nat.le_antisymm (alignUp_le positive le_rfl aligned) (le_alignUp positive)

theorem alignDown_add (positive : 0 < size) (n : Nat) :
    alignDown n size + size = alignUp (n + 1) size := by
  rw [alignUp, Nat.add_right_comm, Nat.add_sub_cancel, Nat.add_div_right n positive, Nat.succ_mul,
    alignDown]

theorem add_le_of_dvd (lt : n < m) (hn : size ∣ n) (hm : size ∣ m) : n + size ≤ m := by
  have room := Nat.le_of_dvd (Nat.sub_pos_of_lt lt) (Nat.dvd_sub hm hn)
  omega

end

namespace Block

/-- The number behind the last address. -/
def stop (p : Block) : Nat := p.network.number + p.size

section

variable (p : Block)

theorem stop_eq : p.stop = p.last.number + 1 := by
  have positive := p.size_pos
  rw [number_last, stop]
  omega

theorem number_lt_stop : p.network.number < p.stop := Nat.lt_add_of_pos_right p.size_pos

theorem stop_le_size : p.stop ≤ p.family.size := p.end_le

theorem size_dvd_stop : p.size ∣ p.stop := Nat.dvd_add p.size_dvd_number (Nat.dvd_refl _)

end

section

variable {f : Family} {l n : Nat}

theorem number_around_ofNat (inside : n < f.size) (aligned : blockSize f l ∣ n) :
    (around (.ofNat f n) l).network.number = n := by
  rw [number_around, Address.number_ofNat, Address.family_ofNat, Nat.mod_eq_of_lt inside, alignDown,
    Nat.div_mul_cancel aligned]

theorem length_around_ofNat (short : l ≤ f.width) : (around (.ofNat f n) l).length = l :=
  Nat.min_eq_left short

theorem stop_around_ofNat (inside : n < f.size) (aligned : blockSize f l ∣ n) :
    (around (.ofNat f n) l).stop = n + blockSize f l := by
  rw [stop, number_around_ofNat inside aligned, size_around]
  rfl

end

section

variable (p : Block) (l : Nat)

theorem stop_around (a : Address) :
    (around a l).stop = alignUp (a.number + 1) (blockSize a.family l) := by
  rw [stop, size_around, number_around, alignDown_add (blockSize_pos ..)]

theorem stop_around_last : (around p.last l).stop = alignUp p.stop (blockSize p.family l) := by
  rw [stop_around, stop_eq]
  rfl

theorem alignUp_stop_le : alignUp p.stop (blockSize p.family l) ≤ p.family.size := by
  rw [← stop_around_last]
  exact stop_le_size _

theorem next_eq : p.next l =
    (around (.ofNat p.family (alignUp p.stop (blockSize p.family l))) l,
      alignUp p.stop (blockSize p.family l) % p.family.size == 0) := by
  rw [next_eq_ofNat, ← stop_around_last, stop_eq]

/-- The walk goes past the end of the family when the next place is that end. -/
theorem next_wraps_iff :
    (p.next l).2 = true ↔ alignUp p.stop (blockSize p.family l) = p.family.size := by
  have positive := le_alignUp (n := p.stop) (blockSize_pos p.family l)
  have bound := p.alignUp_stop_le l
  have some := p.number_lt_stop
  rw [next_eq, beq_iff_eq]
  constructor
  · intro wraps
    rcases Nat.lt_or_eq_of_le bound with below | done
    · rw [Nat.mod_eq_of_lt below] at wraps
      omega
    · exact done
  · intro done
    rw [done, Nat.mod_self]

end

section

variable {outer p : Block} {l : Nat} (family : p.family = outer.family) (longer : outer.length ≤ l)
  (behind : outer.network.number ≤ p.stop)

include family longer behind

/-- A step stays inside the outer block exactly where the next aligned block of the length fits. -/
theorem next_inside_iff :
    ((p.next l).2 || !outer.contains (p.next l).1.first) = false ↔
      alignUp p.stop (blockSize outer.family l) + blockSize outer.family l ≤ outer.stop := by
  have aligned : blockSize outer.family l ∣ outer.stop :=
    (blockSize_dvd_blockSize longer).trans outer.size_dvd_stop
  have positive := blockSize_pos outer.family l
  have above := behind.trans (le_alignUp positive)
  have within := outer.stop_le_size
  rw [Bool.or_eq_false_iff, Bool.not_eq_false', ← Bool.not_eq_true, next_wraps_iff, next_eq, family]
  generalize place : alignUp p.stop (blockSize outer.family l) = n at above
  have multiple : blockSize outer.family l ∣ n := place ▸ dvd_alignUp ..
  constructor
  · rintro ⟨inFamily, inside⟩
    have bound : n ≤ outer.family.size := by
      have := p.alignUp_stop_le l
      rwa [family, place] at this
    have below : n < outer.family.size := Nat.lt_of_le_of_ne bound inFamily
    have held := (contains_iff.1 inside).2.2
    rw [first, number_around_ofNat below multiple] at held
    exact add_le_of_dvd (by rw [stop_eq]; omega) multiple aligned
  · intro fits
    have below : n < outer.family.size := by omega
    refine ⟨below.ne, contains_iff.2 ⟨rfl, ?_⟩⟩
    have last := outer.stop_eq
    rw [first, first, number_around_ofNat below multiple]
    omega

end

section

variable (p : Block) (l : Nat)

/-- The block in front of another ends where this one begins, and in front of the first address of
    the family comes its end. -/
theorem stop_previous : (p.previous l).stop =
    alignUp (if p.network.number = 0 then p.family.size else p.network.number)
      (blockSize p.family l) := by
  have positive := p.family.size_pos
  have inside : p.network.number < p.family.size := p.network.number_lt
  have before : (p.network.number + (p.family.size - 1)) % p.family.size + 1 =
      if p.network.number = 0 then p.family.size else p.network.number := by
    split
    · next zero => rw [zero, Nat.zero_add, Nat.mod_eq_of_lt (by omega), Nat.sub_add_cancel positive]
    · next some =>
      have around : p.network.number + (p.family.size - 1) =
          p.network.number - 1 + p.family.size := by omega
      rw [around, Nat.add_mod_right, Nat.mod_eq_of_lt (by omega), Nat.sub_add_cancel (by omega)]
  rw [previous_eq_ofNat, stop_around, Address.number_ofNat, before]
  rfl

theorem number_le_stop_previous : p.network.number ≤ (p.previous l).stop := by
  rw [stop_previous]
  refine le_trans ?_ (le_alignUp (blockSize_pos ..))
  split
  · next zero => omega
  · exact le_rfl

variable {p l}

theorem stop_previous_of_longer (longer : p.length ≤ l) : (p.previous l).stop =
    if p.network.number = 0 then p.family.size else p.network.number := by
  rw [stop_previous]
  refine alignUp_of_dvd (blockSize_pos ..) ?_
  split
  · exact blockSize_dvd_size ..
  · exact (blockSize_dvd_blockSize longer).trans p.size_dvd_number

end

end Block

/-- Blocks of these lengths inside the outer one, each at the first aligned place from the end of
    the one before on. -/
inductive Packed (outer : Block) : (start : Nat) → (lengths : List Nat) → List Block → Prop
  | nil (start : Nat) : Packed outer start [] []
  | cons {start l : Nat} {ls : List Nat} {b : Block} {bs : List Block} :
    b.family = outer.family → b.length = l → IsLeast {n | start ≤ n ∧ b.size ∣ n} b.network.number →
    b.stop ≤ outer.stop → Packed outer b.stop ls bs → Packed outer start (l :: ls) (b :: bs)

namespace Packed

variable {outer : Block} {start : Nat} {ls : List Nat} {bs : List Block}

theorem map_length (h : Packed outer start ls bs) : bs.map Block.length = ls := by
  induction h with
  | nil start => rfl
  | cons _ length _ _ _ ih => rw [List.map_cons, length, ih]

theorem length_le_width {l : Nat} (h : Packed outer start (l :: ls) bs) :
    l ≤ outer.family.width := by
  cases h with
  | @cons _ _ _ b _ family length _ _ _ =>
    have fits : b.length ≤ b.family.width := b.length_le
    rwa [length, family] at fits

theorem inside (h : Packed outer start ls bs) :
    ∀ b ∈ bs, b.family = outer.family ∧ start ≤ b.network.number ∧ b.stop ≤ outer.stop := by
  induction h with
  | nil start => simp
  | @cons start l ls b bs family _ place fits _ ih =>
    intro c hc
    rcases List.mem_cons.1 hc with rfl | later
    · exact ⟨family, place.1.1, fits⟩
    · obtain ⟨family', above, fits'⟩ := ih c later
      exact ⟨family', place.1.1.trans (b.number_lt_stop.le.trans above), fits'⟩

theorem pairwise (h : Packed outer start ls bs) :
    bs.Pairwise fun b c => b.stop ≤ c.network.number := by
  induction h with
  | nil start => exact .nil
  | cons _ _ _ _ rest ih => exact List.pairwise_cons.2 ⟨fun c hc => (rest.inside c hc).2.1, ih⟩

theorem head (h : Packed outer start ls bs) {b : Block} (hb : bs.head? = some b) :
    IsLeast {n | start ≤ n ∧ b.size ∣ n} b.network.number := by
  cases h with
  | nil start => cases hb
  | cons _ _ place _ _ =>
    cases hb
    exact place

theorem isChain (h : Packed outer start ls bs) :
    bs.IsChain fun b c => IsLeast {n | b.stop ≤ n ∧ c.size ∣ n} c.network.number := by
  induction h with
  | nil start => exact .nil
  | cons _ _ _ _ rest ih => exact List.isChain_cons.2 ⟨fun c hc => rest.head hc, ih⟩

end Packed

section

variable {outer : Block} {start l : Nat} {ls : List Nat} {bs : List Block}

/-- The first block is the one at the first aligned place, if it fits. -/
theorem packed_cons (short : l ≤ outer.family.width) :
    Packed outer start (l :: ls) bs ↔
      alignUp start (blockSize outer.family l) + blockSize outer.family l ≤ outer.stop ∧
        ∃ rest,
          bs = .around (.ofNat outer.family (alignUp start (blockSize outer.family l))) l :: rest ∧
          Packed outer (alignUp start (blockSize outer.family l) + blockSize outer.family l) ls
            rest := by
  have positive := blockSize_pos outer.family l
  have least := isLeast_alignUp positive start
  have within := outer.stop_le_size
  generalize alignUp start (blockSize outer.family l) = n at least
  have aligned := least.1.2
  constructor
  · intro packed
    cases packed with
    | @cons _ _ _ b bs family length place fits rest =>
      have size : b.size = blockSize outer.family l := by rw [Block.size, family, length]
      have first : b.network.number = n := place.unique (size ▸ least)
      have stop : b.stop = n + blockSize outer.family l := by rw [Block.stop, first, size]
      rw [stop] at fits rest
      have there : b = .around (.ofNat outer.family n) l := by
        refine Block.eq_of_parts family (length.trans (Block.length_around_ofNat short).symm) ?_
        rw [first, Block.number_around_ofNat (by omega) aligned]
      exact ⟨fits, bs, by rw [there], rest⟩
  · rintro ⟨fits, rest, rfl, packed⟩
    have below : n < outer.family.size := by omega
    have stop := Block.stop_around_ofNat below aligned
    refine .cons rfl (Block.length_around_ofNat short) ?_ (stop ▸ fits) (stop ▸ packed)
    rw [Block.size_around, Block.number_around_ofNat below aligned]
    exact least

theorem packed_iff_next {p : Block} (family : p.family = outer.family) (longer : outer.length ≤ l)
    (short : l ≤ outer.family.width) (behind : outer.network.number ≤ p.stop) :
    Packed outer p.stop (l :: ls) bs ↔
      ((p.next l).2 || !outer.contains (p.next l).1.first) = false ∧
        ∃ rest, bs = (p.next l).1 :: rest ∧ Packed outer (p.next l).1.stop ls rest := by
  rw [packed_cons short, Block.next_inside_iff family longer behind, Block.next_eq, family]
  refine and_congr_right fun fits => ?_
  have positive := blockSize_pos outer.family l
  have within := outer.stop_le_size
  rw [Block.stop_around_ofNat (by omega) (dvd_alignUp ..)]

theorem not_packed_size : ¬ Packed outer outer.family.size (l :: ls) bs := by
  intro packed
  cases packed with
  | cons family _ place _ _ => exact Nat.not_lt.2 place.1.1 (family ▸ Address.number_lt _)

/-- In front of the first block of a family is the last one. -/
theorem Block.next_previous_wraps (longer : outer.length ≤ l) (first : outer.network.number = 0) :
    ((outer.previous l).next l).2 = true := by
  have stop : (outer.previous l).stop = outer.family.size := by
    rw [stop_previous_of_longer longer, if_pos first]
  rw [next_wraps_iff, stop]
  exact alignUp_of_dvd (blockSize_pos ..) (blockSize_dvd_size ..)

/-- The walk begins with the block in front. For the first block of the family that is the last one,
    behind which nothing is left. -/
theorem packed_previous_iff {k : Nat} (longer : outer.length ≤ k) :
    Packed outer (outer.previous k).stop (l :: ls) bs ↔
      outer.network.number ≠ 0 ∧ Packed outer outer.network.number (l :: ls) bs := by
  rw [Block.stop_previous_of_longer longer]
  split
  · next zero => exact iff_of_false not_packed_size fun h => h.1 zero
  · next some => exact (and_iff_right some).symm

theorem Packed.number_of_replicate {count : Nat}
    (h : Packed outer start (List.replicate count l) bs) (aligned : blockSize outer.family l ∣ start)
    {i : Nat} {b : Block} (hb : bs[i]? = some b) :
    b.network.number = start + i * blockSize outer.family l := by
  induction count generalizing start bs i with
  | zero =>
    cases h
    cases hb
  | succ count ih =>
    cases h with
    | @cons _ _ _ c bs family length place _ rest =>
      have size : c.size = blockSize outer.family l := by rw [Block.size, family, length]
      have positive := blockSize_pos outer.family l
      have first : c.network.number = start := by
        rw [place.unique (isLeast_alignUp c.size_pos start), size, alignUp_of_dvd positive aligned]
      cases i with
      | zero =>
        cases hb
        rw [first, Nat.zero_mul, Nat.add_zero]
      | succ i =>
        have later := ih rest (by rw [← size]; exact c.size_dvd_stop) hb
        rw [later, Block.stop, first, size, Nat.succ_mul]
        omega

end

/-- The places, first and behind the last, of blocks of these sizes when each is put down at the
    first aligned place behind the one before. -/
def greedy (start : Nat) : (sizes : List Nat) → List (Nat × Nat)
  | [] => []
  | size :: sizes =>
    (alignUp start size, alignUp start size + size) :: greedy (alignUp start size + size) sizes

/-- Blocks can be packed exactly when those put down greedily stay inside the outer one. -/
theorem exists_packed_iff {outer : Block} {ls : List Nat} (short : ∀ l ∈ ls, l ≤ outer.family.width)
    {start : Nat} (behind : outer.network.number ≤ start) :
    (∃ bs, Packed outer start ls bs) ↔
      ∀ x ∈ greedy start (ls.map (blockSize outer.family)),
        outer.network.number ≤ x.1 ∧ x.2 ≤ outer.stop := by
  induction ls generalizing start with
  | nil => exact ⟨fun _ => by simp [greedy], fun _ => ⟨[], .nil start⟩⟩
  | cons l ls ih =>
    have above := behind.trans (le_alignUp (blockSize_pos outer.family l))
    have later := ih (fun k hk => short k (List.mem_cons_of_mem l hk))
      (above.trans (Nat.le_add_right _ (blockSize outer.family l)))
    rw [List.map_cons, greedy, List.forall_mem_cons, ← later]
    simp only [packed_cons (short l List.mem_cons_self), above, true_and]
    constructor
    · rintro ⟨_, fits, rest, _, packed⟩
      exact ⟨fits, rest, packed⟩
    · rintro ⟨fits, rest, packed⟩
      exact ⟨_, fits, rest, rfl, packed⟩

end MarkedValues.Net
