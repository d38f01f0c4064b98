import Mathlib.Data.List.TakeWhile
import MarkedValues.Net.Block

/-!
What reading an address passes over. Neither notation of an address has a slash in it, and a block
is not written without one, so no text is both.
-/
namespace MarkedValues.Net

def Behind (cs rest : List Char) : Prop := ∃ passed, '/' ∉ passed ∧ passed ++ rest = cs

namespace Behind

variable {cs ds rest : List Char}

theorem refl (cs : List Char) : Behind cs cs := ⟨[], List.not_mem_nil, rfl⟩

theorem trans (h : Behind cs ds) (g : Behind ds rest) : Behind cs rest := by
  obtain ⟨front, hf, rfl⟩ := h
  obtain ⟨back, hb, rfl⟩ := g
  exact ⟨front ++ back, by simp [hf, hb], List.append_assoc ..⟩

theorem cons {c : Char} (other : c ≠ '/') : Behind (c :: cs) cs :=
  ⟨[c], fun mem => other (List.mem_singleton.1 mem).symm, rfl⟩

theorem dropWhile {p : Char → Bool} (other : p '/' = false) : Behind cs (cs.dropWhile p) := by
  refine ⟨cs.takeWhile p, fun mem => ?_, List.takeWhile_append_dropWhile⟩
  have passed := List.mem_takeWhile_imp mem
  rw [other] at passed
  cases passed

theorem not_mem (h : Behind cs []) : '/' ∉ cs := by
  obtain ⟨passed, free, rfl⟩ := h
  rwa [List.append_nil]

end Behind

section

variable {cs rest : List Char} {n : Nat}

theorem behind_readPart (h : readPart cs = some (n, rest)) : Behind cs rest := by
  simp only [readPart] at h
  split at h
  · cases h
  · split at h
    · cases h
    · cases h
      exact .dropWhile rfl

theorem behind_readGroup (h : readGroup cs = some (n, rest)) : Behind cs rest := by
  simp only [readGroup] at h
  split at h
  · cases h
  · cases h
    exact .dropWhile rfl

theorem behind_readChar {c : Char} (other : c ≠ '/') (h : readChar c cs = some rest) :
    Behind cs rest := by
  cases cs with
  | nil => cases h
  | cons d ds =>
    rw [readChar] at h
    split at h
    · next same =>
      cases h
      exact .cons (same ▸ other)
    · cases h

theorem behind_dotPart {ds : List Char} (dot : readChar '.' cs = some ds)
    (part : readPart ds = some (n, rest)) : Behind cs rest :=
  (behind_readChar (by decide) dot).trans (behind_readPart part)

theorem behind_readV4 (h : readV4 cs = some (n, rest)) : Behind cs rest := by
  simp only [readV4, bind, Option.bind_eq_some_iff] at h
  obtain ⟨a, ha, ds, hds, b, hb, es, hes, c, hc, fs, hfs, d, hd, eq⟩ := h
  cases eq
  refine (behind_readPart ha).trans ((behind_dotPart hds hb).trans ?_)
  exact (behind_dotPart hes hc).trans (behind_dotPart hfs hd)

end

theorem behind_readGroups (first : Bool) (limit : Nat) (cs : List Char) :
    Behind cs (readGroups first limit cs).2.2 := by
  induction limit generalizing first cs with
  | zero => exact .refl cs
  | succ limit ih =>
    have start : ∀ ds, (if first then some cs else readChar ':' cs) = some ds → Behind cs ds := by
      intro ds h
      split at h
      · cases h
        exact .refl cs
      · exact behind_readChar (by decide) h
    rw [readGroups]
    split
    · next n rest read =>
      split at read
      · cases read
      · obtain ⟨ds, hds, read⟩ := Option.bind_eq_some_iff.1 read
        exact (start ds hds).trans (behind_readV4 read)
    · split
      · next g rest read =>
        obtain ⟨ds, hds, read⟩ := Option.bind_eq_some_iff.1 read
        exact ((start ds hds).trans (behind_readGroup read)).trans (ih false rest)
      · exact .refl cs

theorem behind_readV6 {cs rest : List Char} {n : Nat} (h : readV6 cs = some (n, rest)) :
    Behind cs rest := by
  have front := behind_readGroups true 8 cs
  unfold readV6 at h
  generalize readGroups true 8 cs = groups at h front
  obtain ⟨gs, embedded, ds⟩ := groups
  simp only at h front
  split at h
  · cases h
    exact front
  · split at h
    · cases h
    · split at h
      · next tail =>
        cases h
        refine front.trans ((Behind.cons (by decide)).trans ((Behind.cons (by decide)).trans ?_))
        exact behind_readGroups ..
      · cases h

theorem slash_not_mem_of_address {cs : List Char} {a : Address}
    (h : Address.ofText? cs = some a) : '/' ∉ cs := by
  unfold Address.ofText? at h
  split at h
  · next n rest read =>
    split at h
    · next done =>
      rw [List.isEmpty_iff] at done
      exact (done ▸ behind_readV4 read).not_mem
    · cases h
  · split at h
    · next n rest read =>
      split at h
      · next done =>
        rw [List.isEmpty_iff] at done
        exact (done ▸ behind_readV6 read).not_mem
      · cases h
    · cases h

theorem slash_mem_of_block {cs : List Char} {p : Block} (h : Block.ofText? cs = some p) :
    '/' ∈ cs := by
  by_contra absent
  have all : cs.dropWhile (· != '/') = [] := by
    refine List.dropWhile_eq_nil_iff.2 fun c hc => bne_iff_ne.2 fun same => ?_
    exact absent (same ▸ hc)
  rw [Block.ofText?, all] at h
  cases h

theorem address_of_block {cs : List Char} {p : Block} (h : Block.ofText? cs = some p) :
    Address.ofText? cs = none := by
  cases read : Address.ofText? cs with
  | none => rfl
  | some a => exact absurd (slash_mem_of_block h) (slash_not_mem_of_address read)

end MarkedValues.Net
