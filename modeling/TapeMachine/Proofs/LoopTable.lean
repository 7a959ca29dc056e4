import Mathlib.Data.List.Induction
import TapeMachine.Proofs.OpenLoops

/-!
# The loop table

The table sends a loop start to the loop end that is met while that start is the innermost open
loop.  From this the loops open in front of an address can be read off the finished table: they are
the loops that start before the address and end at it or behind it.
-/

namespace TapeMachine

namespace LoopScan

theorem getElem?_jumps_push {s : LoopScan} (h : ∀ start ∈ s.waiting, start < s.jumps.size)
    (i : Instruction) (start e : Nat) :
    (s.push i).jumps[start]? = some (some e) ↔
      if i = .loopEnd ∧ s.waiting.head? = some start then e = s.jumps.size
      else s.jumps[start]? = some (some e) := by
  obtain ⟨waiting, jumps⟩ := s
  have hpush : (jumps.push none)[start]? = some (some e) ↔ jumps[start]? = some (some e) := by
    rw [Array.getElem?_push]
    split
    · next heq => simp [heq]
    · rfl
  cases i with
  | loopEnd =>
      cases waiting with
      | nil => simpa [push] using hpush
      | cons top outer =>
          have htop : top < jumps.size := h top List.mem_cons_self
          by_cases heq : top = start
          · subst heq
            have hsize : top < (jumps.push none).size := by
              rw [Array.size_push]
              exact htop.trans (Nat.lt_succ_self _)
            simp [push, Array.getElem?_setIfInBounds_self_of_lt hsize, eq_comm]
          · simpa [push, Array.getElem?_setIfInBounds_ne heq, heq] using hpush
  | _ => simpa [push] using hpush

theorem notMem_openAt_succ {code : List Instruction} {e start : Nat}
    (he : code[e]? = some .loopEnd) (hstart : (openAt code e).head? = some start) :
    start ∉ openAt code (e + 1) := by
  obtain ⟨outer, hopen⟩ := List.head?_eq_some_iff.1 hstart
  rw [openAt_succ he, hopen]
  exact notMem_of_openAt_eq_cons hopen

theorem getElem?_jumps_ofCode {code : List Instruction} {start e : Nat} :
    (ofCode code).jumps[start]? = some (some e) ↔
      code[e]? = some .loopEnd ∧ (openAt code e).head? = some start := by
  induction code using List.reverseRecOn generalizing start e with
  | nil => simp [ofCode]
  | append_singleton code i ih =>
      have hbound : ∀ start ∈ (ofCode code).waiting, start < (ofCode code).jumps.size := by
        rw [← openAt_length, size_jumps_ofCode]
        exact fun start h => (mem_openAt h).1
      -- The new instruction can only add the pair that ends with itself.
      have hsplit : ((code ++ [i])[e]? = some .loopEnd ∧
            (openAt (code ++ [i]) e).head? = some start) ↔
          (e < code.length ∧ code[e]? = some .loopEnd ∧ (openAt code e).head? = some start) ∨
            (e = code.length ∧ i = .loopEnd ∧
              (openAt code code.length).head? = some start) := by
        rcases lt_trichotomy e code.length with hlt | rfl | hgt
        · simp [List.getElem?_append_left hlt, openAt_append [i] hlt.le, hlt, hlt.ne]
        · simp [openAt_append [i] le_rfl]
        · have hnone : (code ++ [i])[e]? = none := by
            rw [List.getElem?_eq_none_iff, List.length_append, List.length_singleton]
            exact hgt
          simp [hnone, hgt.not_gt, hgt.ne']
      rw [hsplit, ofCode_concat, getElem?_jumps_push hbound, size_jumps_ofCode, ← openAt_length]
      split
      · next hclose =>
          constructor
          · rintro rfl
            exact .inr ⟨rfl, hclose⟩
          · rintro (⟨hlt, he, hstart⟩ | ⟨rfl, -⟩)
            · have hmem := List.mem_of_mem_head? hclose.2
              have hbefore := (mem_openAt (List.mem_of_mem_head? hstart)).1
              exact absurd (mem_openAt_of_le hmem (hbefore.trans (Nat.lt_succ_self e)) hlt)
                (notMem_openAt_succ he hstart)
            · rfl
      · next hclose =>
          rw [ih]
          constructor
          · intro h
            exact .inl ⟨(List.getElem?_eq_some_iff.1 h.1).1, h⟩
          · rintro (⟨-, h⟩ | ⟨-, h⟩)
            · exact h
            · exact absurd h hclose

end LoopScan

namespace Program

open LoopScan

/-- The program is what reading its own instructions gives: its table is the table of its code and
every loop start has a partner. -/
def Paired (p : Program) : Prop :=
  ofCode p.code.toList = .ok p

theorem ofCode_eq_ok_iff {code : List Instruction} {p : Program} :
    ofCode code = .ok p ↔
      p.code.toList = code ∧ p.jumps = (LoopScan.ofCode code).jumps ∧
        (LoopScan.ofCode code).waiting = [] := by
  obtain ⟨pcode, pjumps, hsize⟩ := p
  simp only [ofCode]
  split
  · next address h =>
      have hne : (LoopScan.ofCode code).waiting ≠ [] := by
        rintro hnil
        simp [hnil] at h
      simp [hne]
  · next h =>
      rw [List.getLast?_eq_none_iff] at h
      simp only [Except.ok.injEq, mk.injEq, h, and_true]
      constructor
      · rintro ⟨rfl, rfl⟩
        exact ⟨rfl, rfl⟩
      · rintro ⟨rfl, rfl⟩
        exact ⟨rfl, rfl⟩

theorem ofCode_eq_error_iff {code : List Instruction} {fault : Fault} :
    ofCode code = .error fault ↔
      ∃ address, (openAt code code.length).getLast? = some address ∧
        fault = .unmatchedLoopStart address := by
  rw [openAt_length]
  simp only [ofCode]
  split
  · next address h => simp [h, eq_comm]
  · next h => simp [h]

theorem exists_parse_iff (source : String) :
    (∃ p, parse source = .ok p) ↔
      (LoopScan.ofCode (Instruction.ofSource source)).waiting = [] := by
  constructor
  · rintro ⟨p, hparse⟩
    exact (ofCode_eq_ok_iff.1 hparse).2.2
  · intro hnil
    cases hparse : parse source with
    | ok p => exact ⟨p, rfl⟩
    | error fault =>
        obtain ⟨address, hlast, -⟩ := ofCode_eq_error_iff.1 hparse
        rw [openAt_length, hnil] at hlast
        contradiction

theorem toList_code_of_parse {source : String} {p : Program} (h : parse source = .ok p) :
    p.code.toList = Instruction.ofSource source :=
  (ofCode_eq_ok_iff.1 h).1

theorem paired_of_parse {source : String} {p : Program} (h : parse source = .ok p) : p.Paired := by
  have hcode := toList_code_of_parse h
  rw [Paired, hcode]
  exact h

theorem Paired.openAt_size {p : Program} (hp : p.Paired) : openAt p.code.toList p.size = [] := by
  rw [size, ← Array.length_toList, openAt_length]
  exact (ofCode_eq_ok_iff.1 hp).2.2

/-- The partner of a loop start is the loop end that is met while it is the innermost open loop. -/
theorem Paired.jumpTarget?_eq_some_iff {p : Program} (hp : p.Paired) {start e : Nat} :
    p.jumpTarget? start = some e ↔
      p.code[e]? = some .loopEnd ∧ (openAt p.code.toList e).head? = some start := by
  rw [jumpTarget?, Option.join_eq_some_iff, (ofCode_eq_ok_iff.1 hp).2.1, getElem?_jumps_ofCode,
    Array.getElem?_toList]

/-- Each open loop has a partner, and it lies ahead. -/
theorem Paired.mem_openAt_iff {p : Program} (hp : p.Paired) {address start : Nat}
    (hle : address ≤ p.size) :
    start ∈ openAt p.code.toList address ↔
      start < address ∧ ∃ e, p.jumpTarget? start = some e ∧ address ≤ e := by
  constructor
  · intro hopen
    have hclosed : start ∉ openAt p.code.toList p.size := by
      rw [hp.openAt_size]
      exact List.not_mem_nil
    obtain ⟨e, hae, -, he, hhead⟩ := exists_loopEnd hopen hclosed hle
    rw [Array.getElem?_toList] at he
    exact ⟨(mem_openAt hopen).1, e, hp.jumpTarget?_eq_some_iff.2 ⟨he, hhead⟩, hae⟩
  · rintro ⟨hlt, e, he, hae⟩
    have hhead := (hp.jumpTarget?_eq_some_iff.1 he).2
    exact mem_openAt_of_le (List.mem_of_mem_head? hhead) hlt hae

theorem Paired.exists_jumpTarget? {p : Program} (hp : p.Paired) {start : Nat}
    (h : p.code[start]? = some .loopStart) : ∃ e, p.jumpTarget? start = some e := by
  have hlt : start < p.size := (Array.getElem?_eq_some_iff.1 h).1
  have hopen : start ∈ openAt p.code.toList (start + 1) :=
    mem_openAt_succ (Array.getElem?_toList ▸ h)
  obtain ⟨-, e, he, -⟩ := (hp.mem_openAt_iff hlt).1 hopen
  exact ⟨e, he⟩

/-- Behind a loop the same loops are open as in front of it. -/
theorem Paired.openAt_behind {p : Program} (hp : p.Paired) {start e : Nat}
    (h : p.jumpTarget? start = some e) :
    openAt p.code.toList (e + 1) = openAt p.code.toList start := by
  obtain ⟨he, hhead⟩ := hp.jumpTarget?_eq_some_iff.1 h
  obtain ⟨outer, hopen⟩ := List.head?_eq_some_iff.1 hhead
  rw [openAt_succ (Array.getElem?_toList ▸ he), hopen]
  exact outer_of_openAt_eq_cons hopen

theorem Paired.lt_of_jumpTarget? {p : Program} (hp : p.Paired) {start e : Nat}
    (h : p.jumpTarget? start = some e) : start < e ∧ e < p.size := by
  obtain ⟨he, hhead⟩ := hp.jumpTarget?_eq_some_iff.1 h
  exact ⟨(mem_openAt (List.mem_of_mem_head? hhead)).1, (Array.getElem?_eq_some_iff.1 he).1⟩

/-- The loops around an address, by ascending start: those that begin before it and end at it or
behind it. -/
def loopsAround (p : Program) (address : Nat) : List Nat :=
  (List.range address).filter fun start =>
    p.code[start]? = some .loopStart && (p.jumpTarget? start).any (address ≤ ·)

theorem Paired.reverse_openAt {p : Program} (hp : p.Paired) {address : Nat}
    (hle : address ≤ p.size) :
    (openAt p.code.toList address).reverse = p.loopsAround address := by
  have hsorted : (openAt p.code.toList address).reverse.Pairwise (· < ·) :=
    List.pairwise_reverse.2 (pairwise_openAt _ _)
  have hrange : (p.loopsAround address).Pairwise (· < ·) :=
    List.pairwise_lt_range.filter _
  refine hsorted.eq_of_mem_iff hrange fun start => ?_
  rw [List.mem_reverse]
  constructor
  · intro hopen
    have hstart := (mem_openAt hopen).2
    rw [Array.getElem?_toList] at hstart
    obtain ⟨hlt, e, he, hae⟩ := (hp.mem_openAt_iff hle).1 hopen
    simp [loopsAround, hlt, hstart, he, hae]
  · intro hmem
    simp only [loopsAround, List.mem_filter, List.mem_range, Bool.and_eq_true, decide_eq_true_eq,
      Option.any_eq_true] at hmem
    obtain ⟨hlt, -, e, he, hae⟩ := hmem
    exact (hp.mem_openAt_iff hle).2 ⟨hlt, e, he, hae⟩

/-- A loop end that the scan meets while no loop is open. -/
def IsStray (p : Program) (address : Nat) : Prop :=
  p.code[address]? = some .loopEnd ∧ openAt p.code.toList address = []

instance (p : Program) (address : Nat) : Decidable (p.IsStray address) :=
  inferInstanceAs (Decidable (_ ∧ _))

theorem Paired.isStray_or_exists {p : Program} (hp : p.Paired) {address : Nat}
    (h : p.code[address]? = some .loopEnd) :
    p.IsStray address ∨ ∃ start, p.jumpTarget? start = some address := by
  cases hopen : openAt p.code.toList address with
  | nil => exact .inl ⟨h, hopen⟩
  | cons start outer =>
      exact .inr ⟨start, hp.jumpTarget?_eq_some_iff.2 ⟨h, by rw [hopen, List.head?_cons]⟩⟩

end Program

end TapeMachine
