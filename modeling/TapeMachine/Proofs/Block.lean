import TapeMachine.Proofs.Action
import TapeMachine.Proofs.LoopTable

/-!
# Blocks

Code in which every loop end has its loop is a tree: a sequence of actions and loops, the body of a
loop being such a sequence again.  A block determines its code, code determines its block, and every
accepted program without stray loop ends is the code of a block.
-/

namespace TapeMachine

open LoopScan

/-- A sequence of actions and loops. -/
inductive Block where
  | done
  | act (action : Action) (rest : Block)
  | loop (body rest : Block)
  deriving DecidableEq

namespace Block

def code : Block → List Instruction
  | done => []
  | act action rest => action.toInstruction :: rest.code
  | loop body rest => .loopStart :: (body.code ++ .loopEnd :: rest.code)

def size (b : Block) : Nat :=
  b.code.length

@[simp] theorem size_done : done.size = 0 := rfl

@[simp] theorem size_act (action : Action) (rest : Block) :
    (act action rest).size = rest.size + 1 := rfl

@[simp] theorem size_loop (body rest : Block) :
    (loop body rest).size = body.size + rest.size + 2 := by
  simp only [size, code, List.length_cons, List.length_append]
  omega

/-! ## A block is determined by its code -/

theorem code_append_inj {b c : Block} {xs ys : List Instruction}
    (hxs : ∀ i ∈ xs.head?, i = .loopEnd) (hys : ∀ i ∈ ys.head?, i = .loopEnd)
    (h : b.code ++ xs = c.code ++ ys) : b = c ∧ xs = ys := by
  have hact (action : Action) : action.toInstruction ≠ .loopEnd := by
    cases action <;> simp [Action.toInstruction]
  have hbracket (action : Action) : action.toInstruction ≠ .loopStart := by
    cases action <;> simp [Action.toInstruction]
  induction b generalizing c xs ys with
  | done =>
      change xs = _ at h
      subst h
      cases c with
      | done => exact ⟨rfl, rfl⟩
      | act action rest => exact absurd (hxs _ rfl) (hact action)
      | loop body rest => exact absurd (hxs _ rfl) (by simp)
  | act action rest ih =>
      cases c with
      | done =>
          change _ = ys at h
          subst h
          exact absurd (hys _ rfl) (hact action)
      | act action' rest' =>
          obtain ⟨haction, htail⟩ := List.cons.inj h
          obtain ⟨rfl, rfl⟩ := ih hxs hys htail
          obtain rfl := Action.toInstruction_injective haction
          exact ⟨rfl, rfl⟩
      | loop body rest => exact absurd (List.cons.inj h).1 (hbracket action)
  | loop body rest ihbody ihrest =>
      cases c with
      | done =>
          change _ = ys at h
          subst h
          exact absurd (hys _ rfl) (by simp)
      | act action rest => exact absurd (List.cons.inj h).1.symm (hbracket action)
      | loop body' rest' =>
          have htail : (body.code ++ .loopEnd :: rest.code) ++ xs =
              (body'.code ++ .loopEnd :: rest'.code) ++ ys := (List.cons.inj h).2
          rw [List.append_assoc, List.append_assoc] at htail
          have hclose (more : List Instruction) :
              ∀ i ∈ (Instruction.loopEnd :: more).head?, i = .loopEnd := by
            simp
          obtain ⟨rfl, hrest⟩ := ihbody (hclose _) (hclose _) htail
          obtain ⟨rfl, rfl⟩ := ihrest hxs hys (List.cons.inj hrest).2
          exact ⟨rfl, rfl⟩

theorem code_injective {b c : Block} (h : b.code = c.code) : b = c := by
  have hnil : ∀ i ∈ ([] : List Instruction).head?, i = .loopEnd := by simp
  exact (code_append_inj hnil hnil (congrArg (· ++ []) h)).1

/-! ## Which code is the code of a block -/

def append : Block → Block → Block
  | done, c => c
  | act action rest, c => act action (rest.append c)
  | loop body rest, c => loop body (rest.append c)

@[simp] theorem code_append (b c : Block) : (b.append c).code = b.code ++ c.code := by
  induction b with
  | done => rfl
  | act action rest ih => simp [append, code, ih]
  | loop body rest _ ih => simp [append, code, ih]

/-- Code that ends in an innermost block, the blocks around it being still unfinished. -/
def unfinishedCode (inner : Block) : List Block → List Instruction
  | [] => inner.code
  | b :: outer => unfinishedCode b outer ++ .loopStart :: inner.code

theorem unfinishedCode_append (inner c : Block) (outer : List Block) :
    unfinishedCode (inner.append c) outer = unfinishedCode inner outer ++ c.code := by
  cases outer <;> simp [unfinishedCode]

/-- Code without stray loop ends is a nest of blocks, one of them unfinished for each loop that is
still open. -/
theorem exists_unfinishedCode {code : List Instruction}
    (h : ∀ address, code[address]? = some .loopEnd → openAt code address ≠ []) :
    ∃ (inner : Block) (outer : List Block),
      outer.length = (openAt code code.length).length ∧ unfinishedCode inner outer = code := by
  -- instruction by instruction from the front, as the scan goes
  induction code using List.reverseRecOn with
  | nil => exact ⟨done, [], rfl, rfl⟩
  | append_singleton code i ih =>
      have hlast : (code ++ [i])[code.length]? = some i := by simp
      have hopen : openAt (code ++ [i]) (code ++ [i]).length =
          openBehind (openAt code code.length) code.length i := by
        rw [List.length_append, List.length_singleton, openAt_succ hlast, openAt_append _ le_rfl]
      have hprefix : ∀ address, code[address]? = some .loopEnd → openAt code address ≠ [] := by
        intro address haddress
        have hlt : address < code.length := (List.getElem?_eq_some_iff.1 haddress).1
        rw [← openAt_append [i] hlt.le]
        exact h address (by rw [List.getElem?_append_left hlt, haddress])
      obtain ⟨inner, outer, hlength, hcode⟩ := ih hprefix
      rw [hopen]
      rcases i.action_or_loop with ⟨action, rfl⟩ | rfl | rfl
      · refine ⟨inner.append (act action done), outer, ?_, ?_⟩
        · rw [hlength, action.openBehind_eq]
        · rw [unfinishedCode_append, hcode]
          rfl
      · refine ⟨done, inner :: outer, ?_, ?_⟩
        · rw [List.length_cons, hlength]
          rfl
        · rw [unfinishedCode, hcode]
          rfl
      · have hne : openAt code code.length ≠ [] := by
          rw [← openAt_append [.loopEnd] le_rfl]
          exact h code.length hlast
        cases outer with
        | nil => exact absurd (List.length_eq_zero_iff.1 hlength.symm) hne
        | cons b outer =>
            refine ⟨b.append (loop inner done), outer, ?_, ?_⟩
            · rw [openBehind, List.length_tail, ← hlength, List.length_cons, Nat.add_sub_cancel]
            · rw [unfinishedCode_append, ← hcode]
              simp [unfinishedCode, Block.code]

theorem exists_code_eq {p : Program} (hp : p.Paired) (hstray : ∀ address, ¬ p.IsStray address) :
    ∃ b : Block, b.code = p.code.toList := by
  have hclosed : ∀ address, p.code.toList[address]? = some .loopEnd →
      openAt p.code.toList address ≠ [] := by
    intro address h hopen
    exact hstray address ⟨Array.getElem?_toList ▸ h, hopen⟩
  have hend : openAt p.code.toList p.code.toList.length = [] := by
    rw [Array.length_toList]
    exact hp.openAt_size
  obtain ⟨inner, outer, hlength, hcode⟩ := exists_unfinishedCode hclosed
  rw [hend] at hlength
  obtain rfl := List.length_eq_zero_iff.1 hlength
  exact ⟨inner, hcode⟩

/-! ## Blocks inside a program -/

theorem waiting_foldl_code (b : Block) (s : LoopScan) :
    (b.code.foldl push s).waiting = s.waiting := by
  induction b generalizing s with
  | done => rfl
  | act action rest ih =>
      rw [code, List.foldl_cons, ih, waiting_push, action.openBehind_eq]
  | loop body rest ihbody ihrest =>
      rw [code, List.foldl_cons, List.foldl_append, List.foldl_cons, ihrest, waiting_push, ihbody,
        waiting_push]
      rfl

/-- The block stands at `address` of the program, each of its loops entered in the table. -/
def Placed (p : Program) : Block → Nat → Prop
  | done, _ => True
  | act action rest, address =>
      p.code[address]? = some action.toInstruction ∧ rest.Placed p (address + 1)
  | loop body rest, address =>
      p.code[address]? = some .loopStart ∧
        p.jumpTarget? address = some (address + 1 + body.size) ∧
        body.Placed p (address + 1) ∧
        p.code[address + 1 + body.size]? = some .loopEnd ∧
        rest.Placed p (address + 1 + body.size + 1)

theorem placed_of_code {p : Program} (hp : p.Paired) (b : Block) {front back : List Instruction}
    (h : p.code.toList = front ++ b.code ++ back) : b.Placed p front.length := by
  induction b generalizing front back with
  | done => trivial
  | act action rest ih =>
      refine ⟨?_, ?_⟩
      · rw [← Array.getElem?_toList, h]
        simp [code]
      · have hrest := @ih (front ++ [action.toInstruction]) back (by simp [h, code])
        simpa using hrest
  | loop body rest ihbody ihrest =>
      have hsplit : p.code.toList =
          (front ++ .loopStart :: body.code) ++ .loopEnd :: (rest.code ++ back) := by
        simp [h, code]
      have hlength : (front ++ .loopStart :: body.code).length = front.length + 1 + body.size := by
        simp [size, Nat.add_assoc, Nat.add_comm]
      have hend : p.code[front.length + 1 + body.size]? = some .loopEnd := by
        rw [← Array.getElem?_toList, hsplit, ← hlength, List.getElem?_append_right le_rfl,
          Nat.sub_self]
        rfl
      have hopen : openAt p.code.toList (front.length + 1 + body.size) =
          front.length :: (ofCode front).waiting := by
        rw [hsplit, ← hlength, openAt_append _ le_rfl, openAt_length, ofCode, List.foldl_append,
          List.foldl_cons, waiting_foldl_code, waiting_push, size_jumps_foldl]
        simp [openBehind, ofCode]
      refine ⟨?_, ?_, ?_, hend, ?_⟩
      · rw [← Array.getElem?_toList, h]
        simp [code]
      · exact hp.jumpTarget?_eq_some_iff.2 ⟨hend, by rw [hopen, List.head?_cons]⟩
      · have hbody := @ihbody (front ++ [.loopStart]) (.loopEnd :: (rest.code ++ back))
          (by simp [h, code])
        simpa using hbody
      · have hrest := @ihrest (front ++ .loopStart :: (body.code ++ [.loopEnd])) back
          (by simp [h, code])
        simpa [size, Nat.add_assoc, Nat.add_comm, Nat.add_left_comm] using hrest

end Block

end TapeMachine
