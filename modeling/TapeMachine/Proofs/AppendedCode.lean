import TapeMachine.Proofs.LoopTable

/-!
# Appended code

When no loop is open at the end of a text, the scan goes on behind it as it would start afresh:
every address it notes is larger by the number of instructions in front, and nothing else differs.
So the program of two texts, one written behind the other, is the first program followed by the
second one with its loops moved.  A partner is found in the part where its loop starts.
-/

namespace TapeMachine

namespace LoopScan

/-- The scan `s`, begun behind the instructions of a table. -/
def behind (front : Array (Option Nat)) (s : LoopScan) : LoopScan where
  waiting := s.waiting.map (· + front.size)
  jumps := front ++ s.jumps.map (Option.map (· + front.size))

theorem push_behind (front : Array (Option Nat)) (s : LoopScan) (i : Instruction) :
    (s.behind front).push i = (s.push i).behind front := by
  obtain ⟨waiting, jumps⟩ := s
  have hsize : (front ++ jumps.map (Option.map (· + front.size))).size =
      jumps.size + front.size := by
    rw [Array.size_append, Array.size_map, Nat.add_comm]
  have hpush : (front ++ jumps.map (Option.map (· + front.size))).push none =
      front ++ (jumps.push none).map (Option.map (· + front.size)) := by
    rw [Array.push_append, Array.map_push, Option.map_none]
  cases i with
  | loopStart =>
      simp only [behind, push, hpush, hsize, List.map_cons]
  | loopEnd =>
      cases waiting with
      | nil => simp only [behind, push, hpush, List.map_nil]
      | cons start outer =>
          simp only [behind, push, hpush, hsize, List.map_cons, Array.map_setIfInBounds,
            Option.map_some, Array.setIfInBounds_append_right (Nat.le_add_left front.size start),
            Nat.add_sub_cancel]
  | _ => simp only [behind, push, hpush]

/-- Behind code that leaves no loop open, the scan is that of the rest alone. -/
theorem ofCode_append {code : List Instruction} (h : (ofCode code).waiting = [])
    (more : List Instruction) :
    ofCode (code ++ more) = (ofCode more).behind (ofCode code).jumps := by
  have hstart : ofCode code = ({} : LoopScan).behind (ofCode code).jumps := by
    rcases hscan : ofCode code with ⟨waiting, jumps⟩
    rw [hscan] at h
    obtain rfl : waiting = [] := h
    simp [behind]
  calc ofCode (code ++ more)
      = more.foldl push (ofCode code) := List.foldl_append
    _ = more.foldl push (({} : LoopScan).behind (ofCode code).jumps) := by rw [← hstart]
    _ = (ofCode more).behind (ofCode code).jumps := List.foldl_hom _ (push_behind _)

end LoopScan

theorem Instruction.ofSource_append (a b : String) :
    ofSource (a ++ b) = ofSource a ++ ofSource b := by
  rw [ofSource, String.toList_append, List.filterMap_append]
  rfl

namespace Program

/-- The instructions of `front` and then those of `back`, whose loops lie that much further on. -/
def append (front back : Program) : Program where
  code := front.code ++ back.code
  jumps := front.jumps ++ back.jumps.map (Option.map (· + front.size))
  size_jumps := by
    rw [Array.size_append, Array.size_append, Array.size_map, front.size_jumps, back.size_jumps]

variable {front back : Program}

@[simp] theorem code_append : (front.append back).code = front.code ++ back.code := rfl

@[simp] theorem jumps_append :
    (front.append back).jumps = front.jumps ++ back.jumps.map (Option.map (· + front.size)) := rfl

@[simp] theorem size_append : (front.append back).size = front.size + back.size :=
  Array.size_append

theorem parse_append {a b : String} (ha : parse a = .ok front) (hb : parse b = .ok back) :
    parse (a ++ b) = .ok (front.append back) := by
  obtain ⟨hcode, hjumps, hwaiting⟩ := ofCode_eq_ok_iff.1 ha
  obtain ⟨hcode', hjumps', hwaiting'⟩ := ofCode_eq_ok_iff.1 hb
  have hscan := LoopScan.ofCode_append hwaiting (Instruction.ofSource b)
  rw [← Instruction.ofSource_append, ← hjumps] at hscan
  apply ofCode_eq_ok_iff.2
  rw [hscan, LoopScan.behind, front.size_jumps]
  refine ⟨?_, ?_, ?_⟩
  · rw [code_append, Array.toList_append, hcode, hcode', Instruction.ofSource_append]
  · rw [jumps_append, hjumps']
    rfl
  · rw [hwaiting', List.map_nil]

theorem getElem?_code_append_left {address : Nat} (h : address < front.size) :
    (front.append back).code[address]? = front.code[address]? :=
  Array.getElem?_append_left h

theorem getElem?_code_append_right (address : Nat) :
    (front.append back).code[address + front.size]? = back.code[address]? := by
  rw [code_append, size, Array.getElem?_append_right (Nat.le_add_left _ _), Nat.add_sub_cancel]

theorem jumpTarget?_append_left {address : Nat} (h : address < front.size) :
    (front.append back).jumpTarget? address = front.jumpTarget? address := by
  have hlt : address < front.jumps.size := front.size_jumps ▸ h
  rw [jumpTarget?, jumps_append, Array.getElem?_append_left hlt, jumpTarget?]

theorem jumpTarget?_append_right (address : Nat) :
    (front.append back).jumpTarget? (address + front.size) =
      (back.jumpTarget? address).map (· + front.size) := by
  have hsize : front.jumps.size = front.size := front.size_jumps
  have hle : front.jumps.size ≤ address + front.size := hsize ▸ Nat.le_add_left _ _
  rw [jumpTarget?, jumps_append, Array.getElem?_append_right hle, hsize, Nat.add_sub_cancel,
    Array.getElem?_map, jumpTarget?]
  rcases back.jumps[address]? with _ | _ | target <;> rfl

end Program

end TapeMachine
