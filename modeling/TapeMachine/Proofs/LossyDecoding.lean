import TapeMachine.CommandLine.Command
import TapeMachine.Proofs.EncodedCharacter
import TapeMachine.Proofs.LoopTable

/-!
# Lossy decoding

A text is read as encoded characters and ill-formed parts (`Parts`), where an ill-formed part goes
as far as it could still become a character.  There is exactly one way to read a text so, and it is
the decoder's: `parts_iff`.  What lies outside ASCII is encoded outside ASCII, and no byte of ASCII
is taken into an ill-formed part, hence decoding neither hides an instruction nor makes one up.
-/

namespace TapeMachine

namespace Text.Utf8

/-- The bytes are the first ones of an encoded character. -/
def Begins (bytes : List UInt8) : Prop :=
  ∃ c, bytes <+: String.utf8EncodeChar c

/-- A longest part, in front of `rest`, that begins a character and does not complete it; or a
single byte that begins none. -/
structure IllFormed (part rest : List UInt8) : Prop where
  ne_nil : part ≠ []
  incomplete : ∀ c, String.utf8EncodeChar c ≠ part
  begins : Begins part ∨ part.length = 1
  longest : ∀ b ∈ rest.head?, ¬ Begins (part ++ [b])

/-- A text read from left to right, as its characters and `none` for each ill-formed part. -/
inductive Parts : List UInt8 → List (Option Char) → Prop where
  | done : Parts [] []
  | character {c : Char} {rest : List UInt8} {parts : List (Option Char)} :
      Parts rest parts → Parts (String.utf8EncodeChar c ++ rest) (some c :: parts)
  | illFormed {part rest : List UInt8} {parts : List (Option Char)} :
      IllFormed part rest → Parts rest parts → Parts (part ++ rest) (none :: parts)

/-! ## What the decoder makes of the rest of a text -/

namespace Decoder

/-- The same decoder, which found the parts in front before. -/
def behind (front : Array (Option Char)) (d : Decoder) : Decoder where
  found := front ++ d.found
  unfinished := d.unfinished

theorem start_behind (front found : Array (Option Char)) (b : UInt8) :
    start (front ++ found) b = (start found b).behind front := by
  unfold start
  cases lead b <;> simp [behind, Array.push_append]

theorem push_behind (front : Array (Option Char)) (d : Decoder) (b : UInt8) :
    (d.behind front).push b = (d.push b).behind front := by
  obtain ⟨found, _ | p⟩ := d
  · exact start_behind front found b
  · simp only [behind, push]
    split
    · split
      · rw [Array.push_append]
      · rfl
    · rw [Array.push_append]
      exact start_behind front _ b

theorem finish_behind (front : Array (Option Char)) (d : Decoder) :
    (d.behind front).finish = front ++ d.finish := by
  obtain ⟨found, _ | p⟩ := d
  · rfl
  · exact Array.push_append

end Decoder

/-- The parts that are still found when a character may be unfinished. -/
def partsFrom (unfinished : Option Unfinished) (bytes : List UInt8) : List (Option Char) :=
  (bytes.foldl Decoder.push ⟨#[], unfinished⟩).finish.toList

theorem toList_finish_foldl_behind (front : Array (Option Char)) (d : Decoder)
    (bytes : List UInt8) :
    (bytes.foldl Decoder.push (d.behind front)).finish.toList =
      front.toList ++ (bytes.foldl Decoder.push d).finish.toList := by
  rw [List.foldl_hom (Decoder.behind front) (Decoder.push_behind front), Decoder.finish_behind,
    Array.toList_append]

theorem partsFrom_cons_complete {b : UInt8} {c : Char} (h : lead b = .complete c)
    (rest : List UInt8) : partsFrom none (b :: rest) = some c :: partsFrom none rest := by
  rw [partsFrom, List.foldl_cons, Decoder.push, Decoder.start, h]
  exact toList_finish_foldl_behind _ {} rest

theorem partsFrom_cons_starts {b : UInt8} {p : Unfinished} (h : lead b = .starts p)
    (rest : List UInt8) : partsFrom none (b :: rest) = partsFrom (some p) rest := by
  rw [partsFrom, List.foldl_cons, Decoder.push, Decoder.start, h]
  rfl

theorem partsFrom_cons_illFormed {b : UInt8} (h : lead b = .illFormed) (rest : List UInt8) :
    partsFrom none (b :: rest) = none :: partsFrom none rest := by
  rw [partsFrom, List.foldl_cons, Decoder.push, Decoder.start, h]
  exact toList_finish_foldl_behind _ {} rest

section Unfinished

variable {p : Unfinished} {b : UInt8}

theorem partsFrom_cons_last (h : p.low ≤ b ∧ b ≤ p.high) (hmissing : p.missing ≤ 1)
    (rest : List UInt8) :
    partsFrom (some p) (b :: rest) =
      some (Char.ofNat (64 * p.value + (b.toNat - 0x80))) :: partsFrom none rest := by
  have hrange : (p.low ≤ b && b ≤ p.high) = true := by simpa using h
  rw [partsFrom, List.foldl_cons, Decoder.push, if_pos hrange, if_pos hmissing]
  exact toList_finish_foldl_behind _ {} rest

theorem partsFrom_cons_more (h : p.low ≤ b ∧ b ≤ p.high) (hmissing : ¬ p.missing ≤ 1)
    (rest : List UInt8) :
    partsFrom (some p) (b :: rest) =
      partsFrom (some ⟨p.missing - 1, 0x80, 0xBF, 64 * p.value + (b.toNat - 0x80)⟩) rest := by
  have hrange : (p.low ≤ b && b ≤ p.high) = true := by simpa using h
  rw [partsFrom, List.foldl_cons, Decoder.push, if_pos hrange, if_neg hmissing]
  rfl

theorem partsFrom_cons_outside (h : ¬ (p.low ≤ b ∧ b ≤ p.high)) (rest : List UInt8) :
    partsFrom (some p) (b :: rest) = none :: partsFrom none (b :: rest) := by
  have hrange : ¬ (p.low ≤ b && b ≤ p.high) = true := by simpa using h
  have hstart : Decoder.start #[none] b = (Decoder.start #[] b).behind #[none] :=
    Decoder.start_behind #[none] #[] b
  rw [partsFrom, List.foldl_cons, Decoder.push, if_neg hrange]
  exact hstart ▸ toList_finish_foldl_behind #[none] (Decoder.start #[] b) rest

end Unfinished

/-! ## An unfinished character and the bytes read of it -/

/-- The decoder is inside a character, of which it has read `part`. -/
structure Unfinished.Behind (p : Unfinished) (part : List UInt8) : Prop where
  ne_nil : part ≠ []
  low_le_high : p.low ≤ p.high
  complete?_iff : ∀ {rest c}, complete? p rest = some c ↔ String.utf8EncodeChar c = part ++ rest

section Behind

variable {p : Unfinished} {part : List UInt8} {b : UInt8}

theorem behind_of_lead (h : lead b = .starts p) : p.Behind [b] where
  ne_nil := by simp
  low_le_high := low_le_high_of_lead h
  complete?_iff := by
    intro rest c
    rw [List.singleton_append, ← character?_eq_some_iff, character?, h]

theorem Unfinished.Behind.more (hp : p.Behind part) (h : p.low ≤ b ∧ b ≤ p.high)
    (hmissing : ¬ p.missing ≤ 1) :
    Unfinished.Behind ⟨p.missing - 1, 0x80, 0xBF, 64 * p.value + (b.toNat - 0x80)⟩
      (part ++ [b]) where
  ne_nil := by simp
  low_le_high := (by decide : (0x80 : UInt8) ≤ 0xBF)
  complete?_iff := by
    intro rest c
    rw [List.append_assoc, List.singleton_append, ← hp.complete?_iff, complete?, if_pos h,
      if_neg hmissing]

theorem Unfinished.Behind.last (hp : p.Behind part) (h : p.low ≤ b ∧ b ≤ p.high)
    (hmissing : p.missing ≤ 1) :
    String.utf8EncodeChar (Char.ofNat (64 * p.value + (b.toNat - 0x80))) = part ++ [b] := by
  rw [← hp.complete?_iff, complete?, if_pos h, if_pos hmissing, if_pos rfl]

/-- A character goes on with every byte in the range, and with no other one. -/
theorem Unfinished.Behind.begins_concat_iff (hp : p.Behind part) :
    Begins (part ++ [b]) ↔ p.low ≤ b ∧ b ≤ p.high := by
  constructor
  · rintro ⟨c, rest, hc⟩
    rw [List.append_assoc, List.singleton_append, eq_comm, ← hp.complete?_iff, complete?] at hc
    split at hc
    · assumption
    · cases hc
  · intro h
    by_cases hmissing : p.missing ≤ 1
    · exact ⟨Char.ofNat (64 * p.value + (b.toNat - 0x80)),
        (hp.last h hmissing).symm ▸ List.prefix_rfl⟩
    · obtain ⟨rest, c, hrest⟩ := exists_complete? (hp.more h hmissing).low_le_high
      exact ⟨c, rest, ((hp.more h hmissing).complete?_iff.1 hrest).symm⟩

theorem Unfinished.Behind.illFormed (hp : p.Behind part) {rest : List UInt8}
    (hrest : ∀ b ∈ rest.head?, ¬ (p.low ≤ b ∧ b ≤ p.high)) : IllFormed part rest where
  ne_nil := hp.ne_nil
  incomplete := by
    intro c hc
    rw [← List.append_nil part, ← hp.complete?_iff] at hc
    cases hc
  begins := by
    obtain ⟨rest, c, hrest⟩ := exists_complete? hp.low_le_high
    exact .inl ⟨c, rest, (hp.complete?_iff.1 hrest).symm⟩
  longest := by
    intro b hb
    rw [hp.begins_concat_iff]
    exact hrest b hb

theorem not_begins_of_lead (h : lead b = .illFormed) (more : List UInt8) :
    ¬ Begins (b :: more) := by
  rintro ⟨c, rest, hc⟩
  rw [List.cons_append, eq_comm, ← character?_eq_some_iff, character?, h] at hc
  cases hc

theorem illFormed_of_lead (h : lead b = .illFormed) (rest : List UInt8) : IllFormed [b] rest where
  ne_nil := by simp
  incomplete := by
    intro c hc
    rw [← character?_eq_some_iff, character?, h] at hc
    cases hc
  begins := .inr rfl
  longest := by
    intro b' _
    exact not_begins_of_lead h [b']

theorem utf8EncodeChar_of_lead {c : Char} (h : lead b = .complete c) :
    String.utf8EncodeChar c = [b] := by
  rw [← character?_eq_some_iff, character?, h]
  rfl

end Behind

theorem parts_partsFrom (bytes : List UInt8) :
    Parts bytes (partsFrom none bytes) ∧
      ∀ p part, Unfinished.Behind p part → Parts (part ++ bytes) (partsFrom (some p) bytes) := by
  induction bytes with
  | nil =>
      refine ⟨.done, ?_⟩
      intro p part hp
      exact .illFormed (hp.illFormed (by simp)) .done
  | cons b rest ih =>
      obtain ⟨hnone, hsome⟩ := ih
      have hstart : Parts (b :: rest) (partsFrom none (b :: rest)) := by
        cases hlead : lead b with
        | complete c =>
            rw [partsFrom_cons_complete hlead, ← List.singleton_append,
              ← utf8EncodeChar_of_lead hlead]
            exact .character hnone
        | starts p =>
            rw [partsFrom_cons_starts hlead]
            exact hsome p [b] (behind_of_lead hlead)
        | illFormed =>
            rw [partsFrom_cons_illFormed hlead]
            exact .illFormed (illFormed_of_lead hlead rest) hnone
      refine ⟨hstart, ?_⟩
      intro p part hp
      rcases Decidable.em (p.low ≤ b ∧ b ≤ p.high) with hrange | hrange
      · rw [← List.singleton_append, ← List.append_assoc, List.singleton_append]
        rcases Decidable.em (p.missing ≤ 1) with hmissing | hmissing
        · rw [partsFrom_cons_last hrange hmissing, ← hp.last hrange hmissing]
          exact .character hnone
        · rw [partsFrom_cons_more hrange hmissing]
          exact hsome _ _ (hp.more hrange hmissing)
      · rw [partsFrom_cons_outside hrange]
        exact .illFormed (hp.illFormed (by simpa using hrange)) hstart

theorem parts_decodeParts (bytes : List UInt8) : Parts bytes (decodeParts bytes) :=
  (parts_partsFrom bytes).1

/-! ## There is only one way to read a text -/

theorem partsFrom_append_of_complete? {part : List UInt8} {c : Char} {p : Unfinished}
    (h : complete? p part = some c) (rest : List UInt8) :
    partsFrom (some p) (part ++ rest) = some c :: partsFrom none rest := by
  induction part generalizing p with
  | nil => cases h
  | cons b part ih =>
      rw [complete?] at h
      split_ifs at h with hrange hmissing hpart
      · obtain rfl := Option.some.inj h
        rw [hpart, List.singleton_append, partsFrom_cons_last hrange hmissing]
      · rw [List.cons_append, partsFrom_cons_more hrange hmissing, ih h]

theorem partsFrom_append_character (c : Char) (rest : List UInt8) :
    partsFrom none (String.utf8EncodeChar c ++ rest) = some c :: partsFrom none rest := by
  have hc : character? (String.utf8EncodeChar c) = some c := character?_eq_some_iff.2 rfl
  cases hbytes : String.utf8EncodeChar c with
  | nil =>
      rw [hbytes] at hc
      cases hc
  | cons b part =>
      rw [hbytes, character?] at hc
      cases hlead : lead b with
      | complete c' =>
          rw [hlead] at hc
          dsimp only at hc
          split_ifs at hc with hpart
          obtain rfl := Option.some.inj hc
          rw [hpart, List.singleton_append, partsFrom_cons_complete hlead]
      | starts p =>
          rw [hlead] at hc
          rw [List.cons_append, partsFrom_cons_starts hlead, partsFrom_append_of_complete? hc]
      | illFormed =>
          rw [hlead] at hc
          cases hc

theorem Begins.of_append {part more : List UInt8} (h : Begins (part ++ more)) : Begins part := by
  obtain ⟨c, hc⟩ := h
  exact ⟨c, (List.prefix_append part more).trans hc⟩

/-- No encoded character goes on behind another one. -/
theorem Begins.eq_nil_of_utf8EncodeChar {c : Char} {more : List UInt8}
    (h : Begins (String.utf8EncodeChar c ++ more)) : more = [] := by
  obtain ⟨c', rest, hc'⟩ := h
  have hparts : some c :: partsFrom none (more ++ rest) = some c' :: partsFrom none [] := by
    rw [← partsFrom_append_character, ← partsFrom_append_character, ← List.append_assoc, hc',
      List.append_nil]
  obtain rfl : c = c' := Option.some.inj (List.cons.inj hparts).1
  rw [List.append_assoc, List.append_right_eq_self, List.append_eq_nil_iff] at hc'
  exact hc'.1

theorem partsFrom_append_illFormed_of_behind {p : Unfinished} {part more rest : List UInt8}
    (hp : p.Behind part) (h : IllFormed (part ++ more) rest) :
    partsFrom (some p) (more ++ rest) = none :: partsFrom none rest := by
  induction more generalizing p part with
  | nil =>
      cases rest with
      | nil => rfl
      | cons b rest =>
          have hlongest := h.longest b rfl
          rw [List.append_nil, hp.begins_concat_iff] at hlongest
          exact partsFrom_cons_outside hlongest rest
  | cons b more ih =>
      have hsplit : part ++ b :: more = part ++ [b] ++ more := by simp
      rw [hsplit] at h
      have hbegins : Begins (part ++ [b] ++ more) := by
        refine h.begins.resolve_right ?_
        have hpos := List.length_pos_iff.2 hp.ne_nil
        simp
        omega
      have hrange := hp.begins_concat_iff.1 hbegins.of_append
      rcases Decidable.em (p.missing ≤ 1) with hmissing | hmissing
      · rw [← hp.last hrange hmissing] at hbegins h
        rw [hbegins.eq_nil_of_utf8EncodeChar, List.append_nil] at h
        exact (h.incomplete _ rfl).elim
      · rw [List.cons_append, partsFrom_cons_more hrange hmissing]
        exact ih (hp.more hrange hmissing) h

theorem partsFrom_append_illFormed {part rest : List UInt8} (h : IllFormed part rest) :
    partsFrom none (part ++ rest) = none :: partsFrom none rest := by
  obtain ⟨b, more, rfl⟩ := List.exists_cons_of_ne_nil h.ne_nil
  cases hlead : lead b with
  | complete c =>
      have hmore : more = [] := by
        rcases h.begins with hbegins | hone
        · rw [← List.singleton_append, ← utf8EncodeChar_of_lead hlead] at hbegins
          exact hbegins.eq_nil_of_utf8EncodeChar
        · simpa using hone
      rw [hmore] at h
      exact (h.incomplete c (utf8EncodeChar_of_lead hlead)).elim
  | starts p =>
      rw [List.cons_append, partsFrom_cons_starts hlead]
      exact partsFrom_append_illFormed_of_behind (behind_of_lead hlead) h
  | illFormed =>
      have hone := h.begins.resolve_left (not_begins_of_lead hlead more)
      obtain rfl : more = [] := by simpa using hone
      exact partsFrom_cons_illFormed hlead rest

theorem parts_iff {bytes : List UInt8} {parts : List (Option Char)} :
    Parts bytes parts ↔ decodeParts bytes = parts := by
  constructor
  · intro h
    change partsFrom none bytes = parts
    induction h with
    | done => rfl
    | character _ ih => rw [partsFrom_append_character, ih]
    | illFormed hpart _ ih => rw [partsFrom_append_illFormed hpart, ih]
  · rintro rfl
    exact parts_decodeParts bytes

/-! ## Texts without ill-formed parts -/

theorem toList_data_toUTF8 (text : String) :
    text.toUTF8.data.toList = text.toList.flatMap String.utf8EncodeChar := by
  rw [String.toUTF8, ← String.utf8Encode_toList, List.utf8Encode, List.toList_data_toByteArray]

theorem parts_map_some_iff {bytes : List UInt8} {text : List Char} :
    Parts bytes (text.map some) ↔ bytes = text.flatMap String.utf8EncodeChar := by
  constructor
  · intro h
    induction text generalizing bytes with
    | nil =>
        cases h
        rfl
    | cons c text ih =>
        cases h with
        | character hrest => rw [ih hrest, List.flatMap_cons]
  · rintro rfl
    induction text with
    | nil => exact .done
    | cons c text ih =>
        rw [List.flatMap_cons, List.map_cons]
        exact .character ih

/-- A text without ill-formed parts is the encoding of a string. -/
theorem decode?_eq_some_iff {bytes : List UInt8} {text : String} :
    decode? bytes = some text ↔ bytes = text.toUTF8.data.toList := by
  rw [toList_data_toUTF8, ← parts_map_some_iff, parts_iff, decode?]
  generalize decodeParts bytes = parts
  constructor
  · intro h
    obtain ⟨hall, htext⟩ := Option.ite_none_right_eq_some.1 h
    rw [← Option.some.inj htext, String.toList_ofList, List.map_filterMap_some_eq_filter_map_isSome,
      List.map_id, List.filter_eq_self.2 (List.all_eq_true.1 hall)]
  · rintro rfl
    simp

/-! ## Bytes outside ASCII -/

theorem le_toNat_of_mem_utf8EncodeChar {c : Char} {b : UInt8} (hc : 128 ≤ c.toNat)
    (hb : b ∈ String.utf8EncodeChar c) : 128 ≤ b.toNat := by
  have hencodes : Encodes (String.utf8EncodeChar c) c := encodes_iff.2 rfl
  generalize String.utf8EncodeChar c = bytes at hb hencodes
  cases hencodes with
  | one hn =>
      rw [toNat_ofNat (.inl (by omega))] at hc
      omega
  | two hn hn' hd =>
      simp only [List.mem_cons, List.not_mem_nil, or_false] at hb
      obtain rfl | rfl := hb <;> simp <;> omega
  | three hn hd hd' hlong hvalid =>
      simp only [List.mem_cons, List.not_mem_nil, or_false] at hb
      obtain rfl | rfl | rfl := hb <;> simp <;> omega
  | four hn hd hd' he hlong hvalid =>
      simp only [List.mem_cons, List.not_mem_nil, or_false] at hb
      obtain rfl | rfl | rfl | rfl := hb <;> simp <;> omega

theorem utf8EncodeChar_of_lt {n : Nat} (h : n < 128) :
    String.utf8EncodeChar (Char.ofNat n) = [.ofNat n] :=
  (Encodes.one h).utf8EncodeChar_eq

/-- No byte of ASCII gets into an ill-formed part. -/
theorem IllFormed.le_toNat_of_mem {part rest : List UInt8} {b : UInt8} (h : IllFormed part rest)
    (hb : b ∈ part) : 128 ≤ b.toNat := by
  rcases h.begins with ⟨c, hfront⟩ | hone
  · rcases Nat.lt_or_ge c.toNat 128 with hc | hc
    · have hencoded : String.utf8EncodeChar c = [.ofNat c.toNat] := by
        rw [← utf8EncodeChar_of_lt hc, Char.ofNat_toNat]
      have hlength : (String.utf8EncodeChar c).length ≤ part.length := by
        rw [hencoded]
        exact List.length_pos_iff.2 h.ne_nil
      exact (h.incomplete c (hfront.eq_of_length_le hlength).symm).elim
    · exact le_toNat_of_mem_utf8EncodeChar hc (hfront.subset hb)
  · obtain ⟨b', rfl⟩ := List.length_eq_one_iff.1 hone
    obtain rfl := List.mem_singleton.1 hb
    apply Nat.le_of_not_lt
    intro hlt
    have hencoded := utf8EncodeChar_of_lt hlt
    rw [UInt8.ofNat_toNat] at hencoded
    exact h.incomplete _ hencoded

end Text.Utf8

namespace Instruction

/-- The instruction that a byte stands for; `none` for a byte of a comment. -/
def ofByte? : UInt8 → Option Instruction
  | 0x3E => some moveRight
  | 0x3C => some moveLeft
  | 0x2B => some increment
  | 0x2D => some decrement
  | 0x2E => some output
  | 0x2C => some input
  | 0x5B => some loopStart
  | 0x5D => some loopEnd
  | _ => none

theorem ofByte?_ofNat : ∀ n < 128, ofByte? (.ofNat n) = ofChar? (Char.ofNat n) := by
  decide

theorem ofByte?_eq_none {b : UInt8} (h : 128 ≤ b.toNat) : ofByte? b = none := by
  unfold ofByte?
  split <;> first | rfl | (simp at h)

theorem ofChar?_eq_none {c : Char} (h : 128 ≤ c.toNat) : ofChar? c = none := by
  rw [Option.eq_none_iff_forall_ne_some]
  intro i hi
  obtain rfl := ofChar?_eq_some_iff.1 hi
  revert h
  cases i <;> decide

theorem filterMap_utf8EncodeChar (c : Char) :
    (String.utf8EncodeChar c).filterMap ofByte? = (ofChar? c).toList := by
  rcases Nat.lt_or_ge c.toNat 128 with hc | hc
  · rw [← Char.ofNat_toNat c, Text.Utf8.utf8EncodeChar_of_lt hc, ← ofByte?_ofNat _ hc]
    cases hb : ofByte? (.ofNat c.toNat) <;> simp [hb]
  · rw [ofChar?_eq_none hc, Option.toList_none, List.filterMap_eq_nil_iff]
    intro b hb
    exact ofByte?_eq_none (Text.Utf8.le_toNat_of_mem_utf8EncodeChar hc hb)

open Text.Utf8 in
/-- An ill-formed part holds no instruction, and a character holds the one it is written as. -/
theorem filterMap_parts {bytes : List UInt8} {parts : List (Option Char)} (h : Parts bytes parts) :
    (parts.map (·.getD replacement)).filterMap ofChar? = bytes.filterMap ofByte? := by
  induction h with
  | done => rfl
  | @character c rest parts _ ih =>
      rw [List.map_cons, Option.getD_some, List.filterMap_append, filterMap_utf8EncodeChar, ← ih]
      cases hc : ofChar? c <;> simp [hc]
  | @illFormed part rest parts hpart _ ih =>
      have hnone : part.filterMap ofByte? = [] := by
        rw [List.filterMap_eq_nil_iff]
        intro b hb
        exact ofByte?_eq_none (hpart.le_toNat_of_mem hb)
      rw [List.map_cons, Option.getD_none, List.filterMap_append, hnone, List.nil_append, ← ih]
      rfl

theorem ofSource_decodeLossy (bytes : List UInt8) :
    ofSource (Text.Utf8.decodeLossy bytes) = bytes.filterMap ofByte? := by
  rw [ofSource, Text.Utf8.decodeLossy, String.toList_ofList]
  exact filterMap_parts (Text.Utf8.parts_decodeParts bytes)

end Instruction

/-- The program of a file is written in its instruction bytes alone.  Lossy decoding keeps every
character and replaces every ill-formed part, the text read in the one possible way; whatever the
parts are, the instructions are the instruction bytes in their order.  So files with the same
instruction bytes are accepted with the same instructions and loops, or refused at the same
address. -/
theorem Program.parse_decodeLossy (bytes : List UInt8) :
    (∃ parts, (∀ other, Text.Utf8.Parts bytes other ↔ other = parts) ∧
      Text.Utf8.decodeLossy bytes = String.ofList (parts.map (·.getD '\uFFFD'))) ∧
    Instruction.ofSource (Text.Utf8.decodeLossy bytes) = bytes.filterMap Instruction.ofByte? ∧
    (∀ program, parse (Text.Utf8.decodeLossy bytes) = .ok program →
      program.code.toList = bytes.filterMap Instruction.ofByte?) ∧
    (∀ other : List UInt8,
      other.filterMap Instruction.ofByte? = bytes.filterMap Instruction.ofByte? →
        parse (Text.Utf8.decodeLossy other) = parse (Text.Utf8.decodeLossy bytes)) ∧
    ∀ (host : Host) (a : CommandLine.Arguments) (path : String), a.code = none →
      a.file = some path → host.file path = .ok bytes →
        CommandLine.findSource host a = .ok (path, Text.Utf8.decodeLossy bytes) := by
  refine ⟨⟨Text.Utf8.decodeParts bytes, ?_, rfl⟩, Instruction.ofSource_decodeLossy bytes,
    ?_, ?_, ?_⟩
  · intro other
    rw [Text.Utf8.parts_iff, eq_comm]
  · intro program hprogram
    rw [toList_code_of_parse hprogram, Instruction.ofSource_decodeLossy]
  · intro other hother
    rw [parse, parse, Instruction.ofSource_decodeLossy, Instruction.ofSource_decodeLossy, hother]
  · intro host a path hcode hfile hbytes
    rw [CommandLine.findSource, hcode, hfile]
    dsimp only
    rw [hbytes]

/-- Each of these four instructions cuts off a character, a surrogate or an overlong form. -/
theorem Program.parse_decodeLossy_torn :
    let torn : List UInt8 :=
      [0xE2, 0x82, 0x2B, 0xED, 0xA0, 0x5B, 0xC0, 0x2D, 0xF0, 0x9F, 0x98, 0x5D, 0xC3]
    let plain : List UInt8 := [0x2B, 0x5B, 0x2D, 0x5D]
    ∃ program, parse (Text.Utf8.decodeLossy torn) = .ok program ∧
      program.code.toList = [.increment, .loopStart, .decrement, .loopEnd] ∧
      plain.filterMap Instruction.ofByte? = torn.filterMap Instruction.ofByte? ∧
      parse (Text.Utf8.decodeLossy plain) = parse (Text.Utf8.decodeLossy torn) ∧
      CommandLine.findSource ⟨fun _ => none, fun _ => .ok torn⟩ { file := some "torn.bf" } =
        .ok ("torn.bf", Text.Utf8.decodeLossy torn) := by
  intro torn plain
  obtain ⟨-, hsource, hcode, hplain, hfile⟩ := parse_decodeLossy torn
  have hsame : plain.filterMap Instruction.ofByte? = torn.filterMap Instruction.ofByte? := by
    decide
  have hparse : ∃ program, parse (Text.Utf8.decodeLossy torn) = .ok program := by
    rw [parse, hsource]
    exact ⟨_, by rfl⟩
  obtain ⟨program, hprogram⟩ := hparse
  exact ⟨program, hprogram, (hcode program hprogram).trans (by decide), hsame, hplain plain hsame,
    hfile _ _ _ rfl rfl rfl⟩

end TapeMachine
