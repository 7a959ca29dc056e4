import Mathlib.Tactic.SplitIfs
import TapeMachine.Text.Utf8

/-!
# Encoded characters

Which bytes the decoder takes as one character.  The encoding itself is the standard one,
`String.utf8EncodeChar`; written in base 64, it has the four forms of `Encodes`.  The decoder's
ranges for the second byte cut out exactly the values that those forms leave over, so the decoder
completes a character on its encoding and on no other bytes: `character?_eq_some_iff`.
-/

namespace TapeMachine.Text.Utf8

/-- The character that an unfinished one becomes, if these bytes are just what it misses. -/
def complete? (p : Unfinished) : List UInt8 → Option Char
  | [] => none
  | b :: rest =>
      if p.low ≤ b ∧ b ≤ p.high then
        if p.missing ≤ 1 then
          if rest = [] then some (Char.ofNat (64 * p.value + (b.toNat - 0x80))) else none
        else complete? ⟨p.missing - 1, 0x80, 0xBF, 64 * p.value + (b.toNat - 0x80)⟩ rest
      else none

/-- The character that the decoder finds in these bytes, if they are one character. -/
def character? : List UInt8 → Option Char
  | [] => none
  | b :: rest =>
      match lead b with
      | .complete c => if rest = [] then some c else none
      | .starts p => complete? p rest
      | .illFormed => none

/-- The forms of an encoded character, by its digits in base 64.  Of three bytes the first two keep
above the shorter forms and off the surrogates, of four they keep within U+10FFFF. -/
inductive Encodes : List UInt8 → Char → Prop where
  | one {n : Nat} : n < 128 → Encodes [.ofNat n] (Char.ofNat n)
  | two {n d : Nat} : 2 ≤ n → n < 32 → d < 64 →
      Encodes [.ofNat (n + 192), .ofNat (d + 128)] (Char.ofNat (64 * n + d))
  | three {n d d' : Nat} : n < 16 → d < 64 → d' < 64 →
      32 ≤ 64 * n + d → (64 * n + d < 864 ∨ 896 ≤ 64 * n + d) →
      Encodes [.ofNat (n + 224), .ofNat (d + 128), .ofNat (d' + 128)]
        (Char.ofNat (64 * (64 * n + d) + d'))
  | four {n d d' e : Nat} : n < 5 → d < 64 → d' < 64 → e < 64 →
      16 ≤ 64 * n + d → 64 * n + d < 272 →
      Encodes [.ofNat (n + 240), .ofNat (d + 128), .ofNat (d' + 128), .ofNat (e + 128)]
        (Char.ofNat (64 * (64 * (64 * n + d) + d') + e))

/-! ## The forms are those of the standard encoding -/

theorem toNat_ofNat {n : Nat} (h : n.isValidChar) : (Char.ofNat n).toNat = n := by
  rw [Char.ofNat, dif_pos h]
  rfl

theorem utf8EncodeChar_ofNat {n : Nat} (h : n.isValidChar) :
    String.utf8EncodeChar (Char.ofNat n) =
      if n ≤ 127 then [.ofNat n]
      else if n ≤ 2047 then [.ofNat (n / 64 % 32 + 192), .ofNat (n % 64 + 128)]
      else if n ≤ 65535 then
        [.ofNat (n / 4096 % 16 + 224), .ofNat (n / 64 % 64 + 128), .ofNat (n % 64 + 128)]
      else
        [.ofNat (n / 262144 % 8 + 240), .ofNat (n / 4096 % 64 + 128), .ofNat (n / 64 % 64 + 128),
          .ofNat (n % 64 + 128)] := by
  have hval : (Char.ofNat n).val.toNat = n := toNat_ofNat h
  simp only [String.utf8EncodeChar, hval]

theorem Encodes.utf8EncodeChar_eq {bytes : List UInt8} {c : Char} (h : Encodes bytes c) :
    String.utf8EncodeChar c = bytes := by
  cases h with
  | one hn => rw [utf8EncodeChar_ofNat (.inl (by omega)), if_pos (by omega)]
  | @two n d hn hn' hd =>
      have h1 : (64 * n + d) / 64 % 32 = n := by omega
      have h2 : (64 * n + d) % 64 = d := by omega
      rw [utf8EncodeChar_ofNat (.inl (by omega)), if_neg (by omega), if_pos (by omega), h1, h2]
  | @three n d d' hn hd hd' hlong hvalid =>
      have h1 : (64 * (64 * n + d) + d') / 4096 % 16 = n := by omega
      have h2 : (64 * (64 * n + d) + d') / 64 % 64 = d := by omega
      have h3 : (64 * (64 * n + d) + d') % 64 = d' := by omega
      rw [utf8EncodeChar_ofNat (by rw [Nat.isValidChar]; omega), if_neg (by omega),
        if_neg (by omega), if_pos (by omega), h1, h2, h3]
  | @four n d d' e hn hd hd' he hlong hvalid =>
      have h1 : (64 * (64 * (64 * n + d) + d') + e) / 262144 % 8 = n := by omega
      have h2 : (64 * (64 * (64 * n + d) + d') + e) / 4096 % 64 = d := by omega
      have h3 : (64 * (64 * (64 * n + d) + d') + e) / 64 % 64 = d' := by omega
      have h4 : (64 * (64 * (64 * n + d) + d') + e) % 64 = e := by omega
      rw [utf8EncodeChar_ofNat (.inr ⟨by omega, by omega⟩), if_neg (by omega),
        if_neg (by omega), if_neg (by omega), h1, h2, h3, h4]

theorem exists_encodes (c : Char) : ∃ bytes, Encodes bytes c := by
  have hvalid : c.toNat < 0xD800 ∨ 0xDFFF < c.toNat ∧ c.toNat < 0x110000 := c.valid
  rw [← Char.ofNat_toNat c]
  generalize c.toNat = n at hvalid
  rcases Nat.lt_or_ge n 0x80 with h1 | h1
  · exact ⟨_, .one h1⟩
  rcases Nat.lt_or_ge n 0x800 with h2 | h2
  · have hdigits : n = 64 * (n / 64) + n % 64 := by omega
    rw [hdigits]
    exact ⟨_, .two (by omega) (by omega) (by omega)⟩
  rcases Nat.lt_or_ge n 0x10000 with h3 | h3
  · have hdigits : n = 64 * (64 * (n / 4096) + n / 64 % 64) + n % 64 := by omega
    rw [hdigits]
    exact ⟨_, .three (by omega) (by omega) (by omega) (by omega) (by omega)⟩
  · have hdigits : n = 64 * (64 * (64 * (n / 262144) + n / 4096 % 64) + n / 64 % 64) + n % 64 := by
      omega
    rw [hdigits]
    exact ⟨_, .four (by omega) (by omega) (by omega) (by omega) (by omega) (by omega)⟩

theorem encodes_iff {bytes : List UInt8} {c : Char} :
    Encodes bytes c ↔ String.utf8EncodeChar c = bytes := by
  constructor
  · exact Encodes.utf8EncodeChar_eq
  · rintro rfl
    obtain ⟨bytes, h⟩ := exists_encodes c
    exact h.utf8EncodeChar_eq ▸ h

/-! ## The forms are those that the decoder completes -/

theorem lead_ofNat {n : Nat} (h : n < 256) :
    lead (.ofNat n) =
      if n < 0x80 then .complete (Char.ofNat n)
      else if n < 0xC2 then .illFormed
      else if n < 0xE0 then .starts ⟨1, 0x80, 0xBF, n - 0xC0⟩
      else if n < 0xF0 then
        .starts ⟨2, if n = 0xE0 then 0xA0 else 0x80, if n = 0xED then 0x9F else 0xBF, n - 0xE0⟩
      else if n < 0xF5 then
        .starts ⟨3, if n = 0xF0 then 0x90 else 0x80, if n = 0xF4 then 0x8F else 0xBF, n - 0xF0⟩
      else .illFormed := by
  have hmod : n % 256 = n := Nat.mod_eq_of_lt h
  have hascii (hlt : n < 0x80) : Char.ofUInt8 (.ofNat n) = Char.ofNat n := by
    apply Char.toNat_inj.1
    rw [toNat_ofNat (.inl (by omega))]
    change (UInt8.ofNat n).toUInt32.toNat = n
    rw [UInt8.toNat_toUInt32, UInt8.toNat_ofNat', hmod]
  simp only [lead, UInt8.lt_iff_toNat_lt, ← UInt8.toNat_inj, UInt8.toNat_ofNat', UInt8.toNat_ofNat,
    Nat.reducePow, Nat.reduceMod, hmod]
  split_ifs with hlt
  all_goals first | rfl | rw [hascii hlt]

theorem lead_one {n : Nat} (h : n < 128) : lead (.ofNat n) = .complete (Char.ofNat n) := by
  rw [lead_ofNat (by omega), if_pos h]

theorem lead_two {n : Nat} (h : 2 ≤ n) (h' : n < 32) :
    lead (.ofNat (n + 192)) = .starts ⟨1, 0x80, 0xBF, n⟩ := by
  rw [lead_ofNat (by omega), if_neg (by omega), if_neg (by omega), if_pos (by omega),
    Nat.add_sub_cancel]

theorem lead_three {n : Nat} (h : n < 16) :
    ∃ low high, lead (.ofNat (n + 224)) = .starts ⟨2, low, high, n⟩ ∧
      0x80 ≤ low.toNat ∧ low ≤ high ∧ high.toNat ≤ 0xBF ∧
      ∀ d < 64, low.toNat ≤ d + 128 ∧ d + 128 ≤ high.toNat ↔
        32 ≤ 64 * n + d ∧ (64 * n + d < 864 ∨ 896 ≤ 64 * n + d) := by
  refine ⟨if n + 224 = 0xE0 then 0xA0 else 0x80, if n + 224 = 0xED then 0x9F else 0xBF,
    ?_, ?_, ?_, ?_, ?_⟩
  · rw [lead_ofNat (by omega), if_neg (by omega), if_neg (by omega), if_neg (by omega),
      if_pos (by omega), Nat.add_sub_cancel]
  · split_ifs <;> simp
  · split_ifs <;> first | omega | decide
  · split_ifs <;> simp
  · intro d hd
    split_ifs <;> simp <;> omega

theorem lead_four {n : Nat} (h : n < 5) :
    ∃ low high, lead (.ofNat (n + 240)) = .starts ⟨3, low, high, n⟩ ∧
      0x80 ≤ low.toNat ∧ low ≤ high ∧ high.toNat ≤ 0xBF ∧
      ∀ d < 64, low.toNat ≤ d + 128 ∧ d + 128 ≤ high.toNat ↔
        16 ≤ 64 * n + d ∧ 64 * n + d < 272 := by
  refine ⟨if n + 240 = 0xF0 then 0x90 else 0x80, if n + 240 = 0xF4 then 0x8F else 0xBF,
    ?_, ?_, ?_, ?_, ?_⟩
  · rw [lead_ofNat (by omega), if_neg (by omega), if_neg (by omega), if_neg (by omega),
      if_neg (by omega), if_pos (by omega), Nat.add_sub_cancel]
  · split_ifs <;> simp
  · split_ifs <;> first | omega | decide
  · split_ifs <;> simp
  · intro d hd
    split_ifs <;> simp <;> omega

theorem lead_cases (b : UInt8) :
    (∃ n < 128, b = .ofNat n) ∨ (∃ n, 2 ≤ n ∧ n < 32 ∧ b = .ofNat (n + 192)) ∨
      (∃ n < 16, b = .ofNat (n + 224)) ∨ (∃ n < 5, b = .ofNat (n + 240)) ∨
      lead b = .illFormed := by
  obtain ⟨n, hn, rfl⟩ : ∃ n < 256, b = .ofNat n := ⟨b.toNat, b.toNat_lt, by simp⟩
  have hshift (k : Nat) (hk : k ≤ n) : UInt8.ofNat n = .ofNat (n - k + k) := by
    rw [Nat.sub_add_cancel hk]
  rcases Nat.lt_or_ge n 0x80 with h1 | h1
  · exact .inl ⟨n, h1, rfl⟩
  rcases Nat.lt_or_ge n 0xC2 with h2 | h2
  · right; right; right; right
    rw [lead_ofNat hn, if_neg (by omega), if_pos h2]
  rcases Nat.lt_or_ge n 0xE0 with h3 | h3
  · exact .inr (.inl ⟨n - 192, by omega, by omega, hshift 192 (by omega)⟩)
  rcases Nat.lt_or_ge n 0xF0 with h4 | h4
  · exact .inr (.inr (.inl ⟨n - 224, by omega, hshift 224 h3⟩))
  rcases Nat.lt_or_ge n 0xF5 with h5 | h5
  · exact .inr (.inr (.inr (.inl ⟨n - 240, by omega, hshift 240 h4⟩)))
  · right; right; right; right
    rw [lead_ofNat hn, if_neg (by omega), if_neg (by omega), if_neg (by omega), if_neg (by omega),
      if_neg (by omega)]

/-- A byte in the range adds one digit. -/
theorem complete?_eq_some_iff {low high : UInt8} {missing value : Nat} {bytes : List UInt8}
    {c : Char} (hlow : 0x80 ≤ low.toNat) (hhigh : high.toNat ≤ 0xBF) :
    complete? ⟨missing, low, high, value⟩ bytes = some c ↔
      ∃ d < 64, (low.toNat ≤ d + 128 ∧ d + 128 ≤ high.toNat) ∧
        ∃ rest, bytes = .ofNat (d + 128) :: rest ∧
          if missing ≤ 1 then rest = [] ∧ Char.ofNat (64 * value + d) = c
          else complete? ⟨missing - 1, 0x80, 0xBF, 64 * value + d⟩ rest = some c := by
  constructor
  · intro h
    cases bytes with
    | nil => cases h
    | cons b rest =>
        rw [complete?] at h
        split at h
        case isFalse => cases h
        case isTrue hrange =>
          simp only [UInt8.le_iff_toNat_le] at hrange
          have hsub : b.toNat - 0x80 + 128 = b.toNat := by omega
          refine ⟨b.toNat - 0x80, by omega, hsub.symm ▸ hrange, rest, ?_, ?_⟩
          · rw [hsub, UInt8.ofNat_toNat]
          · split_ifs at h ⊢ with hlast hrest
            · exact ⟨hrest, Option.some.inj h⟩
            · exact h
  · rintro ⟨d, hd, hrange, rest, rfl, h⟩
    have hmod : (d + 128) % 256 = d + 128 := Nat.mod_eq_of_lt (by omega)
    simp only [complete?, UInt8.le_iff_toNat_le, UInt8.toNat_ofNat', Nat.reducePow, hmod, hrange,
      and_self, if_true, Nat.add_sub_cancel]
    split_ifs at h ⊢ with hlast hrest
    · rw [h.2]
    · exact (hrest h.1).elim
    · exact h

/-- Behind the second byte nothing is excluded any more. -/
theorem complete?_tail_iff {missing value : Nat} {bytes : List UInt8} {c : Char} :
    complete? ⟨missing, 0x80, 0xBF, value⟩ bytes = some c ↔
      ∃ d < 64, ∃ rest, bytes = .ofNat (d + 128) :: rest ∧
        if missing ≤ 1 then rest = [] ∧ Char.ofNat (64 * value + d) = c
        else complete? ⟨missing - 1, 0x80, 0xBF, 64 * value + d⟩ rest = some c := by
  rw [complete?_eq_some_iff (by decide) (by decide)]
  constructor
  · rintro ⟨d, hd, -, hrest⟩
    exact ⟨d, hd, hrest⟩
  · rintro ⟨d, hd, hrest⟩
    exact ⟨d, hd, ⟨Nat.le_add_left _ _, Nat.add_le_add_right (Nat.le_of_lt_succ hd) 128⟩, hrest⟩

theorem encodes_of_character? {bytes : List UInt8} {c : Char} (h : character? bytes = some c) :
    Encodes bytes c := by
  cases bytes with
  | nil => cases h
  | cons b rest =>
      rw [character?] at h
      obtain ⟨n, hn, rfl⟩ | ⟨n, hn, hn', rfl⟩ | ⟨n, hn, rfl⟩ | ⟨n, hn, rfl⟩ | hlead := lead_cases b
      · rw [lead_one hn] at h
        dsimp only at h
        split_ifs at h with hrest
        obtain rfl := Option.some.inj h
        exact hrest ▸ .one hn
      · rw [lead_two hn hn'] at h
        obtain ⟨d, hd, _, rfl, rfl, rfl⟩ := complete?_tail_iff.1 h
        exact .two hn hn' hd
      · obtain ⟨low, high, hlead, hlow, -, hhigh, hrange⟩ := lead_three hn
        rw [hlead] at h
        obtain ⟨d, hd, hsecond, rest, rfl, hlast⟩ := (complete?_eq_some_iff hlow hhigh).1 h
        obtain ⟨d', hd', _, rfl, rfl, rfl⟩ := complete?_tail_iff.1 hlast
        obtain ⟨hlong, hvalid⟩ := (hrange d hd).1 hsecond
        exact .three hn hd hd' hlong hvalid
      · obtain ⟨low, high, hlead, hlow, -, hhigh, hrange⟩ := lead_four hn
        rw [hlead] at h
        obtain ⟨d, hd, hsecond, rest, rfl, hmore⟩ := (complete?_eq_some_iff hlow hhigh).1 h
        obtain ⟨d', hd', rest', rfl, hlast⟩ := complete?_tail_iff.1 hmore
        obtain ⟨e, he, _, rfl, rfl, rfl⟩ := complete?_tail_iff.1 hlast
        obtain ⟨hlong, hvalid⟩ := (hrange d hd).1 hsecond
        exact .four hn hd hd' he hlong hvalid
      · rw [hlead] at h
        cases h

theorem Encodes.character?_eq {bytes : List UInt8} {c : Char} (h : Encodes bytes c) :
    character? bytes = some c := by
  cases h with
  | one hn =>
      rw [character?, lead_one hn]
      rfl
  | two hn hn' hd =>
      rw [character?, lead_two hn hn']
      exact complete?_tail_iff.2 ⟨_, hd, _, rfl, rfl, rfl⟩
  | three hn hd hd' hlong hvalid =>
      obtain ⟨low, high, hlead, hlow, -, hhigh, hrange⟩ := lead_three hn
      rw [character?, hlead]
      apply (complete?_eq_some_iff hlow hhigh).2
      refine ⟨_, hd, (hrange _ hd).2 ⟨hlong, hvalid⟩, _, rfl, ?_⟩
      exact complete?_tail_iff.2 ⟨_, hd', _, rfl, rfl, rfl⟩
  | four hn hd hd' he hlong hvalid =>
      obtain ⟨low, high, hlead, hlow, -, hhigh, hrange⟩ := lead_four hn
      rw [character?, hlead]
      apply (complete?_eq_some_iff hlow hhigh).2
      refine ⟨_, hd, (hrange _ hd).2 ⟨hlong, hvalid⟩, _, rfl, ?_⟩
      apply complete?_tail_iff.2
      refine ⟨_, hd', _, rfl, ?_⟩
      exact complete?_tail_iff.2 ⟨_, he, _, rfl, rfl, rfl⟩

theorem character?_eq_some_iff {bytes : List UInt8} {c : Char} :
    character? bytes = some c ↔ String.utf8EncodeChar c = bytes := by
  rw [← encodes_iff]
  exact ⟨encodes_of_character?, Encodes.character?_eq⟩

/-- An unfinished character can always be completed: its range for the next byte is not empty. -/
theorem low_le_high_of_lead {b : UInt8} {p : Unfinished} (h : lead b = .starts p) :
    p.low ≤ p.high := by
  obtain ⟨n, hn, rfl⟩ | ⟨n, hn, hn', rfl⟩ | ⟨n, hn, rfl⟩ | ⟨n, hn, rfl⟩ | hlead := lead_cases b
  · rw [lead_one hn] at h
    cases h
  · rw [lead_two hn hn'] at h
    obtain rfl := Lead.starts.inj h
    exact (by decide : (0x80 : UInt8) ≤ 0xBF)
  · obtain ⟨low, high, hlead, -, hle, -⟩ := lead_three hn
    rw [hlead] at h
    obtain rfl := Lead.starts.inj h
    exact hle
  · obtain ⟨low, high, hlead, -, hle, -⟩ := lead_four hn
    rw [hlead] at h
    obtain rfl := Lead.starts.inj h
    exact hle
  · rw [hlead] at h
    cases h

theorem exists_complete? {missing value : Nat} {low high : UInt8} (h : low ≤ high) :
    ∃ rest c, complete? ⟨missing, low, high, value⟩ rest = some c := by
  induction missing generalizing low high value with
  | zero => exact ⟨[low], _, by rw [complete?, if_pos ⟨UInt8.le_refl low, h⟩]; rfl⟩
  | succ missing ih =>
      obtain ⟨rest, c, hrest⟩ : ∃ rest c, complete? ⟨missing, 0x80, 0xBF,
          64 * value + (low.toNat - 0x80)⟩ rest = some c := ih (by decide)
      cases missing with
      | zero => exact ⟨[low], _, by rw [complete?, if_pos ⟨UInt8.le_refl low, h⟩]; rfl⟩
      | succ missing =>
          refine ⟨low :: rest, c, ?_⟩
          rw [complete?, if_pos ⟨UInt8.le_refl low, h⟩, if_neg (by simp)]
          exact hrest

end TapeMachine.Text.Utf8
