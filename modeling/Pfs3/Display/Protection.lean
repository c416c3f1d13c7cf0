import Pfs3.Model.Util
import Mathlib.Tactic.IntervalCases

/-!
# Protection bits as they are shown and set

A specification such as `rwed`, `+p` or `-wd` says which letters a listing shall show. The letters
of the upper four bits are shown where the bit is set, those of the lower four where it is not.
-/

namespace Pfs3

namespace Util

/-! ## The bits of a byte -/

section Bits

variable {p q : UInt8} {i j : ℕ}

def bit (p : UInt8) (i : ℕ) : Bool := p.toBitVec.getLsbD i

/-- The byte whose only bit is `i`. -/
def single (i : ℕ) : UInt8 := ⟨BitVec.twoPow 8 i⟩

theorem byte_ext (h : ∀ i < 8, bit p i = bit q i) : p = q :=
  UInt8.toBitVec_inj.mp (BitVec.eq_of_getLsbD_eq fun i hi => h i hi)

theorem bit_or_single (hi : i < 8) : bit (p ||| single i) j = (bit p j || decide (i = j)) := by
  rw [bit, UInt8.toBitVec_or, BitVec.getLsbD_or, single, BitVec.getLsbD_twoPow, decide_eq_true hi,
    Bool.true_and]
  rfl

theorem bit_clear_single (hj : j < 8) (hi : i < 8) :
    bit (p &&& ~~~single i) j = (bit p j && !decide (i = j)) := by
  rw [bit, UInt8.toBitVec_and, UInt8.toBitVec_not, BitVec.getLsbD_and, BitVec.getLsbD_not, single,
    BitVec.getLsbD_twoPow, decide_eq_true hi, decide_eq_true hj, Bool.true_and, Bool.true_and]
  rfl

theorem and_single_eq_zero (hi : i < 8) : p &&& single i = 0 ↔ bit p i = false := by
  rw [← UInt8.toBitVec_inj, UInt8.toBitVec_and, single, BitVec.and_twoPow, bit]
  cases p.toBitVec.getLsbD i with
  | false => simp
  | true =>
      have hne : BitVec.twoPow 8 i ≠ 0#8 := fun h => by
        have hbit := congrArg (fun x => x.getLsbD i) h
        simp [hi] at hbit
      simpa using hne

end Bits

/-! ## Letters -/

/-- The letters in the order of the bits, from the highest on. -/
def letters : Name := ['h', 's', 'p', 'a', 'r', 'w', 'e', 'd']

def bitOf (c : Char) : ℕ := 7 - letters.idxOf c

theorem bitOf_lt (c : Char) : bitOf c < 8 := by
  unfold bitOf
  omega

theorem bitOf_inj : ∀ c ∈ letters, ∀ d ∈ letters, bitOf c = bitOf d → c = d := by
  intro c hc d hd h
  have hc' := List.idxOf_lt_length_of_mem hc
  have hd' := List.idxOf_lt_length_of_mem hd
  have hlen : letters.length = 8 := rfl
  exact (List.idxOf_inj hc).mp (by unfold bitOf at h; omega)

/-- Whether a listing shows the letter. -/
def Granted (p : UInt8) (c : Char) : Bool := bit p (bitOf c) == decide (4 ≤ bitOf c)

variable {p q : UInt8} {c d : Char} {less : Bool}

theorem granted_ext (h : ∀ c ∈ letters, Granted p c = Granted q c) : p = q := by
  have hbit : ∀ c ∈ letters, bit p (bitOf c) = bit q (bitOf c) := fun c hc => by
    have hg := h c hc
    unfold Granted at hg
    cases hp : bit p (bitOf c) <;> cases hq : bit q (bitOf c) <;>
      cases hd : decide (4 ≤ bitOf c) <;> simp_all
  refine byte_ext fun i hi => ?_
  have hmem : i ∈ letters.map bitOf := by
    interval_cases i <;> decide
  obtain ⟨c, hc, rfl⟩ := List.mem_map.mp hmem
  exact hbit c hc

theorem amigaProtectionString_eq (p : UInt8) :
    amigaProtectionString p = letters.map fun c => if Granted p c then c else '-' := by
  have hset : ∀ i < 8, (p &&& single i ≠ 0 ↔ bit p i = true) := fun i hi => by
    rw [ne_eq, and_single_eq_zero hi, Bool.not_eq_false]
  have hclear : ∀ i < 8, (p &&& single i = 0 ↔ bit p i = false) := fun i hi =>
    and_single_eq_zero hi
  simp only [letters, List.map_cons, List.map_nil, amigaProtectionString, Granted]
  rw [show (0x80 : UInt8) = single 7 from rfl, show (0x40 : UInt8) = single 6 from rfl,
    show (0x20 : UInt8) = single 5 from rfl, show (0x10 : UInt8) = single 4 from rfl,
    show (0x08 : UInt8) = single 3 from rfl, show (0x04 : UInt8) = single 2 from rfl,
    show (0x02 : UInt8) = single 1 from rfl, show (0x01 : UInt8) = single 0 from rfl]
  simp only [hset _ (show 7 < 8 by decide), hset _ (show 6 < 8 by decide),
    hset _ (show 5 < 8 by decide), hset _ (show 4 < 8 by decide),
    hclear _ (show 3 < 8 by decide), hclear _ (show 2 < 8 by decide),
    hclear _ (show 1 < 8 by decide), hclear _ (show 0 < 8 by decide)]
  simp [bitOf, letters]

/-- A letter is shown just when it stands in the text. -/
theorem mem_amigaProtectionString (hc : c ∈ letters) :
    c ∈ amigaProtectionString p ↔ Granted p c = true := by
  rw [amigaProtectionString_eq, List.mem_map]
  constructor
  · rintro ⟨d, hd, h⟩
    split_ifs at h with hg
    · exact h ▸ hg
    · subst h
      exact absurd hc (by decide)
  · exact fun hg => ⟨c, hc, if_pos hg⟩

/-! ## Specifications -/

/-- The byte with the letter granted, or denied. -/
def withLetter (less : Bool) (p : UInt8) (c : Char) : UInt8 :=
  if decide (4 ≤ bitOf c) = less then p &&& ~~~single (bitOf c) else p ||| single (bitOf c)

theorem applyLetter_of_mem (hc : c ∈ letters) :
    applyLetter less p c = some (withLetter less p c) := by
  have hall : ∀ c ∈ letters, ∀ less, applyLetter less p c = some (withLetter less p c) := by
    simp only [letters, List.forall_mem_cons, List.not_mem_nil, false_implies, implies_true,
      and_true, Bool.forall_bool]
    refine ⟨⟨rfl, rfl⟩, ⟨rfl, rfl⟩, ⟨rfl, rfl⟩, ⟨rfl, rfl⟩, ⟨rfl, rfl⟩, ⟨rfl, rfl⟩, ⟨rfl, rfl⟩,
      ⟨rfl, rfl⟩⟩
  exact hall c hc less

theorem applyLetter_of_not_mem (hc : c ∉ letters) : applyLetter less p c = none := by
  unfold applyLetter
  split <;> first | rfl | exact absurd (by decide) hc

theorem granted_withLetter (hc : c ∈ letters) (hd : d ∈ letters) :
    Granted (withLetter less p c) d = if d = c then !less else Granted p d := by
  unfold Granted withLetter
  by_cases hdc : d = c
  · subst hdc
    rw [if_pos rfl]
    split_ifs with h
    · rw [bit_clear_single (bitOf_lt _) (bitOf_lt _), h]
      cases less <;> simp
    · rw [bit_or_single (bitOf_lt _)]
      cases less <;> simp_all
  · have hne : bitOf c ≠ bitOf d := fun h => hdc (bitOf_inj c hc d hd h).symm
    rw [if_neg hdc]
    split_ifs
    · rw [bit_clear_single (bitOf_lt _) (bitOf_lt _), decide_eq_false hne, Bool.not_false,
        Bool.and_true]
    · rw [bit_or_single (bitOf_lt _), decide_eq_false hne, Bool.or_false]

/-- The letters of a specification one after the other. -/
theorem foldlM_applyLetter (chars : Name) : ∀ {p : UInt8},
    chars.foldlM (applyLetter less) p = some q ↔ (∀ c ∈ chars, c ∈ letters) ∧
      ∀ c ∈ letters, Granted q c = if c ∈ chars then !less else Granted p c := by
  induction chars with
  | nil =>
      intro p
      simp only [List.foldlM_nil, List.not_mem_nil, false_implies, implies_true, true_and, if_false]
      constructor
      · rintro ⟨⟩ c -
        rfl
      · exact fun h => congrArg some (granted_ext fun c hc => (h c hc).symm)
  | cons a rest ih =>
      intro p
      rw [List.foldlM_cons]
      by_cases ha : a ∈ letters
      · rw [applyLetter_of_mem ha, Option.bind_eq_bind, Option.bind_some, ih, List.forall_mem_cons]
        simp only [ha, true_and]
        refine and_congr_right fun _ => forall₂_congr fun c hc => ?_
        rw [granted_withLetter ha hc]
        by_cases hr : c ∈ rest <;> by_cases hca : c = a <;> simp [hr, hca]
      · rw [applyLetter_of_not_mem ha]
        constructor
        · rintro ⟨⟩
        · exact fun h => absurd (h.1 a List.mem_cons_self) ha

/-- The letters of a specification, without its sign. -/
def specLetters : Name → Name
  | '+' :: chars => chars
  | '-' :: chars => chars
  | chars => chars

/-- Whether the letter shall be shown, where `text` was shown before. -/
def Wanted (text : Name) (c : Char) : (spec : Name) → Prop
  | '+' :: chars => c ∈ chars ∨ c ∈ text
  | '-' :: chars => c ∈ text ∧ c ∉ chars
  | chars => c ∈ chars

section Absolute

variable {a : Char} {rest : Name} (hplus : a ≠ '+') (hminus : a ≠ '-')

include hplus hminus

theorem parse_absolute (current : UInt8) : parseAmigaProtection current (a :: rest) =
    (a :: rest).foldlM (applyLetter false) 0x0F := by
  unfold parseAmigaProtection
  split <;> simp_all

theorem specLetters_absolute : specLetters (a :: rest) = a :: rest := by
  unfold specLetters
  split <;> simp_all

theorem wanted_absolute (text : Name) (c : Char) : Wanted text c (a :: rest) ↔ c ∈ a :: rest := by
  unfold Wanted
  split <;> simp_all

end Absolute

/-- A specification is accepted just when it has letters only, behind a sign or without one; the
letters shown afterwards are the old ones and these, the old ones but these, or these. -/
theorem parse_shows_iff (current : UInt8) (spec : Name) (p : UInt8) :
    parseAmigaProtection current spec = some p ↔ spec ≠ [] ∧
      (∀ c ∈ specLetters spec, c ∈ letters) ∧
      ∀ c ∈ letters, c ∈ amigaProtectionString p ↔
        Wanted (amigaProtectionString current) c spec := by
  have hshow : ∀ {c q}, c ∈ letters → (c ∈ amigaProtectionString q ↔ Granted q c = true) :=
    fun hc => mem_amigaProtectionString hc
  rcases spec with _ | ⟨a, rest⟩
  · exact ⟨fun h => absurd h (Option.some_ne_none p).symm, fun h => absurd rfl h.1⟩
  by_cases hplus : a = '+'
  · subst hplus
    rw [show parseAmigaProtection current ('+' :: rest) =
      rest.foldlM (applyLetter false) current from rfl, foldlM_applyLetter]
    refine ⟨fun h => ⟨List.cons_ne_nil _ _, h.1, fun c hc => ?_⟩, fun h => ⟨h.2.1, fun c hc => ?_⟩⟩
    · rw [hshow hc, h.2 c hc]
      by_cases hr : c ∈ rest <;> simp [Wanted, hr, hshow hc]
    · have hw := h.2.2 c hc
      rw [hshow hc] at hw
      rw [Bool.eq_iff_iff, hw]
      by_cases hr : c ∈ rest <;> simp [Wanted, hr, hshow hc]
  by_cases hminus : a = '-'
  · subst hminus
    rw [show parseAmigaProtection current ('-' :: rest) =
      rest.foldlM (applyLetter true) current from rfl, foldlM_applyLetter]
    refine ⟨fun h => ⟨List.cons_ne_nil _ _, h.1, fun c hc => ?_⟩, fun h => ⟨h.2.1, fun c hc => ?_⟩⟩
    · rw [hshow hc, h.2 c hc]
      by_cases hr : c ∈ rest <;> simp [Wanted, hr, hshow hc]
    · have hw := h.2.2 c hc
      rw [hshow hc] at hw
      rw [Bool.eq_iff_iff, hw]
      by_cases hr : c ∈ rest <;> simp [Wanted, hr, hshow hc]
  have hnone : ∀ c ∈ letters, Granted 0x0F c = false := fun c hc => by
    have hall : letters.all (fun c => !Granted 0x0F c) = true := by decide
    simpa using List.all_eq_true.mp hall c hc
  rw [parse_absolute hplus hminus, specLetters_absolute hplus hminus, foldlM_applyLetter]
  refine ⟨fun h => ⟨List.cons_ne_nil _ _, h.1, fun c hc => ?_⟩, fun h => ⟨h.2.1, fun c hc => ?_⟩⟩
  · rw [hshow hc, h.2 c hc, wanted_absolute hplus hminus, hnone c hc]
    simp
  · have hw := h.2.2 c hc
    rw [hshow hc, wanted_absolute hplus hminus] at hw
    rw [Bool.eq_iff_iff, hw, hnone c hc]
    simp

example : parseAmigaProtection 0 "-wd".toList = some 5 := by decide

/-- If all characters of the text are letters, all letters are shown. -/
theorem granted_of_text (l : Name)
    (h : ∀ c ∈ l.map fun c => if Granted p c then c else '-', c ∈ letters) :
    ∀ c ∈ l, Granted p c = true := by
  intro c hc
  have hmem := h _ (List.mem_map_of_mem hc)
  by_contra hno
  rw [if_neg hno] at hmem
  exact absurd hmem (by decide)

/-- The text of a listing, given as a specification, sets the byte again for one byte only: where a
letter is missing its dash is refused, or taken for the sign. -/
theorem text_read_back_iff (current p : UInt8) :
    parseAmigaProtection current (amigaProtectionString p) = some p ↔ p = 0xF0 := by
  have hfull : ∀ c ∈ letters, Granted 0xF0 c = true := List.all_eq_true.mp (by decide)
  have htext : amigaProtectionString p = (if Granted p 'h' then 'h' else '-') ::
      letters.tail.map fun c => if Granted p c then c else '-' := amigaProtectionString_eq p
  constructor
  · intro h
    obtain ⟨-, hletters, hshown⟩ := (parse_shows_iff current _ p).mp h
    cases hh : Granted p 'h' with
    | true =>
        rw [htext, hh, if_pos rfl, specLetters_absolute (by decide) (by decide),
          List.forall_mem_cons] at hletters
        have hrest := granted_of_text letters.tail hletters.2
        exact granted_ext (List.forall_mem_cons.mpr
          ⟨hh.trans (hfull 'h' (by decide)).symm, fun c hc =>
            (hrest c hc).trans (hfull c (List.mem_cons_of_mem _ hc)).symm⟩)
    | false =>
        -- the dash of `h` is the sign, and takes away the letters behind it
        rw [htext, hh, if_neg Bool.false_ne_true] at hletters hshown
        have hs := granted_of_text letters.tail hletters 's' (by decide)
        have hmem : 's' ∈ letters.tail.map fun c => if Granted p c then c else '-' :=
          List.mem_map.mpr ⟨'s', by decide, if_pos hs⟩
        have hwanted := (hshown 's' (by decide)).mp (List.mem_cons_of_mem _ hmem)
        exact absurd hmem hwanted.2
  · rintro rfl
    rfl

/-! ## Modes -/

/-- After `chmod` everybody is shown what the mode gives the owner. -/
theorem mode_of_chmod (mode : BitVec 32) (isDir : Bool) :
    amigaProtectionToMode (unixModeToAmigaProtection mode) isDir &&& 0o777 =
      (if mode &&& 0o400 ≠ 0 then 0o444 else 0) ||| (if mode &&& 0o200 ≠ 0 then 0o222 else 0) |||
        if mode &&& 0o100 ≠ 0 then 0o111 else 0 := by
  unfold unixModeToAmigaProtection
  cases isDir <;> split_ifs <;> decide

end Util

end Pfs3
