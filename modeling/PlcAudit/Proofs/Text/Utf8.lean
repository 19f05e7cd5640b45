import Mathlib.Data.List.Basic
import PlcAudit.Text.Utf8

/-!
# Bytes that are no character

`Text.decode` reads bytes one at a time and keeps the value of the bits so far, the number of bytes
that are missing, and the bounds of the next one.  The rule that it follows is stated without any of
this: a stretch of bytes is a character, or it begins one as far as it goes and the next byte does
not continue it, or it is a single byte that begins none; and all but the first are replaced.

What connects the two is what a pending state knows.  Of all characters it knows the first bits, and
the bounds of the next byte admit exactly those bytes that continue some character: they leave out
overlong forms, surrogates and what lies beyond the last code point, and nothing else.  This is
checked once for the table of first bytes, and every further byte keeps it.

* `utf8EncodeChar_eq_cons`: the bytes of a character, for all lengths at once.
* `Pending.Reads`: what a pending state knows about the bytes before it.
* `Pending.reads_ofLead?`, `Pending.Reads.step`: it holds after a first byte, and each byte keeps
  it.
* `Replaced`: the rule, with `replaced_iff`: decoding follows it, and nothing else does.
* `decode_encode`: what is valid is not changed.
* `decode_append_cons`: below `0x80` a byte is a character wherever it stands.
-/

namespace PlcAudit.Text

/-! ## The bytes of a character -/

/-- The number of bytes behind the first one. -/
def tailLength (v : Nat) : Nat :=
  if v < 0x80 then 0 else if v < 0x800 then 1 else if v < 0x10000 then 2 else 3

/-- What the first byte of a character is counted from. -/
def leadBase : Nat → Nat
  | 0 => 0
  | 1 => 0xc0
  | 2 => 0xe0
  | _ => 0xf0

/-- The place value of the bits before the last `k` bytes. -/
def placeValue : Nat → Nat
  | 0 => 1
  | k + 1 => 64 * placeValue k

/-- The number of the byte that has `k` more behind it. -/
def tailByte (k v : Nat) : Nat := v / placeValue k % 64 + 0x80

/-- The last `k` bytes of a character. -/
def tailBytes : Nat → Nat → List UInt8
  | 0, _ => []
  | k + 1, v => UInt8.ofNat (tailByte k v) :: tailBytes k v

/-- The number of the first byte of a character. -/
def leadByte (v : Nat) : Nat := leadBase (tailLength v) + v / placeValue (tailLength v)

theorem placeValue_pos (k : Nat) : 0 < placeValue k := by
  induction k with
  | zero => exact Nat.one_pos
  | succ k ih => exact Nat.mul_pos (by decide) ih

/-- What the bits before the last `k` bytes are, from those before the last `k + 1` and a byte. -/
theorem div_placeValue_iff {k v value n : Nat} (hn : 0x80 ≤ n ∧ n ≤ 0xbf) :
    v / placeValue k = value * 64 + (n - 0x80) ↔
      v / placeValue (k + 1) = value ∧ tailByte k v = n := by
  have hdiv : v / placeValue (k + 1) = v / placeValue k / 64 := by
    rw [Nat.div_div_eq_div_mul, Nat.mul_comm]
    rfl
  rw [hdiv, tailByte]
  omega

theorem isValidChar_toNat (c : Char) : c.toNat.isValidChar := c.valid

theorem toNat_ofNat_of_isValidChar {v : Nat} (h : v.isValidChar) : (Char.ofNat v).toNat = v := by
  rw [Char.ofNat, dif_pos h]
  rfl

theorem tailByte_bounds (k v : Nat) : 0x80 ≤ tailByte k v ∧ tailByte k v ≤ 0xbf := by
  unfold tailByte
  omega

theorem toNat_ofNat_of_lt {n : Nat} (h : n < 256) : (UInt8.ofNat n).toNat = n := by
  rw [UInt8.toNat_ofNat']
  exact Nat.mod_eq_of_lt h

theorem toNat_tailByte (k v : Nat) : (UInt8.ofNat (tailByte k v)).toNat = tailByte k v :=
  toNat_ofNat_of_lt (by have := tailByte_bounds k v; omega)

theorem length_tailBytes (k v : Nat) : (tailBytes k v).length = k := by
  induction k with
  | zero => rfl
  | succ k ih => rw [tailBytes, List.length_cons, ih]

theorem toNat_leadByte {v : Nat} (h : v.isValidChar) :
    (UInt8.ofNat (leadByte v)).toNat = leadByte v := by
  refine toNat_ofNat_of_lt ?_
  simp only [Nat.isValidChar] at h
  unfold leadByte tailLength
  split_ifs <;> simp only [leadBase, placeValue] <;> omega

/-- **The bytes of a character:** the first one has the highest bits and tells how many follow. -/
theorem utf8EncodeChar_eq_cons (c : Char) :
    String.utf8EncodeChar c =
      UInt8.ofNat (leadByte c.toNat) :: tailBytes (tailLength c.toNat) c.toNat := by
  have hvalid := isValidChar_toNat c
  simp only [Nat.isValidChar] at hvalid
  have hv : c.val.toNat = c.toNat := rfl
  unfold String.utf8EncodeChar leadByte tailLength
  simp only [hv]
  split_ifs <;>
    simp only [leadBase, tailBytes, tailByte, placeValue, List.cons.injEq, Nat.mul_one,
      Nat.div_one, Nat.zero_add, and_true] <;>
    try omega
  -- what is left is the first byte, of which only some bits are kept
  all_goals exact congrArg UInt8.ofNat (by omega)

/-- The first byte tells how many follow. -/
theorem head_utf8EncodeChar {c : Char} {b : UInt8} {r : List UInt8}
    (h : b :: r <+: String.utf8EncodeChar c) : b.toNat = leadByte c.toNat := by
  rw [utf8EncodeChar_eq_cons, List.cons_prefix_cons] at h
  rw [h.1, toNat_leadByte (isValidChar_toNat c)]

/-- A first byte below `0x80` is the whole character. -/
theorem leadByte_eq_of_lt {v : Nat} (h : leadByte v < 0x80) : leadByte v = v := by
  unfold leadByte tailLength at *
  split_ifs at * <;> simp only [leadBase, placeValue] at * <;> omega

theorem le_of_mem_tailBytes {b : UInt8} {k v : Nat} (h : b ∈ tailBytes k v) : 0x80 ≤ b.toNat := by
  induction k with
  | zero => exact absurd h List.not_mem_nil
  | succ k ih =>
    rcases List.mem_cons.mp h with rfl | h
    · rw [toNat_tailByte]
      exact (tailByte_bounds k v).1
    · exact ih h

/-- Below `0x80` a byte is a character. -/
theorem utf8EncodeChar_ascii {b : UInt8} (h : b.toNat < 0x80) :
    String.utf8EncodeChar (Char.ofNat b.toNat) = [b] := by
  have hv : (Char.ofNat b.toNat).toNat = b.toNat :=
    toNat_ofNat_of_isValidChar (Or.inl (by omega))
  rw [utf8EncodeChar_eq_cons, hv, leadByte, tailLength, if_pos h]
  simp [leadBase, placeValue, tailBytes]

/-- A character with a first byte below `0x80` is that byte. -/
theorem eq_ofNat_of_ascii {c : Char} {b : UInt8} {r : List UInt8} (hb : b.toNat < 0x80)
    (h : b :: r <+: String.utf8EncodeChar c) : Char.ofNat b.toNat = c := by
  have hlead := head_utf8EncodeChar h
  rw [hlead, leadByte_eq_of_lt (hlead ▸ hb), Char.ofNat_toNat]

/-! ## What a pending state knows -/

/-- Bytes with which a character begins. -/
def Begins (bs : List UInt8) : Prop := ∃ c : Char, bs <+: String.utf8EncodeChar c

theorem begins_utf8EncodeChar (c : Char) : Begins (String.utf8EncodeChar c) := ⟨c, List.prefix_rfl⟩

theorem Begins.of_append {bs r : List UInt8} (h : Begins (bs ++ r)) : Begins bs := by
  obtain ⟨c, hc⟩ := h
  exact ⟨c, (List.prefix_append bs r).trans hc⟩

/-- **A byte below `0x80` continues no character.** -/
theorem not_begins_ascii {p : List UInt8} {b : UInt8} (hb : b.toNat < 0x80) (hp : p ≠ []) :
    ¬ Begins (p ++ [b]) := by
  rintro ⟨c, hc⟩
  obtain ⟨a, p, rfl⟩ := List.exists_cons_of_ne_nil hp
  rw [utf8EncodeChar_eq_cons, List.cons_append, List.cons_prefix_cons] at hc
  have hmem : b ∈ tailBytes (tailLength c.toNat) c.toNat := hc.2.subset (by simp)
  have := le_of_mem_tailBytes hmem
  omega

namespace Pending

/-- The bytes that a pending state goes on with. -/
abbrev Admits (p : Pending) (b : UInt8) : Prop := p.low ≤ b.toNat ∧ b.toNat ≤ p.high

/-- The value of the bits so far, with those of a further byte. -/
abbrev valueWith (p : Pending) (b : UInt8) : Nat := p.value * 64 + (b.toNat - 0x80)

/-- The code points that a pending state can still become. -/
def Fits (p : Pending) (v : Nat) : Prop :=
  v / placeValue p.missing = p.value ∧
    p.low ≤ tailByte (p.missing - 1) v ∧ tailByte (p.missing - 1) v ≤ p.high

/-- **What a pending state knows** about the bytes that were read.  They begin the characters that
fit and no others, and what is missing of such a character is its last bytes. -/
structure Reads (p : Pending) (bs : List UInt8) : Prop where
  ne_nil : bs ≠ []
  missing_pos : 1 ≤ p.missing
  bounds : 0x80 ≤ p.low ∧ p.low ≤ p.high ∧ p.high ≤ 0xbf
  valid : ∀ v, p.Fits v → v.isValidChar
  fits : ∀ c : Char, bs <+: String.utf8EncodeChar c → p.Fits c.toNat
  bytes : ∀ c : Char, p.Fits c.toNat →
    String.utf8EncodeChar c = bs ++ tailBytes p.missing c.toNat

/-! ### First bytes -/

variable {b : UInt8} {p : Pending}

/-- **The table of first bytes.**  A character fits if it has this first byte, and then as many of
its bytes are missing as follow. -/
theorem fits_ofLead?_iff (h : ofLead? b = some p) (v : Nat) :
    (p.Fits v ↔ v.isValidChar ∧ leadByte v = b.toNat) ∧ (p.Fits v → tailLength v = p.missing) := by
  simp only [ofLead?] at h
  unfold Fits leadByte tailLength tailByte
  simp only [Nat.isValidChar]
  split_ifs at h <;> simp only [Option.some.injEq] at h <;> subst h <;>
    simp only [Nat.reduceSub, placeValue, Nat.reduceMul] <;> split_ifs <;>
    simp only [leadBase, placeValue, Nat.reduceMul, implies_true, and_true] <;> omega

/-- A byte that is not in the table and not below `0x80` begins no character. -/
theorem leadByte_ne_of_ofLead? (h : ofLead? b = none) (hb : 0x80 ≤ b.toNat) {v : Nat}
    (hv : v.isValidChar) : leadByte v ≠ b.toNat := by
  simp only [ofLead?] at h
  unfold leadByte tailLength
  simp only [Nat.isValidChar] at hv
  split_ifs at h
  split_ifs <;> simp only [leadBase, placeValue, Nat.reduceMul] <;> omega

theorem bounds_ofLead? (h : ofLead? b = some p) :
    0x80 ≤ b.toNat ∧ 1 ≤ p.missing ∧ 0x80 ≤ p.low ∧ p.low ≤ p.high ∧ p.high ≤ 0xbf := by
  simp only [ofLead?] at h
  split_ifs at h <;> simp only [Option.some.injEq] at h <;> subst h <;> dsimp only <;> omega

/-- **After a first byte** the state knows what it has to. -/
theorem reads_ofLead? (h : ofLead? b = some p) : p.Reads [b] := by
  obtain ⟨-, hmissing, hbounds⟩ := bounds_ofLead? h
  refine ⟨List.cons_ne_nil _ _, hmissing, hbounds,
    fun v hv => ((fits_ofLead?_iff h v).1.mp hv).1, ?_, ?_⟩
  · intro c hc
    have hlead := head_utf8EncodeChar hc
    exact (fits_ofLead?_iff h _).1.mpr ⟨isValidChar_toNat c, hlead.symm⟩
  · intro c hfit
    obtain ⟨-, hlead⟩ := (fits_ofLead?_iff h _).1.mp hfit
    rw [utf8EncodeChar_eq_cons, hlead, (fits_ofLead?_iff h _).2 hfit, UInt8.ofNat_toNat]
    rfl

/-! ### Further bytes -/

namespace Reads

variable {bs : List UInt8}

/-- The bytes that were read are those of no character. -/
theorem ne_utf8EncodeChar (h : p.Reads bs) (c : Char) : bs ≠ String.utf8EncodeChar c := by
  intro hc
  have hbytes := congrArg List.length (h.bytes c (h.fits c (hc ▸ List.prefix_rfl)))
  rw [← hc, List.length_append, length_tailBytes] at hbytes
  have := h.missing_pos
  omega

/-- What comes next in a character that has begun. -/
theorem next (h : p.Reads bs) {c : Char} (hc : bs ++ [b] <+: String.utf8EncodeChar c) :
    p.Fits c.toNat ∧ tailByte (p.missing - 1) c.toNat = b.toNat := by
  have hfit := h.fits c ((List.prefix_append bs [b]).trans hc)
  refine ⟨hfit, ?_⟩
  obtain ⟨k, hk⟩ : ∃ k, p.missing = k + 1 := ⟨p.missing - 1, by have := h.missing_pos; omega⟩
  rw [h.bytes c hfit, hk, List.prefix_append_right_inj, tailBytes, List.cons_prefix_cons] at hc
  rw [hk, hc.1, Nat.add_sub_cancel, toNat_tailByte]

/-- The code points that are left after a byte. -/
theorem fits_next_iff (h : p.Reads bs) (hb : p.Admits b) (v : Nat) :
    v / placeValue (p.missing - 1) = p.valueWith b ↔
      p.Fits v ∧ tailByte (p.missing - 1) v = b.toNat := by
  obtain ⟨hlow, -, hhigh⟩ := h.bounds
  have hmissing : p.missing - 1 + 1 = p.missing := Nat.sub_add_cancel h.missing_pos
  rw [div_placeValue_iff ⟨by omega, by omega⟩, hmissing, Fits]
  constructor
  · rintro ⟨hvalue, hnext⟩
    exact ⟨⟨hvalue, by omega, by omega⟩, hnext⟩
  · rintro ⟨⟨hvalue, -, -⟩, hnext⟩
    exact ⟨hvalue, hnext⟩

/-- No more follows than is missing. -/
theorem length_le (h : p.Reads bs) {c : Char} {r : List UInt8}
    (hc : bs ++ r <+: String.utf8EncodeChar c) : r.length ≤ p.missing := by
  have hfit := h.fits c ((List.prefix_append bs r).trans hc)
  rw [h.bytes c hfit, List.prefix_append_right_inj] at hc
  exact Nat.le_trans hc.length_le (Nat.le_of_eq (length_tailBytes _ _))

/-- The character that the last byte completes. -/
theorem eq_ofNat (h : p.Reads bs) (hb : p.Admits b) (hm : p.missing = 1)
    {c : Char} (hc : bs ++ [b] <+: String.utf8EncodeChar c) :
    Char.ofNat (p.valueWith b) = c := by
  rw [← (h.fits_next_iff hb c.toNat).mpr (h.next hc), hm]
  exact (congrArg Char.ofNat (Nat.div_one _)).trans (Char.ofNat_toNat c)

/-- The last byte completes a character. -/
theorem last (h : p.Reads bs) (hb : p.Admits b) (hm : p.missing = 1) :
    String.utf8EncodeChar (Char.ofNat (p.valueWith b)) = bs ++ [b] := by
  have hnext := (h.fits_next_iff hb (p.valueWith b)).mp (by
    rw [hm]
    exact Nat.div_one _)
  have hchar := toNat_ofNat_of_isValidChar (h.valid _ hnext.1)
  rw [h.bytes _ (hchar.symm ▸ hnext.1), hchar, hm, tailBytes, tailBytes]
  rw [hm] at hnext
  rw [hnext.2, UInt8.ofNat_toNat]

/-- **Each byte but the last** keeps what the state knows. -/
theorem step (h : p.Reads bs) (hb : p.Admits b) (hm : p.missing ≠ 1) :
    Reads ⟨p.valueWith b, p.missing - 1, 0x80, 0xbf⟩ (bs ++ [b]) := by
  have hpos := h.missing_pos
  have hfits : ∀ v, Fits ⟨p.valueWith b, p.missing - 1, 0x80, 0xbf⟩ v ↔
      p.Fits v ∧ tailByte (p.missing - 1) v = b.toNat := by
    intro v
    rw [← h.fits_next_iff hb]
    exact and_iff_left (tailByte_bounds _ v)
  refine ⟨List.concat_ne_nil b bs, ?_, by dsimp only; omega, ?_, ?_, ?_⟩
  · show 1 ≤ p.missing - 1
    omega
  · intro v hv
    exact h.valid v ((hfits v).mp hv).1
  · intro c hc
    exact (hfits _).mpr (h.next hc)
  · intro c hc
    obtain ⟨hfit, hnext⟩ := (hfits _).mp hc
    obtain ⟨k, hk⟩ : ∃ k, p.missing = k + 1 := ⟨p.missing - 1, by omega⟩
    rw [hk, Nat.add_sub_cancel] at hnext
    rw [h.bytes c hfit, hk, tailBytes, hnext, UInt8.ofNat_toNat, List.append_assoc]
    rfl

/-- The bytes that were read begin a character. -/
theorem begins (h : p.Reads bs) : Begins bs := by
  obtain ⟨hlow, hle, hhigh⟩ := h.bounds
  have hb : (UInt8.ofNat p.low).toNat = p.low := toNat_ofNat_of_lt (by omega)
  have hadmits : p.Admits (UInt8.ofNat p.low) := by
    rw [Admits, hb]
    exact ⟨Nat.le_refl _, hle⟩
  -- any character that goes on with the lowest byte will do
  have hnext := (h.fits_next_iff hadmits _).mp
    (Nat.mul_div_cancel (p.valueWith (UInt8.ofNat p.low)) (placeValue_pos (p.missing - 1)))
  have hchar := toNat_ofNat_of_isValidChar (h.valid _ hnext.1)
  exact ⟨_, tailBytes p.missing _, (h.bytes _ (hchar.symm ▸ hnext.1)).symm⟩

/-- **The bounds admit the bytes that continue a character,** and no others. -/
theorem begins_append_iff (h : p.Reads bs) :
    Begins (bs ++ [b]) ↔ p.Admits b := by
  constructor
  · rintro ⟨c, hc⟩
    obtain ⟨⟨-, hbounds⟩, hnext⟩ := h.next hc
    rwa [hnext] at hbounds
  · intro hb
    by_cases hm : p.missing = 1
    · exact h.last hb hm ▸ begins_utf8EncodeChar _
    · exact (h.step hb hm).begins

end Reads

end Pending

/-! ## The equations of decoding -/

section Equations

variable {b : UInt8} {p : Pending}

/-- A byte begins a character of its own, or is in the table, or begins none. -/
theorem first_cases (b : UInt8) :
    b.toNat < 0x80 ∨ (∃ p, Pending.ofLead? b = some p) ∨
      0x80 ≤ b.toNat ∧ Pending.ofLead? b = none ∧ ¬ Begins [b] := by
  by_cases hb : b.toNat < 0x80
  · exact Or.inl hb
  · cases hlead : Pending.ofLead? b with
    | some p => exact Or.inr (Or.inl ⟨p, rfl⟩)
    | none =>
      refine Or.inr (Or.inr ⟨by omega, rfl, ?_⟩)
      rintro ⟨c, hc⟩
      exact Pending.leadByte_ne_of_ofLead? hlead (by omega) (isValidChar_toNat c)
        (head_utf8EncodeChar hc).symm

theorem decode_cons_ascii (hb : b.toNat < 0x80) (bs : List UInt8) :
    decode (b :: bs) = Char.ofNat b.toNat :: decode bs := by
  simp only [decode, decodeFrom, decodeByte, decodeLead, if_pos hb]
  rfl

theorem decode_cons_lead (h : Pending.ofLead? b = some p) (bs : List UInt8) :
    decode (b :: bs) = decodeFrom (some p) bs := by
  have hb := (Pending.bounds_ofLead? h).1
  simp only [decode, decodeFrom, decodeByte, decodeLead, if_neg (show ¬ b.toNat < 0x80 by omega), h]
  rfl

theorem decode_cons_stray (h : Pending.ofLead? b = none) (hb : 0x80 ≤ b.toNat) (bs : List UInt8) :
    decode (b :: bs) = replacement :: decode bs := by
  simp only [decode, decodeFrom, decodeByte, decodeLead, if_neg (show ¬ b.toNat < 0x80 by omega), h]
  rfl

theorem decodeFrom_last (hb : p.Admits b) (hm : p.missing = 1)
    (bs : List UInt8) :
    decodeFrom (some p) (b :: bs) =
      Char.ofNat (p.valueWith b) :: decode bs := by
  simp only [decode, decodeFrom, decodeByte, if_pos hb, if_pos hm]
  rfl

theorem decodeFrom_step (hb : p.Admits b) (hm : p.missing ≠ 1)
    (bs : List UInt8) :
    decodeFrom (some p) (b :: bs) =
      decodeFrom (some ⟨p.valueWith b, p.missing - 1, 0x80, 0xbf⟩) bs := by
  simp only [decodeFrom, decodeByte, if_pos hb, if_neg hm]
  rfl

theorem decodeFrom_broken (hb : ¬ p.Admits b) (bs : List UInt8) :
    decodeFrom (some p) (b :: bs) = replacement :: decode (b :: bs) := by
  simp only [decode, decodeFrom, decodeByte, if_neg hb]
  rfl

/-- What is missing of a character completes it. -/
theorem decodeFrom_rest {bs r : List UInt8} (h : p.Reads bs) {c : Char}
    (hc : String.utf8EncodeChar c = bs ++ r) (s : List UInt8) :
    decodeFrom (some p) (r ++ s) = c :: decode s := by
  induction r generalizing p bs with
  | nil => exact absurd ((List.append_nil bs).symm.trans hc.symm) (h.ne_utf8EncodeChar c)
  | cons b r ih =>
    have hc' : String.utf8EncodeChar c = bs ++ [b] ++ r := hc.trans (List.append_cons bs b r)
    have hpre : bs ++ [b] <+: String.utf8EncodeChar c := ⟨r, hc'.symm⟩
    have hb : p.Admits b := h.begins_append_iff.mp ⟨c, hpre⟩
    by_cases hm : p.missing = 1
    · have hlength := h.length_le ⟨[], (List.append_nil _).trans hc.symm⟩
      rw [hm, List.length_cons] at hlength
      rw [List.eq_nil_of_length_eq_zero (l := r) (by omega)]
      exact (decodeFrom_last hb hm s).trans (by rw [h.eq_ofNat hb hm hpre])
    · rw [List.cons_append, decodeFrom_step hb hm, ih (h.step hb hm) hc']

/-- The bytes of a character decode to it. -/
theorem decode_utf8EncodeChar (c : Char) (bs : List UInt8) :
    decode (String.utf8EncodeChar c ++ bs) = c :: decode bs := by
  obtain ⟨b, r, hc⟩ := List.exists_cons_of_ne_nil
    (show String.utf8EncodeChar c ≠ [] from utf8EncodeChar_eq_cons c ▸ List.cons_ne_nil _ _)
  have hpre : [b] <+: String.utf8EncodeChar c := ⟨r, hc.symm⟩
  rcases first_cases b with hb | ⟨p, hp⟩ | ⟨-, -, hnot⟩
  · rw [← eq_ofNat_of_ascii hb hpre, utf8EncodeChar_ascii hb]
    exact decode_cons_ascii hb bs
  · rw [hc, List.cons_append, decode_cons_lead hp]
    exact decodeFrom_rest (Pending.reads_ofLead? hp) hc bs
  · exact absurd ⟨c, hpre⟩ hnot

/-- **Bytes that begin a character and are none** leave the state pending that knows it. -/
theorem exists_reads {bs r : List UInt8} (h : p.Reads bs) (hr : Begins (bs ++ r))
    (hne : ∀ c, bs ++ r ≠ String.utf8EncodeChar c) :
    ∃ q : Pending, q.Reads (bs ++ r) ∧
      ∀ s, decodeFrom (some p) (r ++ s) = decodeFrom (some q) s := by
  induction r generalizing p bs with
  | nil => exact ⟨p, by rwa [List.append_nil], fun s => rfl⟩
  | cons b r ih =>
    obtain ⟨c, hc⟩ := hr
    have hbs : bs ++ b :: r = bs ++ [b] ++ r := List.append_cons bs b r
    have hb : p.Admits b :=
      h.begins_append_iff.mp ⟨c, (List.prefix_append _ r).trans (hbs ▸ hc)⟩
    by_cases hm : p.missing = 1
    · -- the character would be complete here, and nothing more could follow
      have hlength := h.length_le hc
      rw [hm, List.length_cons] at hlength
      rw [List.eq_nil_of_length_eq_zero (l := r) (by omega)] at hne
      exact absurd (h.last hb hm).symm (hne _)
    · obtain ⟨q, hq, hdecode⟩ := ih (h.step hb hm) ⟨c, hbs ▸ hc⟩ (hbs ▸ hne)
      refine ⟨q, hbs ▸ hq, fun s => ?_⟩
      rw [List.cons_append, decodeFrom_step hb hm, hdecode]

end Equations

/-! ## The rule of replacement -/

/-- **What it means that bytes become a text.**  A character stays.  One replacement stands for
bytes that begin a character, are none themselves and are not continued by what comes next, and one
for each byte with which no character begins. -/
inductive Replaced : List UInt8 → List Char → Prop
  | nil : Replaced [] []
  | char (c : Char) {bs : List UInt8} {cs : List Char} : Replaced bs cs →
      Replaced (String.utf8EncodeChar c ++ bs) (c :: cs)
  | broken {p bs : List UInt8} {cs : List Char} : p ≠ [] → Begins p →
      (∀ c, p ≠ String.utf8EncodeChar c) → (∀ b ∈ bs.head?, ¬ Begins (p ++ [b])) →
      Replaced bs cs → Replaced (p ++ bs) (replacement :: cs)
  | stray {b : UInt8} {bs : List UInt8} {cs : List Char} : ¬ Begins [b] → Replaced bs cs →
      Replaced (b :: bs) (replacement :: cs)

theorem Replaced.ascii {b : UInt8} (hb : b.toNat < 0x80) {bs : List UInt8} {cs : List Char}
    (h : Replaced bs cs) : Replaced (b :: bs) (Char.ofNat b.toNat :: cs) := by
  have hchar := Replaced.char (Char.ofNat b.toNat) h
  rwa [utf8EncodeChar_ascii hb] at hchar

/-- **Decoding follows the rule.** -/
theorem replaced_decode (bs : List UInt8) : Replaced bs (decode bs) := by
  -- the bytes before those that are still to be read are known to the pending state
  suffices h : Replaced bs (decode bs) ∧ ∀ (p : Pending) (pre : List UInt8), p.Reads pre →
      Replaced (pre ++ bs) (decodeFrom (some p) bs) from h.1
  induction bs with
  | nil =>
    refine ⟨.nil, fun p pre h => ?_⟩
    exact .broken h.ne_nil h.begins h.ne_utf8EncodeChar (fun b hb => nomatch hb) .nil
  | cons b bs ih =>
    have hnone : Replaced (b :: bs) (decode (b :: bs)) := by
      rcases first_cases b with hb | ⟨p, hp⟩ | ⟨hb, hp, hnot⟩
      · rw [decode_cons_ascii hb]
        exact .ascii hb ih.1
      · rw [decode_cons_lead hp]
        exact ih.2 p [b] (Pending.reads_ofLead? hp)
      · rw [decode_cons_stray hp hb]
        exact .stray hnot ih.1
    refine ⟨hnone, fun p pre h => ?_⟩
    by_cases hb : p.Admits b
    · rw [List.append_cons]
      by_cases hm : p.missing = 1
      · rw [decodeFrom_last hb hm, ← h.last hb hm]
        exact .char _ ih.1
      · rw [decodeFrom_step hb hm]
        exact ih.2 _ _ (h.step hb hm)
    · rw [decodeFrom_broken hb]
      refine .broken h.ne_nil h.begins h.ne_utf8EncodeChar ?_ hnone
      rintro _ ⟨⟩
      exact mt h.begins_append_iff.mp hb

/-- A character that is broken off decodes to one replacement. -/
theorem decode_broken {p bs : List UInt8} (hp : p ≠ []) (hbegins : Begins p)
    (hne : ∀ c, p ≠ String.utf8EncodeChar c) (hnext : ∀ b ∈ bs.head?, ¬ Begins (p ++ [b])) :
    decode (p ++ bs) = replacement :: decode bs := by
  obtain ⟨b, r, rfl⟩ := List.exists_cons_of_ne_nil hp
  rcases first_cases b with hb | ⟨q, hq⟩ | ⟨-, -, hnot⟩
  · -- below `0x80` nothing can be broken off
    obtain ⟨c, hc⟩ := hbegins
    rw [← eq_ofNat_of_ascii hb hc, utf8EncodeChar_ascii hb, List.cons_prefix_cons,
      List.prefix_nil] at hc
    rw [hc.2] at hne
    exact absurd (utf8EncodeChar_ascii hb).symm (hne _)
  · obtain ⟨q', hq', hdecode⟩ := exists_reads (Pending.reads_ofLead? hq) (r := r) hbegins hne
    rw [List.cons_append, decode_cons_lead hq, hdecode]
    cases bs with
    | nil => rfl
    | cons a bs =>
      exact decodeFrom_broken (fun ha => hnext a rfl (hq'.begins_append_iff.mpr ha)) bs
  · exact absurd (Begins.of_append (r := r) hbegins) hnot

/-- **There is one text that bytes become by the rule,** and it is the one that decoding gives. -/
theorem replaced_iff {bs : List UInt8} {cs : List Char} : Replaced bs cs ↔ cs = decode bs := by
  constructor
  · intro h
    induction h with
    | nil => rfl
    | char c _ ih => rw [decode_utf8EncodeChar, ih]
    | broken hp hbegins hne hnext _ ih => rw [decode_broken hp hbegins hne hnext, ih]
    | @stray b bs cs hnot _ ih =>
      rcases first_cases b with hb | ⟨p, hp⟩ | ⟨hb, hp, -⟩
      · exact absurd (utf8EncodeChar_ascii hb ▸ begins_utf8EncodeChar _) hnot
      · exact absurd (Pending.reads_ofLead? hp).begins hnot
      · rw [decode_cons_stray hp hb, ih]
  · rintro rfl
    exact replaced_decode bs

/-! ## What decoding leaves as it is -/

/-- **What is valid is not changed.** -/
theorem decode_encode (cs : List Char) : decode (encode cs) = cs := by
  induction cs with
  | nil => rfl
  | cons c cs ih => rw [encode_cons, decode_utf8EncodeChar, ih]

/-- What is valid, by the library's notion, are the bytes of the text that they decode to. -/
theorem isValidUTF8_iff {bs : List UInt8} :
    bs.toByteArray.IsValidUTF8 ↔ bytesOf (ofBytes bs) = bs := by
  rw [bytesOf, ofBytes, String.toList_ofList]
  constructor
  · rintro ⟨cs, hcs⟩
    obtain rfl : bs = encode cs := List.toByteArray_inj.mp hcs
    rw [decode_encode]
  · intro h
    exact ⟨decode bs, congrArg List.toByteArray h.symm⟩

/-- Bytes are put together at a byte that is a character. -/
theorem Replaced.append {l r : List UInt8} {cs ds : List Char} {b : UInt8} (hb : b.toNat < 0x80)
    (hl : Replaced l cs) (hr : Replaced (b :: r) ds) : Replaced (l ++ b :: r) (cs ++ ds) := by
  induction hl with
  | nil => exact hr
  | char c _ ih =>
    rw [List.append_assoc]
    exact .char c ih
  | @broken p l cs hp hbegins hne hnext _ ih =>
    rw [List.append_assoc]
    refine .broken hp hbegins hne ?_ ih
    cases l with
    | nil =>
      -- where the first part ends, the character cannot be continued
      rintro _ ⟨⟩
      exact not_begins_ascii hb hp
    | cons a l => exact hnext
  | stray hnot _ ih => exact .stray hnot ih

/-- **Below `0x80` a byte is a character wherever it stands,** and what is on one side of it does
not change what is on the other. -/
theorem decode_append_cons {b : UInt8} (hb : b.toNat < 0x80) (l r : List UInt8) :
    decode (l ++ b :: r) = decode l ++ Char.ofNat b.toNat :: decode r :=
  (replaced_iff.mp ((replaced_decode l).append hb (.ascii hb (replaced_decode r)))).symm

/-- A character that is no replacement was there before. -/
theorem Replaced.infix_of_mem {bs : List UInt8} {cs : List Char} (h : Replaced bs cs) {c : Char}
    (hc : c ∈ cs) (hne : c ≠ replacement) : String.utf8EncodeChar c <:+: bs := by
  induction h with
  | nil => exact absurd hc List.not_mem_nil
  | char d _ ih =>
    rcases List.mem_cons.mp hc with rfl | hc
    · exact (List.prefix_append _ _).isInfix
    · exact (ih hc).trans (List.suffix_append _ _).isInfix
  | broken _ _ _ _ _ ih =>
    have hc := (List.mem_cons.mp hc).resolve_left hne
    exact (ih hc).trans (List.suffix_append _ _).isInfix
  | stray _ _ ih =>
    have hc := (List.mem_cons.mp hc).resolve_left hne
    exact (ih hc).trans (List.suffix_cons _ _).isInfix

/-- A text that begins with a character that is no replacement has it from its first bytes. -/
theorem Replaced.prefix_of_head? {bs : List UInt8} {cs : List Char} (h : Replaced bs cs) {c : Char}
    (hc : cs.head? = some c) (hne : c ≠ replacement) : String.utf8EncodeChar c <+: bs := by
  cases h with
  | nil => exact nomatch hc
  | char d _ =>
    obtain rfl : d = c := Option.some.inj hc
    exact List.prefix_append _ _
  | broken _ _ _ _ _ => exact absurd (Option.some.inj hc).symm hne
  | stray _ _ => exact absurd (Option.some.inj hc).symm hne

/-- Only where there are no bytes there is no text. -/
theorem decode_ne_nil {bs : List UInt8} (h : bs ≠ []) : decode bs ≠ [] := by
  intro hnil
  have hbs := replaced_decode bs
  rw [hnil] at hbs
  cases hbs
  exact h rfl

end PlcAudit.Text
