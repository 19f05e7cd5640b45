import Mathlib.Data.List.Basic
import PlcAudit.Finding.Signature

/-!
# Signatures tell findings apart

A signature strings six fields together with bars between them, and three of the fields are free
text that may hold bars, colons and digits of its own.  Nothing is lost all the same, because each
field says where it ends.

* `SelfDelimiting`: a code whose words can be cut off the front of any text in one way only.
* `append_inj_of_utf8ByteSize`: of two texts with the same length in bytes at the front of a text,
  there is one.
* `selfDelimiting_spelling`, `selfDelimiting_signedText`, `selfDelimiting_barred`: the fields.
* `Finding.selfDelimiting_signature`: the six fields cut off one after the other.
* `Finding.signature_inj`, `Finding.signature_prefix_iff`: no other finding has the signature, or
  one that begins with it.
-/

namespace PlcAudit

/-- A code is self-delimiting when a text that begins with one of its words tells which one, and
with it what follows. -/
def SelfDelimiting {α : Type} (code : α → String) : Prop :=
  ∀ ⦃a b : α⦄ ⦃r s : List Char⦄, (code a).toList ++ r = (code b).toList ++ s → a = b ∧ r = s

/-! ## Cutting texts -/

/-- Digits are neither a bar nor a colon nor a dash. -/
theorem notMem_toList_toString {c : Char} (hc : c.isDigit = false) (n : Nat) :
    c ∉ (toString n).toList := by
  intro h
  rw [show toString n = n.repr from rfl, Nat.toList_repr] at h
  rw [Nat.isDigit_of_mem_toDigits (by decide) (by decide) h] at hc
  cases hc

/-- Decimal numerals tell numbers apart. -/
theorem toString_nat_injective : Function.Injective fun n : Nat => toString n := by
  intro m n h
  have hdigits : Nat.toDigits 10 m = Nat.toDigits 10 n := by
    rw [← Nat.toList_repr, ← Nat.toList_repr]
    exact congrArg String.toList h
  rw [← Nat.ofDigitChars_toDigits (b := 10) (n := m) (by decide) (by decide), hdigits,
    Nat.ofDigitChars_toDigits (by decide) (by decide)]

/-- What stands before the first occurrence of a character is determined. -/
theorem append_cons_inj_of_notMem {c : Char} : ∀ {t u r s : List Char}, c ∉ t → c ∉ u →
    t ++ c :: r = u ++ c :: s → t = u ∧ r = s
  | [], [], _, _, _, _, h => ⟨rfl, (List.cons.inj h).2⟩
  | [], _ :: _, _, _, _, hu, h => absurd (List.mem_cons.mpr (Or.inl (List.cons.inj h).1)) hu
  | _ :: _, [], _, _, ht, _, h => absurd (List.mem_cons.mpr (Or.inl (List.cons.inj h).1.symm)) ht
  | _ :: _, _ :: _, _, _, ht, hu, h => by
    obtain ⟨rfl, htail⟩ := List.cons.inj h
    rw [List.mem_cons, not_or] at ht hu
    obtain ⟨rfl, hr⟩ := append_cons_inj_of_notMem ht.2 hu.2 htail
    exact ⟨rfl, hr⟩

/-- Two texts of the same length in bytes that begin the same text are equal. -/
theorem append_inj_of_utf8ByteSize {t u : String} {r s : List Char}
    (h : t.toList ++ r = u.toList ++ s) (hn : t.utf8ByteSize = u.utf8ByteSize) :
    t = u ∧ r = s := by
  -- a text that exceeds the other one by no byte exceeds it by no character
  have key : ∀ {v w : String} {d : List Char}, w.toList = v.toList ++ d →
      v.utf8ByteSize = w.utf8ByteSize → d = [] := by
    intro v w d hd hsize
    have hw : w = v ++ String.ofList d := by
      rw [← String.toList_inj, hd, String.toList_append, String.toList_ofList]
    rw [hw, String.utf8ByteSize_append, Nat.left_eq_add, String.utf8ByteSize_eq_zero_iff] at hsize
    rw [← String.toList_ofList (l := d), hsize]
    rfl
  rcases List.append_eq_append_iff.mp h with ⟨d, hu, hr⟩ | ⟨d, ht, hs⟩
  · have hd := key hu hn
    subst hd
    rw [List.append_nil, String.toList_inj] at hu
    exact ⟨hu.symm, hr⟩
  · have hd := key ht hn.symm
    subst hd
    rw [List.append_nil, String.toList_inj] at ht
    exact ⟨ht, hs.symm⟩

/-- A code whose words do not hold a bar is self-delimiting once a bar ends each of them. -/
theorem selfDelimiting_barred {α : Type} {code : α → String} (hinj : Function.Injective code)
    (hbar : ∀ a, '|' ∉ (code a).toList) : SelfDelimiting fun a => code a ++ "|" := by
  intro a b r s h
  have hcut : (code a).toList ++ '|' :: r = (code b).toList ++ '|' :: s := by
    simpa [String.toList_append] using h
  obtain ⟨hcode, hr⟩ := append_cons_inj_of_notMem (hbar a) (hbar b) hcut
  exact ⟨hinj (String.toList_inj.mp hcode), hr⟩

/-! ## The fields -/

/-- The spellings of the three statuses differ in their first letters. -/
theorem selfDelimiting_spelling : SelfDelimiting Status.spelling := by
  intro a b r s h
  cases a <;> cases b <;> simp_all [Status.spelling]

theorem toString_word_injective : Function.Injective fun n : UInt32 => toString n := by
  intro m n h
  exact UInt32.toNat_inj.mp (toString_nat_injective h)

namespace Finding

theorem selfDelimiting_ruleNo : SelfDelimiting fun n : UInt32 => toString n ++ "|" :=
  selfDelimiting_barred toString_word_injective fun n => notMem_toList_toString rfl n.toNat

/-- A line is written in digits, and none is written as a dash. -/
theorem selfDelimiting_signedLine : SelfDelimiting fun l => signedLine l ++ "|" := by
  have hdash : ∀ n : UInt32, "-" ≠ toString n := by
    intro n h
    have hmem : '-' ∈ (toString n).toList := by
      rw [← h]
      decide
    exact notMem_toList_toString rfl n.toNat hmem
  refine selfDelimiting_barred ?_ ?_
  · intro l m h
    cases l with
    | none =>
      cases m with
      | none => rfl
      | some n => exact absurd h (hdash n)
    | some k =>
      cases m with
      | none => exact absurd h.symm (hdash k)
      | some n => exact congrArg some (toString_word_injective h)
  · intro l
    cases l with
    | none => decide
    | some n => exact notMem_toList_toString rfl n.toNat

/-- A text is written after its length, so it may hold anything. -/
theorem selfDelimiting_signedText : SelfDelimiting signedText := by
  have hdash : ∀ (t : String) {r s : List Char},
      (signedText none).toList ++ r ≠ (signedText (some t)).toList ++ s := by
    intro t r s h
    have hdigits : (toString t.utf8ByteSize).toList ≠ [] := by
      rw [show toString t.utf8ByteSize = t.utf8ByteSize.repr from rfl, Nat.toList_repr]
      exact Nat.toDigits_ne_nil
    obtain ⟨c, cs, hcs⟩ := List.exists_cons_of_ne_nil hdigits
    have hc : c ∈ (toString t.utf8ByteSize).toList := by
      rw [hcs]
      exact List.mem_cons_self
    have hdash : '-' = c := by
      simp only [signedText, String.toList_append, hcs, List.cons_append] at h
      exact (List.cons.inj h).1
    exact notMem_toList_toString rfl _ (hdash ▸ hc)
  intro a b r s h
  cases a with
  | none =>
    cases b with
    | none => exact ⟨rfl, List.append_cancel_left h⟩
    | some u => exact absurd h (hdash u)
  | some t =>
    cases b with
    | none => exact absurd h.symm (hdash t)
    | some u =>
      have hcut : (toString t.utf8ByteSize).toList ++ ':' :: (t.toList ++ r) =
          (toString u.utf8ByteSize).toList ++ ':' :: (u.toList ++ s) := by
        simpa [signedText, String.toList_append] using h
      obtain ⟨hsize, h⟩ := append_cons_inj_of_notMem (notMem_toList_toString rfl _)
        (notMem_toList_toString rfl _) hcut
      obtain ⟨rfl, hr⟩ :=
        append_inj_of_utf8ByteSize h (toString_nat_injective (String.toList_inj.mp hsize))
      exact ⟨rfl, hr⟩

/-! ## The whole -/

/-- A signature in front of a text, cut where its fields end. -/
theorem toList_signature_append (f : Finding) (r : List Char) : f.signature.toList ++ r =
    f.status.spelling.toList ++ '|' :: ((toString f.ruleNo ++ "|").toList ++
      ((signedText (some f.ruleName)).toList ++ '|' :: ((signedLine f.line ++ "|").toList ++
        ((signedText f.reason).toList ++ '|' :: ((signedText f.suggestion).toList ++ r))))) := by
  simp [signature, String.toList_append]

/-- **A signature tells where it ends.**  The fields are cut off from the front, each with the bar
that follows it. -/
theorem selfDelimiting_signature : SelfDelimiting signature := by
  intro f g r s h
  obtain ⟨status, ruleNo, ruleName, line, reason, suggestion⟩ := f
  obtain ⟨status', ruleNo', ruleName', line', reason', suggestion'⟩ := g
  rw [toList_signature_append, toList_signature_append] at h
  obtain ⟨rfl, h⟩ := selfDelimiting_spelling h
  obtain ⟨rfl, h⟩ := selfDelimiting_ruleNo (List.cons.inj h).2
  obtain ⟨hname, h⟩ := selfDelimiting_signedText h
  cases hname
  obtain ⟨rfl, h⟩ := selfDelimiting_signedLine (List.cons.inj h).2
  obtain ⟨rfl, h⟩ := selfDelimiting_signedText h
  obtain ⟨rfl, hrest⟩ := selfDelimiting_signedText (List.cons.inj h).2
  exact ⟨rfl, hrest⟩

/-- **Findings with one signature are one finding.** -/
theorem eq_of_signature_eq {f g : Finding} (h : f.signature = g.signature) : f = g :=
  (selfDelimiting_signature (congrArg (·.toList ++ []) h)).1

theorem signature_inj {f g : Finding} : f.signature = g.signature ↔ f = g :=
  ⟨eq_of_signature_eq, congrArg signature⟩

/-- No signature begins with another one. -/
theorem signature_prefix_iff {f g : Finding} :
    f.signature.toList <+: g.signature.toList ↔ f = g := by
  constructor
  · rintro ⟨r, hr⟩
    rw [← List.append_nil g.signature.toList] at hr
    exact (selfDelimiting_signature hr).1
  · rintro rfl
    exact List.prefix_rfl

/-- **A signature tells every field of its finding,** whatever bars, colons, dashes and digits stand
in the texts, and an absent text from an empty one.  It does so in front of any other text as well,
since none begins with another. -/
theorem signature_tells_every_field (f g : Finding) :
    (f.signature = g.signature ↔
      f.status = g.status ∧ f.ruleNo = g.ruleNo ∧ f.ruleName = g.ruleName ∧ f.line = g.line ∧
        f.reason = g.reason ∧ f.suggestion = g.suggestion) ∧
      (f.signature.toList <+: g.signature.toList ↔ f = g) := by
  refine ⟨?_, signature_prefix_iff⟩
  rw [signature_inj]
  constructor
  · rintro rfl
    exact ⟨rfl, rfl, rfl, rfl, rfl, rfl⟩
  · intro h
    obtain ⟨status, ruleNo, ruleName, line, reason, suggestion⟩ := f
    obtain ⟨rfl, rfl, rfl, rfl, rfl, rfl⟩ := h
    rfl

end Finding

end PlcAudit
