import PlcAudit.Proofs.Entry.Spelling
import PlcAudit.Report.Basic

/-!
# From entries to outputs

An output is read as one array, and its elements one after the other.  It is accepted when every
element is, and refused on account of the first that is not, whatever stands behind it.

* `mapM_eq_ok_iff`, `mapM_append_cons_error`: running a decoder along a list.
* `parseOutput_eq_ok_iff`: when an output is accepted, and with which entries.
* `exists_malformedOutput`: every refusal says that the output is malformed.
* `parseOutput_of_append_cons`: the refusal is that of the first bad element.
-/

namespace PlcAudit

open Json (Value)

/-! ## A decoder along a list -/

section MapM

variable {ε α β : Type} {f : α → Except ε β}

/-- A decoder accepts a list when it accepts every element, and gives the results in order. -/
theorem mapM_eq_ok_iff {l : List α} {bs : List β} :
    l.mapM f = .ok bs ↔ List.Forall₂ (fun a b => f a = .ok b) l bs := by
  induction l generalizing bs with
  | nil => rw [List.mapM_nil, pure_eq_ok_iff, List.forall₂_nil_left_iff, eq_comm]
  | cons a l ih =>
    simp only [List.mapM_cons, bind_eq_ok_iff, pure_eq_ok_iff, List.forall₂_cons_left_iff, ih]
    constructor
    · rintro ⟨b, hb, bs', hbs, rfl⟩
      exact ⟨b, bs', hb, hbs, rfl⟩
    · rintro ⟨b, bs', hb, hbs, rfl⟩
      exact ⟨b, hb, bs', hbs, rfl⟩

/-- Every element of a list has a partner exactly when the list has one. -/
theorem exists_forall₂_iff {R : α → β → Prop} {l : List α} :
    (∃ bs, List.Forall₂ R l bs) ↔ ∀ a ∈ l, ∃ b, R a b := by
  constructor
  · rintro ⟨bs, h⟩
    induction h with
    | nil => exact fun a ha => nomatch ha
    | @cons x b l bs hx _ ih => exact List.forall_mem_cons.mpr ⟨⟨b, hx⟩, ih⟩
  · intro h
    induction l with
    | nil => exact ⟨[], .nil⟩
    | cons x l ih =>
      obtain ⟨b, hb⟩ := h x List.mem_cons_self
      obtain ⟨bs, hbs⟩ := ih fun y hy => h y (List.mem_cons_of_mem x hy)
      exact ⟨b :: bs, .cons hb hbs⟩

/-- Two relations that agree on the elements of a list relate it to the same lists. -/
theorem forall₂_congr_of_mem {R S : α → β → Prop} {l : List α} {bs : List β}
    (h : ∀ a ∈ l, ∀ b, R a b ↔ S a b) : List.Forall₂ R l bs ↔ List.Forall₂ S l bs := by
  induction l generalizing bs with
  | nil => simp only [List.forall₂_nil_left_iff]
  | cons x l ih =>
    obtain ⟨hx, hl⟩ := List.forall_mem_cons.mp h
    simp only [List.forall₂_cons_left_iff, hx, ih hl]

/-- The fault of the first bad element is the fault of the list. -/
theorem mapM_append_cons_error {pre post : List α} {a : α} {e : ε}
    (hpre : ∀ x ∈ pre, ∃ b, f x = .ok b) (ha : f a = .error e) :
    (pre ++ a :: post).mapM f = .error e := by
  induction pre with
  | nil =>
    rw [List.nil_append, List.mapM_cons, ha]
    rfl
  | cons x pre ih =>
    obtain ⟨b, hb⟩ := hpre x List.mem_cons_self
    rw [List.cons_append, List.mapM_cons, hb, ih fun y hy => hpre y (List.mem_cons_of_mem x hy)]
    rfl

/-- A list that holds a bad element has a first one. -/
theorem exists_first_not {p : α → Prop} {l : List α} (h : ¬ ∀ x ∈ l, p x) :
    ∃ pre a post, l = pre ++ a :: post ∧ (∀ x ∈ pre, p x) ∧ ¬ p a := by
  induction l with
  | nil => simp at h
  | cons x l ih =>
    by_cases hx : p x
    · have hl : ¬ ∀ y ∈ l, p y := fun hl => h (List.forall_mem_cons.mpr ⟨hx, hl⟩)
      obtain ⟨pre, a, post, rfl, hpre, ha⟩ := ih hl
      exact ⟨x :: pre, a, post, rfl, List.forall_mem_cons.mpr ⟨hx, hpre⟩, ha⟩
    · exact ⟨[], x, l, rfl, by simp, hx⟩

end MapM

/-! ## Outputs -/

/-- Rewording a fault changes no result. -/
theorem mapError_eq_ok_iff {ε ε' α : Type} {x : Except ε α} {f : ε → ε'} {a : α} :
    x.mapError f = .ok a ↔ x = .ok a := by
  cases x with
  | error e => simp [Except.mapError]
  | ok b => simp [Except.mapError]

theorem entriesOfValue_eq_ok_iff {v : Value} {es : List Entry} :
    entriesOfValue v = .ok es ↔
      ∃ vs, v = .array vs ∧ List.Forall₂ (fun v e => Entry.ofValue v = .ok e) vs es := by
  constructor
  · intro h
    cases v with
    | array vs => exact ⟨vs, rfl, mapM_eq_ok_iff.mp (mapError_eq_ok_iff.mp h)⟩
    | _ => cases h
  · rintro ⟨vs, rfl, h⟩
    exact mapError_eq_ok_iff.mpr (mapM_eq_ok_iff.mpr h)

theorem parseOutput_of_read {output : String} {v : Value}
    (h : Json.read output.toList = .ok v) :
    parseOutput output =
      (entriesOfValue v).mapError fun fault => .malformedOutput fault.message := by
  unfold parseOutput entriesOf
  simp only [h]

/-- **When an output is accepted.**  It has to be one array, each element of which is an entry. -/
theorem parseOutput_eq_ok_iff {output : String} {es : List Entry} :
    parseOutput output = .ok es ↔ ∃ vs, Json.read output.toList = .ok (.array vs) ∧
      List.Forall₂ (fun v e => Entry.ofValue v = .ok e) vs es := by
  constructor
  · intro h
    cases hr : Json.read output.toList with
    | ok v =>
      rw [parseOutput_of_read hr, mapError_eq_ok_iff, entriesOfValue_eq_ok_iff] at h
      obtain ⟨vs, rfl, hvs⟩ := h
      exact ⟨vs, rfl, hvs⟩
    | error r =>
      unfold parseOutput entriesOf at h
      simp only [hr] at h
      cases h
  · rintro ⟨vs, hr, hvs⟩
    rw [parseOutput_of_read hr, mapError_eq_ok_iff, entriesOfValue_eq_ok_iff]
    exact ⟨vs, rfl, hvs⟩

/-- Every refusal says that the output is malformed. -/
theorem exists_malformedOutput {output : String} (h : ¬ ∃ es, parseOutput output = .ok es) :
    ∃ m, parseOutput output = .error (.malformedOutput m) := by
  unfold parseOutput at h ⊢
  cases he : entriesOf output with
  | ok es => exact absurd ⟨es, mapError_eq_ok_iff.mpr he⟩ h
  | error fault => exact ⟨fault.message, rfl⟩

/-- **The refusal is that of the first bad element,** whatever follows it. -/
theorem parseOutput_of_append_cons {output : String} {pre post : List Value} {x : Value}
    {fault : EntryFault} (h : Json.read output.toList = .ok (.array (pre ++ x :: post)))
    (hpre : ∀ v ∈ pre, ∃ e, Entry.ofValue v = .ok e) (hx : Entry.ofValue x = .error fault) :
    parseOutput output = .error (.malformedOutput (OutputFault.badEntry fault).message) := by
  rw [parseOutput_of_read h, entriesOfValue, entriesOfItems, mapM_append_cons_error hpre hx]
  rfl

end PlcAudit
