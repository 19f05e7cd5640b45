import PlcAudit.Proofs.Entry.Output
import PlcAudit.Proofs.Json.RoundTrip
import PlcAudit.Report.Document

/-!
# Findings that are written are read back

A finding is written as one kind of object and an engine's entry is read as another.  The two agree
where they have to: what a finding writes spells an entry, flat and without a detail block, and this
entry stands for the finding unless it names line zero.

* `readable_wordValue`, `Finding.readable_listValue`: what is written holds nothing that could
  not be read back.
* `Entry.ofFinding`: the entry that a finding is read as.
* `isEntry_toValue`: what a finding writes spells that entry.
* `parseOutput_layout`: a list of findings comes back as its entries, from either layout.
-/

namespace PlcAudit

open Json (Value)

/-! ## What is written can be read back -/

theorem readable_wordValue (depth : Nat) (n : UInt32) : (wordValue n).Readable depth := by
  refine .int ⟨?_, ?_⟩
  · exact Int.le_trans (by decide) (Int.natCast_nonneg _)
  · exact Int.ofNat_lt.mpr (Nat.lt_trans n.toNat_lt (by decide))

theorem forall_mem_optionalMember {α : Type} {key : String} {f : α → Value} {a : Option α}
    {p : String × Value → Prop} (h : ∀ x, p (key, f x)) : ∀ m ∈ optionalMember key f a, p m := by
  cases a with
  | none => exact fun m hm => nomatch hm
  | some x => exact List.forall_mem_singleton.mpr (h x)

namespace Finding

theorem readable_toValue (depth : Nat) (f : Finding) : f.toValue.Readable (depth + 1) := by
  refine .object ?_
  simp only [List.forall_mem_append, List.forall_mem_cons]
  refine ⟨⟨⟨⟨.string _, readable_wordValue _ _, .string _, fun m hm => nomatch hm⟩, ?_⟩, ?_⟩, ?_⟩
  · exact forall_mem_optionalMember (readable_wordValue depth)
  · exact forall_mem_optionalMember .string
  · exact forall_mem_optionalMember .string

/-- A list of findings is two brackets deep. -/
theorem readable_listValue (depth : Nat) (fs : List Finding) :
    (listValue fs).Readable (depth + 2) := by
  refine .array fun v hv => ?_
  obtain ⟨f, -, rfl⟩ := List.mem_map.mp hv
  exact f.readable_toValue depth

end Finding

/-! ## The entry of a finding -/

/-- The entry that a finding is read as: flat, without a detail block. -/
def Entry.ofFinding (f : Finding) : Entry where
  status := f.status
  ruleNo := f.ruleNo
  ruleName := f.ruleName
  line := f.line
  reason := f.reason
  suggestion := f.suggestion

/-- The entry of a finding stands for it, since a line that is not zero is kept. -/
theorem Entry.toFinding_ofFinding {f : Finding} (h : f.line ≠ some 0) :
    (Entry.ofFinding f).toFinding = f := by
  have hline : f.line.bind Finding.lineOf = f.line := by
    cases hf : f.line with
    | none => rfl
    | some n =>
      have hn : 0 < n := UInt32.pos_iff_ne_zero.mpr fun hn => h (by rw [hf, hn])
      exact if_pos hn
  simp only [ofFinding, toFinding, choose_none, hline]

theorem lookup?_optionalMember {α : Type} (key key' : String) (f : α → Value) (a : Option α) :
    Value.lookup? key (optionalMember key' f a) = if key' = key then a.map f else none := by
  cases a with
  | none => simp [optionalMember]
  | some x =>
    by_cases h : key' = key
    · simp [optionalMember, Value.lookup?, h]
    · simp [optionalMember, Value.lookup?, h]

/-- A member that is written when there is a value supplies it. -/
theorem supplied_map {α : Type} {R : Value → α → Prop} {f : α → Value} (h : ∀ x, R (f x) x)
    (a : Option α) : Supplied R (a.map f) a := by
  cases a with
  | none => exact .missing
  | some x => exact .value (h x)

theorem Status.spelled_spelling (s : Status) : Status.Spelled s.spelling s := by
  cases s with
  | ok => exact .ok
  | notFollowed => exact .notFollowed
  | error => exact .error

/-- **What a finding writes spells its entry.** -/
theorem isEntry_toValue (f : Finding) : IsEntry f.toValue (.ofFinding f) := by
  refine ⟨_, rfl, ?_, ?_, ?_, ?_, ?_, ?_, ?_⟩
  all_goals simp only [Value.lookup?_append, lookup?_optionalMember, String.reduceEq, if_true,
    if_false, Option.none_or]
  · exact ⟨_, rfl, _, rfl, f.status.spelled_spelling⟩
  · exact ⟨_, rfl, rfl⟩
  · exact ⟨_, rfl, rfl⟩
  · -- no other member has the key of an optional field
    rw [show Value.lookup? "line" _ = none from rfl, Option.or_none]
    exact supplied_map (f := wordValue) (fun _ => rfl) f.line
  · rw [show Value.lookup? "reason" _ = none from rfl, Option.or_none]
    exact supplied_map (f := .string) (fun _ => rfl) f.reason
  · rw [show Value.lookup? "suggestion" _ = none from rfl, Option.or_none]
    exact supplied_map (f := .string) (fun _ => rfl) f.suggestion
  · exact .missing

/-! ## Lists of findings -/

/-- A text of a list of findings is accepted, with the entry of each. -/
theorem parseOutput_listValue {text : String} {fs : List Finding}
    (h : Json.read text.toList = .ok (Finding.listValue fs)) :
    parseOutput text = .ok (fs.map Entry.ofFinding) := by
  refine parseOutput_eq_ok_iff.mpr ⟨_, h, ?_⟩
  rw [List.forall₂_map_left_iff, List.forall₂_map_right_iff, List.forall₂_same]
  exact fun f _ => Entry.ofValue_of_isEntry (isEntry_toValue f)

/-- The findings of the entries of findings are these findings. -/
theorem findingsOf_map_ofFinding {fs : List Finding} (h : ∀ f ∈ fs, f.line ≠ some 0) :
    findingsOf (fs.map Entry.ofFinding) = fs := by
  rw [findingsOf, List.map_map]
  exact (List.map_congr_left fun f hf => Entry.toFinding_ofFinding (h f hf)).trans (List.map_id fs)

/-- The two layouts in which a value is written. -/
def layouts : List (Value → String) := [Json.compact, Json.indented]

/-- What is written in a layout is read back. -/
theorem read_layout {layout : Value → String} (hlayout : layout ∈ layouts) {v : Value}
    (hv : v.Readable Json.maxDepth) : Json.read (layout v).toList = .ok v := by
  simp only [layouts, List.mem_cons, List.mem_nil_iff, or_false] at hlayout
  rcases hlayout with rfl | rfl
  · rw [Json.compact, String.toList_ofList]
    exact Json.read_write hv
  · rw [Json.indented, String.toList_ofList]
    exact Json.read_writeIndented hv 0

/-- **A list of findings is read back as its entries,** from either layout. -/
theorem parseOutput_layout {layout : Value → String} (hlayout : layout ∈ layouts)
    (fs : List Finding) : parseOutput (layout (Finding.listValue fs)) = .ok (fs.map .ofFinding) :=
  parseOutput_listValue (read_layout hlayout (Finding.readable_listValue 125 fs))

end PlcAudit
