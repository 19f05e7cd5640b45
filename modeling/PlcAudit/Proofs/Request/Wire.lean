import PlcAudit.Checker
import PlcAudit.Proofs.Json.RoundTrip

/-!
# Requests on the wire

An engine is given its request as one line.  Whatever line ends and controls a source or a policy
holds, they are escaped, so none of them is on the line; and whatever quotes and backslashes they
hold, the line is read as an object of three members with the texts as they were.

* `Json.forall_mem_write`: the compact layout of a value holds no control character below the blank.
* `Request.read_wire`: a request is read back.
* `Checker.analyze_eq`: a program is given this line and nothing else.
* `Request.wire_carries_request`: all of it, for a request from a source, a policy and a name.
-/

namespace PlcAudit

/-! ## Values on one line -/

namespace Json

/-- A character that may stand on a line. -/
def OnLine (c : Char) : Prop := 0x20 ≤ c.toNat

instance (c : Char) : Decidable (OnLine c) := inferInstanceAs (Decidable (0x20 ≤ c.toNat))

theorem onLine_of_isDigit {c : Char} (h : c.isDigit = true) : OnLine c := by
  simp only [Char.isDigit, Bool.and_eq_true, decide_eq_true_eq] at h
  exact Nat.le_trans (by decide) (UInt32.le_iff_toNat_le.mp h.1)

/-- Of a given text each character is checked. -/
theorem onLine_of_all {cs : List Char} (h : (cs.all fun c => decide (OnLine c)) = true) :
    ∀ c ∈ cs, OnLine c := fun c hc => of_decide_eq_true (List.all_eq_true.mp h c hc)

theorem onLine_digitChar : ∀ d < 16, OnLine (Nat.digitChar d) := by decide

/-- A character of a string is written without controls. -/
theorem forall_mem_escapedChar (c : Char) : ∀ d ∈ escapedChar c, OnLine d := by
  unfold escapedChar
  split_ifs with hquote hslash hb hf hn hr ht hcontrol
  any_goals exact onLine_of_all rfl
  · have hhigh := onLine_digitChar (c.toNat / 16) (by omega)
    have hlow := onLine_digitChar (c.toNat % 16) (by omega)
    simp only [hexPadded, List.forall_mem_cons]
    exact ⟨by decide, by decide, by decide, by decide, hhigh, hlow, fun _ hd => nomatch hd⟩
  · exact List.forall_mem_singleton.mpr (Nat.le_of_not_lt hcontrol)

theorem forall_mem_writeString (s : String) : ∀ c ∈ writeString s, OnLine c := by
  rw [writeString, List.forall_mem_cons, List.forall_mem_append]
  simp only [List.mem_flatMap]
  refine ⟨by decide, ?_, onLine_of_all rfl⟩
  rintro d ⟨c, -, hd⟩
  exact forall_mem_escapedChar c d hd

theorem forall_mem_writeInt (n : Int) : ∀ c ∈ writeNumber (.int n), OnLine c := by
  rw [writeNumber_int]
  refine List.forall_mem_append.mpr ⟨?_, fun c hc => onLine_of_isDigit (isDigit_of_mem_toDigits hc)⟩
  split_ifs
  · exact onLine_of_all rfl
  · exact onLine_of_all rfl

/-- Nothing stands between the texts of a list but commas. -/
theorem forall_mem_commaSeparated {css : List (List Char)}
    (h : ∀ cs ∈ css, ∀ c ∈ cs, OnLine c) : ∀ c ∈ commaSeparated [] css, OnLine c := by
  induction css with
  | nil => exact fun _ hc => nomatch hc
  | cons cs css ih =>
    rw [List.forall_mem_cons] at h
    cases css with
    | nil => exact h.1
    | cons ds css =>
      rw [commaSeparated, List.nil_append, List.forall_mem_append, List.forall_mem_cons]
      exact ⟨h.1, by decide, ih h.2⟩

/-- **The compact layout is one line:** it holds no control character below the blank. -/
theorem forall_mem_write {depth : Nat} {v : Value} (h : v.Readable depth) :
    ∀ c ∈ write v, OnLine c := by
  induction h with
  | null => exact onLine_of_all rfl
  | bool b => cases b <;> exact onLine_of_all rfl
  | int => exact forall_mem_writeInt _
  | string s => exact forall_mem_writeString s
  | @array depth vs _ ih =>
    rw [write, writeItems_eq, List.forall_mem_cons, List.forall_mem_append]
    refine ⟨by decide, forall_mem_commaSeparated ?_, onLine_of_all rfl⟩
    exact List.forall_mem_map.mpr ih
  | @object depth ms _ ih =>
    rw [write, writeMembers_eq, List.forall_mem_cons, List.forall_mem_append]
    refine ⟨by decide, forall_mem_commaSeparated ?_, onLine_of_all rfl⟩
    refine List.forall_mem_map.mpr fun m hm => ?_
    rw [List.forall_mem_append, List.forall_mem_cons]
    exact ⟨forall_mem_writeString m.1, by decide, ih m hm⟩

end Json

/-! ## Requests -/

namespace Request

theorem readable_toValue (depth : Nat) (r : Request) : r.toValue.Readable (depth + 1) := by
  refine .object ?_
  simp only [List.forall_mem_cons]
  exact ⟨.string _, .string _, .string _, fun _ hm => nomatch hm⟩

theorem onLine_wire (r : Request) : ∀ c ∈ r.wire.toList, Json.OnLine c := by
  rw [wire, Json.compact, String.toList_ofList]
  exact Json.forall_mem_write (r.readable_toValue 126)

/-- **A request is read back** as an object of three members. -/
theorem read_wire (r : Request) : Json.read r.wire.toList = .ok r.toValue := by
  rw [wire, Json.compact, String.toList_ofList]
  exact Json.read_write (r.readable_toValue 126)

/-- A name that is missing or empty is replaced, and no other one. -/
theorem fileName_of (source : String) (policy fileName : Option String) :
    ((fileName = none ∨ fileName = some "") ∧
        (Request.of source policy fileName).fileName = placeholderName) ∨
      (fileName = some (Request.of source policy fileName).fileName ∧
        (Request.of source policy fileName).fileName ≠ "") := by
  cases fileName with
  | none => exact Or.inl ⟨Or.inl rfl, rfl⟩
  | some n =>
    by_cases hn : n = ""
    · subst hn
      exact Or.inl ⟨Or.inr rfl, rfl⟩
    · have hname : (Request.of source policy (some n)).fileName = n := by
        simp [Request.of, Option.filter, hn]
      rw [hname]
      exact Or.inr ⟨rfl, hn⟩

end Request

/-- **A program is given the request as its line and nothing else.** -/
theorem Checker.analyze_eq (c : Checker) (launch : Launcher) (h : Host) (r : Request) :
    c.analyze launch h r =
      c.analyze (fun h path arguments _ => launch h path arguments (Text.bytesOf r.wire)) h r := by
  simp only [analyze, runProgram]

namespace Request

/-- **The request of an engine is one line that carries the source, the policy and the name.**  No
character of it is below the blank; it is a JSON object with three members, of which the first two
are the texts as they were given, no policy being an empty one, and the third is the name, for which
the placeholder stands exactly when it is missing or empty.  A program that analyzes the request is
given this line for its input. -/
theorem wire_carries_request (source : String) (policy fileName : Option String) :
    (∀ c ∈ (Request.of source policy fileName).wire.toList, 0x20 ≤ c.toNat) ∧
      Json.read (Request.of source policy fileName).wire.toList = .ok (.object
        [("source", .string source), ("policy", .string (policy.getD "")),
          ("file_name", .string (Request.of source policy fileName).fileName)]) ∧
      (((fileName = none ∨ fileName = some "") ∧
          (Request.of source policy fileName).fileName = placeholderName) ∨
        (fileName = some (Request.of source policy fileName).fileName ∧
          (Request.of source policy fileName).fileName ≠ "")) ∧
      ∀ (c : Checker) (launch : Launcher) (h : Host),
        c.analyze launch h (Request.of source policy fileName) =
          c.analyze
            (fun h path arguments _ =>
              launch h path arguments (Text.bytesOf (Request.of source policy fileName).wire))
            h (Request.of source policy fileName) :=
  ⟨Request.onLine_wire _, Request.read_wire _, fileName_of source policy fileName,
    fun c launch h => c.analyze_eq launch h _⟩

end Request

end PlcAudit
