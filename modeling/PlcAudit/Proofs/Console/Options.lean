import Mathlib.Data.List.Basic
import PlcAudit.Console.Report
import PlcAudit.Proofs.Finding.Signature
import PlcAudit.Proofs.Source.Lines

/-!
# What the options of a report add

Two options decide whether the lines of the source are shown with the violations, and whether the
findings that are followed are listed.  What is promised of them compares reports with each other:
an option adds one thing in its place and leaves all else as it is; and where a thing is not shown,
nothing in the report depends on it, however much of it there is.

So the report is taken apart once, into five parts that stand one after the other.  Three of them
are functions of the name of the source and of a snapshot, and do not ask for the settings, for the
text of the source or for the findings that are followed.  The other two are these findings, all in
one block, and the violations, of which each is a few lines of its own.

* `violationBlock`, `followedBlock`: the two parts that the options concern, spelled out.
* `IsExcerpt`, `isExcerpt_excerpt`: what is shown of the source for a violation.
* `View.violation_eq`, `toList_render`: the parts of a report.
* `exists_around_excerpts`: what is around the lines of the source.
* `render_congr`: the text of the source matters in the lines that are named, and nowhere else.
* `exists_around_followed`: what is around the findings that are followed.
* `options_add_what_they_name`: the three together.
-/

namespace PlcAudit

open Source (OnOneLine linesOf)

/-! ## The parts of a snapshot -/

namespace Snapshot

/-- The violations that are in sight. -/
def violations (s : Snapshot) : List Finding := (s.groups?.map (·.violations)).getD []

/-- The findings that are followed, as far as they are in sight. -/
def followed (s : Snapshot) : List Finding := (s.groups?.map (·.followed)).getD []

/-- What is left of a snapshot when the findings that are followed are left out. -/
def withoutFollowed (s : Snapshot) : Snapshot :=
  { s with
    report := s.report.map fun r => { r with groups := { r.groups with followed := [] } } }

end Snapshot

namespace Console

/-! ## The lines of a violation -/

/-- Number and name of the rule that is violated. -/
def headline (x : Finding) : String :=
  "error: " ++ toString x.ruleNo ++ ". " ++ x.ruleName ++ "\n"

/-- The place of a violation in a source with the given name. -/
def locationLine (name : String) (x : Finding) : String :=
  "  --> " ++ name ++ (match x.line with | some n => ":" ++ toString n | none => "") ++ "\n"

/-- A remark on a violation, if there is one. -/
def remarkLine (label : String) : Option String → String
  | some r => "   = " ++ label ++ ": " ++ r ++ "\n"
  | none => ""

/-- A violation with something after its place. -/
def violationBlock (name : String) (inserted : List Char) (x : Finding) : List Char :=
  (headline x).toList ++ (locationLine name x).toList ++ inserted ++
    (remarkLine "REASON" x.reason).toList ++ (remarkLine "FIX" x.suggestion).toList ++ ['\n']

/-- The text of a line with its number: three blanks, the number in four places, a bar. -/
def numbered (n : UInt32) (code : String) : List Char :=
  "   ".toList ++ (toString n).toList.leftpad 4 ' ' ++ " | ".toList ++ code.toList

/-- **What is shown of the source for a violation:** the line that it names, if the source has it,
on one line; and otherwise nothing. -/
inductive IsExcerpt (src : Source) (x : Finding) : List Char → Prop where
  | line {n : UInt32} {code : String} (hline : x.line = some n) (hpos : 1 ≤ n.toNat)
      (hcode : (linesOf src.text)[n.toNat - 1]? = some code)
      (hone : OnOneLine '\n' '\r' (numbered n code)) : IsExcerpt src x (numbered n code ++ ['\n'])
  | nothing (hnone : ∀ n, x.line = some n →
      ¬ (1 ≤ n.toNat ∧ n.toNat ≤ (linesOf src.text).length)) : IsExcerpt src x []

/-- The line of the source that a violation names, as it is shown. -/
def excerpt (src : Source) (x : Finding) : List Char := View.codeLine ⟨some src, {}, false⟩ x

theorem onOneLine_numbered (n : UInt32) {code : String} (h : OnOneLine '\n' '\r' code.toList) :
    OnOneLine '\n' '\r' (numbered n code) := by
  have hindent : OnOneLine '\n' '\r' "   ".toList := ⟨by decide, by decide⟩
  have hbar : OnOneLine '\n' '\r' " | ".toList := ⟨by decide, by decide⟩
  have hblanks (k : Nat) : OnOneLine '\n' '\r' (List.replicate k ' ') :=
    ⟨mt List.eq_of_mem_replicate (by decide), mt List.eq_of_mem_replicate (by decide)⟩
  have hdigits : OnOneLine '\n' '\r' (toString n).toList :=
    ⟨notMem_toList_toString rfl n.toNat, notMem_toList_toString rfl n.toNat⟩
  exact ((hindent.append ((hblanks _).append hdigits)).append hbar).append h

theorem excerpt_of_some {src : Source} {x : Finding} {n : UInt32} {code : String}
    (hline : x.line = some n) (hcode : src.line? x.line = some code) :
    excerpt src x = numbered n code ++ ['\n'] := by
  have haligned : (View.aligned n).toList = (toString n).toList.leftpad 4 ' ' :=
    String.toList_ofList
  rw [excerpt, View.codeLine_of_some ⟨some src, {}, false⟩ hline hcode]
  unfold numbered
  simp only [View.paint, paint_false, String.toList_append, haligned, List.append_assoc]
  rfl

/-- The lines that are shown are as they should be. -/
theorem isExcerpt_excerpt (src : Source) (x : Finding) : IsExcerpt src x (excerpt src x) := by
  cases hcode : src.line? x.line with
  | none =>
    rw [excerpt, View.codeLine_of_none ⟨some src, {}, false⟩ hcode]
    exact .nothing (Source.lineAt?_eq_none_iff.mp hcode)
  | some code =>
    obtain ⟨n, hline, hpos, hget⟩ := Source.lineAt?_eq_some_iff.mp hcode
    rw [excerpt_of_some hline hcode]
    exact .line hline hpos hget (onOneLine_numbered n (Source.onOneLine_of_lineAt? hcode))

/-- A line with its number in four places. -/
example : excerpt ⟨"main.scl", "a := 1;\r\nb := a * 2;", by decide⟩
    { status := .notFollowed, ruleNo := 4, ruleName := "Use PLC flags", line := some 2 } =
      "      2 | b := a * 2;\n".toList := by decide

/-- What is shown for a violation is determined by the line that it names. -/
theorem excerpt_congr {src src' : Source} {x : Finding} (h : src.line? x.line = src'.line? x.line) :
    excerpt src x = excerpt src' x := by
  simp only [excerpt, View.codeLine, Option.bind_some, h]
  rfl

namespace View

variable {src : Source} {settings : ReportSettings}

theorem placeLine_eq (x : Finding) :
    placeLine ⟨some src, settings, false⟩ x = (locationLine src.name x).toList := by
  unfold placeLine locationLine
  cases x.line with
  | none =>
    simp only [String.toList_append, List.append_assoc]
    rfl
  | some n =>
    simp only [String.toList_append, List.append_assoc]
    rfl

theorem remark_eq (c : Colour) (label : String) (o : Option String) :
    remark ⟨some src, settings, false⟩ c (label ++ ":") o = (remarkLine label o).toList := by
  cases o with
  | none => rfl
  | some r =>
    unfold remark remarkLine
    simp only [paint, paint_false, String.toList_append, List.append_assoc]
    rfl

/-- **A violation, line by line.** -/
theorem violation_eq (x : Finding) :
    violation ⟨some src, settings, false⟩ x =
      violationBlock src.name (if settings.showSource then excerpt src x else []) x := by
  have hheading : heading ⟨some src, settings, false⟩ .red ("error: " ++ ruleTitle x) =
      (headline x).toList := by
    unfold heading headline ruleTitle
    simp only [paint, paint_false, String.toList_append, List.append_assoc]
    rfl
  have hreason : remark ⟨some src, settings, false⟩ .cyan "REASON:" x.reason =
      (remarkLine "REASON" x.reason).toList := remark_eq .cyan "REASON" x.reason
  have hfix : remark ⟨some src, settings, false⟩ .green "FIX:" x.suggestion =
      (remarkLine "FIX" x.suggestion).toList := remark_eq .green "FIX" x.suggestion
  rw [violation, hheading, placeLine_eq, hreason, hfix]
  rfl

end View

/-! ## The rest of a report -/

/-- A view without source and colour.  What does not depend on the source or the settings looks the
same to it as to any other view without colour. -/
def bare : View := ⟨none, {}, false⟩

/-- The findings that are followed, each on a line under a heading, and an empty line. -/
def followedBlock (fs : List Finding) : List Char :=
  if fs.isEmpty then []
  else "  PRACTICES FOLLOWED\n".toList ++
    fs.flatMap (fun f => ("    ✓ " ++ toString f.ruleNo ++ ". " ++ f.ruleName ++ "\n").toList) ++
    ['\n']

/-- The head of a report on a source with the given name, if there is one. -/
def title (name : Option String) : List Char :=
  ['\n'] ++ bare.ruler ++ " PLC SECURE CODING REPORT".toList ++ ['\n'] ++
    (match name with
      | some n => ' ' :: (n.toList ++ ['\n'])
      | none => []) ++
    bare.ruler ++ ['\n']

/-- What stands before the findings that are followed. -/
def top (name : Option String) (s : Snapshot) : List Char :=
  title name ++ bare.failure s ++
    (match s.report with
      | some r => bare.compliance r.compliance
      | none => bare.body s)

/-- What stands between the findings that are followed and the violations. -/
def middle (s : Snapshot) : List Char :=
  match s.report with
  | some r => bare.policyErrors r.groups.errors ++
      if r.groups.violations.isEmpty then []
      else bare.heading .red "  PRACTICES NOT FOLLOWED" ++ ['\n']
  | none => []

/-- What stands after the violations. -/
def bottom (s : Snapshot) : List Char :=
  (match s.report with
    | some r => bare.frequency r.frequency ++ bare.verdict r
    | none => []) ++
    bare.ruler

namespace View

variable {source : Option Source} {settings : ReportSettings}

theorem followed_eq (fs : List Finding) : followed ⟨source, settings, false⟩ fs =
    if settings.showFollowed then followedBlock fs else [] := by
  have hlines : followedLine ⟨source, settings, false⟩ =
      fun f => ("    ✓ " ++ toString f.ruleNo ++ ". " ++ f.ruleName ++ "\n").toList := by
    funext f
    unfold followedLine ruleTitle
    simp only [String.toList_append, List.append_assoc]
    rfl
  have hheading : heading ⟨source, settings, false⟩ .green "  PRACTICES FOLLOWED" =
      "  PRACTICES FOLLOWED\n".toList := rfl
  rw [followed, hlines, hheading]
  cases settings.showFollowed
  · rfl
  · cases fs <;> rfl

theorem violations_eq (v : View) (fs : List Finding) : v.violations fs =
    (if fs.isEmpty then [] else v.heading .red "  PRACTICES NOT FOLLOWED" ++ ['\n']) ++
      fs.flatMap v.violation := by
  cases fs <;> rfl

theorem banner_eq :
    banner ⟨source, settings, false⟩ = title (source.map (·.name)) := by
  cases source <;> rfl

/-- **The parts of a report,** of which two depend on the settings. -/
theorem chars_eq (s : Snapshot) : chars ⟨source, settings, false⟩ s =
    top (source.map (·.name)) s ++
      (if settings.showFollowed then followedBlock s.followed else []) ++ middle s ++
      s.violations.flatMap (violation ⟨source, settings, false⟩) ++ bottom s := by
  obtain ⟨phase, _ | r, notice⟩ := s
  · have hblock : (if settings.showFollowed then followedBlock [] else []) = [] := by
      cases settings.showFollowed <;> rfl
    let s : Snapshot := ⟨phase, none, notice⟩
    show banner _ ++ bare.failure s ++ bare.body s ++ bare.ruler =
      title _ ++ bare.failure s ++ bare.body s ++
        (if settings.showFollowed then followedBlock [] else []) ++ [] ++ [] ++ ([] ++ bare.ruler)
    rw [hblock, banner_eq]
    simp only [List.append_nil, List.nil_append]
  · let s : Snapshot := ⟨phase, some r, notice⟩
    show banner _ ++ bare.failure s ++ report _ r ++ bare.ruler =
      title _ ++ bare.failure s ++ bare.compliance r.compliance ++
        (if settings.showFollowed then followedBlock r.groups.followed else []) ++
        (bare.policyErrors r.groups.errors ++
          if r.groups.violations.isEmpty then []
          else bare.heading .red "  PRACTICES NOT FOLLOWED" ++ ['\n']) ++
        r.groups.violations.flatMap (violation _) ++
        (bare.frequency r.frequency ++ bare.verdict r ++ bare.ruler)
    rw [banner_eq, report, followed_eq, violations_eq]
    simp only [List.append_assoc]
    rfl

end View

/-! ## What the options add -/

section Options

variable (s : Snapshot) (source : Option Source) (settings : ReportSettings)

/-- A report without colour, part by part. -/
theorem toList_render : (render s source settings false).toList =
    top (source.map (·.name)) s ++
      (if settings.showFollowed then followedBlock s.followed else []) ++ middle s ++
      s.violations.flatMap (View.violation ⟨source, settings, false⟩) ++ bottom s := by
  rw [render, String.toList_ofList, View.chars_eq]

/-- A report on a source without colour. -/
theorem toList_render_some (src : Source) : (render s (some src) settings false).toList =
    top (some src.name) s ++
      (if settings.showFollowed then followedBlock s.followed else []) ++ middle s ++
      s.violations.flatMap (fun x =>
        violationBlock src.name (if settings.showSource then excerpt src x else []) x) ++
      bottom s := by
  have hviolation : View.violation ⟨some src, settings, false⟩ = fun x =>
      violationBlock src.name (if settings.showSource then excerpt src x else []) x :=
    funext View.violation_eq
  rw [toList_render, hviolation]
  rfl

theorem top_withoutFollowed (name : Option String) : top name s.withoutFollowed = top name s := by
  obtain ⟨phase, _ | r, notice⟩ := s <;> rfl

theorem middle_withoutFollowed : middle s.withoutFollowed = middle s := by
  obtain ⟨phase, _ | r, notice⟩ := s <;> rfl

theorem violations_withoutFollowed : s.withoutFollowed.violations = s.violations := by
  obtain ⟨phase, _ | r, notice⟩ := s <;> rfl

theorem bottom_withoutFollowed : bottom s.withoutFollowed = bottom s := by
  obtain ⟨phase, _ | r, notice⟩ := s <;> rfl

/-- **The lines of the source stand among parts that are the same without them,** for every source
with the same name. -/
theorem exists_around_excerpts (name : String) :
    ∃ front back : List Char, ∀ src : Source, src.name = name →
      (render s (some src) { settings with showSource := false } false).toList =
        front ++ s.violations.flatMap (violationBlock name []) ++ back ∧
      (render s (some src) { settings with showSource := true } false).toList =
        front ++ s.violations.flatMap (fun x => violationBlock name (excerpt src x) x) ++ back := by
  refine ⟨top (some name) s ++
    (if settings.showFollowed then followedBlock s.followed else []) ++ middle s, bottom s, ?_⟩
  rintro src rfl
  refine ⟨?_, ?_⟩
  · rw [toList_render_some]
    rfl
  · rw [toList_render_some]
    rfl

/-- **The text of a source matters only in the lines that violations name.** -/
theorem render_congr {src src' : Source} (hname : src.name = src'.name)
    (hlines : ∀ x ∈ s.violations, src.line? x.line = src'.line? x.line) :
    render s (some src) settings false = render s (some src') settings false := by
  have hblocks : ∀ x ∈ s.violations,
      violationBlock src.name (if settings.showSource then excerpt src x else []) x =
        violationBlock src'.name (if settings.showSource then excerpt src' x else []) x := by
    intro x hx
    rw [hname, excerpt_congr (hlines x hx)]
  rw [← String.toList_inj, toList_render_some, toList_render_some, List.flatMap_congr hblocks,
    hname]

/-- **The findings that are followed stand among parts that are the same without them,** for all
snapshots that differ in these findings alone. -/
theorem exists_around_followed :
    ∃ front back : List Char, ∀ s' : Snapshot, s'.withoutFollowed = s.withoutFollowed →
      (render s' source { settings with showFollowed := true } false).toList =
        front ++ followedBlock s'.followed ++ back ∧
      (render s' source { settings with showFollowed := false } false).toList = front ++ back := by
  refine ⟨top (source.map (·.name)) s, middle s ++
    s.violations.flatMap (View.violation ⟨source, settings, false⟩) ++ bottom s, ?_⟩
  intro s' hs'
  have htop : top (source.map (·.name)) s' = top (source.map (·.name)) s := by
    rw [← top_withoutFollowed, hs', top_withoutFollowed]
  have hmiddle : middle s' = middle s := by
    rw [← middle_withoutFollowed, hs', middle_withoutFollowed]
  have hviolations : s'.violations = s.violations := by
    rw [← violations_withoutFollowed, hs', violations_withoutFollowed]
  have hbottom : bottom s' = bottom s := by
    rw [← bottom_withoutFollowed, hs', bottom_withoutFollowed]
  -- of the settings a violation asks for the other one alone
  have hviolation (b : Bool) :
      View.violation ⟨source, { settings with showFollowed := b }, false⟩ =
        View.violation ⟨source, settings, false⟩ := rfl
  refine ⟨?_, ?_⟩
  · rw [toList_render, hviolation, htop, hmiddle, hviolations, hbottom, if_pos rfl]
    simp only [List.append_assoc]
  · rw [toList_render, hviolation, htop, hmiddle, hviolations, hbottom, if_neg Bool.false_ne_true]
    simp only [List.append_assoc, List.nil_append]

end Options

/-- **The options of a report add what they are named after, and nothing else.**  With the lines of
the source, directly after the place of each violation stands the line that it names, in one line,
if the source has it; the rest is what it is without, whatever the source holds.  So a report is
the same for two sources that agree in the lines that are named.  And with the findings that are
followed there is one block more, which is all that depends on them. -/
theorem options_add_what_they_name (s : Snapshot) (settings : ReportSettings) :
    (∀ (src : Source) (x : Finding), IsExcerpt src x (excerpt src x)) ∧
    (∀ name : String, ∃ front back : List Char, ∀ src : Source, src.name = name →
      (render s (some src) { settings with showSource := false } false).toList =
        front ++ s.violations.flatMap (violationBlock name []) ++ back ∧
      (render s (some src) { settings with showSource := true } false).toList =
        front ++ s.violations.flatMap (fun x => violationBlock name (excerpt src x) x) ++ back) ∧
    (∀ src src' : Source, src.name = src'.name →
      (∀ x ∈ s.violations, src.line? x.line = src'.line? x.line) →
      render s (some src) settings false = render s (some src') settings false) ∧
    ∀ source : Option Source, ∃ front back : List Char, ∀ s' : Snapshot,
      s'.withoutFollowed = s.withoutFollowed →
      (render s' source { settings with showFollowed := true } false).toList =
        front ++ followedBlock s'.followed ++ back ∧
      (render s' source { settings with showFollowed := false } false).toList = front ++ back :=
  ⟨isExcerpt_excerpt, exists_around_excerpts s settings,
    fun _ _ hname hlines => render_congr s settings hname hlines,
    fun source => exists_around_followed s source settings⟩

end Console

end PlcAudit
