import Mathlib.Data.List.Basic
import PlcAudit.Console.Report
import PlcAudit.Proofs.Finding.Signature
import PlcAudit.Proofs.Source.Lines

/-!
# Colour changes no text

A report is put together from many pieces, some of them in a style and some not, and nothing in it
says where a piece ends.  To take the colour off again one has the finished text alone, in which a
control sequence is found by its form.  So one that is left open, or a text that goes on where a
sequence could, would be taken for something else, in some reports and not in others.

What makes it come out right is a property of a piece whatever follows it: when the control
sequences are taken out of the piece with anything behind it, what is left is the piece without
colour, and then what is left of the rest.  It passes from pieces to what is put together from them,
so that there is one short lemma for each part of a report.

* `uncoloured`: a text without its control sequences.
* `Shows`: a text in colour and the text without it.
* `shows_paint`: the one place where there is a difference.
* `View.shows_chars`: the whole report, part by part.
* `colour_changes_no_text`: the statement about what is printed.
-/

namespace PlcAudit

/-! ## The texts that are shown -/

/-- The texts of a finding. -/
def Finding.texts (f : Finding) : List String :=
  f.ruleName :: (f.reason.toList ++ f.suggestion.toList)

/-- The texts of a snapshot: those of its findings, and why the last analysis failed. -/
def Snapshot.texts (s : Snapshot) : List String :=
  (s.groups?.toList.flatMap Groups.toList).flatMap Finding.texts ++ s.message?.toList

namespace Console

/-! ## Taking control sequences out -/

/-- What stands between the bracket and the end of a control sequence. -/
def isCode (c : Char) : Bool := c.isDigit || c = ';'

/-- What follows the codes of a control sequence and its end, if that is what a text begins with. -/
def afterCodes? : List Char → Option (List Char)
  | [] => none
  | c :: r => if isCode c then afterCodes? r else if c = 'm' then some r else none

/-- What follows a control sequence, if a text begins with one. -/
def afterSequence? : List Char → Option (List Char)
  | '\x1b' :: '[' :: r => afterCodes? r
  | _ => none

theorem length_lt_of_afterCodes? {cs r : List Char} (h : afterCodes? cs = some r) :
    r.length < cs.length := by
  induction cs with
  | nil => cases h
  | cons c cs ih =>
    rw [afterCodes?] at h
    split at h
    · exact Nat.lt_succ_of_lt (ih h)
    · split at h
      · cases h
        exact Nat.lt_succ_self _
      · cases h

theorem length_lt_of_afterSequence? {cs r : List Char} (h : afterSequence? cs = some r) :
    r.length < cs.length := by
  unfold afterSequence? at h
  split at h
  · have hlt := length_lt_of_afterCodes? h
    simp only [List.length_cons]
    omega
  · cases h

/-- **A text without its control sequences,** which are looked for from the left. -/
def uncoloured (cs : List Char) : List Char :=
  match cs with
  | [] => []
  | c :: r =>
    match h : afterSequence? (c :: r) with
    | some r' =>
      have := length_lt_of_afterSequence? h
      uncoloured r'
    | none => c :: uncoloured r
termination_by cs.length
decreasing_by
  · exact this
  · exact Nat.lt_succ_self _

@[simp] theorem uncoloured_nil : uncoloured [] = [] := by rw [uncoloured]

theorem uncoloured_of_afterSequence? {cs r : List Char} (h : afterSequence? cs = some r) :
    uncoloured cs = uncoloured r := by
  cases cs with
  | nil => cases h
  | cons c cs =>
    rw [uncoloured]
    split
    · next r' h' =>
      cases h'.symm.trans h
      rfl
    · next h' => cases h'.symm.trans h

/-- A character that begins no control sequence stays. -/
theorem uncoloured_cons {c : Char} (hc : c ≠ '\x1b') (r : List Char) :
    uncoloured (c :: r) = c :: uncoloured r := by
  have hnone : afterSequence? (c :: r) = none := by
    unfold afterSequence?
    split
    · next heq => exact absurd (List.cons.inj heq).1 hc
    · rfl
  rw [uncoloured]
  split
  · next r' h' => cases hnone.symm.trans h'
  · rfl

theorem afterCodes?_append {codes : List Char} (h : codes.all isCode = true) (r : List Char) :
    afterCodes? (codes ++ 'm' :: r) = some r := by
  induction codes with
  | nil => rfl
  | cons c codes ih =>
    rw [List.all_cons, Bool.and_eq_true] at h
    rw [List.cons_append, afterCodes?, if_pos h.1]
    exact ih h.2

/-- A control sequence goes. -/
theorem uncoloured_sequence {codes : List Char} (h : codes.all isCode = true) (r : List Char) :
    uncoloured (sequence codes ++ r) = uncoloured r := by
  apply uncoloured_of_afterSequence?
  show afterCodes? (codes ++ ['m'] ++ r) = some r
  rw [List.append_assoc]
  exact afterCodes?_append h r

theorem Style.all_codes (style : Style) : style.codes.all isCode = true := by
  cases style with
  | bold | dim => rfl
  | coloured c | boldColoured c => cases c <;> rfl

/-- A text in which no style ends is not interrupted. -/
theorem reopen_of_notMem (opening : List Char) {cs : List Char} (h : '\x1b' ∉ cs) :
    reopen opening cs = cs := by
  fun_induction reopen opening cs with
  | case1 r ih => exact absurd List.mem_cons_self h
  | case2 c r _ ih => rw [ih (List.not_mem_of_not_mem_cons h)]
  | case3 => rfl

/-! ## Plain texts -/

/-- A text in which no control sequence begins. -/
def IsPlain (s : String) : Prop := '\x1b' ∉ s.toList

instance (s : String) : Decidable (IsPlain s) := inferInstanceAs (Decidable ('\x1b' ∉ s.toList))

theorem IsPlain.append {s t : String} (hs : IsPlain s) (ht : IsPlain t) : IsPlain (s ++ t) := by
  rw [IsPlain, String.toList_append, List.mem_append, not_or]
  exact ⟨hs, ht⟩

theorem isPlain_toString (n : Nat) : IsPlain (toString n) := notMem_toList_toString rfl n

theorem isPlain_word (n : UInt32) : IsPlain (toString n) := isPlain_toString n.toNat

theorem isPlain_pluralize {word : String} (h : IsPlain word) (n : Nat) :
    IsPlain (pluralize word n) := by
  rw [pluralize]
  split
  · exact h
  · exact h.append (by decide)

theorem notMem_replicate {a : Char} (ha : '\x1b' ≠ a) (n : Nat) : '\x1b' ∉ List.replicate n a :=
  mt List.eq_of_mem_replicate ha

/-! ## Texts with colour and without -/

/-- **A text in colour shows a text.**  The latter has nothing that could begin a control sequence,
and is what is left of the former, whatever comes next. -/
structure Shows (c t : List Char) : Prop where
  plain : '\x1b' ∉ t
  removed : ∀ r, uncoloured (c ++ r) = t ++ uncoloured r

namespace Shows

variable {c c' t t' : List Char}

/-- Without control sequences there is no difference. -/
theorem self (h : '\x1b' ∉ t) : Shows t t := by
  refine ⟨h, fun r => ?_⟩
  induction t with
  | nil => rfl
  | cons a t ih =>
    rw [List.mem_cons, not_or] at h
    rw [List.cons_append, uncoloured_cons (Ne.symm h.1), ih h.2]
    rfl

theorem nil : Shows [] [] := self List.not_mem_nil

theorem text (s : String) (h : IsPlain s) : Shows s.toList s.toList := self h

theorem append (h : Shows c t) (h' : Shows c' t') : Shows (c ++ c') (t ++ t') where
  plain := by
    rw [List.mem_append, not_or]
    exact ⟨h.plain, h'.plain⟩
  removed r := by rw [List.append_assoc, h.removed, h'.removed, List.append_assoc]

theorem cons {a : Char} (ha : a ≠ '\x1b') (h : Shows c t) : Shows (a :: c) (a :: t) :=
  append (self (mt List.mem_singleton.mp ha.symm)) h

theorem ite {p : Prop} [Decidable p] (h : p → Shows c t) (h' : ¬ p → Shows c' t') :
    Shows (if p then c else c') (if p then t else t') := by
  split
  · next hp => exact h hp
  · next hp => exact h' hp

theorem flatMap {α : Type} {f g : α → List Char} {as : List α} (h : ∀ a ∈ as, Shows (f a) (g a)) :
    Shows (as.flatMap f) (as.flatMap g) := by
  induction as with
  | nil => exact nil
  | cons a as ih =>
    rw [List.forall_mem_cons] at h
    rw [List.flatMap_cons, List.flatMap_cons]
    exact h.1.append (ih h.2)

end Shows

/-- **A text in a style shows the text.** -/
theorem shows_paint (colour : Bool) (style : Style) {cs : List Char} (h : '\x1b' ∉ cs) :
    Shows (paint colour style cs) cs := by
  cases colour with
  | false => exact .self h
  | true =>
    refine ⟨h, fun r => ?_⟩
    -- no style ends within the text, so there is one sequence before it and one behind it
    have hreset : ['0'].all isCode = true := rfl
    show uncoloured (sequence style.codes ++ reopen (sequence style.codes) cs ++ reset ++ r) = _
    rw [reopen_of_notMem _ h, List.append_assoc, List.append_assoc,
      uncoloured_sequence style.all_codes, (Shows.self h).removed, reset,
      uncoloured_sequence hreset]

namespace View

/-! ## The parts of a report -/

/-- The same view without colour. -/
def plain (v : View) : View := { v with colour := false }

variable (v : View) {f : Finding} {fs : List Finding}

theorem shows_newline : Shows ['\n'] ['\n'] := .self (by decide)

theorem shows_blank : Shows [' '] [' '] := .self (by decide)

theorem shows_paint (style : Style) (s : String) (h : IsPlain s) :
    Shows (v.paint style s) (v.plain.paint style s) := Console.shows_paint v.colour style h

theorem shows_heading (c : Colour) (s : String) (h : IsPlain s) :
    Shows (v.heading c s) (v.plain.heading c s) := (v.shows_paint _ s h).append shows_newline

theorem shows_ruler : Shows v.ruler v.plain.ruler := by
  have hline : IsPlain (String.ofList (List.replicate 60 '─')) := by
    rw [IsPlain, String.toList_ofList]
    exact notMem_replicate (by decide) 60
  exact (v.shows_paint .dim _ hline).append shows_newline

theorem shows_banner (h : ∀ f, v.source = some f → IsPlain f.name) :
    Shows v.banner v.plain.banner := by
  have htitle := v.shows_paint .bold " PLC SECURE CODING REPORT" (by decide)
  have hhead := ((shows_newline.append v.shows_ruler).append htitle).append shows_newline
  refine ((hhead.append ?_).append v.shows_ruler).append shows_newline
  -- both views have the same source
  rcases v with ⟨_ | f, settings, colour⟩
  · exact .nil
  · exact .cons (by decide) ((shows_paint _ .dim _ (h f rfl)).append shows_newline)

theorem shows_failure {s : Snapshot} (h : ∀ m, s.message? = some m → IsPlain m) :
    Shows (v.failure s) (v.plain.failure s) := by
  unfold failure
  cases hm : s.message? with
  | none => exact .nil
  | some m =>
    have hmark := v.shows_paint (.boldColoured .red) "X" (by decide)
    have hmessage := v.shows_paint (.coloured .red) m (h m hm)
    have hlast := v.shows_paint .dim "Showing results from the previous successful run."
      (by decide)
    have hline := ((hmark.append shows_blank).append hmessage).append shows_newline
    refine (hline.append (.ite (fun _ => ?_) fun _ => .nil)).append shows_newline
    exact .cons (by decide) (.cons (by decide) (hlast.append shows_newline))

theorem shows_compliance (c : Compliance) : Shows (v.compliance c) (v.plain.compliance c) := by
  have hindent : Shows "  ".toList "  ".toList := .text _ (by decide)
  have hoverall := v.shows_paint (.coloured .white) "Overall Compliance:" (by decide)
  have hpercent := v.shows_paint (.boldColoured (if c.failedRules = 0 then .green else .yellow))
    (toString c.percent ++ "% compliant") ((isPlain_word _).append (by decide))
  have hrules := v.shows_paint (.coloured .white) "Rules:" (by decide)
  have hpassed := v.shows_paint (.coloured .green) _ (isPlain_word c.passedRules)
  have hfailed := v.shows_paint (.coloured .red) _ (isPlain_word c.failedRules)
  have hshare := (((hindent.append hoverall).append shows_blank).append hpercent).append
    shows_newline
  have hcount := ((((hshare.append hindent).append hrules).append shows_blank).append
    hpassed).append (.text " passed, " (by decide))
  exact (((hcount.append hfailed).append (.text " failed of " (by decide))).append
    (.text _ (isPlain_word c.totalRules))).append (.text " rules\n\n" (by decide))

theorem isPlain_ruleTitle (h : ∀ t ∈ f.texts, IsPlain t) : IsPlain (ruleTitle f) :=
  ((isPlain_word _).append (by decide)).append (h _ List.mem_cons_self)

theorem isPlain_reason (h : ∀ t ∈ f.texts, IsPlain t) (r : String) (hr : f.reason = some r) :
    IsPlain r := by
  refine h r (List.mem_cons_of_mem _ (List.mem_append_left _ ?_))
  rw [hr]
  exact List.mem_singleton_self r

theorem isPlain_suggestion (h : ∀ t ∈ f.texts, IsPlain t) (r : String)
    (hr : f.suggestion = some r) : IsPlain r := by
  refine h r (List.mem_cons_of_mem _ (List.mem_append_right _ ?_))
  rw [hr]
  exact List.mem_singleton_self r

theorem shows_followedLine (h : ∀ t ∈ f.texts, IsPlain t) :
    Shows (v.followedLine f) (v.plain.followedLine f) := by
  have hindent : Shows "    ".toList "    ".toList := .text _ (by decide)
  have hmark := v.shows_paint (.coloured .green) "✓" (by decide)
  exact (((hindent.append hmark).append shows_blank).append
    (.text _ (isPlain_ruleTitle h))).append shows_newline

theorem shows_followed (h : ∀ f ∈ fs, ∀ t ∈ f.texts, IsPlain t) :
    Shows (v.followed fs) (v.plain.followed fs) := by
  have hheading := v.shows_heading .green "  PRACTICES FOLLOWED" (by decide)
  have hlines := Shows.flatMap fun f hf => v.shows_followedLine (h f hf)
  exact .ite (fun _ => (hheading.append hlines).append shows_newline) fun _ => .nil

theorem shows_policyErrorLine (h : ∀ t ∈ f.texts, IsPlain t) :
    Shows (v.policyErrorLine f) (v.plain.policyErrorLine f) := by
  have hindent : Shows "    ".toList "    ".toList := .text _ (by decide)
  have hmark := v.shows_paint (.boldColoured .yellow) "!" (by decide)
  have htitle := ((hindent.append hmark).append shows_blank).append
    (.text _ (isPlain_ruleTitle h))
  refine (htitle.append ?_).append shows_newline
  cases hr : f.reason with
  | none => exact .nil
  | some r => exact (Shows.text ": " (by decide)).append (.text r (isPlain_reason h r hr))

theorem shows_policyErrors (h : ∀ f ∈ fs, ∀ t ∈ f.texts, IsPlain t) :
    Shows (v.policyErrors fs) (v.plain.policyErrors fs) := by
  have hheading := v.shows_heading .yellow "  POLICY ERRORS" (by decide)
  have hlines := Shows.flatMap fun f hf => v.shows_policyErrorLine (h f hf)
  exact .ite (fun _ => .nil) fun _ => (hheading.append hlines).append shows_newline

theorem shows_placeLine (h : ∀ s, v.source = some s → IsPlain s.name) (f : Finding) :
    Shows (v.placeLine f) (v.plain.placeLine f) := by
  have hindent : Shows "  ".toList "  ".toList := .text _ (by decide)
  have harrow := v.shows_paint (.coloured .blue) "-->" (by decide)
  refine ((((hindent.append harrow).append shows_blank).append ?_).append ?_).append
    shows_newline
  · rcases v with ⟨_ | s, settings, colour⟩
    · exact .text "<source>" (by decide)
    · exact .text s.name (h s rfl)
  · cases f.line with
    | none => exact .nil
    | some n => exact .cons (by decide) (.text _ (isPlain_word n))

theorem isPlain_aligned (n : UInt32) : IsPlain (aligned n) := by
  rw [IsPlain, aligned, String.toList_ofList, List.mem_append, not_or]
  exact ⟨notMem_replicate (by decide) _, isPlain_word n⟩

theorem shows_codeLine (h : ∀ s, v.source = some s → IsPlain s.text) (f : Finding) :
    Shows (v.codeLine f) (v.plain.codeLine f) := by
  cases hcode : v.source.bind (·.line? f.line) with
  | none =>
    rw [codeLine_of_none v hcode, codeLine_of_none v.plain hcode]
    exact .nil
  | some code =>
    obtain ⟨s, hs, hget⟩ := Option.bind_eq_some_iff.mp hcode
    obtain ⟨n, hline, -⟩ := Source.lineAt?_eq_some_iff.mp hget
    -- the line is a part of the source, and has no character that the source does not have
    rw [codeLine_of_some v hline hcode, codeLine_of_some v.plain hline hcode]
    have hindent : Shows "   ".toList "   ".toList := .text _ (by decide)
    have hnumber := v.shows_paint (.coloured .blue) (aligned n ++ " |")
      ((isPlain_aligned n).append (by decide))
    exact (((hindent.append hnumber).append shows_blank).append
      (.text code fun hesc => h s hs (Source.mem_of_lineAt? hget hesc))).append shows_newline

theorem shows_remark (c : Colour) (label : String) (hlabel : IsPlain label) {o : Option String}
    (h : ∀ r, o = some r → IsPlain r) : Shows (v.remark c label o) (v.plain.remark c label o) := by
  cases o with
  | none => exact .nil
  | some r =>
    have hindent : Shows "   ".toList "   ".toList := .text _ (by decide)
    have hmark := v.shows_paint (.coloured .blue) "=" (by decide)
    have hname := v.shows_paint (.coloured c) label hlabel
    exact (((((hindent.append hmark).append shows_blank).append hname).append
      shows_blank).append (.text r (h r rfl))).append shows_newline

theorem shows_violation (hname : ∀ s, v.source = some s → IsPlain s.name)
    (htext : ∀ s, v.source = some s → IsPlain s.text) (h : ∀ t ∈ f.texts, IsPlain t) :
    Shows (v.violation f) (v.plain.violation f) := by
  have hheading := v.shows_heading .red ("error: " ++ ruleTitle f)
    (.append (by decide) (isPlain_ruleTitle h))
  have hcode := Shows.ite (p := v.settings.showSource = true)
    (fun _ => v.shows_codeLine htext f) fun _ => .nil
  have hreason := v.shows_remark .cyan "REASON:" (by decide) (isPlain_reason h)
  have hfix := v.shows_remark .green "FIX:" (by decide) (isPlain_suggestion h)
  exact ((((hheading.append (v.shows_placeLine hname f)).append hcode).append hreason).append
    hfix).append shows_newline

theorem shows_violations (hname : ∀ s, v.source = some s → IsPlain s.name)
    (htext : ∀ s, v.source = some s → IsPlain s.text) (h : ∀ f ∈ fs, ∀ t ∈ f.texts, IsPlain t) :
    Shows (v.violations fs) (v.plain.violations fs) := by
  have hheading := v.shows_heading .red "  PRACTICES NOT FOLLOWED" (by decide)
  have hblocks := Shows.flatMap fun f hf => v.shows_violation hname htext (h f hf)
  exact .ite (fun _ => .nil) fun _ => (hheading.append shows_newline).append hblocks

theorem shows_padded {s : String} (h : IsPlain s) : Shows (padded s) (padded s) :=
  (Shows.text s h).append (.self (notMem_replicate (by decide) _))

theorem shows_tallyLine (max : Nat) (t : Tally) :
    Shows (v.tallyLine max t) (v.plain.tallyLine max t) := by
  have hindent : Shows "    ".toList "    ".toList := .text _ (by decide)
  have hrule : IsPlain ("Rule " ++ toString t.ruleNo) :=
    .append (by decide) (isPlain_word _)
  have hcells : '\x1b' ∉ bar t.count.toUInt64 max.toUInt64 barWidth :=
    notMem_replicate (by decide) _
  have hbar := Console.shows_paint v.colour (.coloured .red) hcells
  exact (((((hindent.append (shows_padded hrule)).append shows_blank).append hbar).append
    shows_blank).append (.text _ (isPlain_toString t.count))).append shows_newline

theorem shows_frequency (ts : List Tally) : Shows (v.frequency ts) (v.plain.frequency ts) := by
  have hheading := v.shows_heading .yellow "  VIOLATION FREQUENCY" (by decide)
  have hlines := Shows.flatMap fun t (_ : t ∈ ts) => v.shows_tallyLine (maxCount ts) t
  exact .ite (fun _ => .nil) fun _ => (hheading.append hlines).append shows_newline

theorem shows_verdict (r : Report) : Shows (v.verdict r) (v.plain.verdict r) := by
  refine .ite (fun _ => ?_) fun _ => ?_
  · have hmark := v.shows_paint (.boldColoured .green) "OK" (by decide)
    exact hmark.append (.text " No secure coding violations found.\n" (by decide))
  · have hmark := v.shows_paint (.boldColoured .red) "X" (by decide)
    have hviolations : IsPlain (pluralize "violation" r.groups.violations.length) :=
      isPlain_pluralize (by decide) _
    have hrules : IsPlain (pluralize "rule" r.frequency.length) := isPlain_pluralize (by decide) _
    have hcount := ((IsPlain.append (s := " ") (by decide)
      (isPlain_toString r.groups.violations.length)).append (t := " ") (by decide)).append
        hviolations
    have hacross := ((hcount.append (t := " across ") (by decide)).append
      (isPlain_toString r.frequency.length)).append (t := " ") (by decide)
    exact hmark.append (.text _ ((hacross.append hrules).append (by decide)))

theorem shows_report {r : Report} (hname : ∀ s, v.source = some s → IsPlain s.name)
    (htext : ∀ s, v.source = some s → IsPlain s.text)
    (h : ∀ f ∈ r.groups.toList, ∀ t ∈ f.texts, IsPlain t) :
    Shows (v.report r) (v.plain.report r) := by
  simp only [Groups.toList, List.forall_mem_append] at h
  obtain ⟨⟨hfollowed, hviolations⟩, herrors⟩ := h
  exact (((((v.shows_compliance r.compliance).append (v.shows_followed hfollowed)).append
    (v.shows_policyErrors herrors)).append (v.shows_violations hname htext hviolations)).append
    (v.shows_frequency r.frequency)).append (v.shows_verdict r)

/-- **A report in colour shows the report,** if the texts in it have nothing that could begin a
control sequence. -/
theorem shows_chars {s : Snapshot} (hs : ∀ t ∈ s.texts, IsPlain t)
    (hsource : ∀ f, v.source = some f → IsPlain f.name ∧ IsPlain f.text) :
    Shows (v.chars s) (v.plain.chars s) := by
  have hname f hf := (hsource f hf).1
  have htext f hf := (hsource f hf).2
  simp only [Snapshot.texts, List.forall_mem_append, List.forall_mem_flatMap] at hs
  have hmessage : ∀ m, s.message? = some m → IsPlain m := fun m hm =>
    hs.2 m (Option.mem_toList.mpr hm)
  have hbody : Shows (v.body s) (v.plain.body s) := by
    unfold body
    cases hreport : s.report with
    | none => exact .ite (fun _ => .text "Analyzing… please wait\n" (by decide)) fun _ => .nil
    | some r =>
      refine v.shows_report hname htext (hs.1 r.groups ?_)
      rw [Option.mem_toList, Snapshot.groups?, hreport]
      rfl
  exact (((v.shows_banner hname).append (v.shows_failure hmessage)).append hbody).append
    v.shows_ruler

/-- A report in colour does have control sequences, the last of them in its last line. -/
theorem mem_chars (source : Option Source) (settings : ReportSettings) (s : Snapshot) :
    '\x1b' ∈ chars ⟨source, settings, true⟩ s := by
  have hruler : '\x1b' ∈ ruler ⟨source, settings, true⟩ := List.mem_cons_self
  exact List.mem_append_right _ hruler

end View

/-! ## What is printed -/

/-- A text without its control sequences. -/
def withoutColour (s : String) : String := String.ofList (uncoloured s.toList)

/-- **Colour changes no text.**  If no text in a report has a character that could begin a control
sequence, neither has the report without colour; the report in colour has control sequences, and
when they are taken out, what is left of it is the report without colour. -/
theorem colour_changes_no_text (s : Snapshot) (source : Option Source) (settings : ReportSettings)
    (hs : ∀ t ∈ s.texts, IsPlain t)
    (hsource : ∀ f, source = some f → IsPlain f.name ∧ IsPlain f.text) :
    withoutColour (render s source settings true) = render s source settings false ∧
      IsPlain (render s source settings false) ∧ ¬ IsPlain (render s source settings true) := by
  have hshows := View.shows_chars ⟨source, settings, true⟩ hs hsource
  have hremoved := hshows.removed []
  rw [List.append_nil, uncoloured_nil, List.append_nil] at hremoved
  refine ⟨?_, ?_, ?_⟩
  · rw [withoutColour, render, String.toList_ofList, hremoved]
    rfl
  · rw [IsPlain, render, String.toList_ofList]
    exact hshows.plain
  · rw [IsPlain, render, String.toList_ofList, not_not]
    exact View.mem_chars source settings s

/-- A source of two lines. -/
def twoLines : Source := ⟨"main.scl", "a := 1;\nb := a * 2;", by decide⟩

/-- A failure after a report that has something of everything. -/
def afterCrash : Snapshot where
  phase := .failure
  report := some (.ofGroups
    { followed := [.of .ok 1 "Modularize PLC Code"]
      violations := [{ status := .notFollowed, ruleNo := 4, ruleName := "Use PLC flags",
                       line := some 2, reason := "no flag check", suggestion := "check OV" }]
      errors := [.withReason (.of .error 10 "Registers") "invalid policy"] })
  notice := some ⟨.engineThrew, "Analysis engine failed: crashed"⟩

/-- All parts of a report at once. -/
theorem colour_changes_no_text_after_crash :
    (∀ t ∈ afterCrash.texts, IsPlain t) ∧
      (∀ f, some twoLines = some f → IsPlain f.name ∧ IsPlain f.text) ∧
      withoutColour (render afterCrash (some twoLines) {} true) =
        render afterCrash (some twoLines) {} false ∧
      IsPlain (render afterCrash (some twoLines) {} false) ∧
      ¬ IsPlain (render afterCrash (some twoLines) {} true) := by
  have hs : ∀ t ∈ afterCrash.texts, IsPlain t := by decide
  have hsource : ∀ f, some twoLines = some f → IsPlain f.name ∧ IsPlain f.text := by
    rintro f ⟨⟩
    decide
  exact ⟨hs, hsource, colour_changes_no_text afterCrash (some twoLines) {} hs hsource⟩

end Console

end PlcAudit
