import PlcAudit.Proofs.Settings.RoundTrip
import PlcAudit.Proofs.Toml.Blocks

/-!
# Settings after texts

Texts are applied one after the other, and each is taken or refused as a whole.  What makes this
more than one equation is which part of a text decides: a text spells settings through a table that
has been built line by line, from sections that can be tables, arrays or missing, and all but four
of its keys mean nothing.  So the settings that a table spells are described by what it mentions,
each setting by itself and with its default, and this description sees nothing else.

* `valueIn`: what a section says about a setting.
* `Spelled`: the settings that a table spells, with `ofEntries_eq_some_iff`.
* `Misfit`: a table with a value that is none of its setting, with `ofEntries_of_misfit`.
* `ofEntries_congr`: unknown keys, and the order of any, mean nothing.
* `foldl_apply`: the last text that is taken decides.
* `settled_by_last_text`: the statement for all histories of texts.
-/

namespace PlcAudit.Settings

open Toml (Statement Entries Value AgreeOn Differ block linesAbout keyLinesAbout build)

/-! ## Values of settings -/

theorem textOf_eq_some_iff {v : Value} {s : String} : textOf v = some s ↔ v = .string s := by
  cases v <;> simp [textOf]

theorem mapM_textOf_eq_some_iff {vs : List Value} {ws : List String} :
    vs.mapM textOf = some ws ↔ vs = ws.map .string := by
  induction vs generalizing ws with
  | nil => cases ws <;> simp
  | cons v vs ih =>
    rw [List.mapM_cons]
    constructor
    · intro h
      obtain ⟨s, hs, h⟩ := Option.bind_eq_some_iff.mp h
      obtain ⟨ws', hws', h⟩ := Option.bind_eq_some_iff.mp h
      obtain rfl := Option.some.inj h
      rw [List.map_cons, textOf_eq_some_iff.mp hs, ih.mp hws']
    · intro h
      cases ws with
      | nil => cases h
      | cons s ws =>
        obtain ⟨rfl, hvs⟩ := List.cons.inj h
        rw [ih.mpr hvs]
        rfl

/-- A command is a string or an array of strings. -/
theorem commandOf_eq_some_iff {v : Value} {command : EngineCommand} :
    commandOf v = some command ↔ v = commandValue command := by
  constructor
  · intro h
    cases v with
    | string s =>
      obtain rfl := Option.some.inj h
      rfl
    | array vs =>
      obtain ⟨ws, hws, rfl⟩ := Option.map_eq_some_iff.mp h
      exact congrArg Value.array (mapM_textOf_eq_some_iff.mp hws)
    | _ => cases h
  · rintro rfl
    exact commandOf_commandValue command

theorem booleanOf_eq_some_iff {v : Value} {b : Bool} : booleanOf v = some b ↔ v = .boolean b := by
  cases v <;> simp [booleanOf]

/-- How a format is spelled: by its name, or as the only key of a table with nothing as its value. -/
inductive SpellsFormat : Value → ReportFormat → Prop
  | name (format : ReportFormat) : SpellsFormat (.string format.name) format
  | table (origin : Toml.Origin) (format : ReportFormat) {v : Value} : isEmptyGroup v = true →
      SpellsFormat (.table origin [(format.name, v)]) format

theorem ofName?_eq_some_iff {name : String} {format : ReportFormat} :
    ReportFormat.ofName? name = some format ↔ name = format.name := by
  constructor
  · intro h
    rw [ReportFormat.ofName?] at h
    split_ifs at h with htext hjson
    · obtain rfl := Option.some.inj h
      exact htext
    · obtain rfl := Option.some.inj h
      exact hjson
  · rintro rfl
    exact ReportFormat.ofName?_name format

theorem formatOf_eq_some_iff {v : Value} {format : ReportFormat} :
    formatOf v = some format ↔ SpellsFormat v format := by
  constructor
  · intro h
    unfold formatOf at h
    split at h
    · rw [ofName?_eq_some_iff.mp h]
      exact .name format
    · split_ifs at h with hempty
      rw [ofName?_eq_some_iff.mp h]
      exact .table _ format hempty
    · cases h
  · rintro (_ | ⟨origin, _, hempty⟩)
    · exact ReportFormat.ofName?_name format
    · rw [formatOf, if_pos hempty, ReportFormat.ofName?_name]

/-! ## What a table spells -/

/-- What can stand in the place of a section, which may be missing. -/
def IsSection : Option Value → Prop
  | none | some (.table _ _) | some (.array _) | some (.tables _) | some (.time _) => True
  | _ => False

/-- What a section says about a setting, which it knows by key or by place. -/
def valueIn (place : Nat) (key : String) : Option Value → Option Value
  | some (.table _ sub) => Entries.get? sub key
  | some (.array vs) => vs[place]?
  | some (.tables ts) => ts[place]?.map (.table .header)
  | _ => none

/-- What is said of a setting gives its value, or nothing is and it has its default. -/
def Gives {α : Type} (spells : Value → α → Prop) (default : α) : Option Value → α → Prop
  | none, a => a = default
  | some v, a => spells v a

theorem fieldOr_eq_some_iff {α : Type} {spells : Value → α → Prop} {read : Value → Option α}
    (h : ∀ v a, read v = some a ↔ spells v a) {default a : α} {v : Option Value} :
    fieldOr default read v = some a ↔ Gives spells default v a := by
  cases v with
  | none => exact Option.some_inj.trans eq_comm
  | some v => exact h v a

/-- What the section of the engine says about the command. -/
def saidOfCommand (es : Entries) : Option Value := valueIn 0 "command" (es.get? "engine")

/-- What the section of the report says about the format. -/
def saidOfFormat (es : Entries) : Option Value := valueIn 0 "format" (es.get? "report")

/-- What the section of the report says about showing the line of a violation. -/
def saidOfSource (es : Entries) : Option Value := valueIn 1 "show_source" (es.get? "report")

/-- What the section of the report says about listing the rules that are followed. -/
def saidOfFollowed (es : Entries) : Option Value := valueIn 2 "show_followed" (es.get? "report")

/-- **The settings that a table spells.**  Both sections can be sections, and each setting is given
by what is said of it. -/
structure Spelled (es : Entries) (s : Settings) : Prop where
  engine : IsSection (es.get? "engine")
  report : IsSection (es.get? "report")
  command : Gives (fun v command => v = commandValue command) ({} : EngineSettings).command
    (saidOfCommand es) s.engine.command
  format : Gives SpellsFormat .text (saidOfFormat es) s.report.format
  showSource : Gives (fun v b => v = .boolean b) true (saidOfSource es) s.report.showSource
  showFollowed : Gives (fun v b => v = .boolean b) true (saidOfFollowed es) s.report.showFollowed

theorem engine_of_isSection {v : Option Value} (h : IsSection v) :
    fieldOr {} engineOf v = (fieldOr ({} : EngineSettings).command commandOf
      (valueIn 0 "command" v)).bind fun command => some { command } := by
  cases v with
  | none => rfl
  | some v =>
    cases v with
    | table _ _ | array _ | tables _ | time _ => rfl
    | _ => exact h.elim

theorem report_of_isSection {v : Option Value} (h : IsSection v) :
    fieldOr {} reportOf v = (fieldOr .text formatOf (valueIn 0 "format" v)).bind fun format =>
      (fieldOr true booleanOf (valueIn 1 "show_source" v)).bind fun showSource =>
        (fieldOr true booleanOf (valueIn 2 "show_followed" v)).bind fun showFollowed =>
          some { format, showSource, showFollowed } := by
  cases v with
  | none => rfl
  | some v =>
    cases v with
    | table _ _ | array _ | tables _ | time _ => rfl
    | _ => exact h.elim

/-- What cannot be a section has no settings. -/
theorem sections_of_not_isSection {v : Option Value} (h : ¬ IsSection v) :
    fieldOr {} engineOf v = none ∧ fieldOr {} reportOf v = none := by
  cases v with
  | none => exact absurd trivial h
  | some v =>
    cases v with
    | table _ _ | array _ | tables _ | time _ => exact absurd trivial h
    | _ => exact ⟨rfl, rfl⟩

/-- **A table spells the settings that it is described by,** and no others. -/
theorem ofEntries_eq_some_iff {es : Entries} {s : Settings} :
    ofEntries es = some s ↔ Spelled es s := by
  constructor
  · intro h
    obtain ⟨engine, hengine, h⟩ := Option.bind_eq_some_iff.mp h
    obtain ⟨report, hreport, h⟩ := Option.bind_eq_some_iff.mp h
    obtain rfl := Option.some.inj h
    have hsections : IsSection (es.get? "engine") ∧ IsSection (es.get? "report") := by
      constructor
      · by_contra hnot
        rw [(sections_of_not_isSection hnot).1] at hengine
        cases hengine
      · by_contra hnot
        rw [(sections_of_not_isSection hnot).2] at hreport
        cases hreport
    rw [engine_of_isSection hsections.1] at hengine
    rw [report_of_isSection hsections.2] at hreport
    obtain ⟨command, hcommand, ⟨⟩⟩ := Option.bind_eq_some_iff.mp hengine
    obtain ⟨format, hformat, hreport⟩ := Option.bind_eq_some_iff.mp hreport
    obtain ⟨showSource, hsource, hreport⟩ := Option.bind_eq_some_iff.mp hreport
    obtain ⟨showFollowed, hfollowed, ⟨⟩⟩ := Option.bind_eq_some_iff.mp hreport
    exact ⟨hsections.1, hsections.2,
      (fieldOr_eq_some_iff fun _ _ => commandOf_eq_some_iff).mp hcommand,
      (fieldOr_eq_some_iff fun _ _ => formatOf_eq_some_iff).mp hformat,
      (fieldOr_eq_some_iff fun _ _ => booleanOf_eq_some_iff).mp hsource,
      (fieldOr_eq_some_iff fun _ _ => booleanOf_eq_some_iff).mp hfollowed⟩
  · intro h
    have hcommand := (fieldOr_eq_some_iff fun _ _ => commandOf_eq_some_iff).mpr h.command
    have hformat := (fieldOr_eq_some_iff fun _ _ => formatOf_eq_some_iff).mpr h.format
    have hsource := (fieldOr_eq_some_iff fun _ _ => booleanOf_eq_some_iff).mpr h.showSource
    have hfollowed := (fieldOr_eq_some_iff fun _ _ => booleanOf_eq_some_iff).mpr h.showFollowed
    have hengine := engine_of_isSection h.engine
    have hreport := report_of_isSection h.report
    rw [← saidOfCommand, hcommand] at hengine
    rw [← saidOfFormat, ← saidOfSource, ← saidOfFollowed, hformat, hsource, hfollowed] at hreport
    rw [ofEntries, hengine, hreport]
    rfl

/-! ## What no table may say -/

/-- A value that is no command: a number, a truth value, or a list with something that is no
string. -/
inductive NoCommand : Value → Prop
  | integer (n : Int) : NoCommand (.integer n)
  | float (spelling : String) : NoCommand (.float spelling)
  | boolean (b : Bool) : NoCommand (.boolean b)
  | list {vs : List Value} {v : Value} : v ∈ vs → (∀ s, v ≠ .string s) → NoCommand (.array vs)

/-- **What no table may say:** a command that is none, a format with an unknown name, or a flag that
is no truth value. -/
inductive Misfit (es : Entries) : Prop
  | command {v : Value} : saidOfCommand es = some v → NoCommand v → Misfit es
  | format {name : String} : saidOfFormat es = some (.string name) →
      (∀ format : ReportFormat, name ≠ format.name) → Misfit es
  | showSource {v : Value} : saidOfSource es = some v → (∀ b, v ≠ .boolean b) → Misfit es
  | showFollowed {v : Value} : saidOfFollowed es = some v → (∀ b, v ≠ .boolean b) → Misfit es

theorem NoCommand.ne {v : Value} (h : NoCommand v) (command : EngineCommand) :
    v ≠ commandValue command := by
  cases command with
  | line s => cases h <;> exact fun hv => nomatch hv
  | words ws =>
    cases h with
    | list hmem hstring =>
      intro hv
      obtain rfl := Value.array.inj hv
      obtain ⟨s, -, rfl⟩ := List.mem_map.mp hmem
      exact hstring s rfl
    | _ => exact fun hv => nomatch hv

/-- A table that says this is refused as a whole. -/
theorem ofEntries_of_misfit {es : Entries} (h : Misfit es) : ofEntries es = none := by
  rw [Option.eq_none_iff_forall_ne_some]
  intro s hs
  have hspelled := ofEntries_eq_some_iff.mp hs
  cases h with
  | command hsaid hno =>
    have hgives := hspelled.command
    rw [hsaid] at hgives
    exact hno.ne _ hgives
  | format hsaid hno =>
    have hgives := hspelled.format
    rw [hsaid] at hgives
    generalize s.report.format = format at hgives
    cases hgives
    exact hno format rfl
  | showSource hsaid hno =>
    have hgives := hspelled.showSource
    rw [hsaid] at hgives
    exact hno _ hgives
  | showFollowed hsaid hno =>
    have hgives := hspelled.showFollowed
    rw [hsaid] at hgives
    exact hno _ hgives

/-! ## What does not matter -/

/-- The keys that mean something in a section. -/
def IsKnown (name key : String) : Prop :=
  (name, key) ∈ [("engine", "command"), ("report", "format"), ("report", "show_source"),
    ("report", "show_followed")]

/-- The keys of what stands in the place of a section, when it is a table or missing. -/
def keysOf : Option Value → Option Entries
  | none => some []
  | some (.table _ sub) => some sub
  | _ => none

/-- What stands in the place of a section says the same: it is the same, or a table or missing on
both sides, with the same values of the keys that mean something. -/
def SaysSame (name : String) (v w : Option Value) : Prop :=
  v = w ∨ ∃ sub tub, keysOf v = some sub ∧ keysOf w = some tub ∧
    AgreeOn (IsKnown name) sub tub

theorem isSection_of_keysOf {v : Option Value} {sub : Entries} (h : keysOf v = some sub) :
    IsSection v ∧ ∀ place key, valueIn place key v = sub.get? key := by
  cases v with
  | none =>
    obtain rfl := Option.some.inj h
    exact ⟨trivial, fun _ _ => rfl⟩
  | some v =>
    cases v with
    | table _ sub =>
      obtain rfl := Option.some.inj h
      exact ⟨trivial, fun _ _ => rfl⟩
    | _ => cases h

theorem SaysSame.isSection {name : String} {v w : Option Value} (h : SaysSame name v w) :
    (IsSection v ↔ IsSection w) ∧
      ∀ place key, IsKnown name key → valueIn place key v = valueIn place key w := by
  rcases h with rfl | ⟨sub, tub, hv, hw, hagree⟩
  · exact ⟨Iff.rfl, fun _ _ _ => rfl⟩
  · obtain ⟨hvSection, hvKeys⟩ := isSection_of_keysOf hv
    obtain ⟨hwSection, hwKeys⟩ := isSection_of_keysOf hw
    refine ⟨iff_of_true hvSection hwSection, fun place key hkey => ?_⟩
    rw [hvKeys, hwKeys, hagree key hkey]

/-- **Tables that say the same spell the same settings,** or are refused both. -/
theorem ofEntries_congr {es fs : Entries}
    (h : ∀ s ∈ ["engine", "report"], SaysSame s (es.get? s) (fs.get? s)) :
    ofEntries es = ofEntries fs := by
  obtain ⟨hengine, hcommand⟩ := (h "engine" (by simp)).isSection
  obtain ⟨hreport, hkeys⟩ := (h "report" (by simp)).isSection
  have hcommand : saidOfCommand es = saidOfCommand fs := hcommand 0 _ (by simp [IsKnown])
  have hformat : saidOfFormat es = saidOfFormat fs := hkeys 0 _ (by simp [IsKnown])
  have hsource : saidOfSource es = saidOfSource fs := hkeys 1 _ (by simp [IsKnown])
  have hfollowed : saidOfFollowed es = saidOfFollowed fs := hkeys 2 _ (by simp [IsKnown])
  refine Option.ext fun s => ?_
  rw [ofEntries_eq_some_iff, ofEntries_eq_some_iff]
  constructor
  · rintro ⟨h₁, h₂, h₃, h₄, h₅, h₆⟩
    exact ⟨hengine.mp h₁, hreport.mp h₂, hcommand ▸ h₃, hformat ▸ h₄, hsource ▸ h₅,
      hfollowed ▸ h₆⟩
  · rintro ⟨h₁, h₂, h₃, h₄, h₅, h₆⟩
    exact ⟨hengine.mpr h₁, hreport.mpr h₂, hcommand ▸ h₃, hformat ▸ h₄, hsource ▸ h₅,
      hfollowed ▸ h₆⟩

/-- Outermost tables that differ in unknown keys of a section say the same. -/
theorem ofEntries_of_differ {name : String} {es fs : Entries}
    (h : Differ name (IsKnown name) es fs) : ofEntries es = ofEntries fs := by
  refine ofEntries_congr fun s _ => ?_
  by_cases hs : s = name
  · obtain ⟨sub, tub, hsub, htub, hagree⟩ := h.tables
    rw [hs, hsub, htub]
    exact Or.inr ⟨sub, tub, rfl, rfl, hagree⟩
  · exact Or.inl (h.others s hs)

/-! ## Texts -/

/-- The settings that lines spell. -/
def ofLines (ss : List Statement) : Option Settings := (build ss).bind ofEntries

theorem ofToml_eq {text : String} {ss : List Statement}
    (h : Toml.readStatements text.toList = some ss) : ofToml text = ofLines ss := by
  rw [ofToml, Toml.parse_eq, h]
  rfl

/-- Lines that agree on both sections spell the same settings when both make a table. -/
theorem ofLines_eq_of_sections {ss ts : List Statement} (hss : build ss ≠ none)
    (hts : build ts ≠ none) (h : ∀ s ∈ ["engine", "report"], linesAbout s ss = linesAbout s ts) :
    ofLines ss = ofLines ts := by
  obtain ⟨es, hes⟩ := Option.ne_none_iff_exists'.mp hss
  obtain ⟨fs, hfs⟩ := Option.ne_none_iff_exists'.mp hts
  rw [ofLines, ofLines, hes, hfs]
  exact ofEntries_congr fun s hs => Or.inl (Toml.get?_eq_of_linesAbout hes hfs (h s hs))

/-- Lines that agree on every key of the outermost table spell the same settings or none. -/
theorem ofLines_eq_of_linesAbout {ss ts : List Statement}
    (h : ∀ k, linesAbout k ss = linesAbout k ts) : ofLines ss = ofLines ts := by
  have hnone := Toml.build_eq_none_congr h
  by_cases hss : build ss = none
  · rw [ofLines, ofLines, hss, hnone.mp hss]
  · exact ofLines_eq_of_sections hss (mt hnone.mpr hss) fun s _ => h s

/-- Key lines that agree on the known keys spell the same settings when both make a table. -/
theorem ofLines_block_of_known (before : List Statement) (name : String)
    {as bs : List (List String × Value)} (after : List Statement)
    (has : build (before ++ (block name as ++ after)) ≠ none)
    (hbs : build (before ++ (block name bs ++ after)) ≠ none)
    (h : ∀ k, IsKnown name k → keyLinesAbout k as = keyLinesAbout k bs) :
    ofLines (before ++ (block name as ++ after)) =
      ofLines (before ++ (block name bs ++ after)) := by
  obtain ⟨es, hes⟩ := Option.ne_none_iff_exists'.mp has
  obtain ⟨fs, hfs⟩ := Option.ne_none_iff_exists'.mp hbs
  rw [ofLines, ofLines, hes, hfs]
  exact ofEntries_of_differ ((Toml.matching_block before name after h).related es fs hes hfs)

/-- Key lines that agree on every key spell the same settings or none. -/
theorem ofLines_block (before : List Statement) (name : String)
    {as bs : List (List String × Value)} (after : List Statement)
    (h : ∀ k, keyLinesAbout k as = keyLinesAbout k bs) :
    ofLines (before ++ (block name as ++ after)) =
      ofLines (before ++ (block name bs ++ after)) := by
  have hnone := (Toml.matching_block before name after fun k (_ : True) => h k).refused
    fun _ => trivial
  by_cases has : build (before ++ (block name as ++ after)) = none
  · rw [ofLines, ofLines, has, hnone.mp has]
  · exact ofLines_block_of_known before name after has (mt hnone.mpr has) fun k _ => h k

/-! ## Histories -/

/-- **The last text that is taken decides,** and nothing does when none is. -/
theorem foldl_apply (s : Settings) (texts : List String) :
    texts.foldl apply s = ((texts.filterMap ofToml).getLast?).getD s := by
  induction texts generalizing s with
  | nil => rfl
  | cons text texts ih =>
    rw [List.foldl_cons, ih, apply]
    cases h : ofToml text with
    | none => rw [List.filterMap_cons_none h, Option.getD_none]
    | some c =>
      rw [List.filterMap_cons_some h, List.getLast?_cons, Option.getD_some, Option.getD_some]

/-- The same lines in another order.  Whole sections and the lines of other tables change places, or
the key lines below a header do; the lines about each key stay in their order. -/
inductive Rearranged : List Statement → List Statement → Prop
  | sections {ss ts : List Statement} : (∀ k, linesAbout k ss = linesAbout k ts) → Rearranged ss ts
  | keys (before : List Statement) (name : String) {as bs : List (List String × Value)}
      (after : List Statement) : (∀ k, keyLinesAbout k as = keyLinesAbout k bs) →
      Rearranged (before ++ (block name as ++ after)) (before ++ (block name bs ++ after))

/-- The same lines about what means something, in any order.  Unknown tables are left out or added,
or unknown keys below a header are. -/
inductive SameKnown : List Statement → List Statement → Prop
  | sections {ss ts : List Statement} :
      (∀ name ∈ ["engine", "report"], linesAbout name ss = linesAbout name ts) → SameKnown ss ts
  | keys (before : List Statement) (name : String) {as bs : List (List String × Value)}
      (after : List Statement) :
      (∀ k, IsKnown name k → keyLinesAbout k as = keyLinesAbout k bs) →
      SameKnown (before ++ (block name as ++ after)) (before ++ (block name bs ++ after))

/-- The lines without those about some of the unknown tables. -/
def LeavesOut (ss ts : List Statement) : Prop :=
  ∀ k, linesAbout k ts = linesAbout k ss ∨ k ∉ ["engine", "report"] ∧ linesAbout k ts = []

/-- Two sections that stand behind one another are rearranged when they change places. -/
theorem Rearranged.swap (before : List Statement) {name other : String} (hne : name ≠ other)
    (as bs : List (List String × Value)) {after : List Statement}
    (hafter : ∀ path v r, after ≠ .assign path v :: r) :
    Rearranged (before ++ (block name as ++ (block other bs ++ after)))
      (before ++ (block other bs ++ (block name as ++ after))) :=
  .sections (Toml.linesAbout_swap before hne as bs hafter)

theorem Rearranged.ofLines_eq {ss ts : List Statement} (h : Rearranged ss ts) :
    ofLines ss = ofLines ts := by
  cases h with
  | sections h => exact ofLines_eq_of_linesAbout h
  | keys before name after h => exact ofLines_block before name after h

theorem SameKnown.ofLines_eq {ss ts : List Statement} (h : SameKnown ss ts)
    (hss : build ss ≠ none) (hts : build ts ≠ none) : ofLines ss = ofLines ts := by
  cases h with
  | sections h => exact ofLines_eq_of_sections hss hts h
  | keys before name after h => exact ofLines_block_of_known before name after hss hts h

/-- Lines that spell settings spell them without unknown tables too. -/
theorem LeavesOut.ofLines_eq {ss ts : List Statement} (h : LeavesOut ss ts) {s : Settings}
    (hs : ofLines ss = some s) : ofLines ts = some s := by
  have hss : build ss ≠ none := by
    intro hnone
    rw [ofLines, hnone] at hs
    cases hs
  have hts : build ts ≠ none :=
    Toml.build_ne_none_of_left_out hss fun k => (h k).imp_right And.right
  rw [← hs]
  refine (ofLines_eq_of_sections hss hts fun name hname => ?_).symm
  rcases h name with hsame | ⟨hunknown, -⟩
  · exact hsame.symm
  · exact absurd hname hunknown

/-- **Settings after texts.**  Whatever texts are applied in a row, the last one that is taken
decides alone: it gives every setting the value that it says or its default, and nothing is left of
what was before.  When none is taken nothing changes.  A text is taken when it is a table that
spells settings; one that is no table, or says one thing that no table may say, changes nothing at
all.  In a table only the four settings count, so tables that say the same of them spell the same
settings.  Lines in another order spell the same settings or are refused as before, lines about
unknown tables and keys make no difference between texts that are tables, and a text that is taken
is taken without its unknown tables. -/
theorem settled_by_last_text :
    (∀ (s : Settings) (texts : List String),
        texts.foldl apply s = ((texts.filterMap ofToml).getLast?).getD s) ∧
      (∀ text s, ofToml text = some s ↔ ∃ es, Toml.parse text = some es ∧ Spelled es s) ∧
      (∀ text, (∀ es, Toml.parse text = some es → Misfit es) →
        ofToml text = none ∧ ∀ s, apply s text = s) ∧
      (∀ text₁ text₂ es₁ es₂, Toml.parse text₁ = some es₁ → Toml.parse text₂ = some es₂ →
        (∀ name ∈ ["engine", "report"], SaysSame name (es₁.get? name) (es₂.get? name)) →
        ofToml text₁ = ofToml text₂) ∧
      ∀ text₁ text₂ ss₁ ss₂, Toml.readStatements text₁.toList = some ss₁ →
        Toml.readStatements text₂.toList = some ss₂ →
        (Rearranged ss₁ ss₂ → ofToml text₁ = ofToml text₂) ∧
        (SameKnown ss₁ ss₂ → Toml.parse text₁ ≠ none → Toml.parse text₂ ≠ none →
          ofToml text₁ = ofToml text₂) ∧
        (LeavesOut ss₁ ss₂ → ∀ s, ofToml text₁ = some s → ofToml text₂ = some s) := by
  refine ⟨foldl_apply, fun text s => ?_, fun text hmisfit => ?_, ?_, ?_⟩
  · simp only [← ofEntries_eq_some_iff]
    exact Option.bind_eq_some_iff
  · have hnone : ofToml text = none := by
      rw [ofToml]
      cases hparse : Toml.parse text with
      | none => rfl
      | some es => exact ofEntries_of_misfit (hmisfit es hparse)
    exact ⟨hnone, fun s => by rw [apply, hnone, Option.getD_none]⟩
  · intro text₁ text₂ es₁ es₂ h₁ h₂ hsame
    rw [ofToml, ofToml, h₁, h₂]
    exact ofEntries_congr hsame
  · intro text₁ text₂ ss₁ ss₂ h₁ h₂
    have hparse₁ : Toml.parse text₁ = build ss₁ := by rw [Toml.parse_eq, h₁]; rfl
    have hparse₂ : Toml.parse text₂ = build ss₂ := by rw [Toml.parse_eq, h₂]; rfl
    rw [ofToml_eq h₁, ofToml_eq h₂, hparse₁, hparse₂]
    exact ⟨Rearranged.ofLines_eq, SameKnown.ofLines_eq, fun h s => h.ofLines_eq⟩

/-- Three texts, of which the last one is refused for its format: what the second one does not
mention is at its default. -/
theorem settled_by_second_of_three :
    ["[report]\nformat = \"json\"\nshow_source = false\n", "[report]\nshow_followed = false\n",
        "[engine]\ncommand = \"c\"\n[report]\nformat = \"xml\"\n"].foldl apply {} =
      { report := { showFollowed := false } } :=
  (settled_by_last_text.1 _ _).trans (by decide +kernel)

end PlcAudit.Settings
