import Mathlib.Data.List.Basic
import PlcAudit.Toml.Reader

/-!
# What the order of lines decides

A table is built line by line, and each line can be refused because of those before it: a key has a
value once, a table one header, and what is complete is not added to.  All these conditions look at
one key of the outermost table, however deep the path of the line goes: what a line does further
down is a change of the value that this key has.  A line is therefore an edit of one key, and a text
is carried out on each key by itself: the value that a key has in the end, and whether one of its
lines is refused, depend on the lines about it alone.

* `Edit`: what is done to one key, and `Edit.apply` what this does to a table.
* `editAll_cases`: edits in order are carried out on each key by itself.
* `update_cons`, `update_edit`: what is done at the end of a path is an edit of its first key.
* `Statement.apply_eq`: a line is an edit, and `parse_eq`: a text is edits in order.
* `get?_eq_of_linesAbout`, `build_eq_none_congr`: what the lines about a key decide.
-/

namespace PlcAudit.Toml

/-! ## Looking up -/

theorem Entries.get?_append (es fs : Entries) (k : String) :
    Entries.get? (es ++ fs) k = (es.get? k).or (fs.get? k) := by
  induction es with
  | nil => rfl
  | cons e es ih =>
    rw [List.cons_append, Entries.get?_cons, Entries.get?_cons, ih]
    split <;> rfl

theorem Entries.get?_replace (es : Entries) (k j : String) (v : Value) :
    (es.replace k v).get? j = if j = k then (es.get? k).map fun _ => v else es.get? j := by
  induction es with
  | nil => exact (ite_self none).symm
  | cons e es ih =>
    rw [Entries.replace, List.map_cons, Entries.get?_cons, Entries.get?_cons, Entries.get?_cons]
    rw [Entries.replace] at ih
    rw [ih]
    by_cases hek : e.1 = k
    · by_cases hjk : j = k <;> simp [hek, hjk]
    · by_cases hjk : j = k
      · simp [hek, hjk, Ne.symm hek]
      · simp [hek, hjk]

/-! ## Edits -/

/-- What is done to the value of one key, which may be missing: the value after it, or `none` when
the edit is refused. -/
structure Edit where
  key : String
  change : Option Value → Option Value

/-- Gives a key a value, in its old place or behind all other keys. -/
def Entries.put (es : Entries) (k : String) (v : Value) : Entries :=
  if (es.get? k).isSome then es.replace k v else es ++ [(k, v)]

/-- Carries out an edit. -/
def Edit.apply (e : Edit) (es : Entries) : Option Entries :=
  (e.change (es.get? e.key)).map (es.put e.key)

/-- The edit that is always refused. -/
def Edit.refused : Edit := ⟨"", fun _ => none⟩

theorem Entries.put_of_none {es : Entries} {k : String} (h : es.get? k = none) (v : Value) :
    es.put k v = es ++ [(k, v)] := by
  rw [put, h]
  rfl

theorem Entries.put_of_some {es : Entries} {k : String} {w : Value} (h : es.get? k = some w)
    (v : Value) : es.put k v = es.replace k v := by
  rw [put, h]
  rfl

theorem Entries.get?_put (es : Entries) (k j : String) (v : Value) :
    (es.put k v).get? j = if j = k then some v else es.get? j := by
  cases hk : es.get? k with
  | none =>
    rw [put_of_none hk, get?_append, get?_cons]
    by_cases hjk : j = k
    · simp [hjk, hk]
    · cases es.get? j <;> simp [hjk, get?]
  | some w =>
    rw [put_of_some hk, get?_replace, hk]
    rfl

/-- Carries out edits in order. -/
def editAll (edits : List Edit) (es : Entries) : Option Entries :=
  edits.foldlM (fun es e => e.apply es) es

/-- What edits of one key do to its value. -/
def changeAll (edits : List Edit) (v : Option Value) : Option (Option Value) :=
  edits.foldlM (fun v e => (e.change v).map some) v

/-- The edits of a key. -/
def editsOf (k : String) (edits : List Edit) : List Edit := edits.filter (·.key = k)

theorem editAll_cons (e : Edit) (edits : List Edit) (es : Entries) :
    editAll (e :: edits) es = (e.apply es).bind (editAll edits) := rfl

theorem changeAll_cons (e : Edit) (edits : List Edit) (v : Option Value) :
    changeAll (e :: edits) v = (e.change v).bind fun w => changeAll edits (some w) := by
  rw [changeAll, List.foldlM_cons]
  cases e.change v <;> rfl

/-- **Edits are carried out on each key by itself.**  Either all of them are, and every key has the
value that its own edits give it, or those of some key are refused. -/
theorem editAll_cases (edits : List Edit) (es : Entries) :
    (∃ r, editAll edits es = some r ∧
        ∀ k, changeAll (editsOf k edits) (es.get? k) = some (r.get? k)) ∨
      editAll edits es = none ∧ ∃ k, changeAll (editsOf k edits) (es.get? k) = none := by
  induction edits generalizing es with
  | nil => exact Or.inl ⟨es, rfl, fun k => rfl⟩
  | cons e edits ih =>
    have hself : editsOf e.key (e :: edits) = e :: editsOf e.key edits :=
      List.filter_cons_of_pos (by simp)
    have hother : ∀ k, k ≠ e.key → editsOf k (e :: edits) = editsOf k edits := fun k hk =>
      List.filter_cons_of_neg (by simpa using Ne.symm hk)
    rw [editAll_cons]
    cases hchange : e.change (es.get? e.key) with
    | none =>
      refine Or.inr ⟨by rw [Edit.apply, hchange]; rfl, e.key, ?_⟩
      rw [hself, changeAll_cons, hchange]
      rfl
    | some v =>
      have happly : e.apply es = some (es.put e.key v) := by rw [Edit.apply, hchange]; rfl
      -- what is left of the edits of a key starts from its value after this one
      have hkey : ∀ k, changeAll (editsOf k (e :: edits)) (es.get? k) =
          changeAll (editsOf k edits) ((es.put e.key v).get? k) := by
        intro k
        by_cases hk : k = e.key
        · rw [hk, hself, changeAll_cons, hchange, Entries.get?_put, if_pos rfl]
          rfl
        · rw [hother k hk, Entries.get?_put, if_neg hk]
      rw [happly]
      simp only [hkey]
      exact ih (es.put e.key v)

/-- The value of a key after edits. -/
theorem changeAll_of_editAll {edits : List Edit} {es r : Entries} (h : editAll edits es = some r)
    (k : String) : changeAll (editsOf k edits) (es.get? k) = some (r.get? k) := by
  rcases editAll_cases edits es with ⟨r', hr', hkeys⟩ | ⟨hnone, -⟩
  · obtain rfl : r' = r := Option.some.inj (hr'.symm.trans h)
    exact hkeys k
  · rw [hnone] at h
    cases h

/-- Edits are refused for those of some key. -/
theorem editAll_eq_none_iff {edits : List Edit} {es : Entries} :
    editAll edits es = none ↔ ∃ k, changeAll (editsOf k edits) (es.get? k) = none := by
  constructor
  · intro h
    rcases editAll_cases edits es with ⟨r, hr, -⟩ | ⟨-, hkey⟩
    · rw [hr] at h
      cases h
    · exact hkey
  · rintro ⟨k, hk⟩
    cases h : editAll edits es with
    | none => rfl
    | some r =>
      rw [changeAll_of_editAll h k] at hk
      cases hk

/-- **The value of a key depends on its own edits** and on no others. -/
theorem get?_eq_of_editsOf {xs ys : List Edit} {es r r' : Entries} (hxs : editAll xs es = some r)
    (hys : editAll ys es = some r') {k : String} (h : editsOf k xs = editsOf k ys) :
    r.get? k = r'.get? k := by
  have hr := changeAll_of_editAll hxs k
  have hr' := changeAll_of_editAll hys k
  rw [h, hr'] at hr
  exact (Option.some.inj hr).symm

theorem editAll_eq_none_congr {xs ys : List Edit} (h : ∀ k, editsOf k xs = editsOf k ys)
    (es : Entries) : editAll xs es = none ↔ editAll ys es = none := by
  simp only [editAll_eq_none_iff, h]

/-! ## Lines -/

/-- What a change at the end of a path does to the first key on it. -/
def into (dotted : Bool) (f : Origin → Entries → Option Entries) (way : List String) :
    Option Value → Option Value
  | none =>
    let made := if dotted then .dotted else .implied
    (update dotted f made way []).map (.table made)
  | some (.table origin sub) =>
    if origin = .inline ∨ (dotted ∧ origin = .header) then none
    else (update dotted f origin way sub).map (.table origin)
  | some (.tables elements) =>
    elements.getLast?.bind fun last =>
      (update dotted f .header way last).map fun sub => .tables (elements.dropLast ++ [sub])
  | some _ => none

/-- A table that has its header is reached from headers, and not from dotted keys. -/
theorem into_header (dotted : Bool) (f : Origin → Entries → Option Entries) (way : List String)
    (sub : Entries) :
    into dotted f way (some (.table .header sub)) =
      if dotted then none else (update dotted f .header way sub).map (.table .header) := by
  cases dotted <;> simp [into]

/-- **What is done at the end of a path is an edit of its first key.** -/
theorem update_cons (dotted : Bool) (f : Origin → Entries → Option Entries) (origin : Origin)
    (k : String) (ks : List String) (es : Entries) :
    update dotted f origin (k :: ks) es = Edit.apply ⟨k, into dotted f ks⟩ es := by
  rw [update, Edit.apply]
  cases hk : es.get? k with
  | none =>
    simp only [into]
    cases update dotted f _ ks [] with
    | none => rfl
    | some sub => exact congrArg some (Entries.put_of_none hk _).symm
  | some v =>
    have hput : ∀ w, es.put k w = es.replace k w := fun w => Entries.put_of_some hk w
    cases v with
    | table o sub =>
      simp only [into]
      split
      · rfl
      · cases update dotted f o ks sub with
        | none => rfl
        | some sub => exact congrArg some (hput _).symm
    | tables elements =>
      simp only [into]
      cases elements.getLast? with
      | none => rfl
      | some last =>
        show (update dotted f .header ks last).bind _ = Option.map _ (Option.map _ _)
        cases update dotted f .header ks last with
        | none => rfl
        | some sub => exact congrArg some (hput _).symm
    | _ => rfl

/-- An edit at the end of a path, as an edit of the first key. -/
def Edit.along (dotted : Bool) (e : Origin → Edit) (origin : Origin) : List String → Edit
  | [] => e origin
  | k :: ks => ⟨k, into dotted (fun o es => (e o).apply es) ks⟩

theorem update_edit (dotted : Bool) (e : Origin → Edit) (origin : Origin) (way : List String)
    (es : Entries) :
    update dotted (fun o es => (e o).apply es) origin way es =
      (Edit.along dotted e origin way).apply es := by
  cases way with
  | nil => rfl
  | cons k ks => exact update_cons dotted _ origin k ks es

/-- Gives a key its value, unless the table may not have it. -/
def Edit.assign (allowed : Bool) (v : Value) (k : String) : Edit where
  key := k
  change
    | none => if allowed then some v else none
    | some _ => none

/-- Opens a table, which may be known from other headers. -/
def Edit.openTable (k : String) : Edit where
  key := k
  change
    | none => some (.table .header [])
    | some (.table .implied sub) => some (.table .header sub)
    | some _ => none

/-- Opens a further table of an array of tables. -/
def Edit.openElement (k : String) : Edit where
  key := k
  change
    | none => some (.tables [[]])
    | some (.tables elements) => some (.tables (elements ++ [[]]))
    | some _ => none

/-- An edit of the last part of a path in the table that the parts before it lead to. -/
def Edit.atPath (dotted : Bool) (e : Origin → String → Edit) (origin : Origin)
    (path : List String) : Edit :=
  match path.getLast? with
  | none => refused
  | some k => along dotted (fun o => e o k) origin path.dropLast

/-- What a key line does to the table that it belongs to. -/
def Edit.keyLine (origin : Origin) (path : List String) (v : Value) : Edit :=
  atPath true (fun o => assign (¬ (o = .dotted ↔ path.dropLast = [])) v) origin path

/-- What is done at the end of a path, when it is an edit there. -/
theorem update_atPath {dotted : Bool} {f : Origin → String → Entries → Option Entries}
    {e : Origin → String → Edit} (h : ∀ o k es, f o k es = (e o k).apply es) (origin : Origin)
    (path : List String) (es : Entries) :
    (path.getLast?.bind fun k => update dotted (fun o => f o k) origin path.dropLast es) =
      (Edit.atPath dotted e origin path).apply es := by
  rw [Edit.atPath]
  cases path.getLast? with
  | none => rfl
  | some k =>
    have hf : (fun o => f o k) = fun o => (e o k).apply := funext fun o => funext fun es => h o k es
    rw [Option.bind_some, hf]
    exact update_edit dotted (fun o => e o k) origin path.dropLast es

theorem assignFrom_eq (origin : Origin) (path : List String) (v : Value) (es : Entries) :
    assignFrom origin path v es = (Edit.keyLine origin path v).apply es := by
  refine update_atPath (fun o k es => ?_) origin path es
  rw [Edit.apply, Edit.assign, Entries.add?]
  cases hk : es.get? k with
  | none => by_cases h : o = .dotted ↔ path.dropLast = [] <;> simp [h, Entries.put_of_none hk]
  | some w => simp

theorem openTable_eq (path : List String) (es : Entries) :
    openTable path es = (Edit.atPath false (fun _ => .openTable) .header path).apply es := by
  refine update_atPath (fun _ k es => ?_) .header path es
  rw [Edit.apply, Edit.openTable]
  cases hk : es.get? k with
  | none => simp [Entries.add?, hk, Entries.put_of_none hk]
  | some w =>
    cases w with
    | table origin sub => cases origin <;> simp [Entries.put_of_some hk]
    | _ => rfl

theorem openElement_eq (path : List String) (es : Entries) :
    openElement path es = (Edit.atPath false (fun _ => .openElement) .header path).apply es := by
  refine update_atPath (fun _ k es => ?_) .header path es
  rw [Edit.apply, Edit.openElement]
  cases hk : es.get? k with
  | none => simp [Entries.add?, hk, Entries.put_of_none hk]
  | some w =>
    cases w with
    | tables elements => simp [Entries.put_of_some hk]
    | _ => rfl

/-- What a line does to the outermost table, when keys go to the table at a place. -/
def Statement.edit (here : List String) : Statement → Edit
  | .header path => .atPath false (fun _ => .openTable) .header path
  | .arrayHeader path => .atPath false (fun _ => .openElement) .header path
  | .assign path v => .along false (fun o => .keyLine o path v) .header here

/-- Where further keys go. -/
def Statement.placeAfter (here : List String) : Statement → List String
  | .header path => path
  | .arrayHeader path => path
  | .assign _ _ => here

/-- **A line is an edit** of one key of the outermost table. -/
theorem Statement.apply_eq (here : List String) (es : Entries) (st : Statement) :
    st.apply (here, es) = ((st.edit here).apply es).map (st.placeAfter here, ·) := by
  cases st with
  | header path => rw [apply, openTable_eq]; rfl
  | arrayHeader path => rw [apply, openElement_eq]; rfl
  | assign path v =>
    rw [apply, assignAt]
    simp only [assignFrom_eq]
    rw [update_edit]
    rfl

/-! ## Texts -/

/-- The lines of a text as edits. -/
def edits : List String → List Statement → List Edit
  | _, [] => []
  | here, st :: ss => st.edit here :: edits (st.placeAfter here) ss

/-- The outermost table of lines. -/
def build (ss : List Statement) : Option Entries := editAll (edits [] ss) []

theorem foldlM_apply (here : List String) (es : Entries) (ss : List Statement) :
    ss.foldlM Statement.apply (here, es) =
      (editAll (edits here ss) es).map (ss.foldl Statement.placeAfter here, ·) := by
  induction ss generalizing here es with
  | nil => rfl
  | cons st ss ih =>
    rw [List.foldlM_cons, Statement.apply_eq, edits, editAll_cons, List.foldl_cons]
    cases (st.edit here).apply es with
    | none => rfl
    | some r => exact ih (st.placeAfter here) r

/-- **A text is edits in order.** -/
theorem parse_eq (s : String) : parse s = (readStatements s.toList).bind build := by
  rw [parse]
  cases readStatements s.toList with
  | none => rfl
  | some ss =>
    show (ss.foldlM Statement.apply ([], [])).bind _ = build ss
    rw [foldlM_apply, build]
    cases editAll (edits [] ss) [] <;> rfl

/-- The key of the outermost table that a line is about: the first part of its header, or of the
header that it stands below. -/
def Statement.key (here : List String) : Statement → String
  | .header path | .arrayHeader path => path.headD ""
  | .assign path _ => (here ++ path).headD ""

theorem Edit.key_along (dotted : Bool) (e : Origin → Edit) (origin : Origin) (way : List String) :
    (along dotted e origin way).key = way.headD (e origin).key := by
  cases way <;> rfl

theorem Edit.key_atPath (dotted : Bool) (e : Origin → String → Edit)
    (he : ∀ o k, (e o k).key = k) (origin : Origin) (path : List String) :
    (atPath dotted e origin path).key = path.headD "" := by
  rcases List.eq_nil_or_concat' path with rfl | ⟨way, k, rfl⟩
  · rfl
  · rw [atPath, List.getLast?_concat, List.dropLast_concat]
    show (along dotted (fun o => e o k) origin way).key = _
    rw [key_along, he]
    cases way <;> rfl

theorem Statement.key_edit (here : List String) (st : Statement) :
    (st.edit here).key = st.key here := by
  cases st with
  | header path => exact Edit.key_atPath _ _ (fun _ _ => rfl) _ _
  | arrayHeader path => exact Edit.key_atPath _ _ (fun _ _ => rfl) _ _
  | assign path v =>
    rw [edit, key, Edit.key_along, Edit.keyLine, Edit.key_atPath _ _ (fun _ _ => rfl)]
    cases here <;> rfl

/-- A line and the place that its key goes to, if it is a key line. -/
def Statement.placed (here : List String) : Statement → List String × Statement
  | .header path => ([], .header path)
  | .arrayHeader path => ([], .arrayHeader path)
  | .assign path v => (here, .assign path v)

/-- Lines with the places of their keys. -/
def placedLines : List String → List Statement → List (List String × Statement)
  | _, [] => []
  | here, st :: ss => st.placed here :: placedLines (st.placeAfter here) ss

/-- The lines of a text that are about a key of the outermost table, in order. -/
def linesAbout (k : String) (ss : List Statement) : List (List String × Statement) :=
  (placedLines [] ss).filter fun l => l.2.key l.1 = k

theorem placedLines_append (here : List String) (ss ts : List Statement) :
    placedLines here (ss ++ ts) =
      placedLines here ss ++ placedLines (ss.foldl Statement.placeAfter here) ts := by
  induction ss generalizing here with
  | nil => rfl
  | cons st ss ih =>
    rw [List.cons_append, placedLines, placedLines, ih, List.foldl_cons, List.cons_append]

/-- The place of a header does not matter. -/
theorem Statement.edit_placed (here : List String) (st : Statement) :
    (st.placed here).2.edit (st.placed here).1 = st.edit here := by
  cases st <;> rfl

theorem edits_eq_map (here : List String) (ss : List Statement) :
    edits here ss = (placedLines here ss).map fun l => l.2.edit l.1 := by
  induction ss generalizing here with
  | nil => rfl
  | cons st ss ih => rw [edits, placedLines, ih, List.map_cons, Statement.edit_placed]

theorem editsOf_edits (k : String) (ss : List Statement) :
    editsOf k (edits [] ss) = (linesAbout k ss).map fun l => l.2.edit l.1 := by
  rw [editsOf, edits_eq_map, List.filter_map, linesAbout]
  simp only [Function.comp_def, Statement.key_edit]

/-- **The value of a key depends on the lines about it** and on no others. -/
theorem get?_eq_of_linesAbout {ss ts : List Statement} {es fs : Entries} (hss : build ss = some es)
    (hts : build ts = some fs) {k : String} (h : linesAbout k ss = linesAbout k ts) :
    es.get? k = fs.get? k :=
  get?_eq_of_editsOf hss hts (by rw [editsOf_edits, editsOf_edits, h])

/-- **A text is refused for the lines about one key.** -/
theorem build_eq_none_congr {ss ts : List Statement} (h : ∀ k, linesAbout k ss = linesAbout k ts) :
    build ss = none ↔ build ts = none :=
  editAll_eq_none_congr (fun k => by rw [editsOf_edits, editsOf_edits, h]) []

/-- All lines about a key can be left out without harm to the others. -/
theorem build_ne_none_of_left_out {ss ts : List Statement} (hss : build ss ≠ none)
    (h : ∀ k, linesAbout k ts = linesAbout k ss ∨ linesAbout k ts = []) : build ts ≠ none := by
  intro hts
  obtain ⟨k, hk⟩ := editAll_eq_none_iff.mp hts
  rcases h k with hsame | hnil
  · rw [editsOf_edits, hsame, ← editsOf_edits] at hk
    exact hss (editAll_eq_none_iff.mpr ⟨k, hk⟩)
  · rw [editsOf_edits, hnil] at hk
    cases hk

end PlcAudit.Toml
