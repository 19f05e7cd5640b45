import PlcAudit.Proofs.Toml.Edits

/-!
# Key lines below a header

Below a header the lines of a text are edits once more, of the keys of the table that it opens.
What makes them harder to move is what stands behind them: a later header can reach into the same
table, and then it is carried out on a table that has been built in another order.

A table that has its header cannot be replaced, opened again or added to by a dotted key.  So a
later line about it is refused whatever is in the table, or is an edit of one of its keys, and of
what the table has it sees no more than the value of this key.  Two tables with the same values of
some keys keep this when the same lines are carried out on both.

* `Edit.StaysIn`: what an edit can do to a table with a header, with `Statement.staysIn_edit`.
* `Matching`: how the outcomes of two runs are compared.
* `Differ`: outermost tables that differ in one table with a header, in some of its keys, with
  `Differ.apply` and `Differ.run`: lines keep this.
* `matching_keyLines`: key lines are carried out in the table with the header above them.
* `matching_block`: the key lines below a header in another order.
* `linesAbout_swap`: tables with their key lines change places.
-/

namespace PlcAudit.Toml

/-! ## Tables with a header -/

/-- An edit of a table with a header is refused whatever is in it, or edits one of its keys. -/
def Edit.StaysIn (e : Edit) : Prop :=
  (∀ sub, e.change (some (.table .header sub)) = none) ∨
    ∃ inner : Edit, ∀ sub,
      e.change (some (.table .header sub)) = (inner.apply sub).map (.table .header)

/-- A dotted key does not reach into a table with a header. -/
theorem Edit.staysIn_along_true {e : Origin → Edit} {origin : Origin} (he : (e origin).StaysIn)
    (way : List String) : (along true e origin way).StaysIn := by
  cases way with
  | nil => exact he
  | cons k ks => exact Or.inl fun sub => into_header true (fun o es => (e o).apply es) ks sub

/-- A header goes through a table with a header. -/
theorem Edit.staysIn_along_false {e : Origin → Edit} {origin : Origin} (he : (e origin).StaysIn)
    (way : List String) : (along false e origin way).StaysIn := by
  cases way with
  | nil => exact he
  | cons k ks =>
    refine Or.inr ⟨along false e .header ks, fun sub => ?_⟩
    rw [← update_edit]
    exact into_header false _ ks sub

theorem Edit.staysIn_atPath {dotted : Bool} {e : Origin → String → Edit} {origin : Origin}
    (he : ∀ k way, (along dotted (fun o => e o k) origin way).StaysIn) (path : List String) :
    (atPath dotted e origin path).StaysIn := by
  rw [atPath]
  split
  · exact Or.inl fun _ => rfl
  · exact he _ _

/-- **What a line can do to a table that has its header.** -/
theorem Statement.staysIn_edit (here : List String) (st : Statement) : (st.edit here).StaysIn := by
  -- what is done at the end of a path is refused for a table that has its header
  cases st with
  | header path =>
    exact Edit.staysIn_atPath (fun k => Edit.staysIn_along_false (Or.inl fun _ => rfl)) path
  | arrayHeader path =>
    exact Edit.staysIn_atPath (fun k => Edit.staysIn_along_false (Or.inl fun _ => rfl)) path
  | assign path v =>
    refine Edit.staysIn_along_false ?_ here
    exact Edit.staysIn_atPath (fun k => Edit.staysIn_along_true (Or.inl fun _ => rfl)) path

theorem staysIn_of_mem_edits {here : List String} {ss : List Statement} {e : Edit}
    (h : e ∈ edits here ss) : e.StaysIn := by
  rw [edits_eq_map] at h
  obtain ⟨l, -, rfl⟩ := List.mem_map.mp h
  exact l.2.staysIn_edit l.1

/-! ## Two runs -/

section Matching

variable {α β γ δ : Type*} {strict : Prop}

/-- **Two outcomes match.**  What succeeds on both sides is related, and, where this is asked for,
both are refused or none. -/
structure Matching (strict : Prop) (R : α → β → Prop) (x : Option α) (y : Option β) : Prop where
  related : ∀ a b, x = some a → y = some b → R a b
  refused : strict → (x = none ↔ y = none)

theorem Matching.of_none {R : α → β → Prop} : Matching strict R none none :=
  ⟨fun _ _ h => (nomatch h), fun _ => iff_of_true rfl rfl⟩

theorem Matching.of_some {R : α → β → Prop} {a : α} {b : β} (h : R a b) :
    Matching strict R (some a) (some b) := by
  refine ⟨?_, fun _ => iff_of_false (Option.some_ne_none a) (Option.some_ne_none b)⟩
  rintro _ _ ⟨⟩ ⟨⟩
  exact h

/-- Matching outcomes go on to match. -/
theorem Matching.bind {R : α → β → Prop} {S : γ → δ → Prop} {x : Option α} {y : Option β}
    {f : α → Option γ} {g : β → Option δ} (h : Matching strict R x y)
    (hfg : ∀ a b, R a b → Matching strict S (f a) (g b)) :
    Matching strict S (x.bind f) (y.bind g) := by
  cases x with
  | none =>
    refine ⟨fun _ _ hx => (nomatch hx), fun hstrict => ?_⟩
    rw [(h.refused hstrict).mp rfl]
    exact iff_of_true rfl rfl
  | some a =>
    cases y with
    | none =>
      refine ⟨fun _ _ _ hy => (nomatch hy), fun hstrict => ?_⟩
      exact absurd ((h.refused hstrict).mpr rfl) (Option.some_ne_none a)
    | some b => exact hfg a b (h.related a b rfl rfl)

theorem Matching.map {R : α → β → Prop} {S : γ → δ → Prop} {x : Option α} {y : Option β}
    {f : α → γ} {g : β → δ} (h : Matching strict R x y) (hfg : ∀ a b, R a b → S (f a) (g b)) :
    Matching strict S (x.map f) (y.map g) := by
  rw [Option.map_eq_bind, Option.map_eq_bind]
  exact h.bind fun a b hab => .of_some (hfg a b hab)

/-- What succeeds on one side has succeeded on the other. -/
theorem Matching.exists_left {R : α → β → Prop} {x : Option α} {y : Option β}
    (h : Matching strict R x y) (hstrict : strict) {b : β} (hy : y = some b) :
    ∃ a, x = some a ∧ R a b := by
  cases x with
  | none =>
    rw [(h.refused hstrict).mp rfl] at hy
    cases hy
  | some a => exact ⟨a, rfl, h.related a b rfl hy⟩

theorem Matching.refl (x : Option α) : Matching strict (· = ·) x x := by
  cases x with
  | none => exact .of_none
  | some a => exact .of_some rfl

end Matching

/-! ## Tables that differ in some keys -/

variable {s : String} {known : String → Prop} {es fs : Entries}

/-- Two tables have the same values of the keys that are known. -/
def AgreeOn (known : String → Prop) (es fs : Entries) : Prop := ∀ k, known k → es.get? k = fs.get? k

/-- An edit keeps the keys that agree. -/
theorem AgreeOn.apply (h : AgreeOn known es fs) (e : Edit) :
    Matching (∀ k, known k) (AgreeOn known) (e.apply es) (e.apply fs) := by
  refine ⟨fun es' fs' hes hfs k hk => ?_, fun hall => ?_⟩
  · obtain ⟨v, hv, rfl⟩ := Option.map_eq_some_iff.mp hes
    obtain ⟨w, hw, rfl⟩ := Option.map_eq_some_iff.mp hfs
    rw [Entries.get?_put, Entries.get?_put]
    by_cases hkey : k = e.key
    · rw [← h e.key (hkey ▸ hk), hv] at hw
      rw [if_pos hkey, if_pos hkey, hw]
    · rw [if_neg hkey, if_neg hkey, h k hk]
  · rw [Edit.apply, Edit.apply, Option.map_eq_none_iff, Option.map_eq_none_iff,
      h e.key (hall e.key)]

/-- **Two outermost tables differ in one table,** which has a header in both, and there in no key
that is known. -/
structure Differ (s : String) (known : String → Prop) (es fs : Entries) : Prop where
  others : ∀ k, k ≠ s → es.get? k = fs.get? k
  tables : ∃ sub tub, es.get? s = some (.table .header sub) ∧
    fs.get? s = some (.table .header tub) ∧ AgreeOn known sub tub

/-- An edit keeps the tables as alike as they are. -/
theorem Differ.apply {e : Edit} (h : Differ s known es fs) (he : e.StaysIn) :
    Matching (∀ k, known k) (Differ s known) (e.apply es) (e.apply fs) := by
  obtain ⟨sub, tub, hsub, htub, hagree⟩ := h.tables
  rw [Edit.apply, Edit.apply]
  by_cases hkey : e.key = s
  · rw [hkey, hsub, htub]
    rcases he with hnone | ⟨inner, hinner⟩
    · rw [hnone, hnone]
      exact .of_none
    · rw [hinner, hinner, Option.map_map, Option.map_map]
      refine (hagree.apply inner).map fun x y hxy => ⟨fun k hk => ?_, x, y, ?_, ?_, hxy⟩
      · simp [Entries.get?_put, hk, h.others k hk]
      · simp [Entries.get?_put]
      · simp [Entries.get?_put]
  · have hs : s ≠ e.key := Ne.symm hkey
    rw [h.others e.key hkey]
    refine (Matching.refl (e.change (fs.get? e.key))).map ?_
    rintro v _ rfl
    refine ⟨fun k hk => ?_, sub, tub, ?_, ?_, hagree⟩
    · rw [Entries.get?_put, Entries.get?_put, h.others k hk]
    · rw [Entries.get?_put, if_neg hs, hsub]
    · rw [Entries.get?_put, if_neg hs, htub]

/-- **Lines keep tables as alike as they are,** and are carried out on both or on none when all keys
are known. -/
theorem Differ.run {edits : List Edit} (h : Differ s known es fs)
    (hedits : ∀ e ∈ edits, e.StaysIn) :
    Matching (∀ k, known k) (Differ s known) (editAll edits es) (editAll edits fs) := by
  induction edits generalizing es fs with
  | nil => exact .of_some h
  | cons e edits ih =>
    have he := hedits e List.mem_cons_self
    have hrest := fun e' he' => hedits e' (List.mem_cons_of_mem e he')
    rw [editAll_cons, editAll_cons]
    exact (h.apply he).bind fun es' fs' h' => ih h' hrest

/-! ## Key lines below a header -/

/-- Key lines, by path and value. -/
def keyLines (ls : List (List String × Value)) : List Statement :=
  ls.map fun l => .assign l.1 l.2

/-- The key lines about a key of the table that they belong to, in order. -/
def keyLinesAbout (k : String) (ls : List (List String × Value)) : List (List String × Value) :=
  ls.filter fun l => l.1.headD "" = k

/-- What key lines do to the table that has the header above them. -/
def innerEdits (ls : List (List String × Value)) : List Edit :=
  ls.map fun l => .keyLine .header l.1 l.2

theorem editsOf_innerEdits (k : String) (ls : List (List String × Value)) :
    editsOf k (innerEdits ls) = innerEdits (keyLinesAbout k ls) := by
  have hkey : ∀ l : List String × Value, (Edit.keyLine .header l.1 l.2).key = l.1.headD "" :=
    fun l => Edit.key_atPath _ _ (fun _ _ => rfl) _ _
  rw [editsOf, innerEdits, List.filter_map, innerEdits, keyLinesAbout]
  simp only [Function.comp_def, hkey]

/-- A table lies in the outermost one, under a header, and nothing else has changed there. -/
def Lies (s : String) (es sub fs : Entries) : Prop :=
  fs.get? s = some (.table .header sub) ∧ ∀ k, k ≠ s → fs.get? k = es.get? k

/-- A key line is carried out in the table with the header above it. -/
theorem apply_edit_assign {sub : Entries} (h : es.get? s = some (.table .header sub))
    (path : List String) (v : Value) :
    ((Statement.assign path v).edit [s]).apply es =
      ((Edit.keyLine .header path v).apply sub).map fun r => es.put s (.table .header r) := by
  have hinto := into_header false (fun o es => (Edit.keyLine o path v).apply es) [] sub
  show (into false _ [] (es.get? s)).map (es.put s) = _
  rw [h, hinto]
  exact Option.map_map _ _ _

/-- **Key lines are carried out in the table with the header above them.** -/
theorem matching_keyLines {sub : Entries} (h : es.get? s = some (.table .header sub))
    (ls : List (List String × Value)) :
    Matching True (Lies s es) (editAll (innerEdits ls) sub)
      (editAll (edits [s] (keyLines ls)) es) := by
  induction ls generalizing es sub with
  | nil => exact .of_some ⟨h, fun _ _ => rfl⟩
  | cons l ls ih =>
    have hinner : innerEdits (l :: ls) = .keyLine .header l.1 l.2 :: innerEdits ls := rfl
    have houter : edits [s] (keyLines (l :: ls)) =
        (Statement.assign l.1 l.2).edit [s] :: edits [s] (keyLines ls) := rfl
    rw [hinner, houter, editAll_cons, editAll_cons, apply_edit_assign h]
    cases (Edit.keyLine .header l.1 l.2).apply sub with
    | none => exact .of_none
    | some r =>
      have hself : (es.put s (.table .header r)).get? s = some (.table .header r) := by
        rw [Entries.get?_put, if_pos rfl]
      refine ⟨fun a b ha hb => ?_, (ih hself).refused⟩
      obtain ⟨htable, hothers⟩ := (ih hself).related a b ha hb
      refine ⟨htable, fun k hk => ?_⟩
      rw [hothers k hk, Entries.get?_put, if_neg hk]

/-- Key lines below a header in another order, with the lines about each known key in theirs. -/
theorem matching_keyLines_of_agree {sub : Entries} (h : es.get? s = some (.table .header sub))
    {as bs : List (List String × Value)}
    (hlines : ∀ k, known k → keyLinesAbout k as = keyLinesAbout k bs) :
    Matching (∀ k, known k) (Differ s known) (editAll (edits [s] (keyLines as)) es)
      (editAll (edits [s] (keyLines bs)) es) := by
  have hedits : ∀ k, known k → editsOf k (innerEdits as) = editsOf k (innerEdits bs) := by
    intro k hk
    rw [editsOf_innerEdits, editsOf_innerEdits, hlines k hk]
  have has := matching_keyLines h as
  have hbs := matching_keyLines h bs
  refine ⟨fun es₁ es₂ h₁ h₂ => ?_, fun hall => ?_⟩
  · obtain ⟨r₁, hr₁, htable₁, hothers₁⟩ := has.exists_left trivial h₁
    obtain ⟨r₂, hr₂, htable₂, hothers₂⟩ := hbs.exists_left trivial h₂
    exact ⟨fun k hk => (hothers₁ k hk).trans (hothers₂ k hk).symm, r₁, r₂, htable₁, htable₂,
      fun k hk => get?_eq_of_editsOf hr₁ hr₂ (hedits k hk)⟩
  · rw [← has.refused trivial, ← hbs.refused trivial]
    exact editAll_eq_none_congr (fun k => hedits k (hall k)) sub

/-- A header gives its table a header. -/
theorem exists_table_of_header {here : List String} {es' : Entries}
    (h : ((Statement.header [s]).edit here).apply es = some es') :
    ∃ sub, es'.get? s = some (.table .header sub) := by
  obtain ⟨v, hv, rfl⟩ := Option.map_eq_some_iff.mp h
  have htable : ∃ sub, v = .table .header sub := by
    change (Edit.openTable s).change (es.get? s) = some v at hv
    simp only [Edit.openTable] at hv
    split at hv
    · exact ⟨[], (Option.some.inj hv).symm⟩
    · exact ⟨_, (Option.some.inj hv).symm⟩
    · cases hv
  obtain ⟨sub, rfl⟩ := htable
  exact ⟨sub, by rw [Entries.get?_put]; exact if_pos rfl⟩

/-! ## Texts -/

theorem edits_append (here : List String) (ss ts : List Statement) :
    edits here (ss ++ ts) = edits here ss ++ edits (ss.foldl Statement.placeAfter here) ts := by
  rw [edits_eq_map, edits_eq_map, edits_eq_map, placedLines_append, List.map_append]

theorem editAll_append (xs ys : List Edit) (es : Entries) :
    editAll (xs ++ ys) es = (editAll xs es).bind (editAll ys) :=
  List.foldlM_append

/-- A header and the key lines below it. -/
def block (s : String) (ls : List (List String × Value)) : List Statement :=
  .header [s] :: keyLines ls

theorem foldl_placeAfter_keyLines (here : List String) (ls : List (List String × Value)) :
    (keyLines ls).foldl Statement.placeAfter here = here := by
  induction ls with
  | nil => rfl
  | cons l ls ih => exact ih

theorem build_block (before : List Statement) (s : String) (ls : List (List String × Value))
    (after : List Statement) :
    build (before ++ (block s ls ++ after)) =
      (build before).bind fun es =>
        (((Statement.header [s]).edit (before.foldl Statement.placeAfter [])).apply es).bind
          fun es => (editAll (edits [s] (keyLines ls)) es).bind (editAll (edits [s] after)) := by
  rw [build, edits_append, editAll_append, block, List.cons_append, edits, Statement.placeAfter,
    edits_append, foldl_placeAfter_keyLines]
  refine congrArg (Option.bind (build before)) (funext fun es => ?_)
  rw [editAll_cons]
  refine congrArg (Option.bind _) (funext fun es => ?_)
  exact editAll_append _ _ es

/-- **The key lines below a header can change places,** as long as those about a key stay in order.
The keys that are not known need not even be the same, when both texts are taken. -/
theorem matching_block (before : List Statement) (s : String)
    {as bs : List (List String × Value)} (after : List Statement)
    (hlines : ∀ k, known k → keyLinesAbout k as = keyLinesAbout k bs) :
    Matching (∀ k, known k) (Differ s known) (build (before ++ (block s as ++ after)))
      (build (before ++ (block s bs ++ after))) := by
  rw [build_block, build_block]
  cases build before with
  | none => exact .of_none
  | some es =>
    rw [Option.bind_some, Option.bind_some]
    cases hheader : ((Statement.header [s]).edit _).apply es with
    | none => exact .of_none
    | some es' =>
      obtain ⟨sub, hsub⟩ := exists_table_of_header hheader
      exact (matching_keyLines_of_agree hsub hlines).bind fun _ _ h =>
        h.run fun e he => staysIn_of_mem_edits he

/-! ## Blocks that change places -/

theorem placedLines_keyLines (here : List String) (ls : List (List String × Value)) :
    placedLines here (keyLines ls) = ls.map fun l => (here, .assign l.1 l.2) := by
  induction ls with
  | nil => rfl
  | cons l ls ih => exact congrArg (List.cons _) ih

/-- A header and the key lines below it are about the table that it opens. -/
theorem filter_placedLines_block {k s : String} (hk : k ≠ s) (here : List String)
    (ls : List (List String × Value)) :
    (placedLines here (block s ls)).filter (fun l => l.2.key l.1 = k) = [] := by
  rw [List.filter_eq_nil_iff]
  intro l hl hkey
  refine hk ((of_decide_eq_true hkey).symm.trans ?_)
  rcases List.mem_cons.mp hl with rfl | hl
  · rfl
  · change l ∈ placedLines [s] (keyLines ls) at hl
    rw [placedLines_keyLines] at hl
    obtain ⟨x, -, rfl⟩ := List.mem_map.mp hl
    rfl

/-- Lines that do not begin with a key line stand for the same wherever they stand. -/
theorem placedLines_congr {after : List Statement}
    (h : ∀ path v r, after ≠ .assign path v :: r) (here there : List String) :
    placedLines here after = placedLines there after := by
  cases after with
  | nil => rfl
  | cons st r =>
    cases st with
    | assign path v => exact absurd rfl (h path v r)
    | _ => rfl

/-- **Two tables that stand behind one another change places,** and no line is about anything else
than before. -/
theorem linesAbout_swap (before : List Statement) {s t : String} (hst : s ≠ t)
    (as bs : List (List String × Value)) {after : List Statement}
    (hafter : ∀ path v r, after ≠ .assign path v :: r) (k : String) :
    linesAbout k (before ++ (block s as ++ (block t bs ++ after))) =
      linesAbout k (before ++ (block t bs ++ (block s as ++ after))) := by
  have hplace : ∀ here name ls, (block name ls).foldl Statement.placeAfter here = [name] :=
    fun _ name ls => foldl_placeAfter_keyLines [name] ls
  simp only [linesAbout, placedLines_append, List.filter_append, hplace]
  rw [placedLines_congr hafter [t] [s]]
  by_cases hk : k = s
  · have hkt : k ≠ t := hk ▸ hst
    simp only [filter_placedLines_block hkt, List.nil_append]
    rfl
  · simp only [filter_placedLines_block hk, List.nil_append]
    rfl

end PlcAudit.Toml
