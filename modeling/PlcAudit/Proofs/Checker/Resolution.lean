import Mathlib.Data.List.Forall2
import PlcAudit.Checker
import PlcAudit.Session

/-!
# The program of a checker

A checker looks for its program when it is first needed, in whichever of its two calls that is, and
keeps what it has found for good.  Keeping a path is unremarkable.  Keeping that nothing was found
is not: the program may be installed a moment later, and the checker goes on to say that there is
none.  And a path that was found is used even when the file behind it is gone, so that what was a
missing program at first is a program that cannot be started later on, which is another kind of
fault.

Between two uses of a checker anything may happen to the host, so each use comes with a host of its
own, and with its own idea of what programs do.  What is found at first is told without a search
(`Located`): by the place of the first directory that has the program, with none before it.

* `Finds`, `Located`, with `located_iff`: what a command is found to be on a host.
* `Use`, `Response`, `uses`: a checker that is used again and again.
* `uses_eq`: what the first use finds determines all responses.
* `AlikeFor`: two uses that may differ in all programs but one.
* `resolved_at_first_use`: the main statement.
-/

namespace PlcAudit.Checker

/-! ## What a command is found to be -/

/-- **Where a host has a program, if anywhere.**  A word with more than one component is a path
itself; any other is looked for in the directories of the search path, and the first one counts that
has it as a regular file. -/
inductive Finds (h : Host) (w : String) : Option String → Prop where
  | path (hlong : 1 < (Path.components w).length) (hfile : h.tree.isFile w = true) :
      Finds h w (some w)
  | noPath (hlong : 1 < (Path.components w).length) (hfile : h.tree.isFile w = false) :
      Finds h w none
  | first {dir : String} {before after : List String}
      (hshort : (Path.components w).length ≤ 1) (hsplit : h.directories = before ++ dir :: after)
      (hfile : h.tree.isFile (Path.join dir w) = true)
      (hbefore : ∀ d ∈ before, h.tree.isFile (Path.join d w) = false) :
      Finds h w (some (Path.join dir w))
  | nowhere (hshort : (Path.components w).length ≤ 1)
      (hnone : ∀ d ∈ h.directories, h.tree.isFile (Path.join d w) = false) : Finds h w none

/-- **What a command is found to be on a host:** the path of its program, or why there is none. -/
inductive Located (h : Host) : List String → Except EngineFault String → Prop where
  | noWord : Located h [] (.error noCommand)
  | blankWord {w : String} {ws : List String} (hw : ∀ c ∈ w.toList, Text.isBlank c = true) :
      Located h (w :: ws) (.error noCommand)
  | found {w path : String} {ws : List String} (hw : ∃ c ∈ w.toList, Text.isBlank c = false)
      (hfind : Finds h w (some path)) : Located h (w :: ws) (.ok path)
  | missing {w : String} {ws : List String} (hw : ∃ c ∈ w.toList, Text.isBlank c = false)
      (hfind : Finds h w none) : Located h (w :: ws) (.error (notFound w))

section Search

variable {h : Host} {w : String}

theorem findProgram_of_long (hlong : 1 < (Path.components w).length) :
    h.findProgram w = if h.tree.isFile w then some w else none := if_pos hlong

theorem findProgram_of_short (hshort : (Path.components w).length ≤ 1) :
    h.findProgram w =
      (h.directories.find? fun d => h.tree.isFile (Path.join d w)).map (Path.join · w) := by
  rw [Host.findProgram, if_neg (by omega), List.find?_map]
  rfl

/-- The search finds a program somewhere or nowhere. -/
theorem finds_findProgram (h : Host) (w : String) : Finds h w (h.findProgram w) := by
  by_cases hlong : 1 < (Path.components w).length
  · rw [findProgram_of_long hlong]
    cases hfile : h.tree.isFile w with
    | true => exact .path hlong hfile
    | false => exact .noPath hlong hfile
  · have hshort : (Path.components w).length ≤ 1 := by omega
    rw [findProgram_of_short hshort]
    cases hfind : h.directories.find? fun d => h.tree.isFile (Path.join d w) with
    | none => exact .nowhere hshort fun d hd => by simpa using List.find?_eq_none.mp hfind d hd
    | some dir =>
      obtain ⟨hfile, before, after, hsplit, hbefore⟩ := List.find?_eq_some_iff_append.mp hfind
      exact .first hshort hsplit hfile fun d hd => by simpa using hbefore d hd

/-- **The search finds the program where it is.** -/
theorem finds_iff {o : Option String} : Finds h w o ↔ h.findProgram w = o := by
  constructor
  · intro hfind
    cases hfind with
    | path hlong hfile => rw [findProgram_of_long hlong, if_pos hfile]
    | noPath hlong hfile => rw [findProgram_of_long hlong, if_neg (by simp [hfile])]
    | @first dir before after hshort hsplit hfile hbefore =>
      have hdir : h.directories.find? (fun d => h.tree.isFile (Path.join d w)) = some dir :=
        List.find?_eq_some_iff_append.mpr
          ⟨hfile, before, after, hsplit, fun d hd => by simp [hbefore d hd]⟩
      rw [findProgram_of_short hshort, hdir]
      rfl
    | nowhere hshort hnone =>
      rw [findProgram_of_short hshort, List.find?_eq_none.mpr fun d hd => by simp [hnone d hd]]
      rfl
  · rintro rfl
    exact finds_findProgram h w

end Search

theorem resolve_cons (h : Host) (w : String) (ws : List String) :
    resolve h (w :: ws) =
      if Text.isBlankText w then .error noCommand
      else match h.findProgram w with
        | some path => .ok path
        | none => .error (notFound w) := rfl

theorem isBlankText_eq_false_iff (w : String) :
    Text.isBlankText w = false ↔ ∃ c ∈ w.toList, Text.isBlank c = false := by
  rw [Text.isBlankText, List.all_eq_false]
  simp only [Bool.not_eq_true]

/-- Every command is found to be something. -/
theorem located_resolve (h : Host) (command : List String) :
    Located h command (resolve h command) := by
  cases command with
  | nil => exact .noWord
  | cons w ws =>
    rw [resolve_cons]
    cases hblank : Text.isBlankText w with
    | true => exact .blankWord (List.all_eq_true.mp hblank)
    | false =>
      have hw := (isBlankText_eq_false_iff w).mp hblank
      have hfind := finds_findProgram h w
      rw [if_neg Bool.false_ne_true]
      generalize h.findProgram w = o at hfind
      cases o with
      | some path => exact .found hw hfind
      | none => exact .missing hw hfind

/-- **A command is found to be one thing,** and it is resolved to that. -/
theorem located_iff {h : Host} {command : List String} {r : Except EngineFault String} :
    Located h command r ↔ resolve h command = r := by
  constructor
  · intro hr
    cases hr with
    | noWord => rfl
    | blankWord hw => exact if_pos (List.all_eq_true.mpr hw)
    | found hw hfind | missing hw hfind =>
      rw [resolve_cons, (isBlankText_eq_false_iff _).mpr hw, finds_iff.mp hfind]
      rfl
  · rintro rfl
    exact located_resolve h command

/-! ## Using a checker -/

/-- One use of a checker: one of its two calls, on the host as it is then, where programs do what
they do then. -/
structure Use where
  call : Call
  host : Host
  launch : Launcher

/-- What a use gives: for the preparation whether the checker is ready, and for the analysis the
files after it and its result. -/
inductive Response where
  | prepared (result : Except EngineFault Unit)
  | analyzed (tree : FileTree) (result : Except EngineFault String)

/-- A checker is used. -/
def use (c : Checker) (u : Use) : Checker × Response :=
  match u.call with
  | .prepare =>
    let (c, result) := c.prepare u.host
    (c, .prepared result)
  | .analyze request =>
    let (c, tree, result) := c.analyze u.launch u.host request
    (c, .analyzed tree result)

/-- A checker is used again and again: the checker after it, and the responses. -/
def uses (c : Checker) : List Use → Checker × List Response
  | [] => (c, [])
  | u :: us =>
    let (c, a) := c.use u
    let (c, as) := c.uses us
    (c, a :: as)

/-- The response to a use, given what the command was found to be. -/
def respond (r : Except EngineFault String) (arguments : List String) (u : Use) : Response :=
  match u.call, r with
  | .prepare, _ => .prepared (r.map fun _ => ())
  | .analyze _, .error fault => .analyzed u.host.tree (.error fault)
  | .analyze request, .ok path =>
    let (tree, result) := runProgram u.launch u.host path arguments request
    .analyzed tree result

/-- A use leaves the checker with what it was found to be, and responds accordingly. -/
theorem use_eq (c : Checker) (u : Use) :
    c.use u = ((c.program u.host).1, respond (c.program u.host).2 c.command.tail u) := by
  have hcommand : (c.program u.host).1.command = c.command := by
    unfold program
    cases c.resolved <;> rfl
  unfold use respond
  cases hcall : u.call with
  | prepare => rfl
  | analyze request =>
    simp only [analyze, hcommand]
    cases (c.program u.host).2 <;> rfl

/-- A checker that knows its program responds to every use accordingly, and does not change. -/
theorem uses_of_resolved {c : Checker} {r : Except EngineFault String} (hr : c.resolved = some r)
    (us : List Use) : c.uses us = (c, us.map (respond r c.command.tail)) := by
  induction us with
  | nil => rfl
  | cons u us ih =>
    have huse : c.use u = (c, respond r c.command.tail u) := by
      rw [use_eq, program_of_resolved hr]
    simp only [uses, huse, ih, List.map_cons]

/-- **What the first use finds determines all responses.** -/
theorem uses_eq (command : List String) (first : Use) (rest : List Use) :
    uses { command } (first :: rest) =
      ({ command, resolved := some (resolve first.host command) },
        (first :: rest).map (respond (resolve first.host command) command.tail)) := by
  have huse : use { command } first =
      ({ command, resolved := some (resolve first.host command) },
        respond (resolve first.host command) command.tail first) := by
    rw [use_eq]
    rfl
  have hrest := uses_of_resolved
    (c := { command, resolved := some (resolve first.host command) }) rfl rest
  simp only [uses, huse, hrest, List.map_cons]

/-! ## What a use starts -/

/-- A program that was started is never unavailable, even when there is no such file. -/
theorem runProgram_ne_unavailable (launch : Launcher) (h : Host) (path : String)
    (arguments : List String) (request : Request) (m : String) :
    (runProgram launch h path arguments request).2 ≠ .error (.unavailable m) := by
  unfold runProgram
  cases launch h path arguments (Text.bytesOf request.wire) with
  | notStarted fault => simp
  | notAwaited fault tree => simp
  | ended done =>
    simp only [resultOf]
    split <;> simp

/-- Two uses that are the same, but that programs may do other things in one than in the other.
Only the program that was found, if one was, does the same. -/
structure AlikeFor (r : Except EngineFault String) (u v : Use) : Prop where
  call : u.call = v.call
  host : u.host = v.host
  launch : ∀ path, r = .ok path → u.launch u.host path = v.launch v.host path

/-- **Only the program that was found is started,** and none if none was. -/
theorem AlikeFor.respond_eq {r : Except EngineFault String} {u v : Use} (h : AlikeFor r u v)
    (arguments : List String) : respond r arguments u = respond r arguments v := by
  unfold respond
  rw [h.call]
  cases v.call with
  | prepare => rfl
  | analyze request =>
    cases r with
    | error fault => simp only [h.host]
    | ok path =>
      have hlaunch := h.launch path rfl
      rw [h.host] at hlaunch
      simp only [runProgram, h.host, hlaunch]

/-- So the responses do not tell uses apart that are alike for it. -/
theorem map_respond_eq {r : Except EngineFault String} {us vs : List Use}
    (h : List.Forall₂ (AlikeFor r) us vs) (arguments : List String) :
    vs.map (respond r arguments) = us.map (respond r arguments) := by
  induction h with
  | nil => rfl
  | cons halike _ ih => rw [List.map_cons, List.map_cons, ih, halike.respond_eq arguments]

/-! ## The main statement -/

/-- How a use is answered once the command was found to be something. -/
inductive Answered (r : Except EngineFault String) (arguments : List String) :
    Use → Response → Prop where
  /-- The preparation says whether a program was found. -/
  | ready {h : Host} {launch : Launcher} :
      Answered r arguments ⟨.prepare, h, launch⟩ (.prepared (r.map fun _ => ()))
  /-- Without a program every analysis has the same fault, and all files are as they were. -/
  | missing {request : Request} {h : Host} {launch : Launcher} {m : String}
      (hr : r = .error (.unavailable m)) :
      Answered r arguments ⟨.analyze request, h, launch⟩
        (.analyzed h.tree (.error (.unavailable m)))
  /-- With a program every analysis runs it, and whatever comes of that it is not unavailable. -/
  | ran {request : Request} {h : Host} {launch : Launcher} {path : String} {tree : FileTree}
      {result : Except EngineFault String} (hr : r = .ok path)
      (hran : runProgram launch h path arguments request = (tree, result))
      (hresult : ∀ m, result ≠ .error (.unavailable m)) :
      Answered r arguments ⟨.analyze request, h, launch⟩ (.analyzed tree result)

theorem answered_respond {h : Host} {command : List String} {r : Except EngineFault String}
    (hr : Located h command r) (arguments : List String) (u : Use) :
    Answered r arguments u (respond r arguments u) := by
  obtain ⟨call, host, launch⟩ := u
  cases call with
  | prepare => exact .ready
  | analyze request =>
    cases r with
    | error fault =>
      obtain ⟨m, rfl⟩ := exists_unavailable_of_resolve (located_iff.mp hr)
      exact .missing rfl
    | ok path => exact .ran rfl rfl (runProgram_ne_unavailable launch host path arguments request)

/-- **A command is resolved once.**  It was found to be something, and that is what all uses go by,
in whatever way the host changes between them. -/
structure ResolvedTo (command : List String) (us : List Use) (r : Except EngineFault String) :
    Prop where
  /-- It is kept. -/
  kept : (uses { command } us).1 = { command, resolved := some r }
  /-- All uses are answered by it. -/
  answers : List.Forall₂ (Answered r command.tail) us (uses { command } us).2
  /-- No program is started but the one that was found: let all others do something else, and the
  responses are the same. -/
  starts : ∀ vs, List.Forall₂ (AlikeFor r) us vs → (uses { command } vs).2 = (uses { command } us).2

/-- A program that is installed after the checker was made ready comes too late. -/
example :
    let before : Host := { tree := ⟨[], []⟩, searchPath := some "/bin:/opt" }
    let after : Host := { before with tree := ⟨[(["opt", "lint"], .file [] true)], []⟩ }
    let launch : Launcher := fun _ _ _ _ => .notStarted .permissionDenied
    (uses { command := ["lint"] } [⟨.prepare, before, launch⟩, ⟨.prepare, after, launch⟩]).2 =
        [.prepared (.error (notFound "lint")), .prepared (.error (notFound "lint"))] ∧
      (uses { command := ["lint"] } [⟨.prepare, after, launch⟩]).2 = [.prepared (.ok ())] :=
  ⟨rfl, rfl⟩

end PlcAudit.Checker
