import PlcAudit.Proofs.Source.Lines
import PlcAudit.Proofs.Text.Utf8
import PlcAudit.Source.Basic

/-!
# Reading a source

An engine counts the lines of the bytes that it is given, an audit those of the text that the bytes
decode to, and a number of the one is looked up in the other.  The two agree also where the bytes
are no text.  A character can be broken off by a terminator, and then the bytes before it become a
replacement; but a terminator is below `0x80`, so it is never a part of a character, and decoding
does the same on both sides of it as it would alone.

Before this a name is looked at, and no more than its end: what stands behind the last full stop.

* `isSupported_iff`: the names that are taken, without looking for the last full stop.
* `Divides.decoded`: lines of bytes decode to lines of the text.
* `linesOf_ofBytes`: decoding and dividing commute.
* `read_as_decoded`: what is refused, and what is read.
-/

namespace PlcAudit.Source

/-! ## Names that are taken -/

/-- A name ends with a full stop and an extension that is taken, in any ASCII case. -/
def HasTakenExtension (name : String) : Prop :=
  ∃ stem ext : List Char, name.toList = stem ++ '.' :: ext ∧ ext.map Char.toLower ∈ extensions

theorem extension?_append {ext : List Char} (h : '.' ∉ ext) (stem : List Char) :
    extension? (stem ++ '.' :: ext) = some ext := by
  have hall : ∀ a ∈ ext.reverse, decide (a ≠ '.') = true := fun a ha =>
    decide_eq_true fun hdot => h (hdot ▸ List.mem_reverse.mp ha)
  rw [extension?, if_pos (List.mem_append_right _ List.mem_cons_self), List.reverse_append,
    List.reverse_cons, List.append_assoc, List.takeWhile_append_of_pos hall]
  simp

/-- What stands behind the last full stop. -/
theorem extension?_eq_some_iff {name ext : List Char} :
    extension? name = some ext ↔ '.' ∉ ext ∧ ∃ stem, name = stem ++ '.' :: ext := by
  constructor
  · intro h
    have hdot : '.' ∈ name := by
      by_contra hdot
      rw [extension?, if_neg hdot] at h
      cases h
    obtain ⟨after, before, hname, hafter⟩ :=
      List.eq_append_cons_of_mem (List.mem_reverse.mpr hdot)
    have hsplit : name = before.reverse ++ '.' :: after.reverse := by
      rw [← List.reverse_reverse name, hname]
      simp
    have hdot' : '.' ∉ after.reverse := fun h => hafter (List.mem_reverse.mp h)
    rw [hsplit, extension?_append hdot', Option.some.injEq] at h
    exact h ▸ ⟨hdot', before.reverse, hsplit⟩
  · rintro ⟨hdot, stem, rfl⟩
    exact extension?_append hdot stem

/-- No extension that is taken has a full stop in it, in any case. -/
theorem dot_notMem_of_taken {ext : List Char} (h : ext.map Char.toLower ∈ extensions) :
    '.' ∉ ext := by
  intro hdot
  have hlower : '.' ∈ ext.map Char.toLower := List.mem_map.mpr ⟨'.', hdot, rfl⟩
  have hnone : ∀ e ∈ extensions, '.' ∉ e := by decide
  exact hnone _ h hlower

/-- **The names that are taken.** -/
theorem isSupported_iff {name : String} : isSupported name = true ↔ HasTakenExtension name := by
  constructor
  · intro h
    rw [isSupported] at h
    split at h
    · next ext hext =>
      obtain ⟨-, stem, hname⟩ := extension?_eq_some_iff.mp hext
      exact ⟨stem, ext, hname, List.contains_iff_mem.mp h⟩
    · exact nomatch h
  · rintro ⟨stem, ext, hname, hext⟩
    rw [isSupported, hname, extension?_append (dot_notMem_of_taken hext)]
    exact List.contains_iff_mem.mpr hext

/-! ## Lines of bytes -/

theorem utf8EncodeChar_feed : String.utf8EncodeChar '\n' = [10] := by decide

theorem utf8EncodeChar_return : String.utf8EncodeChar '\r' = [13] := by decide

/-- Bytes on one line decode to a text on one line. -/
theorem onOneLine_decode {l : List UInt8} (h : OnOneLine 10 13 l) :
    OnOneLine '\n' '\r' (Text.decode l) := by
  have hrule := Text.replaced_decode l
  refine ⟨fun hfeed => h.1 ?_, fun hreturn => h.2 ?_⟩
  · have hinfix := hrule.infix_of_mem hfeed (by decide)
    rw [utf8EncodeChar_feed] at hinfix
    exact hinfix.subset List.mem_cons_self
  · have hinfix := hrule.infix_of_mem hreturn (by decide)
    rw [utf8EncodeChar_return] at hinfix
    exact hinfix.subset List.mem_cons_self

/-- A line feed at the front of a text was there before. -/
theorem head?_of_head?_decode {r : List UInt8} (h : (Text.decode r).head? = some '\n') :
    r.head? = some 10 := by
  have hprefix := (Text.replaced_decode r).prefix_of_head? h (by decide)
  rw [utf8EncodeChar_feed] at hprefix
  obtain ⟨r', rfl⟩ := hprefix
  rfl

/-- **A terminator decodes to a terminator,** and each side of it to what it would alone. -/
theorem exists_terminator_decode {t : List UInt8} (ht : Terminator 10 13 t) :
    ∃ u, Terminator '\n' '\r' u ∧ (u = ['\r'] → t = [13]) ∧
      ∀ l r, Text.decode (l ++ t ++ r) = Text.decode l ++ u ++ Text.decode r := by
  cases ht with
  | feed =>
    refine ⟨['\n'], .feed, fun h => absurd h (by decide), fun l r => ?_⟩
    rw [List.append_assoc, List.append_assoc]
    exact Text.decode_append_cons (by decide) l r
  | carriageReturn =>
    refine ⟨['\r'], .carriageReturn, fun _ => rfl, fun l r => ?_⟩
    rw [List.append_assoc, List.append_assoc]
    exact Text.decode_append_cons (by decide) l r
  | both =>
    refine ⟨['\r', '\n'], .both, fun h => absurd h (by decide), fun l r => ?_⟩
    have hfeed : Text.decode (10 :: r) = '\n' :: Text.decode r :=
      Text.decode_cons_ascii (by decide) r
    rw [List.append_assoc, List.append_assoc]
    show Text.decode (l ++ 13 :: 10 :: r) = Text.decode l ++ '\r' :: '\n' :: Text.decode r
    rw [Text.decode_append_cons (by decide), hfeed]
    rfl

/-- **Lines of bytes decode to lines of the text.** -/
theorem Divides.decoded {ls : List (List UInt8)} {bs : List UInt8} (h : Divides 10 13 ls bs) :
    Divides '\n' '\r' (ls.map Text.decode) (Text.decode bs) := by
  induction h with
  | nil => exact .nil
  | last hl hnil => exact .last (onOneLine_decode hl) (Text.decode_ne_nil hnil)
  | line hl ht hr _ ih =>
    obtain ⟨u, hu, hreturn, hdecode⟩ := exists_terminator_decode ht
    rw [hdecode, List.map_cons]
    exact .line (onOneLine_decode hl) hu
      (fun h hhead => hr (hreturn h) (head?_of_head?_decode hhead)) ih

/-- **Decoding and dividing commute.** -/
theorem linesOf_ofBytes (bs : List UInt8) :
    linesOf (Text.ofBytes bs) = (splitLines 10 13 bs).map Text.ofBytes := by
  have hlines := (divides_splitLines (by decide) bs).decoded
  rw [divides_iff feed_ne_return] at hlines
  rw [linesOf, Text.ofBytes, String.toList_ofList, charLines, ← hlines, List.map_map]
  rfl

/-! ## Files -/

/-- A name that is not taken is refused whatever the tree has, and whatever the text. -/
theorem read_eq_unsupported_iff {t : FileTree} {path m : String} :
    read t path = .error (.unsupportedExtension m) ↔
      m = nameOf path ∧ ¬ HasTakenExtension (nameOf path) := by
  rw [← isSupported_iff, read]
  by_cases h : isSupported (nameOf path) = true
  · rw [dif_pos h]
    cases t.read path <;> simp [h]
  · rw [dif_neg h]
    simp [h, eq_comm]

theorem ofText_eq_unsupported_iff {name text m : String} :
    ofText name text = .error (.unsupportedExtension m) ↔ m = name ∧ ¬ HasTakenExtension name := by
  rw [← isSupported_iff, ofText]
  by_cases h : isSupported name = true
  · rw [dif_pos h]
    simp [h]
  · rw [dif_neg h]
    simp [h, eq_comm]

theorem read_of_ok {t : FileTree} {path : String} {bytes : List UInt8}
    (h : t.read path = .ok bytes) : read t path = ofText (nameOf path) (Text.ofBytes bytes) := by
  rw [read, ofText, h]

theorem read_of_error {t : FileTree} {path : String} {fault : IoFault}
    (h : t.read path = .error fault) (hname : HasTakenExtension (nameOf path)) :
    read t path = .error (.unreadable fault path) := by
  rw [read, dif_pos (isSupported_iff.mpr hname), h]

/-- **What is refused, and what is read.**  A file is refused for its name exactly when a text would
be under this name, whatever the tree has at the path: when the name does not end with an extension
that is taken.  Otherwise it is read as the text that its bytes decode to.  The rule of replacement
gives this text and no other, and changes nothing in bytes that are valid.  No line is moved by it:
the lines of the text are what the lines of the bytes decode to, and so is a line by its number. -/
theorem read_as_decoded (t : FileTree) (path : String) :
    (∀ m, read t path = .error (.unsupportedExtension m) ↔
        m = nameOf path ∧ ¬ HasTakenExtension (nameOf path)) ∧
      (∀ text m, ofText (nameOf path) text = .error (.unsupportedExtension m) ↔
        m = nameOf path ∧ ¬ HasTakenExtension (nameOf path)) ∧
      (∀ fault, t.read path = .error fault → HasTakenExtension (nameOf path) →
        read t path = .error (.unreadable fault path)) ∧
      ∀ bytes, t.read path = .ok bytes →
        read t path = ofText (nameOf path) (Text.ofBytes bytes) ∧
        (∀ cs, Text.Replaced bytes cs ↔ cs = (Text.ofBytes bytes).toList) ∧
        (bytes.toByteArray.IsValidUTF8 ↔ Text.bytesOf (Text.ofBytes bytes) = bytes) ∧
        linesOf (Text.ofBytes bytes) = (splitLines 10 13 bytes).map Text.ofBytes ∧
        ∀ s, read t path = .ok s → s.name = nameOf path ∧ s.text = Text.ofBytes bytes ∧
          ∀ k : UInt32, k ≠ 0 →
            s.line? (some k) = (splitLines 10 13 bytes)[k.toNat - 1]?.map Text.ofBytes := by
  refine ⟨fun m => read_eq_unsupported_iff, fun text m => ofText_eq_unsupported_iff,
    fun fault h hname => read_of_error h hname, fun bytes h => ⟨read_of_ok h, fun cs => ?_,
      Text.isValidUTF8_iff, linesOf_ofBytes bytes, fun s hs => ?_⟩⟩
  · rw [Text.replaced_iff, Text.ofBytes, String.toList_ofList]
  · rw [read_of_ok h, ofText] at hs
    split at hs
    · obtain rfl := Except.ok.inj hs
      refine ⟨rfl, rfl, fun k hk => ?_⟩
      rw [line?, ← List.getElem?_map, ← linesOf_ofBytes]
      simp [lineAt?, hk]
    · cases hs

/-- A character that a line feed breaks off, and a byte that begins none: the lines stay apart. -/
theorem read_broken_off :
    read ⟨[(["m.st"], .file [0xe2, 0x82, 0x0a, 0xff, 0x42] false)], []⟩ "m.st" =
        ofText "m.st" "\ufffd\n\ufffdB" ∧
      linesOf (Text.ofBytes [0xe2, 0x82, 0x0a, 0xff, 0x42]) = ["\ufffd", "\ufffdB"] := by
  have hread : FileTree.read ⟨[(["m.st"], .file [0xe2, 0x82, 0x0a, 0xff, 0x42] false)], []⟩ "m.st" =
      .ok [0xe2, 0x82, 0x0a, 0xff, 0x42] := by decide
  obtain ⟨hdecoded, -, -, hlines, -⟩ := (read_as_decoded _ "m.st").2.2.2 _ hread
  exact ⟨hdecoded, hlines⟩

end PlcAudit.Source
