import DocRefs.Proofs.Completion.Usable
import DocRefs.Proofs.Text.Positions

/-!
# Completion at any column

A request for completions names a line and a column by whole numbers, which may lie outside the text. A column behind
the end of a line is the end of the line (`takeSigned_of_nonneg`), and what is suggested takes the place of the part of
a name that is typed before it (`Candidate.replacesName_of_mem`). A negative column counts back from the end of the line
instead, so that a request with one acts at the cursor only where no path is open so many characters before the end
(`Workspace.complete_acts_at_cursor`).
-/

namespace DocRefs

/-! ## The text before a column -/

/-- The text before a column that is not negative is that before the column brought into the line. -/
theorem takeSigned_of_nonneg {column : Int} (h : 0 ≤ column) (text : List Char) :
    takeSigned column text = text.take (clampOffset text.length column) := by
  rw [takeSigned, if_neg (Int.not_lt.2 h), clampOffset, ← List.take_eq_take_min]

/-- The text before a negative column leaves so many characters off the end. -/
theorem takeSigned_of_neg {column : Int} (h : column < 0) (text : List Char) :
    takeSigned column text = takeSigned ((text.length - column.natAbs : Nat) : Int) text := by
  rw [takeSigned_natCast, takeSigned, if_pos h]

/-- The text before any column is a beginning of the line. -/
theorem takeSigned_prefix (column : Int) (text : List Char) : takeSigned column text <+: text := by
  unfold takeSigned
  split <;> exact List.take_prefix _ _

/-- Nothing stands before a negative column that is brought into the line. -/
theorem clampOffset_of_neg {length : Nat} {offset : Int} (h : offset < 0) : clampOffset length offset = 0 := by
  unfold clampOffset
  omega

/-- A line with some text is there. -/
theorem line_mem_range_of_lineText_ne_nil {text : List Char} {n : Int} (h : lineText text n ≠ []) :
    0 ≤ n ∧ n < (splitLines text).length := by
  unfold lineText at h
  split at h
  · exact absurd rfl h
  · rename_i hnonneg
    have hin : n.toNat < (splitLines text).length := by
      by_contra hout
      rw [List.getElem?_eq_none (Nat.not_lt.1 hout)] at h
      exact h rfl
    omega

/-! ## The range of a suggestion -/

namespace Candidate

/-- A suggestion whose range lies on a line, ends at a column and selects a name there. -/
structure ReplacesName (c : Candidate) (n : Int) (line : List Char) (column : Nat) (name : List Char) : Prop where
  start_line : c.replace.start.line = n
  stop : c.replace.stop = ⟨n, column⟩
  ordered : 0 ≤ c.replace.start.character ∧ c.replace.start.character ≤ column
  inside : column ≤ line.length
  selects : stretch line c.replace.start.character.toNat column = name

/-- What is suggested behind a typed path takes the place of the part of a name in it. -/
theorem replacesName_of_mem {n : Int} {line before typed : List Char} {entries : List DirectoryEntry} {c : Candidate}
    (hline : before ++ typed <+: line) (hc : c ∈ ofEntries n (before ++ typed).length (.ofChars typed) entries) :
    c.ReplacesName n line (before ++ typed).length (Path.nameChars typed) := by
  have hplace := replace_of_mem hc
  have hname : Path.nameChars typed = (TypedPath.ofChars typed).partialName := rfl
  obtain ⟨hsplit, -, -⟩ := TypedPath.ofChars_spec typed
  rw [hname]
  generalize TypedPath.ofChars typed = t at hsplit hplace
  obtain ⟨behind, rfl⟩ := hline
  have hselects : stretch (before ++ typed ++ behind) (before ++ t.directory).length
      (before ++ typed).length = t.partialName := by
    have hlength : (before ++ typed).length - (before ++ t.directory).length = t.partialName.length := by
      rw [hsplit]
      simp only [List.length_append]
      omega
    rw [stretch, hlength, hsplit, ← List.append_assoc, List.append_assoc (before ++ t.directory),
      List.drop_left, List.take_left]
  refine ⟨by rw [hplace], by rw [hplace], ?_, by simp, ?_⟩
  · rw [hplace, hsplit]
    simp only [List.length_append]
    omega
  · rw [hplace]
    exact hselects

end Candidate

namespace Workspace

variable {σ : Type} [FileSystem σ]

/-- A request for completions that acts at the cursor: it is answered as at the column brought into the line, and
whatever is suggested takes the place of what is typed of a name before that column. -/
structure ActsAtCursor (w : Workspace σ) (d : Document) (position : Position) : Prop where
  clamped : ∀ cancel, w.complete d position cancel =
    w.complete d ⟨position.line, clampOffset (d.lineText position.line).length position.character⟩ cancel
  replaces : ∀ cancel a candidates, w.complete d position cancel = .ok a → a.value = some candidates →
    (0 ≤ position.line ∧ position.line < (splitLines d.text.toList).length) ∧
    ∃ typed,
      OpenPath.ofLine? ((d.lineText position.line).take
        (clampOffset (d.lineText position.line).length position.character)) = some typed ∧
      ∀ c ∈ candidates, c.ReplacesName position.line (d.lineText position.line)
        (clampOffset (d.lineText position.line).length position.character) (Path.nameChars typed)

variable {w : Workspace σ} {d : Document} {position : Position} {cancel : Cancellation}

/-- A request depends on its column by the text before it alone. -/
theorem complete_congr {column : Int}
    (h : takeSigned column (d.lineText position.line) = takeSigned position.character (d.lineText position.line)) :
    w.complete d ⟨position.line, column⟩ cancel = w.complete d position cancel := by
  unfold complete
  simp only [h]

/-- Where no path is open before a column, a request for completions is answered with nothing, if the root can be made
out. -/
theorem complete_of_closed
    (hclosed : OpenPath.ofLine? (takeSigned position.character (d.lineText position.line)) = none) :
    w.complete d position cancel = (do let _ ← w.rootOverride.mapError RequestError.noHome; return ⟨none, w, []⟩) := by
  unfold complete
  simp only [completePath_of_closed hclosed]

/-- Where a path is open, a request that is not called off is answered with suggestions, if the root can be made out. -/
theorem exists_candidates_of_open {typed : List Char} {override : Option String} (hroot : w.rootOverride = .ok override)
    (hopen : OpenPath.ofLine? (takeSigned position.character (d.lineText position.line)) = some typed) :
    ∃ a candidates, w.complete d position .never = .ok a ∧ a.value = some candidates := by
  refine ⟨w.completePath (takeSigned position.character (d.lineText position.line)) position.line
    d.dirname override .never, _, ?_, completePath_of_open hopen⟩
  rw [complete, hroot]
  rfl

/-- Whatever is suggested takes the place of what is typed of a name at the end of the text before the column. -/
theorem replacesName_of_complete {a : Answer σ (Option (List Candidate))} {candidates : List Candidate}
    (h : w.complete d position cancel = .ok a) (hvalue : a.value = some candidates) :
    (0 ≤ position.line ∧ position.line < (splitLines d.text.toList).length) ∧
    ∃ typed, OpenPath.ofLine? (takeSigned position.character (d.lineText position.line)) = some typed ∧
      ∀ c ∈ candidates, c.ReplacesName position.line (d.lineText position.line)
        (takeSigned position.character (d.lineText position.line)).length (Path.nameChars typed) := by
  obtain ⟨override, -, hanswer⟩ := bind_eq_ok_iff.1 h
  obtain rfl := Except.ok.inj hanswer
  obtain ⟨typed, hopen, rfl⟩ := exists_typed_of_completePath hvalue
  obtain ⟨o, -, -, before, hline⟩ := OpenPath.ofLine?_eq_some_iff.1 hopen
  have hfront := takeSigned_prefix position.character (d.lineText position.line)
  rw [← List.append_assoc] at hline
  rw [hline] at hfront ⊢
  refine ⟨line_mem_range_of_lineText_ne_nil fun hnone => ?_, typed, hline ▸ hopen,
    fun c hc => Candidate.replacesName_of_mem hfront hc⟩
  rw [Document.lineText, hnone, List.prefix_nil, o.text_eq_cons] at hfront
  simp at hfront

/-- A request with a negative column is answered as at so many characters before the end of the line. -/
theorem complete_of_neg (h : position.character < 0) :
    w.complete d position cancel =
      w.complete d ⟨position.line, ((d.lineText position.line).length - position.character.natAbs : Nat)⟩ cancel :=
  (complete_congr (takeSigned_of_neg h _).symm).symm

/-- Nothing is answered where the root that is set cannot be made out. -/
theorem complete_of_rootOverride_error {e : FilePath.NoHome} (h : w.rootOverride = .error e) :
    w.complete d position cancel = .error (.noHome e) := by
  rw [complete, h]
  rfl

/-- A request whose column is not negative acts at the cursor. -/
theorem actsAtCursor_of_nonneg (h : 0 ≤ position.character) : w.ActsAtCursor d position := by
  have hfront := takeSigned_of_nonneg h (d.lineText position.line)
  refine ⟨fun cancel => (complete_congr ?_).symm, fun cancel a candidates ha hvalue => ?_⟩
  · rw [hfront, takeSigned_natCast]
  · have hreplaces := replacesName_of_complete ha hvalue
    have hlength :
        ((d.lineText position.line).take (clampOffset (d.lineText position.line).length position.character)).length =
        clampOffset (d.lineText position.line).length position.character := by
      rw [List.length_take, clampOffset]
      omega
    rwa [hfront, hlength] at hreplaces

/-- So does one with a negative column where no path is open so many characters before the end of the line: nothing is
open at its beginning either. -/
theorem actsAtCursor_of_closed (hneg : position.character < 0)
    (hclosed : OpenPath.ofLine? (takeSigned position.character (d.lineText position.line)) = none) :
    w.ActsAtCursor d position := by
  refine ⟨fun cancel => ?_, fun cancel a candidates ha hvalue => ?_⟩
  · have hbeginning : OpenPath.ofLine?
        (takeSigned (clampOffset (d.lineText position.line).length position.character : Nat)
          (d.lineText position.line)) = none := by
      rw [clampOffset_of_neg hneg]
      rfl
    rw [complete_of_closed hclosed, complete_of_closed hbeginning]
  · obtain ⟨-, typed, hopen, -⟩ := replacesName_of_complete ha hvalue
    rw [hclosed] at hopen
    cases hopen

/-- So does every request that is refused. -/
theorem actsAtCursor_of_rootOverride_error {e : FilePath.NoHome} (h : w.rootOverride = .error e) :
    w.ActsAtCursor d position := by
  refine ⟨fun cancel => ?_, fun cancel a candidates ha _ => ?_⟩
  · rw [complete_of_rootOverride_error h, complete_of_rootOverride_error h]
  · rw [complete_of_rootOverride_error h] at ha
    cases ha

/-- A request for completions acts at the cursor that it is given unless its column is negative, and a path is open so
many characters before the end of the line, where it acts instead. -/
theorem complete_acts_at_cursor (w : Workspace σ) (d : Document) (position : Position) :
    (ActsAtCursor w d position ↔
      0 ≤ position.character ∨ OpenPath.ofLine? (takeSigned position.character (d.lineText position.line)) = none ∨
        ∃ e, w.rootOverride = .error e) ∧
    (position.character < 0 → ∀ cancel, w.complete d position cancel =
      w.complete d ⟨position.line, ((d.lineText position.line).length - position.character.natAbs : Nat)⟩ cancel) := by
  refine ⟨⟨fun hacts => ?_, fun hcases => ?_⟩, fun hneg cancel => complete_of_neg hneg⟩
  · by_contra hnone
    simp only [not_or, not_le, not_exists] at hnone
    obtain ⟨hneg, hopen, hroot⟩ := hnone
    obtain ⟨typed, htyped⟩ := Option.ne_none_iff_exists'.1 hopen
    cases hoverride : w.rootOverride with
    | error e => exact hroot e hoverride
    | ok override =>
      -- Something is suggested where the request acts, but nothing is open at the beginning of a line.
      obtain ⟨a, candidates, ha, hvalue⟩ := exists_candidates_of_open hoverride htyped
      obtain ⟨-, typed', hopen', -⟩ := hacts.replaces .never a candidates ha hvalue
      rw [clampOffset_of_neg hneg, List.take_zero] at hopen'
      cases hopen'
  · rcases lt_or_ge position.character 0 with hneg | hnonneg
    · rcases hcases with hnonneg | hclosed | ⟨e, he⟩
      · omega
      · exact actsAtCursor_of_closed hneg hclosed
      · exact actsAtCursor_of_rootOverride_error he
    · exact actsAtCursor_of_nonneg hnonneg

/-- The column one before the beginning of a line is taken for the one before its end: names are suggested for the `a`
there, where nothing is typed before the cursor. -/
theorem complete_before_line_start :
    let w := Workspace.new ((Tree.empty.addFile "/d/a").addFile "/d/ab") {} { rootDir := some (.ofString "/d") }
    let d : Document := ⟨"/d/p.md", "\x7b* ab"⟩
    ¬ w.ActsAtCursor d ⟨0, -1⟩ ∧ clampOffset (d.lineText 0).length (-1) = 0 ∧
      (∃ a, w.complete d ⟨0, 0⟩ .never = .ok a ∧ a.value = none) ∧
      ∃ a, w.complete d ⟨0, -1⟩ .never = .ok a ∧ a.value = some
        [⟨"a", "a", false, ⟨⟨0, 3⟩, ⟨0, 4⟩⟩, "File: a", false⟩,
            ⟨"ab", "ab", false, ⟨⟨0, 3⟩, ⟨0, 4⟩⟩, "File: ab", false⟩] := by
  intro w d
  have hzero : clampOffset (d.lineText 0).length (-1) = 0 := clampOffset_of_neg (by decide)
  have hfront : takeSigned (-1) (d.lineText 0) = "\x7b* a".toList := by cbv
  have hopen : OpenPath.ofLine? "\x7b* a".toList = some ['a'] := by cbv
  have hentries : w.fs.entriesAt ((TypedPath.ofChars ['a']).searchDir "/d") = [⟨"a", false⟩, ⟨"ab", false⟩] := by cbv
  obtain ⟨-, hbeginning⟩ := complete_rooted ((Tree.empty.addFile "/d/a").addFile "/d/ab") d ⟨0, 0⟩
  obtain ⟨-, hbefore⟩ := complete_rooted ((Tree.empty.addFile "/d/a").addFile "/d/ab") d ⟨0, -1⟩
  have hvalue : (w.completePath "\x7b* a".toList 0 d.dirname (some "/d") .never).value =
      some (Candidate.ofEntries 0 4 (.ofChars ['a'])
        (w.fs.entriesAt ((TypedPath.ofChars ['a']).searchDir "/d"))) :=
    completePath_value (Listings.current_empty _ _) hopen
  rw [hentries] at hvalue
  rw [hfront] at hbefore
  refine ⟨fun hacts => ?_, hzero, ⟨_, hbeginning, rfl⟩, _, hbefore, hvalue.trans (by cbv)⟩
  obtain ⟨-, typed, hopen', -⟩ := hacts.replaces .never _ _ hbefore hvalue
  rw [hzero] at hopen'
  cases hopen'

end Workspace

end DocRefs
