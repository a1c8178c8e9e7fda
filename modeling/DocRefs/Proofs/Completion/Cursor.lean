import DocRefs.Document
import DocRefs.Proofs.Completion.OpenPath
import DocRefs.Proofs.Text.Lines

/-!
# The cursor within a reference

The line of a cursor, up to the cursor, ends with what stands of a reference before the cursor, unless a line ends in
between. In the first case the brace of the reference is the last one of the line, so that nothing before it counts
(`OpenPath.ofLine?_brace`); in the second there is no brace at all. So a path is open exactly at the offsets from the
first blank of a reference to the end of its path, as far as they are on one line with its brace
(`OpenPath.ofLine?_within_reference`).
-/

namespace DocRefs

namespace OpenPath

variable {line typed : List Char}

/-- Without a brace no path is open. -/
theorem ofLine?_eq_none (h : '{' ∉ line) : ofLine? line = none := by
  rw [ofLine?_eq, behindLastOpener?_eq_none h, Option.bind_none]

/-- A path is open behind the last brace only if that is the brace of an opener; what stands before it does not
matter. -/
theorem ofLine?_brace (before : List Char) {inner : List Char} (h : '{' ∉ inner) :
    ofLine? (before ++ '{' :: inner) = some typed ↔
      ∃ o : Opener, o.WellFormed ∧ (∀ c ∈ typed, isPathChar c = true) ∧ '{' :: inner = o.text ++ typed := by
  have hlast : ∀ {front run : List Char}, '{' ∉ run → lastRun (· != '{') (front ++ '{' :: run) = run := by
    intro front run hrun
    refine lastRun_run front (by simp) fun c hc => ?_
    simp only [bne_iff_ne]
    rintro rfl
    exact hrun hc
  rw [ofLine?_eq_some_iff]
  constructor
  · rintro ⟨o, ho, hpath, front, hfront⟩
    have hrun : '{' ∉ o.text.tail ++ typed := by simp [ho.brace_notMem, brace_notMem_path hpath]
    rw [o.text_eq_cons, List.cons_append] at hfront
    have hinner := congrArg (lastRun (· != '{')) hfront
    rw [hlast h, hlast hrun] at hinner
    exact ⟨o, ho, hpath, by rw [hinner, o.text_eq_cons, List.cons_append]; rfl⟩
  · rintro ⟨o, ho, hpath, hinner⟩
    exact ⟨o, ho, hpath, before, by rw [hinner]⟩

end OpenPath

namespace Form

variable {f : Form} {typed rest text : List Char} {i k : Nat}

/-- A well-formed reference begins with its opener and its path, which are read back. -/
theorem readOpener?_text (hf : f.WellFormed) :
    readOpener? f.text = some ((f.family, f.modifier, f.gap),
      f.path ++ (f.blocks.flatMap Block.text ++ (f.closer ++ []))) := by
  have hgap : EndsRun isBlank (f.path ++ (f.blocks.flatMap Block.text ++ (f.closer ++ []))) :=
    endsRun_append (OpenPath.endsRun_typed hf.path.2) fun hnil => absurd hnil hf.path.1
  have htext := text_append f []
  rw [List.append_nil] at htext
  rw [htext, readOpener?_append hf.modifier hf.gap hgap]

/-- An opener and path characters in front of a reference are its opener or a part of that, and its path or a part of
that. -/
theorem of_text_eq_opener_append (hf : f.WellFormed) {o : Opener} (ho : o.WellFormed)
    (hpath : ∀ c ∈ typed, isPathChar c = true) (h : f.text = o.text ++ (typed ++ rest)) :
    f.modifier = o.modifier ∧
      (typed = [] ∧ o.text.length ≤ f.opener.length ∨ typed <+: f.path ∧ o.text.length = f.opener.length) := by
  -- If nothing of the path is typed, blanks may follow that belong to the opener.
  let whole : Opener := ⟨o.family, o.modifier, o.gap ++ (typed ++ rest).takeWhile isBlank⟩
  have hwhole : whole.WellFormed := by
    refine ⟨ho.modifier, by simp [whole, ho.gap.1], ?_⟩
    intro c hc
    rcases List.mem_append.1 hc with hc | hc
    · exact ho.gap.2 c hc
    · exact of_mem_takeWhile hc
  have hread : readOpener? (whole.text ++ (typed ++ rest).dropWhile isBlank) = _ := hwhole.readOpener? endsRun_dropWhile
  have hsame : whole.text ++ (typed ++ rest).dropWhile isBlank = f.text := by
    simp [h, whole, Opener.text]
  rw [hsame, readOpener?_text hf] at hread
  simp only [Option.some.injEq, Prod.mk.injEq, whole] at hread
  obtain ⟨⟨-, hmodifier, hgap⟩, hrest⟩ := hread
  refine ⟨hmodifier, ?_⟩
  have hlength : f.opener.length = o.text.length + ((typed ++ rest).takeWhile isBlank).length := by
    simp only [opener, Opener.text, hmodifier, hgap, List.length_cons, List.length_append]
    omega
  cases typed with
  | nil => exact .inl ⟨rfl, by omega⟩
  | cons c typed =>
    have hends : EndsRun isBlank (c :: typed ++ rest) :=
      endsRun_append (OpenPath.endsRun_typed hpath) fun hnil => absurd hnil (List.cons_ne_nil c typed)
    rw [takeWhile_eq_nil hends] at hlength
    rw [dropWhile_eq_self hends] at hrest
    have hrun := congrArg (List.takeWhile isPathChar) hrest
    rw [takeWhile_run hf.path.2 (endsRun_path hf []), List.takeWhile_append_of_pos hpath] at hrun
    exact .inr ⟨⟨_, hrun.symm⟩, hlength.symm⟩

/-- What stands of a reference before a cursor is an opener with path characters behind it exactly if a blank was passed
and the path is not left. -/
theorem exists_opener_take_iff (hf : f.WellFormed) (hk : k ≤ f.text.length) :
    (∃ o : Opener, o.WellFormed ∧ (∀ c ∈ typed, isPathChar c = true) ∧ f.text.take k = o.text ++ typed) ↔
      (∃ c ∈ (f.text.take k).drop (2 + f.modifier.toList.length), isBlank c = true) ∧
        k ≤ f.opener.length + f.path.length ∧
        typed = (f.text.take k).drop f.opener.length := by
  constructor
  · rintro ⟨o, ho, hpath, htake⟩
    have htext : f.text = o.text ++ (typed ++ f.text.drop k) := by
      rw [← List.append_assoc, ← htake, List.take_append_drop]
    have hlength : k = o.text.length + typed.length := by
      rw [← List.length_append, ← htake, List.length_take]
      omega
    obtain ⟨hmodifier, hparts⟩ := of_text_eq_opener_append hf ho hpath htext
    refine ⟨?_, ?_, ?_⟩
    · obtain ⟨c, gap, hgap⟩ := List.exists_cons_of_ne_nil ho.gap.1
      refine ⟨c, ?_, ho.gap.2 c (by simp [hgap])⟩
      have hopener : o.text = ('{' :: o.family.mark :: o.modifier.toList) ++ o.gap := rfl
      rw [htake, hmodifier, hopener, List.append_assoc, List.drop_left' (by simp; omega), hgap]
      simp
    · rcases hparts with ⟨rfl, hle⟩ | ⟨htyped, heq⟩
      · simp only [List.length_nil] at hlength
        omega
      · have := htyped.length_le
        omega
    · rcases hparts with ⟨rfl, hle⟩ | ⟨htyped, heq⟩
      · rw [htake, List.append_nil, List.drop_eq_nil_of_le hle]
      · rw [htake, List.drop_left' heq]
  · rintro ⟨⟨c, hc, -⟩, hle, rfl⟩
    have hlong := List.length_pos_of_mem hc
    simp only [List.length_drop, List.length_take] at hlong
    have hopener : f.opener = ('{' :: f.family.mark :: f.modifier.toList) ++ f.gap := rfl
    have htake : f.text.take k = f.opener.take k ++ f.path.take (k - f.opener.length) := by
      rw [text, List.take_append, List.take_append_of_le_length (by omega)]
    have hcut : f.opener.take k = ('{' :: f.family.mark :: f.modifier.toList) ++
        f.gap.take (k - (2 + f.modifier.toList.length)) := by
      rw [hopener, List.take_append, List.take_of_length_le (by simp; omega)]
      congr 2
      simp
      omega
    have htyped : (f.text.take k).drop f.opener.length = f.path.take (k - f.opener.length) := by
      rw [htake]
      rcases Nat.le_total k f.opener.length with hshort | hlong
      · rw [Nat.sub_eq_zero_of_le hshort]
        simp
      · rw [List.take_of_length_le hlong, List.drop_left]
    refine ⟨⟨f.family, f.modifier, f.gap.take (k - (2 + f.modifier.toList.length))⟩, ⟨hf.modifier, ?_, ?_⟩, ?_, ?_⟩
    · simp only [ne_eq, List.take_eq_nil_iff, not_or]
      refine ⟨?_, hf.gap.1⟩
      simp only [Option.toList] at hlong ⊢
      omega
    · exact fun c hc => hf.gap.2 c (List.mem_of_mem_take hc)
    · rw [htyped]
      exact fun c hc => hf.path.2 c (List.mem_of_mem_take hc)
    · rw [htyped, htake, hcut]
      simp [Opener.text]

/-- What stands between two offsets within a form that stands in a text. -/
theorem StandsAt.stretch_eq (h : f.StandsAt text i) {j : Nat} (hk : k ≤ f.text.length) :
    stretch text (i + j) (i + k) = (f.text.take k).drop j := by
  obtain ⟨-, rest, hdrop⟩ := h
  rw [stretch, ← List.drop_drop, hdrop, Nat.add_sub_add_left, ← List.drop_take, List.take_append_of_le_length hk]

/-- A text up to an offset within a form that stands in it. -/
theorem StandsAt.take_eq (h : f.StandsAt text i) (hk : k ≤ f.text.length) :
    text.take (i + k) = text.take i ++ f.text.take k := by
  obtain ⟨-, rest, hdrop⟩ := h
  rw [List.take_add, hdrop, List.take_append_of_le_length hk]

end Form

/-- The form of a reported reference stands where the reference is reported. -/
theorem Reference.exists_standsAt_of_mem_scan {text : String} {refs : List Reference}
    (h : Reference.scan text = .ok refs) {r : Reference} (hr : r ∈ refs) :
    ∃ i f, Form.StandsAt f text.toList i ∧ r.span = ⟨i, i + f.text.length⟩ ∧ r.filePath = String.ofList f.path := by
  obtain ⟨⟨i, f⟩, hmem, href⟩ := Reference.exists_form_of_mem_scan h hr
  obtain ⟨hpath, hspan⟩ := Form.of_toReference href
  exact ⟨i, f, Form.mem_findAll.1 hmem, hspan, hpath⟩

namespace OpenPath

variable {k : Nat} {f : Form}

/-- What stands of a reference before a cursor is its brace and more that holds none. -/
theorem take_text_eq_cons (hf : f.WellFormed) (hpos : 0 < k) : ∃ inner, f.text.take k = '{' :: inner ∧ '{' ∉ inner := by
  obtain ⟨k, rfl⟩ := Nat.exists_eq_add_one_of_ne_zero (Nat.ne_of_gt hpos)
  refine ⟨f.text.tail.take k, ?_, fun hc => Form.ne_brace_of_mem_tail hf _ (List.mem_of_mem_take hc) rfl⟩
  rw [f.text_eq_cons, List.take_succ_cons]
  rfl

/-- A path is open up to a cursor within a reference exactly if no line ends in between, a blank was passed and the path
is not left. It is the part of the reference's path that stands before the cursor. -/
theorem ofLine?_lastRun (before typed : List Char) (hf : f.WellFormed) (hpos : 0 < k) (hk : k ≤ f.text.length) :
    ofLine? (lastRun isInLine (before ++ f.text.take k)) = some typed ↔
      ((∀ c ∈ f.text.take k, isInLine c = true) ∧
        (∃ c ∈ (f.text.take k).drop (2 + f.modifier.toList.length), isBlank c = true) ∧
        k ≤ f.opener.length + f.path.length) ∧
      typed = (f.text.take k).drop f.opener.length := by
  obtain ⟨inner, htake, hinner⟩ := take_text_eq_cons hf hpos
  by_cases hline : ∀ c ∈ f.text.take k, isInLine c = true
  · rw [lastRun_append before hline, and_iff_right hline, and_assoc, ← Form.exists_opener_take_iff hf hk,
      htake, ofLine?_brace _ hinner]
  · -- The line begins behind the brace of the reference.
    obtain ⟨c, hc, hend⟩ : ∃ c ∈ f.text.take k, isInLine c = false := by simpa using hline
    have hbehind : c ∈ inner := by
      rw [htake] at hc
      rcases List.mem_cons.1 hc with rfl | hc
      · simp [isInLine] at hend
      · exact hc
    obtain ⟨front, later, rfl⟩ := List.append_of_mem hbehind
    have hlater : '{' ∉ lastRun isInLine later := fun h => hinner (by simp [mem_of_mem_lastRun h])
    have hnone : ofLine? (lastRun isInLine (before ++ f.text.take k)) = none := by
      rw [htake, ← List.cons_append, ← List.append_assoc, lastRun_append_cons _ hend, ofLine?_eq_none hlater]
    refine iff_of_false ?_ fun hopen => hline hopen.1.1
    rw [hnone]
    exact Option.some_ne_none typed ∘ Eq.symm

end OpenPath

/-- At every offset within a reported reference behind its brace, a path is open up to there on the line exactly if no
line ends between the brace and the offset, a blank was passed behind the opening mark and its modifier, and the path of
the reference does not end before the offset. It is then the part of that path before the offset, whatever stands on the
line before the reference. -/
theorem Reference.openPath_within {d : Document} {refs : List Reference}
    (h : Reference.scan d.text = .ok refs) {r : Reference} (hr : r ∈ refs) :
    ∃ start f, Form.StandsAt f d.text.toList start ∧ r.span = ⟨start, start + f.text.length⟩ ∧
      r.filePath = String.ofList f.path ∧
      ∀ offset, start < offset → offset ≤ start + f.text.length →
        let position := positionAt d.text.toList offset
        let opened := OpenPath.ofLine? (takeSigned position.character (d.lineText position.line))
        (opened.isSome ↔ (∀ c ∈ stretch d.text.toList start offset, c ≠ '\r' ∧ c ≠ '\n') ∧
          (∃ c ∈ stretch d.text.toList (start + (2 + f.modifier.toList.length)) offset, isBlank c) ∧
            offset ≤ f.pathStop start) ∧
        ∀ typed, opened = some typed → typed = stretch d.text.toList (f.pathStart start) offset := by
  obtain ⟨i, f, hstands, hspan, hpath⟩ := Reference.exists_standsAt_of_mem_scan h hr
  refine ⟨i, f, hstands, hspan, hpath, ?_⟩
  intro offset hstart hstop
  obtain ⟨k, rfl⟩ := Nat.exists_eq_add_of_le (Nat.le_of_lt hstart)
  have hk : k ≤ f.text.length := by omega
  have hlength : i + f.text.length ≤ d.text.toList.length := by
    obtain ⟨hf, rest, hdrop⟩ := hstands
    have := congrArg List.length hdrop
    rw [List.length_drop, List.length_append] at this
    omega
  have hcut : takeSigned (positionAt d.text.toList (i + k : Nat)).character
    (d.lineText (positionAt d.text.toList (i + k : Nat)).line) =
      lastRun isInLine (d.text.toList.take i ++ f.text.take k) := by
    rw [Document.lineText, takeSigned_lineText d.text.toList (by omega), hstands.take_eq hk]
  have hopened := fun typed => OpenPath.ofLine?_lastRun (d.text.toList.take i) typed hstands.1 (by omega) hk
  have hline : (∀ c ∈ stretch d.text.toList i (i + k), c ≠ '\r' ∧ c ≠ '\n') ↔
      ∀ c ∈ f.text.take k, isInLine c = true := by
    have hwhole : stretch d.text.toList (i + 0) (i + k) = (f.text.take k).drop 0 := hstands.stretch_eq hk
    rw [Nat.add_zero, List.drop_zero] at hwhole
    simp only [hwhole, isInLine, Bool.and_eq_true, bne_iff_ne]
  have hpath : i + k ≤ f.pathStop i ↔ k ≤ f.opener.length + f.path.length := by
    rw [Form.pathStop, Form.pathStart, Nat.add_assoc, Nat.add_le_add_iff_left]
  dsimp only
  rw [hcut]
  refine ⟨?_, ?_⟩
  · rw [hline, hpath, hstands.stretch_eq hk, Option.isSome_iff_exists]
    constructor
    · rintro ⟨typed, hsome⟩
      exact ((hopened typed).1 hsome).1
    · intro hopen
      exact ⟨_, (hopened _).2 ⟨hopen, rfl⟩⟩
  · intro typed hsome
    rw [((hopened typed).1 hsome).2, Form.pathStart, hstands.stretch_eq hk]

/-- A reference behind an unclosed opener of the same line. It goes on on the next line, and the cursor is in the middle
of its path. -/
theorem Reference.openPath_within_unclosed :
    let text := "\x7b* x \x7b!> a/b [1]\r\n!\x7d"
    let position := positionAt text.toList 11
    Reference.scan text = .ok [⟨"a/b", none, none, ⟨5, 20⟩⟩] ∧
      OpenPath.ofLine? (takeSigned position.character (lineText text.toList position.line)) = some ['a', '/'] ∧
      ∃ f, Form.StandsAt f text.toList 5 ∧ stretch text.toList (f.pathStart 5) 11 = ['a', '/'] ∧ 11 ≤ f.pathStop 5 := by
  have hscan : Reference.scan "\x7b* x \x7b!> a/b [1]\r\n!\x7d" = .ok [⟨"a/b", none, none, ⟨5, 20⟩⟩] := by cbv
  have hopened : OpenPath.ofLine?
      (takeSigned (positionAt "\x7b* x \x7b!> a/b [1]\r\n!\x7d".toList 11).character
        (lineText "\x7b* x \x7b!> a/b [1]\r\n!\x7d".toList
          (positionAt "\x7b* x \x7b!> a/b [1]\r\n!\x7d".toList 11).line)) = some ['a', '/'] := by cbv
  obtain ⟨start, f, hstands, hspan, -, hcursor⟩ :=
    Reference.openPath_within (d := ⟨"/a.md", _⟩) hscan List.mem_cons_self
  obtain ⟨hstart, hstop⟩ := Span.mk.inj hspan
  obtain rfl : start = 5 := by omega
  obtain ⟨hiff, htyped⟩ := hcursor 11 (by omega) (by omega)
  exact ⟨hscan, hopened, f, hstands, (htyped _ hopened).symm, (hiff.1 (Option.isSome_of_eq_some hopened)).2.2⟩

end DocRefs
