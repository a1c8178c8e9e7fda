import DocRefs.Completion.OpenPath
import DocRefs.Proofs.Reference.Occurrences

/-!
# The open path of a line

A path is open at the end of a line when an opener stands in the line with nothing but path characters behind it
(`OpenPath.ofLine?_eq_some_iff`). That opener is then the last one, because the brace that it begins with stands nowhere
behind it. The lines with an open path are those in which the scanner would find a reference if the right text followed,
with the end of the line in its path (`OpenPath.ofLine?_agrees`).
-/

namespace DocRefs

/-- What stands before the path of a reference: the opening mark of a family, perhaps a modifier, and blanks. -/
structure Opener where
  family : Family
  modifier : Option Char
  gap : List Char
deriving Repr, DecidableEq

namespace Opener

/-- An opener as it is written. -/
def text (o : Opener) : List Char :=
  '{' :: o.family.mark :: (o.modifier.toList ++ o.gap)

/-- Which characters the parts of an opener may hold. -/
structure WellFormed (o : Opener) : Prop where
  modifier : ∀ c ∈ o.modifier, isModifier c
  gap : IsGap o.gap

/-- The reference that an opener begins, with a path and blanks at its end. -/
def form (o : Opener) (path tail : List Char) : Form :=
  ⟨o.family, o.modifier, o.gap, path, [], tail⟩

variable {o : Opener} {rest path : List Char}

theorem text_eq_cons (o : Opener) : o.text = '{' :: o.text.tail := rfl

/-- An opener is read back in front of a character that is no blank. -/
theorem WellFormed.readOpener? (h : o.WellFormed) (hrest : EndsRun isBlank rest) :
    Form.readOpener? (o.text ++ rest) = some ((o.family, o.modifier, o.gap), rest) :=
  Form.readOpener?_append h.modifier h.gap hrest

/-- What is read as an opener is a well-formed one. -/
theorem exists_of_readOpener? {text : List Char} {parts : Family × Option Char × List Char}
    (h : Form.readOpener? text = some (parts, rest)) : ∃ o : Opener, o.WellFormed ∧ text = o.text ++ rest := by
  obtain ⟨family, modifier, gap⟩ := parts
  obtain ⟨hmodifier, hgap, -, htext⟩ := Form.eq_of_readOpener? h
  exact ⟨⟨family, modifier, gap⟩, ⟨hmodifier, hgap⟩, htext⟩

/-- The brace of an opener stands only at its beginning. -/
theorem WellFormed.brace_notMem (h : o.WellFormed) : '{' ∉ o.text.tail := by
  have hmark : '{' ≠ o.family.mark := by cases o.family <;> decide
  have hmodifier : '{' ∉ o.modifier.toList := fun hc => absurd (h.modifier _ (by simpa using hc)) (by decide)
  have hgap : '{' ∉ o.gap := fun hc => absurd (h.gap.2 _ hc) (by decide)
  simp [text, hmark, hmodifier, hgap]

/-- An opener with a path behind it begins a well-formed reference. -/
theorem WellFormed.form (h : o.WellFormed) (hne : path ≠ []) (hpath : ∀ c ∈ path, isPathChar c) {tail : List Char}
    (htail : ∀ c ∈ tail, isBlank c) : (o.form path tail).WellFormed :=
  ⟨h.modifier, h.gap, ⟨hne, hpath⟩, by simp [Opener.form], htail⟩

/-- A reference is its opener, the path, what is behind the path, and the end. -/
theorem text_form (o : Opener) (path tail : List Char) :
    (o.form path tail).text = o.text ++ (path ++ (tail ++ [o.family.mark, '}'])) := by
  simp [Opener.form, Form.text, Form.opener, Opener.text]

end Opener

namespace Form

/-- A form is written in a text at an offset. -/
def StandsAt (f : Form) (text : List Char) (i : Nat) : Prop :=
  f.WellFormed ∧ ∃ rest, text.drop i = f.text ++ rest

/-- The offset at which the path begins of a form that stands at an offset. -/
def pathStart (f : Form) (i : Nat) : Nat :=
  i + f.opener.length

/-- The offset at which the path ends of a form that stands at an offset. -/
def pathStop (f : Form) (i : Nat) : Nat :=
  f.pathStart i + f.path.length

/-- What a form begins with. -/
def opening (f : Form) : Opener :=
  ⟨f.family, f.modifier, f.gap⟩

/-- Behind the path of a form stands what closes it, perhaps after blocks. -/
theorem text_eq_opening_append (f : Form) : ∃ rest, f.text = f.opening.text ++ (f.path ++ rest) :=
  ⟨_, rfl⟩

/-- The scan finds a form at the end of a text last. -/
theorem getLast?_findAll {before : List Char} {f : Form} (h : f.WellFormed) :
    (findAll (before ++ f.text)).getLast? = some (before.length, f) := by
  have hmem : (before.length, f) ∈ findAll (before ++ f.text) := mem_findAll.2 ⟨h, [], by simp⟩
  obtain ⟨front, later, hsplit⟩ := List.append_of_mem hmem
  have hpairwise := pairwise_findFrom 0 0 (before ++ f.text)
  rw [← findAll, hsplit] at hpairwise
  cases later with
  | nil => rw [hsplit, List.getLast?_append, List.getLast?_singleton, Option.some_or]
  | cons p later =>
    -- Another one would begin behind the end of the text.
    obtain ⟨-, hbehind, -⟩ := List.pairwise_append.1 hpairwise
    have hle := (List.pairwise_cons.1 hbehind).1 p List.mem_cons_self
    obtain ⟨-, rest, hdrop⟩ := mem_findAll.1 (show (p.1, p.2) ∈ findAll (before ++ f.text) by rw [hsplit]; simp)
    rw [List.drop_eq_nil_of_le (by simpa using hle), text_eq_cons] at hdrop
    simp at hdrop

end Form

namespace OpenPath

/-- An opener stands in a line, with path characters only behind it. -/
structure Opens (line : List Char) (o : Opener) (typed : List Char) : Prop where
  opener : o.WellFormed
  path : ∀ c ∈ typed, isPathChar c = true
  stands : ∃ before, line = before ++ (o.text ++ typed)

variable {line typed tail text : List Char} {o : Opener}

/-- No brace is a path character. -/
theorem brace_notMem_path (h : ∀ c ∈ typed, isPathChar c = true) : '{' ∉ typed :=
  fun hc => absurd (h _ hc) (by decide)

/-- Path characters end the blanks of an opener. -/
theorem endsRun_typed (h : ∀ c ∈ typed, isPathChar c = true) : EndsRun isBlank typed :=
  fun c hc => isBlank_of_isPathChar (h c (List.mem_of_mem_head? hc))

/-! ## The last opener -/

/-- An opener begins with a brace. -/
theorem readOpener?_eq_none {c : Char} (h : c ≠ '{') (rest : List Char) : Form.readOpener? (c :: rest) = none := by
  unfold Form.readOpener?
  split
  · rename_i heq
    exact absurd (List.cons.inj heq).1 h
  · rfl

/-- Without a brace there is no opener. -/
theorem behindLastOpener?_eq_none (h : '{' ∉ text) : behindLastOpener? text = none := by
  induction text with
  | nil => rfl
  | cons c text ih =>
    obtain ⟨hc, htext⟩ := not_or.1 (mt List.mem_cons.2 h)
    rw [behindLastOpener?, ih htext]
    simp [readOpener?_eq_none (Ne.symm hc)]

/-- An opener with path characters only behind it is the last one. -/
theorem Opens.behindLastOpener? (h : Opens line o typed) : behindLastOpener? line = some typed := by
  obtain ⟨before, rfl⟩ := h.stands
  induction before with
  | nil =>
    have hlater : OpenPath.behindLastOpener? (o.text.tail ++ typed) = none :=
      behindLastOpener?_eq_none (by simp [h.opener.brace_notMem, brace_notMem_path h.path])
    have hread := h.opener.readOpener? (endsRun_typed h.path)
    rw [o.text_eq_cons, List.cons_append] at hread
    rw [List.nil_append, o.text_eq_cons, List.cons_append, OpenPath.behindLastOpener?, hlater, hread]
    rfl
  | cons c before ih => rw [List.cons_append, OpenPath.behindLastOpener?, ih ⟨h.opener, h.path, before, rfl⟩]

/-- What is behind the last opener stands behind an opener. -/
theorem exists_opener_of_behindLastOpener? (h : behindLastOpener? text = some tail) :
    ∃ o : Opener, o.WellFormed ∧ ∃ before, text = before ++ (o.text ++ tail) := by
  induction text with
  | nil => simp [OpenPath.behindLastOpener?] at h
  | cons c text ih =>
    rw [OpenPath.behindLastOpener?] at h
    split at h
    · rename_i later hlater
      obtain ⟨o, ho, before, htext⟩ := ih (Option.some.inj h ▸ hlater)
      exact ⟨o, ho, c :: before, by rw [List.cons_append, ← htext]⟩
    · obtain ⟨⟨parts, rest⟩, hread, rfl⟩ := Option.map_eq_some_iff.1 h
      obtain ⟨o, ho, htext⟩ := Opener.exists_of_readOpener? hread
      exact ⟨o, ho, [], htext⟩

/-! ## The shortcuts -/

/-- A line with an opener in it mentions one. -/
theorem mentionsOpener_append (before : List Char) (o : Opener) (rest : List Char) :
    mentionsOpener (before ++ (o.text ++ rest)) = true := by
  induction before with
  | nil =>
    obtain ⟨family, modifier, gap⟩ := o
    cases family <;> rfl
  | cons c before ih =>
    rw [List.cons_append]
    unfold mentionsOpener
    split
    · rfl
    · rfl
    · rename_i heq
      rw [← (List.cons.inj heq).2]
      exact ih
    · rename_i heq
      simp at heq

/-- A line that mentions no opener has none. -/
theorem behindLastOpener?_of_not_mentionsOpener (h : mentionsOpener line = false) : behindLastOpener? line = none := by
  cases htail : OpenPath.behindLastOpener? line with
  | none => rfl
  | some tail =>
    obtain ⟨o, -, before, rfl⟩ := exists_opener_of_behindLastOpener? htail
    rw [mentionsOpener_append] at h
    exact Bool.noConfusion h

/-- Where a block begins there is a blank, which is no path character. -/
theorem all_eq_false_of_startsBlock (h : startsBlock tail = true) : tail.all isPathChar = false := by
  simp only [startsBlock, Bool.and_eq_true] at h
  obtain ⟨⟨-, hblank⟩, -⟩ := h
  cases hrest : tail.dropWhile isPathChar with
  | nil => simp [hrest] at hblank
  | cons c rest =>
    have hc : c ∈ tail := (List.dropWhile_suffix isPathChar).subset (hrest ▸ List.mem_cons_self)
    have hpath : isPathChar c = false := isPathChar_of_isBlank (by simpa [hrest] using hblank)
    exact List.all_eq_false.2 ⟨c, hc, by simp [hpath]⟩

/-- The shortcuts change nothing: a path is open if what is behind the last opener is path characters. -/
theorem ofLine?_eq (line : List Char) :
    ofLine? line = (behindLastOpener? line).bind fun tail => if tail.all isPathChar then some tail else none := by
  unfold ofLine?
  cases hmentions : mentionsOpener line with
  | false => simp [behindLastOpener?_of_not_mentionsOpener hmentions]
  | true =>
    cases OpenPath.behindLastOpener? line with
    | none => rfl
    | some tail =>
      cases hblock : startsBlock tail with
      | false => simp only [Bool.not_true, Bool.false_eq_true, ↓reduceIte, Option.bind_some, hblock]
      | true =>
        have hall := all_eq_false_of_startsBlock hblock
        simp only [Bool.not_true, Bool.false_eq_true, ↓reduceIte, Option.bind_some, hblock, hall]

/-- What stands behind each opener that a search from left to right meets, going on behind each one. `skip` characters
belong to an opener already met. -/
def behindOpeners (skip : Nat) : List Char → List (List Char)
  | [] => []
  | c :: rest =>
    match skip with
    | skip + 1 => behindOpeners skip rest
    | 0 =>
      match Form.readOpener? (c :: rest) with
      | none => behindOpeners 0 rest
      | some (_, tail) => tail :: behindOpeners (rest.length - tail.length) rest

/-- No opener begins among the characters that a search passes over, so that it meets the last one. -/
theorem getLast?_behindOpeners {skip : Nat} {text : List Char} (hskip : '{' ∉ text.take skip) :
    (behindOpeners skip text).getLast? = behindLastOpener? text := by
  fun_induction behindOpeners skip text with
  | case1 => rfl
  | case2 c rest skip ih =>
    rw [List.take_succ_cons] at hskip
    obtain ⟨hc, hrest⟩ := not_or.1 (mt List.mem_cons.2 hskip)
    rw [ih hrest, OpenPath.behindLastOpener?, readOpener?_eq_none (Ne.symm hc)]
    cases OpenPath.behindLastOpener? rest <;> rfl
  | case3 c rest hread ih =>
    rw [ih (by simp), OpenPath.behindLastOpener?, hread]
    cases OpenPath.behindLastOpener? rest <;> rfl
  | case4 c rest parts tail hread ih =>
    obtain ⟨o, ho, htext⟩ := Opener.exists_of_readOpener? hread
    rw [o.text_eq_cons, List.cons_append] at htext
    have hrest := (List.cons.inj htext).2
    have htake : rest.take (rest.length - tail.length) = o.text.tail := by
      rw [hrest, List.length_append, Nat.add_sub_cancel, List.take_left]
    rw [List.getLast?_cons, ih (htake ▸ ho.brace_notMem), OpenPath.behindLastOpener?, hread]
    cases OpenPath.behindLastOpener? rest <;> rfl

/-- A path is open at the end of a line exactly when an opener stands there with path characters only behind it. -/
theorem ofLine?_eq_some_iff : ofLine? line = some typed ↔ ∃ o, Opens line o typed := by
  rw [ofLine?_eq]
  constructor
  · intro h
    obtain ⟨tail, htail, h⟩ := Option.bind_eq_some_iff.1 h
    split at h
    · rename_i hall
      obtain rfl := Option.some.inj h
      obtain ⟨o, ho, hstands⟩ := exists_opener_of_behindLastOpener? htail
      exact ⟨o, ho, List.all_eq_true.1 hall, hstands⟩
    · simp at h
  · rintro ⟨o, h⟩
    rw [h.behindLastOpener?, Option.bind_some, if_pos (List.all_eq_true.2 h.path)]

/-! ## Lines that a reference goes on from -/

/-- Where a reference stands with the end of a line in its path, the path is open there. -/
theorem opens_of_standsAt {more : List Char} {i : Nat} {f : Form} (h : f.StandsAt (line ++ more) i)
    (hstart : f.pathStart i ≤ line.length) (hstop : line.length ≤ f.pathStop i) :
    Opens line f.opening (stretch (line ++ more) (f.pathStart i) line.length) := by
  obtain ⟨hf, rest, hdrop⟩ := h
  obtain ⟨behind, hbehind⟩ := f.text_eq_opening_append
  have hlength : f.opening.text.length = f.opener.length := rfl
  simp only [Form.pathStart, Form.pathStop] at hstart hstop ⊢
  rw [hbehind, List.append_assoc, List.append_assoc] at hdrop
  have htyped : stretch (line ++ more) (i + f.opener.length) line.length =
      f.path.take (line.length - (i + f.opener.length)) := by
    rw [stretch, ← List.drop_drop, hdrop, ← hlength, List.drop_left, List.take_append_of_le_length (by omega)]
  refine ⟨⟨hf.modifier, hf.gap⟩, ?_, line.take i, ?_⟩
  · rw [htyped]
    exact fun c hc => hf.path.2 c (List.mem_of_mem_take hc)
  · have hline : line.drop i = (f.opening.text ++ (f.path ++ (behind ++ rest))).take (line.length - i) := by
      rw [← hdrop, List.drop_append_of_le_length (by omega), List.take_append_of_le_length (by simp),
        List.take_of_length_le (by simp)]
    have hcut : line.length - i - f.opening.text.length = line.length - (i + f.opener.length) := by omega
    rw [List.take_append, hcut, List.take_of_length_le (by omega), List.take_append_of_le_length (by omega)] at hline
    rw [htyped, ← hline, List.take_append_drop]

/-- The reference that an open path begins stands where its opener stands. -/
theorem Opens.standsAt (h : Opens line o typed) {r : List Char}
    (hr : ∀ c ∈ r, isPathChar c = true) (hne : typed ++ r ≠ []) {tail : List Char} (htail : ∀ c ∈ tail, isBlank c) :
    ∃ before, (o.form (typed ++ r) tail).WellFormed ∧ line = before ++ (o.text ++ typed) ∧
      line ++ r ++ (tail ++ [o.family.mark, '}']) = before ++ (o.form (typed ++ r) tail).text := by
  obtain ⟨before, rfl⟩ := h.stands
  refine ⟨before, h.opener.form hne ?_ htail, rfl, ?_⟩
  · intro c hc
    rcases List.mem_append.1 hc with hc | hc
    · exact h.path c hc
    · exact hr c hc
  · rw [Opener.text_form]
    simp only [List.append_assoc]

/-- The open path of a line is the part before the end of the line of the path of a reference that the scanner finds if
the right text follows. Whatever path characters go on with it, the scanner finds the whole as the path of the last
reference once the reference is closed. None of the shortcuts changes the answer: neither that a line without opening
marks is passed over, nor that the beginning of a block is looked for, nor that only the last opener is tried. -/
theorem ofLine?_agrees (line typed : List Char) :
    (ofLine? line = some typed ↔ ∃ more i f, Form.StandsAt f (line ++ more) i ∧ f.pathStart i ≤ line.length ∧
      line.length ≤ f.pathStop i ∧ typed = stretch (line ++ more) (f.pathStart i) line.length) ∧
    (∀ o, ofLine? line = some typed → Opens line o typed → ∀ r, (∀ c ∈ r, isPathChar c = true) → typed ++ r ≠ [] →
      ∀ refs, Reference.scan (String.ofList (line ++ r ++ [' ', o.family.mark, '}'])) = .ok refs →
        ∃ ref, refs.getLast? = some ref ∧ ref.span.stop = (line ++ r ++ [' ', o.family.mark, '}']).length ∧
          ref.filePath = String.ofList (typed ++ r)) ∧
    ofLine? line = (behindOpeners 0 line).getLast?.bind (fun tail => if tail.all isPathChar then some tail else none) ∧
    (ofLine? line = some typed ↔ ∃ o, Opens line o typed) := by
  refine ⟨?_, ?_, ?_, ofLine?_eq_some_iff⟩
  · rw [ofLine?_eq_some_iff]
    constructor
    · rintro ⟨o, h⟩
      have hletter : ∀ c ∈ ['a'], isPathChar c = true := List.forall_mem_singleton.2 (by decide)
      have hnone : ∀ c ∈ ([] : List Char), isBlank c := by simp
      obtain ⟨before, hform, hline, htext⟩ := h.standsAt hletter (by simp) hnone
      rw [List.append_assoc] at htext
      have hlength : line.length = before.length + o.text.length + typed.length := by simp [hline, Nat.add_assoc]
      have hstart : (o.form (typed ++ ['a']) []).pathStart before.length = before.length + o.text.length := rfl
      have hstop : (o.form (typed ++ ['a']) []).pathStop before.length = line.length + 1 := by
        rw [Form.pathStop, hstart, hlength]
        simp [Opener.form, Nat.add_assoc]
      refine ⟨['a'] ++ ([] ++ [o.family.mark, '}']), before.length, o.form (typed ++ ['a']) [],
        ⟨hform, [], ?_⟩, by omega, by omega, ?_⟩
      · rw [htext, List.drop_left, List.append_nil]
      · rw [hstart, stretch, ← List.drop_drop, htext, List.drop_left, Opener.text_form,
          List.drop_left, List.append_assoc]
        rw [List.take_append_of_le_length (by omega), List.take_of_length_le (by omega)]
    · rintro ⟨more, i, f, hf, hstart, hstop, rfl⟩
      exact ⟨_, opens_of_standsAt hf hstart hstop⟩
  · intro o _ h r hr hne refs hscan
    obtain ⟨before, hform, -, htext⟩ :=
      h.standsAt hr hne (List.forall_mem_singleton.2 (show isBlank ' ' = true by decide))
    rw [List.singleton_append] at htext
    rw [htext, Reference.scan, String.toList_ofList] at hscan
    obtain ⟨ref, hlast, href⟩ := getLast?_of_mapM hscan (Form.getLast?_findAll hform)
    obtain ⟨hpath, hspan⟩ := Form.of_toReference href
    refine ⟨ref, hlast, ?_, hpath⟩
    rw [hspan, htext, List.length_append]
    rfl
  · rw [ofLine?_eq, getLast?_behindOpeners (by simp)]

/-- A hyphen is a modifier in one place and a path character in another; an opener of the other family stands before the
last one. -/
theorem ofLine?_agrees_hyphens :
    ofLine? "{* x *} \x7b* \x7b!- -".toList = some ['-'] ∧
      ∃ refs ref, Reference.scan "{* x *} \x7b* {!- -b !}" = .ok refs ∧ refs.getLast? = some ref ∧
      ref.filePath = "-b" := by
  have hopen : ofLine? "{* x *} \x7b* \x7b!- -".toList = some ['-'] := by cbv
  have ho : Opens "{* x *} \x7b* \x7b!- -".toList ⟨.bang, some '-', [' ']⟩ ['-'] := by
    refine ⟨⟨?_, ?_, ?_⟩, ?_, "{* x *} \x7b* ".toList, by cbv⟩
    all_goals simp [isModifier, isPathChar, isBlank]
  have hscan : Reference.scan "{* x *} \x7b* {!- -b !}" =
      .ok [⟨"x", none, none, ⟨0, 7⟩⟩, ⟨"-b", none, none, ⟨11, 20⟩⟩] := by cbv
  have hr : ∀ c ∈ ['b'], isPathChar c = true := List.forall_mem_singleton.2 (by decide)
  obtain ⟨ref, hlast, -, hpath⟩ := (ofLine?_agrees _ _).2.1 _ hopen ho ['b'] hr (by simp) _ hscan
  exact ⟨hopen, _, ref, hscan, hlast, hpath⟩

end OpenPath

end DocRefs
