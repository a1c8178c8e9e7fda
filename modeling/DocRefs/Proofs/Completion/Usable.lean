import DocRefs.Proofs.Completion.Suggestions
import DocRefs.Proofs.Workspace.Requests

/-!
# Suggestions are references to what they name

A suggestion that is accepted makes of the typed path the path of an entry: from the base directory it leads to the
place where the entry was listed (`Workspace.resolvePath_entry`). As long as the name of the entry may stand in a
reference, closing the reference makes it the last one of the line, and it is resolved to the entry
(`Workspace.suggestions_usable`). Names come from the tree and may be any text, so this has to be asked.
-/

namespace DocRefs

/-! ## The place of an entry -/

namespace Workspace

/-- What is put in for an entry leads, behind the directory part that is typed, to the place of the entry. -/
theorem resolvePath_entry {t : Tree} (hclean : t.AllClean) {typed : TypedPath}
    (hpart : TypedPath.IsDirectoryPart typed.directory)
    {base : String} {e : DirectoryEntry} {p : String} (h : t.EntryAt (Path.normalize (typed.searchDir base)) e p) :
    resolvePath base (String.ofList (typed.directory ++ (e.name.toList ++ if e.isDirectory then ['/'] else []))) =
      p := by
  have hp := hclean p h.mem
  have hdirname : (Path.dirname p).toList = Path.normalChars (typed.placeChars base.toList) := by
    rw [h.dirname, typed.normalize_searchDir, String.toList_ofList]
  have hroot : (typed.placeChars base.toList).head? = some '/' := by
    refine Path.head?_of_normalChars ?_
    rw [← hdirname]
    exact Path.head?_of_isAbsolute hp.dirname.absolute
  rw [Path.normalChars_rooted hroot] at hdirname
  rw [resolvePath_ofList, ← h.basename]
  rcases hp.root_or_name with ⟨-, htop, hnameless⟩ |
    ⟨slashes, names, name, hslashes, hnames, hname, hchars, hparent, hbasename⟩
  · -- A root that is listed in itself has no name, and what leads to it is the directory part alone.
    have hfile : e.isDirectory = false := by
      by_contra hdirectory
      have hthere := h.isThere
      rw [if_pos (by simpa using hdirectory)] at hthere
      exact hthere.2 (htop.symm.trans h.dirname)
    have hnone : ∀ c ∈ ([] : List (List Char)), Path.IsName c := List.forall_mem_nil _
    have hstays := Path.normalChars_joinChars_names hroot hnone
    rw [List.append_nil, ← hdirname, htop] at hstays
    rw [hnameless, hfile, TypedPath.joinChars_directory hpart _ (by simp)]
    exact (congrArg String.ofList hstays).trans String.ofList_toList
  · obtain ⟨rfl, rfl⟩ := Path.ofComponents_inj (Path.rootSlashes_rooted hroot) hslashes
      (fun c hc => Path.isName_of_mem_normalComponents hroot hc) hnames (hdirname.symm.trans hparent)
    rw [hbasename, TypedPath.joinChars_directory hpart _ (hname.head?_append_ne _),
      Path.normalChars_joinChars_name hroot hname, ← hchars, String.ofList_toList]

end Workspace

/-! ## The line of an accepted suggestion -/

/-- A reference without blocks at the end of a text makes nothing oversized. -/
theorem not_hasOversized_append {before : List Char} {f : Form} (hf : f.WellFormed) (hblocks : f.blocks = [])
    (h : ¬ HasOversized before) : ¬ HasOversized (before ++ f.text) := by
  rintro ⟨g, hg, ⟨front, rest, htext⟩, hover⟩
  have hdrop : (before ++ f.text).drop front.length = g.text ++ rest := by
    rw [← htext, List.append_assoc, List.drop_left]
  have hlast : (Form.findAll (before ++ f.text)).getLast? = some (before.length, f) := Form.getLast?_findAll hf
  obtain ⟨others, hall⟩ := List.getLast?_eq_some_iff.1 hlast
  have hmem := Form.mem_findAll.2 ⟨hg, rest, hdrop⟩
  rw [hall] at hmem
  rcases List.mem_append.1 hmem with hmem | hmem
  · -- It ends before the last one begins, so it stands in the text before that.
    have hpairwise := Form.pairwise_findFrom 0 0 (before ++ f.text)
    rw [← Form.findAll, hall] at hpairwise
    have hle := (List.pairwise_append.1 hpairwise).2.2 _ hmem _ List.mem_cons_self
    simp only at hle
    rw [List.drop_append_of_le_length (by omega)] at hdrop
    have hprefix : g.text <+: before.drop front.length :=
      List.prefix_of_prefix_length_le (hdrop ▸ List.prefix_append g.text rest) (List.prefix_append _ f.text)
        (by rw [List.length_drop]; omega)
    exact h ⟨g, hg, hprefix.isInfix.trans (List.drop_suffix _ _).isInfix, hover⟩
  · obtain ⟨-, rfl⟩ := Prod.mk.inj (List.mem_singleton.1 hmem)
    obtain ⟨⟨b, hb, -⟩, -⟩ := hover
    rw [hblocks] at hb
    exact absurd hb List.not_mem_nil

/-- Path characters behind an opener are made the last reference of a line by its closing. -/
theorem OpenPath.scan_closed {before completed : List Char} {o : Opener} (ho : o.WellFormed) (hne : completed ≠ [])
    (hpath : ∀ c ∈ completed, isPathChar c = true) (hbefore : ¬ HasOversized before) :
    ∃ refs ref, Reference.scan (String.ofList (before ++ (o.text ++ completed) ++ [' ', o.family.mark, '}'])) =
      .ok refs ∧
      refs.getLast? = some ref ∧ ref.span.stop = (before ++ (o.text ++ completed) ++ [' ', o.family.mark, '}']).length ∧
      ref.filePath = String.ofList completed := by
  have hform : (o.form completed [' ']).WellFormed :=
    ho.form hne hpath (List.forall_mem_singleton.2 (show isBlank ' ' = true by decide))
  have htext : before ++ (o.text ++ completed) ++ [' ', o.family.mark,
      '}'] = before ++ (o.form completed [' ']).text := by
    rw [Opener.text_form]
    simp only [List.append_assoc, List.singleton_append]
  obtain ⟨refs, hrefs⟩ : ∃ refs, Reference.scan (String.ofList (before ++ (o.form completed [' ']).text)) =
      .ok refs := by
    rw [Reference.scan_isOk_iff_not_hasOversized, String.toList_ofList]
    exact not_hasOversized_append hform rfl hbefore
  have hscan := hrefs
  rw [Reference.scan, String.toList_ofList] at hscan
  obtain ⟨ref, hlast, href⟩ := getLast?_of_mapM hscan (Form.getLast?_findAll hform)
  obtain ⟨hpath, hspan⟩ := Form.of_toReference href
  rw [htext]
  refine ⟨refs, ref, hrefs, hlast, ?_, hpath⟩
  rw [hspan, List.length_append]
  rfl

/-- A line with a suggestion in its place, and the reference closed, has the completed path in its last reference. -/
theorem Candidate.scan_accepted {linePrefix typed : List Char} {o : Opener} {n : Int}
    {entries : List DirectoryEntry} {c : Candidate}
    (hopens : OpenPath.Opens linePrefix o typed) (hc : c ∈ ofEntries n linePrefix.length (.ofChars typed) entries)
    (hlabel : ∀ x ∈ c.label.toList, isPathChar x = true)
    (hne : (TypedPath.ofChars typed).directory ++ c.insertText.toList ≠ []) (hline : ¬ HasOversized linePrefix) :
    ∃ refs ref, Reference.scan (String.ofList (c.accepted linePrefix ++ [' ', o.family.mark, '}'])) = .ok refs ∧
      refs.getLast? = some ref ∧ ref.span.stop = (c.accepted linePrefix ++ [' ', o.family.mark, '}']).length ∧
      ref.filePath = String.ofList ((TypedPath.ofChars typed).directory ++ c.insertText.toList) := by
  obtain ⟨before, rfl⟩ := hopens.stands
  have hbefore : ¬ HasOversized before := by
    rintro ⟨g, hg, hin, hover⟩
    exact hline ⟨g, hg, hin.trans (List.prefix_append _ _).isInfix, hover⟩
  have hpath : ∀ x ∈ (TypedPath.ofChars typed).directory ++ c.insertText.toList, isPathChar x = true := by
    intro x hx
    rcases List.mem_append.1 hx with hx | hx
    · refine hopens.path x ?_
      rw [(TypedPath.ofChars_spec typed).1]
      exact List.mem_append_left _ hx
    · obtain ⟨e, -, -, hentry⟩ := mem_ofEntries.1 hc
      obtain ⟨hname, -, -, hinsert⟩ := ofEntry_spec (String.ofList (TypedPath.ofChars typed).directory)
        (placeOf n (before ++ (o.text ++ typed)).length (.ofChars typed)) e
      rw [← hentry] at hname hinsert
      rw [hinsert, ← hname] at hx
      rcases List.mem_append.1 hx with hx | hx
      · exact hlabel x hx
      · split at hx
        · rw [List.mem_singleton.1 hx]
          decide
        · exact absurd hx List.not_mem_nil
  rw [← List.append_assoc] at hc
  rw [← List.append_assoc, accepted_of_mem hc, List.append_assoc before]
  exact OpenPath.scan_closed hopens.opener hne hpath hbefore

namespace Workspace

/-- A line ends with a reference that leads from a base directory to a place where there is something. -/
def EndsInReference (t : Tree) (base : String) (line : List Char) (place : String) : Prop :=
  ∃ refs ref, Reference.scan (String.ofList line) = .ok refs ∧ refs.getLast? = some ref ∧ ref.span.stop = line.length ∧
    (resolveReference t base ref).1.absolutePath = place ∧ (resolveReference t base ref).1.present = true

variable {w : Workspace Tree} {d : Document} {position : Position} {cancel : Cancellation}
  {a : Answer Tree (Option (List Candidate))}
  {candidates : List Candidate} {c : Candidate}

/-- What is suggested at a position is suggested behind an opener on its line, out of the directory that is typed
there. -/
theorem exists_opens_of_complete (hcurrent : w.listings.Current w.fs ∅)
    (hcomplete : w.complete d position cancel = .ok a) (hvalue : a.value = some candidates) :
    ∃ o typed base, OpenPath.Opens (takeSigned position.character (d.lineText position.line)) o typed ∧
      w.baseDir d.dirname = .ok base ∧
      candidates = Candidate.ofEntries position.line
        (takeSigned position.character (d.lineText position.line)).length (.ofChars typed)
        (w.fs.entriesAt ((TypedPath.ofChars typed).searchDir base.value)) := by
  obtain ⟨override, hoverride, ha⟩ := bind_eq_ok_iff.1 hcomplete
  obtain rfl := Except.ok.inj ha
  obtain ⟨typed, hopen, hcandidates⟩ := eq_of_completePath_value hcurrent hvalue
  obtain ⟨o, hopens⟩ := OpenPath.ofLine?_eq_some_iff.1 hopen
  refine ⟨o, typed, w.selectBaseDir d.dirname override, hopens, ?_, hcandidates⟩
  rw [baseDir, hoverride]
  rfl

/-- Whatever is suggested at a position of a document is an entry that is there, of the directory that is typed behind
the last opener. If its name may stand in a reference, the completed path is not empty as it is for a file that is put
at the root itself, and the line up to the position can be scanned, then the line with the suggestion in its place and
the reference closed ends in a reference that leads to that entry from the base directory of the document. -/
theorem suggestions_usable (hclean : w.fs.AllClean) (hcurrent : w.listings.Current w.fs ∅)
    (hcomplete : w.complete d position cancel = .ok a) (hvalue : a.value = some candidates) (hc : c ∈ candidates) :
    let linePrefix := takeSigned position.character (d.lineText position.line)
    ∃ o typed base p, OpenPath.Opens linePrefix o typed ∧ w.baseDir d.dirname = .ok base ∧
      w.fs.EntryAt (Path.normalize ((TypedPath.ofChars typed).searchDir base.value)) ⟨c.label, c.isDirectory⟩ p ∧
      ((∀ x ∈ c.label.toList, isPathChar x = true) → (TypedPath.ofChars typed).directory ++ c.insertText.toList ≠ [] →
        (∃ refs, Reference.scan (String.ofList linePrefix) = .ok refs) →
        EndsInReference w.fs base.value (c.accepted linePrefix ++ [' ', o.family.mark, '}']) p) := by
  intro linePrefix
  obtain ⟨o, typed, base, hopens, hbase, hcandidates⟩ := exists_opens_of_complete hcurrent hcomplete hvalue
  rw [hcandidates] at hc
  obtain ⟨e, he, -, hentry⟩ := Candidate.mem_ofEntries.1 hc
  obtain ⟨hlabel, hkind, -, hinsert⟩ := Candidate.ofEntry_spec (String.ofList (TypedPath.ofChars typed).directory)
    (Candidate.placeOf position.line linePrefix.length (.ofChars typed)) e
  rw [← hentry] at hlabel hkind hinsert
  obtain ⟨-, -, p, hp⟩ := Tree.mem_entriesAt.1 he
  refine ⟨o, typed, base, p, hopens, hbase, by rw [hlabel, hkind]; exact hp, ?_⟩
  intro hchars hne hscan
  rw [Reference.scan_isOk_iff_not_hasOversized, String.toList_ofList] at hscan
  obtain ⟨refs, ref, hrefs, hlast, hstop, hfilePath⟩ := Candidate.scan_accepted hopens hc hchars hne hscan
  have hplace : resolvePath base.value ref.filePath = p := by
    rw [hfilePath, hinsert]
    exact resolvePath_entry hclean (TypedPath.ofChars_spec typed).2.1 hp
  refine ⟨refs, ref, hrefs, hlast, hstop, hplace, ?_⟩
  change w.fs.holds (Path.normalize (resolvePath base.value ref.filePath)) = true
  rw [hplace, (hclean p hp.mem).normal, Tree.holds_iff]
  exact hp.mem

/-- With a root directory that is set with an absolute path, a document is completed from there. -/
theorem complete_rooted (t : Tree) (d : Document) (position : Position) :
    let w := Workspace.new t {} { rootDir := some (.ofString "/d") }
    w.baseDir d.dirname = .ok ⟨"/d", w, []⟩ ∧ w.complete d position .never =
      .ok (w.completePath (takeSigned position.character (d.lineText position.line)) position.line
        d.dirname (some "/d") .never) := by
  intro w
  have hhome : (FilePath.ofString "/d").expandHome (Environment.homeOf? {}) = .ok (.ofString "/d") := by cbv
  have habsolute : Path.absolute "/" ((FilePath.ofString "/").append (.ofString "/d")).toString = "/d" := by cbv
  have hoverride : w.rootOverride = .ok (some "/d") := by
    change ((FilePath.ofString "/d").expandHome (Environment.homeOf? {}) >>= fun dir =>
      .ok (some (Path.absolute "/" ((FilePath.ofString "/").append dir).toString))) = _
    rw [hhome]
    exact congrArg (Except.ok ∘ some) habsolute
  constructor
  · rw [baseDir, hoverride]
    rfl
  · rw [complete, hoverride]
    rfl

/-- With a directory and a beginning of a name in upper case typed, the file is suggested, and what is completed leads
to it. -/
theorem suggestions_usable_upper_case :
    let w := Workspace.new (Tree.empty.addFile "/d/docs/a.md") {} { rootDir := some (.ofString "/d") }
    let d : Document := ⟨"/d/p.md", "\x7b! docs/A"⟩
    ∃ a c, w.complete d ⟨0, 9⟩ .never = .ok a ∧ a.value = some [c] ∧
      c.accepted d.text.toList = "\x7b! docs/a.md".toList ∧
      EndsInReference w.fs "/d" ("\x7b! docs/a.md".toList ++ [' ', '!', '}']) "/d/docs/a.md" := by
  intro w d
  have hcurrent : w.listings.Current w.fs ∅ := Listings.current_empty _ _
  have hclean : w.fs.AllClean := Tree.allClean_empty.addFile (by cbv)
  have hline : takeSigned 9 (d.lineText 0) = d.text.toList := by cbv
  have hopen : OpenPath.ofLine? d.text.toList = some "docs/A".toList := by cbv
  have hentries : w.fs.entriesAt ((TypedPath.ofChars "docs/A".toList).searchDir "/d") = [⟨"a.md", false⟩] := by cbv
  obtain ⟨c, hc, hlabel, hfile, hinsert, haccepted⟩ : ∃ c,
    Candidate.ofEntries 0 d.text.toList.length (.ofChars "docs/A".toList)
      [⟨"a.md", false⟩] = [c] ∧ c.label = "a.md" ∧ c.isDirectory = false ∧ c.insertText = "a.md" ∧
      c.accepted d.text.toList = "\x7b! docs/a.md".toList :=
    ⟨_, by cbv, by cbv, by cbv, by cbv, by cbv⟩
  obtain ⟨hbase, hcomplete⟩ := complete_rooted (Tree.empty.addFile "/d/docs/a.md") d ⟨0, 9⟩
  have hvalue : (w.completePath d.text.toList 0 d.dirname (some "/d") .never).value =
      some (Candidate.ofEntries 0 d.text.toList.length (.ofChars "docs/A".toList)
        (w.fs.entriesAt ((TypedPath.ofChars "docs/A".toList).searchDir "/d"))) :=
    completePath_value hcurrent hopen
  rw [hentries, hc] at hvalue
  rw [hline] at hcomplete
  refine ⟨_, c, hcomplete, hvalue, haccepted, ?_⟩
  obtain ⟨o, typed, base, p, hopens, hbase', hentry, husable⟩ :=
    suggestions_usable hclean hcurrent hcomplete hvalue List.mem_cons_self
  rw [hline] at hopens husable
  obtain rfl : base = ⟨"/d", w, []⟩ := Except.ok.inj (hbase'.symm.trans hbase)
  obtain rfl : typed = "docs/A".toList :=
    Option.some.inj ((OpenPath.ofLine?_eq_some_iff.2 ⟨o, hopens⟩).symm.trans hopen)
  -- There is one brace on the line, so the opener is the one that begins it.
  have hmark : o.family.mark = '!' := by
    obtain ⟨before, hbefore⟩ := hopens.stands
    have hchars : d.text.toList = '{' :: "! docs/A".toList := by cbv
    rw [hchars] at hbefore
    cases before with
    | nil => exact (List.cons.inj (List.cons.inj hbefore).2).1.symm
    | cons x rest =>
      have hmem : '{' ∈ "! docs/A".toList := by
        rw [(List.cons.inj hbefore).2]
        simp [Opener.text]
      exact absurd hmem (by decide)
  have hplace : p = "/d/docs/a.md" := by
    have hthere := hentry.isThere
    rw [hfile, if_neg (by simp)] at hthere
    have hfiles : w.fs.files = ["/d/docs/a.md"] := by cbv
    rwa [hfiles, List.mem_singleton] at hthere
  rw [hlabel, hinsert, hmark, haccepted, hplace] at husable
  exact husable (List.all_eq_true.1 (by decide)) (by simp) ⟨[], by cbv⟩

/-- A name with a blank is suggested too, and makes no reference. -/
theorem suggestions_usable_blank :
    let w := Workspace.new (Tree.empty.addFile "/d/a b") {} { rootDir := some (.ofString "/d") }
    let d : Document := ⟨"/d/p.md", "\x7b* "⟩
    w.fs.AllClean ∧ w.listings.Current w.fs ∅ ∧ ∃ a c, w.complete d ⟨0, 3⟩ .never = .ok a ∧ a.value = some [c] ∧
      c.accepted d.text.toList = "\x7b* a b".toList ∧
      Reference.scan (String.ofList (c.accepted d.text.toList ++ [' ', '*', '}'])) = .ok [] := by
  intro w d
  have hcurrent : w.listings.Current w.fs ∅ := Listings.current_empty _ _
  have hline : takeSigned 3 (d.lineText 0) = d.text.toList := by cbv
  have hopen : OpenPath.ofLine? d.text.toList = some [] := by cbv
  have hentries : w.fs.entriesAt ((TypedPath.ofChars []).searchDir "/d") = [⟨"a b", false⟩] := by cbv
  obtain ⟨-, hcomplete⟩ := complete_rooted (Tree.empty.addFile "/d/a b") d ⟨0, 3⟩
  have hvalue : (w.completePath d.text.toList 0 d.dirname (some "/d") .never).value =
      some (Candidate.ofEntries 0 d.text.toList.length (.ofChars [])
        (w.fs.entriesAt ((TypedPath.ofChars []).searchDir "/d"))) := completePath_value hcurrent hopen
  rw [hentries] at hvalue
  rw [hline] at hcomplete
  exact ⟨Tree.allClean_empty.addFile (by cbv), hcurrent, _, _, hcomplete, hvalue.trans (by cbv), by cbv, by cbv⟩

end Workspace

end DocRefs
