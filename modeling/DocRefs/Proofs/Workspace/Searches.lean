import DocRefs.Proofs.Roots.Climb
import DocRefs.Workspace
import Mathlib

/-!
# Searches for roots while the files change

Between two searches for roots the files may become anything. As long as no marker is reported, an answer that was given
once is given again from memory, for the directory and for every one above it up to the root, and every directory is
probed at most once (`Workspace.Searched.authoritative`).
-/

namespace DocRefs.Workspace

variable {σ : Type} {w : Workspace (Overheard σ)} {answers : List (String × Option String)}

/-- The states that searches for roots can come to from a workspace that remembers nothing, over a place that is
overheard, with the directories that were asked for and the answers. Between two searches the place becomes any other,
and any paths are reported of which none has the marker's name. -/
inductive Searched [FileSystem σ] : Workspace (Overheard σ) → List (String × Option String) → Prop
  | start (place : σ) {env : Environment} (hcwd : Path.Clean env.cwd) (settings : Settings) :
      Searched (new ⟨place, []⟩ env settings) []
  | search {w : Workspace (Overheard σ)} {answers : List (String × Option String)}
      (h : Searched w answers) (start : String) :
      Searched (w.findRoot start).workspace (answers ++ [(w.absolute start, (w.findRoot start).value)])
  | mutate {w : Workspace (Overheard σ)} {answers : List (String × Option String)}
      (h : Searched w answers) (place : σ) : Searched { w with fs := { w.fs with place } } answers
  | invalidate {w : Workspace (Overheard σ)} {answers : List (String × Option String)}
      (h : Searched w answers) {paths : List String} (hpaths : ∀ p ∈ paths, Path.basename p ≠ w.roots.marker) :
      Searched { w with roots := (w.roots.invalidate paths).2 } answers
  | report {w : Workspace (Overheard σ)} {answers : List (String × Option String)}
      (h : Searched w answers) {paths : List String}
      (hpaths : ∀ p ∈ paths, Path.basename (w.absolute p) ≠ w.roots.marker) :
      Searched (w.filesChanged paths).workspace answers

/-- A search that answers from memory: it asks nothing, changes nothing and reports that it probed nothing. -/
def AnswersFromMemory [FileSystem σ] (w : Workspace σ) (start : String) (root : Option String) : Prop :=
  w.findRoot start = ⟨root, w, [.rootSearched (w.absolute start) root 0]⟩

/-- What is known of a directory is recalled. -/
theorem answersFromMemory_of_known [FileSystem σ] {w : Workspace σ} {start : String} {root : Option String}
    (h : w.roots.known.get? (w.absolute start) = some root) : w.AnswersFromMemory start root := by
  rw [AnswersFromMemory, findRoot, Roots.find_known h]
  rfl

/-- What is known holds every answer that was given and goes on upwards, and the markers that were asked for are those
of the directories of which something is known, each once. -/
structure Accounted (w : Workspace (Overheard σ)) (answers : List (String × Option String)) : Prop where
  cwd : Path.Clean w.env.cwd
  closed : w.roots.Closed
  answered : ∀ d root, (d, root) ∈ answers → Path.Clean d ∧ w.roots.known.get? d = some root
  probed : ∃ probed : List String, probed.Nodup ∧ w.fs.asked = probed.map w.roots.probe ∧
    ∀ d, w.roots.isCached d = true ↔ d ∈ probed

/-- A search is accounted for by its answer. -/
theorem Accounted.search [FileSystem σ] (h : w.Accounted answers) (start : String) :
    (w.findRoot start).workspace.Accounted (answers ++ [(w.absolute start, (w.findRoot start).value)]) := by
  have hclimbs := w.roots.climbs_walk (w.absolute start) w.fs
  refine ⟨h.cwd, h.closed.remember hclimbs, ?_, ?_⟩
  · intro d root hanswer
    rcases List.mem_append.1 hanswer with hanswer | hanswer
    · obtain ⟨hclean, hknown⟩ := h.answered d root hanswer
      exact ⟨hclean, Roots.get?_remember_of_known hclimbs.unknown hknown⟩
    · obtain ⟨rfl, rfl⟩ := Prod.mk.inj (List.mem_singleton.1 hanswer)
      exact ⟨Path.clean_absolute h.cwd start, w.roots.known_find w.fs _⟩
  · obtain ⟨probed, hnodup, hasked, hcached⟩ := h.probed
    refine ⟨probed ++ (w.roots.walk w.fs (Path.ancestors (w.absolute start))).1.probed, ?_, ?_, ?_⟩
    · refine List.nodup_append.2 ⟨hnodup, hclimbs.nodup, ?_⟩
      rintro d hd e he rfl
      obtain ⟨root, hknown⟩ := Assoc.contains_iff.1 ((hcached d).2 hd)
      rw [hclimbs.unknown d he] at hknown
      simp at hknown
    · have hprobe : (w.findRoot start).workspace.roots.probe = w.roots.probe := rfl
      rw [List.map_append, hprobe, ← hasked]
      exact hclimbs.asked
    · intro d
      have hold := hcached d
      rw [Roots.isCached, Assoc.contains_iff] at hold ⊢
      change (∃ root, (w.roots.remember _).known.get? d = some root) ↔ _
      rw [List.mem_append, ← hold]
      simp only [Roots.get?_remember]
      split <;> simp [*]

/-- What is known is not altered by anything but a search. -/
theorem Accounted.congr (h : w.Accounted answers) {w' : Workspace (Overheard σ)} (henv : w'.env = w.env)
    (hroots : w'.roots = w.roots) (hasked : w'.fs.asked = w.fs.asked) : w'.Accounted answers := by
  refine ⟨?_, ?_, ?_, ?_⟩
  · rw [henv]
    exact h.cwd
  · rw [hroots]
    exact h.closed
  · rw [hroots]
    exact h.answered
  · rw [hroots, hasked]
    exact h.probed

/-- Every run of searches is accounted for. -/
theorem Searched.accounted [FileSystem σ] (h : Searched w answers) : w.Accounted answers := by
  induction h with
  | start place hcwd settings =>
    refine ⟨hcwd, Roots.closed_empty _, by simp, [], List.nodup_nil, rfl, ?_⟩
    intro d
    simp [new, Roots.isCached, Assoc.contains_iff]
  | search _ start ih => exact ih.search start
  | mutate _ place ih => exact ih.congr rfl rfl rfl
  | invalidate _ hpaths ih => exact ih.congr rfl (Roots.invalidate_of_unmarked hpaths) rfl
  | report _ hpaths ih =>
    refine ih.congr rfl (Roots.invalidate_of_unmarked fun p hp => ?_) rfl
    obtain ⟨path, hpath, rfl⟩ := List.mem_map.1 hp
    exact hpaths path hpath

/-- Between clears the memory of roots is authoritative. A directory that was asked for is answered as before without a
question to the files, and so is every directory from there up to the root that was found, or up to the top if none was;
that root is the directory or one above it. In the whole run the marker of each directory is asked for at most once and
nothing else is asked, and the directories that were probed are those of which something is known. -/
theorem Searched.authoritative [FileSystem σ] (h : Searched w answers) :
    (∀ start root, (w.absolute start, root) ∈ answers → w.AnswersFromMemory start root) ∧
    (∀ d root, (d, root) ∈ answers →
      (∀ top ∈ root, top ∈ Path.ancestors d) ∧
      ∀ e ∈ Path.ancestors d, (∀ top ∈ root, top ∈ Path.ancestors e) →
        w.absolute e = e ∧ ∀ start, w.absolute start = e → w.AnswersFromMemory start root) ∧
    ∃ probed : List String, probed.Nodup ∧ w.fs.asked = probed.map (fun d => .presence (Path.join d w.roots.marker)) ∧
      ∀ d, w.roots.isCached d = true ↔ d ∈ probed := by
  have hw := h.accounted
  refine ⟨?_, ?_, hw.probed⟩
  · intro start root hanswer
    exact answersFromMemory_of_known (hw.answered _ root hanswer).2
  · intro d root hanswer
    obtain ⟨hclean, hknown⟩ := hw.answered d root hanswer
    refine ⟨?_, ?_⟩
    · rintro top rfl
      exact hw.closed.mem_ancestors hknown
    · intro e he htop
      refine ⟨(hclean.of_mem_ancestors he).absolute_eq _, ?_⟩
      rintro start rfl
      exact answersFromMemory_of_known (hw.closed.get?_of_mem_ancestors hknown he htop)

/-- A root that was found from below is answered from memory though its marker is gone from the disk, after two
questions in all. -/
theorem Searched.authoritative_marker_gone :
    ∃ (w : Workspace (Overheard Disk)) (answers : List (String × Option String)), Searched w answers ∧
      ("/p/s", some "/p") ∈ answers ∧ w.fs.place.pathExists "/p/mkdocs.yml" = false ∧
      w.AnswersFromMemory "/p" (some "/p") ∧ w.fs.asked = [.presence "/p/s/mkdocs.yml", .presence "/p/mkdocs.yml"] := by
  let marked : Disk := { cwd := "/", nodes := [(["p"], .directory), (["p", "s"], .directory),
    (["p", "mkdocs.yml"], .file [])] }
  let unmarked : Disk := { cwd := "/", nodes := [(["p"], .directory), (["p", "s"], .directory)] }
  have hroot : Path.Clean "/" := ⟨by decide, by cbv⟩
  have hstart : Path.absolute "/" "/p/s" = "/p/s" := by cbv
  have habove : Path.ancestors "/p/s" = ["/p/s", "/p", "/"] := by cbv
  have hwalk : (Roots.mk "mkdocs.yml" .empty).walk (⟨marked, []⟩ : Overheard Disk) ["/p/s", "/p", "/"] =
      (⟨some "/p", ["/p/s", "/p"]⟩, ⟨marked, [.presence "/p/s/mkdocs.yml", .presence "/p/mkdocs.yml"]⟩) := by cbv
  have hfind : (Roots.mk "mkdocs.yml" .empty).find (⟨marked, []⟩ : Overheard Disk) (Path.absolute "/" "/p/s") =
      (⟨some "/p", ["/p/s", "/p"]⟩, Roots.remember ⟨"mkdocs.yml", .empty⟩ ⟨some "/p", ["/p/s", "/p"]⟩,
        ⟨marked, [.presence "/p/s/mkdocs.yml", .presence "/p/mkdocs.yml"]⟩) := by
    rw [Roots.find, hstart, habove, hwalk]
  obtain ⟨w, answers, hw, hanswer, hplace, hasked, hcwd⟩ :
      ∃ (w : Workspace (Overheard Disk)) (answers : List (String × Option String)),
        Searched w answers ∧ ("/p/s", some "/p") ∈ answers ∧ w.fs.place = unmarked ∧
        w.fs.asked = [.presence "/p/s/mkdocs.yml", .presence "/p/mkdocs.yml"] ∧ w.env.cwd = "/" := by
    refine ⟨_, _, ((@Searched.start Disk _ marked {} hroot {}).search "/p/s").mutate unmarked, ?_, rfl, ?_, rfl⟩
    · refine List.mem_singleton.2 (Prod.ext hstart.symm ?_)
      exact (congrArg (fun found => found.1.root) hfind).symm
    · exact congrArg (fun found => found.2.2.asked) hfind
  have hp : Path.absolute "/" "/p" = "/p" := by cbv
  have hbelow : Path.ancestors "/p" = ["/p", "/"] := by cbv
  obtain ⟨-, hagain⟩ := hw.authoritative.2.1 "/p/s" (some "/p") hanswer
  obtain ⟨-, hmemory⟩ := hagain "/p" (by rw [habove]; decide) (by simp [hbelow])
  refine ⟨w, answers, hw, hanswer, ?_, hmemory "/p" (by rw [absolute, hcwd, hp]), hasked⟩
  rw [hplace]
  cbv

end DocRefs.Workspace
