import DocRefs.Proofs.Roots

/-!
# What a search for a root asks, and what it leaves to be asked

Over a place of files whose questions are written down (`Overheard`) a search asks for the marker of each directory that
it probes, and for nothing else (`Roots.climbs_walk`). It probes a directory only while nothing is known of it. What is
known of a directory goes on upwards to the root, or to the top where there is none (`Roots.Closed`), and what a search
adds goes on likewise (`Roots.Closed.remember`). So whatever the files have become meanwhile, the memory answers for
every directory from one that it knows up to the root of that one (`Roots.Closed.get?_of_mem_ancestors`).
-/

namespace DocRefs

/-- What may be asked of a place that holds files. -/
inductive FileQuestion
  | presence (path : String)
  | entries (directory : String)
deriving Repr, DecidableEq

/-- A place that holds files, and what it was asked, in order. -/
structure Overheard (σ : Type) where
  place : σ
  asked : List FileQuestion := []

variable {σ : Type}

instance [FileSystem σ] : FileSystem (Overheard σ) where
  pathExists o path :=
    ((FileSystem.pathExists o.place path).1, ⟨(FileSystem.pathExists o.place path).2, o.asked ++ [.presence path]⟩)
  listDirectory o directory :=
    ((FileSystem.listDirectory o.place directory).1,
      ⟨(FileSystem.listDirectory o.place directory).2, o.asked ++ [.entries directory]⟩)

/-- A question for a path is handed on and written down. -/
theorem Overheard.pathExists_eq [FileSystem σ] (o : Overheard σ) (path : String) :
    FileSystem.pathExists o path =
      ((FileSystem.pathExists o.place path).1, ⟨(FileSystem.pathExists o.place path).2, o.asked ++ [.presence path]⟩) :=
        rfl

namespace Roots

variable {r : Roots}

/-! ## A search from a directory upwards -/

/-- The question for the marker in a directory. -/
def probe (r : Roots) (directory : String) : FileQuestion :=
  .presence (Path.join directory r.marker)

/-- The root of a directory is the directory itself, or there is none and nothing above it, or it is that of the
directory above. -/
def LeadsUp (answers : String → Option String → Prop) (directory : String) (root : Option String) : Prop :=
  root = some directory ∨ root = none ∧ Path.dirname directory = directory ∨
    Path.dirname directory ≠ directory ∧ answers (Path.dirname directory) root

/-- What a search through directories, each the one above that before it, did over a place that is overheard: it came to
an answer for the first of them, it probed only directories of which nothing was known, each once, and it asked for
their markers. -/
structure Climbs (r : Roots) (o : Overheard σ) (directories : List String)
    (found : RootSearch × Overheard σ) : Prop where
  answered : directories = [] ∧ found.1.root = none ∨
    ∃ d ∈ directories.head?, d ∈ found.1.probed ∨ r.known.get? d = some found.1.root
  unknown : ∀ d ∈ found.1.probed, r.known.get? d = none
  nodup : found.1.probed.Nodup
  leadsUp : ∀ d ∈ found.1.probed, LeadsUp (fun e root => e ∈ found.1.probed ∨ r.known.get? e = some root) d found.1.root
  asked : found.2.asked = o.asked ++ found.1.probed.map r.probe

/-- A directory that was probed for nothing, below those of a search that went on from there. -/
theorem Climbs.below {o : Overheard σ} {place : σ} {d : String} {above : List String} {found : RootSearch × Overheard σ}
    (h : r.Climbs ⟨place, o.asked ++ [r.probe d]⟩ above found) (hknown : r.known.get? d = none)
    (hnew : d ∉ found.1.probed)
    (hnext : above = [] ∧ Path.dirname d = d ∨ above.head? = some (Path.dirname d) ∧ Path.dirname d ≠ d) :
    r.Climbs o (d :: above) (⟨found.1.root, d :: found.1.probed⟩, found.2) := by
  have hleads : LeadsUp (fun e root => e ∈ d :: found.1.probed ∨ r.known.get? e = some root) d found.1.root := by
    rcases hnext with ⟨rfl, htop⟩ | ⟨hhead, hbelow⟩
    · rcases h.answered with ⟨-, hroot⟩ | ⟨e, he, -⟩
      · exact .inr (.inl ⟨hroot, htop⟩)
      · simp at he
    · rcases h.answered with ⟨rfl, -⟩ | ⟨e, he, hanswered⟩
      · simp at hhead
      · obtain rfl := Option.some.inj (hhead.symm.trans he)
        exact .inr (.inr ⟨hbelow, hanswered.imp_left (List.mem_cons_of_mem d)⟩)
  refine ⟨.inr ⟨d, rfl, .inl List.mem_cons_self⟩, ?_, List.nodup_cons.2 ⟨hnew, h.nodup⟩, ?_, ?_⟩
  · intro e he
    rcases List.mem_cons.1 he with rfl | he
    · exact hknown
    · exact h.unknown e he
  · intro e he
    rcases List.mem_cons.1 he with rfl | he
    · exact hleads
    · exact (h.leadsUp e he).imp_right (.imp_right (.imp_right (.imp_left (List.mem_cons_of_mem d))))
  · rw [h.asked, List.append_assoc, List.singleton_append, List.map_cons]

/-- A search begins at the first directory, and goes on from the next one where the first is neither known nor
marked. -/
theorem climbs_cons [FileSystem σ] {d : String} {above : List String} (hnew : d ∉ above)
    (hnext : above = [] ∧ Path.dirname d = d ∨ above.head? = some (Path.dirname d) ∧ Path.dirname d ≠ d)
    (hon : ∀ o : Overheard σ, r.Climbs o above (r.walk o above)) (o : Overheard σ) :
    r.Climbs o (d :: above) (r.walk o (d :: above)) := by
  cases hknown : r.known.get? d with
  | some root =>
    rw [walk_known hknown]
    exact ⟨.inr ⟨d, rfl, .inr hknown⟩, by simp, List.nodup_nil, by simp, by simp⟩
  | none =>
    rw [walk_unknown hknown, Overheard.pathExists_eq]
    split
    · refine ⟨.inr ⟨d, rfl, .inl List.mem_cons_self⟩, ?_, by simp, ?_, rfl⟩
      · intro e he
        rw [List.mem_singleton.1 he]
        exact hknown
      · intro e he
        rw [List.mem_singleton.1 he]
        exact .inl rfl
    · exact (hon _).below hknown (fun hd => hnew (r.mem_of_mem_probed _ hd)) hnext

/-- A search from a directory upwards asks for the markers of what it probes. -/
theorem climbs_walk [FileSystem σ] (r : Roots) (start : String) :
    ∀ o : Overheard σ, r.Climbs o (Path.ancestors start) (r.walk o (Path.ancestors start)) := by
  fun_induction Path.ancestors start with
  | case1 start htop =>
    refine climbs_cons List.not_mem_nil (.inl ⟨rfl, htop⟩) fun o => ?_
    exact ⟨.inl ⟨rfl, rfl⟩, by simp [walk], by simp [walk], by simp [walk], by simp [walk]⟩
  | case2 start hbelow _ ih =>
    obtain ⟨above, habove⟩ := Path.exists_ancestors_eq_cons (Path.dirname start)
    have hnew : start ∉ Path.ancestors (Path.dirname start) := fun hstart =>
      absurd (Path.prefix_of_mem_ancestors hstart).length_le (Nat.not_le.2 (Path.length_dirname_lt hbelow))
    exact climbs_cons hnew (.inr ⟨by rw [habove]; rfl, hbelow⟩) ih

/-! ## What is known from one directory upwards -/

/-- A memory in which what is known of a directory is known of those above it too, up to the root, or to the top where
there is none. -/
def Closed (r : Roots) : Prop :=
  ∀ directory root, r.known.get? directory = some root →
    LeadsUp (fun e root => r.known.get? e = some root) directory root

/-- A memory that holds nothing is closed. -/
theorem closed_empty (marker : String) : Closed ⟨marker, .empty⟩ := by
  intro directory root h
  simp at h

/-- What a search adds goes on upwards like what was known. -/
theorem Closed.remember (h : r.Closed) {o : Overheard σ} {directories : List String} {found : RootSearch × Overheard σ}
    (hfound : r.Climbs o directories found) : (r.remember found.1).Closed := by
  intro d root hknown
  rw [get?_remember] at hknown
  split at hknown
  · rename_i hd
    obtain rfl := Option.some.inj hknown
    refine (hfound.leadsUp d hd).imp_right (.imp_right (.imp_right fun hanswered => ?_))
    rcases hanswered with hprobed | hknown
    · rw [get?_remember, if_pos hprobed]
    · exact get?_remember_of_known hfound.unknown hknown
  · exact (h d root hknown).imp_right (.imp_right (.imp_right (get?_remember_of_known hfound.unknown)))

/-- The root that is known of a directory is that directory or one above it. -/
theorem Closed.mem_ancestors (h : r.Closed) {d top : String} (hknown : r.known.get? d = some (some top)) :
    top ∈ Path.ancestors d := by
  fun_induction Path.ancestors d with
  | case1 d htop =>
    rcases h d _ hknown with hroot | ⟨hnone, -⟩ | ⟨hbelow, -⟩
    · exact List.mem_singleton.2 (Option.some.inj hroot)
    · simp at hnone
    · exact absurd htop hbelow
  | case2 d hbelow _ ih =>
    rcases h d _ hknown with hroot | ⟨hnone, -⟩ | ⟨-, habove⟩
    · rw [Option.some.inj hroot]
      exact List.mem_cons_self
    · simp at hnone
    · exact List.mem_cons_of_mem d (ih habove)

/-- What is known of a directory is known of every directory from there up to the root. -/
theorem Closed.get?_of_mem_ancestors (h : r.Closed) {d e : String} {root : Option String}
    (hknown : r.known.get? d = some root)
    (he : e ∈ Path.ancestors d) (htop : ∀ top ∈ root, top ∈ Path.ancestors e) : r.known.get? e = some root := by
  fun_induction Path.ancestors d with
  | case1 d _ =>
    rw [List.mem_singleton.1 he]
    exact hknown
  | case2 d hbelow _ ih =>
    rcases List.mem_cons.1 he with rfl | he
    · exact hknown
    · rcases h d root hknown with rfl | ⟨-, hnone⟩ | ⟨-, habove⟩
      · -- The root is the directory itself, which is not above one that is above it.
        have hpath := (Path.prefix_of_mem_ancestors (htop d rfl)).trans (Path.prefix_of_mem_ancestors he)
        exact absurd hpath.length_le (Nat.not_le.2 (Path.length_dirname_lt hbelow))
      · exact absurd hnone hbelow
      · exact ih habove he

end Roots

end DocRefs
