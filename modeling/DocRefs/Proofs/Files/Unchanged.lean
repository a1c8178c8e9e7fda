import DocRefs.Files.Store
import DocRefs.Proofs.Files.Tree

/-!
# Files that nobody changes

A place that holds files may become another place when it is asked. It is unchanged as long as the same paths lead to
something however often it is asked (`FileSystem.Unchanged`), as every tree, every disk and every store is while it is
only asked (`Store.unchanged`).
-/

namespace DocRefs

namespace FileSystem

variable {σ : Type} [FileSystem σ] {place asked : σ} {there : String → Bool}

/-- What a place may become by being asked. -/
inductive AskedFrom (place : σ) : σ → Prop
  | refl : AskedFrom place place
  | presence {asked : σ} (h : AskedFrom place asked) (path : String) : AskedFrom place (pathExists asked path).2
  | entries {asked : σ} (h : AskedFrom place asked) (directory : String) :
      AskedFrom place (listDirectory asked directory).2

theorem AskedFrom.trans {later : σ} (h : AskedFrom place asked) (hlater : AskedFrom asked later) :
    AskedFrom place later := by
  induction hlater with
  | refl => exact h
  | presence _ path ih => exact ih.presence path
  | entries _ directory ih => exact ih.entries directory

/-- A place where certain paths lead to something and others to nothing, however often it is asked. -/
def Unchanged (place : σ) (there : String → Bool) : Prop :=
  ∀ asked, AskedFrom place asked → ∀ path, (pathExists asked path).1 = there path

/-- An unchanged place answers what is there. -/
theorem Unchanged.pathExists_eq (h : Unchanged place there) (path : String) : (pathExists place path).1 = there path :=
  h place .refl path

/-- An unchanged place is unchanged after it is asked. -/
theorem Unchanged.askedFrom (h : Unchanged place there) (hasked : AskedFrom place asked) : Unchanged asked there :=
  fun later hlater => h later (hasked.trans hlater)

/-- It is unchanged after it is asked for a path. -/
theorem Unchanged.presence (h : Unchanged place there) (path : String) : Unchanged (pathExists place path).2 there :=
  h.askedFrom (.presence .refl path)

/-- It is unchanged after it is asked for a listing. -/
theorem Unchanged.entries (h : Unchanged place there) (directory : String) :
    Unchanged (listDirectory place directory).2 there :=
  h.askedFrom (.entries .refl directory)

/-- A place that hands every question on to an unchanged one is unchanged too. -/
theorem Unchanged.handedOn {τ : Type} [FileSystem τ] {inner : τ} (h : Unchanged inner there) (outer : τ → σ)
    (hpresence : ∀ t path, pathExists (outer t) path = ((pathExists t path).1, outer (pathExists t path).2))
    (hentries : ∀ t directory, (listDirectory (outer t) directory).2 = outer (listDirectory t directory).2) :
    Unchanged (outer inner) there := by
  have hinner : ∀ asked, AskedFrom (outer inner) asked → ∃ t, asked = outer t ∧ AskedFrom inner t := by
    intro asked hasked
    induction hasked with
    | refl => exact ⟨inner, rfl, .refl⟩
    | presence _ path ih =>
      obtain ⟨t, rfl, ht⟩ := ih
      exact ⟨_, congrArg Prod.snd (hpresence t path), ht.presence path⟩
    | entries _ directory ih =>
      obtain ⟨t, rfl, ht⟩ := ih
      exact ⟨_, hentries t directory, ht.entries directory⟩
  intro asked hasked path
  obtain ⟨t, rfl, ht⟩ := hinner asked hasked
  rw [hpresence]
  exact h t ht path

end FileSystem

open FileSystem (AskedFrom Unchanged)

/-- A tree that is asked counts the questions and keeps its files. -/
theorem Tree.unchanged (t : Tree) : Unchanged t t.presence := by
  have hagrees : ∀ asked : Tree, AskedFrom t asked → t.Agrees asked := by
    intro asked hasked
    induction hasked with
    | refl => exact .rfl
    | @presence asked _ path ih => exact ih.trans (asked.agrees_pathExists path)
    | @entries asked _ directory ih => exact ih.trans (asked.agrees_listDirectory directory)
  intro asked hasked path
  exact congrFun (hagrees asked hasked).presence_eq path

/-- A disk that is asked stays as it is. -/
theorem Disk.unchanged (d : Disk) : Unchanged d d.pathExists := by
  have hsame : ∀ asked : Disk, AskedFrom d asked → asked = d := by
    intro asked hasked
    induction hasked with
    | refl => rfl
    | presence _ _ ih => exact ih
    | entries _ _ ih => exact ih
  intro asked hasked path
  rw [hsame asked hasked]
  rfl

/-- Whatever holds the files, they are unchanged while they are only asked for. -/
theorem Store.unchanged (s : Store) : ∃ there, Unchanged s there := by
  cases s with
  | memory t => exact ⟨_, t.unchanged.handedOn memory (fun _ _ => rfl) fun _ _ => rfl⟩
  | disk d => exact ⟨_, d.unchanged.handedOn disk (fun _ _ => rfl) fun _ _ => rfl⟩

end DocRefs
