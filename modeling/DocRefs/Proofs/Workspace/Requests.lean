import DocRefs.Files.Tree
import DocRefs.Proofs.Reference.Ranges
import DocRefs.Proofs.Text.Fields
import DocRefs.Workspace
import Mathlib

/-!
# Which requests about a document are answered

Resolving, linting and linking a document asks nothing of the place that holds the files that it could refuse, so they
fail only where the root directory cannot be made out or the scan fails. The scan fails on some texts: one oversized
numeral in a labelled block leaves the whole document without an answer (`Workspace.lint_oversized`), and nothing else
does (`Workspace.requests_answered`).
-/

namespace DocRefs

/-- A text in which a reference with an oversized segment is written. -/
def HasOversized (text : List Char) : Prop :=
  ∃ f : Form, f.WellFormed ∧ f.text <:+: text ∧ f.Oversized

/-- A text can be scanned if none of its references holds an oversized numeral. -/
theorem Reference.scan_isOk_iff_not_hasOversized {text : String} :
    (∃ refs, Reference.scan text = .ok refs) ↔ ¬ HasOversized text.toList := by
  rw [Reference.scan_isOk_iff, HasOversized]
  simp

namespace Workspace

variable {σ : Type} [FileSystem σ]

/-- Naming the cause of a failure does not change whether there is one. -/
theorem mapError_isOk_iff {ε ε' α : Type} {x : Except ε α} {g : ε → ε'} :
    (∃ a, x.mapError g = .ok a) ↔ ∃ a, x = .ok a := by
  cases x <;> simp [Except.mapError]

/-- References are resolved exactly when the root directory can be made out and the scan succeeds. -/
theorem resolve_isOk_iff {w : Workspace σ} {d : Document} :
    (∃ a, w.resolve d = .ok a) ↔ (∃ o, w.rootOverride = .ok o) ∧ ∃ refs, Reference.scan d.text = .ok refs := by
  rw [← mapError_isOk_iff (g := RequestError.noHome), ← mapError_isOk_iff (g := RequestError.numeralTooLong)]
  unfold resolve
  constructor
  · rintro ⟨a, ha⟩
    obtain ⟨o, ho, ha⟩ := bind_eq_ok_iff.1 ha
    obtain ⟨refs, hrefs, -⟩ := bind_eq_ok_iff.1 ha
    exact ⟨⟨o, ho⟩, refs, hrefs⟩
  · rintro ⟨⟨o, ho⟩, refs, hrefs⟩
    rw [ho, hrefs]
    cases refs with
    | nil => exact ⟨_, rfl⟩
    | cons r refs => exact ⟨_, rfl⟩

/-- The references of a resolution are those that the references resolved are. -/
theorem toReference_resolveAll (base : String) (references : List Reference) (fs : σ) :
    (resolveAll base references fs).1.map (·.toReference) = references := by
  induction references generalizing fs with
  | nil => rfl
  | cons r rs ih =>
    rw [resolveAll]
    simp only [resolveReference, List.map_cons, ih]

/-- What is resolved of a document is what the scan of its text reports. -/
theorem scan_of_resolve {w : Workspace σ} {d : Document} {a : Answer σ (List ResolvedReference)}
    (h : w.resolve d = .ok a) : Reference.scan d.text = .ok (a.value.map (·.toReference)) := by
  obtain ⟨override, -, hresolved⟩ := bind_eq_ok_iff.1 h
  obtain ⟨refs, hscan, hresolved⟩ := bind_eq_ok_iff.1 hresolved
  rw [mapError_eq_ok_iff] at hscan
  rw [hscan]
  clear h
  cases refs with
  | nil =>
    obtain rfl := Except.ok.inj hresolved
    rfl
  | cons r rs =>
    obtain rfl := Except.ok.inj hresolved
    exact congrArg Except.ok (toReference_resolveAll _ _ _).symm

/-- A document is linted exactly when its references are resolved. -/
theorem lint_isOk_iff {w : Workspace σ} {d : Document} : (∃ a, w.lint d = .ok a) ↔ ∃ a, w.resolve d = .ok a := by
  unfold lint
  cases w.resolve d <;> simp [bind, Except.bind, pure, Except.pure]

/-- A document has links exactly when its references are resolved. -/
theorem links_isOk_iff {w : Workspace σ} {d : Document} : (∃ a, w.links d = .ok a) ↔ ∃ a, w.resolve d = .ok a := by
  unfold links
  cases w.resolve d <;> simp [bind, Except.bind, pure, Except.pure]

/-- A document is scanned exactly when no reference in it is oversized, and it is resolved, linted and has its links
under the same condition wherever the root directory can be made out, whatever its path and whatever files there are.
Every reference that is written in it is then reported. Where labels are regarded in it, a segment of the last block
with a label that is neither a numeral nor a pair is reported as it stands; where they are not, it has no ranges. -/
theorem requests_answered (w : Workspace σ) (d : Document) :
    ((∃ refs, Reference.scan d.text = .ok refs) ↔ ¬ HasOversized d.text.toList) ∧
    ((∃ a, w.resolve d = .ok a) ↔ (∃ o, w.rootOverride = .ok o) ∧ ¬ HasOversized d.text.toList) ∧
    ((∃ a, w.lint d = .ok a) ↔ (∃ o, w.rootOverride = .ok o) ∧ ¬ HasOversized d.text.toList) ∧
    ((∃ a, w.links d = .ok a) ↔ (∃ o, w.rootOverride = .ok o) ∧ ¬ HasOversized d.text.toList) ∧
    ∀ refs, Reference.scan d.text = .ok refs →
      (∀ i j : Nat, (∃ r ∈ refs, r.span = ⟨i, j⟩) ↔ OccursAt d.text.toList i j) ∧
      ∀ r ∈ refs, ∀ f : Form, f.WellFormed →
      f.text = stretch d.text.toList r.span.start.toNat r.span.stop.toNat → ∀ label,
        (f.LabelsCount →
          Option.Rel (fun body ranges => List.Forall₂ Range.Denotes (fields ',' body) ranges) (f.lastBody? label)
            (r.rangesFor label)) ∧
        (¬ f.LabelsCount → r.rangesFor label = none) := by
  have hscan : (∃ refs, Reference.scan d.text = .ok refs) ↔ ¬ HasOversized d.text.toList :=
    Reference.scan_isOk_iff_not_hasOversized
  refine ⟨hscan, ?_, ?_, ?_, ?_⟩
  · rw [resolve_isOk_iff, hscan]
  · rw [lint_isOk_iff, resolve_isOk_iff, hscan]
  · rw [links_isOk_iff, resolve_isOk_iff, hscan]
  · intro refs hrefs
    refine ⟨fun i j => Reference.exists_span_iff hrefs, ?_⟩
    intro r hr f hf htext label
    have hrel := Form.rel_rangesFor (Reference.toReference_of_text_eq hrefs hr hf htext) label
    constructor
    · intro hcount
      rwa [Form.find?_labelled hcount] at hrel
    · intro hcount
      rw [Form.labelled_of_not_labelsCount hcount] at hrel
      generalize r.rangesFor label = ranges at hrel
      cases hrel
      rfl

/-- A segment that is no range costs neither its neighbour nor the document its answer. -/
theorem requests_answered_malformed :
    Reference.scan "{* a ln[3-5,8] *}" =
        .ok [⟨"a", some [.unparseable "3-5", .lines 8 8], none, ⟨0, 17⟩⟩] ∧
      ∃ a, (Workspace.new Tree.empty {} {}).lint ⟨"/a.md", "{* a ln[3-5,8] *}"⟩ = .ok a := by
  have hscan : Reference.scan "{* a ln[3-5,8] *}" =
    .ok [⟨"a", some [.unparseable "3-5", .lines 8 8], none, ⟨0, 17⟩⟩] := by cbv
  have hanswered := requests_answered (Workspace.new Tree.empty {} {}) ⟨"/a.md", "{* a ln[3-5,8] *}"⟩
  exact ⟨hscan, hanswered.2.2.1.2 ⟨⟨none, rfl⟩, hanswered.1.1 ⟨_, hscan⟩⟩⟩

/-- The reference `{* a ln[..] *}` with a given body. -/
def lineForm (body : List Char) : Form where
  family := .star
  modifier := none
  gap := [' ']
  path := ['a']
  blocks := [⟨[' '], some .lines, body⟩]
  tail := [' ']

/-- A numeral that is too long makes the one reference of a text oversized. -/
theorem hasOversized_lineForm {digits : List Char} (hnumeral : IsNumeral digits)
    (hbody : ∀ c ∈ digits, isBodyChar c = true)
    (hlong : maxDigits < digits.length) : HasOversized ("\x7b* a ln[".toList ++ (digits ++ "] *\x7d".toList)) := by
  have hspace : ∀ c ∈ [' '], isBlank c = true := List.forall_mem_singleton.2 (by decide)
  have hform : (lineForm digits).WellFormed := Form.wellFormed_withBlock ⟨⟨by simp, hspace⟩, hnumeral.1, hbody⟩
  have hcomma : ',' ∉ digits := fun hc => absurd (hnumeral.2 _ hc) (by decide)
  refine ⟨lineForm digits, hform, ⟨[], [], ?_⟩, ⟨_, List.mem_singleton.2 rfl, rfl, rfl⟩, _,
    List.mem_singleton.2 rfl, rfl, digits, ?_, .inl ⟨hnumeral, hlong⟩⟩
  · simp [lineForm, Form.text, Form.opener, Block.text, Label.text, Family.mark]
  · rw [fields_of_notMem hcomma]
    exact List.mem_singleton.2 rfl

/-- A numeral of 4301 digits in one block leaves a document without diagnostics. -/
theorem lint_oversized :
    ¬ ∃ a, (Workspace.new Tree.empty {} {}).lint
      ⟨"/a.md", String.ofList ("\x7b* a ln[".toList ++ (List.replicate 4301 '1' ++ "] *\x7d".toList))⟩ = .ok a := by
  rw [lint_isOk_iff, resolve_isOk_iff, Reference.scan_isOk_iff_not_hasOversized, String.toList_ofList]
  rintro ⟨-, hnone⟩
  have hdigits : ∀ c ∈ List.replicate 4301 '1', c = '1' := fun c hc => List.eq_of_mem_replicate hc
  have hlength : (List.replicate 4301 '1').length = 4301 := List.length_replicate
  generalize List.replicate 4301 '1' = digits at hdigits hlength hnone
  refine hnone (hasOversized_lineForm ⟨?_, ?_⟩ ?_ ?_)
  · rintro rfl
    simp at hlength
  · intro c hc
    rw [hdigits c hc]
    decide
  · intro c hc
    rw [hdigits c hc]
    decide
  · rw [hlength]
    decide

end Workspace

end DocRefs
