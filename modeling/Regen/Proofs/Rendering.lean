import Regen.Proofs.Files

/-!
# Rendering to a file, step by step

`Master.renderFile` is a function: it fails, or it answers with the files as they are afterwards, and
there is nothing in between. A program does one thing after the other instead: it looks at files,
writes one, and may fail at any of these steps, with the files as they are at that moment. `Filing`
is the work that is done in this way, and `Master.previewing` and `Master.rendering` are the steps
of the two functions in their order, the second look at the output included.

**Doing the steps is doing it at once** (`Master.previewing_eq`, `Master.rendering_eq`): nothing that
can fail comes after the write. So a failure leaves all files alone, and a preview always does. What
a successful rendering has done is then a matter of the function, and of the update that it ends
with.
-/

namespace Regen

/-- **Work on files**: steps that look at files or change them and may fail, each of them on the files
that the one before it has left. -/
abbrev Filing := EStateM Failure FileTree

namespace Filing

variable {α β : Type}

/-- A step that gives new files, or fails and leaves the old ones. -/
def atOnce (f : FileTree → Outcome (α × FileTree)) : Filing α := fun tree =>
  match f tree with
  | .ok (a, tree') => .ok a tree'
  | .error e => .error e tree

/-- A step that only looks at the files. -/
def reading (look : FileTree → Outcome α) : Filing α :=
  atOnce fun tree => do return (← look tree, tree)

/-- The step that writes a file. -/
def writing (p : Path) (bytes : Text) : Filing Unit :=
  atOnce fun tree => do return ((), ← Outcome.ofFile (tree.write p bytes))

/-- Writes a file unless it holds these bytes. -/
def updating (p : Path) (bytes : Text) : Filing Status := do
  let status ← reading fun tree => Outcome.ofFile (tree.statusOf p bytes)
  if status ≠ .unchanged then writing p bytes
  return status

/-- A step succeeds if it gives new files. -/
theorem run_atOnce_eq_ok_iff {f : FileTree → Outcome (α × FileTree)} {tree tree' : FileTree} {a : α} :
    (atOnce f).run tree = .ok a tree' ↔ f tree = .ok (a, tree') := by
  unfold EStateM.run atOnce
  cases f tree <;> simp [Prod.ext_iff]

/-- **A step that fails leaves all files as they are.** -/
theorem run_atOnce_eq_error_iff {f : FileTree → Outcome (α × FileTree)} {tree tree' : FileTree}
    {e : Failure} : (atOnce f).run tree = .error e tree' ↔ f tree = .error e ∧ tree' = tree := by
  unfold EStateM.run atOnce
  cases f tree <;> simp [eq_comm]

/-- A look succeeds with the files as they are. -/
theorem run_reading_eq_ok_iff {look : FileTree → Outcome α} {tree tree' : FileTree} {a : α} :
    (reading look).run tree = .ok a tree' ↔ look tree = .ok a ∧ tree' = tree := by
  unfold reading
  rw [run_atOnce_eq_ok_iff]
  cases look tree <;> simp [pure, Except.pure, bind, Except.bind, eq_comm]

/-- A look that fails does so with the files as they are. -/
theorem run_reading_eq_error_iff {look : FileTree → Outcome α} {tree tree' : FileTree}
    {e : Failure} : (reading look).run tree = .error e tree' ↔ look tree = .error e ∧ tree' = tree := by
  unfold reading
  rw [run_atOnce_eq_error_iff]
  cases look tree <;> simp [pure, Except.pure, bind, Except.bind]

/-- An answer is a look at nothing. -/
theorem pure_eq_reading (a : α) : (pure a : Filing α) = reading fun _ => .ok a := rfl

/-- A look before a step is part of the step. -/
theorem reading_bind_atOnce (look : FileTree → Outcome α)
    (next : α → FileTree → Outcome (β × FileTree)) :
    (reading look >>= fun a => atOnce (next a))
      = atOnce fun tree => look tree >>= fun a => next a tree := by
  funext tree
  show EStateM.bind _ _ tree = _
  unfold EStateM.bind reading atOnce
  beta_reduce
  cases look tree <;> rfl

/-- Two looks are one. -/
theorem reading_bind_reading (look : FileTree → Outcome α) (next : α → FileTree → Outcome β) :
    (reading look >>= fun a => reading (next a))
      = reading fun tree => look tree >>= fun a => next a tree := by
  refine (reading_bind_atOnce look _).trans ?_
  unfold reading
  simp only [bind_assoc]

/-- An answer made from what a step has answered is part of the step. -/
theorem atOnce_bind_pure (f : FileTree → Outcome (α × FileTree)) (g : α → β) :
    (atOnce f >>= fun a => pure (g a))
      = atOnce fun tree => do let (a, tree') ← f tree; return (g a, tree') := by
  funext tree
  show EStateM.bind _ _ tree = _
  unfold EStateM.bind atOnce
  beta_reduce
  cases f tree <;> rfl

/-- **Updating a file step by step**: the write is the last step that can fail. -/
theorem updating_eq (p : Path) (bytes : Text) :
    updating p bytes = atOnce fun tree => Outcome.ofFile (tree.update p bytes) := by
  funext tree
  show EStateM.bind _ _ tree = _
  unfold EStateM.bind reading atOnce FileTree.update
  beta_reduce
  cases tree.statusOf p bytes with
  | error e => rfl
  | ok status =>
    cases status with
    | unchanged => rfl
    | created | changed =>
      show EStateM.bind (writing p bytes) _ tree = _
      unfold EStateM.bind writing atOnce
      beta_reduce
      cases tree.write p bytes <;> rfl

end Filing

/-- An operation on files succeeds as such. -/
theorem Outcome.ofFile_eq_ok_iff {α : Type} {x : Except FileError α} {a : α} :
    Outcome.ofFile x = .ok a ↔ x = .ok a := by
  cases x with
  | ok a' => simp [ofFile]
  | error e => simp [ofFile, fail]

namespace Master

/-! ## The steps of the two functions -/

/-- The steps of a preview: the path is settled, the edits of an earlier output are read, the output is
generated, and it is compared with the file. -/
def previewing (m : Master) (r : Recipe) (output? : Option Path) : Filing Rendered := do
  let path ← Filing.reading fun _ => m.outputPath output?
  let previous? ← Filing.reading fun tree => m.previousAt tree path
  let content ← Filing.reading fun _ => m.render r previous?
  let status ← Filing.reading fun tree =>
    Outcome.ofFile (tree.statusOf path (content.inFile m.newline))
  return { path, content, status }

/-- The steps of a rendering: those of a preview, and then the file is compared once more and
written. -/
def rendering (m : Master) (r : Recipe) (output? : Option Path) : Filing Rendered := do
  let rendered ← m.previewing r output?
  let status ← Filing.updating rendered.path (rendered.content.inFile m.newline)
  return { rendered with status }

/-- A preview step by step is a look at the files. -/
theorem previewing_eq (m : Master) (r : Recipe) (output? : Option Path) :
    m.previewing r output? = Filing.reading fun tree => m.preview tree r output? := by
  unfold previewing preview
  simp only [Filing.pure_eq_reading, Filing.reading_bind_reading]
  rfl

/-- **A rendering step by step is one step.** -/
theorem rendering_eq (m : Master) (r : Recipe) (output? : Option Path) :
    m.rendering r output? = Filing.atOnce fun tree => m.renderFile tree r output? := by
  unfold rendering renderFile
  rw [previewing_eq]
  simp only [Filing.updating_eq, Filing.atOnce_bind_pure, Filing.reading_bind_atOnce]

/-! ## What a rendering comes to -/

variable {m : Master} {r : Recipe} {output? : Option Path} {tree tree' : FileTree}
  {rendered : Rendered}

/-- **A preview** settles the path, finds the earlier output, generates, and compares. -/
theorem preview_eq_ok_iff :
    m.preview tree r output? = .ok rendered ↔
      m.outputPath output? = .ok rendered.path ∧
        (∃ previous?, m.previousAt tree rendered.path = .ok previous? ∧
          m.render r previous? = .ok rendered.content) ∧
        tree.statusOf rendered.path (rendered.content.inFile m.newline) = .ok rendered.status := by
  unfold preview
  simp only [bind_eq_ok_iff, Outcome.ofFile_eq_ok_iff]
  constructor
  · rintro ⟨path, hpath, previous?, hprevious, content, hcontent, status, hstatus, ⟨⟩⟩
    exact ⟨hpath, ⟨previous?, hprevious, hcontent⟩, hstatus⟩
  · rintro ⟨hpath, ⟨previous?, hprevious, hcontent⟩, hstatus⟩
    exact ⟨_, hpath, previous?, hprevious, _, hcontent, _, hstatus, rfl⟩

/-- **A rendering is a preview and an update**, and both tell the same status. -/
theorem renderFile_eq_ok_iff :
    m.renderFile tree r output? = .ok (rendered, tree') ↔
      m.preview tree r output? = .ok rendered ∧
        tree.update rendered.path (rendered.content.inFile m.newline)
          = .ok (rendered.status, tree') := by
  unfold renderFile
  simp only [bind_eq_ok_iff, Outcome.ofFile_eq_ok_iff]
  constructor
  · rintro ⟨told, hpreview, ⟨status, tree'⟩, hupdate, ⟨⟩⟩
    have htold := (preview_eq_ok_iff.1 hpreview).2.2
    cases htold.symm.trans (FileTree.update_eq_ok_iff.1 hupdate).1
    exact ⟨hpreview, hupdate⟩
  · rintro ⟨hpreview, hupdate⟩
    exact ⟨rendered, hpreview, _, hupdate, rfl⟩

/-- A rendering fails as its preview does. -/
theorem renderFile_eq_error {e : Failure} (h : m.preview tree r output? = .error e) :
    m.renderFile tree r output? = .error e :=
  bind_eq_error_iff.2 (.inl h)

/-- **Rendering is all or nothing, and a preview predicts it.** Done step by step, a preview leaves all
files as they are, and so does a rendering that fails, at whatever step. If a preview fails, the
rendering fails with the same error. If a rendering succeeds, the preview of the files before it has
the same path, content and status; the file that the path leads to then holds the content with its
line feeds written as in all outputs of the master; every other file is as it was; and the status
tells whether there was a file, and whether it held these bytes already. -/
theorem rendering_allOrNothing (m : Master) (r : Recipe) (output? : Option Path) (tree : FileTree) :
    (∀ rendered tree', (m.previewing r output?).run tree = .ok rendered tree' ↔
      m.preview tree r output? = .ok rendered ∧ tree' = tree) ∧
    (∀ e tree', (m.previewing r output?).run tree = .error e tree' ↔
      m.preview tree r output? = .error e ∧ tree' = tree) ∧
    (∀ rendered tree', (m.rendering r output?).run tree = .ok rendered tree' ↔
      m.renderFile tree r output? = .ok (rendered, tree')) ∧
    (∀ e tree', (m.rendering r output?).run tree = .error e tree' ↔
      m.renderFile tree r output? = .error e ∧ tree' = tree) ∧
    (∀ e, m.preview tree r output? = .error e → m.renderFile tree r output? = .error e) ∧
    ∀ rendered tree', m.renderFile tree r output? = .ok (rendered, tree') →
      m.preview tree r output? = .ok rendered ∧
      ∃ place bytes, tree.resolve rendered.path = .ok place ∧
        bytes = rendered.content.inFile m.newline ∧
        tree.Replaced tree' place bytes ∧ tree'.readBytes rendered.path = .ok bytes ∧
        (∀ p existing, tree.resolve p ≠ .ok place →
          (tree'.readBytes p = .ok existing ↔ tree.readBytes p = .ok existing)) ∧
        (rendered.status = .unchanged ↔ tree.entry? place = some (.file bytes)) ∧
        (rendered.status = .created ↔ tree.entry? place = none) ∧
        (rendered.status = .changed ↔
          ∃ existing, tree.entry? place = some (.file existing) ∧ existing ≠ bytes) := by
  rw [previewing_eq, rendering_eq]
  refine ⟨fun _ _ => Filing.run_reading_eq_ok_iff, fun _ _ => Filing.run_reading_eq_error_iff,
    fun _ _ => Filing.run_atOnce_eq_ok_iff, fun _ _ => Filing.run_atOnce_eq_error_iff,
    fun _ => renderFile_eq_error, ?_⟩
  intro rendered tree' h
  obtain ⟨hpreview, hupdate⟩ := renderFile_eq_ok_iff.1 h
  obtain ⟨place, hplace, hreplaced, hstatus⟩ := FileTree.update_eq_ok hupdate
  exact ⟨hpreview, place, _, hplace, rfl, hreplaced, hreplaced.readBytes_eq hplace,
    fun _ _ hp => hreplaced.readBytes_eq_ok_iff_of_ne hp, hstatus⟩

end Master

/-! ## A file brought up to date -/

/-- A file with a block that is out of date, whose lines end in carriage returns, and another one. -/
def FileTree.sample : FileTree :=
  { entries := [(["a"], .file "p\r\r\n[[[ x ]]]\r\n[[[ end ]]]\r\nq\r"), (["b"], .file "y\n")] }

/-- The master in the first file. -/
def Master.sample : Master :=
  ((Master.ofFile .sample .standard .directive "/a").toOption).getD
    { document := { source := [], marks := [], edits := [] }, settings := .standard
      mode := .directive, input := none, hadCarriageReturns := false }

/-- Every block gets its header as its body. -/
def Recipe.echo : Recipe := { renderer := fun t _ => .ok t, context := [], removeMarkers := false }

namespace Master

/-- The rendering of the file onto itself fills the block, and the preview has told so. -/
theorem rendering_allOrNothing_sample :
    ∃ rendered tree', sample.renderFile .sample .echo none = .ok (rendered, tree') ∧
      sample.preview .sample .echo none = .ok rendered ∧ rendered.status = .changed ∧
      tree'.readBytes "/a" = .ok ("p\r\r\n[[[ x ]]]\r\nx\r\n[[[ end ]]]\r\nq\r" : Text) ∧
      tree'.readBytes "/b" = .ok ("y\n" : Text) := by
  obtain ⟨rendered, tree', h⟩ :
      ∃ rendered tree', sample.renderFile .sample .echo none = .ok (rendered, tree') := ⟨_, _, by rfl⟩
  obtain ⟨-, -, -, -, -, hrender⟩ := rendering_allOrNothing sample .echo none .sample
  obtain ⟨hpreview, place, bytes, hplace, hbytes, hreplaced, hread, hothers, -, -, hchanged⟩ :=
    hrender rendered tree' h
  have hexpected : sample.preview .sample .echo none =
      .ok ⟨"/a", "p\r\n[[[ x ]]]\nx\n[[[ end ]]]\nq\r", .changed⟩ := by rfl
  cases hexpected.symm.trans hpreview
  cases (show FileTree.sample.resolve "/a" = .ok ["a"] by rfl).symm.trans hplace
  exact ⟨_, tree', h, hpreview, rfl, hread.trans (by rw [hbytes]; rfl),
    (hothers "/b" _ (by decide +kernel)).2 (by rfl)⟩

end Master

end Regen
