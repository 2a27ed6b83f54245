import ScriptModules.Cli.Run
import ScriptModules.Proofs.Convert.Stages
import ScriptModules.Tools

/-!
# Failures that leave the disk as it was

The faults that are of the user's making come up before anything is changed. The plan of a
conversion is made without a disk to change, and the one check of the writing stage stands at its
start. What clearing, filling and reporting fail with are other faults: `filling_raises`,
`clearing_raises` and `reporting_raises` say so.
-/

namespace ScriptModules

theorem emitFile_raises (p : Path) (text : Except RenderFault String) :
    (emitFile p text).Raises fun e => ∀ index, e ≠ .indexTaken index := by
  refine .bind (.makeFolders _ _ fun e index => by simp) fun _ => .bind ?_ fun text => ?_
  · exact .ofExcept _ _ fun e _ index => by simp
  · exact .change _ _ fun e index => by simp

theorem clearing_raises (dest : Path) :
    (clearing dest).Raises fun e => ∀ index, e ≠ .indexTaken index := by
  intro d d' e h
  simp only [clearing, DiskStep.value_on_bind, DiskStep.value_on_get] at h
  split at h
  · have hchange : (DiskStep.change (EmitFault.disk · dest) fun d => d.removeTree dest).Raises
        fun e => ∀ index, e ≠ .indexTaken index := .change _ _ fun e index => by simp
    exact hchange d d' e h
  · simp at h

theorem State.filling_raises (s : State) (current dest : Path) (indexKey : String) :
    (s.filling current dest indexKey).Raises fun e => ∀ index, e ≠ .indexTaken index := by
  refine .bind (.mapM _ _ fun key => ?_) fun modules => ?_
  · exact .bind (emitFile_raises _ _) fun _ => .bind (.notify _) fun _ => .pure _
  · exact .bind (emitFile_raises _ _) fun _ => .bind (.notify _) fun _ => .pure _

/-- The aggregator's name is checked before anything changes. -/
theorem State.writeModules_indexTaken {s : State} {current dest : Path} {index i : String}
    {d d' : Disk}
    (h : (DiskStep.on d (s.writeModules current dest index)).value =
      (d', .error (.indexTaken i))) :
    d' = d := by
  rw [value_on_writeModules] at h
  split at h
  · exact (congrArg Prod.fst h).symm
  · have hraises := (clearing_raises dest).bind fun _ =>
      s.filling_raises current dest (normalize index)
    exact (hraises d d' _ h i rfl).elim

namespace Job

theorem reportPath_error {w : Surroundings} {j : Job} {f : Fault}
    (h : j.reportPath w = .error f) : f = .homeless := by
  unfold reportPath at h
  split at h
  · cases h
  · split at h
    · cases h
    · next text _ _ =>
      cases hexpand : w.expand (Path.ofString text) with
      | ok p => simp [hexpand, bind, Except.bind, pure, Except.pure] at h
      | error e =>
        simp only [hexpand, bind, Except.bind, Except.error.injEq] at h
        unfold Surroundings.expand at hexpand
        split at hexpand
        · split at hexpand
          · split at hexpand
            · cases hexpand
            · cases hexpand
              exact h.symm
          · cases hexpand
        · cases hexpand

theorem reporting_raises (rules : Coercion) (w : Surroundings) (j : Job) (plan : Plan) :
    (j.reporting rules w plan).Raises fun f => f.reported? = none := by
  refine .bind (.ofExcept _ _ fun f hf => ?_) fun report => ?_
  · rw [id, reportPath_error hf]
    rfl
  · cases report with
    | none => exact .pure _
    | some p =>
      refine .bind (.makeFolders _ _ fun e => rfl) fun _ => .bind ?_ fun text => ?_
      · exact .ofExcept _ _ fun e _ => rfl
      · exact .bind (.change _ _ fun e => rfl) fun _ => .notify _

theorem emission_reported {w : Surroundings} {j : Job} {plan : Plan} {d d' : Disk} {f : Fault}
    (h : (DiskStep.on d (j.emission w plan)).value = (d', .error f)) (hf : f.reported?.isSome) :
    d' = d := by
  unfold emission at h
  split at h
  · next dest _ =>
    rw [DiskStep.value_on_adapt] at h
    generalize hwrite :
      (DiskStep.on d (plan.state.writeModules w.current dest j.options.index)).value = r at h
    obtain ⟨d₁, result⟩ := r
    cases result with
    | ok written => simp at h
    | error e =>
      simp only [mapError_error, Prod.mk.injEq, Except.error.injEq] at h
      obtain ⟨rfl, rfl⟩ := h
      cases e with
      | indexTaken i => exact State.writeModules_indexTaken hwrite
      | render fault => simp [Fault.reported?] at hf
      | disk fault p => simp [Fault.reported?] at hf
  · simp at h

theorem convert_reported {tools : Tools} {w : Surroundings} {j : Job} {d d' : Disk} {f : Fault}
    (h : (DiskStep.on d (j.convert tools w)).value = (d', .error f)) (hf : f.reported?.isSome) :
    d' = d := by
  rw [value_on_convert] at h
  split at h
  · rw [value_on_carryOut] at h
    rcases DiskStep.error_of_bind h with h | ⟨d₁, written, -, h⟩
    · exact emission_reported h hf
    · -- After the modules were written only the report can fail.
      rcases DiskStep.error_of_bind h with h | ⟨d₂, _, -, h⟩
      · rw [reporting_raises _ w j _ _ _ _ h] at hf
        cases hf
      · simp at h
  · exact (congrArg Prod.fst h).symm

/-- A conversion that ends with a fault of the configuration, a name with two owners or a taken
aggregator name has changed nothing on the disk, and neither has a conversion from the command line
that ends with an error. -/
theorem convert_untouched (tools : Tools) (w : Surroundings) (d : Disk) :
    (∀ (j : Job) (d' : Disk) (f : Fault),
      (DiskStep.on d (j.convert tools w)).value = (d', .error f) →
      (∃ c, f = .config c) ∨ (∃ name existing duplicate,
        f = .link (.duplicateDefinition name existing duplicate)) ∨
        (∃ index, f = .emit (.indexTaken index)) → d' = d) ∧
    ∀ (root : Path) (t : Cli.Settings) (d' : Disk) (ending : Cli.Ending),
      Cli.runConvert tools w d root t = (d', .ok ending) → ending.status ≠ 0 → d' = d := by
  refine ⟨fun j d' f h hf => convert_reported h ?_, fun root t d' ending h hstatus => ?_⟩
  · rcases hf with ⟨c, rfl⟩ | ⟨name, existing, duplicate, rfl⟩ | ⟨index, rfl⟩ <;> rfl
  · unfold Cli.runConvert at h
    split at h
    · exact (congrArg Prod.fst h).symm
    · split at h
      · exact (congrArg Prod.fst h).symm
      · dsimp only at h
        split at h
        · -- A conversion that succeeds has the status 0.
          simp only [Prod.mk.injEq, Except.ok.injEq] at h
          exact (hstatus (h.2 ▸ rfl)).elim
        · next d₁ f hrun =>
          simp only [Prod.mk.injEq] at h
          obtain ⟨rfl, h⟩ := h
          refine convert_reported hrun ?_
          -- Only reported faults become an ending.
          cases hf : f.reported? with
          | some message => rfl
          | none => simp [Cli.Ending.ofFault, hf, Except.map] at h

/-- A source root with a name of two owners and an output of an earlier conversion. -/
def contested : Disk :=
  ⟨[("root", .folder [("a.js", .file "var x = 1;\n".toUTF8), ("b.js", .file "var x = 2;\n".toUTF8),
    ("out", .folder [("a.js", .file "var x;\n".toUTF8)])])]⟩

/-- A conversion that refuses names with two owners, and would write a report. -/
def strict : Job where
  root := ⟨.root, ["root"]⟩
  options := { Options.default with
    files := ["a.js", "b.js"], duplicates := .error, report := some "report.json" }
  dest := some ⟨.root, ["root", "out"]⟩
  ignored := []

theorem convert_untouched_contested :
    (DiskStep.on contested (strict.convert .own .bare)).value =
      (contested, .error (.link (.duplicateDefinition "x" "a.js" "b.js"))) := by
  have hfault := DiskStep.error_of_fault?
    (show DiskStep.fault? contested (strict.convert .own .bare) =
      some (.link (.duplicateDefinition "x" "a.js" "b.js")) by decide +kernel)
  have huntouched := (convert_untouched .own .bare contested).1 strict _ _
    (Prod.ext rfl hfault) (.inr (.inl ⟨"x", "a.js", "b.js", rfl⟩))
  exact Prod.ext huntouched hfault

end Job

end ScriptModules
